import ModelCatalog.Proofs.Tag.Identifier
import ModelCatalog.Tag.Condensed

/-!
# The grammar of condensed tag expressions

Expressions as syntax trees, with the word that a tree writes and the tags that it stands for:

* a chain `a::b.c` stands for its whole identifier and for every beginning that a point ends;
* a group stands for what its components stand for;
* a chain with a group behind it stands for what the chain stands for, its whole identifier only behind
  a point, and for that identifier continued with every tag of the group.

The chains of names behind the tags (`Component.chains`) are given beside them; a tag is the identifier
of one of these chains (`Component.tags_eq`), and of only one (`Expression.identifier_injOn`).
-/

namespace ModelCatalog

namespace Condensed

/-- A word that can stand as a name. -/
abbrev Name := {word : List Char // isName word}

/-- The characters of a separator. -/
def Separator.word : Separator → List Char
  | .strict => [':', ':']
  | .accumulating => ['.']

/-- A chain as it is written: a name, and names with a separator before each. -/
structure Written where
  first : Name
  rest : List (Separator × Name)

namespace Written

/-- The characters of a chain. -/
def word (written : Written) : List Char :=
  written.first.1 ++ written.rest.flatMap fun link => link.1.word ++ link.2.1

/-- Two chains with a separator between them. -/
def link (left : Written) (separator : Separator) (right : Written) : Written :=
  ⟨left.first, left.rest ++ (separator, right.first) :: right.rest⟩

theorem word_link {left right : Written} {separator : Separator} :
    (left.link separator right).word = left.word ++ separator.word ++ right.word := by
  simp [link, word]

/-- The names of a chain. -/
def names (written : Written) : Chain := written.first.1 :: written.rest.map fun link => link.2.1

/-- The identifier of the whole chain. -/
def deepest (written : Written) : String := written.names.identifier

/-- The tags of a chain: the whole identifier, and that of each beginning with a point behind it. -/
def tags (written : Written) : Set String :=
  {tag | tag = written.deepest ∨ ∃ position, ∃ below : position < written.rest.length,
    written.rest[position].1 = .accumulating ∧
      tag = Chain.identifier (written.names.take (position + 1))}

/-- The chains of names behind the tags of a chain. -/
def chains (written : Written) : Set Chain :=
  {chain | chain = written.names ∨ ∃ position, ∃ below : position < written.rest.length,
    written.rest[position].1 = .accumulating ∧ chain = written.names.take (position + 1)}

end Written

/-- A component: a chain, a group, or a chain continued by a group. A group may be empty. -/
inductive Component where
  | chain (written : Written)
  | group (body : List Component)
  | nested (written : Written) (separator : Separator) (body : List Component)

/-- An expression: components with commas between them. The one without components is empty. -/
abbrev Expression := List Component

mutual

/-- The characters of a component. -/
def Component.word : Component → List Char
  | .chain written => written.word
  | .group body => '\x7b' :: (Expression.word body ++ ['\x7d'])
  | .nested written separator body =>
    written.word ++ separator.word ++ '\x7b' :: (Expression.word body ++ ['\x7d'])

/-- The characters of an expression. -/
def Expression.word : Expression → List Char
  | [] => []
  | [component] => component.word
  | component :: rest => component.word ++ ',' :: Expression.word rest

end

mutual

/-- The tags that a component stands for. -/
def Component.tags : Component → Set String
  | .chain written => written.tags
  | .group body => Expression.tags body
  | .nested written separator body =>
    {tag | tag ∈ written.tags ∧ (tag = written.deepest → separator = .accumulating)} ∪
      {tag | ∃ inner ∈ Expression.tags body, tag = written.deepest ++ "::" ++ inner}

/-- The tags that an expression stands for. -/
def Expression.tags : Expression → Set String
  | [] => ∅
  | component :: rest => component.tags ∪ Expression.tags rest

end

mutual

/-- The chains of names behind the tags of a component. -/
def Component.chains : Component → Set Chain
  | .chain written => written.chains
  | .group body => Expression.chains body
  | .nested written separator body =>
    {chain | chain ∈ written.chains ∧ (chain = written.names → separator = .accumulating)} ∪
      {chain | ∃ inner ∈ Expression.chains body, chain = written.names ++ inner}

/-- The chains of names behind the tags of an expression. -/
def Expression.chains : Expression → Set Chain
  | [] => ∅
  | component :: rest => component.chains ∪ Expression.chains rest

end

/-! ## Tags and chains of names -/

namespace Written

variable {written : Written} {chain : Chain}

theorem isNamed_names : written.names.IsNamed := by
  refine ⟨List.cons_ne_nil _ _, List.forall_mem_cons.mpr ⟨written.first.2, ?_⟩⟩
  intro name member
  obtain ⟨link, _, rfl⟩ := List.mem_map.mp member
  exact link.2.2

theorem isNamed_of_mem_chains (member : chain ∈ written.chains) : chain.IsNamed := by
  rcases member with rfl | ⟨position, below, _, rfl⟩
  · exact isNamed_names
  · refine ⟨List.cons_ne_nil _ _, fun name inside => ?_⟩
    exact isNamed_names.2 name (List.mem_of_mem_take inside)

theorem tags_eq : written.tags = Chain.identifier '' written.chains := by
  ext tag
  constructor
  · rintro (rfl | ⟨position, below, point, rfl⟩)
    · exact ⟨written.names, .inl rfl, rfl⟩
    · exact ⟨_, .inr ⟨position, below, point, rfl⟩, rfl⟩
  · rintro ⟨chain, rfl | ⟨position, below, point, rfl⟩, rfl⟩
    · exact .inl rfl
    · exact .inr ⟨position, below, point, rfl⟩

/-- A tag of a chain is its whole identifier only when the chain of names behind it is the whole one. -/
theorem identifier_eq_deepest_iff (member : chain ∈ written.chains) :
    chain.identifier = written.deepest ↔ chain = written.names :=
  ⟨fun same => Chain.identifier_injective (isNamed_of_mem_chains member) isNamed_names same,
    fun same => same ▸ rfl⟩

end Written

mutual

theorem Component.isNamed_of_mem_chains {chain : Chain} :
    (component : Component) → chain ∈ component.chains → chain.IsNamed
  | .chain written, member => Written.isNamed_of_mem_chains member
  | .group body, member => Expression.isNamed_of_mem_chains body member
  | .nested written separator body, member => by
    rcases member with ⟨outer, _⟩ | ⟨inner, inside, rfl⟩
    · exact Written.isNamed_of_mem_chains outer
    · have innerNamed := Expression.isNamed_of_mem_chains body inside
      refine ⟨List.append_ne_nil_of_left_ne_nil Written.isNamed_names.1 _, fun name listed => ?_⟩
      rcases List.mem_append.mp listed with before | behind
      · exact Written.isNamed_names.2 name before
      · exact innerNamed.2 name behind

theorem Expression.isNamed_of_mem_chains {chain : Chain} :
    (expression : Expression) → chain ∈ Expression.chains expression → chain.IsNamed
  | [], member => absurd member (Set.notMem_empty chain)
  | component :: rest, member => by
    rcases member with first | later
    · exact component.isNamed_of_mem_chains first
    · exact Expression.isNamed_of_mem_chains rest later

end

mutual

/-- The tags of a component are the identifiers of its chains. -/
theorem Component.tags_eq : (component : Component) → component.tags = Chain.identifier '' component.chains
  | .chain written => Written.tags_eq
  | .group body => Expression.tags_eq body
  | .nested written separator body => by
    rw [Component.tags, Component.chains, Set.image_union, Expression.tags_eq body, Written.tags_eq]
    congr 1
    · ext tag
      constructor
      · rintro ⟨⟨chain, member, rfl⟩, strict⟩
        exact ⟨chain, ⟨member, fun whole => strict ((Written.identifier_eq_deepest_iff member).mpr whole)⟩, rfl⟩
      · rintro ⟨chain, ⟨member, strict⟩, rfl⟩
        exact ⟨⟨chain, member, rfl⟩, fun whole => strict ((Written.identifier_eq_deepest_iff member).mp whole)⟩
    · ext tag
      constructor
      · rintro ⟨_, ⟨inner, member, rfl⟩, rfl⟩
        have some := (Expression.isNamed_of_mem_chains body member).1
        exact ⟨_, ⟨inner, member, rfl⟩, Chain.identifier_append Written.isNamed_names.1 some⟩
      · rintro ⟨_, ⟨inner, member, rfl⟩, rfl⟩
        have some := (Expression.isNamed_of_mem_chains body member).1
        exact ⟨_, ⟨inner, member, rfl⟩, Chain.identifier_append Written.isNamed_names.1 some⟩

/-- The tags of an expression are the identifiers of its chains. -/
theorem Expression.tags_eq :
    (expression : Expression) → Expression.tags expression = Chain.identifier '' Expression.chains expression
  | [] => (Set.image_empty _).symm
  | component :: rest => by
    rw [Expression.tags, Expression.chains, Set.image_union, component.tags_eq, Expression.tags_eq rest]

end

/-- Different chains of an expression have different identifiers. -/
theorem Expression.identifier_injOn (expression : Expression) :
    Set.InjOn Chain.identifier (Expression.chains expression) :=
  Chain.identifier_injective.mono fun _ member => Expression.isNamed_of_mem_chains expression member

end Condensed

end ModelCatalog
