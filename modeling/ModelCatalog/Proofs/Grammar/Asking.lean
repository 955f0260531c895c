import ModelCatalog.Grammar.Filter
import ModelCatalog.Proofs.Grammar.Containers

/-!
# What the elements of a filter ask for

An element of a filter asks for its kind only, for an operation with a literal, or for an operation with the
elements that it holds; a logical element connects what its children spell. For every such form there is an
equivalence: when an element is read in this form, and to what (`Element.choice_eq_ok_iff`,
`Element.compared_eq_ok_iff`, `Element.connected_iff`, `Element.collection_eq_ok_iff`). The kinds of values,
types and dimensions share the forms.
-/

namespace ModelCatalog

variable {α : Type}

/-- The operation that asks for a comparison. -/
def Comparison.operation : Comparison → Operation
  | .equals => .equals
  | .less => .less
  | .lessOrEqual => .lessOrEqual
  | .greater => .greater
  | .greaterOrEqual => .greaterOrEqual

namespace Operation

theorem comparison?_operation (relation : Comparison) : relation.operation.comparison? = some relation := by
  cases relation <;> rfl

theorem mem_ofNumber_iff {operation : Operation} :
    operation ∈ ofNumber ↔ operation = .none ∨ ∃ relation : Comparison, operation = relation.operation := by
  constructor
  · intro legal
    simp only [ofNumber, List.mem_cons, List.not_mem_nil, or_false] at legal
    rcases legal with rfl | rfl | rfl | rfl | rfl | rfl
    · exact .inr ⟨.equals, rfl⟩
    · exact .inr ⟨.less, rfl⟩
    · exact .inr ⟨.lessOrEqual, rfl⟩
    · exact .inr ⟨.greater, rfl⟩
    · exact .inr ⟨.greaterOrEqual, rfl⟩
    · exact .inl rfl
  · rintro (rfl | ⟨relation, rfl⟩)
    · decide
    · cases relation <;> decide

theorem mem_ofLogical_iff {operation : Operation} :
    operation ∈ ofLogical ↔ operation = .and ∨ operation = .or ∨ operation = .not := by
  simp [ofLogical]

theorem mem_ofTagCollection_iff {operation : Operation} :
    operation ∈ ofTagCollection ↔
      operation = .implicitTagMatch ∨ operation = .explicitTagMatch ∨ operation = .none := by
  simp [ofTagCollection]

end Operation

namespace Element

variable {e : Element}

/-! ## What an element asks for -/

/-- An element asks for its kind only, and holds nothing. -/
structure AsksKind (e : Element) : Prop where
  asks : e.Asks .none
  childless : e.children = []
  noText : e.hasText = false

/-- An element asks for an operation with a literal, which is all that it holds. -/
structure AsksLiteral (e : Element) (read : String → Option α) (operation : Operation) (value : α) : Prop where
  asks : e.Asks operation
  childless : e.children = []
  literal : read e.trimmedText = some value

/-- An element asks for an operation with the elements that it holds, and holds no text. -/
structure AsksElements (e : Element) (operation : Operation) : Prop where
  asks : e.Asks operation
  noText : e.hasText = false

/-- An element connects what its children spell: two or more of them by a conjunction or a disjunction, or a
    single one by a negation. -/
inductive Connected (spelled : α → Element → Prop) (and or : Nat → List α → α) (not : Nat → α → α) :
    α → Element → Prop
  | and {e : Element} {operands : List α} : e.AsksElements .and → 2 ≤ e.children.length →
      List.Forall₂ spelled operands e.children → Connected spelled and or not (and e.line operands) e
  | or {e : Element} {operands : List α} : e.AsksElements .or → 2 ≤ e.children.length →
      List.Forall₂ spelled operands e.children → Connected spelled and or not (or e.line operands) e
  | not {e child : Element} {operand : α} : e.AsksElements .not → e.children = [child] →
      spelled operand child → Connected spelled and or not (not e.line operand) e

theorem kindOnly_eq_ok_iff {node result : α} :
    e.kindOnly node = .ok result ↔ (e.children = [] ∧ e.hasText = false) ∧ node = result := by
  rw [kindOnly, andThen_eq_ok_iff, requireEmpty_eq_ok_iff]
  exact and_congr_right fun _ => ⟨Except.ok.inj, congrArg Except.ok⟩

/-- An element that can ask for one operation asks for it or for its kind only. -/
theorem choice_eq_ok_iff {chosen : Operation} {asked : Checked α} {node result : α} (isChosen : chosen ≠ .none) :
    (do
      if (← e.operation [chosen, .none]) = chosen then
        asked
      else e.kindOnly node) = Except.ok result ↔
      (e.Asks chosen ∧ asked = .ok result) ∨ (e.AsksKind ∧ node = result) := by
  rw [bind_eq_ok_iff]
  constructor
  · rintro ⟨operation, isOperation, read⟩
    obtain ⟨asks, legal⟩ := operation_eq_ok_iff.mp isOperation
    split at read
    next same => exact .inl ⟨same ▸ asks, read⟩
    next other =>
      have isNone : operation = .none := by simpa [other] using legal
      obtain ⟨⟨childless, noText⟩, same⟩ := kindOnly_eq_ok_iff.mp read
      exact .inr ⟨⟨isNone ▸ asks, childless, noText⟩, same⟩
  · rintro (⟨asks, read⟩ | ⟨⟨asks, childless, noText⟩, same⟩)
    · refine ⟨chosen, operation_eq_ok_iff.mpr ⟨asks, List.mem_cons_self⟩, ?_⟩
      rw [if_pos rfl, read]
    · refine ⟨.none, operation_eq_ok_iff.mpr ⟨asks, List.mem_cons_of_mem _ (List.mem_singleton_self _)⟩, ?_⟩
      rw [if_neg isChosen.symm]
      exact kindOnly_eq_ok_iff.mpr ⟨⟨childless, noText⟩, same⟩

/-! ## Comparisons -/

section

variable {β : Type} {illegalChild invalidLiteral : Rule} {read : String → Option α} {node result : β}

theorem comparison_eq_ok_iff {found : Option (Comparison × α)} :
    e.comparison illegalChild invalidLiteral read = .ok found ↔
      (∃ relation bound, e.AsksLiteral read relation.operation bound ∧ some (relation, bound) = found) ∨
        (e.AsksKind ∧ none = found) := by
  rw [comparison, bind_eq_ok_iff]
  constructor
  · rintro ⟨operation, isOperation, done⟩
    obtain ⟨asks, legal⟩ := operation_eq_ok_iff.mp isOperation
    rcases Operation.mem_ofNumber_iff.mp legal with rfl | ⟨relation, rfl⟩
    · obtain ⟨empty, same⟩ := andThen_eq_ok_iff.mp done
      obtain ⟨childless, noText⟩ := requireEmpty_eq_ok_iff.mp empty
      exact .inr ⟨⟨asks, childless, noText⟩, Except.ok.inj same⟩
    · rw [Operation.comparison?_operation] at done
      obtain ⟨childless, done⟩ := andThen_eq_ok_iff.mp done
      obtain ⟨bound, isLiteral, same⟩ := bind_eq_ok_iff.mp done
      have holdsLiteral := literal_eq_ok_iff.mp isLiteral
      exact .inl ⟨relation, bound, ⟨asks, requireNoChildren_eq_ok_iff.mp childless, holdsLiteral⟩, Except.ok.inj same⟩
  · rintro (⟨relation, bound, ⟨asks, childless, isLiteral⟩, rfl⟩ | ⟨⟨asks, childless, noText⟩, rfl⟩)
    · have legal := Operation.mem_ofNumber_iff.mpr (.inr ⟨relation, rfl⟩)
      refine ⟨relation.operation, operation_eq_ok_iff.mpr ⟨asks, legal⟩, ?_⟩
      rw [Operation.comparison?_operation]
      refine andThen_eq_ok_iff.mpr ⟨requireNoChildren_eq_ok_iff.mpr childless, ?_⟩
      exact bind_eq_ok_iff.mpr ⟨bound, literal_eq_ok_iff.mpr isLiteral, rfl⟩
    · refine ⟨.none, operation_eq_ok_iff.mpr ⟨asks, Operation.mem_ofNumber_iff.mpr (.inl rfl)⟩, ?_⟩
      exact andThen_eq_ok_iff.mpr ⟨requireEmpty_eq_ok_iff.mpr ⟨childless, noText⟩, rfl⟩

-- Every kind of number goes on in a match of its own, so that the lemma takes any continuation.
/-- A number is compared with the literal that it holds, or asked for its kind only. -/
theorem compared_eq_ok_iff {next : Option (Comparison × α) → Checked β} {make : Comparison → α → β}
    (kindOnly : next none = .ok node)
    (compares : ∀ relation bound, next (some (relation, bound)) = .ok (make relation bound)) :
    (e.comparison illegalChild invalidLiteral read >>= next) = .ok result ↔
      (∃ relation bound, e.AsksLiteral read relation.operation bound ∧ make relation bound = result) ∨
        (e.AsksKind ∧ node = result) := by
  rw [bind_eq_ok_iff]
  constructor
  · rintro ⟨found, isFound, done⟩
    rcases comparison_eq_ok_iff.mp isFound with ⟨relation, bound, asks, rfl⟩ | ⟨asks, rfl⟩
    · exact .inl ⟨relation, bound, asks, Except.ok.inj ((compares relation bound).symm.trans done)⟩
    · exact .inr ⟨asks, Except.ok.inj (kindOnly.symm.trans done)⟩
  · rintro (⟨relation, bound, asks, rfl⟩ | ⟨asks, rfl⟩)
    · exact ⟨_, comparison_eq_ok_iff.mpr (.inl ⟨relation, bound, asks, rfl⟩), compares relation bound⟩
    · exact ⟨_, comparison_eq_ok_iff.mpr (.inr ⟨asks, rfl⟩), kindOnly⟩

end

/-! ## Connectives -/

theorem connective_eq_ok_iff {operation : Operation} :
    e.connective = .ok operation ↔ e.AsksElements operation ∧
      ((operation = .and ∨ operation = .or) ∧ 2 ≤ e.children.length ∨
        operation = .not ∧ e.children.length = 1) := by
  rw [connective, bind_eq_ok_iff]
  constructor
  · rintro ⟨found, isOperation, read⟩
    obtain ⟨asks, legal⟩ := operation_eq_ok_iff.mp isOperation
    by_cases count : if found = .not then e.children.length = 1 else 2 ≤ e.children.length
    · rw [if_pos count] at read
      obtain ⟨noText, same⟩ := andThen_eq_ok_iff.mp read
      cases same
      refine ⟨⟨asks, requireNoText_eq_ok_iff.mp noText⟩, ?_⟩
      rcases Operation.mem_ofLogical_iff.mp legal with rfl | rfl | rfl
      · exact .inl ⟨.inl rfl, count⟩
      · exact .inl ⟨.inr rfl, count⟩
      · exact .inr ⟨rfl, count⟩
    · rw [if_neg count] at read
      cases read
  · rintro ⟨⟨asks, noText⟩, ⟨isBinary, count⟩ | ⟨rfl, count⟩⟩
    · have legal : operation ∈ Operation.ofLogical :=
        Operation.mem_ofLogical_iff.mpr (isBinary.imp_right .inl)
      refine ⟨operation, operation_eq_ok_iff.mpr ⟨asks, legal⟩, ?_⟩
      have isOther : operation ≠ .not := by rcases isBinary with rfl | rfl <;> decide
      simp only [if_neg isOther, if_pos count]
      exact andThen_eq_ok_iff.mpr ⟨requireNoText_eq_ok_iff.mpr noText, rfl⟩
    · refine ⟨.not, operation_eq_ok_iff.mpr ⟨asks, Operation.mem_ofLogical_iff.mpr (.inr (.inr rfl))⟩, ?_⟩
      simp only [if_pos, count]
      exact andThen_eq_ok_iff.mpr ⟨requireNoText_eq_ok_iff.mpr noText, rfl⟩

theorem negated_eq_ok_iff {operands : List α} {operand : α} :
    e.negated operands = .ok operand ↔ operands = [operand] := by
  unfold negated
  split <;> simp_all

/-- An element connects its operands when these are read. -/
theorem connected_iff {check : (child : Element) → child ∈ e.children → Checked α} {spelled : α → Element → Prop}
    (given : ∀ child member result, check child member = .ok result ↔ spelled result child)
    {and or : Nat → List α → α} {not : Nat → α → α} {result : α} :
    (do
      let operation ← e.connective
      let operands ← e.checkChildren check
      match operation with
      | .and => return and e.line operands
      | .or => return or e.line operands
      | _ => return not e.line (← e.negated operands)) = Except.ok result ↔
      Connected spelled and or not result e := by
  rw [bind_eq_ok_iff]
  constructor
  · rintro ⟨operation, isOperation, read⟩
    obtain ⟨operands, areOperands, read⟩ := bind_eq_ok_iff.mp read
    have each := (checkChildren_eq_ok_iff given).mp areOperands
    obtain ⟨asks, ⟨rfl | rfl, count⟩ | ⟨rfl, count⟩⟩ := connective_eq_ok_iff.mp isOperation
    · cases read
      exact .and asks count each
    · cases read
      exact .or asks count each
    · obtain ⟨operand, isOperand, read⟩ := bind_eq_ok_iff.mp read
      cases read
      -- One operand beside the children makes one child.
      rw [negated_eq_ok_iff.mp isOperand] at each
      obtain ⟨child, rest, isSpelled, others, alone⟩ := List.forall₂_cons_left_iff.mp each
      rw [List.forall₂_nil_left_iff.mp others] at alone
      exact .not asks alone isSpelled
  · intro connected
    cases connected with
    | and asks count each =>
      exact ⟨.and, connective_eq_ok_iff.mpr ⟨asks, .inl ⟨.inl rfl, count⟩⟩,
        bind_eq_ok_iff.mpr ⟨_, (checkChildren_eq_ok_iff given).mpr each, rfl⟩⟩
    | or asks count each =>
      exact ⟨.or, connective_eq_ok_iff.mpr ⟨asks, .inl ⟨.inr rfl, count⟩⟩,
        bind_eq_ok_iff.mpr ⟨_, (checkChildren_eq_ok_iff given).mpr each, rfl⟩⟩
    | @not _ child operand asks alone isSpelled =>
      have count : e.children.length = 1 := by rw [alone, List.length_singleton]
      have each : List.Forall₂ spelled [operand] e.children := by
        rw [alone]
        exact .cons isSpelled .nil
      exact ⟨.not, connective_eq_ok_iff.mpr ⟨asks, .inr ⟨rfl, count⟩⟩,
        bind_eq_ok_iff.mpr ⟨[operand], (checkChildren_eq_ok_iff given).mpr each, rfl⟩⟩

/-! ## Containers -/

section

variable {β : Type} {spelled : α → Element → Prop} {node result : β}

/-- A container asks for the elements that its children spell, or for its kind only. -/
theorem collection_eq_ok_iff {check : (child : Element) → child ∈ e.children → Checked α}
    (given : ∀ child member result, check child member = .ok result ↔ spelled result child) {make : List α → β} :
    (do
      if (← e.operation Operation.ofCollection) = .all then
        e.requireNoText
        return make (← e.checkChildren check)
      else e.kindOnly node) = Except.ok result ↔
      (∃ results, e.AsksElements .all ∧ List.Forall₂ spelled results e.children ∧ make results = result) ∨
        (e.AsksKind ∧ node = result) := by
  refine (choice_eq_ok_iff (by decide)).trans (or_congr_left ?_)
  rw [elements_eq_ok_iff given]
  constructor
  · rintro ⟨asks, noText, results, each, same⟩
    exact ⟨results, ⟨asks, noText⟩, each, same⟩
  · rintro ⟨results, ⟨asks, noText⟩, each, same⟩
    exact ⟨asks, noText, results, each, same⟩

/-- A container asks for the entries that its children spell, or for its kind only. -/
theorem namedCollection_eq_ok_iff {rules : EntryRules}
    {check : (value : Element) → sizeOf value < sizeOf e → Checked α}
    (given : ∀ value smaller result, check value smaller = .ok result ↔ spelled result value)
    {make : List (Named α) → β} :
    (do
      if (← e.operation Operation.ofCollection) = .all then
        return make (← e.checkNamed rules check)
      else e.kindOnly node) = Except.ok result ↔
      (∃ results, e.AsksElements .all ∧ List.Forall₂ (rules.SpelledBy spelled) results e.children ∧
        (results.map (·.name)).Nodup ∧ make results = result) ∨ (e.AsksKind ∧ node = result) := by
  refine (choice_eq_ok_iff (by decide)).trans (or_congr_left ?_)
  rw [entries_eq_ok_iff given]
  constructor
  · rintro ⟨asks, noText, results, each, distinct, same⟩
    exact ⟨results, ⟨asks, noText⟩, each, distinct, same⟩
  · rintro ⟨results, ⟨asks, noText⟩, each, distinct, same⟩
    exact ⟨asks, noText, results, each, distinct, same⟩

/-- An element that can ask for one child asks for what the child spells, or for its kind only. -/
theorem single_eq_ok_iff {chosen : Operation} (isChosen : chosen ≠ .none)
    {only : Checked { child // child ∈ e.children }}
    (isOnly : ∀ child, only = .ok child ↔ e.children = [child.1] ∧ e.hasText = false)
    {check : { child // child ∈ e.children } → Checked α}
    (given : ∀ child result, check child = .ok result ↔ spelled result child.1) {make : α → β} :
    (do
      if (← e.operation [chosen, .none]) = chosen then
        let child ← only
        return make (← check child)
      else e.kindOnly node) = Except.ok result ↔
      (∃ child value, e.AsksElements chosen ∧ e.children = [child] ∧ spelled value child ∧ make value = result) ∨
        (e.AsksKind ∧ node = result) := by
  refine (choice_eq_ok_iff isChosen).trans (or_congr_left ?_)
  rw [only_eq_ok_iff isOnly given]
  constructor
  · rintro ⟨asks, noText, child, value, alone, isSpelled, same⟩
    exact ⟨child, value, ⟨asks, noText⟩, alone, isSpelled, same⟩
  · rintro ⟨child, value, ⟨asks, noText⟩, alone, isSpelled, same⟩
    exact ⟨asks, noText, child, value, alone, isSpelled, same⟩

/-- A tag collection asks for the tags of its groups in one of two ways, or for its kind only. -/
theorem tagCollection_eq_ok_iff {implicit explicit : List TagGroup → β} :
    (do
      match ← e.operation Operation.ofTagCollection with
      | .implicitTagMatch => return implicit (← e.tagGroups)
      | .explicitTagMatch => return explicit (← e.tagGroups)
      | _ => e.kindOnly node) = Except.ok result ↔
      (∃ groups, e.AsksElements .implicitTagMatch ∧ List.Forall₂ TagGroup.SpelledBy groups e.children ∧
          implicit groups = result) ∨
        (∃ groups, e.AsksElements .explicitTagMatch ∧ List.Forall₂ TagGroup.SpelledBy groups e.children ∧
          explicit groups = result) ∨
        (e.AsksKind ∧ node = result) := by
  rw [bind_eq_ok_iff]
  constructor
  · rintro ⟨operation, isOperation, read⟩
    obtain ⟨asks, legal⟩ := operation_eq_ok_iff.mp isOperation
    rcases Operation.mem_ofTagCollection_iff.mp legal with rfl | rfl | rfl
    · obtain ⟨groups, areGroups, same⟩ := bind_eq_ok_iff.mp read
      obtain ⟨noText, each⟩ := tagGroups_eq_ok_iff.mp areGroups
      exact .inl ⟨groups, ⟨asks, noText⟩, each, Except.ok.inj same⟩
    · obtain ⟨groups, areGroups, same⟩ := bind_eq_ok_iff.mp read
      obtain ⟨noText, each⟩ := tagGroups_eq_ok_iff.mp areGroups
      exact .inr (.inl ⟨groups, ⟨asks, noText⟩, each, Except.ok.inj same⟩)
    · obtain ⟨⟨childless, noText⟩, same⟩ := kindOnly_eq_ok_iff.mp read
      exact .inr (.inr ⟨⟨asks, childless, noText⟩, same⟩)
  · have isOperation : ∀ {operation}, e.Asks operation → operation ∈ Operation.ofTagCollection →
        e.operation Operation.ofTagCollection = .ok operation :=
      fun asks legal => operation_eq_ok_iff.mpr ⟨asks, legal⟩
    rintro (⟨groups, ⟨asks, noText⟩, each, rfl⟩ | ⟨groups, ⟨asks, noText⟩, each, rfl⟩ |
      ⟨⟨asks, childless, noText⟩, same⟩)
    · have areGroups := tagGroups_eq_ok_iff.mpr ⟨noText, each⟩
      exact ⟨_, isOperation asks (by decide), bind_eq_ok_iff.mpr ⟨groups, areGroups, rfl⟩⟩
    · have areGroups := tagGroups_eq_ok_iff.mpr ⟨noText, each⟩
      exact ⟨_, isOperation asks (by decide), bind_eq_ok_iff.mpr ⟨groups, areGroups, rfl⟩⟩
    · exact ⟨_, isOperation asks (by decide), kindOnly_eq_ok_iff.mpr ⟨⟨childless, noText⟩, same⟩⟩

end

end Element

end ModelCatalog
