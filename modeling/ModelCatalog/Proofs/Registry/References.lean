import ModelCatalog.Proofs.Filter.Nodes
import ModelCatalog.Proofs.Tag.Identifier
import ModelCatalog.Registry.Soundness
import Mathlib.Data.List.Chain
import Mathlib.Logic.Relation
import Mathlib.Order.Bounds.Basic

/-!
# References between definitions

The definitions of tags as a graph: the definition of a tag refers to the tags that it implies
(`Refers`), and a path of references costs the depths of the definitions on it (`Path`). Definitions
are sound when their names are identifiers, the tags they ask for are listed, no reference path returns
to its start, and the costliest path from every tag stays within the limit (`Sound`). Main statements:
where every tag has a costliest path there is no cycle (`acyclic_of_depths`), since every
definition on the way costs something; and in sound definitions one may argue from the references of a
tag to the tag (`Sound.induction_on_references`). Every fault that the registry checks report says something of
the definitions (`Tells`), and rules soundness out.
-/

namespace ModelCatalog

theorem Filter.depth_pos (filter : Filter) : 0 < filter.depth := by
  cases filter <;> simp [Filter.depth]

/-- Which tags have which definitions. -/
abbrev Definitions := String → Filter → Prop

namespace Definitions

variable (definitions : Definitions)

/-- A tag has a definition. -/
def Listed (tag : String) : Prop := ∃ definition, definitions tag definition

/-- The definition of one tag implies the other. -/
def Refers (tag other : String) : Prop := ∃ definition, definitions tag definition ∧ definition.Implies other

/-- A path of references with the sum of the depths of the definitions on it. -/
inductive Path : List String → Nat → Prop
  | last {tag : String} {definition : Filter} :
      definitions tag definition → Path [tag] definition.depth
  | step {tag next : String} {definition : Filter} {rest : List String} {cost : Nat} :
      definitions tag definition → definition.Implies next → Path (next :: rest) cost →
      Path (tag :: next :: rest) (definition.depth + cost)

/-- The costs of the paths from a tag on. -/
def depths (tag : String) : Set Nat := {cost | ∃ rest, definitions.Path (tag :: rest) cost}

/-- A path of references between listed tags that are all different, and then one of them again. -/
def RunsIntoItself (path : List String) : Prop :=
  ∃ before last, path = before ++ [last] ∧ before.Nodup ∧ last ∈ before ∧
    path.IsChain definitions.Refers ∧ ∀ tag ∈ path, definitions.Listed tag

/-- What definitions have to be like to make a registry. -/
structure Sound : Prop where
  identifiers : ∀ tag, definitions.Listed tag → IsIdentifier tag
  known : ∀ tag definition, definitions tag definition →
    ∀ other, definition.Implies other ∨ definition.Requires other → definitions.Listed other
  acyclic : ∀ tag, ¬Relation.TransGen definitions.Refers tag tag
  shallow : ∀ tag, definitions.Listed tag →
    ∃ deepest, IsGreatest (definitions.depths tag) deepest ∧ deepest ≤ Markup.maxDepth

variable {definitions}

theorem depth_mem_depths {tag : String} {definition : Filter} (defined : definitions tag definition) :
    definition.depth ∈ definitions.depths tag := ⟨[], .last defined⟩

theorem add_mem_depths {tag other : String} {definition : Filter} {cost : Nat}
    (defined : definitions tag definition) (implied : definition.Implies other)
    (reached : cost ∈ definitions.depths other) : definition.depth + cost ∈ definitions.depths tag := by
  obtain ⟨rest, path⟩ := reached
  exact ⟨other :: rest, .step defined implied path⟩

/-- The costs from a tag on: its definition alone, or its definition and a cost of a reference. -/
theorem mem_depths_iff {tag : String} {cost : Nat} :
    cost ∈ definitions.depths tag ↔ ∃ definition, definitions tag definition ∧
      (cost = definition.depth ∨
        ∃ other below, definition.Implies other ∧ below ∈ definitions.depths other ∧
          cost = definition.depth + below) := by
  constructor
  · rintro ⟨rest, path⟩
    cases path with
    | last defined => exact ⟨_, defined, .inl rfl⟩
    | step defined implied path => exact ⟨_, defined, .inr ⟨_, _, implied, ⟨_, path⟩, rfl⟩⟩
  · rintro ⟨definition, defined, rfl | ⟨other, below, implied, reached, rfl⟩⟩
    · exact depth_mem_depths defined
    · exact add_mem_depths defined implied reached

/-- A reference is cheaper than the tag whose definition makes it. -/
theorem depth_lt_of_refers {tag other : String} {deepest below : Nat}
    (refers : definitions.Refers tag other) (greatest : IsGreatest (definitions.depths tag) deepest)
    (reached : below ∈ definitions.depths other) : below < deepest := by
  obtain ⟨definition, defined, implied⟩ := refers
  have bounded := greatest.2 (add_mem_depths defined implied reached)
  have positive := definition.depth_pos
  omega

theorem listed_of_transGen {tag other : String}
    (reaches : Relation.TransGen definitions.Refers tag other) : definitions.Listed tag := by
  induction reaches with
  | single refers => exact ⟨_, refers.choose_spec.1⟩
  | tail _ _ ih => exact ih

/-- Where every tag has a costliest path, no reference path returns to its start: each step onward
    would have to be cheaper than the one before. -/
theorem acyclic_of_depths
    (bounded : ∀ tag, definitions.Listed tag → ∃ deepest, IsGreatest (definitions.depths tag) deepest)
    (tag : String) : ¬Relation.TransGen definitions.Refers tag tag := by
  have cheaper : ∀ {start other}, Relation.TransGen definitions.Refers start other →
      definitions.Listed other → ∀ {deepest below}, IsGreatest (definitions.depths start) deepest →
      below ∈ definitions.depths other → below < deepest := by
    intro start other reaches
    induction reaches with
    | single refers => exact fun _ _ _ greatest reached => depth_lt_of_refers refers greatest reached
    | tail _ refers ih =>
      intro listed deepest below greatest reached
      have between : definitions.Listed _ := ⟨_, refers.choose_spec.1⟩
      obtain ⟨middle, middleGreatest⟩ := bounded _ between
      have second := depth_lt_of_refers refers middleGreatest reached
      have first := ih between greatest middleGreatest.1
      omega
  intro cycle
  have listed := listed_of_transGen cycle
  obtain ⟨deepest, greatest⟩ := bounded tag listed
  exact absurd (cheaper cycle listed greatest greatest.1) (Nat.lt_irrefl _)

/-- The tags of a path that stand before another one reach it. -/
theorem transGen_of_isChain {tag last : String} {path : List String}
    (chain : (path ++ [last]).IsChain definitions.Refers) (member : tag ∈ path) :
    Relation.TransGen definitions.Refers tag last := by
  induction path generalizing tag with
  | nil => exact absurd member List.not_mem_nil
  | cons head rest ih =>
    rw [List.cons_append] at chain
    rcases List.mem_cons.mp member with rfl | later
    · cases rest with
      | nil => exact .single (List.isChain_cons_cons.mp chain).1
      | cons next rest =>
        obtain ⟨refers, onward⟩ := List.isChain_cons_cons.mp chain
        exact .head refers (ih onward List.mem_cons_self)
    · exact ih chain.tail later

/-- A path that runs into itself holds a cycle. -/
theorem RunsIntoItself.cycle {path : List String} (runs : definitions.RunsIntoItself path) :
    ∃ tag, Relation.TransGen definitions.Refers tag tag := by
  obtain ⟨before, last, rfl, _, again, chain, _⟩ := runs
  exact ⟨last, transGen_of_isChain chain again⟩

/-- In sound definitions, what holds of a tag whenever it holds of the tags that its definition implies
    holds of every listed tag: references are cheaper than what makes them. -/
@[elab_as_elim]
theorem Sound.induction_on_references (sound : definitions.Sound) {motive : String → Prop}
    (step : ∀ tag definition, definitions tag definition →
      (∀ other, definition.Implies other → motive other) → motive tag)
    {tag : String} (listed : definitions.Listed tag) : motive tag := by
  obtain ⟨deepest, greatest, -⟩ := sound.shallow tag listed
  induction deepest using Nat.strongRecOn generalizing tag with
  | ind deepest ih =>
    obtain ⟨definition, defined⟩ := listed
    refine step tag definition defined fun other implied => ?_
    have known := sound.known tag definition defined other (.inl implied)
    obtain ⟨below, belowGreatest, _⟩ := sound.shallow other known
    exact ih below (depth_lt_of_refers ⟨definition, defined, implied⟩ greatest belowGreatest.1) known
      belowGreatest

end Definitions

/-- What a fault says of the definitions that it was found in. -/
def RegistryFault.Tells (definitions : Definitions) : RegistryFault → Prop
  | .notIdentifier name => definitions.Listed name ∧ ¬IsIdentifier name
  | .duplicate _ => False
  | .unknownReferences name unknown => ∃ definition, definitions name definition ∧ (∃ tag, tag ∈ unknown) ∧
      ∀ tag, tag ∈ unknown ↔ (definition.Implies tag ∨ definition.Requires tag) ∧ ¬definitions.Listed tag
  | .cycle start path => definitions.Listed start ∧ definitions.RunsIntoItself path
  | .tooDeep name depth => definitions.Listed name ∧ IsGreatest (definitions.depths name) depth ∧
      Markup.maxDepth < depth

/-- Definitions in which a fault is found are not sound. -/
theorem RegistryFault.Tells.not_sound {definitions : Definitions} {fault : RegistryFault}
    (tells : fault.Tells definitions) : ¬definitions.Sound := by
  intro sound
  cases fault with
  | notIdentifier name => exact tells.2 (sound.identifiers name tells.1)
  | duplicate name => exact tells
  | unknownReferences name unknown =>
    obtain ⟨definition, defined, ⟨tag, member⟩, exactly⟩ := tells
    obtain ⟨asked, missing⟩ := (exactly tag).mp member
    exact missing (sound.known name definition defined tag asked)
  | cycle start path =>
    obtain ⟨tag, cycle⟩ := tells.2.cycle
    exact sound.acyclic tag cycle
  | tooDeep name depth =>
    obtain ⟨deepest, greatest, within⟩ := sound.shallow name tells.1
    have same := tells.2.1.unique greatest
    have deep := tells.2.2
    omega

end ModelCatalog
