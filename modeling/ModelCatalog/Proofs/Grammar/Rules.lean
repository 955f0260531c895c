import ModelCatalog.Grammar.Content
import ModelCatalog.Proofs.Results

/-!
# When rules are kept

For every rule that looks at one element only, when the element keeps it and what is read then. A name is
read as the word that has it and as no other, an operation has to be one of those that are allowed
(`Element.operation_eq_ok_iff`), and an element that has to hold nothing, no elements or no text does
so. Where an element has to be alone, it is the only child and no text stands beside it
(`Element.declaredType_eq_ok_iff`).
-/

namespace ModelCatalog

variable {α : Type}

/-! ## Words -/

theorem name_of_findNamed {name : α → String} {words : List α} {text : String} {word : α}
    (found : findNamed name words text = some word) : name word = text := by
  have named := List.find?_some found
  exact beq_iff_eq.mp named

theorem ValueTag.ofName?_eq_some_iff {text : String} {tag : ValueTag} :
    ofName? text = some tag ↔ text = tag.name := by
  constructor
  · intro found
    exact (name_of_findNamed found).symm
  · rintro rfl
    exact ofName?_name tag

theorem TypeTag.ofName?_eq_some_iff {text : String} {tag : TypeTag} :
    ofName? text = some tag ↔ text = tag.name := by
  constructor
  · intro found
    exact (name_of_findNamed found).symm
  · rintro rfl
    exact ofName?_name tag

theorem Operation.ofName?_eq_some_iff {text : String} {operation : Operation} :
    ofName? text = some operation ↔ text = operation.name := by
  constructor
  · intro found
    exact (name_of_findNamed found).symm
  · rintro rfl
    exact ofName?_name operation

namespace Element

variable {e : Element} {rule : Rule} {violation : Violation}

/-! ## Operations -/

/-- An element asks for an operation. -/
def Asks (e : Element) (operation : Operation) : Prop := e.attribute? filterAttribute = some operation.name

/-- An element asks for one operation at most. -/
theorem Asks.unique {operation other : Operation} (first : e.Asks operation) (second : e.Asks other) :
    operation = other := by
  have sameName : operation.name = other.name := Option.some.inj (first.symm.trans second)
  have isOther := Operation.ofName?_eq_some_iff.mpr sameName
  rw [Operation.ofName?_name] at isOther
  exact Option.some.inj isOther

theorem operation_eq_ok_iff {legal : List Operation} {operation : Operation} :
    e.operation legal = .ok operation ↔ e.Asks operation ∧ operation ∈ legal := by
  unfold Element.operation Asks
  cases e.attribute? filterAttribute with
  | none => simp
  | some text =>
    have meaning : (Operation.ofName? text).filter (· ∈ legal) = some operation ↔
        text = operation.name ∧ operation ∈ legal := by
      rw [Option.filter_eq_some_iff, Operation.ofName?_eq_some_iff, decide_eq_true_iff]
    rw [Option.some.injEq, ← meaning]
    simp only
    split
    next missing => simp [missing]
    next allowed isAllowed => simp [isAllowed]

theorem requireNoOperation_eq_ok_iff :
    e.requireNoOperation = .ok () ↔ e.hasAttribute filterAttribute = false := by
  unfold requireNoOperation
  cases e.hasAttribute filterAttribute <;> simp

/-! ## Content -/

theorem isEmpty_iff : e.isEmpty = true ↔ e.children = [] ∧ e.hasText = false := by
  rw [isEmpty, Bool.and_eq_true, List.isEmpty_iff, Bool.not_eq_true']

theorem requireEmpty_eq_ok_iff : e.requireEmpty = .ok () ↔ e.children = [] ∧ e.hasText = false := by
  rw [requireEmpty, ← isEmpty_iff]
  cases e.isEmpty <;> simp

theorem requirePrimitive_eq_ok_iff : e.requirePrimitive = .ok () ↔ e.children = [] ∧ e.hasText = false := by
  rw [requirePrimitive, ← isEmpty_iff]
  cases e.isEmpty <;> simp

theorem requireNoText_eq_ok_iff : e.requireNoText = .ok () ↔ e.hasText = false := by
  unfold requireNoText
  cases e.hasText <;> simp

theorem requireNoChildren_eq_ok_iff : e.requireNoChildren rule = .ok () ↔ e.children = [] := by
  unfold requireNoChildren
  cases e.children <;> simp

theorem literal_eq_ok_iff {read : String → Option α} {value : α} :
    e.literal rule read = .ok value ↔ read e.trimmedText = some value := by
  unfold literal
  cases read e.trimmedText <;> simp

/-! ## Only children -/

theorem mem_children_of_alone {child : Element} (alone : e.children = [child]) : child ∈ e.children := by
  rw [alone]
  exact List.mem_singleton_self child

theorem onlyChild_eq_ok_iff {child : { child // child ∈ e.children }} :
    e.onlyChild violation = .ok child ↔ e.children = [child.1] := by
  obtain ⟨tag, line, attributes, text, children⟩ := e
  obtain ⟨child, member⟩ := child
  constructor
  · intro read
    cases children with
    | nil => cases read
    | cons only others =>
      cases others with
      | nil =>
        cases read
        rfl
      | cons second rest => cases read
  · intro alone
    change children = [child] at alone
    subst alone
    rfl

/-- The only child of an element without text. -/
theorem loneChild_eq_ok_iff {child : { child // child ∈ e.children }} :
    (do
      let child ← e.onlyChild violation
      e.requireNoText
      return child) = Except.ok child ↔ e.children = [child.1] ∧ e.hasText = false := by
  rw [bind_eq_ok_iff, ← requireNoText_eq_ok_iff]
  constructor
  · rintro ⟨only, isOnly, read⟩
    obtain ⟨noText, same⟩ := andThen_eq_ok_iff.mp read
    cases same
    exact ⟨onlyChild_eq_ok_iff.mp isOnly, noText⟩
  · rintro ⟨alone, noText⟩
    exact ⟨child, onlyChild_eq_ok_iff.mpr alone, andThen_eq_ok_iff.mpr ⟨noText, rfl⟩⟩

theorem declaredType_eq_ok_iff {child : { child // child ∈ e.children }} :
    e.declaredType = .ok child ↔ e.children = [child.1] ∧ e.hasText = false :=
  loneChild_eq_ok_iff

theorem itemType_eq_ok_iff {child : { child // child ∈ e.children }} :
    e.itemType = .ok child ↔ e.children = [child.1] ∧ e.hasText = false :=
  loneChild_eq_ok_iff

end Element

end ModelCatalog
