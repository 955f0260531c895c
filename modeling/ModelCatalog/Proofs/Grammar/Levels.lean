import ModelCatalog.Proofs.Grammar.Asking
import ModelCatalog.Proofs.Grammar.DocumentOrder

/-!
# Levels of a check

The parts that the checks of both grammars are made of, each as a level of a check (`Level`). A rule about an
element alone comes first and has the same outcome for any as many children (`Level.own`). What is made of the
results in the end does not matter (`Level.made`). The rest is a container of elements, of entries, of expressions
or of one element, or it is an element that holds no others.
-/

namespace ModelCatalog

open Element

variable {α β : Type}

/-! ## Rules report the element that they look at -/

/-- A check that fails reports a line. -/
def Reports (line : Nat) (checked : Checked α) : Prop :=
  Ends (fun violation => violation.line = line) (fun _ => True) checked

namespace Element

variable {e : Element}

theorem operation_reports {legal : List Operation} : Reports e.line (e.operation legal) := by
  unfold Element.operation
  split
  · exact rfl
  · split
    · exact rfl
    · exact trivial

theorem requireNoOperation_reports : Reports e.line e.requireNoOperation := by
  unfold requireNoOperation
  split
  · exact rfl
  · exact trivial

theorem requireEmpty_reports : Reports e.line e.requireEmpty := by
  unfold requireEmpty
  split
  · exact trivial
  · exact rfl

theorem requirePrimitive_reports : Reports e.line e.requirePrimitive := by
  unfold requirePrimitive
  split
  · exact trivial
  · exact rfl

theorem requireNoText_reports : Reports e.line e.requireNoText := by
  unfold requireNoText
  split
  · exact rfl
  · exact trivial

theorem literal_reports {rule : Rule} {read : String → Option α} : Reports e.line (e.literal rule read) := by
  unfold literal
  split
  · exact trivial
  · exact rfl

theorem onlyChild_reports {violation : Violation} (line : violation.line = e.line) :
    Reports e.line (e.onlyChild violation) := by
  obtain ⟨tag, _, attributes, text, children⟩ := e
  cases children with
  | nil => exact line
  | cons child rest =>
    cases rest with
    | nil => exact trivial
    | cons second rest => exact line

/-- The check of an only child reports the element that it should be alone in. -/
theorem loneChild_reports {violation : Violation} (line : violation.line = e.line) :
    Reports e.line (do
      let child ← e.onlyChild violation
      e.requireNoText
      return child) :=
  (onlyChild_reports line).bind fun _ _ => requireNoText_reports.bind fun _ _ => trivial

theorem connective_reports : Reports e.line e.connective := by
  unfold connective
  refine operation_reports.bind fun operation _ => ?_
  by_cases count : if operation = .not then e.children.length = 1 else 2 ≤ e.children.length
  · simp only [if_pos count]
    exact requireNoText_reports.bind fun _ _ => trivial
  · simp only [if_neg count]
    exact rfl

theorem entryName_reports {rules : EntryRules} {container : String} {seen : List String} :
    Reports e.line (rules.entryName container seen e) := by
  unfold EntryRules.entryName
  split
  · exact rfl
  · split
    · exact rfl
    · split
      · exact rfl
      · exact trivial

end Element

/-! ## Rules that look at the number of children -/

namespace Element

variable {e : Element} {others : List Element}

theorem isEmpty_withChildren (count : others.length = e.children.length) :
    (e.withChildren others).isEmpty = (e.withChildren e.children).isEmpty := by
  have same : others.isEmpty = e.children.isEmpty := by
    rw [Bool.eq_iff_iff, List.isEmpty_iff, List.isEmpty_iff, ← List.length_eq_zero_iff, count, List.length_eq_zero_iff]
  exact congrArg (· && !e.hasText) same

theorem requireEmpty_withChildren (count : others.length = e.children.length) :
    (e.withChildren others).requireEmpty = (e.withChildren e.children).requireEmpty := by
  rw [requireEmpty, requireEmpty, isEmpty_withChildren count]
  rfl

theorem requirePrimitive_withChildren (count : others.length = e.children.length) :
    (e.withChildren others).requirePrimitive = (e.withChildren e.children).requirePrimitive := by
  rw [requirePrimitive, requirePrimitive, isEmpty_withChildren count]
  rfl

theorem connective_withChildren (count : others.length = e.children.length) :
    (e.withChildren others).connective = (e.withChildren e.children).connective := by
  have sameCount : (e.withChildren others).children.length = (e.withChildren e.children).children.length := count
  unfold connective
  rw [sameCount]
  rfl

end Element

/-! ## Checks without their results -/

/-- What is made of a result in the end does not matter. -/
theorem passes_bind {checked : Checked α} {next : α → Checked β}
    (makes : ∀ found, checked = .ok found → ∃ made, next found = .ok made) :
    passes (checked >>= next) = passes checked := by
  cases checked with
  | error violation => rfl
  | ok found =>
    obtain ⟨made, isMade⟩ := makes found rfl
    change passes (next found) = _
    rw [isMade]
    rfl

/-- A walk over children without its results goes through them in order. -/
theorem passes_mapM {inner : List Element → Element → Checked Unit} {action : Element → Checked α}
    (each : ∀ earlier child, inner earlier child = passes (action child)) (earlier children : List Element) :
    passes (children.mapM action) = inOrder inner earlier children := by
  induction children generalizing earlier with
  | nil => rfl
  | cons child rest ih =>
    rw [List.mapM_cons, inOrder, each, ← ih (earlier ++ [child])]
    cases action child with
    | error violation => rfl
    | ok result => exact passes_bind fun results _ => ⟨_, rfl⟩

theorem checkChildren_eq_mapM (e : Element) (read : Element → Checked α) :
    (e.checkChildren fun child _ => read child) = e.children.mapM read := by
  rw [checkChildren]
  conv_rhs => rw [← List.attach_map_subtype_val e.children]
  rw [List.mapM_map]
  rfl

namespace EntryRules

variable {rules : EntryRules} {container : String} {read : Element → Checked α}

/-- An entry that is read gives its name to those behind it. -/
theorem names_append {seen : List Element} {entry : Element} {name : String}
    (isName : rules.entryName container (names seen) entry = .ok name) :
    names (seen ++ [entry]) = name :: names seen := by
  obtain ⟨-, named, -⟩ := entryName_eq_ok_iff.mp isName
  simp [names, named]

/-- Entries are checked in order, each behind the names of those before it. -/
theorem passes_checkEntries {inner : List Element → Element → Checked Unit}
    (each : ∀ earlier entry, inner earlier entry =
      passes (rules.checkEntries container (names earlier) [entry] fun _ value _ _ => read value))
    (earlier entries : List Element) :
    passes (rules.checkEntries container (names earlier) entries fun _ value _ _ => read value) =
      inOrder inner earlier entries := by
  induction entries generalizing earlier with
  | nil => rfl
  | cons entry rest ih =>
    rw [inOrder, each, checkEntries, checkEntries]
    cases isName : rules.entryName container (names earlier) entry with
    | error violation => rfl
    | ok name =>
      rw [← ih, names_append isName]
      cases rules.entryValue entry with
      | error violation => rfl
      | ok value =>
        change passes (read value.1 >>= _) = passes (read value.1 >>= _) >>= _
        cases read value.1 with
        | error violation => rfl
        | ok checked => exact passes_bind fun others _ => ⟨_, rfl⟩

end EntryRules

/-! ## Levels -/

namespace Level

variable {inner : List Element → Element → Checked Unit} {line : Nat} {children : List Element} {e : Element}

/-- The same level in other words. -/
theorem congr {form other : List Element → Checked α} (same : ∀ others, form others = other others)
    (level : Level inner line children other) : Level inner line children form := by
  rw [funext same]
  exact level

theorem withoutResult {form : List Element → Checked α} (level : Level inner line children form) :
    Level inner line children fun others => passes (form others) := by
  cases level with
  | refused isViolation sameLine => exact .refused (passes_eq_error_iff.mpr isViolation) sameLine
  | firstRefused split sameLine refuses =>
    exact .firstRefused split sameLine fun others count => passes_eq_error_iff.mpr (refuses others count)
  | onward goes =>
    refine .onward fun others count => ?_
    rw [← goes others count]
    cases form others <;> rfl

/-- A rule about the element alone, and then the rest. -/
theorem own {first : List Element → Checked β} {next : β → List Element → Checked α}
    (same : ∀ others, others.length = children.length → first others = first children)
    (reports : Reports line (first children))
    (rest : ∀ found, first children = .ok found → Level inner line children (next found)) :
    Level inner line children fun others => first others >>= fun found => next found others := by
  cases isFirst : first children with
  | error violation =>
    have failed : (first children >>= fun found => next found children) = .error violation := by
      rw [isFirst]
      rfl
    exact .refused failed (reports.of_error isFirst)
  | ok found =>
    cases rest found isFirst with
    | refused isViolation sameLine =>
      refine .refused ?_ sameLine
      rw [isFirst]
      exact isViolation
    | firstRefused split sameLine refuses =>
      refine .firstRefused split sameLine fun others count => ?_
      rw [same _ (by simp [split, count]), isFirst]
      exact refuses others count
    | onward goes =>
      refine .onward fun others count => ?_
      rw [same others count, isFirst]
      exact goes others count

/-- What is made of the results in the end does not matter. -/
theorem made {form : List Element → Checked β} {next : List Element → β → Checked α}
    (level : Level inner line children form)
    (makes : ∀ others found, others.length = children.length → form others = .ok found →
      ∃ made, next others found = .ok made) :
    Level inner line children fun others => form others >>= next others := by
  cases level with
  | refused isViolation sameLine =>
    refine .refused ?_ sameLine
    rw [isViolation]
    rfl
  | firstRefused split sameLine refuses =>
    refine .firstRefused split sameLine fun others count => ?_
    rw [refuses others count]
    rfl
  | onward goes =>
    refine .onward fun others count => ?_
    rw [passes_bind fun found isFound => makes others found count isFound]
    exact goes others count

/-- One of two levels, by a condition that does not look at the children. -/
theorem ite {condition : Prop} [Decidable condition] {form other : List Element → Checked α}
    (holds : condition → Level inner line children form) (fails : ¬condition → Level inner line children other) :
    Level inner line children fun others => if condition then form others else other others := by
  by_cases decided : condition
  · simp only [if_pos decided]
    exact holds decided
  · simp only [if_neg decided]
    exact fails decided

/-- Without children a check that passes is done. -/
theorem leaf {form : List Element → Checked α} {result : α} (childless : children = [])
    (done : form [] = .ok result) : Level inner line children form := by
  subst childless
  refine .onward fun others count => ?_
  rw [List.length_eq_zero_iff.mp count, done]
  rfl

/-- An element that may not have children, and then the rest. -/
theorem childless {rule : Rule} {next : List Element → Checked α}
    (rest : e.children = [] → Level inner line e.children next) :
    Level inner line e.children fun others =>
      (e.withChildren others).requireNoChildren rule >>= fun _ => next others := by
  cases split : e.children with
  | nil =>
    rw [split] at rest
    have done : (e.withChildren []).requireNoChildren rule = .ok () := rfl
    refine own (fun others count => ?_) trivial fun _ _ => rest rfl
    rw [List.length_eq_zero_iff.mp count, done]
  | cons child later =>
    have refuses : ∀ others, ((e.withChildren (child :: others)).requireNoChildren rule >>= fun _ =>
        next (child :: others)) = .error (child.violation rule (.forbiddenChild e.tag child.tag)) := fun _ => rfl
    exact .firstRefused rfl rfl fun others _ => refuses others

/-! ### Containers -/

theorem elements {read : Element → Checked α} (each : ∀ earlier child, inner earlier child = passes (read child)) :
    Level inner line e.children fun others => (e.withChildren others).checkChildren fun child _ => read child := by
  refine .onward fun others _ => ?_
  rw [checkChildren_eq_mapM]
  exact passes_mapM each [] others

/-- A container that holds elements and no text. -/
theorem items {read : Element → Checked α} (each : ∀ earlier child, inner earlier child = passes (read child))
    {make : List Element → List α → β} :
    Level inner e.line e.children fun others => do
      (e.withChildren others).requireNoText
      return make others (← (e.withChildren others).checkChildren fun child _ => read child) := by
  refine own (fun _ _ => rfl) requireNoText_reports fun _ _ => ?_
  exact made (elements each) fun _ _ _ _ => ⟨_, rfl⟩

theorem named {rules : EntryRules} {read : Element → Checked α}
    (each : ∀ earlier entry, inner earlier entry =
      passes (rules.checkEntries e.tag (names earlier) [entry] fun _ value _ _ => read value)) :
    Level inner e.line e.children fun others =>
      (e.withChildren others).checkNamed rules fun value _ => read value := by
  refine own (fun _ _ => rfl) requireNoText_reports fun _ _ => ?_
  exact .onward fun others _ => EntryRules.passes_checkEntries each [] others

theorem groups (each : ∀ earlier child, inner earlier child =
      passes (if child.tag ≠ ValueTag.condensedTags.name then
        .error (child.violation .tagCollectionInvalidChild (.foundInstead child.tag))
      else child.tagGroup)) :
    Level inner e.line e.children fun others => (e.withChildren others).tagGroups := by
  refine own (fun _ _ => rfl) requireNoText_reports fun _ _ => ?_
  exact .onward fun others _ => passes_mapM each [] others

/-- An element that holds one element and no text. -/
theorem only {only : (others : List Element) → Checked { child // child ∈ (e.withChildren others).children }}
    (isOnly : ∀ others child, only others = .ok child ↔
      (e.withChildren others).children = [child.1] ∧ (e.withChildren others).hasText = false)
    (reports : Reports line (only e.children)) {read : Element → Checked β}
    (each : ∀ child, inner [] child = passes (read child)) {next : List Element → β → Checked α}
    (makes : ∀ others found, ∃ made, next others found = .ok made) :
    Level inner line e.children fun others => only others >>= fun child => read child.1 >>= next others := by
  cases isChild : only e.children with
  | error violation =>
    have failed : (only e.children >>= fun child => read child.1 >>= next e.children) = .error violation := by
      rw [isChild]
      rfl
    exact .refused failed (reports.of_error isChild)
  | ok child =>
    obtain ⟨alone, noText⟩ := (isOnly _ _).mp isChild
    change e.children = [child.1] at alone
    refine .onward fun others count => ?_
    rw [alone] at count
    obtain ⟨other, rfl⟩ := List.length_eq_one_iff.mp count
    have isOther : only [other] = .ok ⟨other, List.mem_singleton_self other⟩ := (isOnly _ _).mpr ⟨rfl, noText⟩
    rw [isOther]
    change passes (read other >>= next [other]) = inner [] other >>= fun _ => .ok ()
    rw [passes_bind fun found _ => makes [other] found, each]
    cases read other <;> rfl

/-! ### Elements without children -/

theorem kindOnly {node : List Element → α} :
    Level inner e.line e.children fun others => (e.withChildren others).kindOnly (node others) := by
  refine own (fun others count => requireEmpty_withChildren count) requireEmpty_reports fun _ empty => ?_
  exact leaf (requireEmpty_eq_ok_iff.mp empty).1 rfl

theorem primitive {node : List Element → α} :
    Level inner e.line e.children fun others => do
      (e.withChildren others).requirePrimitive
      return node others := by
  refine own (fun others count => requirePrimitive_withChildren count) requirePrimitive_reports fun _ empty => ?_
  exact leaf (requirePrimitive_eq_ok_iff.mp empty).1 rfl

/-- The literal of an element, and then the rest. -/
theorem literal {rule : Rule} {read : String → Option β} {next : β → List Element → Checked α}
    (rest : ∀ value, Level inner e.line e.children (next value)) :
    Level inner e.line e.children fun others =>
      (e.withChildren others).literal rule read >>= fun value => next value others :=
  own (fun _ _ => rfl) literal_reports fun value _ => rest value

theorem comparison {illegalChild invalidLiteral : Rule} {read : String → Option α} :
    Level inner e.line e.children fun others =>
      (e.withChildren others).comparison illegalChild invalidLiteral read := by
  refine own (fun _ _ => rfl) operation_reports fun operation _ => ?_
  cases operation.comparison? with
  | none =>
    refine own (fun others count => requireEmpty_withChildren count) requireEmpty_reports fun _ empty => ?_
    exact leaf (requireEmpty_eq_ok_iff.mp empty).1 rfl
  | some relation =>
    exact childless fun none => literal fun bound => leaf none rfl

theorem slot {illegalChild invalidLiteral : Rule} {read : String → Option α} :
    Level inner e.line e.children fun others => (e.withChildren others).slot illegalChild invalidLiteral read := by
  refine childless fun none => ?_
  by_cases unknown : e.trimmedText = unfilledText
  · exact congr (fun others => if_pos unknown) (leaf none rfl)
  · exact congr (fun others => if_neg unknown) (literal fun value => leaf none rfl)

end Level

end ModelCatalog
