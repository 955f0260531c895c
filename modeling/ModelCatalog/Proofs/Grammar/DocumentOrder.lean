import ModelCatalog.Grammar.Filter
import ModelCatalog.Grammar.Manifest
import ModelCatalog.Proofs.Results

/-!
# Checks in document order

An element of a document is checked as something, by the place where it stands (`Role`). A check goes level by
level (`Level`): it refuses the element itself or its first child, or it goes on to the children one after another,
and what it does so far hangs on the element without its children, on their number, and on nothing else. Main
statement: a check of which every level is so reports the first violation in document order
(`Grammar.exists_isFirst`). Everything before the element that is reported passes its own check, and nothing behind
it has a part in the report.
-/

namespace ModelCatalog

variable {α β γ : Type}

/-! ## Elements and positions -/

namespace Element

/-- The same element with other children. -/
def withChildren (e : Element) (children : List Element) : Element := { e with children }

theorem withChildren_children (e : Element) : e.withChildren e.children = e := by
  cases e
  rfl

/-- Two documents have the same elements up to a position and in the element that stands there. Behind it stand
    any other elements, as many as before. -/
inductive SameUpTo : List Nat → Element → Element → Prop
  | here {e : Element} : SameUpTo [] e e
  | inside {e child other : Element} {before after others : List Element} {path : List Nat} :
      e.children = before ++ child :: after → others.length = after.length → SameUpTo path child other →
      SameUpTo (before.length :: path) e (e.withChildren (before ++ other :: others))

/-- What a document may be that is the same up to a position in a child. -/
theorem SameUpTo.of_split {e child other : Element} {before after : List Element} {path : List Nat}
    (split : e.children = before ++ child :: after) (same : e.SameUpTo (before.length :: path) other) :
    ∃ found others, other = e.withChildren (before ++ found :: others) ∧ others.length = after.length ∧
      child.SameUpTo path found := by
  generalize position : before.length = index at same
  cases same with
  | inside split' count same =>
    obtain ⟨rfl, rest⟩ := List.append_inj (split.symm.trans split') position
    obtain ⟨rfl, rfl⟩ := List.cons.inj rest
    exact ⟨_, _, rfl, count, same⟩

/-- The names of entries, the last one first. -/
def names (entries : List Element) : List String := (entries.filterMap (·.attribute? nameAttribute)).reverse

end Element

open Element

/-! ## Roles -/

/-- What an element is checked as. An entry is told the tag of its container and the names before it. -/
inductive Role where
  | value
  | type
  | dim
  | field (container : String) (names : List String)
  | namedValue (container : String) (names : List String)
  | expression
  /-- No element may stand here. -/
  | nothing

/-- What a child is checked as that stands behind other children of an element with the role and a tag. -/
def Role.below (role : Role) (tag : String) (earlier : List Element) : Role :=
  match role with
  | .value =>
    match ValueTag.ofName? tag with
    | some .dict => .field tag (names earlier)
    | some .list | some .logical => .value
    | some .typeDeclaration => .type
    | some .tagCollection => .expression
    | _ => .nothing
  | .type =>
    match TypeTag.ofName? tag with
    | some .tensor => .dim
    | some .list | some .tuple => .type
    | some .namedValueCollection => .namedValue tag (names earlier)
    | _ => .nothing
  | .dim => if tag = ValueTag.logical.name then .dim else .nothing
  | .field .. => .value
  | .namedValue .. => .type
  | .expression | .nothing => .nothing

/-- How the values, types and dimensions of a grammar are read. -/
structure Grammar (α β γ : Type) where
  value : Element → Checked α
  type : Element → Checked β
  dim : Element → Checked γ

/-- A check without what it reads. -/
def passes (checked : Checked α) : Checked Unit := checked.map fun _ => ()

namespace Grammar

def filters : Grammar Filter TypeFilter DimFilter where
  value := Filter.ofElement
  type := TypeFilter.ofElement
  dim := DimFilter.ofElement

def manifests : Grammar Manifest TypeDecl Dim where
  value := Manifest.ofElement
  type := TypeDecl.ofElement
  dim := Dim.ofElement

/-- The check of an element in a role. -/
def check (grammar : Grammar α β γ) : Role → Element → Checked Unit
  | .value, e => passes (grammar.value e)
  | .type, e => passes (grammar.type e)
  | .dim, e => passes (grammar.dim e)
  | .field container names, e =>
    passes (EntryRules.field.checkEntries container names [e] fun _ value _ _ => grammar.value value)
  | .namedValue container names, e =>
    passes (EntryRules.namedValue.checkEntries container names [e] fun _ value _ _ => grammar.type value)
  | .expression, e =>
    passes
      (if e.tag ≠ ValueTag.condensedTags.name then
        .error (e.violation .tagCollectionInvalidChild (.foundInstead e.tag))
      else e.tagGroup)
  | .nothing, e => .error e.invalidTag

end Grammar

/-! ## Levels -/

theorem passes_eq_error_iff {checked : Checked α} {violation : Violation} :
    passes checked = .error violation ↔ checked = .error violation := by
  cases checked with
  | error found =>
    exact ⟨fun same => congrArg _ (Except.error.inj same), fun same => congrArg _ (Except.error.inj same)⟩
  | ok value =>
    constructor
    · intro impossible
      cases impossible
    · intro impossible
      cases impossible

/-- Check children one after another, each of them knowing those before it. -/
def inOrder (check : List Element → Element → Checked Unit) : (earlier children : List Element) → Checked Unit
  | _, [] => .ok ()
  | earlier, child :: rest => do
    check earlier child
    inOrder check (earlier ++ [child]) rest

/-- Children fail in order when one of them fails and those before it pass. -/
theorem inOrder_eq_error_iff {check : List Element → Element → Checked Unit} {earlier children : List Element}
    {violation : Violation} :
    inOrder check earlier children = .error violation ↔
      ∃ before child after, children = before ++ child :: after ∧
        (∀ first member later, before = first ++ member :: later → check (earlier ++ first) member = .ok ()) ∧
        check (earlier ++ before) child = .error violation := by
  induction children generalizing earlier with
  | nil =>
    constructor
    · intro impossible
      cases impossible
    · rintro ⟨before, child, after, split, -⟩
      simp at split
  | cons head rest ih =>
    rw [inOrder]
    constructor
    · intro failed
      cases passed : check earlier head with
      | error found =>
        rw [passed] at failed
        cases failed
        exact ⟨[], head, rest, rfl, fun first member later split => by simp at split, by simpa using passed⟩
      | ok done =>
        rw [passed] at failed
        obtain ⟨before, child, after, rfl, passes, fails⟩ := ih.mp failed
        refine ⟨head :: before, child, after, rfl, fun first member later split => ?_, by simpa using fails⟩
        cases first with
        | nil =>
          obtain ⟨rfl, rfl⟩ := List.cons.inj split
          simpa using passed
        | cons other first =>
          obtain ⟨rfl, rest⟩ := List.cons.inj split
          simpa using passes first member later rest
    · rintro ⟨before, child, after, split, passes, fails⟩
      cases before with
      | nil =>
        obtain ⟨rfl, rfl⟩ := List.cons.inj split
        rw [List.append_nil] at fails
        rw [fails]
        rfl
      | cons other before =>
        obtain ⟨rfl, rfl⟩ := List.cons.inj split
        have passed := passes [] head before rfl
        rw [List.append_nil] at passed
        rw [passed]
        refine ih.mpr ⟨before, child, after, rfl, fun first member later split => ?_, by simpa using fails⟩
        simpa using passes (head :: first) member later (by rw [split, List.cons_append])

/-- A level of a check, as it hangs on the children of an element. The element is refused, or its first child is
    refused whatever stands behind it, or any as many children are checked in order. -/
inductive Level (inner : List Element → Element → Checked Unit) (line : Nat) (children : List Element)
    (form : List Element → Checked α) : Prop
  | refused {violation : Violation} : form children = .error violation → violation.line = line →
      Level inner line children form
  | firstRefused {child : Element} {rest : List Element} {violation : Violation} : children = child :: rest →
      violation.line = child.line →
      (∀ others, others.length = rest.length → form (child :: others) = .error violation) →
      Level inner line children form
  | onward : (∀ others, others.length = children.length → passes (form others) = inOrder inner [] others) →
      Level inner line children form

namespace Grammar

/-- The check of an element in a role is a level of the check. -/
def HasLevel (grammar : Grammar α β γ) (role : Role) (e : Element) : Prop :=
  Level (fun earlier => grammar.check (role.below e.tag earlier)) e.line e.children
    fun others => grammar.check role (e.withChildren others)

/-! ## The first violation -/

/-- On the way to a position in an element with a role, the children before the way pass, each in its own role. -/
inductive PassedBefore (grammar : Grammar α β γ) : Role → Element → List Nat → Prop
  | here {role : Role} {e : Element} : PassedBefore grammar role e []
  | inside {role : Role} {e child : Element} {before after : List Element} {path : List Nat} :
      e.children = before ++ child :: after →
      (∀ first member later, before = first ++ member :: later →
        grammar.check (role.below e.tag first) member = .ok ()) →
      PassedBefore grammar (role.below e.tag before) child path →
      PassedBefore grammar role e (before.length :: path)

/-- A violation is the first in a document that is read: its line is that of an element at a position, everything
    before this element passes, and the same violation is reported in every document that is the same up to there. -/
structure IsFirst (grammar : Grammar α β γ) (role : Role) {δ : Type} (read : Element → Checked δ) (e : Element)
    (violation : Violation) (path : List Nat) (position : Element) : Prop where
  stands : e.at? path = some position
  line : violation.line = position.line
  earlier : grammar.PassedBefore role e path
  decided : ∀ other, e.SameUpTo path other → read other = .error violation

/-- A check that goes level by level reports the first violation. -/
theorem exists_isFirst {grammar : Grammar α β γ} (levels : ∀ role e, grammar.HasLevel role e) {role : Role}
    {e : Element} {violation : Violation} (failed : grammar.check role e = .error violation) :
    ∃ path position, grammar.IsFirst role (grammar.check role) e violation path position := by
  cases levels role e with
  | @refused found isFound line =>
    rw [withChildren_children] at isFound
    cases failed.symm.trans isFound
    refine ⟨[], e, rfl, line, .here, fun other same => ?_⟩
    cases same
    exact failed
  | @firstRefused child rest found split line refuses =>
    have first : e.children = [] ++ child :: rest := split
    have whole : e.withChildren (child :: rest) = e := by rw [← split, withChildren_children]
    have isFound := refuses rest rfl
    rw [whole] at isFound
    cases failed.symm.trans isFound
    refine ⟨[0], child, ?_, line, .inside first (fun before _ _ impossible => ?_) .here, fun other same => ?_⟩
    · rw [at?, split]
      rfl
    · simp at impossible
    · obtain ⟨found, others, rfl, count, same⟩ := SameUpTo.of_split first same
      cases same
      exact refuses others count
  | onward goes =>
    have whole := goes e.children rfl
    rw [withChildren_children, passes_eq_error_iff.mpr failed] at whole
    obtain ⟨before, child, after, split, passed, fails⟩ := inOrder_eq_error_iff.mp whole.symm
    obtain ⟨path, position, stands, line, earlier, decided⟩ := exists_isFirst levels fails
    refine ⟨before.length :: path, position, ?_, line, .inside split passed earlier, fun other same => ?_⟩
    · rw [at?, split, List.getElem?_append_right (Nat.le_refl _), Nat.sub_self]
      exact stands
    · obtain ⟨found, others, rfl, count, same⟩ := SameUpTo.of_split split same
      have sameCount : (before ++ found :: others).length = e.children.length := by
        simp [split, count]
      rw [← passes_eq_error_iff, goes _ sameCount]
      exact inOrder_eq_error_iff.mpr ⟨before, found, others, rfl, passed, decided found same⟩
termination_by sizeOf e
decreasing_by
  apply sizeOf_lt_of_mem_children
  rw [split]
  exact List.mem_append_right _ List.mem_cons_self

end Grammar

end ModelCatalog
