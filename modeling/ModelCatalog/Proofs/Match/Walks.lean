import ModelCatalog.Match.Evaluate
import ModelCatalog.Proofs.Results
import Mathlib.Data.List.Forall2

/-!
# The walks of a match as loops

A match meets lists in two ways: every member has to match, or some member. The walks of values, types
and dimensions are the loop over all members (`forM`) and the first success (`Outcome.firstOf`), so
that what holds of these two holds of every walk. In particular they depend on nothing but the outcomes that they
run through (`forM_eq_of_forall₂`, `Outcome.firstOf_eq_of_forall₂`).
-/

namespace ModelCatalog

open Outcome (Place)

/-- The first success among several outcomes, faults passing; a failure at a place when there is none. -/
def Outcome.firstOf (place : Place) (operands : List α) (outcome : α → Outcome) : Outcome :=
  operands.foldr (fun operand others => (outcome operand).either fun _ => others) (place.fail .noAlternative)

/-! ## Loops with the same outcomes -/

section

variable {α β γ δ : Type}

/-- A relation between the members of two lists holds as another one that follows for the members. -/
theorem forall₂_imp_of_mem {relates weaker : α → β → Prop} {left : List α} {right : List β}
    (each : List.Forall₂ relates left right) (weakens : ∀ x ∈ left, ∀ y, relates x y → weaker x y) :
    List.Forall₂ weaker left right := by
  induction each with
  | nil => exact .nil
  | cons first rest ih =>
    obtain ⟨here, later⟩ := List.forall_mem_cons.mp weakens
    exact .cons (here _ first) (ih later)

/-- Lists that are related member by member are related in pairs. -/
theorem forall₂_zip {relates : α → β → Prop} {opposite : γ → δ → Prop} {left : List α} {right : List β}
    {others : List γ} {opposites : List δ} (each : List.Forall₂ relates left right)
    (other : List.Forall₂ opposite others opposites) :
    List.Forall₂ (fun x y => relates x.1 y.1 ∧ opposite x.2 y.2) (left.zip others) (right.zip opposites) := by
  induction each generalizing others opposites with
  | nil => exact .nil
  | cons first rest ih =>
    cases other with
    | nil => exact .nil
    | cons second later => exact .cons ⟨first, second⟩ (ih later)

theorem forM_eq_of_forall₂ {ε : Type} {left : List α} {right : List β} {action : α → Except ε Unit}
    {other : β → Except ε Unit} (same : List.Forall₂ (fun x y => action x = other y) left right) :
    forM left action = forM right other := by
  induction same with
  | nil => rfl
  | cons first rest ih => rw [List.forM_cons, List.forM_cons, first, ih]

theorem forM_congr {ε : Type} {members : List α} {action other : α → Except ε Unit}
    (same : ∀ member ∈ members, action member = other member) : forM members action = forM members other :=
  forM_eq_of_forall₂ (List.forall₂_same.mpr same)

theorem Outcome.firstOf_eq_of_forall₂ {place : Place} {left : List α} {right : List β} {outcome : α → Outcome}
    {other : β → Outcome} (same : List.Forall₂ (fun x y => outcome x = other y) left right) :
    firstOf place left outcome = firstOf place right other := by
  induction same with
  | nil => rfl
  | cons first rest ih =>
    rw [firstOf, firstOf, List.foldr_cons, List.foldr_cons, first]
    exact congrArg (fun others => Outcome.either _ fun _ => others) ih

theorem Outcome.firstOf_congr {place : Place} {operands : List α} {outcome other : α → Outcome}
    (same : ∀ operand ∈ operands, outcome operand = other operand) :
    firstOf place operands outcome = firstOf place operands other :=
  firstOf_eq_of_forall₂ (List.forall₂_same.mpr same)

end

/-! ## The walks -/

namespace DimFilter

variable {stack : List String} {dim : Dim}

theorem evaluateAll_eq {operands : List DimFilter} :
    evaluateAll stack dim operands = forM operands fun operand => operand.evaluate stack dim := by
  induction operands with
  | nil => rfl
  | cons operand rest ih => rw [evaluateAll, ih, List.forM_cons]

theorem evaluateAny_eq {place : Place} {operands : List DimFilter} :
    evaluateAny stack dim place operands =
      Outcome.firstOf place operands fun operand => operand.evaluate stack dim := by
  induction operands with
  | nil => rfl
  | cons operand rest ih => rw [evaluateAny, ih]; rfl

theorem evaluateEach_eq {filters : List DimFilter} {dims : List Dim} :
    evaluateEach stack filters dims = forM (filters.zip dims) fun pair => pair.1.evaluate stack pair.2 := by
  induction filters generalizing dims with
  | nil => rfl
  | cons filter rest ih =>
    cases dims with
    | nil => rfl
    | cons dim dims => rw [evaluateEach, ih, List.zip_cons_cons, List.forM_cons]

end DimFilter

namespace TypeFilter

variable {stack : List String}

/-- Match an entry of a filter with the entry of its name, if there is one. -/
def evaluateEntry (stack : List String) (found : List (Named TypeDecl)) (value : Named TypeFilter) : Outcome :=
  match findEntry value.name found with
  | some entry => value.value.evaluate stack entry.value
  | none => .ok ()

theorem evaluateEach_eq {items : List TypeFilter} {types : List TypeDecl} :
    evaluateEach stack items types = forM (items.zip types) fun pair => pair.1.evaluate stack pair.2 := by
  induction items generalizing types with
  | nil => simp [evaluateEach, pure, Except.pure]
  | cons item rest ih =>
    cases types with
    | nil => simp [evaluateEach, pure, Except.pure]
    | cons type types => rw [evaluateEach, ih, List.zip_cons_cons, List.forM_cons]

theorem evaluateEntries_eq {found : List (Named TypeDecl)} {values : List (Named TypeFilter)} :
    evaluateEntries stack found values = forM values (evaluateEntry stack found) := by
  induction values with
  | nil => rfl
  | cons value rest ih =>
    rw [evaluateEntries, ih, List.forM_cons, evaluateEntry]
    cases findEntry value.name found <;> rfl

end TypeFilter

namespace Filter

variable {resolve : Resolver} {stack : List String}

/-- Match a field of a filter with the field of its name in the dict at a line. -/
def evaluateEntry (resolve : Resolver) (stack : List String) (manifestLine : Nat)
    (entries : List (Named Manifest)) (field : Named Filter) : Outcome :=
  match findEntry field.name entries with
  | some entry => field.value.evaluate resolve stack entry.value
  | none => Place.fail ⟨stack, field.line, manifestLine⟩ (.missingKey field.name)

theorem resolveEach_eq {filterLine manifestLine : Nat} {tags : List String} :
    resolveEach resolve filterLine manifestLine tags =
      forM tags fun tag => resolve tag filterLine manifestLine := by
  induction tags with
  | nil => rfl
  | cons tag rest ih => rw [resolveEach, ih, List.forM_cons]

theorem evaluateAll_eq {manifest : Manifest} {operands : List Filter} :
    evaluateAll resolve stack manifest operands =
      forM operands fun operand => operand.evaluate resolve stack manifest := by
  induction operands with
  | nil => rfl
  | cons operand rest ih => rw [evaluateAll, ih, List.forM_cons]

theorem evaluateAny_eq {manifest : Manifest} {place : Place} {operands : List Filter} :
    evaluateAny resolve stack manifest place operands =
      Outcome.firstOf place operands fun operand => operand.evaluate resolve stack manifest := by
  induction operands with
  | nil => rfl
  | cons operand rest ih => rw [evaluateAny, ih]; rfl

theorem evaluateEach_eq {items : List Filter} {values : List Manifest} :
    evaluateEach resolve stack items values =
      forM (items.zip values) fun pair => pair.1.evaluate resolve stack pair.2 := by
  induction items generalizing values with
  | nil => simp [evaluateEach, pure, Except.pure]
  | cons item rest ih =>
    cases values with
    | nil => simp [evaluateEach, pure, Except.pure]
    | cons value values => rw [evaluateEach, ih, List.zip_cons_cons, List.forM_cons]

theorem evaluateEntries_eq {manifestLine : Nat} {entries : List (Named Manifest)}
    {fields : List (Named Filter)} :
    evaluateEntries resolve stack manifestLine entries fields =
      forM fields (evaluateEntry resolve stack manifestLine entries) := by
  induction fields with
  | nil => rfl
  | cons field rest ih =>
    rw [evaluateEntries, ih, List.forM_cons, evaluateEntry]
    cases findEntry field.name entries <;> rfl

end Filter

end ModelCatalog
