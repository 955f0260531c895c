import ModelCatalog.Proofs.Match.Walks

/-!
# The algebra of logical filters

The outcomes of a match fall into classes (`Outcome.classify`): a match, a mismatch, and every fault of the registry
for itself. On the classes the connectives are operations that look at their operands from left to right. A
conjunction goes on after a match, a disjunction after a mismatch, and a fault passes through both and through a
negation, so that the laws of Boolean algebra hold with the same fault on either side. Values and dimensions share
the connectives, and the laws are proved for both at once (`BooleanLaws.of_connectives`). Main statement: logical
filters obey the laws in every registry, with cycles and unknown tags or without, whatever tags are under resolution
(`Registry.logical_filters_obey_boolean_laws`).
-/

namespace ModelCatalog

open Outcome (Place)

/-! ## Classes of outcomes -/

/-- A match, a mismatch, or a fault of the registry. -/
inductive OutcomeClass where
  | matched
  | mismatched
  | faulted (fault : MatchFailure)
deriving DecidableEq

namespace OutcomeClass

/-- The second class after a match, and otherwise the first. -/
def both : OutcomeClass → OutcomeClass → OutcomeClass
  | .matched, second => second
  | .mismatched, _ => .mismatched
  | .faulted fault, _ => .faulted fault

/-- The second class after a mismatch, and otherwise the first. -/
def either : OutcomeClass → OutcomeClass → OutcomeClass
  | .matched, _ => .matched
  | .mismatched, second => second
  | .faulted fault, _ => .faulted fault

/-- The other one of match and mismatch. -/
def opposite : OutcomeClass → OutcomeClass
  | .matched => .mismatched
  | .mismatched => .matched
  | .faulted fault => .faulted fault

def all (classes : List OutcomeClass) : OutcomeClass := classes.foldr both .matched

def any (classes : List OutcomeClass) : OutcomeClass := classes.foldr either .mismatched

variable {first second third : OutcomeClass} {classes others : List OutcomeClass}

@[simp] theorem all_cons : all (first :: classes) = first.both (all classes) := rfl

@[simp] theorem any_cons : any (first :: classes) = first.either (any classes) := rfl

theorem opposite_opposite (only : OutcomeClass) : only.opposite.opposite = only := by
  cases only <;> rfl

theorem both_assoc : (first.both second).both third = first.both (second.both third) := by
  cases first <;> rfl

theorem either_assoc : (first.either second).either third = first.either (second.either third) := by
  cases first <;> rfl

theorem opposite_both : (first.both second).opposite = first.opposite.either second.opposite := by
  cases first <;> rfl

theorem opposite_either : (first.either second).opposite = first.opposite.both second.opposite := by
  cases first <;> rfl

theorem all_append : all (classes ++ others) = (all classes).both (all others) := by
  induction classes with
  | nil => rfl
  | cons first rest ih => rw [List.cons_append, all_cons, all_cons, ih, both_assoc]

theorem any_append : any (classes ++ others) = (any classes).either (any others) := by
  induction classes with
  | nil => rfl
  | cons first rest ih => rw [List.cons_append, any_cons, any_cons, ih, either_assoc]

theorem opposite_all (classes : List OutcomeClass) : (all classes).opposite = any (classes.map opposite) := by
  induction classes with
  | nil => rfl
  | cons first rest ih => rw [all_cons, opposite_both, ih, List.map_cons, any_cons]

theorem opposite_any (classes : List OutcomeClass) : (any classes).opposite = all (classes.map opposite) := by
  induction classes with
  | nil => rfl
  | cons first rest ih => rw [any_cons, opposite_either, ih, List.map_cons, all_cons]

end OutcomeClass

/-! ## Connectives on classes -/

namespace Outcome

/-- The class of an outcome. Mismatches are alike, whatever does not fit. -/
def classify : Outcome → OutcomeClass
  | .ok () => .matched
  | .error failure => if failure.isRegistryFault then .faulted failure else .mismatched

variable {outcome : Outcome} {place : Place}

theorem classify_andThen {next : Unit → Outcome} :
    classify (outcome >>= next) = outcome.classify.both (next ()).classify := by
  cases outcome with
  | ok done => rfl
  | error failure =>
    change classify (.error failure) = (classify (.error failure)).both _
    by_cases fault : failure.isRegistryFault = true <;> simp [classify, fault, OutcomeClass.both]

theorem classify_either {others : Unit → Outcome} :
    (outcome.either others).classify = outcome.classify.either (others ()).classify := by
  cases outcome with
  | ok done => rfl
  | error failure =>
    by_cases fault : failure.isRegistryFault = true <;> simp [either, classify, fault, OutcomeClass.either]

theorem classify_negate : (outcome.negate place).classify = outcome.classify.opposite := by
  cases outcome with
  | ok done => rfl
  | error failure =>
    by_cases fault : failure.isRegistryFault = true <;> simp [negate, classify, fault, OutcomeClass.opposite]

variable {α : Type} {operands : List α} {action : α → Outcome}

/-- A walk has the class that its members have together. -/
theorem classify_forM :
    classify (forM operands action) = .all (operands.map fun operand => (action operand).classify) := by
  induction operands with
  | nil => rfl
  | cons operand rest ih => rw [List.forM_cons, classify_andThen, ih, List.map_cons, OutcomeClass.all_cons]

/-- A first success has the class that one of its members has. -/
theorem classify_firstOf :
    (firstOf place operands action).classify = .any (operands.map fun operand => (action operand).classify) := by
  induction operands with
  | nil => rfl
  | cons operand rest ih =>
    have unfolded : firstOf place (operand :: rest) action =
        (action operand).either fun _ => firstOf place rest action := rfl
    rw [unfolded, classify_either, ih, List.map_cons, OutcomeClass.any_cons]

end Outcome

/-! ## The laws -/

/-- The laws of Boolean algebra for logical filters and their outcomes. Every logical filter stands at a line of its
    own; `operands` with lines are operands that are negated at these lines. -/
structure BooleanLaws {α : Type} (outcome : α → Outcome) (and or : Nat → List α → α) (not : Nat → α → α) : Prop where
  and_self : ∀ line filter, outcome (and line [filter, filter]) = outcome filter
  not_not : ∀ outer inner filter, (outcome (not outer (not inner filter))).classify = (outcome filter).classify
  not_and : ∀ outer inner line (operands : List (Nat × α)),
    (outcome (not outer (and inner (operands.map (·.2))))).classify =
      (outcome (or line (operands.map fun operand => not operand.1 operand.2))).classify
  not_or : ∀ outer inner line (operands : List (Nat × α)),
    (outcome (not outer (or inner (operands.map (·.2))))).classify =
      (outcome (and line (operands.map fun operand => not operand.1 operand.2))).classify
  and_and : ∀ outer inner line before operands after,
    (outcome (and outer (before ++ and inner operands :: after))).classify =
      (outcome (and line (before ++ operands ++ after))).classify
  or_or : ∀ outer inner line before operands after,
    (outcome (or outer (before ++ or inner operands :: after))).classify =
      (outcome (or line (before ++ operands ++ after))).classify

/-- The laws hold where a conjunction is the walk over its operands, a disjunction their first success and a negation
    turns the outcome round. -/
theorem BooleanLaws.of_connectives {α : Type} {outcome : α → Outcome} {and or : Nat → List α → α} {not : Nat → α → α}
    (conjunction : ∀ line operands, outcome (and line operands) = forM operands outcome)
    (disjunction : ∀ line operands, ∃ place, outcome (or line operands) = Outcome.firstOf place operands outcome)
    (negation : ∀ line operand, ∃ place, outcome (not line operand) = (outcome operand).negate place) :
    BooleanLaws outcome and or not := by
  have classOfAnd : ∀ line operands, (outcome (and line operands)).classify =
      .all (operands.map fun operand => (outcome operand).classify) := by
    intro line operands
    rw [conjunction, Outcome.classify_forM]
  have classOfOr : ∀ line operands, (outcome (or line operands)).classify =
      .any (operands.map fun operand => (outcome operand).classify) := by
    intro line operands
    obtain ⟨place, isFirst⟩ := disjunction line operands
    rw [isFirst, Outcome.classify_firstOf]
  have classOfNot : ∀ line operand, (outcome (not line operand)).classify = (outcome operand).classify.opposite := by
    intro line operand
    obtain ⟨place, isNegation⟩ := negation line operand
    rw [isNegation, Outcome.classify_negate]
  constructor
  case and_self =>
    intro line filter
    rw [conjunction, List.forM_cons, List.forM_cons]
    cases outcome filter <;> rfl
  case not_not =>
    intro outer inner filter
    rw [classOfNot, classOfNot, OutcomeClass.opposite_opposite]
  case not_and =>
    intro outer inner line operands
    simp only [classOfNot, classOfAnd, classOfOr, OutcomeClass.opposite_all, List.map_map, Function.comp_def]
  case not_or =>
    intro outer inner line operands
    simp only [classOfNot, classOfAnd, classOfOr, OutcomeClass.opposite_any, List.map_map, Function.comp_def]
  case and_and =>
    intro outer inner line before operands after
    simp only [classOfAnd, List.map_append, List.map_cons, OutcomeClass.all_append, OutcomeClass.all_cons,
      OutcomeClass.both_assoc]
  case or_or =>
    intro outer inner line before operands after
    simp only [classOfOr, List.map_append, List.map_cons, OutcomeClass.any_append, OutcomeClass.any_cons,
      OutcomeClass.either_assoc]

/-- Logical filters over values and over dimensions obey the laws of Boolean algebra. -/
theorem Registry.logical_filters_obey_boolean_laws (registry : Registry) (root : Manifest) (stack : List String) :
    (∀ node, BooleanLaws (fun filter => registry.evaluate root stack filter node) Filter.and Filter.or Filter.not) ∧
      ∀ dim, BooleanLaws (fun filter => DimFilter.evaluate stack dim filter) DimFilter.and DimFilter.or
        DimFilter.not := by
  constructor
  · intro node
    refine .of_connectives (fun line operands => ?_) (fun line operands => ⟨⟨stack, line, node.line⟩, ?_⟩)
      fun line operand => ⟨⟨stack, line, node.line⟩, ?_⟩
    · rw [evaluate, Filter.evaluate, Filter.evaluateAll_eq]
      rfl
    · rw [evaluate, Filter.evaluate, Filter.evaluateAny_eq]
      rfl
    · rw [evaluate, Filter.evaluate]
      rfl
  · intro dim
    refine .of_connectives (fun line operands => ?_) (fun line operands => ⟨⟨stack, line, dim.line⟩, ?_⟩)
      fun line operand => ⟨⟨stack, line, dim.line⟩, ?_⟩
    · rw [DimFilter.evaluate, DimFilter.evaluateAll_eq]
    · rw [DimFilter.evaluate, DimFilter.evaluateAny_eq]
    · rw [DimFilter.evaluate]

end ModelCatalog
