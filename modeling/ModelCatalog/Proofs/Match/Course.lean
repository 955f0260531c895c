import ModelCatalog.Proofs.Filter.Nodes
import ModelCatalog.Proofs.Match.Walks

/-!
# The course of a match

A match makes calls: a filter is matched with a node, and a tag is resolved. What a call does is its
plan: the calls that it makes, in order, and how its outcome hangs on theirs. The course of a call is the
list of all calls that begin and end while it runs, in the order of time, with its outcome. Types and
dimensions make no calls, for they ask for no tag.

The course of a call tells the truth: its outcome is that of the match (`Registry.outcome_course`). And
it leaves nothing out: a resolution that does not begin in the course has no part in the outcome
(`Registry.evaluate_eq_of_agrees`).
-/

namespace ModelCatalog

open Outcome (Place)

/-- A call of a match: match a filter with a node, or resolve a tag on behalf of the nodes at two lines,
    the tags of a stack being under resolution. -/
inductive MatchCall where
  | value (stack : List String) (filter : Filter) (node : Manifest)
  | resolution (stack : List String) (tag : String) (filterLine manifestLine : Nat)

/-- The outcome of a call. -/
def Registry.perform (registry : Registry) (root : Manifest) : MatchCall → Outcome
  | .value stack filter node => registry.evaluate root stack filter node
  | .resolution stack tag filterLine manifestLine => registry.resolve root stack tag filterLine manifestLine

/-! ## Plans -/

/-- A step of a plan: a check that needs no call, or a call. -/
inductive PlanStep where
  | check (outcome : Outcome)
  | call (call : MatchCall)

/-- What a call does. -/
inductive Plan where
  /-- Steps one after the other, as long as they succeed. -/
  | all (steps : List PlanStep)
  /-- Calls one after the other until one succeeds or ends with a fault. -/
  | firstOf (place : Place) (operands : List MatchCall)
  /-- A call whose outcome is turned round, unless it is a fault. -/
  | negate (place : Place) (operand : MatchCall)

/-- The calls of a plan. -/
inductive Plan.Makes (call : MatchCall) : Plan → Prop
  | step {steps : List PlanStep} : .call call ∈ steps → Makes call (.all steps)
  | alternative {place : Place} {operands : List MatchCall} : call ∈ operands →
      Makes call (.firstOf place operands)
  | negated {place : Place} : Makes call (.negate place call)

def PlanStep.outcome (perform : MatchCall → Outcome) : PlanStep → Outcome
  | .check outcome => outcome
  | .call inner => perform inner

/-- The outcome of a plan, given those of calls. -/
def Plan.outcome (perform : MatchCall → Outcome) : Plan → Outcome
  | .all steps => forM steps (PlanStep.outcome perform)
  | .firstOf place operands => Outcome.firstOf place operands perform
  | .negate place operand => (perform operand).negate place

namespace Plan

/-- A plan that is a check and nothing else. -/
theorem outcome_check (perform : MatchCall → Outcome) (outcome : Outcome) :
    (all [.check outcome]).outcome perform = outcome := by
  change (outcome >>= fun _ => .ok ()) = outcome
  cases outcome <;> rfl

/-- A plan that is a call and nothing else. -/
theorem outcome_call (perform : MatchCall → Outcome) (call : MatchCall) :
    (all [.call call]).outcome perform = perform call := outcome_check perform (perform call)

theorem not_makes_check {call : MatchCall} {outcome : Outcome} : ¬Makes call (all [.check outcome]) := by
  intro makes
  cases makes with
  | step member => exact nomatch List.mem_singleton.mp member

end Plan

/-- The plan of matching a field with the dict at a line. -/
def Filter.fieldStep (stack : List String) (line : Nat) (entries : List (Named Manifest))
    (field : Named Filter) : PlanStep :=
  match findEntry field.name entries with
  | some entry => .call (.value stack field.value entry.value)
  | none => .check (Place.fail ⟨stack, field.line, line⟩ (.missingKey field.name))

/-- The plan of matching a filter with a node. -/
def Filter.plan (stack : List String) : Filter → Manifest → Plan
  | .and _ operands, node => .all (operands.map fun operand => .call (.value stack operand node))
  | .or line operands, node =>
    .firstOf ⟨stack, line, node.line⟩ (operands.map fun operand => .value stack operand node)
  | .not line operand, node => .negate ⟨stack, line, node.line⟩ (.value stack operand node)
  | .implicitTags line groups, node =>
    .all ((unionTags groups).toList.map fun tag => .call (.resolution stack tag line node.line))
  | .dict _ fields, .dict line entries => .all (fields.map (fieldStep stack line entries))
  | .list line items, .list nodeLine values =>
    .all (.check (Place.require ⟨stack, line, nodeLine⟩ (items.length ≤ values.length)
        (.shortList items.length values.length)) ::
      (items.zip values).map fun pair => .call (.value stack pair.1 pair.2))
  -- The other nodes of a filter make no calls, whatever is known of tags.
  | filter, node => .all [.check (filter.evaluate (fun _ _ _ => .ok ()) stack node)]

/-- The plan of a call. -/
def Registry.plan (registry : Registry) (root : Manifest) : MatchCall → Plan
  | .value stack filter node => filter.plan stack node
  | .resolution stack tag filterLine manifestLine =>
    if tag ∈ stack then
      .all [.check (Place.fail ⟨stack ++ [tag], filterLine, manifestLine⟩ (.tagCycle tag))]
    else
      match registry.get? tag with
      | none => .all [.check (Place.fail ⟨stack, filterLine, manifestLine⟩ (.tagNotFound tag))]
      | some definition => .all [.call (.value (stack ++ [tag]) definition root)]

namespace Filter

variable {stack : List String}

/-- The outcomes of calls for a way to resolve tags. -/
def answers (resolve : Resolver) : MatchCall → Outcome
  | .value stack filter node => filter.evaluate resolve stack node
  | .resolution _ tag filterLine manifestLine => resolve tag filterLine manifestLine

theorem outcome_fieldStep {resolve : Resolver} {line : Nat} {entries : List (Named Manifest)}
    (field : Named Filter) :
    (fieldStep stack line entries field).outcome (answers resolve) =
      evaluateEntry resolve stack line entries field := by
  rw [fieldStep, evaluateEntry]
  cases findEntry field.name entries <;> rfl

/-- A loop over a list that was mapped. -/
theorem forM_map {α β : Type} (members : List α) (change : α → β) (action : β → Outcome) :
    forM (members.map change) action = forM members fun member => action (change member) := by
  induction members with
  | nil => rfl
  | cons member rest ih => rw [List.map_cons, List.forM_cons, List.forM_cons, ih]

theorem firstOf_map {α β : Type} (place : Place) (members : List α) (change : α → β) (action : β → Outcome) :
    Outcome.firstOf place (members.map change) action =
      Outcome.firstOf place members fun member => action (change member) :=
  List.foldr_map

/-- An evaluation does what the plan says. -/
theorem evaluate_eq_outcome_plan (resolve : Resolver) (filter : Filter) (node : Manifest) :
    filter.evaluate resolve stack node = (filter.plan stack node).outcome (answers resolve) := by
  cases filter with
  | and line operands =>
    rw [evaluate, evaluateAll_eq, plan, Plan.outcome, forM_map]
    rfl
  | or line operands =>
    rw [evaluate, evaluateAny_eq, plan, Plan.outcome, firstOf_map]
    rfl
  | not line operand =>
    rw [evaluate, plan]
    rfl
  | implicitTags line groups =>
    rw [evaluate, resolveEach_eq, plan, Plan.outcome, forM_map]
    rfl
  | dict line fields =>
    cases node with
    | dict manifestLine entries =>
      rw [evaluate, evaluateEntries_eq, plan, Plan.outcome, forM_map]
      simp only [outcome_fieldStep]
    | _ => exact (Plan.outcome_check _ _).symm
  | list line items =>
    cases node with
    | list manifestLine values =>
      rw [evaluate, evaluateEach_eq, plan, Plan.outcome, List.forM_cons, forM_map]
      rfl
    | _ => exact (Plan.outcome_check _ _).symm
  | anything | string | bool | int | float | typeDeclaration | explicitTags =>
    cases node <;> exact (Plan.outcome_check _ _).symm

/-- The calls in the plan of a filter match its children or resolve tags, under the same stack. -/
theorem makes_plan {call : MatchCall} {filter : Filter} {node : Manifest}
    (makes : Plan.Makes call (filter.plan stack node)) :
    (∃ child ∈ filter.children, ∃ opposite, call = .value stack child opposite) ∨
      ∃ tag filterLine manifestLine, call = .resolution stack tag filterLine manifestLine := by
  cases filter with
  | and line operands =>
    cases makes with
    | step member =>
      obtain ⟨operand, inside, same⟩ := List.mem_map.mp member
      exact .inl ⟨operand, inside, node, PlanStep.call.inj same.symm⟩
  | or line operands =>
    cases makes with
    | alternative member =>
      obtain ⟨operand, inside, rfl⟩ := List.mem_map.mp member
      exact .inl ⟨operand, inside, node, rfl⟩
  | not line operand =>
    cases makes with
    | negated => exact .inl ⟨operand, List.mem_singleton_self operand, node, rfl⟩
  | implicitTags line groups =>
    cases makes with
    | step member =>
      obtain ⟨tag, _, same⟩ := List.mem_map.mp member
      exact .inr ⟨tag, line, node.line, PlanStep.call.inj same.symm⟩
  | dict line fields =>
    cases node with
    | dict manifestLine entries =>
      cases makes with
      | step member =>
        obtain ⟨field, inside, same⟩ := List.mem_map.mp member
        rw [fieldStep] at same
        split at same
        next entry _ =>
          exact .inl ⟨field.value, List.mem_map_of_mem inside, entry.value, PlanStep.call.inj same.symm⟩
        · cases same
    | _ => exact absurd makes Plan.not_makes_check
  | list line items =>
    cases node with
    | list manifestLine values =>
      cases makes with
      | step member =>
        rcases List.mem_cons.mp member with same | later
        · cases same
        · obtain ⟨pair, inside, same⟩ := List.mem_map.mp later
          exact .inl ⟨pair.1, (List.of_mem_zip inside).1, pair.2, PlanStep.call.inj same.symm⟩
    | _ => exact absurd makes Plan.not_makes_check
  | anything | string | bool | int | float | typeDeclaration | explicitTags =>
    cases node <;> exact absurd makes Plan.not_makes_check

end Filter

/-! ## Courses -/

/-- What happens in the course of a match. -/
inductive MatchEvent where
  | begins (call : MatchCall)
  | ends (call : MatchCall) (outcome : Outcome)

/-- The events of a part of a match, and its outcome. -/
structure Course where
  events : List MatchEvent
  outcome : Outcome

namespace Course

/-- A part without calls. -/
def still (outcome : Outcome) : Course := ⟨[], outcome⟩

/-- A part, and then another one unless the first fails. -/
def andThen (first second : Course) : Course :=
  match first.outcome with
  | .ok () => ⟨first.events ++ second.events, second.outcome⟩
  | .error _ => first

/-- A part, and then others if it fails and the registry is not the cause. -/
def either (first others : Course) : Course :=
  match first.outcome with
  | .ok () => first
  | .error failure =>
    if failure.isRegistryFault then first else ⟨first.events ++ others.events, others.outcome⟩

/-- A part with the opposite outcome. -/
def negate (operand : Course) (place : Place) : Course := ⟨operand.events, operand.outcome.negate place⟩

/-- Parts one after the other as long as they succeed. -/
def all (parts : List Course) : Course := parts.foldr andThen (still (.ok ()))

/-- Parts one after the other until one succeeds or ends with a fault. -/
def firstOf (place : Place) (parts : List Course) : Course :=
  parts.foldr either (still (place.fail .noAlternative))

/-- A call from its begin to its end. -/
def ofCall (call : MatchCall) (body : Course) : Course :=
  ⟨.begins call :: (body.events ++ [.ends call body.outcome]), body.outcome⟩

theorem outcome_andThen (first second : Course) :
    (first.andThen second).outcome = first.outcome >>= fun _ => second.outcome := by
  rw [andThen]
  cases ended : first.outcome with
  | ok done => rfl
  | error failure => exact ended

theorem outcome_either (first others : Course) :
    (first.either others).outcome = first.outcome.either fun _ => others.outcome := by
  rw [either]
  cases ended : first.outcome with
  | ok done => exact ended
  | error failure =>
    change (if failure.isRegistryFault then _ else _ : Course).outcome = if failure.isRegistryFault then _ else _
    split
    · exact ended
    · rfl

variable {first second : Course} {event : MatchEvent}

theorem mem_andThen_left (member : event ∈ first.events) : event ∈ (first.andThen second).events := by
  rw [andThen]
  split
  · exact List.mem_append_left _ member
  · exact member

theorem mem_andThen_right (succeeded : first.outcome = .ok ()) (member : event ∈ second.events) :
    event ∈ (first.andThen second).events := by
  rw [andThen, succeeded]
  exact List.mem_append_right _ member

theorem mem_either_left (member : event ∈ first.events) : event ∈ (first.either second).events := by
  rw [either]
  split
  · exact member
  · split
    · exact member
    · exact List.mem_append_left _ member

theorem mem_either_right {failure : MatchFailure} (failed : first.outcome = .error failure)
    (harmless : failure.isRegistryFault = false) (member : event ∈ second.events) :
    event ∈ (first.either second).events := by
  simp only [either, failed, harmless]
  exact List.mem_append_right _ member

end Course

/-- The course of a step, given those of calls. -/
def PlanStep.course (courses : MatchCall → Course) : PlanStep → Course
  | .check outcome => .still outcome
  | .call inner => courses inner

/-- The course of a plan, given those of calls. -/
def Plan.course (courses : MatchCall → Course) : Plan → Course
  | .all steps => .all (steps.map (PlanStep.course courses))
  | .firstOf place operands => .firstOf place (operands.map courses)
  | .negate place operand => (courses operand).negate place

namespace Plan

variable {courses : MatchCall → Course} {perform : MatchCall → Outcome} {happens : MatchEvent → Prop}

/-- A call agrees with its course if this is a part of what happens. -/
def Agrees (courses : MatchCall → Course) (perform : MatchCall → Outcome) (happens : MatchEvent → Prop)
    (call : MatchCall) : Prop :=
  (∀ event ∈ (courses call).events, happens event) → perform call = (courses call).outcome

/-- Steps in a row end as their course does, if their calls agree with theirs. -/
theorem forM_eq_outcome {steps : List PlanStep}
    (part : ∀ event ∈ (Course.all (steps.map (PlanStep.course courses))).events, happens event)
    (agree : ∀ inner, .call inner ∈ steps → Agrees courses perform happens inner) :
    forM steps (PlanStep.outcome perform) = (Course.all (steps.map (PlanStep.course courses))).outcome := by
  induction steps with
  | nil => rfl
  | cons step rest ih =>
    have unfolded : Course.all ((step :: rest).map (PlanStep.course courses)) =
        (step.course courses).andThen (Course.all (rest.map (PlanStep.course courses))) := rfl
    rw [unfolded] at part ⊢
    have first : step.outcome perform = (step.course courses).outcome := by
      cases step with
      | check outcome => rfl
      | call inner =>
        exact agree inner List.mem_cons_self fun event member => part event (Course.mem_andThen_left member)
    rw [List.forM_cons, first, Course.outcome_andThen]
    cases succeeded : (step.course courses).outcome with
    | error failure => rfl
    | ok done =>
      refine ih (fun event member => part event (Course.mem_andThen_right succeeded member)) ?_
      exact fun inner member => agree inner (List.mem_cons_of_mem _ member)

/-- Alternatives end as their course does, if they agree with theirs. -/
theorem firstOf_eq_outcome {place : Place} {operands : List MatchCall}
    (part : ∀ event ∈ (Course.firstOf place (operands.map courses)).events, happens event)
    (agree : ∀ operand ∈ operands, Agrees courses perform happens operand) :
    Outcome.firstOf place operands perform = (Course.firstOf place (operands.map courses)).outcome := by
  induction operands with
  | nil => rfl
  | cons operand rest ih =>
    have unfolded : Course.firstOf place ((operand :: rest).map courses) =
        (courses operand).either (Course.firstOf place (rest.map courses)) := rfl
    rw [unfolded] at part ⊢
    have first : perform operand = (courses operand).outcome :=
      agree operand List.mem_cons_self fun event member => part event (Course.mem_either_left member)
    have split : Outcome.firstOf place (operand :: rest) perform =
        (perform operand).either fun _ => Outcome.firstOf place rest perform := rfl
    rw [split, first, Course.outcome_either]
    cases failed : (courses operand).outcome with
    | ok done => rfl
    | error failure =>
      cases fault : failure.isRegistryFault with
      | true => simp only [Outcome.either, fault, if_true]
      | false =>
        have others := ih (fun event member => part event (Course.mem_either_right failed fault member))
          fun inner member => agree inner (List.mem_cons_of_mem _ member)
        simp only [Outcome.either, fault, others]

/-- A plan ends as its course does, if its calls agree with theirs. -/
theorem outcome_eq_outcome_course {plan : Plan} (happens : MatchEvent → Prop)
    (part : ∀ event ∈ (plan.course courses).events, happens event)
    (agree : ∀ inner, Makes inner plan → Agrees courses perform happens inner) :
    plan.outcome perform = (plan.course courses).outcome := by
  cases plan with
  | all steps => exact forM_eq_outcome part fun inner member => agree inner (.step member)
  | firstOf place operands => exact firstOf_eq_outcome part fun inner member => agree inner (.alternative member)
  | negate place operand =>
    have same : perform operand = (courses operand).outcome := agree operand .negated part
    rw [outcome, same]
    rfl

/-- The outcome of the course of a plan. -/
theorem outcome_course (courses : MatchCall → Course) (plan : Plan) :
    (plan.course courses).outcome = plan.outcome fun call => (courses call).outcome :=
  (outcome_eq_outcome_course (fun _ => True) (fun _ _ => trivial) fun _ _ _ => rfl).symm

/-- The outcome of a plan hangs on the calls that it makes. -/
theorem outcome_congr {other : MatchCall → Outcome} {plan : Plan}
    (same : ∀ inner, Makes inner plan → perform inner = other inner) :
    plan.outcome perform = plan.outcome other := by
  -- The other outcomes are those of courses without events.
  have courses := outcome_course (fun call => ⟨[], other call⟩) plan
  rw [← courses]
  exact outcome_eq_outcome_course (fun _ => True) (fun _ _ => trivial) fun inner makes _ => same inner makes

end Plan

namespace Registry

variable (registry : Registry) (root : Manifest)

/-- How much a call can still do: first the tags that are not under resolution, then the filter. -/
noncomputable def weight : MatchCall → Nat × Nat
  | .value stack filter _ => (registry.remaining stack, sizeOf filter)
  | .resolution stack _ _ _ => (registry.remaining stack, 0)

variable {registry root} in
theorem weight_lt_of_makes {inner call : MatchCall} (makes : Plan.Makes inner (registry.plan root call)) :
    Prod.Lex (· < ·) (· < ·) (registry.weight inner) (registry.weight call) := by
  cases call with
  | value stack filter node =>
    rcases Filter.makes_plan makes with ⟨child, member, opposite, rfl⟩ | ⟨tag, filterLine, manifestLine, rfl⟩
    · exact .right _ (Filter.sizeOf_lt_of_mem_children member)
    · refine .right _ ?_
      cases filter <;> simp +arith
  | resolution stack tag filterLine manifestLine =>
    rw [plan] at makes
    split at makes
    · exact absurd makes Plan.not_makes_check
    next fresh =>
      split at makes
      · exact absurd makes Plan.not_makes_check
      next definition found =>
        cases makes with
        | step member =>
          cases List.mem_singleton.mp member
          exact .left _ _ (remaining_push_lt fresh (by simp [found]))

/-- What holds of a call whenever it holds of the calls that it makes holds of every call. -/
theorem induction_on_calls {motive : MatchCall → Prop}
    (step : ∀ call, (∀ inner, Plan.Makes inner (registry.plan root call) → motive inner) → motive call)
    (call : MatchCall) : motive call :=
  step call fun inner _ => induction_on_calls step inner
termination_by registry.weight call
decreasing_by exact weight_lt_of_makes ‹_›

/-- The course of a call. -/
def course (registry : Registry) (root : Manifest) (call : MatchCall) : Course :=
  .ofCall call <|
    match _planned : registry.plan root call with
    | .all steps =>
      .all (steps.attach.map fun step =>
        match step with
        | ⟨.check outcome, _⟩ => .still outcome
        | ⟨.call inner, _⟩ => registry.course root inner)
    | .firstOf place operands =>
      .firstOf place (operands.attach.map fun inner => registry.course root inner.1)
    | .negate place operand => (registry.course root operand).negate place
termination_by registry.weight call
decreasing_by
  · apply weight_lt_of_makes
    rw [_planned]
    exact .step ‹_›
  · apply weight_lt_of_makes
    rw [_planned]
    exact .alternative inner.2
  · apply weight_lt_of_makes
    rw [_planned]
    exact .negated

/-- A call goes as its plan does, between its begin and its end. -/
theorem course_eq (call : MatchCall) :
    registry.course root call = .ofCall call ((registry.plan root call).course (registry.course root)) := by
  rw [course]
  congr 1
  split
  next steps planned =>
    have same : (steps.attach.map fun step =>
          match step with
          | ⟨.check outcome, _⟩ => .still outcome
          | ⟨.call inner, _⟩ => registry.course root inner) =
        steps.attach.map fun step => step.1.course (registry.course root) :=
      List.map_congr_left fun step _ => by
        obtain ⟨step, member⟩ := step
        cases step <;> rfl
    rw [same, List.attach_map_val, planned, Plan.course]
  next place operands planned => rw [List.attach_map_val, planned, Plan.course]
  next place operand planned => rw [planned, Plan.course]

/-- A call does what its plan says. -/
theorem perform_eq_outcome_plan (call : MatchCall) :
    registry.perform root call = (registry.plan root call).outcome (registry.perform root) := by
  cases call with
  | value stack filter node =>
    rw [perform, evaluate, Filter.evaluate_eq_outcome_plan, plan]
    refine Plan.outcome_congr fun inner makes => ?_
    rcases Filter.makes_plan makes with ⟨child, _, opposite, rfl⟩ | ⟨tag, filterLine, manifestLine, rfl⟩
    · rfl
    · rfl
  | resolution stack tag filterLine manifestLine =>
    rw [perform, plan]
    by_cases under : tag ∈ stack
    · rw [resolve, dif_pos under, if_pos under, Plan.outcome_check]
    · rw [resolve, dif_neg under, if_neg under]
      split
      next missing => rw [missing, Plan.outcome_check]
      next definition found => rw [found, Plan.outcome_call]; rfl

/-- The course of a call has its outcome. -/
theorem outcome_course (call : MatchCall) :
    (registry.course root call).outcome = registry.perform root call := by
  induction call using registry.induction_on_calls root with
  | step call ih =>
    rw [course_eq, perform_eq_outcome_plan]
    change ((registry.plan root call).course (registry.course root)).outcome = _
    rw [Plan.outcome_course]
    exact Plan.outcome_congr ih

theorem begins_mem_course (call : MatchCall) : .begins call ∈ (registry.course root call).events := by
  rw [course_eq]
  exact List.mem_cons_self

variable {registry root} in
/-- What happens when a call does what its plan says happens in the course of the call. -/
theorem mem_course_of_mem_plan {call : MatchCall} {event : MatchEvent}
    (member : event ∈ ((registry.plan root call).course (registry.course root)).events) :
    event ∈ (registry.course root call).events := by
  rw [course_eq]
  exact List.mem_cons_of_mem _ (List.mem_append_left _ member)

variable {registry root} in
/-- No resolution has a part in the outcome of an evaluation unless it begins in the course. -/
theorem evaluate_eq_of_agrees {stack : List String} {other : Resolver} {filter : Filter} {node : Manifest}
    (agrees : ∀ tag filterLine manifestLine,
      .begins (.resolution stack tag filterLine manifestLine) ∈
          (registry.course root (.value stack filter node)).events →
        other tag filterLine manifestLine = registry.resolve root stack tag filterLine manifestLine) :
    filter.evaluate other stack node = registry.evaluate root stack filter node := by
  generalize whole : (registry.course root (.value stack filter node)).events = events at agrees
  have part : ∀ event ∈ (registry.course root (.value stack filter node)).events, event ∈ events :=
    fun event member => whole ▸ member
  clear whole
  induction filter using Filter.induction_on_children generalizing node with
  | step filter ih =>
    have body : ∀ event ∈ ((filter.plan stack node).course (registry.course root)).events, event ∈ events :=
      fun event member => part event (mem_course_of_mem_plan member)
    have agree : ∀ inner, Plan.Makes inner (filter.plan stack node) →
        Plan.Agrees (registry.course root) (Filter.answers other) (· ∈ events) inner := by
      intro inner makes inside
      rw [outcome_course]
      rcases Filter.makes_plan makes with ⟨child, member, opposite, rfl⟩ | ⟨tag, filterLine, manifestLine, rfl⟩
      · exact ih child member inside
      · exact agrees tag filterLine manifestLine (inside _ (registry.begins_mem_course root _))
    rw [Filter.evaluate_eq_outcome_plan, Plan.outcome_eq_outcome_course (· ∈ events) body agree]
    have whole := registry.outcome_course root (.value stack filter node)
    rwa [course_eq] at whole

end Registry

end ModelCatalog
