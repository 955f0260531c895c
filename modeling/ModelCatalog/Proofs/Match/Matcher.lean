import ModelCatalog.Proofs.Match.Course

/-!
# A match step by step

A matcher keeps one stack of tags for all its calls. A resolution puts its tag on the stack before the
definition is entered and takes it off when the definition has an outcome. What waits for the outcome of a
call is kept in frames, the innermost first. A step of a matcher (`Registry.step`) enters a call, goes on with
what a call comes to, or hands an outcome to the innermost frame.

Nothing in a step bounds how far a match can go, and nothing but the frames says what is taken off the stack.
Still every call runs to its end. It has the outcome of the match, and the matcher has then the stack and the
frames that it had when the call was entered (`Registry.runs_request`).
-/

namespace ModelCatalog

open Outcome (Place)

/-! ## Matchers -/

/-- What a matcher is asked: to match a filter with a node, or to resolve a tag on behalf of the nodes at
    two lines. The tags under resolution are the matcher's own. -/
inductive Request where
  | value (filter : Filter) (node : Manifest)
  | resolution (tag : String) (filterLine manifestLine : Nat)

/-- A step of a task: a check, whose failure shows the tags then under resolution, or a request. -/
inductive TaskStep where
  | check (outcome : List String → Outcome)
  | call (request : Request)

/-- What a request comes to. -/
inductive Task where
  /-- Steps one after the other, as long as they succeed. -/
  | all (steps : List TaskStep)
  /-- Requests one after the other until one succeeds or ends with a fault. -/
  | firstOf (filterLine manifestLine : Nat) (operands : List Request)
  /-- A request whose outcome is turned round, unless it is a fault. -/
  | negate (filterLine manifestLine : Nat) (operand : Request)

/-- What waits for an outcome. -/
inductive Frame where
  /-- The steps that follow a success. -/
  | all (rest : List TaskStep)
  /-- The alternatives that follow a failure of the manifest. -/
  | firstOf (filterLine manifestLine : Nat) (rest : List Request)
  | negate (filterLine manifestLine : Nat)
  /-- The end of a resolution, at which its tag is taken off the stack. -/
  | resolution

/-- What a matcher does next. -/
inductive Control where
  | enter (request : Request)
  | work (task : Task)
  /-- Hand an outcome to the innermost frame. -/
  | leave (outcome : Outcome)

/-- A matcher: the tags under resolution, outermost first, the frames, innermost first, and what is next. -/
structure Matcher where
  stack : List String
  frames : List Frame
  control : Control

/-- The matching of a field with the dict at a line. -/
def Filter.fieldTask (line : Nat) (entries : List (Named Manifest)) (field : Named Filter) : TaskStep :=
  match findEntry field.name entries with
  | some entry => .call (.value field.value entry.value)
  | none => .check fun stack => Place.fail ⟨stack, field.line, line⟩ (.missingKey field.name)

/-- What matching a filter with a node comes to. -/
def Filter.task : Filter → Manifest → Task
  | .and _ operands, node => .all (operands.map fun operand => .call (.value operand node))
  | .or line operands, node => .firstOf line node.line (operands.map fun operand => .value operand node)
  | .not line operand, node => .negate line node.line (.value operand node)
  | .implicitTags line groups, node =>
    .all ((unionTags groups).toList.map fun tag => .call (.resolution tag line node.line))
  | .dict _ fields, .dict line entries => .all (fields.map (fieldTask line entries))
  | .list line items, .list nodeLine values =>
    .all (.check (fun stack => Place.require ⟨stack, line, nodeLine⟩ (items.length ≤ values.length)
        (.shortList items.length values.length)) ::
      (items.zip values).map fun pair => .call (.value pair.1 pair.2))
  -- The other nodes of a filter ask for nothing, whatever is known of tags.
  | filter, node => .all [.check fun stack => filter.evaluate (fun _ _ _ => .ok ()) stack node]

/-- The next step of a task under a stack and frames. -/
def Task.next (stack : List String) (frames : List Frame) : Task → Matcher
  | .all [] => ⟨stack, frames, .leave (.ok ())⟩
  | .all (.check outcome :: rest) => ⟨stack, .all rest :: frames, .leave (outcome stack)⟩
  | .all (.call request :: rest) => ⟨stack, .all rest :: frames, .enter request⟩
  | .firstOf filterLine manifestLine [] =>
    ⟨stack, frames, .leave (Place.fail ⟨stack, filterLine, manifestLine⟩ .noAlternative)⟩
  | .firstOf filterLine manifestLine (operand :: rest) =>
    ⟨stack, .firstOf filterLine manifestLine rest :: frames, .enter operand⟩
  | .negate filterLine manifestLine operand =>
    ⟨stack, .negate filterLine manifestLine :: frames, .enter operand⟩

/-- A frame takes an outcome. -/
def Frame.resume (stack : List String) (frames : List Frame) (outcome : Outcome) : Frame → Matcher
  | .all rest =>
    match outcome with
    | .ok () => ⟨stack, frames, .work (.all rest)⟩
    | .error failure => ⟨stack, frames, .leave (.error failure)⟩
  | .firstOf filterLine manifestLine rest =>
    match outcome with
    | .ok () => ⟨stack, frames, .leave (.ok ())⟩
    | .error failure =>
      if failure.isRegistryFault then ⟨stack, frames, .leave (.error failure)⟩
      else ⟨stack, frames, .work (.firstOf filterLine manifestLine rest)⟩
  | .negate filterLine manifestLine =>
    ⟨stack, frames, .leave (outcome.negate ⟨stack, filterLine, manifestLine⟩)⟩
  | .resolution => ⟨stack.dropLast, frames, .leave outcome⟩

namespace Registry

/-- A step of a matcher over a manifest. There is none when an outcome has no frame left to go to. -/
def step (registry : Registry) (root : Manifest) : Matcher → Option Matcher
  | ⟨stack, frames, .enter (.value filter node)⟩ => some ⟨stack, frames, .work (filter.task node)⟩
  | ⟨stack, frames, .enter (.resolution tag filterLine manifestLine)⟩ =>
    if tag ∈ stack then
      some ⟨stack, frames, .leave (Place.fail ⟨stack ++ [tag], filterLine, manifestLine⟩ (.tagCycle tag))⟩
    else
      match registry.get? tag with
      | none => some ⟨stack, frames, .leave (Place.fail ⟨stack, filterLine, manifestLine⟩ (.tagNotFound tag))⟩
      | some definition => some ⟨stack ++ [tag], .resolution :: frames, .enter (.value definition root)⟩
  | ⟨stack, frames, .work task⟩ => some (task.next stack frames)
  | ⟨_, [], .leave _⟩ => none
  | ⟨stack, frame :: frames, .leave outcome⟩ => some (frame.resume stack frames outcome)

/-- A matcher goes from one state to another, and given frames wait all the while. -/
inductive Runs (registry : Registry) (root : Manifest) (frames : List Frame) : Matcher → Matcher → Prop
  | rest {matcher : Matcher} : frames <:+ matcher.frames → Runs registry root frames matcher matcher
  | step {matcher next last : Matcher} : frames <:+ matcher.frames →
      registry.step root matcher = some next → Runs registry root frames next last →
      Runs registry root frames matcher last

end Registry

/-! ## Tasks and plans -/

/-- The call of a request when tags are under resolution. -/
def Request.under (stack : List String) : Request → MatchCall
  | .value filter node => .value stack filter node
  | .resolution tag filterLine manifestLine => .resolution stack tag filterLine manifestLine

def TaskStep.under (stack : List String) : TaskStep → PlanStep
  | .check outcome => .check (outcome stack)
  | .call request => .call (request.under stack)

/-- The plan of a task when tags are under resolution. -/
def Task.under (stack : List String) : Task → Plan
  | .all steps => .all (steps.map (·.under stack))
  | .firstOf filterLine manifestLine operands =>
    .firstOf ⟨stack, filterLine, manifestLine⟩ (operands.map (·.under stack))
  | .negate filterLine manifestLine operand =>
    .negate ⟨stack, filterLine, manifestLine⟩ (operand.under stack)

/-- What matching a filter comes to is its plan. -/
theorem Filter.under_task (stack : List String) (filter : Filter) (node : Manifest) :
    (filter.task node).under stack = filter.plan stack node := by
  cases filter with
  | and line operands | or line operands | implicitTags line groups =>
    simp only [task, plan, Task.under, List.map_map]
    rfl
  | not line operand => rfl
  | dict line fields =>
    cases node with
    | dict manifestLine entries =>
      have same : ∀ field, (fieldTask manifestLine entries field).under stack =
          fieldStep stack manifestLine entries field := by
        intro field
        rw [fieldTask, fieldStep]
        cases findEntry field.name entries <;> rfl
      simp only [task, plan, Task.under, List.map_map, Function.comp_def, same]
    | _ => rfl
  | list line items =>
    cases node with
    | list manifestLine values =>
      simp only [task, plan, Task.under, List.map_cons, List.map_map]
      rfl
    | _ => rfl
  | anything | string | bool | int | float | typeDeclaration | explicitTags => cases node <;> rfl

/-! ## Runs -/

namespace Registry

variable {registry : Registry} {root : Manifest} {frames outer : List Frame} {stack stack' : List String}
  {matcher next last : Matcher}

namespace Runs

/-- A matcher stays where it is. -/
theorem here {control : Control} :
    registry.Runs root frames ⟨stack, frames, control⟩ ⟨stack, frames, control⟩ := .rest List.suffix_rfl

/-- A step before a run. -/
theorem onward {control : Control} (stepped : registry.step root ⟨stack, frames, control⟩ = some next)
    (run : registry.Runs root frames next last) : registry.Runs root frames ⟨stack, frames, control⟩ last :=
  .step List.suffix_rfl stepped run

theorem trans (first : registry.Runs root frames matcher next) (second : registry.Runs root frames next last) :
    registry.Runs root frames matcher last := by
  induction first with
  | rest _ => exact second
  | step waiting stepped _ ih => exact .step waiting stepped (ih second)

/-- Where frames wait, those behind them wait. -/
theorem mono (run : registry.Runs root frames matcher last) (behind : outer <:+ frames) :
    registry.Runs root outer matcher last := by
  induction run with
  | rest waiting => exact .rest (behind.trans waiting)
  | step waiting stepped _ ih => exact .step (behind.trans waiting) stepped ih

/-- A call under one more frame, and then what this frame does with the outcome. -/
theorem thenResume {frame : Frame} {control : Control} {outcome : Outcome}
    (inner : registry.Runs root (frame :: frames) ⟨stack, frame :: frames, control⟩
      ⟨stack', frame :: frames, .leave outcome⟩)
    (resumed : registry.Runs root frames (frame.resume stack' frames outcome) last) :
    registry.Runs root frames ⟨stack, frame :: frames, control⟩ last :=
  (inner.mono (List.suffix_cons _ _)).trans (.step (List.suffix_cons _ _) rfl resumed)

end Runs

variable {perform : MatchCall → Outcome}

/-- A request under a stack is answered: the matcher comes to an outcome with the stack and the frames that
    it had before, while these frames wait. -/
def Answered (registry : Registry) (root : Manifest) (stack : List String) (request : Request)
    (outcome : Outcome) : Prop :=
  ∀ frames, registry.Runs root frames ⟨stack, frames, .enter request⟩ ⟨stack, frames, .leave outcome⟩

/-- Steps in a row come to their outcome when their requests are answered. -/
theorem runs_all {steps : List TaskStep}
    (answered : ∀ request, .call request ∈ steps →
      registry.Answered root stack request (perform (request.under stack))) :
    registry.Runs root frames ⟨stack, frames, .work (.all steps)⟩
      ⟨stack, frames, .leave (forM steps fun step => (step.under stack).outcome perform)⟩ := by
  induction steps with
  | nil => exact .onward rfl .here
  | cons first rest ih =>
    have others := ih fun request member => answered request (List.mem_cons_of_mem _ member)
    have resumed : ∀ outcome : Outcome, registry.Runs root frames
        ((Frame.all rest).resume stack frames outcome)
        ⟨stack, frames, .leave
          (outcome >>= fun _ => forM rest fun step => (step.under stack).outcome perform)⟩ := by
      intro outcome
      cases outcome with
      | ok done => exact others
      | error failure => exact .here
    rw [List.forM_cons]
    cases first with
    | check outcome => exact .onward rfl (.thenResume .here (resumed _))
    | call request => exact .onward rfl (.thenResume (answered request List.mem_cons_self _) (resumed _))

/-- Alternatives come to their outcome when they are answered. -/
theorem runs_firstOf {filterLine manifestLine : Nat} {operands : List Request}
    (answered : ∀ request ∈ operands,
      registry.Answered root stack request (perform (request.under stack))) :
    registry.Runs root frames ⟨stack, frames, .work (.firstOf filterLine manifestLine operands)⟩
      ⟨stack, frames, .leave (Outcome.firstOf ⟨stack, filterLine, manifestLine⟩ operands
        fun request => perform (request.under stack))⟩ := by
  induction operands with
  | nil => exact .onward rfl .here
  | cons operand rest ih =>
    have others := ih fun request member => answered request (List.mem_cons_of_mem _ member)
    refine .onward rfl (.thenResume (answered operand List.mem_cons_self _) ?_)
    have unfolded : Outcome.firstOf ⟨stack, filterLine, manifestLine⟩ (operand :: rest)
          (fun request => perform (request.under stack)) =
        (perform (operand.under stack)).either fun _ =>
          Outcome.firstOf ⟨stack, filterLine, manifestLine⟩ rest fun request => perform (request.under stack) :=
      rfl
    rw [unfolded]
    cases perform (operand.under stack) with
    | ok done => exact .here
    | error failure =>
      simp only [Frame.resume, Outcome.either]
      split
      · exact .here
      · exact others

/-- A task comes to the outcome of its plan when the calls of the plan are answered. -/
theorem runs_task {task : Task}
    (answered : ∀ request : Request, Plan.Makes (request.under stack) (task.under stack) →
      registry.Answered root stack request (perform (request.under stack))) :
    registry.Runs root frames ⟨stack, frames, .work task⟩
      ⟨stack, frames, .leave ((task.under stack).outcome perform)⟩ := by
  cases task with
  | all steps =>
    rw [Task.under, Plan.outcome, Filter.forM_map]
    exact runs_all fun request member => answered request (.step (List.mem_map.mpr ⟨_, member, rfl⟩))
  | firstOf filterLine manifestLine operands =>
    rw [Task.under, Plan.outcome, Filter.firstOf_map]
    exact runs_firstOf fun request member => answered request (.alternative (List.mem_map_of_mem member))
  | negate filterLine manifestLine operand =>
    exact .onward rfl (.thenResume (answered operand .negated _) .here)

/-- Every request is answered with the outcome of its call. -/
theorem runs_request (registry : Registry) (root : Manifest) (stack : List String) (request : Request) :
    registry.Answered root stack request (registry.perform root (request.under stack)) := by
  generalize isCall : request.under stack = call
  induction call using registry.induction_on_calls root generalizing stack request with
  | step call ih =>
    subst isCall
    intro frames
    rw [perform_eq_outcome_plan]
    cases request with
    | value filter node =>
      have planned : registry.plan root ((Request.value filter node).under stack) =
          (filter.task node).under stack := (Filter.under_task stack filter node).symm
      rw [planned] at ih ⊢
      exact .onward rfl (runs_task fun request makes => ih _ makes stack request rfl)
    | resolution tag filterLine manifestLine =>
      by_cases under : tag ∈ stack
      · rw [Request.under, plan, if_pos under, Plan.outcome_check]
        exact .onward (if_pos under) .here
      · rw [Request.under, plan, if_neg under] at ih ⊢
        have entered : registry.step root ⟨stack, frames, .enter (.resolution tag filterLine manifestLine)⟩ = _ :=
          if_neg under
        cases found : registry.get? tag with
        | none =>
          rw [found] at entered
          rw [Plan.outcome_check]
          exact .onward entered .here
        | some definition =>
          rw [found] at entered ih
          rw [Plan.outcome_call]
          have inner := ih _ (.step (List.mem_singleton_self _)) (stack ++ [tag]) (.value definition root) rfl
            (.resolution :: frames)
          refine (Runs.onward entered ?_)
          refine .thenResume inner ?_
          -- The frame takes the tag off that was put on.
          rw [Frame.resume, List.dropLast_concat]
          exact .here

end Registry

end ModelCatalog
