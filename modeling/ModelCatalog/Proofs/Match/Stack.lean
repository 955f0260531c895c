import ModelCatalog.Proofs.Match.Matcher
import ModelCatalog.Proofs.Match.Propagation
import Mathlib.Data.List.Infix
import Mathlib.Data.List.Nodup
import Mathlib.Data.List.Perm.Subperm

/-!
# The stack of a matcher

A step of a matcher leaves the stack as it is, puts a registered tag on it that is not there yet and opens a
resolution, or takes the last tag off and closes one (`Registry.step_stack`). So in a match that begins
without tags the stack always holds distinct registered tags, one for each open resolution, and there are at
most as many as the registry has (`Registry.orderly_of_runs`). No run goes on forever, whatever the tags refer
to (`Registry.match_ends`). A matcher that has answered has its stack back, so it answers any number of
requests as a fresh one would (`Registry.matcher_reusable`).
-/

namespace ModelCatalog

open Outcome (Place)

def Frame.isResolution : Frame → Bool
  | .resolution => true
  | .all _ | .firstOf .. | .negate .. => false

/-- The number of resolutions that have begun and not ended. -/
def Matcher.openResolutions (matcher : Matcher) : Nat := matcher.frames.countP Frame.isResolution

namespace Registry

variable {registry : Registry} {root : Manifest} {frames : List Frame} {matcher next last other : Matcher}

/-! ## The stack at every moment -/

/-- What a step does to the stack: nothing, the begin of a resolution, or its end. -/
theorem step_stack (stepped : registry.step root matcher = some next) :
    (next.stack = matcher.stack ∧ next.openResolutions = matcher.openResolutions) ∨
      (∃ tag, tag ∉ matcher.stack ∧ tag ∈ registry.names ∧ next.stack = matcher.stack ++ [tag] ∧
        next.openResolutions = matcher.openResolutions + 1) ∨
      (next.stack = matcher.stack.dropLast ∧ matcher.openResolutions = next.openResolutions + 1) := by
  obtain ⟨stack, frames, control⟩ := matcher
  cases control with
  | enter request =>
    cases request with
    | value filter node =>
      cases stepped
      exact .inl ⟨rfl, rfl⟩
    | resolution tag filterLine manifestLine =>
      rw [step] at stepped
      split at stepped
      next under =>
        cases stepped
        exact .inl ⟨rfl, rfl⟩
      next fresh =>
        split at stepped
        next missing =>
          cases stepped
          exact .inl ⟨rfl, rfl⟩
        next definition found =>
          cases stepped
          have registered : tag ∈ registry.names := mem_names.mpr (found ▸ rfl)
          exact .inr (.inl ⟨tag, fresh, registered, rfl, List.countP_cons_of_pos rfl⟩)
  | work task =>
    cases stepped
    left
    cases task with
    | all steps =>
      cases steps with
      | nil => exact ⟨rfl, rfl⟩
      | cons first rest => cases first <;> exact ⟨rfl, rfl⟩
    | firstOf filterLine manifestLine operands => cases operands <;> exact ⟨rfl, rfl⟩
    | negate => exact ⟨rfl, rfl⟩
  | leave outcome =>
    cases frames with
    | nil => cases stepped
    | cons frame frames =>
      cases stepped
      cases frame with
      | all rest => cases outcome <;> exact .inl ⟨rfl, rfl⟩
      | firstOf filterLine manifestLine rest =>
        cases outcome with
        | ok done => exact .inl ⟨rfl, rfl⟩
        | error failure =>
          simp only [Frame.resume]
          split <;> exact .inl ⟨rfl, rfl⟩
      | negate => exact .inl ⟨rfl, rfl⟩
      | resolution => exact .inr (.inr ⟨rfl, List.countP_cons_of_pos rfl⟩)

/-- The stack holds distinct registered tags, one for each open resolution. -/
structure Orderly (registry : Registry) (matcher : Matcher) : Prop where
  distinct : matcher.stack.Nodup
  registered : ∀ tag ∈ matcher.stack, tag ∈ registry.names
  counted : matcher.openResolutions = matcher.stack.length

/-- A step keeps the stack in order. -/
theorem Orderly.step (orderly : registry.Orderly matcher) (stepped : registry.step root matcher = some next) :
    registry.Orderly next := by
  obtain ⟨distinct, registered, counted⟩ := orderly
  rcases step_stack stepped with ⟨same, stillOpen⟩ | ⟨tag, fresh, known, pushed, opened⟩ | ⟨popped, closed⟩
  · rw [← same] at distinct registered counted
    exact ⟨distinct, registered, stillOpen.trans counted⟩
  · refine ⟨?_, ?_, ?_⟩
    · rw [pushed, ← List.concat_eq_append]
      exact distinct.concat fresh
    · intro other member
      rw [pushed, List.mem_append, List.mem_singleton] at member
      rcases member with before | rfl
      · exact registered other before
      · exact known
    · rw [opened, counted, pushed, List.length_append, List.length_singleton]
  · refine ⟨?_, ?_, ?_⟩
    · rw [popped]
      exact distinct.sublist (List.dropLast_sublist _)
    · intro other member
      rw [popped] at member
      exact registered other (List.mem_of_mem_dropLast member)
    · rw [popped, List.length_dropLast]
      omega

/-- A run keeps the stack in order. -/
theorem orderly_of_runs (run : registry.Runs root frames matcher last) (orderly : registry.Orderly matcher) :
    registry.Orderly last := by
  induction run with
  | rest _ => exact orderly
  | step _ stepped _ ih => exact ih (orderly.step stepped)

/-- Not more resolutions are open than the registry has tags. -/
theorem Orderly.openResolutions_le (orderly : registry.Orderly matcher) :
    matcher.openResolutions ≤ registry.size := by
  have within : matcher.stack ⊆ registry.names := orderly.registered
  have fewer := (orderly.distinct.subperm within).length_le
  have size : registry.names.length = registry.size := List.length_map _
  rw [orderly.counted, ← size]
  exact fewer

/-! ## The end of a run -/

/-- No run goes on forever from where one has come to its end. -/
theorem acc_of_runs (run : registry.Runs root frames matcher last) (ended : registry.step root last = none) :
    Acc (fun later earlier => registry.step root earlier = some later) matcher := by
  induction run with
  | rest _ =>
    refine ⟨_, fun later stepped => ?_⟩
    cases ended.symm.trans stepped
  | step _ stepped _ ih =>
    refine ⟨_, fun later steppedLater => ?_⟩
    cases stepped.symm.trans steppedLater
    exact ih ended

/-- Two runs from one place that have come to their end are at the same place. -/
theorem Runs.unique (first : registry.Runs root frames matcher last) (ended : registry.step root last = none)
    (second : registry.Runs root frames matcher other) (otherEnded : registry.step root other = none) :
    last = other := by
  induction first with
  | rest _ =>
    cases second with
    | rest _ => rfl
    | step _ stepped _ => cases ended.symm.trans stepped
  | step _ stepped _ ih =>
    cases second with
    | rest _ => cases otherEnded.symm.trans stepped
    | step _ steppedOther later =>
      cases stepped.symm.trans steppedOther
      exact ih ended later

/-- Every request comes to its end in every registry, from whatever stack: no run goes on forever, and the
    last moment has the outcome of the match. At every moment of a match that begins without tags, the
    tags under resolution are distinct and registered, and there are as many as resolutions are open, so at
    most as many as the registry has tags. -/
theorem match_ends (registry : Registry) (root : Manifest) :
    (∀ stack request,
      Acc (fun later earlier => registry.step root earlier = some later) ⟨stack, [], .enter request⟩ ∧
        registry.Runs root [] ⟨stack, [], .enter request⟩
          ⟨stack, [], .leave (registry.perform root (request.under stack))⟩) ∧
    ∀ request moment, registry.Runs root [] ⟨[], [], .enter request⟩ moment →
      moment.stack.Nodup ∧ (∀ tag ∈ moment.stack, tag ∈ registry.names) ∧
        moment.openResolutions = moment.stack.length ∧ moment.openResolutions ≤ registry.size := by
  constructor
  · intro stack request
    have run := runs_request registry root stack request []
    exact ⟨acc_of_runs run rfl, run⟩
  · intro request moment run
    have begun : registry.Orderly ⟨[], [], .enter request⟩ :=
      ⟨List.nodup_nil, fun _ member => absurd member List.not_mem_nil, rfl⟩
    have orderly := orderly_of_runs run begun
    exact ⟨orderly.distinct, orderly.registered, orderly.counted, orderly.openResolutions_le⟩

theorem loopRegistry_match_ends :
    ∃ moment, loopRegistry.Runs (.dict 1 []) [] ⟨[], [], .enter (.resolution "loop" 0 1)⟩ moment ∧
      moment.stack = ["loop"] ∧ moment.openResolutions = 1 ∧
      moment.openResolutions ≤ loopRegistry.size := by
  have run : loopRegistry.Runs (.dict 1 []) [] ⟨[], [], .enter (.resolution "loop" 0 1)⟩
      ⟨["loop"], [.resolution], .enter (.value (.not 1 loopReference) (.dict 1 []))⟩ :=
    .step List.nil_suffix rfl (.rest List.nil_suffix)
  obtain ⟨_, _, _, bounded⟩ := (match_ends loopRegistry (.dict 1 [])).2 _ _ run
  exact ⟨_, run, rfl, rfl, bounded⟩

/-! ## One matcher for many requests -/

/-- A request that was answered, with its outcome and the stack that it left. -/
structure Service where
  request : Request
  outcome : Outcome
  stack : List String

/-- One matcher serves requests in turn, each with the stack that the one before has left. -/
inductive Serves (registry : Registry) (root : Manifest) : List String → List Service → Prop
  | nil {stack : List String} : Serves registry root stack []
  | cons {stack : List String} {service : Service} {rest : List Service} :
      registry.Runs root [] ⟨stack, [], .enter service.request⟩ ⟨service.stack, [], .leave service.outcome⟩ →
      Serves registry root service.stack rest → Serves registry root stack (service :: rest)

/-- A service from an empty stack is the match of its request and leaves the stack empty. -/
theorem runs_fresh_iff {service : Service} :
    registry.Runs root [] ⟨[], [], .enter service.request⟩ ⟨service.stack, [], .leave service.outcome⟩ ↔
      service.outcome = registry.perform root (service.request.under []) ∧ service.stack = [] := by
  have fresh := runs_request registry root [] service.request []
  constructor
  · intro run
    obtain ⟨sameStack, -, sameOutcome⟩ := Matcher.mk.inj (Runs.unique run rfl fresh rfl)
    exact ⟨Control.leave.inj sameOutcome, sameStack⟩
  · rintro ⟨sameOutcome, sameStack⟩
    rw [sameOutcome, sameStack]
    exact fresh

/-- A matcher serves any requests in any order, and only so: each with the outcome that a match of its own
    would have, and with an empty stack afterwards, whatever the outcomes are. And wherever it enters a call,
    it comes back from it with the stack as it was. -/
theorem matcher_reusable (registry : Registry) (root : Manifest) :
    (∀ services, registry.Serves root [] services ↔
      ∀ service ∈ services,
        service.outcome = registry.perform root (service.request.under []) ∧ service.stack = []) ∧
    ∀ stack frames request, ∃ outcome,
      registry.Runs root frames ⟨stack, frames, .enter request⟩ ⟨stack, frames, .leave outcome⟩ := by
  refine ⟨fun services => ?_, fun stack frames request => ⟨_, runs_request registry root stack request frames⟩⟩
  induction services with
  | nil => exact ⟨fun _ _ member => absurd member List.not_mem_nil, fun _ => .nil⟩
  | cons service rest ih =>
    rw [List.forall_mem_cons, ← ih]
    constructor
    · intro serves
      cases serves with
      | cons run others =>
        have answered := runs_fresh_iff.mp run
        exact ⟨answered, answered.2 ▸ others⟩
    · rintro ⟨answered, others⟩
      refine .cons (runs_fresh_iff.mpr answered) ?_
      rwa [answered.2]

/-- A match after two that have failed with a cycle. -/
theorem loopRegistry_matcher_reusable :
    ∃ failure, loopRegistry.perform (.dict 1 []) (.resolution [] "loop" 0 1) = .error failure ∧
      loopRegistry.Serves (.dict 1 []) []
        [⟨.resolution "loop" 0 1, .error failure, []⟩, ⟨.resolution "loop" 0 1, .error failure, []⟩,
          ⟨.value (.anything 1 .dict) (.dict 1 []), .ok (), []⟩] := by
  have run : (loopRegistry.perform (.dict 1 []) (.resolution [] "loop" 0 1)).isOk = false := by decide +kernel
  cases failed : loopRegistry.perform (.dict 1 []) (.resolution [] "loop" 0 1) with
  | ok done =>
    rw [failed] at run
    cases run
  | error failure =>
    refine ⟨failure, rfl, ((matcher_reusable loopRegistry (.dict 1 [])).1 _).mpr ?_⟩
    refine List.forall_mem_cons.mpr ⟨⟨failed.symm, rfl⟩, ?_⟩
    refine List.forall_mem_cons.mpr ⟨⟨failed.symm, rfl⟩, ?_⟩
    exact List.forall_mem_singleton.mpr ⟨rfl, rfl⟩

end Registry

end ModelCatalog
