import ModelCatalog.Proofs.Match.Course

/-!
# Faults of the registry pass through a match

Whatever stands around it, a call that ends with a fault of the registry ends the match: no call begins
any more, every call that is under way ends with the same failure, and so does the whole
(`Registry.fault_ends_match`). The steps are laws of the parts of a course. A part passes faults when each
call in it goes its own course and a fault of this call is the last thing that happens
(`Course.PassesFaults`); sequences, alternatives and negations of such parts are such parts.
-/

namespace ModelCatalog

open Outcome (Place)

/-- Nothing but calls that end with a failure. -/
def OnlyEnds (failure : MatchFailure) (events : List MatchEvent) : Prop :=
  ∀ event ∈ events, ∃ outer, event = .ends outer (.error failure)

/-- Where two lists are joined, an event is in the first or in the second. -/
theorem append_eq_append_cons {first second before rest : List MatchEvent} {event : MatchEvent}
    (joined : first ++ second = before ++ event :: rest) :
    (∃ later, first = before ++ event :: later ∧ rest = later ++ second) ∨
      ∃ earlier, before = first ++ earlier ∧ second = earlier ++ event :: rest := by
  rcases List.append_eq_append_iff.mp joined with ⟨earlier, isBefore, isSecond⟩ | ⟨later, isFirst, isRest⟩
  · exact .inr ⟨earlier, isBefore, isSecond⟩
  · cases later with
    | nil => exact .inr ⟨[], by simpa using isFirst.symm, isRest.symm⟩
    | cons head later =>
      obtain ⟨rfl, rfl⟩ := List.cons.inj isRest
      exact .inl ⟨later, isFirst, rfl⟩

namespace Course

variable {courses : MatchCall → Course} {first second : Course}

/-- Every call that begins in a part goes its own course, and if it ends with a fault, the part ends with
    this fault and nothing begins any more. -/
def PassesFaults (courses : MatchCall → Course) (part : Course) : Prop :=
  ∀ before inner rest, part.events = before ++ .begins inner :: rest →
    ∃ after, .begins inner :: rest = (courses inner).events ++ after ∧
      ∀ failure, (courses inner).outcome = .error failure → failure.isRegistryFault = true →
        part.outcome = .error failure ∧ OnlyEnds failure after

theorem still_passesFaults (outcome : Outcome) : (still outcome).PassesFaults courses := by
  intro before inner rest events
  exact absurd events.symm (List.append_ne_nil_of_right_ne_nil _ (List.cons_ne_nil _ _))

/-- A part with another one behind it that goes on only when the first has no fault. -/
theorem PassesFaults.followed {outcome : Outcome} (firstPasses : first.PassesFaults courses)
    (secondPasses : second.PassesFaults courses)
    (goesOn : ∀ failure, first.outcome = .error failure → failure.isRegistryFault = false)
    (last : outcome = second.outcome) : PassesFaults courses ⟨first.events ++ second.events, outcome⟩ := by
  intro before inner rest events
  rcases append_eq_append_cons events with ⟨later, isFirst, rfl⟩ | ⟨earlier, _, isSecond⟩
  · obtain ⟨after, own, faults⟩ := firstPasses before inner later isFirst
    refine ⟨after ++ second.events, ?_, ?_⟩
    · rw [← List.append_assoc, ← own]
      rfl
    · intro failure failed fault
      have harmless := goesOn failure (faults failure failed fault).1
      exact absurd (fault.symm.trans harmless) (by decide)
  · subst last
    exact secondPasses earlier inner rest isSecond

theorem PassesFaults.andThen (firstPasses : first.PassesFaults courses)
    (secondPasses : second.PassesFaults courses) : (first.andThen second).PassesFaults courses := by
  rw [Course.andThen]
  split
  next succeeded =>
    refine firstPasses.followed secondPasses (fun failure failed => ?_) rfl
    cases succeeded.symm.trans failed
  next failed => exact firstPasses

theorem PassesFaults.either (firstPasses : first.PassesFaults courses)
    (secondPasses : second.PassesFaults courses) : (first.either second).PassesFaults courses := by
  rw [Course.either]
  split
  next succeeded => exact firstPasses
  next failure failed =>
    split
    next fault => exact firstPasses
    next harmless =>
      refine firstPasses.followed secondPasses (fun other otherFailed => ?_) rfl
      cases failed.symm.trans otherFailed
      exact Bool.eq_false_iff.mpr harmless

theorem PassesFaults.negate {operand : Course} (passes : operand.PassesFaults courses) (place : Place) :
    (operand.negate place).PassesFaults courses := by
  intro before inner rest events
  obtain ⟨after, own, faults⟩ := passes before inner rest events
  refine ⟨after, own, fun failure failed fault => ?_⟩
  obtain ⟨ended, ends⟩ := faults failure failed fault
  refine ⟨?_, ends⟩
  simp only [Course.negate, Outcome.negate, ended, fault, if_true]

theorem all_passesFaults {parts : List Course} (each : ∀ part ∈ parts, PassesFaults courses part) :
    (all parts).PassesFaults courses := by
  induction parts with
  | nil => exact still_passesFaults _
  | cons part rest ih =>
    obtain ⟨first, others⟩ := List.forall_mem_cons.mp each
    exact first.andThen (ih others)

theorem firstOf_passesFaults {place : Place} {parts : List Course}
    (each : ∀ part ∈ parts, PassesFaults courses part) : (firstOf place parts).PassesFaults courses := by
  induction parts with
  | nil => exact still_passesFaults _
  | cons part rest ih =>
    obtain ⟨first, others⟩ := List.forall_mem_cons.mp each
    exact first.either (ih others)

/-- A call passes faults when what it does passes them. -/
theorem PassesFaults.ofCall {call : MatchCall} {body : Course} (passes : body.PassesFaults courses)
    (own : courses call = .ofCall call body) : (Course.ofCall call body).PassesFaults courses := by
  intro before inner rest events
  cases before with
  | nil =>
    obtain ⟨same, rfl⟩ := List.cons.inj events
    cases same
    refine ⟨[], ?_, fun failure failed _ => ⟨?_, fun event member => absurd member List.not_mem_nil⟩⟩
    · rw [own, List.append_nil]
      rfl
    · rw [← own]
      exact failed
  | cons head earlier =>
    obtain ⟨rfl, inside⟩ := List.cons.inj events
    rcases append_eq_append_cons inside with ⟨later, isBody, rfl⟩ | ⟨between, _, isEnd⟩
    · obtain ⟨after, ownInner, faults⟩ := passes earlier inner later isBody
      refine ⟨after ++ [.ends call body.outcome], ?_, ?_⟩
      · rw [← List.append_assoc, ← ownInner]
        rfl
      · intro failure failed fault
        obtain ⟨ended, ends⟩ := faults failure failed fault
        refine ⟨ended, fun event member => ?_⟩
        rcases List.mem_append.mp member with before | last
        · exact ends event before
        · exact ⟨call, by rw [List.mem_singleton.mp last, ended]⟩
    · -- The end of the call is no begin.
      cases between with
      | nil => cases isEnd
      | cons head between => cases between <;> cases isEnd

end Course

/-- A plan passes faults when its calls do. -/
theorem Plan.course_passesFaults {courses : MatchCall → Course} {plan : Plan}
    (each : ∀ inner, Makes inner plan → (courses inner).PassesFaults courses) :
    (plan.course courses).PassesFaults courses := by
  cases plan with
  | all steps =>
    refine Course.all_passesFaults fun part member => ?_
    obtain ⟨step, inside, rfl⟩ := List.mem_map.mp member
    cases step with
    | check outcome => exact Course.still_passesFaults outcome
    | call inner => exact each inner (.step inside)
  | firstOf place operands =>
    refine Course.firstOf_passesFaults fun part member => ?_
    obtain ⟨operand, inside, rfl⟩ := List.mem_map.mp member
    exact each operand (.alternative inside)
  | negate place operand => exact (each operand .negated).negate place

namespace Registry

variable {registry : Registry} {root : Manifest}

/-- Every call passes faults. -/
theorem course_passesFaults (call : MatchCall) :
    (registry.course root call).PassesFaults (registry.course root) := by
  induction call using registry.induction_on_calls root with
  | step call ih =>
    have passes := (Plan.course_passesFaults ih).ofCall (registry.course_eq root call)
    rwa [← course_eq] at passes

/-- When a call that begins in the course of a match returns a failure with an unknown tag or a cycle, the
    match returns this very failure. After the call has ended nothing begins any more, and every call
    that is still under way ends with the same failure. -/
theorem fault_ends_match {call inner : MatchCall} {before rest : List MatchEvent} {failure : MatchFailure}
    (reached : (registry.course root call).events = before ++ .begins inner :: rest)
    (returned : registry.perform root inner = .error failure)
    (fault : failure.kind = .tagNotFound ∨ failure.kind = .tagCycle) :
    registry.perform root call = .error failure ∧
      ∃ during after, rest = during ++ .ends inner (.error failure) :: after ∧
        (registry.course root inner).events = .begins inner :: (during ++ [.ends inner (.error failure)]) ∧
        ∀ event ∈ after, ∃ outer, event = .ends outer (.error failure) := by
  have isFault : failure.isRegistryFault = true := by
    rcases fault with missing | cycle
    · rw [MatchFailure.isRegistryFault, missing]
      rfl
    · rw [MatchFailure.isRegistryFault, cycle]
      rfl
  obtain ⟨after, own, faults⟩ := course_passesFaults call before inner rest reached
  have innerEnded := (registry.outcome_course root inner).trans returned
  obtain ⟨ended, ends⟩ := faults failure innerEnded isFault
  refine ⟨(registry.outcome_course root call).symm.trans ended, ?_⟩
  rw [course_eq] at innerEnded
  have events : (registry.course root inner).events = .begins inner ::
      (((registry.plan root inner).course (registry.course root)).events ++ [.ends inner (.error failure)]) := by
    rw [← innerEnded, course_eq]
    rfl
  refine ⟨_, after, ?_, events, ends⟩
  rw [events, List.cons_append, List.append_assoc] at own
  exact (List.cons.inj own).2

/-- A reference to one tag. -/
def loopReference : Filter := .implicitTags 2 [⟨2, "loop", NameSet.empty.insert "loop"⟩]

/-- A registry whose only tag refers to itself under a negation. -/
def loopRegistry : Registry := Registry.empty.insert "loop" (.not 1 loopReference)

/-- The reference or, as it would match, any dict. -/
def loopMatch : MatchCall := .value [] (.or 1 [loopReference, .anything 2 .dict]) (.dict 1 [])

theorem loopRegistry_fault_ends_match :
    ∃ failure before rest,
      (loopRegistry.course (.dict 1 []) loopMatch).events =
        before ++ .begins (.resolution ["loop"] "loop" 2 1) :: rest ∧
      loopRegistry.perform (.dict 1 []) (.resolution ["loop"] "loop" 2 1) = .error failure ∧
      failure.kind = .tagCycle ∧ loopRegistry.perform (.dict 1 []) loopMatch = .error failure := by
  have reached : .begins (.resolution ["loop"] "loop" 2 1) ∈
      (loopRegistry.course (.dict 1 []) loopMatch).events := by
    -- Under the alternatives and the first resolution stands the negation, and under it the second one.
    refine mem_course_of_mem_plan (Course.mem_either_left ?_)
    refine mem_course_of_mem_plan (Course.mem_andThen_left ?_)
    refine mem_course_of_mem_plan (Course.mem_andThen_left ?_)
    refine mem_course_of_mem_plan ?_
    exact mem_course_of_mem_plan (Course.mem_andThen_left (loopRegistry.begins_mem_course _ _))
  have returned : loopRegistry.perform (.dict 1 []) (.resolution ["loop"] "loop" 2 1) =
      .error ⟨.tagCycle "loop", 2, 1, ["loop", "loop"]⟩ := by
    rw [perform, resolve, dif_pos List.mem_cons_self]
    rfl
  obtain ⟨before, rest, events⟩ := List.append_of_mem reached
  exact ⟨_, before, rest, events, returned, rfl, (fault_ends_match events returned (.inr rfl)).1⟩

end Registry

end ModelCatalog
