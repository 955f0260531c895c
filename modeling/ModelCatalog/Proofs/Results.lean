/-!
# Results of computations that can fail

How a computation ends (`Ends`): with an error of which one thing is known, or with a value of which
another is. What is known of two computations in sequence follows from what is known of each
(`Ends.bind`). A computation over `Id` that can fail runs step by step like one without files
(`run_bind`).
-/

namespace ModelCatalog

variable {ε ε' α β : Type}

/-- A computation is refused with an error or returns a value that is described. -/
def Ends (refused : ε → Prop) (returned : α → Prop) : Except ε α → Prop
  | .error error => refused error
  | .ok value => returned value

namespace Ends

variable {refused refused' : ε → Prop} {returned returned' : α → Prop} {result : Except ε α}

theorem of_ok (ends : Ends refused returned result) {value : α} (isOk : result = .ok value) :
    returned value := by
  rw [isOk] at ends
  exact ends

theorem of_error (ends : Ends refused returned result) {error : ε} (isError : result = .error error) :
    refused error := by
  rw [isError] at ends
  exact ends

/-- A weaker description of the same end. -/
theorem imp (ends : Ends refused returned result) (errors : ∀ error, refused error → refused' error)
    (values : ∀ value, returned value → returned' value) : Ends refused' returned' result := by
  cases result with
  | error error => exact errors error ends
  | ok value => exact values value ends

/-- A computation that goes on from every value of the first. -/
theorem bind {final : β → Prop} {next : α → Except ε β} (ends : Ends refused returned result)
    (onward : ∀ value, returned value → Ends refused final (next value)) :
    Ends refused final (result >>= next) := by
  cases result with
  | error error => exact ends
  | ok value => exact onward value ends

/-- Errors in other words. -/
theorem mapError {other : ε' → Prop} {rename : ε → ε'} (ends : Ends refused returned result)
    (errors : ∀ error, refused error → other (rename error)) :
    Ends other returned (result.mapError rename) := by
  cases result with
  | error error => exact errors error ends
  | ok value => exact ends

/-- A loop that goes on from every member. -/
theorem forM {members : List α} {action : α → Except ε Unit}
    (each : ∀ member ∈ members, Ends refused (fun _ => True) (action member)) :
    Ends refused (fun _ => True) (forM members action) := by
  induction members with
  | nil => exact trivial
  | cons member rest ih =>
    obtain ⟨first, others⟩ := List.forall_mem_cons.mp each
    rw [List.forM_cons]
    exact first.bind fun _ _ => ih others

/-- A walk that goes on from every member. -/
theorem mapM {members : List α} {action : α → Except ε β}
    (each : ∀ member ∈ members, Ends refused (fun _ => True) (action member)) :
    Ends refused (fun _ => True) (members.mapM action) := by
  induction members with
  | nil => exact trivial
  | cons member rest ih =>
    obtain ⟨first, others⟩ := List.forall_mem_cons.mp each
    rw [List.mapM_cons]
    exact first.bind fun _ _ => (ih others).bind fun _ _ => trivial

end Ends

theorem bind_eq_ok_iff {result : Except ε α} {next : α → Except ε β} {value : β} :
    (result >>= next) = .ok value ↔ ∃ first, result = .ok first ∧ next first = .ok value := by
  cases result with
  | error error =>
    constructor
    · intro impossible
      cases impossible
    · rintro ⟨_, impossible, _⟩
      cases impossible
  | ok first =>
    constructor
    · intro onward
      exact ⟨first, rfl, onward⟩
    · rintro ⟨_, same, onward⟩
      cases same
      exact onward

/-- A computation whose value is made into another one. -/
theorem returns_eq_ok_iff {result : Except ε α} {make : α → β} {value : β} :
    (do return make (← result)) = Except.ok value ↔ ∃ found, result = .ok found ∧ make found = value := by
  rw [bind_eq_ok_iff]
  refine exists_congr fun found => and_congr_right fun _ => ?_
  exact ⟨Except.ok.inj, congrArg Except.ok⟩

theorem andThen_eq_ok_iff {first : Except ε Unit} {next : Unit → Except ε β} {value : β} :
    (first >>= next) = .ok value ↔ first = .ok () ∧ next () = .ok value := by
  rw [bind_eq_ok_iff]
  constructor
  · rintro ⟨_, done, onward⟩
    exact ⟨done, onward⟩
  · rintro ⟨done, onward⟩
    exact ⟨(), done, onward⟩

/-- A loop succeeds when every one of its actions does. -/
theorem forM_eq_ok_iff {members : List α} {action : α → Except ε Unit} :
    forM members action = .ok () ↔ ∀ member ∈ members, action member = .ok () := by
  induction members with
  | nil => exact ⟨fun _ _ member => absurd member List.not_mem_nil, fun _ => rfl⟩
  | cons member rest ih =>
    rw [List.forM_cons, andThen_eq_ok_iff, List.forall_mem_cons, ih]

/-- A loop fails as the first action that fails. -/
theorem forM_eq_error_iff {members : List α} {action : α → Except ε Unit} {error : ε} :
    forM members action = .error error ↔ ∃ before member after, members = before ++ member :: after ∧
      (∀ earlier ∈ before, action earlier = .ok ()) ∧ action member = .error error := by
  constructor
  · intro failed
    induction members with
    | nil => cases failed
    | cons head rest ih =>
      rw [List.forM_cons] at failed
      cases first : action head with
      | error found =>
        rw [first] at failed
        cases failed
        exact ⟨[], head, rest, rfl, fun _ member => absurd member List.not_mem_nil, first⟩
      | ok done =>
        rw [first] at failed
        obtain ⟨before, member, after, split, passed, isError⟩ := ih failed
        refine ⟨head :: before, member, after, by rw [split, List.cons_append], ?_, isError⟩
        exact List.forall_mem_cons.mpr ⟨first, passed⟩
  · rintro ⟨before, member, after, rfl, passed, isError⟩
    rw [List.forM_append, forM_eq_ok_iff.mpr passed, List.forM_cons, isError]
    rfl

/-- A walk that succeeds does so at every member. -/
theorem forall_ok_of_mapM {members : List α} {action : α → Except ε β} {results : List β}
    (done : members.mapM action = .ok results) :
    ∀ member ∈ members, ∃ result, action member = .ok result := by
  induction members generalizing results with
  | nil => exact fun _ member => absurd member List.not_mem_nil
  | cons member rest ih =>
    rw [List.mapM_cons] at done
    obtain ⟨first, isFirst, done⟩ := bind_eq_ok_iff.mp done
    obtain ⟨others, areOthers, _⟩ := bind_eq_ok_iff.mp done
    exact List.forall_mem_cons.mpr ⟨⟨first, isFirst⟩, ih areOthers⟩

theorem mapError_eq_ok_iff {rename : ε → ε'} {result : Except ε α} {value : α} :
    result.mapError rename = .ok value ↔ result = .ok value := by
  cases result with
  | error error => exact ⟨fun impossible => (nomatch impossible), fun impossible => (nomatch impossible)⟩
  | ok found => exact ⟨fun same => congrArg Except.ok (Except.ok.inj same), fun same => congrArg Except.ok (Except.ok.inj same)⟩

theorem mapError_eq_error_iff {rename : ε → ε'} {result : Except ε α} {error : ε'} :
    result.mapError rename = .error error ↔ ∃ found, result = .error found ∧ rename found = error := by
  cases result with
  | error found =>
    constructor
    · intro renamed
      exact ⟨found, rfl, Except.error.inj renamed⟩
    · rintro ⟨_, same, renamed⟩
      cases same
      exact congrArg Except.error renamed
  | ok value =>
    constructor
    · intro impossible
      cases impossible
    · rintro ⟨_, impossible, _⟩
      cases impossible

theorem exists_of_isOk {result : Except ε α} (isOk : result.isOk = true) : ∃ value, result = .ok value := by
  cases result with
  | error error => cases isOk
  | ok value => exact ⟨value, rfl⟩

theorem toOption_eq_some_iff {result : Except ε α} {value : α} :
    result.toOption = some value ↔ result = .ok value := by
  cases result <;> simp [Except.toOption]

theorem toOption_eq_none_iff {result : Except ε α} : result.toOption = none ↔ ∃ error, result = .error error := by
  cases result <;> simp [Except.toOption]

theorem toOption_bind {result : Except ε α} {next : α → Except ε β} :
    (result >>= next).toOption = result.toOption.bind fun value => (next value).toOption := by
  cases result <;> rfl

/-! ## Over `Id` -/

theorem run_bind (first : ExceptT ε Id α) (next : α → ExceptT ε Id β) :
    Id.run (first >>= next).run = Id.run first.run >>= fun value => Id.run (next value).run := by
  change (match Id.run first.run with | .ok _ => _ | .error _ => _ : Except ε β) = _
  cases Id.run first.run <;> rfl

theorem run_pure (value : α) : Id.run (pure value : ExceptT ε Id α).run = .ok value := rfl

theorem run_ofExcept (result : Except ε α) : Id.run (liftM result : ExceptT ε Id α).run = result := rfl

end ModelCatalog
