import ModelCatalog.Proofs.Manifest.Parts
import ModelCatalog.Proofs.Registry.Build
import ModelCatalog.Proofs.Text.ByteOrder

/-!
# What the validation of a manifest returns

Every answer says something of the manifest, the base filter and the registry (`Registry.Verdict`): success
says that all is right, and each failure which stage is the first to fail and where. The statements speak of
the parts of the manifest, of matches and of the registered tags, and not of the walks of the validation.
The validation returns exactly the answer that is true (`Registry.validateManifest_eq_iff`).
-/

namespace ModelCatalog

/-- In the order of a set, the names before one of its members are those that come before it. -/
theorem NameSet.exists_split_iff {set : NameSet} {name : String} {holds : String → Prop} :
    (∃ before after, set.toList = before ++ name :: after ∧ ∀ earlier ∈ before, holds earlier) ↔
      name ∈ set ∧ ∀ other ∈ set, other < name → holds other := by
  constructor
  · rintro ⟨before, after, split, passed⟩
    refine ⟨?_, fun other member lt => ?_⟩
    · rw [← mem_toList, split]
      exact List.mem_append_right _ List.mem_cons_self
    · have sorted := set.sorted
      rw [split] at sorted
      rw [← mem_toList, split] at member
      rcases List.mem_append.mp member with earlier | later
      · exact passed other earlier
      · have above := (List.pairwise_cons.mp (List.pairwise_append.mp sorted).2.1).1
        rcases List.mem_cons.mp later with rfl | later
        · exact absurd lt (String.lt_irrefl _)
        · exact absurd (String.lt_trans lt (above other later)) (String.lt_irrefl _)
  · rintro ⟨member, passed⟩
    obtain ⟨before, after, split⟩ := List.append_of_mem member
    refine ⟨before, after, split, fun earlier isBefore => ?_⟩
    have sorted := set.sorted
    rw [split] at sorted
    have below := (List.pairwise_append.mp sorted).2.2 earlier isBefore name List.mem_cons_self
    refine passed earlier ?_ below
    rw [← mem_toList, split]
    exact List.mem_append_left _ isBefore

/-- A loop through a set fails as the first of its members in byte order that fails. -/
theorem NameSet.forM_eq_error_iff {ε : Type} {set : NameSet} {action : String → Except ε Unit} {error : ε} :
    forM set.toList action = .error error ↔ ∃ name ∈ set, action name = .error error ∧
      ∀ other ∈ set, bytes other < bytes name → action other = .ok () := by
  simp only [← lt_iff_bytes_lt]
  rw [ModelCatalog.forM_eq_error_iff]
  constructor
  · rintro ⟨before, name, after, split, passed, failed⟩
    obtain ⟨member, least⟩ := exists_split_iff.mp ⟨before, after, split, passed⟩
    exact ⟨name, member, failed, least⟩
  · rintro ⟨name, member, failed, least⟩
    obtain ⟨before, after, split, passed⟩ := exists_split_iff.mpr ⟨member, least⟩
    exact ⟨before, name, after, split, passed, failed⟩

namespace Registry

/-- An element is read as a manifest with nothing left to fill in, and the base filter matches it. -/
def Fits (registry : Registry) (base : Filter) (root : Element) (manifest : Manifest) : Prop :=
  Manifest.ofElement root = .ok manifest ∧ manifest.Complete ∧ registry.matchManifest base manifest = .ok ()

/-- What an answer of the validation says. -/
def Verdict (registry : Registry) (base : Filter) (root : Element) :
    Except ManifestInvalidity Manifest → Prop
  | .ok manifest => registry.Fits base root manifest ∧
      ∀ tag, manifest.Declares tag →
        Definitions.Listed registry.Holds tag ∧ registry.matchTag tag manifest = .ok ()
  | .error (.broken violation) => Manifest.ofElement root = .error violation
  | .error (.unfilled line) => ∃ manifest, Manifest.ofElement root = .ok manifest ∧ manifest.UnfilledFrom line
  | .error (.baseModel failure) => ∃ manifest, Manifest.ofElement root = .ok manifest ∧ manifest.Complete ∧
      registry.matchManifest base manifest = .error failure
  | .error (.unknownTags tags) => ∃ manifest, registry.Fits base root manifest ∧ (∃ tag, tag ∈ tags) ∧
      ∀ tag, tag ∈ tags ↔ manifest.Declares tag ∧ ¬Definitions.Listed registry.Holds tag
  | .error (.tagMismatch tag failure) => ∃ manifest, registry.Fits base root manifest ∧
      (∀ declared, manifest.Declares declared → Definitions.Listed registry.Holds declared) ∧
      manifest.Declares tag ∧ registry.matchTag tag manifest = .error failure ∧
      ∀ other, manifest.Declares other → bytes other < bytes tag → registry.matchTag other manifest = .ok ()

variable {registry : Registry} {base : Filter} {root : Element} {manifest : Manifest}

/-! ## The last two stages -/

theorem matchDeclared_eq_forM (tags : List String) :
    registry.matchDeclared manifest tags =
      forM tags fun tag => (registry.matchTag tag manifest).mapError (.tagMismatch tag) := by
  induction tags with
  | nil => rfl
  | cons tag rest ih => rw [matchDeclared, ih, List.forM_cons]

theorem matchDeclared_eq_ok_iff :
    registry.matchDeclared manifest manifest.declaredTags.toList = .ok () ↔
      ∀ tag, manifest.Declares tag → registry.matchTag tag manifest = .ok () := by
  simp only [matchDeclared_eq_forM, forM_eq_ok_iff, mapError_eq_ok_iff, NameSet.mem_toList,
    Manifest.mem_declaredTags_iff]

/-- The tag that is reported is the first in byte order whose definition does not match. -/
theorem matchDeclared_eq_error_iff {invalidity : ManifestInvalidity} :
    registry.matchDeclared manifest manifest.declaredTags.toList = .error invalidity ↔
      ∃ tag failure, invalidity = .tagMismatch tag failure ∧ manifest.Declares tag ∧
        registry.matchTag tag manifest = .error failure ∧
        ∀ other, manifest.Declares other → bytes other < bytes tag → registry.matchTag other manifest = .ok () := by
  rw [matchDeclared_eq_forM, NameSet.forM_eq_error_iff]
  simp only [mapError_eq_ok_iff, mapError_eq_error_iff, Manifest.mem_declaredTags_iff]
  constructor
  · rintro ⟨tag, declared, ⟨failure, failed, rfl⟩, least⟩
    exact ⟨tag, failure, rfl, declared, failed, least⟩
  · rintro ⟨tag, failure, rfl, declared, failed, least⟩
    exact ⟨tag, declared, ⟨failure, failed, rfl⟩, least⟩

/-- The declared tags that the registry does not have. -/
def unknownDeclared (registry : Registry) (manifest : Manifest) : NameSet :=
  manifest.declaredTags.filter (!registry.contains ·)

theorem mem_unknownDeclared_iff {tag : String} :
    tag ∈ registry.unknownDeclared manifest ↔
      manifest.Declares tag ∧ ¬Definitions.Listed registry.Holds tag := by
  rw [unknownDeclared, NameSet.mem_filter, Manifest.mem_declaredTags_iff, Bool.not_eq_true',
    not_contains_iff]

theorem unknownDeclared_isEmpty_iff : (registry.unknownDeclared manifest).isEmpty ↔
    ∀ tag, manifest.Declares tag → Definitions.Listed registry.Holds tag := by
  simp only [NameSet.isEmpty_iff, mem_unknownDeclared_iff, not_and, Classical.not_not]

/-! ## All stages -/

theorem validateManifest_of_broken {violation : Violation} (broken : Manifest.ofElement root = .error violation) :
    registry.validateManifest base root = .error (.broken violation) := by
  rw [validateManifest, broken]
  rfl

theorem validateManifest_of_unfilled {line : Nat} (read : Manifest.ofElement root = .ok manifest)
    (unfilled : manifest.UnfilledFrom line) : registry.validateManifest base root = .error (.unfilled line) := by
  have walk := Manifest.firstUnfilled?_eq_some_iff.mpr unfilled
  simp only [validateManifest, read, Except.mapError, bind, Except.bind, walk]
  rfl

theorem validateManifest_of_baseModel {failure : MatchFailure} (read : Manifest.ofElement root = .ok manifest)
    (complete : manifest.Complete) (failed : registry.matchManifest base manifest = .error failure) :
    registry.validateManifest base root = .error (.baseModel failure) := by
  have walk := Manifest.firstUnfilled?_eq_none_iff.mpr complete
  simp only [validateManifest, read, Except.mapError, bind, Except.bind, walk, failed]

/-- What is left to check when the base filter matches. -/
theorem validateManifest_of_fits (fits : registry.Fits base root manifest) :
    registry.validateManifest base root =
      if (registry.unknownDeclared manifest).isEmpty then do
        registry.matchDeclared manifest manifest.declaredTags.toList
        return manifest
      else .error (.unknownTags (registry.unknownDeclared manifest)) := by
  obtain ⟨read, complete, matched⟩ := fits
  have walk := Manifest.firstUnfilled?_eq_none_iff.mpr complete
  simp only [validateManifest, read, Except.mapError, bind, Except.bind, walk, matched]
  rfl

/-- The answer of the validation is true. -/
theorem verdict_validateManifest : registry.Verdict base root (registry.validateManifest base root) := by
  cases read : Manifest.ofElement root with
  | error violation =>
    rw [validateManifest_of_broken read]
    exact read
  | ok manifest =>
    cases walk : manifest.firstUnfilled? with
    | some line =>
      have unfilled := Manifest.firstUnfilled?_eq_some_iff.mp walk
      rw [validateManifest_of_unfilled read unfilled]
      exact ⟨manifest, read, unfilled⟩
    | none =>
      have complete := Manifest.firstUnfilled?_eq_none_iff.mp walk
      cases matched : registry.matchManifest base manifest with
      | error failure =>
        rw [validateManifest_of_baseModel read complete matched]
        exact ⟨manifest, read, complete, matched⟩
      | ok done =>
        have fits : registry.Fits base root manifest := ⟨read, complete, matched⟩
        rw [validateManifest_of_fits fits]
        by_cases known : (registry.unknownDeclared manifest).isEmpty
        · have listed := unknownDeclared_isEmpty_iff.mp known
          rw [if_pos known]
          cases checked : registry.matchDeclared manifest manifest.declaredTags.toList with
          | ok done =>
            exact ⟨fits, fun tag declared => ⟨listed tag declared, matchDeclared_eq_ok_iff.mp checked tag declared⟩⟩
          | error invalidity =>
            obtain ⟨tag, failure, rfl, least⟩ := matchDeclared_eq_error_iff.mp checked
            exact ⟨manifest, fits, listed, least⟩
        · rw [if_neg known]
          refine ⟨manifest, fits, ?_, fun tag => mem_unknownDeclared_iff⟩
          by_contra none
          exact known (NameSet.isEmpty_iff.mpr (not_exists.mp none))

/-- A true answer is the one that the validation returns. -/
theorem Verdict.eq {result : Except ManifestInvalidity Manifest} (verdict : registry.Verdict base root result) :
    registry.validateManifest base root = result := by
  cases result with
  | ok manifest =>
    obtain ⟨fits, declared⟩ := verdict
    have known := unknownDeclared_isEmpty_iff.mpr fun tag isDeclared => (declared tag isDeclared).1
    have matched := matchDeclared_eq_ok_iff.mpr fun tag isDeclared => (declared tag isDeclared).2
    rw [validateManifest_of_fits fits, if_pos known, matched]
    rfl
  | error invalidity =>
    cases invalidity with
    | broken violation => exact validateManifest_of_broken verdict
    | unfilled line =>
      obtain ⟨manifest, read, unfilled⟩ := verdict
      exact validateManifest_of_unfilled read unfilled
    | baseModel failure =>
      obtain ⟨manifest, read, complete, failed⟩ := verdict
      exact validateManifest_of_baseModel read complete failed
    | unknownTags tags =>
      obtain ⟨manifest, fits, ⟨tag, member⟩, exactly⟩ := verdict
      have same : registry.unknownDeclared manifest = tags :=
        NameSet.ext_mem fun name => mem_unknownDeclared_iff.trans (exactly name).symm
      have notEmpty : ¬(registry.unknownDeclared manifest).isEmpty := by
        rw [same, NameSet.isEmpty_iff]
        exact fun none => none tag member
      rw [validateManifest_of_fits fits, if_neg notEmpty, same]
    | tagMismatch tag failure =>
      obtain ⟨manifest, fits, listed, least⟩ := verdict
      have checked := matchDeclared_eq_error_iff.mpr ⟨tag, failure, rfl, least⟩
      rw [validateManifest_of_fits fits, if_pos (unknownDeclared_isEmpty_iff.mpr listed), checked]
      rfl

/-- The validation of a manifest returns an answer exactly when the answer is true. -/
theorem validateManifest_eq_iff {result : Except ManifestInvalidity Manifest} :
    registry.validateManifest base root = result ↔ registry.Verdict base root result := by
  constructor
  · rintro rfl
    exact verdict_validateManifest
  · exact Verdict.eq

end Registry

end ModelCatalog
