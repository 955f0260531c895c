import ModelCatalog.Proofs.Manifest.Acceptance
import ModelCatalog.Proofs.Match.Presentation

/-!
# Queries for tags

A query asks for tags implicitly, and the definition of every one of them has to match the manifest. Matching a
query resolves its tags one after the other, and each of them as if it were matched by itself: all that the query
adds is its line, which is seen when a tag has no definition (`Registry.resolve_outermost`). So a query matches when
its tags do, and it fails as the first of them in byte order that fails (`Registry.query_agrees_with_tags`). A
manifest that was validated therefore matches every query for tags that it declares.
-/

namespace ModelCatalog

namespace Registry

variable {registry : Registry} {manifest : Manifest} {line : Nat} {tag : String} {groups : List TagGroup}

/-- The failure that a query at a line makes of the failure of one of its tags: the same, except that a tag without
    a definition fails at the line of the query. -/
def failureFor (registry : Registry) (line : Nat) (tag : String) (own : MatchFailure) : MatchFailure :=
  if registry.contains tag then own else { own with filterLine := line }

/-- While no tag is under resolution, a tag is resolved as it is matched by itself. -/
theorem resolve_outermost (registry : Registry) (manifest : Manifest) (line : Nat) (tag : String) :
    registry.resolve manifest [] tag line manifest.line =
      (registry.matchTag tag manifest).mapError (registry.failureFor line tag) := by
  rw [matchTag]
  cases found : registry.get? tag with
  | none =>
    have unknown : registry.contains tag = false := by
      rw [contains, found]
      rfl
    rw [resolve_eq_of_missing List.not_mem_nil found, resolve_eq_of_missing List.not_mem_nil found]
    simp [Outcome.Place.fail, Outcome.Place.failure, Except.mapError, failureFor, unknown]
  | some definition =>
    have known : registry.contains tag = true := by
      rw [contains, found]
      rfl
    have same : registry.failureFor line tag = id := by
      funext own
      rw [failureFor, if_pos known, id]
    rw [resolve_eq List.not_mem_nil found, resolve_eq List.not_mem_nil found, same]
    cases definition.evaluate (registry.resolve manifest ([] ++ [tag])) ([] ++ [tag]) manifest <;> rfl

/-- Matching a query matches its tags in order. -/
theorem matchManifest_implicitTags :
    registry.matchManifest (.implicitTags line groups) manifest = forM (unionTags groups).toList fun tag =>
      (registry.matchTag tag manifest).mapError (registry.failureFor line tag) := by
  rw [matchManifest, evaluate, Filter.evaluate, Filter.resolveEach_eq]
  exact forM_congr fun tag _ => registry.resolve_outermost manifest line tag

theorem matchManifest_implicitTags_eq_ok_iff :
    registry.matchManifest (.implicitTags line groups) manifest = .ok () ↔
      ∀ tag ∈ unionTags groups, registry.matchTag tag manifest = .ok () := by
  simp only [matchManifest_implicitTags, forM_eq_ok_iff, mapError_eq_ok_iff, NameSet.mem_toList]

/-- By itself, a tag without a definition fails at no line of a filter. -/
theorem filterLine_of_matchTag {own : MatchFailure} (unknown : registry.contains tag = false)
    (failed : registry.matchTag tag manifest = .error own) : own.filterLine = 0 := by
  have missing : registry.get? tag = none := by simpa [contains] using unknown
  rw [matchTag, resolve_eq_of_missing List.not_mem_nil missing] at failed
  cases failed
  rfl

/-- A query matches a manifest exactly when each of its tags does. Otherwise it fails as the first tag in byte order
    that fails, except that a tag without a definition fails at the line of the query and not at line 0. When the
    manifest is valid, every query for some of the tags that it declares matches it. -/
theorem query_agrees_with_tags (registry : Registry) (manifest : Manifest) :
    (∀ line groups,
      (registry.matchManifest (.implicitTags line groups) manifest = .ok () ↔
        ∀ tag ∈ unionTags groups, registry.matchTag tag manifest = .ok ()) ∧
      ∀ failure, registry.matchManifest (.implicitTags line groups) manifest = .error failure ↔
        ∃ tag ∈ unionTags groups, ∃ own, registry.matchTag tag manifest = .error own ∧
          (∀ other ∈ unionTags groups, bytes other < bytes tag → registry.matchTag other manifest = .ok ()) ∧
          (registry.contains tag = true ∧ failure = own ∨
            registry.contains tag = false ∧ own.filterLine = 0 ∧ failure = { own with filterLine := line })) ∧
    ∀ base document, registry.validateManifest base document = .ok manifest →
      ∀ line groups, (∀ tag ∈ unionTags groups, tag ∈ manifest.declaredTags) →
        registry.matchManifest (.implicitTags line groups) manifest = .ok () := by
  refine ⟨fun line groups => ⟨matchManifest_implicitTags_eq_ok_iff, fun failure => ?_⟩, ?_⟩
  · have reported : ∀ tag own, registry.matchTag tag manifest = .error own →
        (registry.failureFor line tag own = failure ↔ registry.contains tag = true ∧ failure = own ∨
          registry.contains tag = false ∧ own.filterLine = 0 ∧ failure = { own with filterLine := line }) := by
      intro tag own failed
      cases known : registry.contains tag with
      | true => simp [failureFor, known, eq_comm]
      | false =>
        have noLine := filterLine_of_matchTag known failed
        simp [failureFor, known, noLine, eq_comm]
    rw [matchManifest_implicitTags, NameSet.forM_eq_error_iff]
    simp only [mapError_eq_ok_iff, mapError_eq_error_iff]
    constructor
    · rintro ⟨tag, asked, ⟨own, failed, same⟩, least⟩
      exact ⟨tag, asked, own, failed, least, (reported tag own failed).mp same⟩
    · rintro ⟨tag, asked, own, failed, least, same⟩
      exact ⟨tag, asked, ⟨own, failed, (reported tag own failed).mpr same⟩, least⟩
  · intro base document valid line groups declared
    have verdict : registry.Verdict base document (registry.validateManifest base document) :=
      verdict_validateManifest
    rw [valid] at verdict
    refine matchManifest_implicitTags_eq_ok_iff.mpr fun tag asked => ?_
    exact (verdict.2 tag (Manifest.mem_declaredTags_iff.mp (declared tag asked))).2

/-- A registry with two tags, the second of which refers to the first. -/
def linkedRegistry : Registry :=
  (Registry.empty.insert "a" (.anything 1 .dict)).insert "b" (reference 2 "a")

/-- A valid manifest that declares both tags matches a query for them. A query for a third tag fails at its line. -/
theorem linkedRegistry_query_agrees_with_tags :
    ∃ manifest, linkedRegistry.validateManifest (.anything 1 .dict) declaringDict = .ok manifest ∧
      (∀ tag ∈ unionTags twoGroups, tag ∈ manifest.declaredTags) ∧
      linkedRegistry.matchManifest (.implicitTags 7 twoGroups) manifest = .ok () ∧
      linkedRegistry.matchManifest (.implicitTags 7 (groupOf 8 "c" :: twoGroups)) manifest =
        .error ⟨.tagNotFound "c", 7, 1, []⟩ := by
  have run : (linkedRegistry.validateManifest (.anything 1 .dict) declaringDict).toOption.map (fun manifest =>
      decide (manifest.line = 1 ∧ ∀ tag ∈ (unionTags twoGroups).toList, tag ∈ manifest.declaredTags)) =
        some true := by
    decide +kernel
  cases valid : linkedRegistry.validateManifest (.anything 1 .dict) declaringDict with
  | error invalidity =>
    rw [valid] at run
    cases run
  | ok manifest =>
    rw [valid] at run
    obtain ⟨firstLine, declared⟩ := of_decide_eq_true (Option.some.inj run)
    have agrees := linkedRegistry.query_agrees_with_tags manifest
    have matched := agrees.2 _ _ valid 7 twoGroups declared
    refine ⟨manifest, rfl, declared, matched, ?_⟩
    refine ((agrees.1 7 _).2 _).mpr ⟨"c", by decide +kernel, ⟨.tagNotFound "c", 0, 1, []⟩, ?_, ?_, .inr ?_⟩
    · rw [matchTag, firstLine]
      exact resolve_eq_of_missing List.not_mem_nil (by decide +kernel)
    · intro other asked least
      obtain ⟨group, listed, inside⟩ := mem_unionTags.mp asked
      rcases List.mem_cons.mp listed with rfl | declaredGroup
      · have same : other = "c" := (NameSet.mem_insert.mp inside).resolve_right NameSet.not_mem_empty
        rw [same] at least
        exact absurd least (List.lt_irrefl _)
      · exact (agrees.1 7 twoGroups).1.mp matched other (mem_unionTags.mpr ⟨group, declaredGroup, inside⟩)
    · exact ⟨by decide +kernel, rfl, rfl⟩

end Registry

end ModelCatalog
