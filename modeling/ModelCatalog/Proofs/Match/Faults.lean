import ModelCatalog.Proofs.Match.Failures
import ModelCatalog.Proofs.Registry.Loading

/-!
# Matches without registry faults

A match reports an unknown tag or a cycle only when a resolution does. No node of a filter faults by
itself, so an evaluation is faultless when the resolution of every tag that the filter implies is
(`Filter.evaluate_faultless`). In sound definitions a resolution is faultless whenever all tags under
resolution lead to its tag (`Registry.resolve_faultless`): the tag is then not under resolution, for that
would be a cycle, and it is registered. So neither a valid filter nor a registered tag ever meets a
fault in a registry that was loaded (`Registry.Loaded.match_without_fault`).
-/

namespace ModelCatalog

open Outcome (Place)

namespace Outcome

/-- An outcome that is no fault of the registry. -/
def Faultless (outcome : Outcome) : Prop :=
  Ends (fun failure => failure.isRegistryFault = false) (fun _ => True) outcome

/-- A faultless failure has neither of the two codes of registry faults. -/
theorem Faultless.kind_ne {failure : MatchFailure} (faultless : Faultless (.error failure)) :
    failure.kind ≠ .tagNotFound ∧ failure.kind ≠ .tagCycle := by
  have harmless : failure.kind.isRegistryFault = false := faultless
  constructor
  · intro missing
    rw [missing] at harmless
    cases harmless
  · intro cycle
    rw [cycle] at harmless
    cases harmless

end Outcome

/-! ## Filters -/

/-- A match of a dimension is faultless, as it fails in the filter only. -/
theorem DimFilter.evaluate_faultless {stack : List String} {dim : Dim} (filter : DimFilter) :
    (filter.evaluate stack dim).Faultless :=
  filter.evaluate_fails.imp fun _ arises => arises.harmless

/-- An evaluation is faultless when the resolution of every tag that the filter implies is. -/
theorem Filter.evaluate_faultless {resolve : Resolver} {stack : List String} {filter : Filter}
    (each : ∀ tag, filter.Implies tag → ∀ line manifestLine, (resolve tag line manifestLine).Faultless)
    (node : Manifest) : (filter.evaluate resolve stack node).Faultless := by
  refine (filter.evaluate_fails node).imp fun failure fails => ?_
  cases fails with
  | own arises => exact arises.harmless
  | @passedOn tag filterLine manifestLine implied _ _ failed =>
    have harmless := each tag implied filterLine manifestLine
    rw [failed] at harmless
    exact harmless

/-! ## Resolution -/

/-- Every tag under resolution leads to a tag through references. -/
def Definitions.Leads (definitions : Definitions) (stack : List String) (tag : String) : Prop :=
  ∀ above ∈ stack, Relation.TransGen definitions.Refers above tag

namespace Definitions

variable {definitions : Definitions} {stack : List String} {tag other : String}

theorem Leads.nil : definitions.Leads [] tag := fun _ member => absurd member List.not_mem_nil

/-- While a tag is under resolution, the tags under resolution lead to its references. -/
theorem Leads.next (leads : definitions.Leads stack tag) (refers : definitions.Refers tag other) :
    definitions.Leads (stack ++ [tag]) other := by
  intro above member
  rcases List.mem_append.mp member with before | last
  · exact (leads above before).tail refers
  · rw [List.mem_singleton.mp last]
    exact .single refers

/-- Without cycles, a tag that the tags under resolution lead to is none of them. -/
theorem Leads.fresh (leads : definitions.Leads stack tag) (sound : definitions.Sound) : tag ∉ stack :=
  fun member => sound.acyclic tag (leads tag member)

end Definitions

namespace Registry

variable {registry : Registry} {root : Manifest} {stack : List String} {tag : String}

/-- In a sound registry the resolution of a listed tag is faultless, whatever leads to it. -/
theorem resolve_faultless (sound : Definitions.Sound registry.Holds)
    (listed : Definitions.Listed registry.Holds tag) (stack : List String)
    (leads : Definitions.Leads registry.Holds stack tag) (filterLine manifestLine : Nat) :
    (registry.resolve root stack tag filterLine manifestLine).Faultless := by
  revert stack filterLine manifestLine
  refine sound.induction_on_references (fun tag definition defined ih => ?_) listed
  intro stack leads filterLine manifestLine
  rw [resolve_eq (leads.fresh sound) defined]
  refine Filter.evaluate_faultless (fun other implied => ?_) root
  exact ih other implied _ (leads.next ⟨definition, defined, implied⟩)

/-- A valid filter implies registered tags only. -/
theorem listed_of_validateFilter {self : Option String} {document : Element} {filter : Filter}
    (valid : registry.validateFilter self document = .ok filter) (implied : filter.Implies tag) :
    Definitions.Listed registry.Holds tag := by
  rw [validateFilter, bind_eq_ok_iff] at valid
  obtain ⟨read, _, checked⟩ := valid
  by_cases allKnown : (read.unknownTags registry self).isEmpty
  · simp only [allKnown, if_true] at checked
    cases checked
    by_contra missing
    have unknown : tag ∈ filter.unknownTags registry self :=
      Filter.mem_unknownTags_iff.mpr ⟨not_contains_iff.mpr missing, .inl implied⟩
    exact NameSet.isEmpty_iff.mp allKnown tag unknown
  · simp only [allKnown] at checked
    cases checked

/-- Matching a filter whose implied tags are all registered is faultless in a sound registry. -/
theorem matchManifest_faultless {filter : Filter} (sound : Definitions.Sound registry.Holds)
    (known : ∀ tag, filter.Implies tag → Definitions.Listed registry.Holds tag) (manifest : Manifest) :
    (registry.matchManifest filter manifest).Faultless :=
  Filter.evaluate_faultless (fun tag implied => resolve_faultless sound (known tag implied) [] .nil) manifest

/-- In a registry that was loaded, neither a valid filter nor a registered tag ever fails to match with
    an unknown tag or a cycle. -/
theorem Loaded.match_without_fault (loaded : registry.Loaded) :
    (∀ self document filter, registry.validateFilter self document = .ok filter →
      ∀ manifest failure, registry.matchManifest filter manifest = .error failure →
        failure.kind ≠ .tagNotFound ∧ failure.kind ≠ .tagCycle) ∧
    (∀ tag ∈ registry.names, ∀ manifest failure, registry.matchTag tag manifest = .error failure →
      failure.kind ≠ .tagNotFound ∧ failure.kind ≠ .tagCycle) := by
  have sound := loaded.sound
  constructor
  · intro self document filter valid manifest failure failed
    have faultless := matchManifest_faultless sound (fun tag => listed_of_validateFilter valid) manifest
    rw [failed] at faultless
    exact faultless.kind_ne
  · intro tag registered manifest failure failed
    have faultless : (registry.matchTag tag manifest).Faultless :=
      resolve_faultless sound (listed_iff.mpr registered) [] .nil 0 manifest.line
    rw [failed] at faultless
    exact faultless.kind_ne

end Registry

/-- The document of a filter that implies the second tag of the sample registry, and through its
    definition the first. -/
def sampleFilter : Element :=
  ⟨"tag-collection", 1, [("filter", "implicit-tag-match")], none,
    [⟨"condensed-tags", 1, [], some "a::b", []⟩]⟩

theorem sampleRegistry_match_without_fault :
    sampleRegistry.Loaded ∧ ∃ filter failure,
      sampleRegistry.validateFilter none sampleFilter = .ok filter ∧
      sampleRegistry.matchManifest filter (.dict 1 []) = .error failure ∧
      failure.kind ≠ .tagNotFound ∧ failure.kind ≠ .tagCycle := by
  have run : (sampleRegistry.validateFilter none sampleFilter).toOption.map
      (fun filter => (sampleRegistry.matchManifest filter (.dict 1 [])).isOk) = some false := by
    decide +kernel
  cases valid : sampleRegistry.validateFilter none sampleFilter with
  | error invalidity =>
    rw [valid] at run
    cases run
  | ok filter =>
    cases failed : sampleRegistry.matchManifest filter (.dict 1 []) with
    | ok done =>
      simp [valid, failed, Except.toOption, Except.isOk, Except.toBool] at run
    | error failure =>
      have without := sampleRegistry_loaded.match_without_fault
      exact ⟨sampleRegistry_loaded, filter, failure, rfl, failed,
        without.1 none sampleFilter filter valid (.dict 1 []) failure failed⟩

end ModelCatalog
