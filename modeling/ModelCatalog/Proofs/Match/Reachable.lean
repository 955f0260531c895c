import ModelCatalog.Proofs.Match.Failures
import ModelCatalog.Proofs.Registry.Search

/-!
# Definitions that a match can reach

A match looks up a tag only when a filter implies it: the filter that is matched, or the definition of a tag that
was looked up before. So it depends on the resolution of the tags that the filter implies and on no others
(`Filter.evaluate_congr`), and two registries resolve alike what leads to definitions that match alike
(`Registry.resolve_congr`). Main statement: a match depends on the definitions of the tags that the references of
its filter reach, and without references it depends neither on a registry nor on the root of the manifest
(`Registry.match_decided_by_reached`).
-/

namespace ModelCatalog

/-! ## Filters -/

namespace Filter

variable {resolve other : Resolver} {stack : List String}

/-- A match depends on the resolution of the tags that the filter implies. -/
theorem evaluate_congr {filter : Filter} {node : Manifest}
    (same : ∀ tag, filter.Implies tag → resolve tag = other tag) :
    filter.evaluate resolve stack node = filter.evaluate other stack node := by
  induction filter using induction_on_children generalizing node with
  | step filter ih =>
    have below : ∀ child ∈ filter.children, ∀ inner,
        child.evaluate resolve stack inner = child.evaluate other stack inner :=
      fun child member inner => ih child member fun tag implied => same tag (implied.of_child member)
    cases filter with
    | and line operands =>
      rw [evaluate, evaluate, evaluateAll_eq, evaluateAll_eq]
      exact forM_congr fun operand member => below operand member node
    | or line operands =>
      rw [evaluate, evaluate, evaluateAny_eq, evaluateAny_eq]
      exact Outcome.firstOf_congr fun operand member => below operand member node
    | not line operand => rw [evaluate, evaluate, below operand (List.mem_singleton_self _)]
    | implicitTags line groups =>
      rw [evaluate, evaluate, resolveEach_eq, resolveEach_eq]
      exact forM_congr fun tag member => by rw [same tag (implies_of_mem_unionTags member)]
    | dict line fields =>
      cases node with
      | dict manifestLine entries =>
        rw [evaluate, evaluate, evaluateEntries_eq, evaluateEntries_eq]
        refine forM_congr fun field member => ?_
        rw [evaluateEntry, evaluateEntry]
        cases findEntry field.name entries with
        | none => rfl
        | some entry => exact below field.value (List.mem_map_of_mem member) entry.value
      | _ => rfl
    | list line items =>
      cases node with
      | list manifestLine values =>
        rw [evaluate, evaluate, evaluateEach_eq, evaluateEach_eq]
        refine congrArg _ (funext fun _ => forM_congr fun pair member => ?_)
        exact below pair.1 (List.of_mem_zip member).1 pair.2
      | _ => rfl
    | typeDeclaration | explicitTags | string | bool | int | float => cases node <;> rfl
    | anything => rfl

end Filter

/-! ## Registries -/

namespace Registry

variable {registry other : Registry} {root otherRoot : Manifest}

/-- Two registries resolve the tags of a set alike, when each of them has a definition in both registries or in
    none, and the definitions match alike wherever the tags of the set are resolved alike. -/
theorem resolve_congr (reached : String → Prop)
    (each : ∀ tag, reached tag → registry.get? tag = none ∧ other.get? tag = none ∨
      ∃ definition opposite, registry.get? tag = some definition ∧ other.get? tag = some opposite ∧
        ∀ resolve resolve' stack, (∀ inner, reached inner → resolve inner = resolve' inner) →
          definition.evaluate resolve stack root = opposite.evaluate resolve' stack otherRoot)
    (stack : List String) {tag : String} (isReached : reached tag) :
    registry.resolve root stack tag = other.resolve otherRoot stack tag := by
  funext filterLine manifestLine
  by_cases resolving : tag ∈ stack
  · rw [resolve, resolve, dif_pos resolving, dif_pos resolving]
  rcases each tag isReached with ⟨missing, otherMissing⟩ | ⟨definition, opposite, found, otherFound, alike⟩
  · rw [resolve_eq_of_missing resolving missing, resolve_eq_of_missing resolving otherMissing]
  · rw [resolve_eq resolving found, resolve_eq resolving otherFound]
    -- While the definition is matched, one registered tag less can be resolved.
    exact alike _ _ _ fun inner isInner => resolve_congr reached each (stack ++ [tag]) isInner
termination_by registry.remaining stack
decreasing_by exact remaining_push_lt resolving (by simp [found])

/-- The filter implies a tag, or the references of definitions lead to it from a tag that the filter implies. -/
def Reaches (registry : Registry) (filter : Filter) (tag : String) : Prop :=
  ∃ reference, filter.Implies reference ∧
    Relation.ReflTransGen (Definitions.Refers registry.Holds) reference tag

theorem Reaches.of_implies {filter : Filter} {tag : String} (implied : filter.Implies tag) :
    registry.Reaches filter tag :=
  ⟨tag, implied, .refl⟩

/-- What the definition of a reached tag implies is reached too. -/
theorem Reaches.of_definition {filter definition : Filter} {tag inner : String} (reaches : registry.Reaches filter tag)
    (found : registry.get? tag = some definition) (implied : definition.Implies inner) :
    registry.Reaches filter inner := by
  obtain ⟨reference, first, path⟩ := reaches
  exact ⟨reference, first, path.tail ⟨definition, found, implied⟩⟩

/-- A match depends on the definitions that its filter reaches and on no others. A filter without implicit tags
    matches a node alike in every registry, whatever the root of the manifest is. -/
theorem match_decided_by_reached (filter : Filter) :
    (∀ manifest, (∀ tag, registry.Reaches filter tag → registry.get? tag = other.get? tag) →
      registry.matchManifest filter manifest = other.matchManifest filter manifest) ∧
    ((∀ line groups, ¬Filter.IsNode (.implicitTags line groups) filter) → ∀ root otherRoot stack node,
      registry.evaluate root stack filter node = other.evaluate otherRoot stack filter node) := by
  constructor
  · intro manifest agree
    refine Filter.evaluate_congr fun tag implied => ?_
    refine resolve_congr (registry.Reaches filter) (fun tag reaches => ?_) [] (.of_implies implied)
    cases found : registry.get? tag with
    | none => exact .inl ⟨rfl, (agree tag reaches).symm.trans found⟩
    | some definition =>
      refine .inr ⟨definition, definition, rfl, (agree tag reaches).symm.trans found, fun _ _ _ same => ?_⟩
      exact Filter.evaluate_congr fun inner refers => same inner (reaches.of_definition found refers)
  · intro none root otherRoot stack node
    exact Filter.evaluate_congr fun tag ⟨line, groups, within, _⟩ => absurd within (none line groups)

/-- Every tag that a reference to the outer tag reaches in the nested registry. -/
theorem nestedRegistry_reaches {tag : String} (reaches : nestedRegistry.Reaches (reference 1 "outer") tag) :
    tag ∈ ["outer", "inner"] := by
  have own : ∀ tag ∈ (reference 1 "outer").implicitReferences.toList, tag ∈ ["outer", "inner"] := by decide +kernel
  have inDefinitions : ∀ entry ∈ nestedRegistry.definitions.entries,
      ∀ tag ∈ entry.2.implicitReferences.toList, tag ∈ ["outer", "inner"] := by decide +kernel
  obtain ⟨first, implied, path⟩ := reaches
  cases path with
  | refl => exact own tag (Filter.mem_implicitReferences_iff.mpr implied)
  | tail _ refers =>
    obtain ⟨definition, held, implied⟩ := refers
    exact inDefinitions (_, definition) (NameMap.mem_entries_iff.mpr held) tag
      (Filter.mem_implicitReferences_iff.mpr implied)

theorem nestedRegistry_match_decided_by_reached :
    nestedRegistry.matchManifest (reference 1 "outer") (.dict 1 []) =
        (nestedRegistry.insert "extra" (.anything 9 .dict)).matchManifest (reference 1 "outer") (.dict 1 []) ∧
      nestedRegistry.evaluate (.dict 1 []) [] (.anything 7 .list) (.list 2 []) =
        Registry.empty.evaluate (.list 2 []) [] (.anything 7 .list) (.list 2 []) := by
  have agree : ∀ tag, nestedRegistry.Reaches (reference 1 "outer") tag →
      nestedRegistry.get? tag = (nestedRegistry.insert "extra" (.anything 9 .dict)).get? tag := by
    intro tag reaches
    have other : tag ≠ "extra" := by
      rintro rfl
      exact absurd (nestedRegistry_reaches reaches) (by decide)
    rw [get?_insert, if_neg other]
  have noReference : ∀ line groups, ¬Filter.IsNode (.implicitTags line groups) (.anything 7 .list) := by
    intro line groups within
    cases within with
    | inside member _ => cases member
  exact ⟨(match_decided_by_reached _).1 _ agree, (match_decided_by_reached _).2 noReference _ _ _ _⟩

end Registry

end ModelCatalog
