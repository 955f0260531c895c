import ModelCatalog.Proofs.Manifest.Growth
import ModelCatalog.Proofs.Match.Decision

/-!
# Matches and growing manifests

A filter without negations that matches a manifest matches every manifest that grows out of it, if no
definition that the filter leads to has a negation either (`Registry.Loaded.matchManifest_mono`). Two runs are
compared node by node: the filter is the same, the value of the second run covers that of the first. The root
of the manifest grows too, so the tags of the two runs are resolved against different documents, and the
comparison goes through the references of the registry. It needs that no resolution faults, for a disjunction
whose first operand faults matches nothing.
-/

namespace ModelCatalog

open Outcome (Place)

/-! ## Filters without negations -/

/-- No negation stands in a filter of dimensions. -/
inductive DimFilter.NegationFree : DimFilter → Prop
  | anything {line : Nat} : NegationFree (.anything line)
  | size {line : Nat} {relation : Comparison} {bound : Int} : NegationFree (.size line relation bound)
  | and {line : Nat} {operands : List DimFilter} : (∀ operand ∈ operands, NegationFree operand) →
      NegationFree (.and line operands)
  | or {line : Nat} {operands : List DimFilter} : (∀ operand ∈ operands, NegationFree operand) →
      NegationFree (.or line operands)

/-- No negation of dimensions stands in a filter of types. -/
inductive TypeFilter.NegationFree : TypeFilter → Prop
  | anything {line : Nat} {kind : TypeKind} : NegationFree (.anything line kind)
  | tensor {line : Nat} {dims : List DimFilter} : (∀ dim ∈ dims, dim.NegationFree) →
      NegationFree (.tensor line dims)
  | list {line : Nat} {item : TypeFilter} : NegationFree item → NegationFree (.list line item)
  | tuple {line : Nat} {items : List TypeFilter} : (∀ item ∈ items, NegationFree item) →
      NegationFree (.tuple line items)
  | namedValues {line : Nat} {values : List (Named TypeFilter)} :
      (∀ value ∈ values, NegationFree value.value) → NegationFree (.namedValues line values)

/-- No negation, of values or of dimensions, stands in a filter. -/
inductive Filter.NegationFree : Filter → Prop
  | anything {line : Nat} {kind : ValueKind} : NegationFree (.anything line kind)
  | dict {line : Nat} {fields : List (Named Filter)} : (∀ field ∈ fields, NegationFree field.value) →
      NegationFree (.dict line fields)
  | list {line : Nat} {items : List Filter} : (∀ item ∈ items, NegationFree item) →
      NegationFree (.list line items)
  | string {line : Nat} {expected : String} : NegationFree (.string line expected)
  | bool {line : Nat} {expected : Bool} : NegationFree (.bool line expected)
  | int {line : Nat} {relation : Comparison} {bound : Int} : NegationFree (.int line relation bound)
  | float {line : Nat} {relation : Comparison} {bound : Number.Binary64} : NegationFree (.float line relation bound)
  | typeDeclaration {line : Nat} {expected : TypeFilter} : expected.NegationFree →
      NegationFree (.typeDeclaration line expected)
  | and {line : Nat} {operands : List Filter} : (∀ operand ∈ operands, NegationFree operand) →
      NegationFree (.and line operands)
  | or {line : Nat} {operands : List Filter} : (∀ operand ∈ operands, NegationFree operand) →
      NegationFree (.or line operands)
  | implicitTags {line : Nat} {groups : List TagGroup} : NegationFree (.implicitTags line groups)
  | explicitTags {line : Nat} {groups : List TagGroup} : NegationFree (.explicitTags line groups)

/-- No negation stands in a filter or in a definition that its implicit references lead to. -/
structure Registry.WithoutNegation (registry : Registry) (filter : Filter) : Prop where
  own : filter.NegationFree
  reached : ∀ tag other definition, filter.Implies tag →
    Relation.ReflTransGen (Definitions.Refers registry.Holds) tag other → registry.Holds other definition →
      definition.NegationFree

/-! ## Dimensions and types -/

theorem Slot.satisfies_mono {α : Type} {slot larger : Slot α} (covered : slot.CoveredBy larger)
    {relation : Comparison} {order : α → Option Ordering} (satisfied : slot.satisfies relation order = true) :
    larger.satisfies relation order = true := by
  obtain ⟨value, filled, holds⟩ := Slot.satisfies_iff.mp satisfied
  exact Slot.satisfies_iff.mpr ⟨value, covered value filled, holds⟩

theorem DimFilter.NegationFree.satisfiedBy_mono {filter : DimFilter} (free : filter.NegationFree)
    {size larger : Slot Int} (covered : size.CoveredBy larger) (satisfied : filter.SatisfiedBy size) :
    filter.SatisfiedBy larger := by
  induction free with
  | anything =>
    rw [SatisfiedBy]
    exact trivial
  | size =>
    rw [SatisfiedBy] at satisfied ⊢
    obtain ⟨value, filled, relates⟩ := satisfied
    exact ⟨value, covered value filled, relates⟩
  | and operandsFree ih =>
    rw [SatisfiedBy] at satisfied ⊢
    intro operand member
    exact ih operand member (satisfied operand member)
  | or operandsFree ih =>
    rw [SatisfiedBy] at satisfied ⊢
    obtain ⟨operand, member, holds⟩ := satisfied
    exact ⟨operand, member, ih operand member holds⟩

theorem TypeDecl.CoveredBy.kind_eq {type larger : TypeDecl} (covered : type.CoveredBy larger) :
    type.kind = larger.kind := by
  cases covered <;> rfl

theorem TypeFilter.NegationFree.evaluate_mono {filter : TypeFilter} (free : filter.NegationFree)
    {stack : List String} {type larger : TypeDecl} (covered : type.CoveredBy larger)
    (matched : filter.evaluate stack type = .ok ()) : filter.evaluate stack larger = .ok () := by
  induction free generalizing type larger with
  | anything =>
    rw [evaluate, Place.require_eq_ok_iff] at matched ⊢
    rwa [← covered.kind_eq]
  | tensor dimsFree =>
    cases covered with
    | tensor count each =>
      rw [evaluate, andThen_eq_ok_iff, Place.require_eq_ok_iff, decide_eq_true_iff,
        DimFilter.evaluateEach_eq_ok_iff] at matched ⊢
      obtain ⟨same, dims⟩ := matched
      refine ⟨same.trans count, fun position wanted given => ?_⟩
      exact (dimsFree _ (List.getElem_mem wanted)).satisfiedBy_mono (each position (count ▸ given) given)
        (dims position wanted (count ▸ given))
    | _ => exact absurd matched Place.fail_ne_ok
  | list itemFree ih =>
    cases covered with
    | list item =>
      rw [evaluate] at matched ⊢
      exact ih item matched
    | _ => exact absurd matched Place.fail_ne_ok
  | tuple itemsFree ih =>
    cases covered with
    | tuple count each =>
      rw [evaluate, andThen_eq_ok_iff, Place.require_eq_ok_iff, decide_eq_true_iff,
        evaluateEach_eq_ok_iff] at matched ⊢
      obtain ⟨same, items⟩ := matched
      refine ⟨same.trans count, fun position wanted given => ?_⟩
      exact ih _ (List.getElem_mem wanted) (each position (count ▸ given) given)
        (items position wanted (count ▸ given))
    | _ => exact absurd matched Place.fail_ne_ok
  | namedValues valuesFree ih =>
    cases covered with
    | @namedValues line other found more names each =>
      rw [evaluate, andThen_eq_ok_iff, Place.require_eq_ok_iff, decide_eq_true_iff, evaluateEntries_eq,
        forM_eq_ok_iff] at matched ⊢
      obtain ⟨same, values⟩ := matched
      refine ⟨?_, fun value member => ?_⟩
      · rw [same, entryNames, entryNames, names]
      · have before := values value member
        rw [evaluateEntry] at before ⊢
        cases search : findEntry value.name more with
        | none => rfl
        | some opposite =>
          cases given : findEntry value.name found with
          | none =>
            rw [findEntry_eq_none_iff, names, ← findEntry_eq_none_iff, search] at given
            cases given
          | some entry =>
            rw [given] at before
            exact ih value member (each value.name entry opposite given search) before
    | _ => exact absurd matched Place.fail_ne_ok

/-! ## Values -/

theorem Manifest.CoveredBy.kind_eq {node larger : Manifest} (covered : node.CoveredBy larger) :
    node.kind = larger.kind := by
  cases covered <;> rfl

/-- Neither of two ways to resolve a tag faults, and where the first succeeds the second does. -/
structure TruthKept (resolve other : Resolver) (tag : String) : Prop where
  faultless : ∀ line manifestLine, (resolve tag line manifestLine).Faultless
  otherFaultless : ∀ line manifestLine, (other tag line manifestLine).Faultless
  kept : ∀ line manifestLine otherLine, resolve tag line manifestLine = .ok () →
    other tag line otherLine = .ok ()

namespace Filter

variable {resolve other : Resolver} {stack : List String}

/-- A filter without negations that matches a value matches every value that covers it. -/
theorem NegationFree.evaluate_mono {filter : Filter} (free : filter.NegationFree)
    (truth : ∀ tag, filter.Implies tag → TruthKept resolve other tag) {node larger : Manifest}
    (covered : node.CoveredBy larger) (matched : filter.evaluate resolve stack node = .ok ()) :
    filter.evaluate other stack larger = .ok () := by
  induction free generalizing node larger with
  | anything =>
    rw [evaluate, Place.require_eq_ok_iff] at matched ⊢
    rwa [← covered.kind_eq]
  | @and line operands operandsFree ih =>
    rw [evaluate, evaluateAll_eq, forM_eq_ok_iff] at matched ⊢
    intro operand member
    exact ih operand member (fun tag implied => truth tag (implied.of_child member)) covered (matched operand member)
  | @or line operands operandsFree ih =>
    have below : ∀ operand ∈ operands, ∀ tag, operand.Implies tag → TruthKept resolve other tag :=
      fun operand member tag implied => truth tag (implied.of_child member)
    have faultless : ∀ operand ∈ operands, (operand.evaluate resolve stack node).Faultless :=
      fun operand member => evaluate_faultless (fun tag implied => (below operand member tag implied).faultless) node
    have otherFaultless : ∀ operand ∈ operands, (operand.evaluate other stack larger).Faultless :=
      fun operand member =>
        evaluate_faultless (fun tag implied => (below operand member tag implied).otherFaultless) larger
    rw [evaluate, evaluateAny_eq, Outcome.firstOf_eq_ok_iff faultless] at matched
    rw [evaluate, evaluateAny_eq, Outcome.firstOf_eq_ok_iff otherFaultless]
    obtain ⟨operand, member, succeeded⟩ := matched
    exact ⟨operand, member, ih operand member (below operand member) covered succeeded⟩
  | implicitTags =>
    rw [evaluate, resolveEach_eq, forM_eq_ok_iff] at matched ⊢
    intro tag member
    exact (truth tag (implies_of_mem_unionTags member)).kept _ _ _ (matched tag member)
  | @dict line fields fieldsFree ih =>
    cases covered with
    | @dict manifestLine otherLine entries more names each =>
      rw [evaluate, evaluateEntries_eq, forM_eq_ok_iff] at matched ⊢
      intro field member
      have before := matched field member
      rw [evaluateEntry] at before ⊢
      cases found : findEntry field.name entries with
      | none =>
        rw [found] at before
        exact absurd before Place.fail_ne_ok
      | some entry =>
        rw [found] at before
        cases search : findEntry field.name more with
        | none =>
          have missing := findEntry_eq_none_iff.mp search
          obtain ⟨inside, named⟩ := mem_of_findEntry found
          exact absurd (names (named ▸ List.mem_map_of_mem inside)) missing
        | some opposite =>
          have inside : field.value ∈ (Filter.dict line fields).children := List.mem_map_of_mem member
          exact ih field member (fun tag implied => truth tag (implied.of_child inside))
            (each field.name entry opposite found search) before
    | _ => exact absurd matched Place.fail_ne_ok
  | @list line items itemsFree ih =>
    cases covered with
    | list count each =>
      rw [evaluate, andThen_eq_ok_iff, Place.require_eq_ok_iff, decide_eq_true_iff, evaluateEach_eq_ok_iff]
        at matched ⊢
      obtain ⟨enough, leading⟩ := matched
      refine ⟨enough.trans count, fun position wanted given => ?_⟩
      have inside := List.getElem_mem wanted
      have given' := wanted.trans_le enough
      exact ih _ inside (fun tag implied => truth tag (implied.of_child inside)) (each position given' given)
        (leading position wanted given')
    | _ => exact absurd matched Place.fail_ne_ok
  | typeDeclaration expectedFree =>
    cases covered with
    | typeDeclaration type =>
      rw [evaluate] at matched ⊢
      exact expectedFree.evaluate_mono type matched
    | _ => exact absurd matched Place.fail_ne_ok
  | explicitTags =>
    cases covered with
    | tagCollection kept =>
      rw [evaluate, evaluateTags, Place.require_eq_ok_iff, NameSet.isEmpty_iff] at matched ⊢
      simp only [NameSet.mem_diff, not_and, Classical.not_not] at matched ⊢
      intro tag required
      exact kept tag (matched tag required)
    | _ => exact absurd matched Place.fail_ne_ok
  | string =>
    cases covered with
    | string slot =>
      rw [evaluate, Place.require_eq_ok_iff, decide_eq_true_iff] at matched ⊢
      exact slot _ matched
    | _ => exact absurd matched Place.fail_ne_ok
  | bool =>
    cases covered with
    | bool slot =>
      rw [evaluate, Place.require_eq_ok_iff, decide_eq_true_iff] at matched ⊢
      exact slot _ matched
    | _ => exact absurd matched Place.fail_ne_ok
  | int =>
    cases covered with
    | int slot =>
      rw [evaluate, Place.require_eq_ok_iff] at matched ⊢
      exact Slot.satisfies_mono slot matched
    | _ => exact absurd matched Place.fail_ne_ok
  | float =>
    cases covered with
    | float slot =>
      rw [evaluate, Place.require_eq_ok_iff] at matched ⊢
      exact Slot.satisfies_mono slot matched
    | _ => exact absurd matched Place.fail_ne_ok

end Filter

/-! ## Registries -/

namespace Registry

variable {registry : Registry} {root larger : Manifest} {tag : String}

/-- In a manifest that covers another one a resolution finds every tag to hold that holds in the other, if no
    definition that the tag leads to has a negation. -/
theorem truthKept_resolve (sound : Definitions.Sound registry.Holds) (covered : root.CoveredBy larger)
    (listed : Definitions.Listed registry.Holds tag) (stack : List String)
    (leads : Definitions.Leads registry.Holds stack tag)
    (free : ∀ other definition, Relation.ReflTransGen (Definitions.Refers registry.Holds) tag other →
      registry.Holds other definition → definition.NegationFree) :
    TruthKept (registry.resolve root stack) (registry.resolve larger stack) tag := by
  revert stack free
  refine sound.induction_on_references (fun tag definition defined ih => ?_) listed
  intro stack leads free
  have refers : ∀ other, definition.Implies other → Definitions.Refers registry.Holds tag other :=
    fun other implied => ⟨definition, defined, implied⟩
  have below : ∀ other, definition.Implies other →
      TruthKept (registry.resolve root (stack ++ [tag])) (registry.resolve larger (stack ++ [tag])) other := by
    intro other implied
    refine ih other implied (stack ++ [tag]) (leads.next (refers other implied)) fun last reached path held => ?_
    exact free last reached (path.head (refers other implied)) held
  refine ⟨?_, ?_, fun line manifestLine otherLine matched => ?_⟩
  · exact resolve_faultless sound ⟨definition, defined⟩ stack leads
  · exact resolve_faultless sound ⟨definition, defined⟩ stack leads
  · rw [resolve_eq (leads.fresh sound) defined] at matched ⊢
    exact (free tag definition .refl defined).evaluate_mono below covered matched

/-- A filter without negations, whose implicit references are registered, matches what covers a manifest that
    it matches. -/
theorem matchManifest_of_coveredBy {filter : Filter} (sound : Definitions.Sound registry.Holds)
    (known : ∀ tag, filter.Implies tag → Definitions.Listed registry.Holds tag)
    (free : registry.WithoutNegation filter) (covered : root.CoveredBy larger)
    (matched : registry.matchManifest filter root = .ok ()) :
    registry.matchManifest filter larger = .ok () := by
  have truth : ∀ tag, filter.Implies tag → TruthKept (registry.resolve root []) (registry.resolve larger []) tag :=
    fun tag implied => truthKept_resolve sound covered (known tag implied) [] .nil
      fun other definition path held => free.reached tag other definition implied path held
  exact free.own.evaluate_mono truth covered matched

/-- In a registry that was loaded, a valid filter without negations that matches a manifest matches every
    manifest that grows out of it. -/
theorem Loaded.matchManifest_mono (loaded : registry.Loaded) {self : Option String} {document : Element}
    {filter : Filter} (valid : registry.validateFilter self document = .ok filter)
    (free : registry.WithoutNegation filter) {manifest larger : Manifest} (below : manifest.Below larger)
    (matched : registry.matchManifest filter manifest = .ok ()) :
    registry.matchManifest filter larger = .ok () := by
  induction below with
  | refl => exact matched
  | tail path grows ih =>
    exact matchManifest_of_coveredBy loaded.sound (fun tag => listed_of_validateFilter valid) free grows.coveredBy ih

end Registry

/-- The filter is a reference or asks for one number in a dict. -/
def Filter.isPlain : Filter → Bool
  | .implicitTags .. | .dict _ [⟨_, _, .int ..⟩] => true
  | _ => false

theorem Filter.negationFree_of_isPlain {filter : Filter} (plain : filter.isPlain = true) : filter.NegationFree := by
  unfold isPlain at plain
  split at plain
  · exact .implicitTags
  · refine .dict fun field member => ?_
    rw [List.mem_singleton.mp member]
    exact .int
  · cases plain

/-- The field that both tags of the sample registry ask for. -/
def sampleField : Named Manifest := ⟨"n", 1, .int 1 (.filled 2)⟩

/-- A field that no tag asks for. -/
def wideField (slot : Slot Bool) : Named Manifest := ⟨"wide", 2, .bool 2 slot⟩

theorem sampleRegistry_matchManifest_mono :
    sampleRegistry.Loaded ∧ ∃ filter manifest larger,
      sampleRegistry.validateFilter none sampleFilter = .ok filter ∧ sampleRegistry.WithoutNegation filter ∧
      manifest = .dict 1 [sampleField] ∧ larger = .dict 1 [sampleField, wideField (.filled true)] ∧
      Manifest.Below manifest larger ∧ sampleRegistry.matchManifest filter manifest = .ok () ∧
      sampleRegistry.matchManifest filter larger = .ok () := by
  have run : (sampleRegistry.validateFilter none sampleFilter).toOption.map (fun filter =>
      (filter.isPlain, decide (sampleRegistry.matchManifest filter (.dict 1 [sampleField]) = .ok ()))) =
        some (true, true) := by decide +kernel
  have plain : ∀ entry ∈ sampleRegistry.definitions.entries, entry.2.isPlain = true := by decide +kernel
  have fresh : ∀ other ∈ [sampleField] ++ [], other.name ≠ (wideField .unfilled).name := by decide
  have wider : Manifest.Grows (.dict 1 [sampleField]) (.dict 1 [sampleField, wideField .unfilled]) :=
    .newField fresh
  have filledIn : Manifest.Grows (.dict 1 ([sampleField] ++ wideField .unfilled :: []))
      (.dict 1 ([sampleField] ++ wideField (.filled true) :: [])) := .field (.bool .filled)
  have below : Manifest.Below (.dict 1 [sampleField]) (.dict 1 [sampleField, wideField (.filled true)]) :=
    .tail (.single wider) filledIn
  cases valid : sampleRegistry.validateFilter none sampleFilter with
  | error invalidity =>
    rw [valid] at run
    cases run
  | ok filter =>
    rw [valid] at run
    obtain ⟨filterPlain, matched⟩ := Prod.mk.inj (Option.some.inj run)
    have free : sampleRegistry.WithoutNegation filter :=
      ⟨Filter.negationFree_of_isPlain filterPlain, fun tag other definition _ _ held =>
        Filter.negationFree_of_isPlain (plain (other, definition) (Registry.mem_entries_iff.mpr held))⟩
    exact ⟨sampleRegistry_loaded, filter, _, _, rfl, free, rfl, rfl, below, of_decide_eq_true matched,
      sampleRegistry_loaded.matchManifest_mono valid free below (of_decide_eq_true matched)⟩

end ModelCatalog
