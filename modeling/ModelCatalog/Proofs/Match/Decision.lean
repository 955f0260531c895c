import ModelCatalog.Proofs.Manifest.Distinct
import ModelCatalog.Proofs.Match.Faults
import ModelCatalog.Proofs.Match.Satisfaction

/-!
# What a match decides

Where no resolution faults, an outcome has two values, and each step of a match is the connective that
it stands for: a walk is "all", a first success "some", a negation "not". So an evaluation succeeds
exactly when the value satisfies the filter, given which tags the resolutions find to hold
(`Filter.evaluate_eq_ok_iff`). In a loaded registry exactly one such truth of tags fits the definitions,
and by it a match decides satisfaction (`Registry.Loaded.match_decides`).
-/

namespace ModelCatalog

open Outcome (Place)

/-! ## Comparisons -/

theorem Comparison.holds_compare_iff {relation : Comparison} {found bound : Int} :
    relation.holds (some (compare found bound)) = true ↔ relation.Relates found bound := by
  cases relation with
  | equals => simp [holds, Relates]
  | less => simp [holds, Relates, compare_lt_iff_lt]
  | lessOrEqual => simp [holds, Relates, Std.isLE_compare]
  | greater => simp [holds, Relates, compare_gt_iff_gt]
  | greaterOrEqual => simp [holds, Relates, Std.isGE_compare]

theorem Comparison.holds_compareFloats_iff {relation : Comparison} {found bound : Number.Binary64} :
    relation.holds (found.compare? bound) = true ↔ relation.RelatesFloats found bound := by
  rw [RelatesFloats, Number.Binary64.compare?]
  cases found.position? with
  | none => simp [holds]
  | some left =>
    cases bound.position? with
    | none => simp [holds]
    | some right => simp [holds_compare_iff]

theorem Slot.satisfies_iff {α : Type} {slot : Slot α} {relation : Comparison} {order : α → Option Ordering} :
    slot.satisfies relation order = true ↔
      ∃ value, slot = .filled value ∧ relation.holds (order value) = true := by
  cases slot with
  | filled value => simp [satisfies]
  | unfilled => simp [satisfies]

/-! ## Steps of a match -/

namespace Outcome

variable {outcome : Outcome} {place : Place} {mismatch : Mismatch}

theorem Place.fail_ne_ok : place.fail mismatch ≠ .ok () := fun impossible => nomatch impossible

theorem Place.require_eq_ok_iff {condition : Bool} :
    place.require condition mismatch = .ok () ↔ condition = true := by
  cases condition with
  | true => exact ⟨fun _ => rfl, fun _ => rfl⟩
  | false => exact ⟨fun impossible => absurd impossible Place.fail_ne_ok, fun impossible => nomatch impossible⟩

theorem Faultless.either_eq_ok_iff {others : Unit → Outcome} (first : outcome.Faultless) :
    outcome.either others = .ok () ↔ outcome = .ok () ∨ others () = .ok () := by
  cases outcome with
  | ok done => exact ⟨fun _ => .inl rfl, fun _ => rfl⟩
  | error failure =>
    have harmless : failure.isRegistryFault = false := first
    simp [Outcome.either, harmless]

theorem Faultless.negate_eq_ok_iff (operand : outcome.Faultless) :
    outcome.negate place = .ok () ↔ ¬outcome = .ok () := by
  cases outcome with
  | ok done => exact ⟨fun impossible => absurd impossible Place.fail_ne_ok, fun failed => absurd rfl failed⟩
  | error failure =>
    have harmless : failure.isRegistryFault = false := operand
    simp [Outcome.negate, harmless]

theorem firstOf_eq_ok_iff {α : Type} {operands : List α} {action : α → Outcome}
    (each : ∀ operand ∈ operands, (action operand).Faultless) :
    firstOf place operands action = .ok () ↔ ∃ operand ∈ operands, action operand = .ok () := by
  induction operands with
  | nil =>
    constructor
    · intro impossible
      exact absurd impossible Place.fail_ne_ok
    · rintro ⟨_, member, _⟩
      exact absurd member List.not_mem_nil
  | cons operand rest ih =>
    obtain ⟨first, others⟩ := List.forall_mem_cons.mp each
    have split : firstOf place (operand :: rest) action =
        (action operand).either fun _ => firstOf place rest action := rfl
    rw [split, first.either_eq_ok_iff, ih others, List.exists_mem_cons_iff]

end Outcome

/-- Two lists side by side, pair by pair and position by position. -/
theorem forall_mem_zip_iff {α β : Type} {left : List α} {right : List β} (holds : α → β → Prop) :
    (∀ pair ∈ left.zip right, holds pair.1 pair.2) ↔
      ∀ position (wanted : position < left.length) (given : position < right.length),
        holds left[position] right[position] := by
  constructor
  · intro each position wanted given
    have inside : (left[position], right[position]) ∈ left.zip right := by
      rw [← List.getElem_zip]
      exact List.getElem_mem (by rw [List.length_zip]; omega)
    exact each _ inside
  · intro each pair member
    obtain ⟨position, below, rfl⟩ := List.getElem_of_mem member
    rw [List.length_zip] at below
    rw [List.getElem_zip]
    exact each position (by omega) (by omega)

/-! ## Types -/

theorem DimFilter.evaluateSize_eq_ok_iff {place : Place} {size : Slot Int} {relation : Comparison}
    {bound : Int} : evaluateSize place size relation bound = .ok () ↔
      ∃ value, size = .filled value ∧ relation.Relates value bound := by
  cases size with
  | filled value => simp [evaluateSize, Place.require_eq_ok_iff, Comparison.holds_compare_iff]
  | unfilled => simp [evaluateSize, Place.fail_ne_ok]

/-- Matching a dimension decides whether it satisfies the filter. -/
theorem DimFilter.evaluate_eq_ok_iff {stack : List String} {dim : Dim} (filter : DimFilter) :
    filter.evaluate stack dim = .ok () ↔ filter.SatisfiedBy dim.size := by
  cases filter with
  | anything line => simp [evaluate, SatisfiedBy]
  | size line relation bound => rw [evaluate, SatisfiedBy, evaluateSize_eq_ok_iff]
  | and line operands =>
    rw [evaluate, evaluateAll_eq, forM_eq_ok_iff, SatisfiedBy]
    exact forall₂_congr fun operand member => evaluate_eq_ok_iff operand
  | or line operands =>
    rw [evaluate, evaluateAny_eq, Outcome.firstOf_eq_ok_iff fun operand _ => operand.evaluate_faultless,
      SatisfiedBy]
    refine exists_congr fun operand => ?_
    rw [exists_prop]
    exact and_congr_right fun member => evaluate_eq_ok_iff operand
  | not line operand =>
    rw [evaluate, operand.evaluate_faultless.negate_eq_ok_iff, SatisfiedBy, evaluate_eq_ok_iff operand]

theorem DimFilter.evaluateEach_eq_ok_iff {stack : List String} {filters : List DimFilter} {dims : List Dim} :
    evaluateEach stack filters dims = .ok () ↔
      ∀ position (wanted : position < filters.length) (given : position < dims.length),
        filters[position].SatisfiedBy dims[position].size := by
  rw [evaluateEach_eq, forM_eq_ok_iff]
  refine (forall₂_congr fun pair _ => pair.1.evaluate_eq_ok_iff).trans ?_
  exact forall_mem_zip_iff fun (filter : DimFilter) (dim : Dim) => filter.SatisfiedBy dim.size

theorem TypeFilter.evaluateEach_eq_ok_iff {stack : List String} {items : List TypeFilter}
    {types : List TypeDecl} : evaluateEach stack items types = .ok () ↔
      ∀ position (wanted : position < items.length) (given : position < types.length),
        items[position].evaluate stack types[position] = .ok () := by
  rw [evaluateEach_eq, forM_eq_ok_iff]
  exact forall_mem_zip_iff fun (item : TypeFilter) (type : TypeDecl) => item.evaluate stack type = .ok ()

theorem TypeFilter.entryNames_eq_iff {values : List (Named TypeFilter)} {found : List (Named TypeDecl)} :
    entryNames values = entryNames found ↔
      ∀ name, (∃ value ∈ values, value.name = name) ↔ ∃ entry ∈ found, entry.name = name := by
  have member : ∀ {α : Type} {entries : List (Named α)} {name : String},
      name ∈ entryNames entries ↔ ∃ entry ∈ entries, entry.name = name := by
    intro α entries name
    rw [entryNames, NameSet.mem_ofList, List.mem_map]
  constructor
  · intro same name
    rw [← member, ← member, same]
  · intro same
    exact NameSet.ext_mem fun name => by rw [member, member, same]

/-- Matching an entry of a filter with those of a type, whose names are distinct. -/
theorem TypeFilter.evaluateEntry_eq_ok_iff {stack : List String} {found : List (Named TypeDecl)}
    {value : Named TypeFilter} (distinct : (found.map (·.name)).Nodup) :
    evaluateEntry stack found value = .ok () ↔ ∀ entry ∈ found, value.name = entry.name →
      value.value.evaluate stack entry.value = .ok () := by
  rw [evaluateEntry]
  cases search : findEntry value.name found with
  | some entry =>
    obtain ⟨member, named⟩ := (findEntry_eq_some_iff distinct).mp search
    constructor
    · intro matched other otherMember otherNamed
      have same := (findEntry_eq_some_iff distinct).mpr ⟨otherMember, otherNamed.symm⟩
      cases search.symm.trans same
      exact matched
    · intro each
      exact each entry member named.symm
  | none =>
    refine ⟨fun _ other otherMember otherNamed => ?_, fun _ => rfl⟩
    cases search.symm.trans ((findEntry_eq_some_iff distinct).mpr ⟨otherMember, otherNamed.symm⟩)

/-- Matching a type decides whether it satisfies the filter. -/
theorem TypeFilter.evaluate_eq_ok_iff {stack : List String} (filter : TypeFilter) {type : TypeDecl}
    (distinct : type.Distinct) : filter.evaluate stack type = .ok () ↔ filter.SatisfiedBy type := by
  cases filter with
  | anything line kind =>
    rw [evaluate, SatisfiedBy, Place.require_eq_ok_iff, decide_eq_true_iff, eq_comm]
  | tensor line dims =>
    rw [SatisfiedBy]
    cases distinct with
    | @tensor typeLine found =>
      rw [evaluate, andThen_eq_ok_iff, Place.require_eq_ok_iff, decide_eq_true_iff,
        DimFilter.evaluateEach_eq_ok_iff]
      simp
    | _ => simp [evaluate, Place.fail_ne_ok]
  | list line item =>
    rw [SatisfiedBy]
    cases distinct with
    | list itemDistinct =>
      rw [evaluate, evaluate_eq_ok_iff item itemDistinct]
      simp
    | _ => simp [evaluate, Place.fail_ne_ok]
  | tuple line items =>
    rw [SatisfiedBy]
    cases distinct with
    | @tuple typeLine found itemsDistinct =>
      rw [evaluate, andThen_eq_ok_iff, Place.require_eq_ok_iff, decide_eq_true_iff, evaluateEach_eq_ok_iff]
      have each : ∀ position (wanted : position < items.length) (given : position < found.length),
          items[position].evaluate stack found[position] = .ok () ↔
            items[position].SatisfiedBy found[position] := by
        intro position wanted given
        have inside : items[position] ∈ items := List.getElem_mem wanted
        exact evaluate_eq_ok_iff items[position] (itemsDistinct found[position] (List.getElem_mem given))
      simp only [each]
      simp
    | _ => simp [evaluate, Place.fail_ne_ok]
  | namedValues line values =>
    rw [SatisfiedBy]
    cases distinct with
    | @namedValues typeLine found namesDistinct valuesDistinct =>
      rw [evaluate, andThen_eq_ok_iff, Place.require_eq_ok_iff, decide_eq_true_iff, entryNames_eq_iff,
        evaluateEntries_eq, forM_eq_ok_iff]
      have each : (∀ value ∈ values, evaluateEntry stack found value = .ok ()) ↔
          ∀ entry ∈ found, ∀ value ∈ values, value.name = entry.name → value.value.SatisfiedBy entry.value := by
        constructor
        · intro matched entry entryMember value member named
          rw [← evaluate_eq_ok_iff value.value (valuesDistinct entry entryMember)]
          exact (evaluateEntry_eq_ok_iff namesDistinct).mp (matched value member) entry entryMember named
        · intro satisfied value member
          refine (evaluateEntry_eq_ok_iff namesDistinct).mpr fun entry entryMember named => ?_
          rw [evaluate_eq_ok_iff value.value (valuesDistinct entry entryMember)]
          exact satisfied entry entryMember value member named
      rw [each]
      simp
    | _ => simp [evaluate, Place.fail_ne_ok]
termination_by filter
decreasing_by
  · rw [list.sizeOf_spec]
    omega
  · have smaller := List.sizeOf_lt_of_mem inside
    rw [tuple.sizeOf_spec]
    omega
  all_goals
    have smaller := Named.sizeOf_value_lt_of_mem member
    rw [namedValues.sizeOf_spec]
    omega

/-! ## Filters -/

namespace Filter

variable {resolve : Resolver} {stack : List String} {holds : String → Prop}

/-- Matching a field of a filter with those of a dict, whose names are distinct. -/
theorem evaluateEntry_eq_ok_iff {manifestLine : Nat} {entries : List (Named Manifest)}
    {field : Named Filter} (distinct : (entries.map (·.name)).Nodup) :
    evaluateEntry resolve stack manifestLine entries field = .ok () ↔
      ∃ entry ∈ entries, entry.name = field.name ∧
        field.value.evaluate resolve stack entry.value = .ok () := by
  rw [evaluateEntry]
  cases search : findEntry field.name entries with
  | some entry =>
    obtain ⟨member, named⟩ := (findEntry_eq_some_iff distinct).mp search
    constructor
    · intro matched
      exact ⟨entry, member, named, matched⟩
    · rintro ⟨other, otherMember, otherNamed, matched⟩
      cases search.symm.trans ((findEntry_eq_some_iff distinct).mpr ⟨otherMember, otherNamed⟩)
      exact matched
  | none =>
    constructor
    · intro impossible
      exact absurd impossible Place.fail_ne_ok
    · rintro ⟨other, otherMember, otherNamed, _⟩
      cases search.symm.trans ((findEntry_eq_some_iff distinct).mpr ⟨otherMember, otherNamed⟩)

theorem evaluateEntries_eq_ok_iff {manifestLine : Nat} {entries : List (Named Manifest)}
    {fields : List (Named Filter)} (distinct : (entries.map (·.name)).Nodup) :
    evaluateEntries resolve stack manifestLine entries fields = .ok () ↔
      ∀ field ∈ fields, ∃ entry ∈ entries, entry.name = field.name ∧
        field.value.evaluate resolve stack entry.value = .ok () := by
  rw [evaluateEntries_eq, forM_eq_ok_iff]
  exact forall₂_congr fun field _ => evaluateEntry_eq_ok_iff distinct

theorem evaluateEach_eq_ok_iff {items : List Filter} {values : List Manifest} :
    evaluateEach resolve stack items values = .ok () ↔
      ∀ position (wanted : position < items.length) (given : position < values.length),
        items[position].evaluate resolve stack values[position] = .ok () := by
  rw [evaluateEach_eq, forM_eq_ok_iff]
  exact forall_mem_zip_iff fun (item : Filter) (value : Manifest) => item.evaluate resolve stack value = .ok ()

/-- Where the resolutions of implied tags are faultless and find which tags hold, an evaluation decides
    whether a value satisfies the filter. -/
theorem evaluate_eq_ok_iff {filter : Filter}
    (faultless : ∀ tag, filter.Implies tag → ∀ line manifestLine, (resolve tag line manifestLine).Faultless)
    (truth : ∀ tag, filter.Implies tag → ∀ line manifestLine,
      resolve tag line manifestLine = .ok () ↔ holds tag)
    {node : Manifest} (distinct : node.Distinct) :
    filter.evaluate resolve stack node = .ok () ↔ filter.SatisfiedBy holds node := by
  induction filter using induction_on_children generalizing node with
  | step filter ih =>
    have below : ∀ child ∈ filter.children, ∀ {node : Manifest}, node.Distinct →
        (child.evaluate resolve stack node = .ok () ↔ child.SatisfiedBy holds node) :=
      fun child member => ih child member (fun tag implied => faultless tag (implied.of_child member))
        fun tag implied => truth tag (implied.of_child member)
    have belowFaultless : ∀ child ∈ filter.children, ∀ node, (child.evaluate resolve stack node).Faultless :=
      fun child member node =>
        evaluate_faultless (fun tag implied => faultless tag (implied.of_child member)) node
    cases filter with
    | and line operands =>
      rw [evaluate, evaluateAll_eq, forM_eq_ok_iff, SatisfiedBy]
      exact forall₂_congr fun operand member => below operand member distinct
    | or line operands =>
      have harmless : ∀ operand ∈ operands, (operand.evaluate resolve stack node).Faultless :=
        fun operand member => belowFaultless operand member node
      rw [evaluate, evaluateAny_eq, Outcome.firstOf_eq_ok_iff harmless, SatisfiedBy]
      refine exists_congr fun operand => ?_
      rw [exists_prop]
      exact and_congr_right fun member => below operand member distinct
    | not line operand =>
      have only := List.mem_singleton_self operand
      rw [evaluate, (belowFaultless operand only node).negate_eq_ok_iff, below operand only distinct, SatisfiedBy]
    | implicitTags line groups =>
      rw [evaluate, resolveEach_eq, forM_eq_ok_iff, SatisfiedBy]
      exact forall₂_congr fun tag member => truth tag (implies_of_mem_unionTags member) _ _
    | anything line kind =>
      rw [evaluate, SatisfiedBy, Place.require_eq_ok_iff, decide_eq_true_iff, eq_comm]
    | dict line fields =>
      rw [SatisfiedBy]
      cases distinct with
      | @dict manifestLine entries namesDistinct valuesDistinct =>
        rw [evaluate, evaluateEntries_eq_ok_iff namesDistinct]
        have each : ∀ field ∈ fields, (∃ entry ∈ entries, entry.name = field.name ∧
              field.value.evaluate resolve stack entry.value = .ok ()) ↔
            ∃ entry ∈ entries, entry.name = field.name ∧ field.value.SatisfiedBy holds entry.value := by
          intro field member
          refine exists_congr fun entry => and_congr_right fun inside => and_congr_right fun _ => ?_
          exact below field.value (List.mem_map_of_mem member) (valuesDistinct entry inside)
        rw [forall₂_congr each]
        simp
      | _ => simp [evaluate, Place.fail_ne_ok]
    | list line items =>
      rw [SatisfiedBy]
      cases distinct with
      | @list manifestLine values valuesDistinct =>
        rw [evaluate, andThen_eq_ok_iff, Place.require_eq_ok_iff, decide_eq_true_iff, evaluateEach_eq_ok_iff]
        have each : ∀ position (wanted : position < items.length) (given : position < values.length),
            items[position].evaluate resolve stack values[position] = .ok () ↔
              items[position].SatisfiedBy holds values[position] := by
          intro position wanted given
          exact below items[position] (List.getElem_mem wanted)
            (valuesDistinct values[position] (List.getElem_mem given))
        simp only [each]
        simp
      | _ => simp [evaluate, Place.fail_ne_ok]
    | typeDeclaration line expected =>
      rw [SatisfiedBy]
      cases distinct with
      | typeDeclaration typeDistinct =>
        rw [evaluate, expected.evaluate_eq_ok_iff typeDistinct]
        simp
      | _ => simp [evaluate, Place.fail_ne_ok]
    | explicitTags line required =>
      rw [SatisfiedBy]
      cases node with
      | tagCollection manifestLine declared =>
        rw [evaluate, evaluateTags, Place.require_eq_ok_iff, NameSet.isEmpty_iff]
        simp
      | _ => simp [evaluate, Place.fail_ne_ok]
    | string line expected | bool line expected =>
      rw [SatisfiedBy]
      cases node <;> simp [evaluate, Place.fail_ne_ok, Place.require_eq_ok_iff]
    | int line relation bound =>
      rw [SatisfiedBy]
      cases node <;>
        simp [evaluate, Place.fail_ne_ok, Place.require_eq_ok_iff, Slot.satisfies_iff, Comparison.holds_compare_iff]
    | float line relation bound =>
      rw [SatisfiedBy]
      cases node <;>
        simp [evaluate, Place.fail_ne_ok, Place.require_eq_ok_iff, Slot.satisfies_iff,
          Comparison.holds_compareFloats_iff]

end Filter

/-! ## Tags -/

namespace Registry

variable {registry : Registry} {root : Manifest} {tag : String} {holds : String → Prop}

/-- What a resolution finds does not depend on the tags under resolution that lead to its tag. -/
theorem resolve_eq_ok_iff_matchTag (sound : Definitions.Sound registry.Holds) (distinct : root.Distinct)
    (listed : Definitions.Listed registry.Holds tag) (stack : List String)
    (leads : Definitions.Leads registry.Holds stack tag) (filterLine manifestLine : Nat) :
    registry.resolve root stack tag filterLine manifestLine = .ok () ↔
      registry.matchTag tag root = .ok () := by
  revert stack filterLine manifestLine
  refine sound.induction_on_references (fun tag definition defined ih => ?_) listed
  -- Under any tags that lead here, the definition is evaluated to the same truth of its references.
  have same : ∀ stack, Definitions.Leads registry.Holds stack tag → ∀ filterLine manifestLine,
      registry.resolve root stack tag filterLine manifestLine = .ok () ↔
        definition.SatisfiedBy (fun other => registry.matchTag other root = .ok ()) root := by
    intro stack leads filterLine manifestLine
    have onward : ∀ other, definition.Implies other →
        Definitions.Leads registry.Holds (stack ++ [tag]) other :=
      fun other implied => leads.next ⟨definition, defined, implied⟩
    rw [resolve_eq (leads.fresh sound) defined]
    refine Filter.evaluate_eq_ok_iff (fun other implied => ?_) (fun other implied => ?_) distinct
    · exact resolve_faultless sound (sound.known tag definition defined other (.inl implied)) _
        (onward other implied)
    · exact ih other implied _ (onward other implied)
  intro stack leads filterLine manifestLine
  exact (same stack leads filterLine manifestLine).trans (same [] .nil 0 root.line).symm

/-- Evaluating a filter under tags that lead to all that it implies decides satisfaction, by any truth
    that agrees with the matches of these tags. -/
theorem evaluate_eq_ok_iff (sound : Definitions.Sound registry.Holds) (distinct : root.Distinct)
    {filter : Filter} {stack : List String}
    (known : ∀ tag, filter.Implies tag → Definitions.Listed registry.Holds tag)
    (leads : ∀ tag, filter.Implies tag → Definitions.Leads registry.Holds stack tag)
    (agree : ∀ tag, filter.Implies tag → (registry.matchTag tag root = .ok () ↔ holds tag)) :
    registry.evaluate root stack filter root = .ok () ↔ filter.SatisfiedBy holds root := by
  rw [evaluate]
  refine Filter.evaluate_eq_ok_iff (fun tag implied => ?_) (fun tag implied line manifestLine => ?_) distinct
  · exact resolve_faultless sound (known tag implied) stack (leads tag implied)
  · exact (resolve_eq_ok_iff_matchTag sound distinct (known tag implied) stack (leads tag implied) line
      manifestLine).trans (agree tag implied)

/-- Matching a registered tag evaluates its definition. -/
theorem matchTag_eq {definition : Filter} (defined : registry.Holds tag definition) :
    registry.matchTag tag root = registry.evaluate root [tag] definition root :=
  resolve_eq List.not_mem_nil defined

/-- Matching a registered tag decides satisfaction of its definition. -/
theorem matchTag_eq_ok_iff (sound : Definitions.Sound registry.Holds) (distinct : root.Distinct)
    {definition : Filter} (defined : registry.Holds tag definition)
    (agree : ∀ other, definition.Implies other → (registry.matchTag other root = .ok () ↔ holds other)) :
    registry.matchTag tag root = .ok () ↔ definition.SatisfiedBy holds root := by
  rw [matchTag_eq defined]
  refine evaluate_eq_ok_iff sound distinct (fun other implied => ?_) (fun other implied => ?_) agree
  · exact sound.known tag definition defined other (.inl implied)
  · exact Definitions.Leads.nil.next ⟨definition, defined, implied⟩

/-- The tags that match are a truth of the definitions. -/
theorem isTruth_matchTag (sound : Definitions.Sound registry.Holds) (distinct : root.Distinct) :
    registry.IsTruth root fun tag => registry.matchTag tag root = .ok () :=
  fun _ _ defined => matchTag_eq_ok_iff sound distinct defined fun _ _ => Iff.rfl

/-- Every truth of the definitions is that of the tags that match. -/
theorem IsTruth.matchTag_eq_ok_iff (truth : registry.IsTruth root holds)
    (sound : Definitions.Sound registry.Holds) (distinct : root.Distinct)
    (listed : Definitions.Listed registry.Holds tag) : registry.matchTag tag root = .ok () ↔ holds tag := by
  refine sound.induction_on_references (fun tag definition defined ih => ?_) listed
  rw [Registry.matchTag_eq_ok_iff sound distinct defined ih]
  exact (truth tag definition defined).symm

/-- In a registry that was loaded, for every manifest that is read, there is exactly one truth of the
    registered tags that fits their definitions, and by it a valid filter matches the manifest exactly
    when the manifest satisfies it. -/
theorem Loaded.match_decides (loaded : registry.Loaded) {self : Option String} {document : Element}
    {filter : Filter} (valid : registry.validateFilter self document = .ok filter) {source : Element}
    {manifest : Manifest} (read : Manifest.ofElement source = .ok manifest) :
    ∃ holds, registry.IsTruth manifest holds ∧
      (∀ other, registry.IsTruth manifest other → ∀ tag ∈ registry.names, (other tag ↔ holds tag)) ∧
      (registry.matchManifest filter manifest = .ok () ↔ filter.SatisfiedBy holds manifest) := by
  have sound := loaded.sound
  have distinct := Manifest.distinct_of_ofElement read
  refine ⟨_, isTruth_matchTag sound distinct, ?_, ?_⟩
  · intro other truth tag registered
    exact (truth.matchTag_eq_ok_iff sound distinct (listed_iff.mpr registered)).symm
  · exact evaluate_eq_ok_iff sound distinct (fun tag => listed_of_validateFilter valid) (fun _ _ => .nil)
      fun _ _ => Iff.rfl

end Registry

/-- The document of a manifest with one field, which both tags of the sample registry ask for. -/
def sampleManifest : Element :=
  ⟨"dict", 1, [], none, [⟨"named-field", 1, [("name", "n")], none, [⟨"int", 1, [], some "2", []⟩]⟩]⟩

theorem sampleRegistry_match_decides :
    sampleRegistry.Loaded ∧ ∃ filter manifest holds,
      sampleRegistry.validateFilter none sampleFilter = .ok filter ∧
      Manifest.ofElement sampleManifest = .ok manifest ∧
      sampleRegistry.matchManifest filter manifest = .ok () ∧
      sampleRegistry.IsTruth manifest holds ∧ filter.SatisfiedBy holds manifest := by
  have valid : (sampleRegistry.validateFilter none sampleFilter).isOk = true := by decide +kernel
  have read : (Manifest.ofElement sampleManifest).isOk = true := by decide +kernel
  have run : (sampleRegistry.validateFilter none sampleFilter).toOption.bind (fun filter =>
      (Manifest.ofElement sampleManifest).toOption.map fun manifest =>
        decide (sampleRegistry.matchManifest filter manifest = .ok ())) = some true := by
    decide +kernel
  obtain ⟨filter, isFilter⟩ := exists_of_isOk valid
  obtain ⟨manifest, isManifest⟩ := exists_of_isOk read
  rw [isFilter, isManifest] at run
  have matched : sampleRegistry.matchManifest filter manifest = .ok () :=
    of_decide_eq_true (Option.some.inj run)
  obtain ⟨holds, truth, _, decides⟩ := sampleRegistry_loaded.match_decides isFilter isManifest
  exact ⟨sampleRegistry_loaded, filter, manifest, holds, isFilter, isManifest, matched, truth,
    decides.mp matched⟩

end ModelCatalog
