import ModelCatalog.Proofs.Filter.Collections
import ModelCatalog.Proofs.Grammar.Skeleton
import ModelCatalog.Proofs.Manifest.Parts
import ModelCatalog.Proofs.Match.Decision

/-!
# Filters that describe a manifest

A document is definite when it asks only for what its own contents have: everything, equality, a comparison that
admits equality, a type, or explicit tags (`Element.IsDefinite`). Without its operations the document of such a
filter is that of a manifest, the manifest has nothing left to fill in, and it satisfies the filter
(`Filter.SpelledBy.realized`). No tag is resolved for this, so it matches in every registry
(`Registry.filter_matches_skeleton`).
-/

namespace ModelCatalog

open Number (Binary64)
open Element

variable {α β : Type}

/-! ## Definite documents -/

/-- The operations that the contents of a filter satisfy themselves. -/
def Operation.definite : List Operation :=
  [.all, .equals, .lessOrEqual, .greaterOrEqual, .typeMatch, .explicitTagMatch]

/-- The tags of the elements whose operation nothing looks at: entries and primitive types. -/
def inertTags : List String :=
  [EntryRules.field.tag, EntryRules.namedValue.tag, TypeTag.string.name, TypeTag.bool.name, TypeTag.int.name,
    TypeTag.float.name]

/-- An element asks for nothing but what it holds, and holds a known value that is in the order of its kind. -/
structure Element.IsDefinite (e : Element) : Prop where
  operation : e.tag ∉ inertTags → ∀ operation, e.Asks operation → operation ∈ Operation.definite
  text : e.tag = ValueTag.string.name → e.trimmedText ≠ unfilledText
  number : e.tag = ValueTag.float.name → Literal.float? e.trimmedText ≠ some .nan

namespace Element.IsDefinite

variable {e : Element} {tag : String} {operation : Operation}

theorem mem_definite (definite : e.IsDefinite) (tagged : e.tag = tag) (active : tag ∉ inertTags)
    (asks : e.Asks operation) : operation ∈ Operation.definite := by
  refine definite.operation ?_ operation asks
  rw [tagged]
  exact active

theorem not_asks (definite : e.IsDefinite) (tagged : e.tag = tag) (active : tag ∉ inertTags)
    (other : operation ∉ Operation.definite) : ¬e.Asks operation :=
  fun asks => other (definite.mem_definite tagged active asks)

/-- A definite element connects nothing. -/
theorem not_connected {spelled : α → Element → Prop} {and or : Nat → List α → α} {not : Nat → α → α} {filter : α}
    (definite : e.IsDefinite) (tagged : e.tag = ValueTag.logical.name) :
    ¬Connected spelled and or not filter e := by
  intro connected
  cases connected with
  | and asks => exact definite.not_asks tagged (by decide) (by decide) asks.asks
  | or asks => exact definite.not_asks tagged (by decide) (by decide) asks.asks
  | not asks => exact definite.not_asks tagged (by decide) (by decide) asks.asks

end Element.IsDefinite

namespace Comparison

variable {relation : Comparison}

/-- A definite comparison admits equality. -/
theorem relates_self (definite : relation.operation ∈ Operation.definite) (bound : Int) :
    relation.Relates bound bound := by
  cases relation with
  | equals => rfl
  | lessOrEqual | greaterOrEqual => exact le_refl bound
  | less | greater => exact absurd definite (by decide)

theorem relatesFloats_self (definite : relation.operation ∈ Operation.definite) {bound : Binary64}
    (isNumber : bound ≠ .nan) : relation.RelatesFloats bound bound := by
  have placed : ∃ position, bound.position? = some position := by
    cases bound with
    | nan => exact absurd rfl isNumber
    | infinite negative => exact ⟨_, rfl⟩
    | finite negative significand scale => exact ⟨_, rfl⟩
  obtain ⟨position, isPosition⟩ := placed
  exact ⟨position, position, isPosition, isPosition, relates_self definite position⟩

end Comparison

/-! ## Realizations -/

namespace Part

/-- Nothing in a part is still to be filled in. -/
def Filled (part : Part) : Prop := ∀ inner ∈ part.parts, inner.isUnfilled = false

theorem Filled.of_children {part : Part} (own : part.isUnfilled = false)
    (below : ∀ child ∈ part.children, child.Filled) : part.Filled := by
  intro inner within
  rw [parts_eq] at within
  rcases List.mem_cons.mp within with rfl | deeper
  · exact own
  · obtain ⟨child, member, inside⟩ := List.mem_flatMap.mp deeper
    exact below child member inner inside

theorem Filled.of_childless {part : Part} (own : part.isUnfilled = false) (childless : part.children = []) :
    part.Filled := by
  refine .of_children own fun child member => ?_
  rw [childless] at member
  exact absurd member List.not_mem_nil

/-- The members of a list are filled when what each of them stands beside makes it so. -/
theorem forall_filled_of_forall₂ {relates : α → β → Prop} {left : List α} {right : List β} {part : β → Part}
    (each : List.Forall₂ relates left right) (filled : ∀ first last, relates first last → (part last).Filled) :
    ∀ child ∈ right.map part, child.Filled := by
  intro child member
  obtain ⟨last, listed, rfl⟩ := List.mem_map.mp member
  obtain ⟨first, _, related⟩ := exists_of_forall₂_of_mem each.flip listed
  exact filled first last related

end Part

/-- A dimension has a size and satisfies the filter. -/
structure DimFilter.RealizedBy (filter : DimFilter) (dim : Dim) : Prop where
  filled : (Part.dim dim).Filled
  satisfied : filter.SatisfiedBy dim.size

/-- A type has nothing left to fill in and satisfies the filter. -/
structure TypeFilter.RealizedBy (filter : TypeFilter) (type : TypeDecl) : Prop where
  filled : (Part.type type).Filled
  satisfied : filter.SatisfiedBy type

/-- A value has nothing left to fill in and satisfies the filter, whatever tags hold. -/
structure Filter.RealizedBy (filter : Filter) (manifest : Manifest) : Prop where
  filled : (Part.value manifest).Filled
  satisfied : ∀ holds, filter.SatisfiedBy holds manifest

variable {line filledLine : Nat}

theorem getElem_of_forall₂ {relates : α → β → Prop} {left : List α} {right : List β}
    (each : List.Forall₂ relates left right) :
    ∀ position (wanted : position < left.length) (given : position < right.length),
      relates left[position] right[position] :=
  (List.forall₂_iff_get.mp each).2

theorem DimFilter.RealizedBy.size {relation : Comparison} {bound : Int} (relates : relation.Relates bound bound) :
    (DimFilter.size line relation bound).RealizedBy ⟨filledLine, .filled bound⟩ where
  filled := .of_childless rfl rfl
  satisfied := by
    rw [SatisfiedBy]
    exact ⟨bound, rfl, relates⟩

namespace TypeFilter.RealizedBy

theorem primitive {type : PrimitiveType} :
    (TypeFilter.anything line type.kind).RealizedBy (.primitive filledLine type) where
  filled := .of_childless rfl rfl
  satisfied := by
    rw [SatisfiedBy]
    rfl

theorem tensor {dims : List DimFilter} {found : List Dim} (each : List.Forall₂ DimFilter.RealizedBy dims found) :
    (TypeFilter.tensor line dims).RealizedBy (.tensor filledLine found) where
  filled := .of_children rfl (Part.forall_filled_of_forall₂ each fun _ _ realized => realized.filled)
  satisfied := by
    rw [SatisfiedBy]
    refine ⟨filledLine, found, rfl, each.length_eq, fun position wanted given => ?_⟩
    exact (getElem_of_forall₂ each position wanted given).satisfied

theorem list {item : TypeFilter} {found : TypeDecl} (realized : item.RealizedBy found) :
    (TypeFilter.list line item).RealizedBy (.list filledLine found) where
  filled := .of_children rfl fun _ member => List.mem_singleton.mp member ▸ realized.filled
  satisfied := by
    rw [SatisfiedBy]
    exact ⟨filledLine, found, rfl, realized.satisfied⟩

theorem tuple {items : List TypeFilter} {found : List TypeDecl} (each : List.Forall₂ RealizedBy items found) :
    (TypeFilter.tuple line items).RealizedBy (.tuple filledLine found) where
  filled := .of_children rfl (Part.forall_filled_of_forall₂ each fun _ _ realized => realized.filled)
  satisfied := by
    rw [SatisfiedBy]
    refine ⟨filledLine, found, rfl, each.length_eq, fun position wanted given => ?_⟩
    exact (getElem_of_forall₂ each position wanted given).satisfied

theorem namedValues {values : List (Named TypeFilter)} {found : List (Named TypeDecl)}
    (each : List.Forall₂ (fun value entry => entry.name = value.name ∧ value.value.RealizedBy entry.value) values found)
    (distinct : (values.map (·.name)).Nodup) :
    (TypeFilter.namedValues line values).RealizedBy (.namedValues filledLine found) where
  filled := .of_children rfl (Part.forall_filled_of_forall₂ each fun _ _ realized => realized.2.filled)
  satisfied := by
    rw [SatisfiedBy]
    refine ⟨filledLine, found, rfl, fun name => ⟨?_, ?_⟩, ?_⟩
    · rintro ⟨value, member, rfl⟩
      obtain ⟨entry, inside, named, _⟩ := exists_of_forall₂_of_mem each member
      exact ⟨entry, inside, named⟩
    · rintro ⟨entry, member, rfl⟩
      obtain ⟨value, inside, named, _⟩ := exists_of_forall₂_of_mem each.flip member
      exact ⟨value, inside, named.symm⟩
    · intro entry member value inside named
      obtain ⟨other, otherInside, otherNamed, realized⟩ := exists_of_forall₂_of_mem each.flip member
      have same : other = value :=
        List.inj_on_of_nodup_map distinct otherInside inside (otherNamed.symm.trans named.symm)
      exact same ▸ realized.satisfied

end TypeFilter.RealizedBy

namespace Filter.RealizedBy

theorem dict {fields : List (Named Filter)} {found : List (Named Manifest)}
    (each : List.Forall₂ (fun field entry => entry.name = field.name ∧ field.value.RealizedBy entry.value)
      fields found) : (Filter.dict line fields).RealizedBy (.dict filledLine found) where
  filled := .of_children rfl (Part.forall_filled_of_forall₂ each fun _ _ realized => realized.2.filled)
  satisfied holds := by
    rw [SatisfiedBy]
    refine ⟨filledLine, found, rfl, fun field member => ?_⟩
    obtain ⟨entry, inside, named, realized⟩ := exists_of_forall₂_of_mem each member
    exact ⟨entry, inside, named, realized.satisfied holds⟩

theorem list {items : List Filter} {found : List Manifest} (each : List.Forall₂ RealizedBy items found) :
    (Filter.list line items).RealizedBy (.list filledLine found) where
  filled := .of_children rfl (Part.forall_filled_of_forall₂ each fun _ _ realized => realized.filled)
  satisfied holds := by
    rw [SatisfiedBy]
    refine ⟨filledLine, found, rfl, each.length_eq.le, fun position wanted given => ?_⟩
    exact (getElem_of_forall₂ each position wanted given).satisfied holds

theorem string {expected : String} :
    (Filter.string line expected).RealizedBy (.string filledLine (.filled expected)) where
  filled := .of_childless rfl rfl
  satisfied holds := by
    rw [SatisfiedBy]
    exact ⟨filledLine, rfl⟩

theorem bool {expected : Bool} : (Filter.bool line expected).RealizedBy (.bool filledLine (.filled expected)) where
  filled := .of_childless rfl rfl
  satisfied holds := by
    rw [SatisfiedBy]
    exact ⟨filledLine, rfl⟩

theorem int {relation : Comparison} {bound : Int} (relates : relation.Relates bound bound) :
    (Filter.int line relation bound).RealizedBy (.int filledLine (.filled bound)) where
  filled := .of_childless rfl rfl
  satisfied holds := by
    rw [SatisfiedBy]
    exact ⟨filledLine, bound, rfl, relates⟩

theorem float {relation : Comparison} {bound : Binary64} (relates : relation.RelatesFloats bound bound) :
    (Filter.float line relation bound).RealizedBy (.float filledLine (.filled bound)) where
  filled := .of_childless rfl rfl
  satisfied holds := by
    rw [SatisfiedBy]
    exact ⟨filledLine, bound, rfl, relates⟩

theorem typeDeclaration {expected : TypeFilter} {type : TypeDecl} (realized : expected.RealizedBy type) :
    (Filter.typeDeclaration line expected).RealizedBy (.typeDeclaration filledLine type) where
  filled := .of_children rfl fun _ member => List.mem_singleton.mp member ▸ realized.filled
  satisfied holds := by
    rw [SatisfiedBy]
    exact ⟨filledLine, type, rfl, realized.satisfied⟩

theorem explicitTags {groups : List TagGroup} :
    (Filter.explicitTags line groups).RealizedBy (.tagCollection filledLine groups) where
  filled := by
    refine .of_children rfl fun child member => ?_
    obtain ⟨group, _, rfl⟩ := List.mem_map.mp member
    exact .of_childless rfl rfl
  satisfied holds := by
    rw [SatisfiedBy]
    exact ⟨filledLine, groups, rfl, fun _ member => member⟩

end Filter.RealizedBy

/-! ## Skeletons -/

theorem DimFilter.SpelledBy.realized {e : Element} {filter : DimFilter} (spelled : filter.SpelledBy e)
    (definite : e.IsDefinite) : ∃ dim : Dim, filter.RealizedBy dim ∧ dim.SpelledBy e.skeleton := by
  cases spelled with
  | anything isDim asks => exact absurd asks.asks (definite.not_asks isDim (by decide) (by decide))
  | size isDim asks =>
    have relates := Comparison.relates_self (definite.mem_definite isDim (by decide) asks.asks)
    have known := asks.known (by decide +kernel)
    exact ⟨_, .size (relates _), .dim (carries_skeleton isDim) (asks.slot_skeleton known)⟩
  | logical isLogical connected => exact absurd connected (definite.not_connected isLogical)

theorem TypeFilter.SpelledBy.realized {e : Element} {filter : TypeFilter} (spelled : filter.SpelledBy e)
    (definite : e.Throughout IsDefinite) : ∃ type : TypeDecl, filter.RealizedBy type ∧ type.SpelledBy e.skeleton := by
  have below : ∀ inner, sizeOf inner < sizeOf e → inner.Throughout IsDefinite → ∀ type : TypeFilter,
      type.SpelledBy inner → ∃ decl : TypeDecl, type.RealizedBy decl ∧ decl.SpelledBy inner.skeleton :=
    fun inner smaller definite type given => realized given definite
  cases spelled with
  | primitive tagged childless noText =>
    refine ⟨_, .primitive, .primitive (contains_skeleton tagged noText) ?_⟩
    rw [children_skeleton_eq, childless, List.map_nil]
  | @anything _ kind container tagged asks =>
    have active : ∀ kind ∈ TypeKind.containers, kind.tag.name ∉ inertTags := by decide
    exact absurd asks.asks (definite.own.not_asks tagged (active kind container) (by decide))
  | tensor tagged asks each =>
    obtain ⟨found, realized, given⟩ := children_skeleton each fun child member dim given =>
      DimFilter.SpelledBy.realized given (definite.below member).own
    exact ⟨_, .tensor realized, .tensor (contains_skeleton tagged asks.noText) given⟩
  | @list _ child _ tagged asks alone given =>
    have member := mem_children_of_alone alone
    obtain ⟨found, realized, given⟩ :=
      below child (sizeOf_lt_of_mem_children member) (definite.below member) _ given
    refine ⟨_, .list realized, .list (contains_skeleton tagged asks.noText) ?_ given⟩
    rw [children_skeleton_eq, alone, List.map_singleton]
  | tuple tagged asks each =>
    obtain ⟨found, realized, given⟩ := children_skeleton each fun child member =>
      below child (sizeOf_lt_of_mem_children member) (definite.below member)
    exact ⟨_, .tuple realized, .tuple (contains_skeleton tagged asks.noText) given⟩
  | namedValues tagged asks each distinct =>
    obtain ⟨found, realized, given⟩ := entries_skeleton each fun child member inner inside =>
      below inner (Nat.lt_trans (sizeOf_lt_of_mem_children inside) (sizeOf_lt_of_mem_children member))
        ((definite.below member).below inside)
    have sameNames := map_eq_map_of_forall₂ realized fun _ _ related => related.1.symm
    exact ⟨_, .namedValues realized distinct,
      .namedValues (contains_skeleton tagged asks.noText) given (sameNames ▸ distinct)⟩
termination_by sizeOf e

/-- The skeleton of a definite document spells a manifest that realizes the filter of the document. -/
theorem Filter.SpelledBy.realized {e : Element} {filter : Filter} (spelled : filter.SpelledBy e)
    (definite : e.Throughout IsDefinite) :
    ∃ manifest : Manifest, filter.RealizedBy manifest ∧ manifest.SpelledBy e.skeleton := by
  have below : ∀ inner, sizeOf inner < sizeOf e → inner.Throughout IsDefinite → ∀ value : Filter,
      value.SpelledBy inner → ∃ manifest : Manifest, value.RealizedBy manifest ∧ manifest.SpelledBy inner.skeleton :=
    fun inner smaller definite value given => realized given definite
  cases spelled with
  | @anything _ kind tagged asks =>
    have active : kind.tag.name ∉ inertTags := by cases kind <;> decide
    exact absurd asks.asks (definite.own.not_asks tagged active (by decide))
  | dict tagged asks each distinct =>
    obtain ⟨found, realized, given⟩ := entries_skeleton each fun child member inner inside =>
      below inner (Nat.lt_trans (Element.sizeOf_lt_of_mem_children inside) (Element.sizeOf_lt_of_mem_children member))
        ((definite.below member).below inside)
    have sameNames := map_eq_map_of_forall₂ realized fun _ _ related => related.1.symm
    exact ⟨_, .dict realized, .dict (contains_skeleton tagged asks.noText) given (sameNames ▸ distinct)⟩
  | list tagged asks each =>
    obtain ⟨found, realized, given⟩ := children_skeleton each fun child member =>
      below child (Element.sizeOf_lt_of_mem_children member) (definite.below member)
    exact ⟨_, .list realized, .list (contains_skeleton tagged asks.noText) given⟩
  | @string _ expected tagged asks =>
    have known := definite.own.text tagged
    exact ⟨_, .string, .string (carries_skeleton tagged) (asks.slot_skeleton known)⟩
  | bool tagged asks =>
    have known := asks.known (by decide +kernel)
    exact ⟨_, .bool, .bool (carries_skeleton tagged) (asks.slot_skeleton known)⟩
  | int tagged asks =>
    have relates := Comparison.relates_self (definite.own.mem_definite tagged (by decide) asks.asks)
    have known := asks.known (by decide +kernel)
    exact ⟨_, .int (relates _), .int (carries_skeleton tagged) (asks.slot_skeleton known)⟩
  | @float _ relation bound tagged asks =>
    have isNumber : bound ≠ .nan := by
      rintro rfl
      exact definite.own.number tagged asks.literal
    have relates := Comparison.relatesFloats_self (definite.own.mem_definite tagged (by decide) asks.asks) isNumber
    have known := asks.known (by decide +kernel)
    exact ⟨_, .float relates, .float (carries_skeleton tagged) (asks.slot_skeleton known)⟩
  | typeDeclaration tagged asks alone given =>
    obtain ⟨type, realized, given⟩ := given.realized (definite.below (mem_children_of_alone alone))
    refine ⟨_, .typeDeclaration realized, .typeDeclaration (contains_skeleton tagged asks.noText) ?_ given⟩
    rw [children_skeleton_eq, alone, List.map_singleton]
  | logical isLogical connected => exact absurd connected (definite.own.not_connected isLogical)
  | implicitTags tagged asks =>
    exact absurd asks.asks (definite.own.not_asks tagged (by decide) (by decide))
  | explicitTags tagged asks each =>
    refine ⟨_, .explicitTags, .tagCollection (contains_skeleton tagged asks.noText) ?_⟩
    rw [children_skeleton_eq, List.forall₂_map_right_iff]
    exact each.imp fun _ _ given => given.skeleton
termination_by sizeOf e

/-- A definite document implies no tags. -/
theorem Filter.SpelledBy.not_implies {e : Element} {filter : Filter} (spelled : filter.SpelledBy e)
    (definite : e.Throughout IsDefinite) (tag : String) : ¬filter.Implies tag := by
  rw [spelled.implies_iff]
  rintro ⟨collection, _, _, within, tagged, asks, _⟩
  exact (definite collection within).not_asks tagged (by decide) (by decide) asks

/-- The skeleton of a definite document is the document of a manifest. Nothing in it is left to fill in, and it
    matches the filter of the document in every registry. -/
theorem Registry.filter_matches_skeleton {document : Element} {filter : Filter}
    (read : Filter.ofElement document = .ok filter) (definite : document.Throughout IsDefinite) :
    ∃ manifest, Manifest.ofElement document.skeleton = .ok manifest ∧ manifest.Complete ∧
      ∀ registry : Registry, registry.matchManifest filter manifest = .ok () := by
  have spelled := Filter.ofElement_eq_ok_iff.mp read
  obtain ⟨manifest, realized, given⟩ := spelled.realized definite
  have isRead := Manifest.ofElement_eq_ok_iff.mpr given
  refine ⟨manifest, isRead, realized.filled, fun registry => ?_⟩
  -- No tag is implied, so what the resolutions find does not matter.
  have unimplied := spelled.not_implies definite
  refine (Filter.evaluate_eq_ok_iff ?_ ?_ (Manifest.distinct_of_ofElement isRead)).mpr (realized.satisfied fun _ => True)
  · exact fun tag implied => absurd implied (unimplied tag)
  · exact fun tag implied => absurd implied (unimplied tag)

/-- An element that asks for an operation. -/
def asking (tag : String) (operation : Operation) (text : Option String) (children : List Element) : Element :=
  ⟨tag, 1, [("filter", operation.name)], text, children⟩

theorem asking_definite {tag : String} {operation : Operation} {text : Option String} {children : List Element}
    (member : operation ∈ Operation.definite)
    (known : tag = ValueTag.string.name → (asking tag operation text children).trimmedText ≠ unfilledText)
    (isNumber : tag = ValueTag.float.name →
      Literal.float? (asking tag operation text children).trimmedText ≠ some .nan)
    (below : ∀ child ∈ children, child.Throughout IsDefinite) :
    (asking tag operation text children).Throughout IsDefinite := by
  have asks : (asking tag operation text children).Asks operation := rfl
  exact .of_children ⟨fun _ _ other => asks.unique other ▸ member, known, isNumber⟩ below

/-- A tensor with one dimension of three or more. -/
def describedTensor : Element := asking "type-tensor" .all none [asking "dim" .greaterOrEqual (some "3") []]

/-- A dict with one field, whose own operation nothing looks at. -/
def describedModel : Element :=
  asking "dict" .all none [⟨"named-field", 1, [("name", "layers"), ("filter", "none")], none,
    [asking "list" .all none
      [asking "string" .equals (some "conv") [], asking "float" .lessOrEqual (some "0.5") [],
        asking "type-declaration" .typeMatch none [describedTensor]]]⟩]

theorem describedModel_matches_skeleton :
    ∃ filter, Filter.ofElement describedModel = .ok filter ∧ describedModel.Throughout IsDefinite ∧
      ∃ manifest, Manifest.ofElement describedModel.skeleton = .ok manifest ∧ manifest.Complete ∧
        ∀ registry : Registry, registry.matchManifest filter manifest = .ok () := by
  have accepted : (Filter.ofElement describedModel).isOk = true := by decide +kernel
  obtain ⟨filter, read⟩ := exists_of_isOk accepted
  have nothing : ∀ child ∈ ([] : List Element), child.Throughout IsDefinite :=
    fun _ member => absurd member List.not_mem_nil
  have dim : (asking "dim" .greaterOrEqual (some "3") []).Throughout IsDefinite :=
    asking_definite (by decide) (by decide +kernel) (by decide +kernel) nothing
  have tensor : describedTensor.Throughout IsDefinite :=
    asking_definite (by decide) (by decide +kernel) (by decide +kernel) (List.forall_mem_singleton.mpr dim)
  have type : (asking "type-declaration" .typeMatch none [describedTensor]).Throughout IsDefinite :=
    asking_definite (by decide) (by decide +kernel) (by decide +kernel) (List.forall_mem_singleton.mpr tensor)
  have name : (asking "string" .equals (some "conv") []).Throughout IsDefinite :=
    asking_definite (by decide) (by decide +kernel) (by decide +kernel) nothing
  have rate : (asking "float" .lessOrEqual (some "0.5") []).Throughout IsDefinite :=
    asking_definite (by decide) (by decide +kernel) (by decide +kernel) nothing
  have definite : describedModel.Throughout IsDefinite := by
    refine asking_definite (by decide) (by decide +kernel) (by decide +kernel) (List.forall_mem_singleton.mpr ?_)
    refine .of_onlyChild ⟨fun active => absurd (by decide) active, by decide, by decide⟩ rfl ?_
    refine asking_definite (by decide) (by decide +kernel) (by decide +kernel) ?_
    exact List.forall_mem_cons.mpr ⟨name, List.forall_mem_cons.mpr ⟨rate, List.forall_mem_singleton.mpr type⟩⟩
  exact ⟨filter, read, definite, Registry.filter_matches_skeleton read definite⟩

end ModelCatalog
