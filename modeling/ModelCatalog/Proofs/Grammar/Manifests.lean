import ModelCatalog.Grammar.Manifest
import ModelCatalog.Proofs.Grammar.Containers

/-!
# The documents of manifests

The manifest grammar: which elements spell a dimension, a type and a value. There is one rule for every kind of
element, with all that the element has to keep (`Dim.SpelledBy`, `TypeDecl.SpelledBy`, `Manifest.SpelledBy`); no
rule is about a logical element, and none lets an element have an operation, the entries of containers apart. A
slot is still to be filled in exactly when its element has the text for that (`Slot.SpelledBy`). A manifest that
is read is spelled by its document, and a document that spells a manifest is read to it
(`Manifest.ofElement_eq_ok_iff`). So the documents that are accepted are those of the grammar
(`Manifest.accepts_documents`).
-/

namespace ModelCatalog

open Number (Binary64)
open Element

variable {α : Type}

/-! ## Elements of a manifest -/

namespace Element

/-- An element of a manifest has the tag of its kind and no operation. -/
structure Carries (e : Element) (tag : String) : Prop where
  tagged : e.tag = tag
  noOperation : e.hasAttribute filterAttribute = false

/-- A container of a manifest holds elements and no text. -/
structure Contains (e : Element) (tag : String) : Prop extends e.Carries tag where
  noText : e.hasText = false

end Element

/-- An element spells a slot: it holds the text for an unknown value or a literal, and nothing else. -/
inductive Slot.SpelledBy (read : String → Option α) : Slot α → Element → Prop
  | unfilled {e : Element} : e.children = [] → e.trimmedText = unfilledText → SpelledBy read .unfilled e
  | filled {e : Element} {value : α} : e.children = [] → e.trimmedText ≠ unfilledText →
      read e.trimmedText = some value → SpelledBy read (.filled value) e

theorem Element.slot_eq_ok_iff {e : Element} {illegalChild invalidLiteral : Rule} {read : String → Option α}
    {slot : Slot α} : e.slot illegalChild invalidLiteral read = .ok slot ↔ slot.SpelledBy read e := by
  rw [Element.slot, andThen_eq_ok_iff, requireNoChildren_eq_ok_iff]
  by_cases unknown : e.trimmedText = unfilledText
  · rw [if_pos unknown]
    constructor
    · rintro ⟨childless, same⟩
      cases same
      exact .unfilled childless unknown
    · intro spelled
      cases spelled with
      | unfilled childless _ => exact ⟨childless, rfl⟩
      | filled _ known _ => exact absurd unknown known
  · rw [if_neg unknown, returns_eq_ok_iff]
    simp only [literal_eq_ok_iff]
    constructor
    · rintro ⟨childless, value, isLiteral, rfl⟩
      exact .filled childless unknown isLiteral
    · intro spelled
      cases spelled with
      | unfilled _ isUnknown => exact absurd isUnknown unknown
      | filled childless _ isLiteral => exact ⟨childless, _, isLiteral, rfl⟩

/-! ## Dimensions -/

/-- An element spells a dimension. -/
inductive Dim.SpelledBy : Dim → Element → Prop
  | dim {e : Element} {size : Slot Int} : e.Carries TypeTag.dim.name → size.SpelledBy Literal.int? e →
      SpelledBy ⟨e.line, size⟩ e

theorem Dim.ofElement_eq_ok_iff {e : Element} {dim : Dim} : ofElement e = .ok dim ↔ dim.SpelledBy e := by
  rw [ofElement]
  by_cases tagged : e.tag = TypeTag.dim.name
  · rw [if_neg (not_not.mpr tagged), andThen_eq_ok_iff, requireNoOperation_eq_ok_iff, returns_eq_ok_iff]
    simp only [slot_eq_ok_iff]
    constructor
    · rintro ⟨noOperation, size, spelled, rfl⟩
      exact .dim ⟨tagged, noOperation⟩ spelled
    · intro spelled
      cases spelled with
      | dim carries spelled => exact ⟨carries.noOperation, _, spelled, rfl⟩
  · rw [if_pos tagged]
    constructor
    · intro impossible
      cases impossible
    · intro spelled
      cases spelled with
      | dim carries _ => exact absurd carries.tagged tagged

/-! ## Types -/

/-- An element spells a type. -/
inductive TypeDecl.SpelledBy : TypeDecl → Element → Prop
  | primitive {e : Element} {type : PrimitiveType} : e.Contains type.kind.tag.name → e.children = [] →
      SpelledBy (.primitive e.line type) e
  | tensor {e : Element} {dims : List Dim} : e.Contains TypeTag.tensor.name →
      List.Forall₂ Dim.SpelledBy dims e.children → SpelledBy (.tensor e.line dims) e
  | list {e child : Element} {item : TypeDecl} : e.Contains TypeTag.list.name → e.children = [child] →
      SpelledBy item child → SpelledBy (.list e.line item) e
  | tuple {e : Element} {items : List TypeDecl} : e.Contains TypeTag.tuple.name →
      List.Forall₂ SpelledBy items e.children → SpelledBy (.tuple e.line items) e
  | namedValues {e : Element} {values : List (Named TypeDecl)} : e.Contains TypeTag.namedValueCollection.name →
      List.Forall₂ (EntryRules.namedValue.SpelledBy SpelledBy) values e.children → (values.map (·.name)).Nodup →
      SpelledBy (.namedValues e.line values) e

namespace TypeDecl

/-- An element is read to a primitive type when it holds nothing. -/
theorem ofPrimitive_eq_ok_iff {e : Element} {type : PrimitiveType} {decl : TypeDecl} :
    ofPrimitive e type = .ok decl ↔ (e.children = [] ∧ e.hasText = false) ∧ .primitive e.line type = decl := by
  rw [ofPrimitive, andThen_eq_ok_iff, requirePrimitive_eq_ok_iff]
  exact and_congr_right fun _ => ⟨Except.ok.inj, congrArg Except.ok⟩

section

variable {e : Element} {type : TypeDecl}
  (below : ∀ inner, sizeOf inner < sizeOf e → ∀ type, ofElement inner = .ok type ↔ type.SpelledBy inner)

include below

/-- A type that is read is spelled, when this is so of the types below it. -/
theorem spelledBy_of_ofElement (read : ofElement e = .ok type) : type.SpelledBy e := by
  have items := fun child (member : child ∈ e.children) => below child (sizeOf_lt_of_mem_children member)
  have item := fun child : { child // child ∈ e.children } => items child.1 child.2
  have dims : ∀ child ∈ e.children, ∀ dim, Dim.ofElement child = .ok dim ↔ dim.SpelledBy child :=
    fun _ _ _ => Dim.ofElement_eq_ok_iff
  rw [ofElement] at read
  split at read
  · cases read
  next tag isTag =>
    have tagged := TypeTag.ofName?_eq_some_iff.mp isTag
    obtain ⟨own, read⟩ := andThen_eq_ok_iff.mp read
    have noOperation := requireNoOperation_eq_ok_iff.mp own
    have primitive : ∀ {primitive : PrimitiveType}, primitive.kind.tag = tag →
        ofPrimitive e primitive = .ok type → type.SpelledBy e := by
      intro primitive isPrimitive read
      obtain ⟨⟨childless, noText⟩, rfl⟩ := ofPrimitive_eq_ok_iff.mp read
      subst isPrimitive
      exact .primitive ⟨⟨tagged, noOperation⟩, noText⟩ childless
    cases tag with
    | namedValue | dim => cases read
    | string | bool | int | float => exact primitive rfl read
    | tensor =>
      obtain ⟨noText, dims, each, rfl⟩ := (elements_eq_ok_iff dims).mp read
      exact .tensor ⟨⟨tagged, noOperation⟩, noText⟩ each
    | list =>
      obtain ⟨noText, child, item, alone, spelled, rfl⟩ :=
        (only_eq_ok_iff (fun _ => itemType_eq_ok_iff) item).mp read
      exact .list ⟨⟨tagged, noOperation⟩, noText⟩ alone spelled
    | tuple =>
      obtain ⟨noText, items, each, rfl⟩ := (elements_eq_ok_iff items).mp read
      exact .tuple ⟨⟨tagged, noOperation⟩, noText⟩ each
    | namedValueCollection =>
      obtain ⟨noText, values, each, distinct, rfl⟩ := (entries_eq_ok_iff below).mp read
      exact .namedValues ⟨⟨tagged, noOperation⟩, noText⟩ each distinct

/-- A type that is spelled is read, when this is so of the types below it. -/
theorem ofElement_of_spelledBy (spelled : type.SpelledBy e) : ofElement e = .ok type := by
  have items := fun child (member : child ∈ e.children) => below child (sizeOf_lt_of_mem_children member)
  have item := fun child : { child // child ∈ e.children } => items child.1 child.2
  have dims : ∀ child ∈ e.children, ∀ dim, Dim.ofElement child = .ok dim ↔ dim.SpelledBy child :=
    fun _ _ _ => Dim.ofElement_eq_ok_iff
  have opened : ∀ {tag : TypeTag}, e.Carries tag.name →
      TypeTag.ofName? e.tag = some tag ∧ e.requireNoOperation = .ok () := fun carries =>
    ⟨TypeTag.ofName?_eq_some_iff.mpr carries.tagged, requireNoOperation_eq_ok_iff.mpr carries.noOperation⟩
  rw [ofElement]
  cases spelled with
  | @primitive _ type contains childless =>
    have read : ofPrimitive e type = .ok (.primitive e.line type) :=
      ofPrimitive_eq_ok_iff.mpr ⟨⟨childless, contains.noText⟩, rfl⟩
    rw [(opened contains.toCarries).1, (opened contains.toCarries).2]
    cases type <;> exact read
  | tensor contains each =>
    rw [(opened contains.toCarries).1, (opened contains.toCarries).2]
    exact (elements_eq_ok_iff dims).mpr ⟨contains.noText, _, each, rfl⟩
  | list contains alone spelled =>
    rw [(opened contains.toCarries).1, (opened contains.toCarries).2]
    exact (only_eq_ok_iff (fun _ => itemType_eq_ok_iff) item).mpr ⟨contains.noText, _, _, alone, spelled, rfl⟩
  | tuple contains each =>
    rw [(opened contains.toCarries).1, (opened contains.toCarries).2]
    exact (elements_eq_ok_iff items).mpr ⟨contains.noText, _, each, rfl⟩
  | namedValues contains each distinct =>
    rw [(opened contains.toCarries).1, (opened contains.toCarries).2]
    exact (entries_eq_ok_iff below).mpr ⟨contains.noText, _, each, distinct, rfl⟩

end

theorem ofElement_eq_ok_iff {e : Element} {type : TypeDecl} : ofElement e = .ok type ↔ type.SpelledBy e := by
  -- Entries stand two levels above their values, so the recursion is on the element.
  have below : ∀ inner, sizeOf inner < sizeOf e → ∀ type, ofElement inner = .ok type ↔ type.SpelledBy inner :=
    fun inner smaller type => ofElement_eq_ok_iff
  exact ⟨spelledBy_of_ofElement below, ofElement_of_spelledBy below⟩
termination_by sizeOf e

end TypeDecl

/-! ## Values -/

/-- An element spells a manifest. -/
inductive Manifest.SpelledBy : Manifest → Element → Prop
  | dict {e : Element} {fields : List (Named Manifest)} : e.Contains ValueTag.dict.name →
      List.Forall₂ (EntryRules.field.SpelledBy SpelledBy) fields e.children → (fields.map (·.name)).Nodup →
      SpelledBy (.dict e.line fields) e
  | list {e : Element} {items : List Manifest} : e.Contains ValueTag.list.name →
      List.Forall₂ SpelledBy items e.children → SpelledBy (.list e.line items) e
  | string {e : Element} {slot : Slot String} : e.Carries ValueTag.string.name →
      slot.SpelledBy Literal.string? e → SpelledBy (.string e.line slot) e
  | bool {e : Element} {slot : Slot Bool} : e.Carries ValueTag.bool.name → slot.SpelledBy Literal.bool? e →
      SpelledBy (.bool e.line slot) e
  | int {e : Element} {slot : Slot Int} : e.Carries ValueTag.int.name → slot.SpelledBy Literal.int? e →
      SpelledBy (.int e.line slot) e
  | float {e : Element} {slot : Slot Binary64} : e.Carries ValueTag.float.name → slot.SpelledBy Literal.float? e →
      SpelledBy (.float e.line slot) e
  | typeDeclaration {e child : Element} {type : TypeDecl} : e.Contains ValueTag.typeDeclaration.name →
      e.children = [child] → type.SpelledBy child → SpelledBy (.typeDeclaration e.line type) e
  | tagCollection {e : Element} {groups : List TagGroup} : e.Contains ValueTag.tagCollection.name →
      List.Forall₂ TagGroup.SpelledBy groups e.children → SpelledBy (.tagCollection e.line groups) e

namespace Manifest

section

variable {e : Element} {manifest : Manifest}
  (below : ∀ inner, sizeOf inner < sizeOf e → ∀ value, ofElement inner = .ok value ↔ value.SpelledBy inner)

include below

/-- A manifest that is read is spelled, when this is so of the values below it. -/
theorem spelledBy_of_ofElement (read : ofElement e = .ok manifest) : manifest.SpelledBy e := by
  have items := fun child (member : child ∈ e.children) => below child (sizeOf_lt_of_mem_children member)
  have type : ∀ child : { child // child ∈ e.children }, ∀ type,
      TypeDecl.ofElement child.1 = .ok type ↔ type.SpelledBy child.1 := fun _ _ => TypeDecl.ofElement_eq_ok_iff
  rw [ofElement] at read
  split at read
  · cases read
  next tag isTag =>
    have tagged := ValueTag.ofName?_eq_some_iff.mp isTag
    obtain ⟨own, read⟩ := andThen_eq_ok_iff.mp read
    have carries : e.Carries tag.name := ⟨tagged, requireNoOperation_eq_ok_iff.mp own⟩
    cases tag with
    | logical | namedField | condensedTags => cases read
    | dict =>
      obtain ⟨noText, fields, each, distinct, rfl⟩ := (entries_eq_ok_iff below).mp read
      exact .dict ⟨carries, noText⟩ each distinct
    | list =>
      obtain ⟨noText, items, each, rfl⟩ := (elements_eq_ok_iff items).mp read
      exact .list ⟨carries, noText⟩ each
    | string =>
      obtain ⟨slot, isSlot, rfl⟩ := returns_eq_ok_iff.mp read
      exact .string carries (slot_eq_ok_iff.mp isSlot)
    | bool =>
      obtain ⟨slot, isSlot, rfl⟩ := returns_eq_ok_iff.mp read
      exact .bool carries (slot_eq_ok_iff.mp isSlot)
    | int =>
      obtain ⟨slot, isSlot, rfl⟩ := returns_eq_ok_iff.mp read
      exact .int carries (slot_eq_ok_iff.mp isSlot)
    | float =>
      obtain ⟨slot, isSlot, rfl⟩ := returns_eq_ok_iff.mp read
      exact .float carries (slot_eq_ok_iff.mp isSlot)
    | typeDeclaration =>
      obtain ⟨noText, child, type, alone, spelled, rfl⟩ :=
        (only_eq_ok_iff (fun _ => declaredType_eq_ok_iff) type).mp read
      exact .typeDeclaration ⟨carries, noText⟩ alone spelled
    | tagCollection =>
      obtain ⟨groups, areGroups, rfl⟩ := returns_eq_ok_iff.mp read
      obtain ⟨noText, each⟩ := tagGroups_eq_ok_iff.mp areGroups
      exact .tagCollection ⟨carries, noText⟩ each

/-- A manifest that is spelled is read, when this is so of the values below it. -/
theorem ofElement_of_spelledBy (spelled : manifest.SpelledBy e) : ofElement e = .ok manifest := by
  have items := fun child (member : child ∈ e.children) => below child (sizeOf_lt_of_mem_children member)
  have type : ∀ child : { child // child ∈ e.children }, ∀ type,
      TypeDecl.ofElement child.1 = .ok type ↔ type.SpelledBy child.1 := fun _ _ => TypeDecl.ofElement_eq_ok_iff
  have opened : ∀ {tag : ValueTag}, e.Carries tag.name →
      ValueTag.ofName? e.tag = some tag ∧ e.requireNoOperation = .ok () := fun carries =>
    ⟨ValueTag.ofName?_eq_some_iff.mpr carries.tagged, requireNoOperation_eq_ok_iff.mpr carries.noOperation⟩
  rw [ofElement]
  cases spelled with
  | dict contains each distinct =>
    rw [(opened contains.toCarries).1, (opened contains.toCarries).2]
    exact (entries_eq_ok_iff below).mpr ⟨contains.noText, _, each, distinct, rfl⟩
  | list contains each =>
    rw [(opened contains.toCarries).1, (opened contains.toCarries).2]
    exact (elements_eq_ok_iff items).mpr ⟨contains.noText, _, each, rfl⟩
  | string carries spelled | bool carries spelled | int carries spelled | float carries spelled =>
    rw [(opened carries).1, (opened carries).2]
    exact returns_eq_ok_iff.mpr ⟨_, slot_eq_ok_iff.mpr spelled, rfl⟩
  | typeDeclaration contains alone spelled =>
    rw [(opened contains.toCarries).1, (opened contains.toCarries).2]
    exact (only_eq_ok_iff (fun _ => declaredType_eq_ok_iff) type).mpr
      ⟨contains.noText, _, _, alone, spelled, rfl⟩
  | tagCollection contains each =>
    rw [(opened contains.toCarries).1, (opened contains.toCarries).2]
    exact returns_eq_ok_iff.mpr ⟨_, tagGroups_eq_ok_iff.mpr ⟨contains.noText, each⟩, rfl⟩

end

theorem ofElement_eq_ok_iff {e : Element} {manifest : Manifest} :
    ofElement e = .ok manifest ↔ manifest.SpelledBy e := by
  have below : ∀ inner, sizeOf inner < sizeOf e → ∀ value, ofElement inner = .ok value ↔ value.SpelledBy inner :=
    fun inner smaller value => ofElement_eq_ok_iff
  exact ⟨spelledBy_of_ofElement below, ofElement_of_spelledBy below⟩
termination_by sizeOf e

end Manifest

/-- An element is the document of a manifest. -/
def Element.IsManifest (e : Element) : Prop := ∃ manifest : Manifest, manifest.SpelledBy e

/-- The documents that are accepted are those of manifests, and each is read to the manifest that it spells. -/
theorem Manifest.accepts_documents (e : Element) :
    ((ofElement e).isOk = true ↔ e.IsManifest) ∧
      ∀ manifest, ofElement e = .ok manifest ↔ manifest.SpelledBy e := by
  refine ⟨⟨fun accepted => ?_, fun ⟨manifest, spelled⟩ => ?_⟩, fun manifest => ofElement_eq_ok_iff⟩
  · obtain ⟨manifest, read⟩ := exists_of_isOk accepted
    exact ⟨manifest, ofElement_eq_ok_iff.mp read⟩
  · rw [ofElement_eq_ok_iff.mpr spelled]
    rfl

end ModelCatalog
