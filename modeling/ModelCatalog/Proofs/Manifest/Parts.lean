import ModelCatalog.Manifest

/-!
# Parts of a manifest

The values, types, dimensions and groups of tags in a manifest are its parts (`Manifest.parts`), in the
order in which their elements begin in the document. Two walks look at them. One returns the line of the
first part that is still to be filled in (`Manifest.firstUnfilled?_eq_some_iff`), and none when there is no
such part (`Manifest.firstUnfilled?_eq_none_iff`); the other one collects the tags of the groups
(`Manifest.mem_declaredTags_iff`).
-/

namespace ModelCatalog

/-- A part of a manifest. -/
inductive Part where
  | value (node : Manifest)
  | type (declared : TypeDecl)
  | dim (extent : Dim)
  | group (tags : TagGroup)

namespace Part

def line : Part → Nat
  | .value node => node.line
  | .type declared => declared.line
  | .dim extent => extent.line
  | .group tags => tags.line

/-- The parts directly below a part. -/
def children : Part → List Part
  | .value (.dict _ fields) => fields.map (.value ·.value)
  | .value (.list _ items) => items.map .value
  | .value (.typeDeclaration _ declared) => [.type declared]
  | .value (.tagCollection _ groups) => groups.map .group
  | .value (.string ..) | .value (.bool ..) | .value (.int ..) | .value (.float ..) => []
  | .type (.tensor _ dims) => dims.map .dim
  | .type (.list _ item) => [.type item]
  | .type (.tuple _ items) => items.map .type
  | .type (.namedValues _ values) => values.map (.type ·.value)
  | .type (.primitive ..) => []
  | .dim _ | .group _ => []

/-- The part has a slot, and it is still to be filled in. -/
def isUnfilled : Part → Bool
  | .value (.string _ slot) => slot.isUnfilled
  | .value (.bool _ slot) => slot.isUnfilled
  | .value (.int _ slot) => slot.isUnfilled
  | .value (.float _ slot) => slot.isUnfilled
  | .value (.dict ..) | .value (.list ..) | .value (.typeDeclaration ..) | .value (.tagCollection ..) => false
  | .dim extent => extent.size.isUnfilled
  | .type _ | .group _ => false

theorem sizeOf_lt_of_mem_children {part child : Part} (member : child ∈ part.children) :
    sizeOf child < sizeOf part := by
  cases part with
  | value node =>
    cases node with
    | dict line fields =>
      obtain ⟨field, inside, rfl⟩ := List.mem_map.mp member
      have smaller := Named.sizeOf_value_lt_of_mem inside
      simp only [value.sizeOf_spec, Manifest.dict.sizeOf_spec]
      omega
    | list line items =>
      obtain ⟨item, inside, rfl⟩ := List.mem_map.mp member
      have smaller := List.sizeOf_lt_of_mem inside
      simp only [value.sizeOf_spec, Manifest.list.sizeOf_spec]
      omega
    | typeDeclaration line declared =>
      rw [List.mem_singleton.mp member]
      simp +arith
    | tagCollection line groups =>
      obtain ⟨tags, inside, rfl⟩ := List.mem_map.mp member
      have smaller := List.sizeOf_lt_of_mem inside
      simp only [value.sizeOf_spec, group.sizeOf_spec, Manifest.tagCollection.sizeOf_spec]
      omega
    | string | bool | int | float => exact absurd member List.not_mem_nil
  | type declared =>
    cases declared with
    | tensor line dims =>
      obtain ⟨extent, inside, rfl⟩ := List.mem_map.mp member
      have smaller := List.sizeOf_lt_of_mem inside
      simp only [type.sizeOf_spec, dim.sizeOf_spec, TypeDecl.tensor.sizeOf_spec]
      omega
    | list line item =>
      rw [List.mem_singleton.mp member]
      simp +arith
    | tuple line items =>
      obtain ⟨item, inside, rfl⟩ := List.mem_map.mp member
      have smaller := List.sizeOf_lt_of_mem inside
      simp only [type.sizeOf_spec, TypeDecl.tuple.sizeOf_spec]
      omega
    | namedValues line values =>
      obtain ⟨entry, inside, rfl⟩ := List.mem_map.mp member
      have smaller := Named.sizeOf_value_lt_of_mem inside
      simp only [type.sizeOf_spec, TypeDecl.namedValues.sizeOf_spec]
      omega
    | primitive => exact absurd member List.not_mem_nil
  | dim | group => exact absurd member List.not_mem_nil

/-- What holds of a part whenever it holds of its children holds of every part. -/
theorem induction_on_children {motive : Part → Prop}
    (step : ∀ part, (∀ child ∈ part.children, motive child) → motive part) (part : Part) : motive part :=
  step part fun child _ => induction_on_children step child
termination_by part
decreasing_by exact sizeOf_lt_of_mem_children ‹_›

/-- A part and everything below it in document order. -/
def parts (part : Part) : List Part := part :: part.children.attach.flatMap fun child => child.1.parts
termination_by part
decreasing_by exact sizeOf_lt_of_mem_children child.2

theorem parts_eq (part : Part) : part.parts = part :: part.children.flatMap parts := by
  have attached : part.children.attach.flatMap (fun child => child.1.parts) = part.children.flatMap parts := by
    rw [← List.flatMap_map, List.attach_map_subtype_val]
  rw [parts, attached]

/-- A value, a type or a dimension, and not a group of tags. -/
def isNode : Part → Bool
  | .value _ | .type _ | .dim _ => true
  | .group _ => false

/-- Some node of a part is at a line. -/
def HasLine (whole : Part) (line : Nat) : Prop := ∃ part ∈ whole.parts, part.isNode = true ∧ part.line = line

theorem hasLine_line {whole : Part} (isNode : whole.isNode = true) : whole.HasLine whole.line := by
  refine ⟨whole, ?_, isNode, rfl⟩
  rw [parts_eq]
  exact List.mem_cons_self

theorem HasLine.of_child {whole child : Part} {line : Nat} (has : child.HasLine line)
    (member : child ∈ whole.children) : whole.HasLine line := by
  obtain ⟨part, inside, isLine⟩ := has
  refine ⟨part, ?_, isLine⟩
  rw [parts_eq]
  exact List.mem_cons_of_mem _ (List.mem_flatMap.mpr ⟨child, member, inside⟩)

/-! ## What is still to be filled in -/

/-- The line of the first part that is still to be filled in, as the walk over a manifest finds it. -/
def firstUnfilled? : Part → Option Nat
  | .value node => node.firstUnfilled?
  | .type declared => declared.firstUnfilled?
  | .dim extent => if extent.size.isUnfilled then some extent.line else none
  | .group _ => none

theorem findSome?_firstUnfilled?_cons (part : Part) (rest : List Part) :
    (part :: rest).findSome? firstUnfilled? = part.firstUnfilled?.or (rest.findSome? firstUnfilled?) := by
  rw [List.findSome?_cons]
  cases part.firstUnfilled? <;> rfl

/-- A walk over a list that takes the answer of the first member that has one. -/
theorem eq_findSome?_of_cons {α : Type} (walk : List α → Option Nat) (part : α → Part) (empty : walk [] = none)
    (cons : ∀ item rest, walk (item :: rest) = (part item).firstUnfilled?.or (walk rest)) (items : List α) :
    walk items = (items.map part).findSome? firstUnfilled? := by
  induction items with
  | nil => exact empty
  | cons item rest ih => rw [cons, ih, List.map_cons, findSome?_firstUnfilled?_cons]

theorem firstUnfilled?_dims_eq (dims : List Dim) :
    (dims.find? (·.size.isUnfilled)).map (·.line) = (dims.map dim).findSome? firstUnfilled? := by
  refine eq_findSome?_of_cons (fun dims => (dims.find? (·.size.isUnfilled)).map (·.line)) dim rfl ?_ dims
  intro extent rest
  rw [List.find?_cons, firstUnfilled?]
  cases extent.size.isUnfilled <;> rfl

/-- The walk looks at a part itself and then at those below it. -/
theorem firstUnfilled?_eq (part : Part) :
    part.firstUnfilled? =
      if part.isUnfilled then some part.line else part.children.findSome? firstUnfilled? := by
  cases part with
  | value node =>
    cases node with
    | dict line fields =>
      exact eq_findSome?_of_cons Manifest.firstUnfilledNamed? (value ·.value) rfl (fun _ _ => rfl) fields
    | list line items => exact eq_findSome?_of_cons Manifest.firstUnfilledIn? value rfl (fun _ _ => rfl) items
    | typeDeclaration line declared =>
      rw [children, findSome?_firstUnfilled?_cons]
      exact Option.or_none.symm
    | tagCollection line groups =>
      have nowhere : (groups.map group).findSome? firstUnfilled? = none := by
        rw [List.findSome?_eq_none_iff]
        intro part member
        obtain ⟨tags, _, rfl⟩ := List.mem_map.mp member
        rfl
      exact nowhere.symm
    | string | bool | int | float => rfl
  | type declared =>
    cases declared with
    | primitive => rfl
    | tensor line dims => exact firstUnfilled?_dims_eq dims
    | list line item =>
      rw [children, findSome?_firstUnfilled?_cons]
      exact Option.or_none.symm
    | tuple line items => exact eq_findSome?_of_cons TypeDecl.firstUnfilledIn? type rfl (fun _ _ => rfl) items
    | namedValues line values =>
      exact eq_findSome?_of_cons TypeDecl.firstUnfilledNamed? (type ·.value) rfl (fun _ _ => rfl) values
  | dim | group => rfl

theorem findSome?_firstUnfilled?_eq {children : List Part}
    (each : ∀ child ∈ children, child.firstUnfilled? = (child.parts.find? isUnfilled).map line) :
    children.findSome? firstUnfilled? = ((children.flatMap parts).find? isUnfilled).map line := by
  induction children with
  | nil => rfl
  | cons child rest ih =>
    obtain ⟨first, others⟩ := List.forall_mem_cons.mp each
    rw [findSome?_firstUnfilled?_cons, first, ih others, List.flatMap_cons, List.find?_append, Option.map_or]

/-- The walk finds the first part in document order that is still to be filled in. -/
theorem firstUnfilled?_eq_find? (part : Part) :
    part.firstUnfilled? = (part.parts.find? isUnfilled).map line := by
  induction part using induction_on_children with
  | step part ih =>
    rw [firstUnfilled?_eq, parts_eq, List.find?_cons, findSome?_firstUnfilled?_eq ih]
    cases part.isUnfilled <;> rfl

/-! ## Declared tags -/

/-- The tags that the groups in a part stand for, as the walk over a manifest collects them. -/
def declaredTags : Part → NameSet
  | .value node => node.declaredTags
  | .group tags => tags.tags
  | .type _ | .dim _ => ∅

variable {tag : String}

/-- A walk over a list that collects the tags of all members. -/
theorem mem_iff_of_cons {α : Type} (walk : List α → NameSet) (part : α → Part) (empty : walk [] = ∅)
    (cons : ∀ item rest, walk (item :: rest) = (part item).declaredTags ∪ walk rest) (items : List α) :
    tag ∈ walk items ↔ ∃ child ∈ items.map part, tag ∈ child.declaredTags := by
  induction items with
  | nil => simp [empty]
  | cons item rest ih =>
    rw [cons, NameSet.mem_union, ih]
    simp only [List.map_cons, List.mem_cons, exists_eq_or_imp]

/-- The walk collects the tags of a group and those below every other part. -/
theorem mem_declaredTags_iff_children {part : Part} :
    tag ∈ part.declaredTags ↔
      (∃ expression, part = .group expression ∧ tag ∈ expression.tags) ∨
        ∃ child ∈ part.children, tag ∈ child.declaredTags := by
  cases part with
  | value node =>
    cases node with
    | dict line fields =>
      have walk : tag ∈ Manifest.entryDeclaredTags fields ↔ _ :=
        mem_iff_of_cons Manifest.entryDeclaredTags (value ·.value) rfl (fun _ _ => rfl) fields
      simp [declaredTags, children, Manifest.declaredTags, walk]
    | list line items =>
      have walk : tag ∈ Manifest.listDeclaredTags items ↔ _ :=
        mem_iff_of_cons Manifest.listDeclaredTags value rfl (fun _ _ => rfl) items
      simp [declaredTags, children, Manifest.declaredTags, walk]
    | tagCollection line groups =>
      have below : (∃ child ∈ groups.map group, tag ∈ child.declaredTags) ↔
          ∃ expression ∈ groups, tag ∈ expression.tags := by
        constructor
        · rintro ⟨child, member, inside⟩
          obtain ⟨expression, listed, rfl⟩ := List.mem_map.mp member
          exact ⟨expression, listed, inside⟩
        · rintro ⟨expression, listed, inside⟩
          exact ⟨.group expression, List.mem_map_of_mem listed, inside⟩
      rw [declaredTags, Manifest.declaredTags, mem_unionTags, children, below]
      simp
    | typeDeclaration | string | bool | int | float => simp [declaredTags, children, Manifest.declaredTags]
  | type declared => cases declared <;> simp [declaredTags, children]
  | dim extent => simp [declaredTags, children]
  | group expression => simp [declaredTags, children]

/-- The walk collects the tags of all groups. -/
theorem mem_declaredTags_iff {part : Part} :
    tag ∈ part.declaredTags ↔ ∃ expression, .group expression ∈ part.parts ∧ tag ∈ expression.tags := by
  induction part using induction_on_children with
  | step part ih =>
    rw [mem_declaredTags_iff_children, parts_eq]
    constructor
    · rintro (⟨expression, rfl, inside⟩ | ⟨child, member, inside⟩)
      · exact ⟨expression, List.mem_cons_self, inside⟩
      · obtain ⟨expression, below, declared⟩ := (ih child member).mp inside
        exact ⟨expression, List.mem_cons_of_mem _ (List.mem_flatMap.mpr ⟨child, member, below⟩), declared⟩
    · rintro ⟨expression, within, declared⟩
      rcases List.mem_cons.mp within with same | below
      · exact .inl ⟨expression, same.symm, declared⟩
      · obtain ⟨child, member, inside⟩ := List.mem_flatMap.mp below
        exact .inr ⟨child, member, (ih child member).mpr ⟨expression, inside, declared⟩⟩

end Part

namespace Manifest

variable {manifest : Manifest} {line : Nat} {tag : String}

/-- The parts of a manifest in document order. -/
def parts (manifest : Manifest) : List Part := Part.parts (.value manifest)

/-- No part is still to be filled in. -/
def Complete (manifest : Manifest) : Prop := ∀ part ∈ manifest.parts, part.isUnfilled = false

/-- The first part in document order that is still to be filled in is at a line. -/
def UnfilledFrom (manifest : Manifest) (line : Nat) : Prop :=
  ∃ before part after, manifest.parts = before ++ part :: after ∧
    (∀ earlier ∈ before, earlier.isUnfilled = false) ∧ part.isUnfilled = true ∧ part.line = line

/-- A group of tags in the manifest stands for a tag. -/
def Declares (manifest : Manifest) (tag : String) : Prop :=
  ∃ expression, .group expression ∈ manifest.parts ∧ tag ∈ expression.tags

theorem firstUnfilled?_eq_none_iff : manifest.firstUnfilled? = none ↔ manifest.Complete := by
  have walk : manifest.firstUnfilled? = (manifest.parts.find? Part.isUnfilled).map Part.line :=
    Part.firstUnfilled?_eq_find? (.value manifest)
  rw [walk, Option.map_eq_none_iff, List.find?_eq_none]
  simp only [Bool.not_eq_true]
  rfl

theorem firstUnfilled?_eq_some_iff : manifest.firstUnfilled? = some line ↔ manifest.UnfilledFrom line := by
  have walk : manifest.firstUnfilled? = (manifest.parts.find? Part.isUnfilled).map Part.line :=
    Part.firstUnfilled?_eq_find? (.value manifest)
  rw [walk, Option.map_eq_some_iff]
  constructor
  · rintro ⟨part, found, isLine⟩
    obtain ⟨unfilled, before, after, split, filled⟩ := List.find?_eq_some_iff_append.mp found
    refine ⟨before, part, after, split, fun earlier member => ?_, unfilled, isLine⟩
    exact Bool.not_eq_true' _ ▸ filled earlier member
  · rintro ⟨before, part, after, split, filled, unfilled, isLine⟩
    refine ⟨part, List.find?_eq_some_iff_append.mpr ⟨unfilled, before, after, split, ?_⟩, isLine⟩
    intro earlier member
    rw [filled earlier member]
    rfl

theorem mem_declaredTags_iff : tag ∈ manifest.declaredTags ↔ manifest.Declares tag := by
  have walk : tag ∈ manifest.declaredTags ↔ tag ∈ (Part.value manifest).declaredTags := Iff.rfl
  rw [walk, Part.mem_declaredTags_iff]
  rfl

end Manifest

end ModelCatalog
