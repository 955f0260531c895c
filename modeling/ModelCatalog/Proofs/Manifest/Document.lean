import ModelCatalog.Proofs.Grammar.Manifests
import ModelCatalog.Proofs.Manifest.Operations
import ModelCatalog.Proofs.Manifest.Parts

/-!
# A manifest beside its document

The parts of a manifest, in their order, are spelled by the elements of its document, in document order, the
entries of containers left out (`Part.SpelledBy.parts`). So what is asked of a manifest can be read off its
document by a walk over all elements: which value is the first one still to be filled in, and which tags are
declared (`Manifest.queries_agree_with_document`).
-/

namespace ModelCatalog

open Element

/-! ## Elements in document order -/

namespace Element

/-- An element and everything below it in document order. -/
def elements (e : Element) : List Element := e :: e.children.attach.flatMap fun child => child.1.elements
termination_by sizeOf e
decreasing_by exact sizeOf_lt_of_mem_children child.2

theorem elements_eq (e : Element) : e.elements = e :: e.children.flatMap elements := by
  have attached : e.children.attach.flatMap (fun child => child.1.elements) = e.children.flatMap elements := by
    rw [← List.flatMap_map, List.attach_map_subtype_val]
  rw [elements, attached]

/-- The elements in a tree are those that stand somewhere in it. -/
theorem mem_elements_iff {part root : Element} : part ∈ root.elements ↔ part.IsWithin root := by
  constructor
  · intro listed
    rw [elements_eq, List.mem_cons] at listed
    rcases listed with rfl | below
    · exact .whole
    · obtain ⟨child, member, inside⟩ := List.mem_flatMap.mp below
      have smaller := sizeOf_lt_of_mem_children member
      exact .inside member (mem_elements_iff.mp inside)
  · intro within
    induction within with
    | whole =>
      rw [elements_eq]
      exact List.mem_cons_self
    | inside member _ ih =>
      rw [elements_eq]
      exact List.mem_cons_of_mem _ (List.mem_flatMap.mpr ⟨_, member, ih⟩)
termination_by sizeOf root

instance (e : Element) : Decidable e.IsEntry := inferInstanceAs (Decidable (_ ∨ _))

/-- The elements in document order without the entries of containers. -/
def nodes (e : Element) : List Element := e.elements.filter fun part => !decide part.IsEntry

/-- An element that is no entry comes before the nodes below it. -/
theorem nodes_eq {e : Element} (isNode : ¬e.IsEntry) : e.nodes = e :: e.children.flatMap nodes := by
  rw [nodes, elements_eq, List.filter_cons_of_pos (by simpa using isNode), List.filter_flatMap]
  rfl

/-- An entry with one child has the nodes of that child. -/
theorem nodes_of_entry {entry value : Element} (isEntry : entry.IsEntry) (alone : entry.children = [value]) :
    entry.nodes = value.nodes := by
  rw [nodes, elements_eq, List.filter_cons_of_neg (by simpa using isEntry), alone, List.flatMap_singleton]
  rfl

end Element

/-! ## Parts beside elements -/

/-- An element spells a part of a manifest. -/
inductive Part.SpelledBy : Part → Element → Prop
  | value {node : Manifest} {e : Element} : node.SpelledBy e → SpelledBy (.value node) e
  | type {declared : TypeDecl} {e : Element} : declared.SpelledBy e → SpelledBy (.type declared) e
  | dim {extent : Dim} {e : Element} : extent.SpelledBy e → SpelledBy (.dim extent) e
  | group {tags : TagGroup} {e : Element} : tags.SpelledBy e → SpelledBy (.group tags) e

/-- The tag of an element that spells a part. -/
def Part.tag : Part → String
  | .value node => node.kind.tag.name
  | .type declared => declared.kind.tag.name
  | .dim _ => TypeTag.dim.name
  | .group _ => ValueTag.condensedTags.name

namespace Part

variable {part : Part} {e : Element}

theorem SpelledBy.tag_eq (spelled : part.SpelledBy e) : e.tag = part.tag := by
  cases spelled with
  | value given =>
    cases given with
    | dict contains | list contains | typeDeclaration contains | tagCollection contains => exact contains.tagged
    | string carries | bool carries | int carries | float carries => exact carries.tagged
  | type given =>
    cases given with
    | primitive contains | tensor contains | list contains | tuple contains | namedValues contains =>
      exact contains.tagged
  | dim given =>
    cases given with
    | dim carries => exact carries.tagged
  | group given => exact given.tag

theorem SpelledBy.line_eq (spelled : part.SpelledBy e) : part.line = e.line := by
  cases spelled with
  | value given => cases given <;> rfl
  | type given => cases given <;> rfl
  | dim given => cases given; rfl
  | group given => exact given.line

/-- No part is spelled by an entry. -/
theorem SpelledBy.not_isEntry (spelled : part.SpelledBy e) : ¬e.IsEntry := by
  rw [IsEntry, spelled.tag_eq]
  cases part with
  | value node =>
    rw [tag]
    cases node.kind <;> decide
  | type declared =>
    rw [tag]
    cases declared.kind <;> decide
  | dim | group =>
    rw [tag]
    decide

/-- Parts that are spelled one by one, with all below each of them, are so one after the other. -/
theorem parts_of_forall₂ {α : Type} {make : α → Part} {spelled : α → Element → Prop} {items : List α}
    {elements : List Element} (each : List.Forall₂ spelled items elements)
    (below : ∀ item ∈ items, ∀ e, spelled item e → List.Forall₂ SpelledBy (make item).parts e.nodes) :
    List.Forall₂ SpelledBy ((items.map make).flatMap parts) (elements.flatMap nodes) := by
  induction each with
  | nil => exact .nil
  | cons given _ ih =>
    obtain ⟨first, others⟩ := List.forall_mem_cons.mp below
    rw [List.map_cons, List.flatMap_cons, List.flatMap_cons]
    exact List.rel_append (first _ given) (ih others)

/-- The same for the values in entries. -/
theorem parts_of_entries {α : Type} {make : α → Part} {spelled : α → Element → Prop} {rules : EntryRules}
    {entries : List (Named α)} {elements : List Element}
    (isEntry : rules.tag = EntryRules.field.tag ∨ rules.tag = EntryRules.namedValue.tag)
    (each : List.Forall₂ (rules.SpelledBy spelled) entries elements)
    (below : ∀ entry ∈ entries, ∀ e, spelled entry.value e →
      List.Forall₂ SpelledBy (make entry.value).parts e.nodes) :
    List.Forall₂ SpelledBy ((entries.map (make ·.value)).flatMap parts) (elements.flatMap nodes) := by
  refine parts_of_forall₂ each fun entry listed e given => ?_
  cases given with
  | entry tagged _ _ alone given =>
    have isEntry : e.IsEntry := by
      rw [IsEntry, tagged]
      exact isEntry
    rw [nodes_of_entry isEntry alone]
    exact below _ listed _ given

/-- The parts below a part are spelled by the nodes below its element, when each child is spelled with all below
    it. -/
theorem SpelledBy.below (spelled : part.SpelledBy e)
    (below : ∀ child ∈ part.children, ∀ inner, child.SpelledBy inner →
      List.Forall₂ SpelledBy child.parts inner.nodes) :
    List.Forall₂ SpelledBy (part.children.flatMap parts) (e.children.flatMap nodes) := by
  have childless : e.children = [] → List.Forall₂ SpelledBy [] (e.children.flatMap nodes) := by
    intro none
    rw [none]
    exact .nil
  cases spelled with
  | value given =>
    cases given with
    | dict _ each _ =>
      exact parts_of_entries (.inl rfl) each fun field listed inner given =>
        below _ (List.mem_map_of_mem listed) inner (.value given)
    | list _ each =>
      exact parts_of_forall₂ each fun item listed inner given =>
        below _ (List.mem_map_of_mem listed) inner (.value given)
    | typeDeclaration _ alone given =>
      rw [alone, children, List.flatMap_singleton, List.flatMap_singleton]
      exact below _ (List.mem_singleton_self _) _ (.type given)
    | tagCollection _ each =>
      exact parts_of_forall₂ each fun tags listed inner given =>
        below _ (List.mem_map_of_mem listed) inner (.group given)
    | string _ slot | bool _ slot | int _ slot | float _ slot => cases slot <;> exact childless ‹_›
  | type given =>
    cases given with
    | primitive _ none => exact childless none
    | tensor _ each =>
      exact parts_of_forall₂ each fun extent listed inner given =>
        below _ (List.mem_map_of_mem listed) inner (.dim given)
    | list _ alone given =>
      rw [alone, children, List.flatMap_singleton, List.flatMap_singleton]
      exact below _ (List.mem_singleton_self _) _ (.type given)
    | tuple _ each =>
      exact parts_of_forall₂ each fun item listed inner given =>
        below _ (List.mem_map_of_mem listed) inner (.type given)
    | namedValues _ each _ =>
      exact parts_of_entries (.inr rfl) each fun value listed inner given =>
        below _ (List.mem_map_of_mem listed) inner (.type given)
  | dim given =>
    cases given with
    | dim _ slot => cases slot <;> exact childless ‹_›
  | group given => exact childless given.childless

/-- The parts of a part are spelled by the nodes of its element, in the same order. -/
theorem SpelledBy.parts (spelled : part.SpelledBy e) : List.Forall₂ SpelledBy part.parts e.nodes := by
  induction part using induction_on_children generalizing e with
  | step part ih =>
    rw [parts_eq, nodes_eq spelled.not_isEntry]
    exact .cons spelled (spelled.below fun child member inner given => ih child member given)

end Part

/-! ## What is still to be filled in -/

/-- The tags of the elements that hold a value. -/
def Element.slotTags : List String :=
  [ValueTag.string.name, ValueTag.bool.name, ValueTag.int.name, ValueTag.float.name, TypeTag.dim.name]

/-- An element holds the text for an unknown value in the place of a value. -/
def Element.awaitsValue (e : Element) : Bool := slotTags.contains e.tag && e.trimmedText == unfilledText

/-- An entry holds no value itself. -/
theorem Element.awaitsValue_of_isEntry {e : Element} (isEntry : e.IsEntry) : e.awaitsValue = false := by
  rw [awaitsValue]
  rcases isEntry with tagged | tagged <;> rw [tagged] <;> rfl

/-- The first node that awaits a value is the first element that does. -/
theorem Element.find?_nodes (e : Element) : e.nodes.find? awaitsValue = e.elements.find? awaitsValue := by
  rw [nodes, List.find?_filter]
  congr 1
  funext part
  by_cases isEntry : part.IsEntry
  · simp [awaitsValue_of_isEntry isEntry]
  · simp [isEntry]

/-- A slot is still to be filled in when its element holds the text for an unknown value. -/
theorem Slot.SpelledBy.isUnfilled_eq {α : Type} {read : String → Option α} {slot : Slot α} {e : Element}
    (spelled : slot.SpelledBy read e) : slot.isUnfilled = (e.trimmedText == unfilledText) := by
  cases spelled with
  | unfilled _ unknown => simp [Slot.isUnfilled, unknown]
  | filled _ known _ => simp [Slot.isUnfilled, known]

/-- A part is still to be filled in when its element awaits a value. -/
theorem Part.SpelledBy.isUnfilled_eq {part : Part} {e : Element} (spelled : part.SpelledBy e) :
    part.isUnfilled = e.awaitsValue := by
  have tagged := spelled.tag_eq
  rw [awaitsValue, tagged]
  cases spelled with
  | value given =>
    cases given with
    | dict | list | typeDeclaration | tagCollection => rfl
    | string _ slot | bool _ slot | int _ slot | float _ slot => exact slot.isUnfilled_eq
  | type given =>
    cases given with
    | @primitive _ type => cases type <;> rfl
    | tensor | list | tuple | namedValues => rfl
  | dim given =>
    cases given with
    | dim _ slot => exact slot.isUnfilled_eq
  | group => rfl

/-- Searches through lists side by side find members that stand side by side. -/
theorem map_find?_eq_of_forall₂ {α β γ : Type} {relates : α → β → Prop} {left : List α} {right : List β}
    {leftTest : α → Bool} {rightTest : β → Bool} {leftView : α → γ} {rightView : β → γ}
    (each : List.Forall₂ relates left right)
    (same : ∀ first second, relates first second →
      leftTest first = rightTest second ∧ leftView first = rightView second) :
    (left.find? leftTest).map leftView = (right.find? rightTest).map rightView := by
  induction each with
  | nil => rfl
  | cons related _ ih =>
    obtain ⟨sameTest, sameView⟩ := same _ _ related
    rw [List.find?_cons, List.find?_cons, sameTest]
    split
    · exact congrArg some sameView
    · exact ih

/-! ## Declared tags -/

/-- A document declares a tag: one of its condensed tag expressions stands for it. -/
def Element.DeclaresTag (document : Element) (tag : String) : Prop :=
  ∃ (expression : Element) (tags : NameSet), expression.IsWithin document ∧
    expression.tag = ValueTag.condensedTags.name ∧ Condensed.parse (expression.text.getD "") = .ok tags ∧ tag ∈ tags

namespace Part

variable {part : Part} {e : Element}

/-- A condensed tag expression spells a group and no other part. -/
theorem SpelledBy.exists_group (spelled : part.SpelledBy e) (tagged : e.tag = ValueTag.condensedTags.name) :
    ∃ tags, part = .group tags ∧ tags.SpelledBy e := by
  have sameTag := spelled.tag_eq.symm.trans tagged
  cases spelled with
  | @value node =>
    rw [tag] at sameTag
    cases kind : node.kind <;> rw [kind] at sameTag <;> exact absurd sameTag (by decide)
  | @type declared =>
    rw [tag] at sameTag
    cases kind : declared.kind <;> rw [kind] at sameTag <;> exact absurd sameTag (by decide)
  | dim =>
    rw [tag] at sameTag
    exact absurd sameTag (by decide)
  | @group tags _ given => exact ⟨tags, rfl, given⟩

/-- Every condensed tag expression in a document spells a group of the manifest. -/
theorem SpelledBy.exists_group_of_isWithin (spelled : part.SpelledBy e) {expression : Element}
    (within : expression.IsWithin e) (tagged : expression.tag = ValueTag.condensedTags.name) :
    ∃ tags, .group tags ∈ part.parts ∧ tags.SpelledBy expression := by
  have notEntry : ¬expression.IsEntry := by
    rw [IsEntry, tagged]
    decide
  have isNode : expression ∈ e.nodes :=
    List.mem_filter.mpr ⟨mem_elements_iff.mpr within, by simpa using notEntry⟩
  obtain ⟨found, listed, spells⟩ := exists_of_forall₂_of_mem spelled.parts.flip isNode
  obtain ⟨tags, rfl, given⟩ := SpelledBy.exists_group spells tagged
  exact ⟨tags, listed, given⟩

/-- Every group of a manifest is spelled by a condensed tag expression in its document. -/
theorem SpelledBy.exists_expression (spelled : part.SpelledBy e) {tags : TagGroup}
    (listed : .group tags ∈ part.parts) : ∃ expression : Element, expression.IsWithin e ∧ tags.SpelledBy expression := by
  obtain ⟨expression, isNode, given⟩ := exists_of_forall₂_of_mem spelled.parts listed
  cases given with
  | group given => exact ⟨expression, mem_elements_iff.mp (List.mem_filter.mp isNode).1, given⟩

end Part

namespace Manifest

variable {document : Element} {manifest : Manifest}

theorem SpelledBy.firstUnfilled?_eq (spelled : manifest.SpelledBy document) :
    manifest.firstUnfilled? = (document.elements.find? awaitsValue).map (·.line) := by
  have walk : manifest.firstUnfilled? = (manifest.parts.find? Part.isUnfilled).map Part.line :=
    Part.firstUnfilled?_eq_find? (.value manifest)
  rw [walk, ← find?_nodes]
  exact map_find?_eq_of_forall₂ (Part.SpelledBy.value spelled).parts fun part e given =>
    ⟨given.isUnfilled_eq, given.line_eq⟩

theorem SpelledBy.mem_declaredTags_iff (spelled : manifest.SpelledBy document) {tag : String} :
    tag ∈ manifest.declaredTags ↔ document.DeclaresTag tag := by
  rw [Manifest.mem_declaredTags_iff]
  constructor
  · rintro ⟨group, listed, member⟩
    obtain ⟨expression, within, given⟩ := (Part.SpelledBy.value spelled).exists_expression listed
    exact ⟨expression, group.tags, within, given.tag, given.parse_text, member⟩
  · rintro ⟨expression, tags, within, tagged, parsed, member⟩
    obtain ⟨group, listed, given⟩ := (Part.SpelledBy.value spelled).exists_group_of_isWithin within tagged
    have sameTags : group.tags = tags := Except.ok.inj (given.parse_text.symm.trans parsed)
    exact ⟨group, listed, sameTags ▸ member⟩

/-- What is asked of a manifest can be read off its document. The first value still to be filled in is at the line
    of the first element in document order that awaits a value; there is none when no element does. Every
    condensed tag expression in the document can be read, and the declared tags are those of all of them. -/
theorem queries_agree_with_document (read : Manifest.ofElement document = .ok manifest) :
    manifest.firstUnfilled? = (document.elements.find? awaitsValue).map (·.line) ∧
      (∀ expression : Element, expression.IsWithin document → expression.tag = ValueTag.condensedTags.name →
        ∃ tags, Condensed.parse (expression.text.getD "") = .ok tags) ∧
      ∀ tag, tag ∈ manifest.declaredTags ↔ document.DeclaresTag tag := by
  have spelled := Manifest.ofElement_eq_ok_iff.mp read
  refine ⟨spelled.firstUnfilled?_eq, ?_, fun tag => spelled.mem_declaredTags_iff⟩
  intro expression within tagged
  obtain ⟨group, _, given⟩ := (Part.SpelledBy.value spelled).exists_group_of_isWithin within tagged
  exact ⟨group.tags, given.parse_text⟩

/-- A document with an unknown dimension, an unknown title behind it, and tags in a list. -/
def halfFilledDict : Element :=
  ⟨"dict", 1, [], none, [
    ⟨"named-field", 2, [("name", "input")], none, [⟨"type-declaration", 2, [], none,
      [⟨"type-tensor", 3, [], none, [⟨"dim", 3, [], some "224", []⟩, ⟨"dim", 4, [], some " unfilled ", []⟩]⟩]⟩]⟩,
    ⟨"named-field", 5, [("name", "title")], none, [⟨"string", 5, [], some "unfilled", []⟩]⟩,
    ⟨"named-field", 6, [("name", "uses")], none, [⟨"list", 6, [], none, [⟨"tag-collection", 7, [], none,
      [⟨"condensed-tags", 7, [], some "vision.cnn", []⟩, ⟨"condensed-tags", 8, [], some "text", []⟩]⟩]⟩]⟩]⟩

/-- The dimension is the first value to be filled in, and both expressions count. -/
theorem halfFilledDict_queries_agree_with_document :
    ∃ manifest, ofElement halfFilledDict = .ok manifest ∧ manifest.firstUnfilled? = some 4 ∧
      manifest.declaredTags.toList = ["text", "vision", "vision::cnn"] ∧
      ∀ tag, tag ∈ manifest.declaredTags ↔ halfFilledDict.DeclaresTag tag := by
  have accepted : (ofElement halfFilledDict).isOk = true := by decide +kernel
  obtain ⟨manifest, read⟩ := exists_of_isOk accepted
  obtain ⟨unfilled, _, declared⟩ := queries_agree_with_document read
  have found : (halfFilledDict.elements.find? awaitsValue).map (·.line) = some 4 := by decide +kernel
  have listed : (match ofElement halfFilledDict with
      | .ok manifest => manifest.declaredTags.toList
      | .error _ => []) = ["text", "vision", "vision::cnn"] := by decide +kernel
  rw [read] at listed
  exact ⟨manifest, read, unfilled.trans found, listed, declared⟩

end Manifest

end ModelCatalog
