import ModelCatalog.Grammar.Manifest
import ModelCatalog.Proofs.Grammar.Within

/-!
# Operations in manifests

A manifest carries values and no operations: every value, every type, every dimension and every tag
expression that is read is refused when it has an operation. The entries of dicts and of collections of
named values are the exception, for nothing looks at their operation. So in a tree that is read as a
manifest an operation can stand on an entry only (`Manifest.isEntry_of_hasOperation`), and there it is
accepted (`operatingDict_read_with_operation`).
-/

namespace ModelCatalog

namespace Element

/-- An entry of a dict or of a collection of named values. -/
def IsEntry (e : Element) : Prop := e.tag = EntryRules.field.tag ∨ e.tag = EntryRules.namedValue.tag

/-- The element has an operation. -/
def HasOperation (e : Element) : Prop := e.hasAttribute filterAttribute = true

/-- In a tree, no element has an operation unless it is an entry. -/
def OnlyEntriesOperate (root : Element) : Prop :=
  ∀ e : Element, e.IsWithin root → e.HasOperation → e.IsEntry

variable {e : Element}

theorem not_hasOperation_of_requireNoOperation (checked : e.requireNoOperation = .ok ()) :
    ¬e.HasOperation :=
  Bool.eq_false_iff.mp (requireNoOperation_eq_ok_iff.mp checked)

/-- A tree without such an operation at the root nor in a tree below it. -/
theorem OnlyEntriesOperate.of_children (own : e.HasOperation → e.IsEntry)
    (below : ∀ child ∈ e.children, child.OnlyEntriesOperate) : e.OnlyEntriesOperate :=
  Throughout.of_children own below

/-- The same for an element without children. -/
theorem OnlyEntriesOperate.of_childless (own : ¬e.HasOperation) (childless : e.children = []) :
    e.OnlyEntriesOperate :=
  Throughout.of_childless (fun operates => absurd operates own) childless

/-- The same for an element with one child. -/
theorem OnlyEntriesOperate.of_onlyChild {child : Element} (own : e.HasOperation → e.IsEntry)
    (alone : e.children = [child]) (below : child.OnlyEntriesOperate) : e.OnlyEntriesOperate :=
  Throughout.of_onlyChild own alone below

/-- The same for a container whose named entries were read. -/
theorem OnlyEntriesOperate.of_entries {α : Type} {rules : EntryRules} {spelled : α → Element → Prop}
    {results : List (Named α)} (own : ¬e.HasOperation)
    (entryTag : rules.tag = EntryRules.field.tag ∨ rules.tag = EntryRules.namedValue.tag)
    (entries : List.Forall₂ (rules.SpelledBy spelled) results e.children)
    (below : ∀ result value, spelled result value → value.OnlyEntriesOperate) : e.OnlyEntriesOperate := by
  refine Throughout.of_entries (fun operates => absurd operates own) entries (fun part tagged _ => ?_) ?_
  · rw [IsEntry, tagged]
    exact entryTag
  · exact fun inner _ result _ given => below result.value inner given

/-! ## Parts of a manifest -/

theorem children_of_slot {α : Type} {illegalChild invalidLiteral : Rule} {read : String → Option α}
    {slot : Slot α} (done : e.slot illegalChild invalidLiteral read = .ok slot) : e.children = [] :=
  requireNoChildren_eq_ok_iff.mp (andThen_eq_ok_iff.mp done).1

theorem onlyEntriesOperate_of_slot {α : Type} {illegalChild invalidLiteral : Rule}
    {read : String → Option α} {slot : Slot α} (own : ¬e.HasOperation)
    (done : e.slot illegalChild invalidLiteral read = .ok slot) : e.OnlyEntriesOperate :=
  .of_childless own (children_of_slot done)

theorem onlyEntriesOperate_of_tagGroup {group : TagGroup} (read : e.tagGroup = .ok group) :
    e.OnlyEntriesOperate := by
  rw [tagGroup] at read
  split at read
  · cases read
  next absent =>
    exact .of_childless absent (requireNoChildren_eq_ok_iff.mp (andThen_eq_ok_iff.mp read).1)

theorem onlyEntriesOperate_of_tagGroups {groups : List TagGroup} (own : ¬e.HasOperation)
    (read : e.tagGroups = .ok groups) : e.OnlyEntriesOperate := by
  obtain ⟨_, read⟩ := andThen_eq_ok_iff.mp read
  refine .of_children (fun operates => absurd operates own) fun child member => ?_
  obtain ⟨group, isGroup⟩ := forall_ok_of_mapM read child member
  split at isGroup
  · cases isGroup
  · exact onlyEntriesOperate_of_tagGroup isGroup

theorem onlyEntriesOperate_of_dim {dim : Dim} (read : Dim.ofElement e = .ok dim) : e.OnlyEntriesOperate := by
  rw [Dim.ofElement] at read
  split at read
  · cases read
  · obtain ⟨own, read⟩ := andThen_eq_ok_iff.mp read
    obtain ⟨size, isSize, _⟩ := bind_eq_ok_iff.mp read
    exact onlyEntriesOperate_of_slot (not_hasOperation_of_requireNoOperation own) isSize

end Element

open Element

theorem TypeDecl.onlyEntriesOperate {e : Element} {type : TypeDecl}
    (read : TypeDecl.ofElement e = .ok type) : e.OnlyEntriesOperate := by
  rw [ofElement] at read
  split at read
  · cases read
  next tag _ =>
    obtain ⟨checked, read⟩ := andThen_eq_ok_iff.mp read
    have own := not_hasOperation_of_requireNoOperation checked
    cases tag with
    | namedValue | dim => cases read
    | string | bool | int | float =>
      exact .of_childless own (requirePrimitive_eq_ok_iff.mp (andThen_eq_ok_iff.mp read).1).1
    | tensor =>
      obtain ⟨_, read⟩ := andThen_eq_ok_iff.mp read
      obtain ⟨dims, areDims, _⟩ := bind_eq_ok_iff.mp read
      refine .of_children (fun operates => absurd operates own) fun child member => ?_
      obtain ⟨dim, _, _, isDim⟩ := exists_of_forall₂_of_mem (forall₂_of_checkChildren areDims).flip member
      exact onlyEntriesOperate_of_dim isDim
    | list =>
      obtain ⟨item, isItem, read⟩ := bind_eq_ok_iff.mp read
      obtain ⟨itemType, isType, _⟩ := bind_eq_ok_iff.mp read
      exact .of_onlyChild (fun operates => absurd operates own) (itemType_eq_ok_iff.mp isItem).1
        (onlyEntriesOperate isType)
    | tuple =>
      obtain ⟨_, read⟩ := andThen_eq_ok_iff.mp read
      obtain ⟨items, areItems, _⟩ := bind_eq_ok_iff.mp read
      refine .of_children (fun operates => absurd operates own) fun child member => ?_
      obtain ⟨item, _, _, isItem⟩ := exists_of_forall₂_of_mem (forall₂_of_checkChildren areItems).flip member
      exact onlyEntriesOperate isItem
    | namedValueCollection =>
      obtain ⟨values, areValues, _⟩ := bind_eq_ok_iff.mp read
      refine .of_entries own (.inr rfl) (forall₂_of_checkNamed areValues).1 fun result value given => ?_
      obtain ⟨smaller, isValue⟩ := given
      exact onlyEntriesOperate isValue
termination_by sizeOf e
decreasing_by
  · exact Element.sizeOf_lt_of_mem_children item.2
  · exact Element.sizeOf_lt_of_mem_children member
  · exact smaller

/-- In a tree that is read as a manifest, only entries have operations. -/
theorem Manifest.onlyEntriesOperate {e : Element} {manifest : Manifest}
    (read : Manifest.ofElement e = .ok manifest) : e.OnlyEntriesOperate := by
  rw [ofElement] at read
  split at read
  · cases read
  next tag _ =>
    obtain ⟨checked, read⟩ := andThen_eq_ok_iff.mp read
    have own := not_hasOperation_of_requireNoOperation checked
    cases tag with
    | logical | namedField | condensedTags => cases read
    | dict =>
      obtain ⟨fields, areFields, _⟩ := bind_eq_ok_iff.mp read
      refine .of_entries own (.inl rfl) (forall₂_of_checkNamed areFields).1 fun result value given => ?_
      obtain ⟨smaller, isValue⟩ := given
      exact onlyEntriesOperate isValue
    | list =>
      obtain ⟨_, read⟩ := andThen_eq_ok_iff.mp read
      obtain ⟨items, areItems, _⟩ := bind_eq_ok_iff.mp read
      refine .of_children (fun operates => absurd operates own) fun child member => ?_
      obtain ⟨item, _, _, isItem⟩ := exists_of_forall₂_of_mem (forall₂_of_checkChildren areItems).flip member
      exact onlyEntriesOperate isItem
    | string | bool | int | float =>
      obtain ⟨slot, isSlot, _⟩ := bind_eq_ok_iff.mp read
      exact onlyEntriesOperate_of_slot own isSlot
    | typeDeclaration =>
      obtain ⟨declared, isDeclared, read⟩ := bind_eq_ok_iff.mp read
      obtain ⟨type, isType, _⟩ := bind_eq_ok_iff.mp read
      exact .of_onlyChild (fun operates => absurd operates own) (declaredType_eq_ok_iff.mp isDeclared).1
        (TypeDecl.onlyEntriesOperate isType)
    | tagCollection =>
      obtain ⟨groups, areGroups, _⟩ := bind_eq_ok_iff.mp read
      exact onlyEntriesOperate_of_tagGroups own areGroups
termination_by sizeOf e
decreasing_by
  · exact smaller
  · exact Element.sizeOf_lt_of_mem_children member

/-- An element with an operation in a tree that is read as a manifest is an entry of a dict or of a
    collection of named values. -/
theorem Manifest.isEntry_of_hasOperation {root part : Element} {manifest : Manifest}
    (read : Manifest.ofElement root = .ok manifest) (within : part.IsWithin root)
    (operates : part.HasOperation) : part.IsEntry :=
  Manifest.onlyEntriesOperate read part within operates

/-- A field with an operation. -/
def operatingField : Element :=
  ⟨"named-field", 1, [("name", "layers"), ("filter", "all")], none, [⟨"int", 1, [], some "50", []⟩]⟩

/-- The document of a dict with this field. -/
def operatingDict : Element := ⟨"dict", 1, [], none, [operatingField]⟩

theorem operatingDict_isEntry_of_hasOperation :
    ∃ manifest, Manifest.ofElement operatingDict = .ok manifest ∧ operatingField.IsWithin operatingDict ∧
      operatingField.HasOperation ∧ operatingField.IsEntry := by
  have accepted : (Manifest.ofElement operatingDict).isOk = true := by decide +kernel
  obtain ⟨manifest, read⟩ := exists_of_isOk accepted
  have within : operatingField.IsWithin operatingDict := .inside List.mem_cons_self .whole
  have operates : operatingField.hasAttribute filterAttribute = true := by decide +kernel
  exact ⟨manifest, read, within, operates, Manifest.isEntry_of_hasOperation read within operates⟩

/-- A dict is read although its field has an operation. -/
theorem operatingDict_read_with_operation :
    (Manifest.ofElement operatingDict).isOk = true ∧
      ∃ part : Element, part.IsWithin operatingDict ∧ part.hasAttribute filterAttribute = true :=
  ⟨by decide +kernel, operatingField, .inside List.mem_cons_self .whole, by decide +kernel⟩

end ModelCatalog
