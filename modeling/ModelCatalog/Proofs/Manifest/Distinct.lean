import ModelCatalog.Grammar.Manifest
import ModelCatalog.Proofs.Grammar.Containers

/-!
# Distinct names in manifests

The grammar reads the entries of a container one by one and refuses a name that an entry before it has
(`Element.checkNamed_ok`). So in every manifest that is read, and in every type that it declares,
the names in a dict and in a collection of named values are distinct, at every depth
(`Manifest.distinct_of_ofElement`).
-/

namespace ModelCatalog

/-- The names in every collection of named values of a type are distinct. -/
inductive TypeDecl.Distinct : TypeDecl → Prop
  | primitive {line : Nat} {type : PrimitiveType} : Distinct (.primitive line type)
  | tensor {line : Nat} {dims : List Dim} : Distinct (.tensor line dims)
  | list {line : Nat} {item : TypeDecl} : Distinct item → Distinct (.list line item)
  | tuple {line : Nat} {items : List TypeDecl} :
      (∀ item ∈ items, Distinct item) → Distinct (.tuple line items)
  | namedValues {line : Nat} {values : List (Named TypeDecl)} : (values.map (·.name)).Nodup →
      (∀ value ∈ values, Distinct value.value) → Distinct (.namedValues line values)

/-- The names in every dict and every collection of named values of a manifest are distinct. -/
inductive Manifest.Distinct : Manifest → Prop
  | dict {line : Nat} {fields : List (Named Manifest)} : (fields.map (·.name)).Nodup →
      (∀ field ∈ fields, Distinct field.value) → Distinct (.dict line fields)
  | list {line : Nat} {items : List Manifest} : (∀ item ∈ items, Distinct item) → Distinct (.list line items)
  | string {line : Nat} {slot : Slot String} : Distinct (.string line slot)
  | bool {line : Nat} {slot : Slot Bool} : Distinct (.bool line slot)
  | int {line : Nat} {slot : Slot Int} : Distinct (.int line slot)
  | float {line : Nat} {slot : Slot Number.Binary64} : Distinct (.float line slot)
  | typeDeclaration {line : Nat} {type : TypeDecl} : type.Distinct → Distinct (.typeDeclaration line type)
  | tagCollection {line : Nat} {groups : List TagGroup} : Distinct (.tagCollection line groups)

/-- Where names are distinct, the entry that is found for a name is the one that has it. -/
theorem findEntry_eq_some_iff {α : Type} {entries : List (Named α)} (distinct : (entries.map (·.name)).Nodup)
    {name : String} {entry : Named α} :
    findEntry name entries = some entry ↔ entry ∈ entries ∧ entry.name = name := by
  induction entries with
  | nil => simp [findEntry]
  | cons head rest ih =>
    obtain ⟨notLater, restDistinct⟩ := List.nodup_cons.mp distinct
    rw [findEntry, List.find?_cons]
    by_cases same : head.name = name
    · simp only [beq_iff_eq.mpr same, Option.some.injEq]
      constructor
      · rintro rfl
        exact ⟨List.mem_cons_self, same⟩
      · rintro ⟨member, named⟩
        rcases List.mem_cons.mp member with rfl | later
        · rfl
        · exact absurd (List.mem_map.mpr ⟨entry, later, named.trans same.symm⟩) notLater
    · simp only [beq_eq_false_iff_ne.mpr same]
      refine (ih restDistinct).trans (and_congr_left fun named => ?_)
      have other : entry ≠ head := by
        rintro rfl
        exact same named
      rw [List.mem_cons, or_iff_right other]

/-! ## Reading containers -/

section

variable {α : Type}

/-- The named entries of an element that is read have distinct names, and each value was read. -/
theorem Element.checkNamed_ok {e : Element} {rules : EntryRules}
    {check : (value : Element) → sizeOf value < sizeOf e → Checked α} {results : List (Named α)}
    (read : e.checkNamed rules check = .ok results) :
    (results.map (·.name)).Nodup ∧ ∀ result ∈ results, ∃ value smaller, check value smaller = .ok result.value := by
  obtain ⟨each, distinct⟩ := forall₂_of_checkNamed read
  refine ⟨distinct, fun result member => ?_⟩
  obtain ⟨entry, _, isEntry⟩ := exists_of_forall₂_of_mem each member
  cases isEntry with
  | entry _ _ _ _ given => exact ⟨_, given⟩

/-- Every result of checking the children of an element was read from one of them. -/
theorem Element.checkChildren_ok {e : Element}
    {check : (child : Element) → child ∈ e.children → Checked α} {results : List α}
    (read : e.checkChildren check = .ok results) :
    ∀ result ∈ results, ∃ child member, check child member = .ok result := by
  intro result member
  obtain ⟨child, _, isResult⟩ := exists_of_forall₂_of_mem (forall₂_of_checkChildren read) member
  exact ⟨child, isResult⟩

end

/-! ## Reading types and manifests -/

theorem TypeDecl.distinct_of_ofElement {e : Element} {type : TypeDecl}
    (read : TypeDecl.ofElement e = .ok type) : type.Distinct := by
  rw [ofElement] at read
  split at read
  · cases read
  next tag _ =>
    obtain ⟨_, _, read⟩ := bind_eq_ok_iff.mp read
    cases tag with
    | namedValue | dim => cases read
    | string | bool | int | float =>
      obtain ⟨_, _, read⟩ := bind_eq_ok_iff.mp read
      cases read
      exact .primitive
    | tensor =>
      obtain ⟨_, _, read⟩ := bind_eq_ok_iff.mp read
      obtain ⟨dims, _, read⟩ := bind_eq_ok_iff.mp read
      cases read
      exact .tensor
    | list =>
      obtain ⟨item, _, read⟩ := bind_eq_ok_iff.mp read
      obtain ⟨itemType, isItem, read⟩ := bind_eq_ok_iff.mp read
      cases read
      exact .list (distinct_of_ofElement isItem)
    | tuple =>
      obtain ⟨_, _, read⟩ := bind_eq_ok_iff.mp read
      obtain ⟨items, areItems, read⟩ := bind_eq_ok_iff.mp read
      cases read
      refine .tuple fun item member => ?_
      obtain ⟨child, inside, isItem⟩ := Element.checkChildren_ok areItems item member
      exact distinct_of_ofElement isItem
    | namedValueCollection =>
      obtain ⟨values, areValues, read⟩ := bind_eq_ok_iff.mp read
      cases read
      obtain ⟨distinct, each⟩ := Element.checkNamed_ok areValues
      refine .namedValues distinct fun value member => ?_
      obtain ⟨source, smaller, isValue⟩ := each value member
      exact distinct_of_ofElement isValue
termination_by sizeOf e
decreasing_by
  · exact Element.sizeOf_lt_of_mem_children item.2
  · exact Element.sizeOf_lt_of_mem_children inside
  · exact smaller

/-- The names in a manifest that is read are distinct. -/
theorem Manifest.distinct_of_ofElement {e : Element} {manifest : Manifest}
    (read : Manifest.ofElement e = .ok manifest) : manifest.Distinct := by
  rw [ofElement] at read
  split at read
  · cases read
  next tag _ =>
    obtain ⟨_, _, read⟩ := bind_eq_ok_iff.mp read
    cases tag with
    | logical | namedField | condensedTags => cases read
    | dict =>
      obtain ⟨fields, areFields, read⟩ := bind_eq_ok_iff.mp read
      cases read
      obtain ⟨distinct, each⟩ := Element.checkNamed_ok areFields
      refine .dict distinct fun field member => ?_
      obtain ⟨source, smaller, isField⟩ := each field member
      exact distinct_of_ofElement isField
    | list =>
      obtain ⟨_, _, read⟩ := bind_eq_ok_iff.mp read
      obtain ⟨items, areItems, read⟩ := bind_eq_ok_iff.mp read
      cases read
      refine .list fun item member => ?_
      obtain ⟨child, inside, isItem⟩ := Element.checkChildren_ok areItems item member
      exact distinct_of_ofElement isItem
    | string =>
      obtain ⟨_, _, read⟩ := bind_eq_ok_iff.mp read
      cases read
      exact .string
    | bool =>
      obtain ⟨_, _, read⟩ := bind_eq_ok_iff.mp read
      cases read
      exact .bool
    | int =>
      obtain ⟨_, _, read⟩ := bind_eq_ok_iff.mp read
      cases read
      exact .int
    | float =>
      obtain ⟨_, _, read⟩ := bind_eq_ok_iff.mp read
      cases read
      exact .float
    | typeDeclaration =>
      obtain ⟨declared, _, read⟩ := bind_eq_ok_iff.mp read
      obtain ⟨type, isType, read⟩ := bind_eq_ok_iff.mp read
      cases read
      exact .typeDeclaration (TypeDecl.distinct_of_ofElement isType)
    | tagCollection =>
      obtain ⟨_, _, read⟩ := bind_eq_ok_iff.mp read
      cases read
      exact .tagCollection
termination_by sizeOf e
decreasing_by
  · exact smaller
  · exact Element.sizeOf_lt_of_mem_children inside

end ModelCatalog
