import ModelCatalog.Match.Types
import ModelCatalog.Proofs.Manifest.Distinct

/-!
# Rearranged manifests

A manifest can be presented in different orders (`Manifest.Rearranged`): at any depth the fields of a dict and the
entries of a collection of named values may stand in another order, and a tag collection may have other groups
with the same tags. Every node keeps its line. Main statement: where names are distinct, the same name leads to
values that are rearranged in the same way (`findEntry_rearranged`).
-/

namespace ModelCatalog

/-! ## Rearrangements -/

/-- An entry with the name and the line of another one and a value in a relation to its value. -/
inductive Named.Related {α : Type} (related : α → α → Prop) : Named α → Named α → Prop
  | entry {name : String} {line : Nat} {value other : α} : related value other →
      Related related ⟨name, line, value⟩ ⟨name, line, other⟩

/-- A type with the named values in it in another order. -/
inductive TypeDecl.Rearranged : TypeDecl → TypeDecl → Prop
  | same {type : TypeDecl} : Rearranged type type
  | list {line : Nat} {item other : TypeDecl} : Rearranged item other → Rearranged (.list line item) (.list line other)
  | tuple {line : Nat} {items others : List TypeDecl} : List.Forall₂ Rearranged items others →
      Rearranged (.tuple line items) (.tuple line others)
  | namedValues {line : Nat} {values moved others : List (Named TypeDecl)} : values.Perm moved →
      List.Forall₂ (Named.Related Rearranged) moved others →
      Rearranged (.namedValues line values) (.namedValues line others)

/-- A manifest with the fields and the named values in it in another order and with other groups of the same
    tags. -/
inductive Manifest.Rearranged : Manifest → Manifest → Prop
  | same {manifest : Manifest} : Rearranged manifest manifest
  | dict {line : Nat} {fields moved others : List (Named Manifest)} : fields.Perm moved →
      List.Forall₂ (Named.Related Rearranged) moved others → Rearranged (.dict line fields) (.dict line others)
  | list {line : Nat} {items others : List Manifest} : List.Forall₂ Rearranged items others →
      Rearranged (.list line items) (.list line others)
  | typeDeclaration {line : Nat} {type other : TypeDecl} : type.Rearranged other →
      Rearranged (.typeDeclaration line type) (.typeDeclaration line other)
  | tagCollection {line : Nat} {groups others : List TagGroup} : unionTags groups = unionTags others →
      Rearranged (.tagCollection line groups) (.tagCollection line others)

theorem TypeDecl.Rearranged.line_eq {type other : TypeDecl} (rearranged : type.Rearranged other) :
    type.line = other.line := by
  cases rearranged <;> rfl

theorem TypeDecl.Rearranged.kind_eq {type other : TypeDecl} (rearranged : type.Rearranged other) :
    type.kind = other.kind := by
  cases rearranged <;> rfl

theorem Manifest.Rearranged.line_eq {manifest other : Manifest} (rearranged : manifest.Rearranged other) :
    manifest.line = other.line := by
  cases rearranged <;> rfl

theorem Manifest.Rearranged.kind_eq {manifest other : Manifest} (rearranged : manifest.Rearranged other) :
    manifest.kind = other.kind := by
  cases rearranged <;> rfl

/-! ## Entries in another order -/

section

variable {α : Type} {related : α → α → Prop} {entries moved others : List (Named α)}

theorem findEntry_perm (distinct : (entries.map (·.name)).Nodup) (perm : entries.Perm moved) (name : String) :
    findEntry name entries = findEntry name moved := by
  have movedDistinct : (moved.map (·.name)).Nodup := (perm.map _).nodup_iff.mp distinct
  refine Option.ext fun entry => ?_
  rw [findEntry_eq_some_iff distinct, findEntry_eq_some_iff movedDistinct, perm.mem_iff]

theorem names_eq_of_related (each : List.Forall₂ (Named.Related related) moved others) :
    moved.map (·.name) = others.map (·.name) := by
  refine map_eq_map_of_forall₂ each fun entry other same => ?_
  cases same with
  | entry => rfl

/-- Nothing is found for a name among entries and among related ones, or entries with related values. -/
theorem findEntry_related (each : List.Forall₂ (Named.Related related) moved others) (name : String) :
    findEntry name moved = none ∧ findEntry name others = none ∨
      ∃ entry other, findEntry name moved = some entry ∧ findEntry name others = some other ∧
        related entry.value other.value := by
  induction each with
  | nil => exact .inl ⟨rfl, rfl⟩
  | @cons head otherHead rest otherRest first others ih =>
    cases first with
    | @entry headName line value other isRelated =>
      unfold findEntry at ih ⊢
      rw [List.find?_cons, List.find?_cons]
      by_cases named : headName = name
      · simp only [beq_iff_eq.mpr named]
        exact .inr ⟨_, _, rfl, rfl, isRelated⟩
      · simp only [beq_eq_false_iff_ne.mpr named]
        exact ih

/-- The same name leads to related values when entries with distinct names stand in another order. -/
theorem findEntry_rearranged (distinct : (entries.map (·.name)).Nodup) (perm : entries.Perm moved)
    (each : List.Forall₂ (Named.Related related) moved others) (name : String) :
    findEntry name entries = none ∧ findEntry name others = none ∨
      ∃ entry other, findEntry name entries = some entry ∧ findEntry name others = some other ∧
        related entry.value other.value := by
  rw [findEntry_perm distinct perm]
  exact findEntry_related each name

/-- The order of entries does not count for the set of their names. -/
theorem entryNames_rearranged (perm : entries.Perm moved)
    (each : List.Forall₂ (Named.Related related) moved others) :
    TypeFilter.entryNames entries = TypeFilter.entryNames others := by
  refine NameSet.ext_mem fun name => ?_
  rw [TypeFilter.entryNames, TypeFilter.entryNames, NameSet.mem_ofList, NameSet.mem_ofList,
    ← names_eq_of_related each, (perm.map _).mem_iff]

end

end ModelCatalog
