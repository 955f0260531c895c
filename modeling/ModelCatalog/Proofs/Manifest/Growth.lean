import ModelCatalog.Manifest
import Mathlib.Logic.Relation

/-!
# Growing manifests

A manifest grows by steps (`Manifest.Grows`): a dict gets a field with a new name, a list gets items at its
end, a tag collection gets tags, a slot is filled in. A step may happen at any depth, and where the elements
stand in the document does not matter. A manifest is below every one that grows out of it (`Manifest.Below`).
What a step leaves in place is said without steps (`Manifest.CoveredBy`): opposite to every part of the smaller
manifest stands a part of the larger one that says at least as much. Main statement: a manifest is covered by
what it grows to in one step (`Manifest.Grows.coveredBy`).
-/

namespace ModelCatalog

open Number (Binary64)

/-! ## Steps -/

/-- The same type at another line. -/
def TypeDecl.movedTo (line : Nat) : TypeDecl → TypeDecl
  | .primitive _ type => .primitive line type
  | .tensor _ dims => .tensor line dims
  | .list _ item => .list line item
  | .tuple _ items => .tuple line items
  | .namedValues _ values => .namedValues line values

/-- The same value at another line. -/
def Manifest.movedTo (line : Nat) : Manifest → Manifest
  | .dict _ fields => .dict line fields
  | .list _ items => .list line items
  | .string _ slot => .string line slot
  | .bool _ slot => .bool line slot
  | .int _ slot => .int line slot
  | .float _ slot => .float line slot
  | .typeDeclaration _ type => .typeDeclaration line type
  | .tagCollection _ groups => .tagCollection line groups

/-- A step of a slot. -/
inductive Slot.Grows {α : Type} : Slot α → Slot α → Prop
  | filled {value : α} : Grows .unfilled (.filled value)

/-- A step of a dimension. -/
inductive Dim.Grows : Dim → Dim → Prop
  | size {line : Nat} {size larger : Slot Int} : size.Grows larger → Grows ⟨line, size⟩ ⟨line, larger⟩
  | moved {line other : Nat} {size : Slot Int} : Grows ⟨line, size⟩ ⟨other, size⟩

/-- A step of a type. -/
inductive TypeDecl.Grows : TypeDecl → TypeDecl → Prop
  | dim {line : Nat} {before after : List Dim} {dim larger : Dim} : dim.Grows larger →
      Grows (.tensor line (before ++ dim :: after)) (.tensor line (before ++ larger :: after))
  | listItem {line : Nat} {item larger : TypeDecl} : Grows item larger → Grows (.list line item) (.list line larger)
  | tupleItem {line : Nat} {before after : List TypeDecl} {item larger : TypeDecl} : Grows item larger →
      Grows (.tuple line (before ++ item :: after)) (.tuple line (before ++ larger :: after))
  | namedValue {line entryLine otherLine : Nat} {before after : List (Named TypeDecl)} {name : String}
      {value larger : TypeDecl} : Grows value larger →
      Grows (.namedValues line (before ++ ⟨name, entryLine, value⟩ :: after))
        (.namedValues line (before ++ ⟨name, otherLine, larger⟩ :: after))
  | moved {type : TypeDecl} {line : Nat} : Grows type (type.movedTo line)

/-- A step of a manifest. -/
inductive Manifest.Grows : Manifest → Manifest → Prop
  /-- A dict gets a field whose name it does not have. -/
  | newField {line : Nat} {before after : List (Named Manifest)} {field : Named Manifest} :
      (∀ other ∈ before ++ after, other.name ≠ field.name) →
      Grows (.dict line (before ++ after)) (.dict line (before ++ field :: after))
  /-- A list gets items at its end. -/
  | newItems {line : Nat} {items more : List Manifest} : Grows (.list line items) (.list line (items ++ more))
  /-- A tag collection gets tags. -/
  | newTags {line : Nat} {groups more : List TagGroup} : (∀ tag ∈ unionTags groups, tag ∈ unionTags more) →
      Grows (.tagCollection line groups) (.tagCollection line more)
  | string {line : Nat} {slot larger : Slot String} : slot.Grows larger → Grows (.string line slot) (.string line larger)
  | bool {line : Nat} {slot larger : Slot Bool} : slot.Grows larger → Grows (.bool line slot) (.bool line larger)
  | int {line : Nat} {slot larger : Slot Int} : slot.Grows larger → Grows (.int line slot) (.int line larger)
  | float {line : Nat} {slot larger : Slot Binary64} : slot.Grows larger → Grows (.float line slot) (.float line larger)
  | type {line : Nat} {type larger : TypeDecl} : type.Grows larger →
      Grows (.typeDeclaration line type) (.typeDeclaration line larger)
  | field {line entryLine otherLine : Nat} {before after : List (Named Manifest)} {name : String}
      {value larger : Manifest} : Grows value larger →
      Grows (.dict line (before ++ ⟨name, entryLine, value⟩ :: after))
        (.dict line (before ++ ⟨name, otherLine, larger⟩ :: after))
  | item {line : Nat} {before after : List Manifest} {item larger : Manifest} : Grows item larger →
      Grows (.list line (before ++ item :: after)) (.list line (before ++ larger :: after))
  | moved {manifest : Manifest} {line : Nat} : Grows manifest (manifest.movedTo line)

/-- A manifest is below another one that grows out of it by any number of steps. -/
def Manifest.Below : Manifest → Manifest → Prop := Relation.ReflTransGen Manifest.Grows

/-! ## Covers -/

/-- What is filled in stays. -/
def Slot.CoveredBy {α : Type} (slot larger : Slot α) : Prop :=
  ∀ value, slot = .filled value → larger = .filled value

/-- Position by position a list is covered by the begin of another one. -/
def Covers {α : Type} (covered : α → α → Prop) (items larger : List α) : Prop :=
  ∀ position (inside : position < items.length) (given : position < larger.length),
    covered items[position] larger[position]

/-- What is found for a name is covered by what is found for it among other entries. -/
def EntriesCover {α : Type} (covered : α → α → Prop) (entries larger : List (Named α)) : Prop :=
  ∀ name entry other, findEntry name entries = some entry → findEntry name larger = some other →
    covered entry.value other.value

/-- Opposite to every part of a type stands one of another type that says at least as much. Dimensions, parts
    and names are the same on both sides. -/
inductive TypeDecl.CoveredBy : TypeDecl → TypeDecl → Prop
  | primitive {line other : Nat} {type : PrimitiveType} : CoveredBy (.primitive line type) (.primitive other type)
  | tensor {line other : Nat} {dims larger : List Dim} : dims.length = larger.length →
      Covers (fun dim larger => dim.size.CoveredBy larger.size) dims larger →
      CoveredBy (.tensor line dims) (.tensor other larger)
  | list {line other : Nat} {item larger : TypeDecl} : CoveredBy item larger →
      CoveredBy (.list line item) (.list other larger)
  | tuple {line other : Nat} {items larger : List TypeDecl} : items.length = larger.length →
      Covers CoveredBy items larger → CoveredBy (.tuple line items) (.tuple other larger)
  | namedValues {line other : Nat} {values larger : List (Named TypeDecl)} :
      values.map (·.name) = larger.map (·.name) → EntriesCover CoveredBy values larger →
      CoveredBy (.namedValues line values) (.namedValues other larger)

/-- Opposite to every part of a manifest stands one of another manifest that says at least as much. -/
inductive Manifest.CoveredBy : Manifest → Manifest → Prop
  | dict {line other : Nat} {fields larger : List (Named Manifest)} :
      fields.map (·.name) ⊆ larger.map (·.name) → EntriesCover CoveredBy fields larger →
      CoveredBy (.dict line fields) (.dict other larger)
  | list {line other : Nat} {items larger : List Manifest} : items.length ≤ larger.length →
      Covers CoveredBy items larger → CoveredBy (.list line items) (.list other larger)
  | string {line other : Nat} {slot larger : Slot String} : slot.CoveredBy larger →
      CoveredBy (.string line slot) (.string other larger)
  | bool {line other : Nat} {slot larger : Slot Bool} : slot.CoveredBy larger →
      CoveredBy (.bool line slot) (.bool other larger)
  | int {line other : Nat} {slot larger : Slot Int} : slot.CoveredBy larger →
      CoveredBy (.int line slot) (.int other larger)
  | float {line other : Nat} {slot larger : Slot Binary64} : slot.CoveredBy larger →
      CoveredBy (.float line slot) (.float other larger)
  | typeDeclaration {line other : Nat} {type larger : TypeDecl} : TypeDecl.CoveredBy type larger →
      CoveredBy (.typeDeclaration line type) (.typeDeclaration other larger)
  | tagCollection {line other : Nat} {groups larger : List TagGroup} :
      (∀ tag ∈ unionTags groups, tag ∈ unionTags larger) →
      CoveredBy (.tagCollection line groups) (.tagCollection other larger)

/-! ## Covers of slots, lists and entries -/

theorem Slot.CoveredBy.refl {α : Type} (slot : Slot α) : slot.CoveredBy slot := fun _ filled => filled

theorem Slot.Grows.coveredBy {α : Type} {slot larger : Slot α} (grows : slot.Grows larger) :
    slot.CoveredBy larger := by
  cases grows with
  | filled =>
    intro value impossible
    cases impossible

theorem Dim.Grows.coveredBy {dim larger : Dim} (grows : dim.Grows larger) :
    dim.size.CoveredBy larger.size := by
  cases grows with
  | size grows => exact grows.coveredBy
  | moved => exact Slot.CoveredBy.refl _

section

variable {α : Type} {covered : α → α → Prop}

theorem Covers.refl {items : List α} (each : ∀ item ∈ items, covered item item) : Covers covered items items :=
  fun position inside _ => each items[position] (List.getElem_mem inside)

theorem Covers.append {items : List α} (each : ∀ item ∈ items, covered item item) (more : List α) :
    Covers covered items (items ++ more) := by
  intro position inside given
  rw [List.getElem_append_left inside]
  exact each items[position] (List.getElem_mem inside)

theorem Covers.cons {item larger : α} {items others : List α} (first : covered item larger)
    (rest : Covers covered items others) : Covers covered (item :: items) (larger :: others) := by
  intro position inside given
  cases position with
  | zero => exact first
  | succ position => exact rest position (by simpa using inside) (by simpa using given)

/-- One member of a list is replaced. -/
theorem Covers.replace {before after : List α} {item larger : α}
    (each : ∀ other ∈ before ++ item :: after, covered other other) (step : covered item larger) :
    Covers covered (before ++ item :: after) (before ++ larger :: after) := by
  induction before with
  | nil => exact .cons step (.refl fun other member => each other (List.mem_cons_of_mem _ member))
  | cons head rest ih =>
    obtain ⟨first, others⟩ := List.forall_mem_cons.mp each
    exact .cons first (ih others)

theorem EntriesCover.refl {entries : List (Named α)} (each : ∀ entry ∈ entries, covered entry.value entry.value) :
    EntriesCover covered entries entries := by
  intro name entry other found same
  cases found.symm.trans same
  exact each entry (mem_of_findEntry found).1

theorem EntriesCover.cons {entry larger : Named α} {entries others : List (Named α)}
    (named : entry.name = larger.name) (first : covered entry.value larger.value)
    (rest : EntriesCover covered entries others) : EntriesCover covered (entry :: entries) (larger :: others) := by
  intro name found other isFound isOther
  rw [findEntry, List.find?_cons] at isFound isOther
  by_cases here : entry.name = name
  · simp only [here, named ▸ here, beq_self_eq_true, Option.some.injEq] at isFound isOther
    subst isFound isOther
    exact first
  · simp only [beq_eq_false_iff_ne.mpr here, beq_eq_false_iff_ne.mpr (named ▸ here)] at isFound isOther
    exact rest name found other isFound isOther

/-- The value of one entry is replaced. -/
theorem EntriesCover.replace {before after : List (Named α)} {entry larger : Named α}
    (each : ∀ other ∈ before ++ entry :: after, covered other.value other.value)
    (named : entry.name = larger.name) (step : covered entry.value larger.value) :
    EntriesCover covered (before ++ entry :: after) (before ++ larger :: after) := by
  induction before with
  | nil => exact .cons named step (.refl fun other member => each other (List.mem_cons_of_mem _ member))
  | cons head rest ih =>
    obtain ⟨first, others⟩ := List.forall_mem_cons.mp each
    exact .cons rfl first (ih others)

/-- An entry with a new name is put between others. -/
theorem EntriesCover.insert {before after : List (Named α)} {entry : Named α}
    (each : ∀ other ∈ before ++ after, covered other.value other.value)
    (fresh : ∀ other ∈ before ++ after, other.name ≠ entry.name) :
    EntriesCover covered (before ++ after) (before ++ entry :: after) := by
  induction before with
  | nil =>
    intro name found other isFound isOther
    obtain ⟨member, named⟩ := mem_of_findEntry isFound
    have different : entry.name ≠ name := fun same => fresh found member (named.trans same.symm)
    rw [List.nil_append, findEntry, List.find?_cons, beq_eq_false_iff_ne.mpr different] at isOther
    exact EntriesCover.refl each name found other isFound isOther
  | cons head rest ih =>
    obtain ⟨first, others⟩ := List.forall_mem_cons.mp each
    exact .cons rfl first (ih others (List.forall_mem_cons.mp fresh).2)

end

/-! ## A manifest covers itself and what it grew from -/

theorem TypeDecl.CoveredBy.refl (type : TypeDecl) : type.CoveredBy type := by
  cases type with
  | primitive line type => exact .primitive
  | tensor line dims => exact .tensor rfl (.refl fun dim _ => Slot.CoveredBy.refl dim.size)
  | list line item => exact .list (.refl item)
  | tuple line items => exact .tuple rfl (.refl fun item member => .refl item)
  | namedValues line values => exact .namedValues rfl (.refl fun entry member => .refl entry.value)
termination_by type
decreasing_by
  · rw [list.sizeOf_spec]
    omega
  · have smaller := List.sizeOf_lt_of_mem member
    rw [tuple.sizeOf_spec]
    omega
  · have smaller := Named.sizeOf_value_lt_of_mem member
    rw [namedValues.sizeOf_spec]
    omega

theorem Manifest.CoveredBy.refl (manifest : Manifest) : manifest.CoveredBy manifest := by
  cases manifest with
  | dict line fields => exact .dict (List.Subset.refl _) (.refl fun field member => .refl field.value)
  | list line items => exact .list (Nat.le_refl _) (.refl fun item member => .refl item)
  | string line slot => exact .string (.refl slot)
  | bool line slot => exact .bool (.refl slot)
  | int line slot => exact .int (.refl slot)
  | float line slot => exact .float (.refl slot)
  | typeDeclaration line type => exact .typeDeclaration (.refl type)
  | tagCollection line groups => exact .tagCollection fun _ declared => declared
termination_by manifest
decreasing_by
  · have smaller := Named.sizeOf_value_lt_of_mem member
    rw [dict.sizeOf_spec]
    omega
  · have smaller := List.sizeOf_lt_of_mem member
    rw [list.sizeOf_spec]
    omega

/-- The line of a type does not matter. -/
theorem TypeDecl.coveredBy_movedTo (type : TypeDecl) (line : Nat) : type.CoveredBy (type.movedTo line) := by
  have same := TypeDecl.CoveredBy.refl type
  cases same with
  | primitive => exact .primitive
  | tensor count each => exact .tensor count each
  | list item => exact .list item
  | tuple count each => exact .tuple count each
  | namedValues names each => exact .namedValues names each

/-- The line of a value does not matter. -/
theorem Manifest.coveredBy_movedTo (manifest : Manifest) (line : Nat) :
    manifest.CoveredBy (manifest.movedTo line) := by
  have same := Manifest.CoveredBy.refl manifest
  cases same with
  | dict names each => exact .dict names each
  | list count each => exact .list count each
  | string slot => exact .string slot
  | bool slot => exact .bool slot
  | int slot => exact .int slot
  | float slot => exact .float slot
  | typeDeclaration type => exact .typeDeclaration type
  | tagCollection tags => exact .tagCollection tags

theorem TypeDecl.Grows.coveredBy {type larger : TypeDecl} (grows : type.Grows larger) : type.CoveredBy larger := by
  induction grows with
  | dim grows =>
    refine .tensor (by simp) (.replace (fun dim _ => Slot.CoveredBy.refl dim.size) grows.coveredBy)
  | listItem grows ih => exact .list ih
  | tupleItem grows ih => exact .tuple (by simp) (.replace (fun item _ => .refl item) ih)
  | namedValue grows ih => exact .namedValues (by simp) (.replace (fun entry _ => .refl entry.value) rfl ih)
  | @moved type line => exact type.coveredBy_movedTo line

/-- A manifest is covered by what it grows to in a step. -/
theorem Manifest.Grows.coveredBy {manifest larger : Manifest} (grows : manifest.Grows larger) :
    manifest.CoveredBy larger := by
  induction grows with
  | newField fresh => exact .dict (by simp) (.insert (fun field _ => .refl field.value) fresh)
  | @newItems line items more => exact .list (by simp) (.append (fun item _ => .refl item) more)
  | newTags kept => exact .tagCollection kept
  | string grows => exact .string grows.coveredBy
  | bool grows => exact .bool grows.coveredBy
  | int grows => exact .int grows.coveredBy
  | float grows => exact .float grows.coveredBy
  | type grows => exact .typeDeclaration grows.coveredBy
  | field grows ih => exact .dict (by simp) (.replace (fun field _ => .refl field.value) rfl ih)
  | item grows ih => exact .list (by simp) (.replace (fun item _ => .refl item) ih)
  | @moved manifest line => exact manifest.coveredBy_movedTo line

end ModelCatalog
