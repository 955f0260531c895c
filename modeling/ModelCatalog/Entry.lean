import ModelCatalog.NameSet
import ModelCatalog.Number.Binary64
import ModelCatalog.Vocabulary

/-!
# Entries, slots and groups

The parts that filters and manifests have in common: named entries, slots for terminal values, groups
of tags, and the kinds of values and types.
-/

namespace ModelCatalog

/-- An entry of a container: its name, the line of the entry itself, and the value in it. -/
structure Named (α : Type) where
  name : String
  line : Nat
  value : α
deriving DecidableEq, Repr

/-- The entry of a name. Names are distinct in a container, so there is at most one. -/
def findEntry (name : String) (entries : List (Named α)) : Option (Named α) :=
  entries.find? fun entry => entry.name == name

/-- What is found for a name is an entry that has it. -/
theorem mem_of_findEntry {entries : List (Named α)} {name : String} {entry : Named α}
    (found : findEntry name entries = some entry) : entry ∈ entries ∧ entry.name = name := by
  have named := List.find?_some found
  exact ⟨List.mem_of_find?_eq_some found, beq_iff_eq.mp named⟩

/-- Nothing is found for a name that no entry has. -/
theorem findEntry_eq_none_iff {entries : List (Named α)} {name : String} :
    findEntry name entries = none ↔ name ∉ entries.map (·.name) := by
  rw [findEntry, List.find?_eq_none, List.mem_map]
  simp

theorem Named.sizeOf_value_lt_of_mem [SizeOf α] {entry : Named α} {entries : List (Named α)}
    (member : entry ∈ entries) : sizeOf entry.value < sizeOf entries := by
  have smaller := List.sizeOf_lt_of_mem member
  obtain ⟨name, line, value⟩ := entry
  rw [Named.mk.sizeOf_spec] at smaller
  show sizeOf value < sizeOf entries
  omega

/-- A terminal value of a manifest: known, or still to be filled in. -/
inductive Slot (α : Type) where
  | filled (value : α)
  | unfilled
deriving DecidableEq, Repr

namespace Slot

def isUnfilled : Slot α → Bool
  | .filled _ => false
  | .unfilled => true

/-- A slot as messages show it. -/
def render (write : α → String) : Slot α → String
  | .filled value => write value
  | .unfilled => unfilledText

end Slot

/-- A condensed tag expression with the tags that it stands for. -/
structure TagGroup where
  line : Nat
  text : String
  tags : NameSet
deriving DecidableEq

/-- The tags of several groups. -/
def unionTags (groups : List TagGroup) : NameSet :=
  groups.foldr (fun group tags => group.tags ∪ tags) ∅

@[simp] theorem mem_unionTags {tag : String} {groups : List TagGroup} :
    tag ∈ unionTags groups ↔ ∃ group ∈ groups, tag ∈ group.tags := by
  induction groups with
  | nil => simp [unionTags]
  | cons group rest ih =>
    rw [show unionTags (group :: rest) = group.tags ∪ unionTags rest from rfl, NameSet.mem_union, ih]
    simp

/-- The kinds of values a manifest can hold. -/
inductive ValueKind where
  | dict
  | list
  | string
  | bool
  | int
  | float
  | typeDeclaration
  | tagCollection
deriving DecidableEq, Repr

/-- The tag of the elements that hold a kind of value. -/
def ValueKind.tag : ValueKind → ValueTag
  | .dict => .dict
  | .list => .list
  | .string => .string
  | .bool => .bool
  | .int => .int
  | .float => .float
  | .typeDeclaration => .typeDeclaration
  | .tagCollection => .tagCollection

/-- The kinds of types. -/
inductive TypeKind where
  | string
  | bool
  | int
  | float
  | tensor
  | list
  | tuple
  | namedValues
deriving DecidableEq, Repr

/-- The tag of the elements that declare a kind of type. -/
def TypeKind.tag : TypeKind → TypeTag
  | .string => .string
  | .bool => .bool
  | .int => .int
  | .float => .float
  | .tensor => .tensor
  | .list => .list
  | .tuple => .tuple
  | .namedValues => .namedValueCollection

/-- The primitive types, which hold nothing. -/
inductive PrimitiveType where
  | string
  | bool
  | int
  | float
deriving DecidableEq, Repr

def PrimitiveType.kind : PrimitiveType → TypeKind
  | .string => .string
  | .bool => .bool
  | .int => .int
  | .float => .float

end ModelCatalog
