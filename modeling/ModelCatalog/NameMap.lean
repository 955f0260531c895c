import ModelCatalog.NameSet

/-!
# Maps from names

A map from names to values is the list of its entries in increasing order of their names, so each name
occurs once and a walk through a map meets its entries in order. Main statements: a name has the value
that was put last (`get?_insert`), and exactly the keys have a value (`mem_keys`).
-/

namespace ModelCatalog

/-- A map from names to values. -/
structure NameMap (α : Type) where
  entries : List (String × α)
  sorted : (entries.map (·.1)).Pairwise (· < ·)

namespace NameMap

variable {α : Type}

/-- The map without entries. -/
def empty : NameMap α := ⟨[], by simp⟩

instance : EmptyCollection (NameMap α) := ⟨empty⟩

/-- The names in increasing order. -/
def keys (map : NameMap α) : List String := map.entries.map (·.1)

/-- The value of a name. -/
def get? (map : NameMap α) (name : String) : Option α := map.entries.lookup name

def size (map : NameMap α) : Nat := map.entries.length

/-- Put an entry into its place in an increasing list, instead of one of the same name. -/
def insertSorted (name : String) (value : α) : List (String × α) → List (String × α)
  | [] => [(name, value)]
  | head :: rest =>
    if name < head.1 then (name, value) :: head :: rest
    else if name = head.1 then (name, value) :: rest
    else head :: insertSorted name value rest

theorem mem_keys_insertSorted {name other : String} {value : α} {entries : List (String × α)} :
    other ∈ (insertSorted name value entries).map (·.1) ↔
      other = name ∨ other ∈ entries.map (·.1) := by
  induction entries with
  | nil => simp [insertSorted]
  | cons head rest ih =>
    rw [insertSorted]
    split
    · simp
    · split
      next eq => simp [eq]
      · simp only [List.map_cons, List.mem_cons, ih]
        exact or_left_comm

theorem keys_insertSorted_sorted {name : String} {value : α} {entries : List (String × α)}
    (h : (entries.map (·.1)).Pairwise (· < ·)) :
    ((insertSorted name value entries).map (·.1)).Pairwise (· < ·) := by
  induction entries with
  | nil => simp [insertSorted]
  | cons head rest ih =>
    have ⟨above, tail⟩ := List.pairwise_cons.1 h
    rw [insertSorted]
    split
    next lt =>
      refine List.pairwise_cons.2 ⟨fun other mem => ?_, h⟩
      rcases List.mem_cons.1 mem with rfl | mem
      · exact lt
      · exact String.lt_trans lt (above _ mem)
    next not_lt =>
      split
      next eq => exact List.pairwise_cons.2 ⟨fun other mem => eq ▸ above _ mem, tail⟩
      next ne =>
        refine List.pairwise_cons.2 ⟨fun other mem => ?_, ih tail⟩
        rcases mem_keys_insertSorted.1 mem with rfl | mem
        · exact NameSet.lt_of_not_lt not_lt fun eq => ne eq.symm
        · exact above _ mem

/-- The map with one more entry; a name that has a value gets the new one. -/
def insert (map : NameMap α) (name : String) (value : α) : NameMap α :=
  ⟨insertSorted name value map.entries, keys_insertSorted_sorted map.sorted⟩

theorem lookup_insertSorted {name other : String} {value : α} {entries : List (String × α)} :
    (insertSorted name value entries).lookup other =
      if other = name then some value else entries.lookup other := by
  induction entries with
  | nil => simp only [insertSorted, List.lookup_nil, List.lookup_cons]; grind
  | cons head rest ih =>
    obtain ⟨key, old⟩ := head
    rw [insertSorted]
    split
    · simp only [List.lookup_cons]; grind
    · split
      · simp only [List.lookup_cons]; grind
      · simp only [List.lookup_cons, ih]; grind

@[simp] theorem get?_insert {map : NameMap α} {name other : String} {value : α} :
    (map.insert name value).get? other = if other = name then some value else map.get? other :=
  lookup_insertSorted

@[simp] theorem get?_empty {name : String} : (∅ : NameMap α).get? name = none := rfl

/-- Exactly the names in a list of entries are found in it. -/
theorem mem_map_fst_iff_lookup {name : String} {entries : List (String × α)} :
    name ∈ entries.map (·.1) ↔ (entries.lookup name).isSome := by
  induction entries with
  | nil => simp
  | cons head rest ih =>
    obtain ⟨key, value⟩ := head
    simp only [List.map_cons, List.mem_cons, List.lookup_cons, ih]
    grind

/-- Exactly the keys have a value. -/
theorem mem_keys {map : NameMap α} {name : String} : name ∈ map.keys ↔ (map.get? name).isSome :=
  mem_map_fst_iff_lookup

/-- Exactly the entries are found. -/
theorem mem_entries_iff {map : NameMap α} {name : String} {value : α} :
    (name, value) ∈ map.entries ↔ map.get? name = some value := by
  obtain ⟨entries, sorted⟩ := map
  change (name, value) ∈ entries ↔ entries.lookup name = some value
  induction entries with
  | nil => simp
  | cons head rest ih =>
    obtain ⟨key, other⟩ := head
    have ⟨above, tail⟩ := List.pairwise_cons.1 sorted
    rw [List.mem_cons, ih tail, List.lookup_cons]
    by_cases same : name = key
    · subst same
      -- No later entry has the name, for later names are greater.
      have new : rest.lookup name = none := by
        rw [← Option.not_isSome_iff_eq_none, ← mem_map_fst_iff_lookup]
        exact fun later => String.lt_irrefl name (above name later)
      simp [new, eq_comm]
    · simp [same, beq_eq_false_iff_ne.2 same]

end NameMap

end ModelCatalog
