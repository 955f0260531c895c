/-!
# Sets of names

A set of names, of tags or of keys, is the increasing list of its members, so equal sets are equal
values and a walk through a set meets its members in order. Names are ordered by their characters from
left to right. Main statements: membership after each operation (`mem_insert`, `mem_union`, `mem_ofList`,
`mem_filter`) and extensionality (`ext_mem`).
-/

namespace ModelCatalog

/-- A set of names. -/
structure NameSet where
  toList : List String
  sorted : toList.Pairwise (· < ·)
deriving DecidableEq

namespace NameSet

instance : Membership String NameSet := ⟨fun set name => name ∈ set.toList⟩

theorem mem_toList {name : String} {set : NameSet} : name ∈ set.toList ↔ name ∈ set := Iff.rfl

instance (name : String) (set : NameSet) : Decidable (name ∈ set) :=
  inferInstanceAs (Decidable (name ∈ set.toList))

/-- The set without members. -/
def empty : NameSet := ⟨[], List.Pairwise.nil⟩

instance : EmptyCollection NameSet := ⟨empty⟩

/-- Put a name into its place in an increasing list, unless it is there. -/
def insertSorted (name : String) : List String → List String
  | [] => [name]
  | head :: rest =>
    if name < head then name :: head :: rest
    else if name = head then head :: rest
    else head :: insertSorted name rest

/-- Of two different texts, the one that does not come first comes second. -/
theorem lt_of_not_lt {left right : String} (not_lt : ¬right < left) (ne : left ≠ right) :
    left < right :=
  Decidable.byContradiction fun h =>
    ne (String.le_antisymm (String.not_lt.1 not_lt) (String.not_lt.1 h))

theorem mem_insertSorted {name other : String} {names : List String} :
    other ∈ insertSorted name names ↔ other = name ∨ other ∈ names := by
  induction names with
  | nil => simp [insertSorted]
  | cons head rest ih =>
    simp only [insertSorted]
    split
    · simp
    · split
      · subst name; simp
      · simp only [List.mem_cons, ih]; grind

theorem sorted_insertSorted {name : String} {names : List String} (h : names.Pairwise (· < ·)) :
    (insertSorted name names).Pairwise (· < ·) := by
  induction names with
  | nil => simp [insertSorted]
  | cons head rest ih =>
    have ⟨above, tail⟩ := List.pairwise_cons.1 h
    simp only [insertSorted]
    split
    next lt =>
      refine List.pairwise_cons.2 ⟨fun other mem => ?_, h⟩
      rcases List.mem_cons.1 mem with rfl | mem
      · exact lt
      · exact String.lt_trans lt (above _ mem)
    next not_lt =>
      split
      · exact h
      next ne =>
        refine List.pairwise_cons.2 ⟨fun other mem => ?_, ih tail⟩
        rcases mem_insertSorted.1 mem with rfl | mem
        · exact lt_of_not_lt not_lt fun eq => ne eq.symm
        · exact above _ mem

/-- A set with one more member. -/
def insert (name : String) (set : NameSet) : NameSet :=
  ⟨insertSorted name set.toList, sorted_insertSorted set.sorted⟩

@[simp] theorem mem_insert {name other : String} {set : NameSet} :
    other ∈ set.insert name ↔ other = name ∨ other ∈ set := mem_insertSorted

@[simp] theorem not_mem_empty {name : String} : ¬name ∈ (∅ : NameSet) := List.not_mem_nil

/-- The members of a list. -/
def ofList (names : List String) : NameSet := names.foldr insert ∅

@[simp] theorem mem_ofList {name : String} {names : List String} : name ∈ ofList names ↔ name ∈ names := by
  induction names with
  | nil => simp [ofList]
  | cons head rest ih =>
    rw [show ofList (head :: rest) = (ofList rest).insert head from rfl, mem_insert, ih,
      List.mem_cons]

/-- The names in either set. -/
def union (left right : NameSet) : NameSet := left.toList.foldr insert right

instance : Union NameSet := ⟨union⟩

@[simp] theorem mem_union {name : String} {left right : NameSet} :
    name ∈ left ∪ right ↔ name ∈ left ∨ name ∈ right := by
  change name ∈ left.toList.foldr insert right ↔ name ∈ left.toList ∨ name ∈ right
  induction left.toList with
  | nil => simp
  | cons head rest ih => simp [ih, or_assoc]

/-- The members that pass a test. -/
def filter (keep : String → Bool) (set : NameSet) : NameSet :=
  ⟨set.toList.filter keep, set.sorted.filter keep⟩

@[simp] theorem mem_filter {name : String} {keep : String → Bool} {set : NameSet} :
    name ∈ set.filter keep ↔ name ∈ set ∧ keep name = true := List.mem_filter

/-- The names of the first set that the second lacks. -/
def diff (left right : NameSet) : NameSet := left.filter fun name => !decide (name ∈ right)

@[simp] theorem mem_diff {name : String} {left right : NameSet} :
    name ∈ left.diff right ↔ name ∈ left ∧ ¬name ∈ right := by
  simp [diff]

/-- The set has no member. -/
def isEmpty (set : NameSet) : Bool := set.toList.isEmpty

theorem isEmpty_iff {set : NameSet} : set.isEmpty ↔ ∀ name, ¬name ∈ set := by
  rw [isEmpty, List.isEmpty_iff, List.eq_nil_iff_forall_not_mem]
  rfl

/-- The members in order with a text between each two. -/
def join (separator : String) (set : NameSet) : String := separator.intercalate set.toList

/-- Increasing lists with the same members are equal. -/
theorem eq_of_sorted {left right : List String} (hl : left.Pairwise (· < ·))
    (hr : right.Pairwise (· < ·)) (same : ∀ name, name ∈ left ↔ name ∈ right) : left = right := by
  induction left generalizing right with
  | nil => exact (List.eq_nil_iff_forall_not_mem.2 fun name mem => by simpa using (same name).2 mem).symm
  | cons a left ih =>
    cases right with
    | nil => simpa using same a
    | cons b right =>
      have ⟨al, tail_l⟩ := List.pairwise_cons.1 hl
      have ⟨br, tail_r⟩ := List.pairwise_cons.1 hr
      have eq : a = b := by
        rcases List.mem_cons.1 ((same a).1 List.mem_cons_self) with eq | mem
        · exact eq
        · rcases List.mem_cons.1 ((same b).2 List.mem_cons_self) with eq | mem'
          · exact eq.symm
          · exact absurd (String.lt_trans (br _ mem) (al _ mem')) (String.lt_irrefl b)
      subst eq
      refine congrArg (a :: ·) (ih tail_l tail_r fun name => ⟨fun mem => ?_, fun mem => ?_⟩)
      · rcases List.mem_cons.1 ((same name).1 (List.mem_cons_of_mem _ mem)) with rfl | mem'
        · exact absurd (al _ mem) (String.lt_irrefl _)
        · exact mem'
      · rcases List.mem_cons.1 ((same name).2 (List.mem_cons_of_mem _ mem)) with rfl | mem'
        · exact absurd (br _ mem) (String.lt_irrefl _)
        · exact mem'

/-- Sets with the same members are equal. -/
theorem ext_mem {left right : NameSet} (same : ∀ name, name ∈ left ↔ name ∈ right) : left = right := by
  obtain ⟨left, hl⟩ := left
  obtain ⟨right, hr⟩ := right
  congr
  exact eq_of_sorted hl hr same

end NameSet

end ModelCatalog
