import ModelCatalog.Proofs.Filter.Nodes
import ModelCatalog.Proofs.Grammar.Filters
import ModelCatalog.Proofs.Markup.Nesting

/-!
# Depths of filters

A filter is deeper than every filter, type and dimension below it, so a walk that goes down a filter goes
down at most its depth (`Filter.depth_lt_of_mem_children` and its likes). Every node of a filter is spelled
by an element of its own, which stands in that of the node around it; so a filter is at most as deep as
its document nests (`Filter.SpelledBy.depth_le_nesting`).
-/

namespace ModelCatalog

/-! ## Members are shallower -/

theorem DimFilter.maxDepth_le_iff {dims : List DimFilter} {bound : Nat} :
    maxDepth dims ≤ bound ↔ ∀ dim ∈ dims, dim.depth ≤ bound := by
  induction dims with
  | nil => simp [maxDepth]
  | cons dim rest ih => rw [maxDepth, Nat.max_le, ih, List.forall_mem_cons]

namespace TypeFilter

theorem maxDepth_le_iff {items : List TypeFilter} {bound : Nat} :
    maxDepth items ≤ bound ↔ ∀ item ∈ items, item.depth ≤ bound := by
  induction items with
  | nil => simp [maxDepth]
  | cons item rest ih => rw [maxDepth, Nat.max_le, ih, List.forall_mem_cons]

theorem maxEntryDepth_le_iff {values : List (Named TypeFilter)} {bound : Nat} :
    maxEntryDepth values ≤ bound ↔ ∀ value ∈ values, value.value.depth ≤ bound := by
  induction values with
  | nil => simp [maxEntryDepth]
  | cons value rest ih => rw [maxEntryDepth, Nat.max_le, ih, List.forall_mem_cons]

end TypeFilter

namespace Filter

theorem maxDepth_le_iff {items : List Filter} {bound : Nat} :
    maxDepth items ≤ bound ↔ ∀ item ∈ items, item.depth ≤ bound := by
  induction items with
  | nil => simp [maxDepth]
  | cons item rest ih => rw [maxDepth, Nat.max_le, ih, List.forall_mem_cons]

theorem maxEntryDepth_le_iff {fields : List (Named Filter)} {bound : Nat} :
    maxEntryDepth fields ≤ bound ↔ ∀ field ∈ fields, field.value.depth ≤ bound := by
  induction fields with
  | nil => simp [maxEntryDepth]
  | cons field rest ih => rw [maxEntryDepth, Nat.max_le, ih, List.forall_mem_cons]

/-- A filter is deeper than each of its children. -/
theorem depth_lt_of_mem_children {filter child : Filter} (member : child ∈ filter.children) :
    child.depth < filter.depth := by
  cases filter with
  | dict line fields =>
    obtain ⟨field, inside, rfl⟩ := List.mem_map.mp member
    rw [depth, Nat.lt_succ_iff]
    exact maxEntryDepth_le_iff.mp (Nat.le_refl _) field inside
  | list line items | and line items | or line items =>
    rw [depth, Nat.lt_succ_iff]
    exact maxDepth_le_iff.mp (Nat.le_refl _) child member
  | not line operand =>
    rw [List.mem_singleton.mp member, depth]
    exact Nat.lt_succ_self _
  | _ => exact absurd member List.not_mem_nil

end Filter

/-! ## Documents of filters -/

namespace Element

variable {α : Type} {e : Element} {measure : α → Nat}

/-- What is no deeper than a child is no deeper than all children. -/
theorem le_deepest_of_mem_children {child : Element} {bound : Nat} (member : child ∈ e.children)
    (below : bound ≤ child.nesting) : bound ≤ nesting.deepest e.children :=
  Nat.le_trans below (deepest_le_iff.mp (Nat.le_refl _) child member)

/-- An element nests deeper than each of its children. -/
theorem nesting_lt_of_mem_children {child : Element} (member : child ∈ e.children) : child.nesting < e.nesting := by
  rw [nesting_eq e]
  exact Nat.lt_succ_of_le (le_deepest_of_mem_children member (Nat.le_refl _))

/-- Where the children spell something no deeper than they are, it is no deeper than all of them. -/
theorem le_deepest_of_forall₂ {spelled : α → Element → Prop} {results : List α}
    (each : List.Forall₂ spelled results e.children)
    (bounded : ∀ child ∈ e.children, ∀ result, spelled result child → measure result ≤ child.nesting) :
    ∀ result ∈ results, measure result ≤ nesting.deepest e.children := by
  intro result member
  obtain ⟨child, inside, given⟩ := exists_of_forall₂_of_mem each member
  exact le_deepest_of_mem_children inside (bounded child inside result given)

/-- The same for named entries, whose values stand one element deeper. -/
theorem le_deepest_of_entries {rules : EntryRules} {spelled : α → Element → Prop} {results : List (Named α)}
    (each : List.Forall₂ (rules.SpelledBy spelled) results e.children)
    (bounded : ∀ inner, sizeOf inner < sizeOf e → ∀ value, spelled value inner → measure value ≤ inner.nesting) :
    ∀ result ∈ results, measure result.value ≤ nesting.deepest e.children := by
  refine le_deepest_of_forall₂ each fun entry member result isEntry => ?_
  cases isEntry with
  | @entry _ inner name value tagged named noText alone given =>
    have inside := mem_children_of_alone alone
    have smaller := Nat.lt_trans (sizeOf_lt_of_mem_children inside) (sizeOf_lt_of_mem_children member)
    have below := bounded inner smaller value given
    have deeper := nesting_lt_of_mem_children inside
    exact Nat.le_of_lt (Nat.lt_of_le_of_lt below deeper)

end Element

open Element

theorem DimFilter.SpelledBy.depth_le_nesting {e : Element} {filter : DimFilter} (spelled : filter.SpelledBy e) :
    filter.depth ≤ e.nesting := by
  have below : ∀ child ∈ e.children, ∀ dim : DimFilter, dim.SpelledBy child → dim.depth ≤ child.nesting :=
    fun child member dim spelled => depth_le_nesting spelled
  cases spelled with
  | anything | size => exact e.nesting_pos
  | logical _ connected =>
    rw [nesting_eq]
    cases connected with
    | and _ _ each | or _ _ each => exact Nat.succ_le_succ (maxDepth_le_iff.mpr (le_deepest_of_forall₂ each below))
    | @not _ child operand _ alone given =>
      have inside := mem_children_of_alone alone
      exact Nat.succ_le_succ (le_deepest_of_mem_children inside (below child inside operand given))
termination_by sizeOf e
decreasing_by exact Element.sizeOf_lt_of_mem_children member

theorem TypeFilter.SpelledBy.depth_le_nesting {e : Element} {filter : TypeFilter} (spelled : filter.SpelledBy e) :
    filter.depth ≤ e.nesting := by
  have below : ∀ inner : Element, sizeOf inner < sizeOf e → ∀ type : TypeFilter, type.SpelledBy inner →
      type.depth ≤ inner.nesting := fun inner smaller type spelled => depth_le_nesting spelled
  have items := fun child (member : child ∈ e.children) => below child (Element.sizeOf_lt_of_mem_children member)
  cases spelled with
  | primitive | anything => exact e.nesting_pos
  | tensor _ _ each =>
    rw [nesting_eq, depth, Nat.succ_le_succ_iff, DimFilter.maxDepth_le_iff]
    exact le_deepest_of_forall₂ each fun child _ dim spelled => spelled.depth_le_nesting
  | @list _ child item _ _ alone given =>
    have inside := mem_children_of_alone alone
    rw [nesting_eq, depth, Nat.succ_le_succ_iff]
    exact le_deepest_of_mem_children inside (items child inside item given)
  | tuple _ _ each =>
    rw [nesting_eq, depth, Nat.succ_le_succ_iff, maxDepth_le_iff]
    exact le_deepest_of_forall₂ each items
  | namedValues _ _ each _ =>
    rw [nesting_eq, depth, Nat.succ_le_succ_iff, maxEntryDepth_le_iff]
    exact le_deepest_of_entries each below
termination_by sizeOf e

/-- A filter is at most as deep as its document nests. -/
theorem Filter.SpelledBy.depth_le_nesting {e : Element} {filter : Filter} (spelled : filter.SpelledBy e) :
    filter.depth ≤ e.nesting := by
  have below : ∀ inner : Element, sizeOf inner < sizeOf e → ∀ value : Filter, value.SpelledBy inner →
      value.depth ≤ inner.nesting := fun inner smaller value spelled => depth_le_nesting spelled
  have items := fun child (member : child ∈ e.children) => below child (Element.sizeOf_lt_of_mem_children member)
  cases spelled with
  | anything | string | bool | int | float | implicitTags | explicitTags => exact e.nesting_pos
  | dict _ _ each _ =>
    rw [nesting_eq, depth, Nat.succ_le_succ_iff, maxEntryDepth_le_iff]
    exact le_deepest_of_entries each below
  | list _ _ each =>
    rw [nesting_eq, depth, Nat.succ_le_succ_iff, maxDepth_le_iff]
    exact le_deepest_of_forall₂ each items
  | @typeDeclaration _ child expected _ _ alone given =>
    have inside := mem_children_of_alone alone
    rw [nesting_eq, depth, Nat.succ_le_succ_iff]
    exact le_deepest_of_mem_children inside given.depth_le_nesting
  | logical _ connected =>
    rw [nesting_eq]
    cases connected with
    | and _ _ each | or _ _ each => exact Nat.succ_le_succ (maxDepth_le_iff.mpr (le_deepest_of_forall₂ each items))
    | @not _ child operand _ alone given =>
      have inside := mem_children_of_alone alone
      exact Nat.succ_le_succ (le_deepest_of_mem_children inside (items child inside operand given))
termination_by sizeOf e

end ModelCatalog
