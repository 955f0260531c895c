import ModelCatalog.Proofs.Grammar.Containers

/-!
# Elements within a tree

What holds throughout a tree holds of its root and throughout the trees below it (`Element.Throughout.of_children`).
For the trees that are read there is one such rule for every way in which an element can hold others: none, one,
several, or named entries with a value in each.
-/

namespace ModelCatalog

namespace Element

/-- An element is the root of a tree or stands somewhere below it. -/
inductive IsWithin (e : Element) : Element → Prop
  | whole : IsWithin e e
  | inside {root child : Element} : child ∈ root.children → IsWithin e child → IsWithin e root

theorem IsWithin.trans {e inner root : Element} (upper : inner.IsWithin root) (lower : e.IsWithin inner) :
    e.IsWithin root := by
  induction upper with
  | whole => exact lower
  | inside member _ ih => exact .inside member ih

/-- Something holds of every element in a tree. -/
def Throughout (root : Element) (holds : Element → Prop) : Prop := ∀ part : Element, part.IsWithin root → holds part

namespace Throughout

variable {e child : Element} {holds weaker : Element → Prop}

theorem imp (everywhere : e.Throughout holds) (weakens : ∀ part, holds part → weaker part) : e.Throughout weaker :=
  fun part within => weakens part (everywhere part within)

theorem own (everywhere : e.Throughout holds) : holds e := everywhere e .whole

theorem below (everywhere : e.Throughout holds) (member : child ∈ e.children) : child.Throughout holds :=
  fun part within => everywhere part (.inside member within)

theorem of_children (own : holds e) (below : ∀ child ∈ e.children, child.Throughout holds) : e.Throughout holds := by
  intro part within
  cases within with
  | whole => exact own
  | inside member deeper => exact below _ member part deeper

theorem of_childless (own : holds e) (childless : e.children = []) : e.Throughout holds := by
  refine of_children own fun child member => ?_
  rw [childless] at member
  exact absurd member List.not_mem_nil

theorem of_onlyChild (own : holds e) (alone : e.children = [child]) (below : child.Throughout holds) :
    e.Throughout holds := by
  refine of_children own fun other member => ?_
  rw [alone] at member
  exact List.mem_singleton.mp member ▸ below

variable {α : Type} {spelled : α → Element → Prop}

/-- A tree whose children spell results one by one. -/
theorem of_spelled {results : List α} (own : holds e) (each : List.Forall₂ spelled results e.children)
    (below : ∀ child ∈ e.children, ∀ result ∈ results, spelled result child → child.Throughout holds) :
    e.Throughout holds := by
  refine of_children own fun child member => ?_
  obtain ⟨result, listed, given⟩ := exists_of_forall₂_of_mem each.flip member
  exact below child member result listed given

/-- A tree of named entries. Each of them stands at its own element above its value. -/
theorem of_entries {rules : EntryRules} {results : List (Named α)} (own : holds e)
    (entries : List.Forall₂ (rules.SpelledBy spelled) results e.children)
    (entry : ∀ part : Element, part.tag = rules.tag → holds part)
    (below : ∀ inner, sizeOf inner < sizeOf e → ∀ result ∈ results, spelled result.value inner → inner.Throughout holds) :
    e.Throughout holds := by
  refine of_spelled own entries fun child member result listed isEntry => ?_
  cases isEntry with
  | @entry _ inner name value tagged _ _ alone given =>
    have inside := mem_children_of_alone alone
    have smaller := Nat.lt_trans (sizeOf_lt_of_mem_children inside) (sizeOf_lt_of_mem_children member)
    exact of_onlyChild (entry child tagged) alone (below inner smaller _ listed given)

end Throughout

end Element

end ModelCatalog
