import ModelCatalog.Proofs.Grammar.Asking
import ModelCatalog.Proofs.Grammar.Manifests

/-!
# Documents without operations

The skeleton of a document is the same tree without operations (`Element.skeleton`): tags, names, lines and texts
stay. So an element that holds something in a filter holds it in a manifest as well (`Element.carries_skeleton`,
`Element.contains_skeleton`), a literal that is asked for becomes a value (`Element.AsksLiteral.slot_skeleton`), and
what the children of an element give in the skeleton can be put together in the order in which they stand in the
document (`Element.children_skeleton`, `Element.entries_skeleton`).
-/

namespace ModelCatalog

/-- What stands between the members of two lists, pair by pair, makes a list between them. -/
theorem exists_forall₂_between {α β γ : Type} {relates : α → γ → Prop} {before : α → β → Prop} {after : β → γ → Prop}
    {left : List α} {right : List γ} (each : List.Forall₂ relates left right)
    (between : ∀ first, ∀ last ∈ right, relates first last → ∃ middle, before first middle ∧ after middle last) :
    ∃ middles, List.Forall₂ before left middles ∧ List.Forall₂ after middles right := by
  induction each with
  | nil => exact ⟨[], .nil, .nil⟩
  | cons related _ ih =>
    obtain ⟨here, others⟩ := List.forall_mem_cons.mp fun last member first => between first last member
    obtain ⟨middle, isBefore, isAfter⟩ := here _ related
    obtain ⟨middles, areBefore, areAfter⟩ := ih fun first last member => others last member first
    exact ⟨middle :: middles, .cons isBefore areBefore, .cons isAfter areAfter⟩

namespace Element

/-- A tree without operations. -/
def skeleton : Element → Element
  | ⟨tag, line, attributes, text, children⟩ =>
    ⟨tag, line, attributes.filter (·.1 ≠ filterAttribute), text, skeletons children⟩
where
  skeletons : List Element → List Element
    | [] => []
    | child :: rest => child.skeleton :: skeletons rest

theorem skeletons_eq (children : List Element) : skeleton.skeletons children = children.map skeleton := by
  induction children with
  | nil => rfl
  | cons child rest ih => rw [skeleton.skeletons, ih, List.map_cons]

variable (e : Element)

@[simp] theorem tag_skeleton : e.skeleton.tag = e.tag := by
  cases e
  rfl

@[simp] theorem trimmedText_skeleton : e.skeleton.trimmedText = e.trimmedText := by
  cases e
  rfl

@[simp] theorem hasText_skeleton : e.skeleton.hasText = e.hasText := by
  cases e
  rfl

@[simp] theorem line_skeleton : e.skeleton.line = e.line := by
  cases e
  rfl

@[simp] theorem children_skeleton_eq : e.skeleton.children = e.children.map skeleton := by
  cases e
  exact skeletons_eq _

/-- Leaving out an attribute keeps the values of the others. -/
theorem lookup_filter_ne {attributes : List (String × String)} {left name : String} (other : name ≠ left) :
    (attributes.filter (·.1 ≠ left)).lookup name = attributes.lookup name := by
  induction attributes with
  | nil => rfl
  | cons first rest ih =>
    obtain ⟨key, value⟩ := first
    by_cases isLeft : key = left
    · have unequal : (name == key) = false := beq_eq_false_iff_ne.mpr fun same => other (same.trans isLeft)
      rw [List.filter_cons_of_neg (by simp [isLeft]), ih, List.lookup_cons, unequal]
    · rw [List.filter_cons_of_pos (by simp [isLeft]), List.lookup_cons, List.lookup_cons, ih]

/-- An attribute that is left out has no value. -/
theorem lookup_filter_self {attributes : List (String × String)} {left : String} :
    (attributes.filter (·.1 ≠ left)).lookup left = none := by
  rw [List.lookup_eq_none_iff]
  intro kept member
  have other : kept.1 ≠ left := of_decide_eq_true (List.mem_filter.mp member).2
  exact bne_iff_ne.mpr other.symm

theorem attribute?_skeleton {name : String} (other : name ≠ filterAttribute) :
    e.skeleton.attribute? name = e.attribute? name := by
  cases e
  exact lookup_filter_ne other

theorem hasAttribute_skeleton : e.skeleton.hasAttribute filterAttribute = false := by
  cases e
  exact congrArg Option.isSome lookup_filter_self

variable {e : Element} {tag : String}

/-! ## Elements -/

theorem carries_skeleton (tagged : e.tag = tag) : e.skeleton.Carries tag :=
  ⟨by rw [tag_skeleton, tagged], hasAttribute_skeleton e⟩

theorem contains_skeleton (tagged : e.tag = tag) (noText : e.hasText = false) : e.skeleton.Contains tag :=
  ⟨carries_skeleton tagged, by rw [hasText_skeleton, noText]⟩

/-- A literal that is asked for is the value of a slot, unless it is the text of an unknown value. -/
theorem AsksLiteral.slot_skeleton {α : Type} {read : String → Option α} {operation : Operation} {value : α}
    (asks : e.AsksLiteral read operation value) (known : e.trimmedText ≠ unfilledText) :
    (Slot.filled value).SpelledBy read e.skeleton := by
  refine .filled ?_ ?_ ?_
  · rw [children_skeleton_eq, asks.childless, List.map_nil]
  · rw [trimmedText_skeleton]
    exact known
  · rw [trimmedText_skeleton]
    exact asks.literal

/-- The text of an unknown value is no literal where none is read from it. -/
theorem AsksLiteral.known {α : Type} {read : String → Option α} {operation : Operation} {value : α}
    (asks : e.AsksLiteral read operation value) (unread : read unfilledText = none) :
    e.trimmedText ≠ unfilledText := by
  intro same
  have literal := asks.literal
  rw [same, unread] at literal
  cases literal

end Element

theorem TagGroup.SpelledBy.skeleton {group : TagGroup} {e : Element} (spelled : group.SpelledBy e) :
    group.SpelledBy e.skeleton where
  tag := by rw [Element.tag_skeleton, spelled.tag]
  noOperation := e.hasAttribute_skeleton
  childless := by rw [Element.children_skeleton_eq, spelled.childless, List.map_nil]
  notBlank := by rw [Element.trimmedText_skeleton]; exact spelled.notBlank
  line := by rw [Element.line_skeleton, spelled.line]
  text := by rw [Element.trimmedText_skeleton, spelled.text]
  tags := by rw [Element.trimmedText_skeleton, spelled.tags]

/-! ## Children -/

section

variable {α β : Type} {e : Element} {spelled : α → Element → Prop} {before : α → β → Prop} {after : β → Element → Prop}

/-- What the children of an element give in the skeleton, in the order of the children. -/
theorem Element.children_skeleton {results : List α} (each : List.Forall₂ spelled results e.children)
    (below : ∀ child ∈ e.children, ∀ result, spelled result child →
      ∃ middle, before result middle ∧ after middle child.skeleton) :
    ∃ middles, List.Forall₂ before results middles ∧ List.Forall₂ after middles e.skeleton.children := by
  rw [children_skeleton_eq]
  simp only [List.forall₂_map_right_iff]
  exact exists_forall₂_between each fun result child member => below child member result

/-- An entry is one in the skeleton as well, with the same name. -/
theorem EntryRules.SpelledBy.skeleton {rules : EntryRules} {result : Named α}
    (entry : rules.SpelledBy spelled result e)
    (below : ∀ inner ∈ e.children, ∀ value, spelled value inner →
      ∃ middle, before value middle ∧ after middle inner.skeleton) :
    ∃ middle : Named β, (middle.name = result.name ∧ before result.value middle.value) ∧
      rules.SpelledBy after middle e.skeleton := by
  cases entry with
  | @entry _ inner name value tagged named noText alone given =>
    obtain ⟨middle, isBefore, isAfter⟩ := below inner (Element.mem_children_of_alone alone) value given
    refine ⟨⟨name, e.skeleton.line, middle⟩, ⟨rfl, isBefore⟩, .entry ?_ ?_ ?_ ?_ isAfter⟩
    · rw [Element.tag_skeleton, tagged]
    · rw [Element.attribute?_skeleton e (by decide), named]
    · rw [Element.hasText_skeleton, noText]
    · rw [Element.children_skeleton_eq, alone, List.map_singleton]

/-- What the entries of an element give in the skeleton, with the same names in the same order. -/
theorem Element.entries_skeleton {rules : EntryRules} {results : List (Named α)}
    (each : List.Forall₂ (rules.SpelledBy spelled) results e.children)
    (below : ∀ child ∈ e.children, ∀ inner ∈ child.children, ∀ value, spelled value inner →
      ∃ middle, before value middle ∧ after middle inner.skeleton) :
    ∃ middles : List (Named β),
      List.Forall₂ (fun result middle => middle.name = result.name ∧ before result.value middle.value) results middles ∧
        List.Forall₂ (rules.SpelledBy after) middles e.skeleton.children :=
  children_skeleton each fun child member _ entry => entry.skeleton (below child member)

end

end ModelCatalog
