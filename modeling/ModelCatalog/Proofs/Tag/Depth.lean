import ModelCatalog.Proofs.Tag.Descent
import ModelCatalog.Proofs.Tag.Drafts

/-!
# How deep expressions nest

The expansion of an expression that is read goes down as many levels as groups are open at once in its text
(`leadsTo_iff_opens`): the groups of its components hold what is one level deeper, in the text
(`Expression.opens_succ_iff`) as in the expansion (`Expression.leadsTo_succ_iff`). A text that goes down some levels has
at least twice as many characters (`length_of_opens`), and there is an expression for every number of levels
(`Expression.opens_wrapped`).
-/

namespace ModelCatalog

namespace Condensed

/-! ## Groups that are open in a text -/

/-- At some place of a text, `levels` groups are open. -/
def Opens (word : List Char) (levels : Nat) : Prop :=
  ∃ before, before <+: word ∧ before.count '\x7b' = levels + before.count '\x7d'

variable {levels : Nat} {left right word first : List Char} {component : Component} {expression body : Expression}

theorem opens_zero (word : List Char) : Opens word 0 := ⟨[], List.nil_prefix, rfl⟩

/-- Without an opening brace no group is open. -/
theorem not_opens_of_count (none : word.count '\x7b' = 0) : ¬Opens word (levels + 1) := by
  rintro ⟨before, begins, isOpen⟩
  have fewer : before.count '\x7b' ≤ word.count '\x7b' := begins.sublist.count_le _
  omega

/-- Behind a text that leaves no group open, groups are open as they would be without it. -/
theorem opens_append_iff (even : left.count '\x7d' = left.count '\x7b') :
    Opens (left ++ right) levels ↔ Opens left levels ∨ Opens right levels := by
  constructor
  · rintro ⟨before, ⟨rest, split⟩, isOpen⟩
    rcases List.append_eq_append_iff.mp split with ⟨inner, isLeft, _⟩ | ⟨inner, isBefore, isRight⟩
    · exact .inl ⟨before, ⟨inner, isLeft.symm⟩, isOpen⟩
    · refine .inr ⟨inner, ⟨rest, isRight.symm⟩, ?_⟩
      rw [isBefore, List.count_append, List.count_append] at isOpen
      omega
  · rintro (⟨before, begins, isOpen⟩ | ⟨before, begins, isOpen⟩)
    · exact ⟨before, begins.trans (List.prefix_append left right), isOpen⟩
    · refine ⟨left ++ before, (List.prefix_append_right_inj left).mpr begins, ?_⟩
      rw [List.count_append, List.count_append]
      omega

/-- Behind an opening brace one more group is open. -/
theorem opens_opening_iff : Opens ('\x7b' :: word) (levels + 1) ↔ Opens word levels := by
  have closings : ∀ before : List Char, ('\x7b' :: before).count '\x7d' = before.count '\x7d' :=
    fun _ => List.count_cons_of_ne (by decide)
  constructor
  · rintro ⟨before, begins, isOpen⟩
    rcases List.prefix_cons_iff.mp begins with rfl | ⟨inner, rfl, inside⟩
    · simp at isOpen
    · rw [List.count_cons_self, closings] at isOpen
      exact ⟨inner, inside, by omega⟩
  · rintro ⟨before, begins, isOpen⟩
    refine ⟨'\x7b' :: before, (List.prefix_cons_inj _).mpr begins, ?_⟩
    rw [List.count_cons_self, closings]
    omega

theorem opens_closing_iff : Opens ['\x7d'] levels ↔ levels = 0 := by
  cases levels with
  | zero => exact iff_of_true (opens_zero _) rfl
  | succ levels => exact iff_of_false (not_opens_of_count rfl) (Nat.succ_ne_zero levels)

/-- A plain word has no braces. -/
theorem Plain.count_eq_zero {brace : Char} (plain : Plain word) (isDelimiter : (delimiter? brace).isSome) :
    word.count brace = 0 := by
  refine List.count_eq_zero.mpr fun member => ?_
  rw [plain brace member] at isDelimiter
  cases isDelimiter

theorem Plain.not_opens (plain : Plain word) : ¬Opens word (levels + 1) :=
  not_opens_of_count (plain.count_eq_zero rfl)

/-- The characters of a text that closes what it opens are twice as many as its levels. -/
theorem Closes.length_of_opens (closes : Closes 0 word) (opens : Opens word levels) : 2 * levels ≤ word.length := by
  obtain ⟨before, begins, isOpen⟩ := opens
  have fewer : before.count '\x7b' ≤ word.count '\x7b' := begins.sublist.count_le _
  have even := closes.even
  have both : word.count '\x7b' + word.count '\x7d' ≤ word.length := by
    rw [List.length_eq_countP_add_countP (· == '\x7b')]
    refine Nat.add_le_add_left (List.countP_mono_left fun c _ isClosing => ?_) _
    rw [beq_iff_eq.mp isClosing]
    rfl
  omega

/-! ## Levels of a text -/

theorem Expression.closes_word (expression : Expression) : Closes 0 (Expression.word expression) := by
  rw [← balanced_tokens_iff, Expression.tokens_of_word]
  exact Expression.balanced_tokens expression

/-- An expression closes as many groups as it opens. -/
theorem Expression.count_word (expression : Expression) :
    (Expression.word expression).count '\x7d' = (Expression.word expression).count '\x7b' := by
  have even := (Expression.closes_word expression).even
  omega

theorem Component.count_word (component : Component) : component.word.count '\x7d' = component.word.count '\x7b' :=
  Expression.count_word [component]

/-- What is open inside the group of a component is one level deeper. -/
theorem Component.Holds.opens_succ_iff (holds : component.Holds first body) :
    Opens component.word (levels + 1) ↔ Opens (Expression.word body) levels := by
  have even : first.count '\x7d' = first.count '\x7b' := by
    rw [holds.plain.count_eq_zero rfl, holds.plain.count_eq_zero rfl]
  rw [holds.word_eq, opens_append_iff even, or_iff_right holds.plain.not_opens, opens_opening_iff,
    opens_append_iff (Expression.count_word body), opens_closing_iff]
  constructor
  · rintro (isOpen | rfl)
    · exact isOpen
    · exact opens_zero _
  · exact .inl

theorem Component.opens_succ_iff : Opens component.word (levels + 1) ↔
    ∃ first body, component.Holds first body ∧ Opens (Expression.word body) levels := by
  constructor
  · intro isOpen
    cases component with
    | chain written => exact absurd isOpen written.plain_word.not_opens
    | group body => exact ⟨_, body, .group, Component.Holds.group.opens_succ_iff.mp isOpen⟩
    | nested written separator body => exact ⟨_, body, .nested, Component.Holds.nested.opens_succ_iff.mp isOpen⟩
  · rintro ⟨first, body, holds, isOpen⟩
    exact holds.opens_succ_iff.mpr isOpen

theorem Expression.opens_behind_iff : Opens (Expression.behind expression) (levels + 1) ↔
    ∃ component ∈ expression, Opens component.word (levels + 1) := by
  induction expression with
  | nil => exact iff_of_false (not_opens_of_count rfl) (by simp)
  | cons component rest ih =>
    have split : Expression.behind (component :: rest) = [','] ++ (component.word ++ Expression.behind rest) := rfl
    have noComma : ¬Opens [','] (levels + 1) := not_opens_of_count rfl
    rw [split, opens_append_iff rfl, or_iff_right noComma, opens_append_iff component.count_word, ih,
      List.exists_mem_cons_iff]

/-- A group that is open in an expression is open in one of its components, and what is inside one level deeper. -/
theorem Expression.opens_succ_iff : Opens (Expression.word expression) (levels + 1) ↔
    ∃ component ∈ expression, ∃ first body, Component.Holds component first body ∧
      Opens (Expression.word body) levels := by
  simp only [← Component.opens_succ_iff]
  cases expression with
  | nil => exact iff_of_false (not_opens_of_count rfl) (by simp)
  | cons component rest =>
    rw [Expression.word_cons, opens_append_iff component.count_word, opens_behind_iff, List.exists_mem_cons_iff]

/-! ## Levels of the expansion -/

/-- The tokens of a component with a group. -/
theorem Component.Holds.tokens_eq (holds : component.Holds first body) :
    component.tokens = Condensed.tokens first ++ .opening :: (Expression.tokens body ++ [.closing]) := by
  rw [holds.plain.tokens_eq]
  cases holds with
  | group => rw [if_pos rfl, Component.tokens, List.nil_append]
  | @nested written separator =>
    rw [if_neg (List.append_ne_nil_of_left_ne_nil written.word_ne_nil _), Component.tokens, List.singleton_append]

theorem Plain.opening_notMem (plain : Plain word) : .opening ∉ tokens word := by
  rw [plain.tokens_eq]
  split <;> simp

/-- The first group in the tokens of a component is that of the component. -/
theorem Component.holds_of_tokens {before group : List Token} (split : component.tokens = before ++ .opening :: group)
    (none : .opening ∉ before) :
    ∃ first body, component.Holds first body ∧ group = Expression.tokens body ++ [.closing] := by
  have found : ∀ {first body}, component.Holds first body → group = Expression.tokens body ++ [.closing] := by
    intro first body holds
    exact (first_opening_unique none holds.plain.opening_notMem (split.symm.trans holds.tokens_eq)).2
  cases component with
  | chain written =>
    have member : Token.opening ∈ before ++ .opening :: group := by simp
    rw [← split] at member
    exact absurd member opening_notMem_text
  | group body => exact ⟨_, body, .group, found .group⟩
  | nested written separator body => exact ⟨_, body, .nested, found .nested⟩

/-- What the expansion comes to one level deeper stands in the group of a component. -/
theorem Expression.leadsTo_succ_iff {part : Part} : LeadsTo (Expression.tokens expression) (levels + 1) part ↔
    ∃ component ∈ expression, ∃ first body, Component.Holds component first body ∧
      LeadsTo (Expression.tokens body) levels part := by
  constructor
  · intro leads
    cases leads with
    | @inside _ before group body _ _ member none closed inner =>
      cases expression with
      | nil =>
        have empty : before ++ .opening :: group = [] := List.mem_singleton.mp member
        simp at empty
      | cons head rest =>
        rw [Expression.allComponents_tokens] at member
        obtain ⟨component, listed, split⟩ := List.mem_map.mp member
        obtain ⟨first, held, holds, rfl⟩ := Component.holds_of_tokens split none
        cases closed.symm.trans (Expression.closeGroup_tokens held)
        exact ⟨component, listed, first, held, holds, inner⟩
  · rintro ⟨component, listed, first, body, holds, inner⟩
    cases expression with
    | nil => exact absurd listed List.not_mem_nil
    | cons head rest =>
      have member : component.tokens ∈ allComponents (Expression.tokens (head :: rest)) := by
        rw [Expression.allComponents_tokens]
        exact List.mem_map_of_mem listed
      rw [holds.tokens_eq] at member
      exact .inside member holds.plain.opening_notMem (Expression.closeGroup_tokens body) inner

/-- The expansion of an expression goes down as many levels as there are groups open at once in its text. -/
theorem Expression.leadsTo_iff_opens : (∃ inner, LeadsTo (Expression.tokens expression) levels (.expression inner)) ↔
    Opens (Expression.word expression) levels := by
  induction levels generalizing expression with
  | zero => exact iff_of_true ⟨_, .whole⟩ (opens_zero _)
  | succ levels ih =>
    rw [Expression.opens_succ_iff]
    simp only [← ih, Expression.leadsTo_succ_iff]
    constructor
    · rintro ⟨inner, component, listed, first, body, holds, leads⟩
      exact ⟨component, listed, first, body, holds, inner, leads⟩
    · rintro ⟨component, listed, first, body, holds, inner, leads⟩
      exact ⟨inner, component, listed, first, body, holds, leads⟩

/-- The levels of a text that is read. -/
theorem leadsTo_iff_opens {text : String} {tags : NameSet} (read : parse text = .ok tags) :
    (∃ inner, LeadsTo (tokens (Text.strip text.toList)) levels (.expression inner)) ↔
      Opens (Text.strip text.toList) levels := by
  obtain ⟨expression, written⟩ := exists_expression_of_parse read
  rw [← written, Expression.tokens_of_word, Expression.leadsTo_iff_opens]

theorem length_of_opens {text : String} {tags : NameSet} (read : parse text = .ok tags)
    (opens : Opens (Text.strip text.toList) levels) : 2 * levels ≤ (Text.strip text.toList).length := by
  obtain ⟨expression, written⟩ := exists_expression_of_parse read
  rw [← written] at opens ⊢
  exact (Expression.closes_word expression).length_of_opens opens

/-! ## Expressions of any depth -/

/-- An expression in `levels` groups. -/
def Expression.wrapped (expression : Expression) : Nat → Expression
  | 0 => expression
  | levels + 1 => [.group (wrapped expression levels)]

theorem Expression.word_wrapped (expression : Expression) (levels : Nat) :
    Expression.word (wrapped expression (levels + 1)) =
      '\x7b' :: (Expression.word (wrapped expression levels) ++ ['\x7d']) := by
  rw [wrapped, Expression.word, Component.word]

/-- All groups around an expression are open in it. -/
theorem Expression.opens_wrapped (expression : Expression) (levels : Nat) :
    Opens (Expression.word (wrapped expression levels)) levels := by
  induction levels with
  | zero => exact opens_zero _
  | succ levels ih => exact opens_succ_iff.mpr ⟨_, List.mem_singleton_self _, _, _, .group, ih⟩

/-- No blank stands around an expression without blanks. -/
theorem Expression.strip_wrapped {expression : Expression}
    (noBlanks : Text.strip (Expression.word expression) = Expression.word expression) (levels : Nat) :
    Text.strip (Expression.word (wrapped expression levels)) = Expression.word (wrapped expression levels) := by
  induction levels with
  | zero => exact noBlanks
  | succ levels ih =>
    rw [word_wrapped, Text.strip_of_not_isBlank (by decide), Text.strip_append, ih]
    rfl

end Condensed

end ModelCatalog
