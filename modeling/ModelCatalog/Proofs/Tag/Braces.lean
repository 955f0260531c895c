import ModelCatalog.Proofs.Results
import ModelCatalog.Proofs.Tag.Expansion

/-!
# Texts whose braces balance

A text in which no beginning closes more groups than it opens, and which closes as many as it opens (`Closes`), is
one whose tokens are nested (`closes_iff_nested`), and blanks have no part in this. The tokens of
two texts with a delimiter between them are those of each (`tokens_append_delimiter`). So a nested expression
before a comma keeps its components (`Nested.allComponents_append`), and a group with nothing behind it expands
to what its body expands to, joined to what stands before it (`expandAlone_group`).
-/

namespace ModelCatalog

namespace Condensed

/-! ## Counting braces -/

/-- With `depth` groups open before it, a text never closes a group that is not open, and it leaves none open. -/
structure Closes (depth : Nat) (word : List Char) : Prop where
  neverBelow : ∀ before, before <+: word → before.count '\x7d' ≤ depth + before.count '\x7b'
  even : word.count '\x7d' = depth + word.count '\x7b'

variable {depth : Nat} {c : Char} {word rest : List Char}

theorem closes_nil_iff : Closes depth [] ↔ depth = 0 := by
  constructor
  · intro closes
    have even := closes.even
    simp only [List.count_nil] at even
    omega
  · rintro rfl
    refine ⟨fun before begins => ?_, rfl⟩
    rw [List.prefix_nil.mp begins]
    simp

/-- What a first character adds to the counts of braces, and what it leaves to the rest. -/
theorem closes_cons_iff {other : Nat} (balance : other + [c].count '\x7d' = depth + [c].count '\x7b') :
    Closes depth (c :: word) ↔ Closes other word := by
  have split : ∀ (brace : Char) (rest : List Char), (c :: rest).count brace = [c].count brace + rest.count brace := by
    intro brace rest
    rw [← List.count_append, List.singleton_append]
  constructor
  · rintro ⟨neverBelow, even⟩
    rw [split '\x7d' word, split '\x7b' word] at even
    refine ⟨fun before begins => ?_, by omega⟩
    have bound := neverBelow (c :: before) ((List.prefix_cons_inj c).mpr begins)
    rw [split '\x7d' before, split '\x7b' before] at bound
    omega
  · rintro ⟨neverBelow, even⟩
    refine ⟨fun before begins => ?_, ?_⟩
    · rcases List.prefix_cons_iff.mp begins with rfl | ⟨tail, rfl, inside⟩
      · simp
      · have bound := neverBelow tail inside
        rw [split '\x7d' tail, split '\x7b' tail]
        omega
    · rw [split '\x7d' word, split '\x7b' word]
      omega

theorem closes_opening_iff : Closes depth ('\x7b' :: word) ↔ Closes (depth + 1) word :=
  closes_cons_iff (by simp)

theorem closes_closing_iff : Closes (depth + 1) ('\x7d' :: word) ↔ Closes depth word :=
  closes_cons_iff (by simp)

theorem not_closes_closing : ¬Closes 0 ('\x7d' :: word) := by
  rintro ⟨neverBelow, _⟩
  have bound := neverBelow ['\x7d'] ⟨word, rfl⟩
  simp at bound

/-- A character that is no brace does not count. -/
theorem closes_plain_iff (notOpening : c ≠ '\x7b') (notClosing : c ≠ '\x7d') :
    Closes depth (c :: word) ↔ Closes depth word :=
  closes_cons_iff (by simp [notOpening, notClosing])

/-- Blanks are no braces. -/
theorem closes_strip_iff : Closes depth (Text.strip word) ↔ Closes depth word := by
  induction word generalizing depth with
  | nil => rfl
  | cons c word ih =>
    cases blank : Text.isBlank c with
    | true =>
      have notOpening : c ≠ '\x7b' := by
        rintro rfl
        exact absurd blank (by decide)
      have notClosing : c ≠ '\x7d' := by
        rintro rfl
        exact absurd blank (by decide)
      rw [Text.strip_of_isBlank blank, closes_plain_iff notOpening notClosing, ih]
    | false =>
      rw [Text.strip_of_not_isBlank blank]
      by_cases opening : c = '\x7b'
      · subst opening
        rw [closes_opening_iff, closes_opening_iff, ih]
      by_cases closing : c = '\x7d'
      · subst closing
        cases depth with
        | zero => simp only [not_closes_closing]
        | succ depth => rw [closes_closing_iff, closes_closing_iff, ih]
      rw [closes_plain_iff opening closing, closes_plain_iff opening closing, ih]

/-! ## Tokens -/

theorem delimiter?_ne_text {d : Char} {token : Token} (isDelimiter : delimiter? d = some token) :
    token ≠ .text word := by
  rintro rfl
  unfold delimiter? at isDelimiter
  split at isDelimiter <;> cases isDelimiter

/-- A delimiter ends the tokens before it. -/
theorem tokens_append_delimiter {d : Char} {token : Token} (isDelimiter : delimiter? d = some token)
    (word rest : List Char) : tokens (word ++ d :: rest) = tokens word ++ token :: tokens rest := by
  induction word with
  | nil => exact tokens_delimiter isDelimiter
  | cons c word ih =>
    rw [List.cons_append]
    cases plain : delimiter? c with
    | some first => rw [tokens_delimiter plain, tokens_delimiter plain, ih, List.cons_append]
    | none =>
      rw [tokens, tokens, plain, ih]
      cases tokens word with
      | nil =>
        cases token with
        | text word => exact absurd rfl (delimiter?_ne_text isDelimiter)
        | opening | closing | comma => rfl
      | cons first after => cases first <;> rfl

/-- A character that is no delimiter does not count for the braces in the tokens. -/
theorem balanced_tokens_plain (plain : delimiter? c = none) :
    balanced depth (tokens (c :: word)) = balanced depth (tokens word) := by
  rw [tokens, plain]
  cases tokens word with
  | nil => rfl
  | cons first after => cases first <;> rfl

/-- The braces of a text balance when those of its tokens do. -/
theorem balanced_tokens_iff : balanced depth (tokens word) = true ↔ Closes depth word := by
  induction word generalizing depth with
  | nil => rw [closes_nil_iff, tokens, balanced, beq_iff_eq]
  | cons c word ih =>
    by_cases opening : c = '\x7b'
    · subst opening
      rw [tokens_delimiter rfl, balanced, ih, closes_opening_iff]
    by_cases closing : c = '\x7d'
    · subst closing
      rw [tokens_delimiter rfl]
      cases depth with
      | zero => simp [balanced, not_closes_closing]
      | succ depth => rw [balanced, ih, closes_closing_iff]
    rw [closes_plain_iff opening closing, ← ih]
    by_cases comma : c = ','
    · subst comma
      rw [tokens_delimiter rfl, balanced]
    · have plain : delimiter? c = none := by
        unfold delimiter?
        split <;> first | rfl | contradiction
      rw [balanced_tokens_plain plain]

/-! ## Nested tokens -/

/-- When braces balance behind an open group, a nested expression stands before the brace that closes the group. -/
theorem exists_nested_of_balanced {depth : Nat} {tokens : List Token} (isBalanced : balanced (depth + 1) tokens = true) :
    ∃ inner after, tokens = inner ++ .closing :: after ∧ Nested inner ∧ balanced depth after = true := by
  match tokens with
  | [] => simp [balanced] at isBalanced
  | .closing :: rest => exact ⟨[], rest, rfl, .nil, isBalanced⟩
  | .text word :: rest =>
    have later : balanced (depth + 1) rest = true := isBalanced
    obtain ⟨inner, after, rfl, nested, behind⟩ := exists_nested_of_balanced later
    exact ⟨.text word :: inner, after, rfl, .text nested, behind⟩
  | .comma :: rest =>
    have later : balanced (depth + 1) rest = true := isBalanced
    obtain ⟨inner, after, rfl, nested, behind⟩ := exists_nested_of_balanced later
    exact ⟨.comma :: inner, after, rfl, .comma nested, behind⟩
  | .opening :: rest =>
    -- The group that opens here is closed first, and then the one that is under way.
    have later : balanced (depth + 1 + 1) rest = true := isBalanced
    obtain ⟨body, between, rfl, isBody, later⟩ := exists_nested_of_balanced later
    obtain ⟨inner, after, rfl, nested, behind⟩ := exists_nested_of_balanced later
    exact ⟨.opening :: (body ++ .closing :: inner), after, by simp, .group isBody nested, behind⟩
termination_by tokens.length

/-- Tokens are nested when their braces balance. -/
theorem nested_of_balanced {tokens : List Token} (isBalanced : balanced 0 tokens = true) : Nested tokens := by
  match tokens with
  | [] => exact .nil
  | .closing :: rest => simp [balanced] at isBalanced
  | .text word :: rest => exact .text (nested_of_balanced isBalanced)
  | .comma :: rest => exact .comma (nested_of_balanced isBalanced)
  | .opening :: rest =>
    have later : balanced (0 + 1) rest = true := isBalanced
    obtain ⟨body, after, rfl, isBody, behind⟩ := exists_nested_of_balanced later
    exact .group isBody (nested_of_balanced behind)
termination_by tokens.length

namespace Nested

variable {tokens : List Token}

/-- Outside all groups, a comma behind a nested expression ends its last component. -/
theorem components_append_comma (nested : Nested tokens) (after : List Token) :
    components 0 (tokens ++ .comma :: after) =
      ((components 0 tokens).1, (components 0 tokens).2 ++ allComponents after) := by
  induction nested with
  | nil => simp [components, allComponents]
  | text _ ih => simp [components, Token.depthAfter, ih]
  | comma _ ih => simp [components, ih]
  | group inner _ _ ih => simp [components, Token.depthAfter, inner.components_append, ih]

/-- The components of two expressions with a comma between them are those of each. -/
theorem allComponents_append (nested : Nested tokens) (after : List Token) :
    allComponents (tokens ++ .comma :: after) = allComponents tokens ++ allComponents after := by
  rw [allComponents, nested.components_append_comma, allComponents]
  rfl

/-- A group whose body is nested stands in one component. -/
theorem components_group (nested : Nested tokens) (after : List Token) :
    components 0 (.opening :: (tokens ++ .closing :: after)) =
      (.opening :: (tokens ++ .closing :: (components 0 after).1), (components 0 after).2) := by
  simp [components, Token.depthAfter, nested.components_append]

end Nested

/-- The braces of a text balance when its tokens are nested, blanks left out or not. -/
theorem closes_iff_nested : Closes 0 word ↔ Nested (tokens (Text.strip word)) := by
  rw [← closes_strip_iff, ← balanced_tokens_iff]
  exact ⟨nested_of_balanced, Nested.balanced⟩

/-! ## Expansion -/

/-- A group at the end of a component is expanded first, and then what stands before it. -/
theorem expandAlone_group {before body : List Token} (none : .opening ∉ before) (nested : Nested body) :
    expandAlone (before ++ .opening :: (body ++ [.closing])) = expandExpression body >>= expandBefore before :=
  expandComponent_group none (nested.closeGroup_closing [])

theorem expandAlone_text (word : List Char) :
    expandAlone [.text word] = expandChain word >>= fun expansion => .ok expansion.chains :=
  expandComponent_text

/-- The tags that chains of names stand for. -/
def tagsOf (chains : List Chain) : NameSet := NameSet.ofList (chains.map Chain.identifier)

/-- A text with nested tokens is read as its tokens are expanded. -/
theorem parse_of_nested {text : String} (nested : Nested (tokens (Text.strip text.toList))) :
    parse text = expandExpression (tokens (Text.strip text.toList)) >>= fun chains => .ok (tagsOf chains) := by
  rw [parse]
  simp only [nested.balanced, if_true]
  rfl

end Condensed

end ModelCatalog
