import ModelCatalog.Proofs.Tag.Grammar

/-!
# Tokens of expressions

The tokens of a text write the text (`tokens_join`). The other way round, the word of an expression is
cut into the tokens of its tree (`Expression.tokens_word`): no character of a chain is a delimiter, and
between two chains there always stands one.
-/

namespace ModelCatalog

namespace Condensed

/-- The characters of a token. -/
def Token.word : Token → List Char
  | .opening => ['\x7b']
  | .closing => ['\x7d']
  | .comma => [',']
  | .text word => word

theorem word_of_delimiter? {c : Char} {token : Token} (isDelimiter : delimiter? c = some token) :
    token.word = [c] := by
  unfold delimiter? at isDelimiter
  split at isDelimiter <;> cases isDelimiter <;> rfl

/-- The tokens of a text write the text. -/
theorem tokens_join (word : List Char) : (tokens word).flatMap Token.word = word := by
  fun_induction tokens word with
  | case1 => rfl
  | case2 c rest token isDelimiter ih =>
    rw [List.flatMap_cons, ih, word_of_delimiter? isDelimiter, List.singleton_append]
  | case3 c rest _ word after cut ih =>
    rw [cut, List.flatMap_cons] at ih
    rw [List.flatMap_cons, ← ih]
    rfl
  | case4 c rest _ _ ih =>
    rw [List.flatMap_cons, ih]
    rfl

/-- A text that is empty or goes on with a delimiter. -/
def Ended (word : List Char) : Prop := ∀ c ∈ word.head?, (delimiter? c).isSome

theorem ended_nil : Ended [] := fun _ member => nomatch member

theorem ended_delimiter {c : Char} {token : Token} (isDelimiter : delimiter? c = some token) (rest : List Char) :
    Ended (c :: rest) := by
  rintro d ⟨⟩
  rw [isDelimiter]
  rfl

theorem tokens_delimiter {c : Char} {token : Token} {rest : List Char}
    (isDelimiter : delimiter? c = some token) : tokens (c :: rest) = token :: tokens rest := by
  rw [tokens, isDelimiter]

/-- The tokens of a text that is empty or goes on with a delimiter do not start with a word. -/
theorem tokens_ne_text {word : List Char} {rest : List Char} {after : List Token} (ended : Ended rest) :
    tokens rest ≠ .text word :: after := by
  intro same
  cases rest with
  | nil => cases same
  | cons c rest =>
    obtain ⟨token, isDelimiter⟩ := Option.isSome_iff_exists.mp (ended c rfl)
    rw [tokens_delimiter isDelimiter] at same
    cases same
    have letter := word_of_delimiter? isDelimiter
    unfold delimiter? at isDelimiter
    split at isDelimiter <;> cases isDelimiter

/-- A character that is no delimiter joins the word behind it. -/
theorem tokens_plain {c : Char} {rest word : List Char} {after : List Token} (plain : delimiter? c = none)
    (behind : tokens rest = .text word :: after) : tokens (c :: rest) = .text (c :: word) :: after := by
  rw [tokens, plain, behind]

/-- A character before a delimiter is a word of its own. -/
theorem tokens_plain_ended {c : Char} {rest : List Char} (plain : delimiter? c = none)
    (ended : Ended rest) : tokens (c :: rest) = .text [c] :: tokens rest := by
  rw [tokens, plain]
  cases behind : tokens rest with
  | nil => rfl
  | cons token after =>
    cases token with
    | text word => exact absurd behind (tokens_ne_text ended)
    | _ => rfl

/-- A run of characters up to a delimiter is one token. -/
theorem tokens_text {word rest : List Char} (plain : ∀ c ∈ word, delimiter? c = none) (some : word ≠ [])
    (ended : Ended rest) : tokens (word ++ rest) = .text word :: tokens rest := by
  induction word with
  | nil => exact absurd rfl some
  | cons c word ih =>
    obtain ⟨first, others⟩ := List.forall_mem_cons.mp plain
    by_cases last : word = []
    · subst last
      exact tokens_plain_ended first ended
    · exact tokens_plain first (ih others last)

/-! ## The tokens of a tree -/

mutual

/-- The tokens of a component. -/
def Component.tokens : Component → List Token
  | .chain written => [.text written.word]
  | .group body => .opening :: (Expression.tokens body ++ [.closing])
  | .nested written separator body =>
    .text (written.word ++ separator.word) :: .opening :: (Expression.tokens body ++ [.closing])

/-- The tokens of an expression. -/
def Expression.tokens : Expression → List Token
  | [] => []
  | [component] => component.tokens
  | component :: rest => component.tokens ++ .comma :: Expression.tokens rest

end

theorem delimiter?_of_isNameChar {c : Char} (letter : isNameChar c) : delimiter? c = none := by
  unfold delimiter?
  split
  · exact absurd letter (by decide)
  · exact absurd letter (by decide)
  · exact absurd letter (by decide)
  · rfl

theorem delimiter?_of_mem_separator {c : Char} {separator : Separator} (member : c ∈ separator.word) :
    delimiter? c = none := by
  cases separator with
  | strict =>
    rcases List.mem_cons.mp member with rfl | last
    · rfl
    · rw [List.mem_singleton.mp last]
      rfl
  | accumulating =>
    rw [List.mem_singleton.mp member]
    rfl

theorem Written.delimiter?_of_mem_word {c : Char} {written : Written} (member : c ∈ written.word) :
    delimiter? c = none := by
  rcases List.mem_append.mp member with first | behind
  · exact delimiter?_of_isNameChar ((isName_iff.mp written.first.2).2 c first)
  · obtain ⟨link, _, inside⟩ := List.mem_flatMap.mp behind
    rcases List.mem_append.mp inside with between | name
    · exact delimiter?_of_mem_separator between
    · exact delimiter?_of_isNameChar ((isName_iff.mp link.2.2).2 c name)

theorem Written.word_ne_nil (written : Written) : written.word ≠ [] :=
  List.append_ne_nil_of_left_ne_nil (isName_iff.mp written.first.2).1 _

mutual

/-- A component is cut into the tokens of its tree. -/
theorem Component.tokens_word (component : Component) {rest : List Char} (ended : Ended rest) :
    Condensed.tokens (component.word ++ rest) = component.tokens ++ Condensed.tokens rest := by
  have closed : Ended ('\x7d' :: rest) := ended_delimiter rfl rest
  have opened : ∀ inner, Ended ('\x7b' :: inner) := ended_delimiter rfl
  cases component with
  | chain written =>
    exact tokens_text (fun _ member => Written.delimiter?_of_mem_word member) written.word_ne_nil ended
  | group body =>
    have inner := Expression.tokens_word body closed
    rw [tokens_delimiter rfl] at inner
    simp only [Component.word, Component.tokens, List.cons_append, List.append_assoc, List.nil_append]
    rw [tokens_delimiter rfl, inner]
  | nested written separator body =>
    have inner := Expression.tokens_word body closed
    rw [tokens_delimiter rfl] at inner
    have plain : ∀ c ∈ written.word ++ separator.word, delimiter? c = none := by
      intro c member
      rcases List.mem_append.mp member with before | last
      · exact Written.delimiter?_of_mem_word before
      · exact delimiter?_of_mem_separator last
    have outer := tokens_text plain (List.append_ne_nil_of_left_ne_nil written.word_ne_nil _)
      (opened (Expression.word body ++ '\x7d' :: rest))
    rw [tokens_delimiter rfl, inner] at outer
    simp only [Component.word, Component.tokens, List.cons_append, List.append_assoc, List.nil_append]
      at outer ⊢
    exact outer

/-- An expression is cut into the tokens of its tree. -/
theorem Expression.tokens_word (expression : Expression) {rest : List Char} (ended : Ended rest) :
    Condensed.tokens (Expression.word expression ++ rest) =
      Expression.tokens expression ++ Condensed.tokens rest := by
  cases expression with
  | nil => rfl
  | cons component others =>
    cases others with
    | nil => exact component.tokens_word ended
    | cons next others =>
      have comma : Ended (',' :: (Expression.word (next :: others) ++ rest)) := ended_delimiter rfl _
      have first := component.tokens_word comma
      rw [tokens_delimiter rfl, Expression.tokens_word (next :: others) ended] at first
      simp only [Expression.word, Expression.tokens, List.cons_append, List.append_assoc] at first ⊢
      exact first

end

end Condensed

end ModelCatalog
