import ModelCatalog.Tag.Identifier
import Mathlib.Data.Set.Function

/-!
# Identifiers and chains of names

A text is an identifier exactly when it is one or more names with `::` between each two
(`isIdentifier_iff`), and it determines these names: different chains of names have different
identifiers (`identifier_injective`).
-/

namespace ModelCatalog

/-- One or more names. -/
def Chain.IsNamed (chain : Chain) : Prop := chain ≠ [] ∧ ∀ name ∈ chain, isName name

/-- A text of names with `::` between each two. -/
def IsIdentifier (text : String) : Prop := ∃ chain : Chain, chain.IsNamed ∧ text = chain.identifier

theorem isName_iff {word : List Char} : isName word ↔ word ≠ [] ∧ ∀ c ∈ word, isNameChar c := by
  simp [isName]

theorem not_isNameChar_colon : isNameChar ':' = false := by decide

namespace Chain

theorem word_cons_cons (name next : List Char) (rest : Chain) :
    word (name :: next :: rest) = name ++ ':' :: ':' :: word (next :: rest) := rfl

/-- A chain continued: the words stand with `::` between them. -/
theorem word_append {left right : Chain} (leftSome : left ≠ []) (rightSome : right ≠ []) :
    word (left ++ right) = left.word ++ ':' :: ':' :: right.word := by
  induction left with
  | nil => exact absurd rfl leftSome
  | cons name rest ih =>
    cases rest with
    | nil =>
      obtain ⟨next, others, rfl⟩ := List.exists_cons_of_ne_nil rightSome
      rfl
    | cons next others =>
      rw [List.cons_append, List.cons_append, word_cons_cons, word_cons_cons, ← List.cons_append,
        ih (List.cons_ne_nil _ _), List.append_assoc, List.cons_append, List.cons_append]

/-- The identifier of a chain continued. -/
theorem identifier_append {left right : Chain} (leftSome : left ≠ []) (rightSome : right ≠ []) :
    identifier (left ++ right) = left.identifier ++ "::" ++ right.identifier := by
  apply String.toList_injective
  simp only [identifier, word_append leftSome rightSome, String.toList_append, String.toList_ofList,
    List.append_assoc]
  rfl

/-- Two runs of name characters, each with the end of the word or a colon behind it, are equal when
    the words are. -/
private theorem run_eq {left right leftRest rightRest : List Char}
    (leftNamed : ∀ c ∈ left, isNameChar c) (rightNamed : ∀ c ∈ right, isNameChar c)
    (leftEnd : ∀ c ∈ leftRest.head?, c = ':') (rightEnd : ∀ c ∈ rightRest.head?, c = ':')
    (same : left ++ leftRest = right ++ rightRest) : left = right ∧ leftRest = rightRest := by
  induction left generalizing right with
  | nil =>
    cases right with
    | nil => exact ⟨rfl, same⟩
    | cons c right =>
      rw [List.nil_append] at same
      have colon := leftEnd c (by simp [same])
      have named := rightNamed c List.mem_cons_self
      rw [colon, not_isNameChar_colon] at named
      cases named
  | cons c left ih =>
    cases right with
    | nil =>
      rw [List.nil_append] at same
      have colon := rightEnd c (by simp [← same])
      have named := leftNamed c List.mem_cons_self
      rw [colon, not_isNameChar_colon] at named
      cases named
    | cons d right =>
      obtain ⟨rfl, tails⟩ := List.cons.inj same
      obtain ⟨rfl, rests⟩ := ih (fun c member => leftNamed c (List.mem_cons_of_mem _ member))
        (fun c member => rightNamed c (List.mem_cons_of_mem _ member)) tails
      exact ⟨rfl, rests⟩

/-- What stands in a word behind its first name. -/
def tailWord : Chain → List Char
  | [] => []
  | next :: rest => ':' :: ':' :: word (next :: rest)

theorem word_cons (name : List Char) (rest : Chain) : word (name :: rest) = name ++ tailWord rest := by
  cases rest with
  | nil => exact (List.append_nil name).symm
  | cons next rest => rfl

private theorem head_tailWord (rest : Chain) : ∀ c ∈ (tailWord rest).head?, c = ':' := by
  cases rest <;> simp [tailWord]

/-- Chains of names with the same word are equal. -/
theorem word_injective {left right : Chain} (leftNamed : left.IsNamed) (rightNamed : right.IsNamed)
    (same : left.word = right.word) : left = right := by
  induction left generalizing right with
  | nil => exact absurd rfl leftNamed.1
  | cons name rest ih =>
    obtain ⟨rightSome, rightNames⟩ := rightNamed
    obtain ⟨other, others, rfl⟩ := List.exists_cons_of_ne_nil rightSome
    rw [word_cons, word_cons] at same
    obtain ⟨rfl, tails⟩ := run_eq (isName_iff.mp (leftNamed.2 name List.mem_cons_self)).2
      (isName_iff.mp (rightNames other List.mem_cons_self)).2 (head_tailWord rest)
      (head_tailWord others) same
    cases rest with
    | nil =>
      cases others with
      | nil => rfl
      | cons => cases tails
    | cons next rest =>
      cases others with
      | nil => cases tails
      | cons second others =>
        have words : word (next :: rest) = word (second :: others) :=
          List.cons.inj (List.cons.inj tails).2 |>.2
        rw [ih ⟨List.cons_ne_nil _ _, fun name member => leftNamed.2 name (List.mem_cons_of_mem _ member)⟩
          ⟨List.cons_ne_nil _ _, fun name member => rightNames name (List.mem_cons_of_mem _ member)⟩
          words]

/-- Different chains of names have different identifiers. -/
theorem identifier_injective : Set.InjOn identifier {chain | chain.IsNamed} := by
  intro left leftNamed right rightNamed same
  exact word_injective leftNamed rightNamed (String.ofList_injective same)

end Chain

/-- What the scan for an identifier accepts: a run of name characters, which may be empty when a name
    is under way, and then names. -/
theorem isIdentifierFrom_iff {inName : Bool} {word : List Char} :
    isIdentifierFrom inName word ↔ ∃ (run : List Char) (rest : Chain), (∀ c ∈ run, isNameChar c) ∧
      (inName ∨ run ≠ []) ∧ (∀ name ∈ rest, isName name) ∧ word = Chain.word (run :: rest) := by
  fun_induction isIdentifierFrom inName word with
  | case1 inName =>
    constructor
    · intro accepted
      exact ⟨[], [], by simp, .inl accepted, by simp, rfl⟩
    · rintro ⟨run, rest, named, some, names, same⟩
      rw [Chain.word_cons] at same
      have none := (List.append_eq_nil_iff.mp same.symm).1
      exact some.resolve_right fun absurd => absurd none
  | case2 inName word ih =>
    rw [Bool.and_eq_true, ih]
    constructor
    · rintro ⟨accepted, run, rest, named, some, names, rfl⟩
      have first : isName run := isName_iff.mpr ⟨by simpa using some, named⟩
      exact ⟨[], run :: rest, by simp, .inl accepted, List.forall_mem_cons.mpr ⟨first, names⟩, rfl⟩
    · rintro ⟨run, rest, named, some, names, same⟩
      rw [Chain.word_cons] at same
      cases run with
      | nil =>
        cases rest with
        | nil => cases same
        | cons next rest =>
          have first := isName_iff.mp (names next List.mem_cons_self)
          exact ⟨by simpa using some, next, rest, first.2, .inr first.1,
            fun name member => names name (List.mem_cons_of_mem _ member),
            (List.cons.inj (List.cons.inj same).2).2⟩
      | cons c run =>
        obtain ⟨rfl, _⟩ := List.cons.inj same
        exact absurd (named ':' List.mem_cons_self) (by simp [not_isNameChar_colon])
  | case3 inName c word other ih =>
    rw [Bool.and_eq_true, ih]
    constructor
    · rintro ⟨letter, run, rest, named, _, names, rfl⟩
      exact ⟨c :: run, rest, List.forall_mem_cons.mpr ⟨letter, named⟩, .inr (List.cons_ne_nil _ _),
        names, by rw [Chain.word_cons, Chain.word_cons, List.cons_append]⟩
    · rintro ⟨run, rest, named, _, names, same⟩
      rw [Chain.word_cons] at same
      cases run with
      | nil =>
        -- Without a name under way the word would start with a separator.
        cases rest with
        | nil => cases same
        | cons next rest =>
          obtain ⟨colon, tail⟩ := List.cons.inj same
          exact absurd tail (other _ colon)
      | cons d run =>
        obtain ⟨rfl, tail⟩ := List.cons.inj same
        obtain ⟨letter, others⟩ := List.forall_mem_cons.mp named
        exact ⟨letter, run, rest, others, .inl rfl, names, by rw [Chain.word_cons]; exact tail⟩

/-- The scan accepts exactly the identifiers. -/
theorem isIdentifier_iff {text : String} : isIdentifier text ↔ IsIdentifier text := by
  rw [isIdentifier, isIdentifierFrom_iff]
  constructor
  · rintro ⟨run, rest, named, some, names, same⟩
    refine ⟨run :: rest, ⟨List.cons_ne_nil _ _, ?_⟩, ?_⟩
    · intro name member
      rcases List.mem_cons.mp member with rfl | later
      · exact isName_iff.mpr ⟨by simpa using some, named⟩
      · exact names name later
    · rw [Chain.identifier, ← same, String.ofList_toList]
  · rintro ⟨chain, ⟨some, names⟩, rfl⟩
    obtain ⟨name, rest, rfl⟩ := List.exists_cons_of_ne_nil some
    have first := isName_iff.mp (names name List.mem_cons_self)
    exact ⟨name, rest, first.2, .inr first.1, fun other member => names other (List.mem_cons_of_mem _ member),
      String.toList_ofList⟩

end ModelCatalog
