import ModelCatalog.Proofs.Results
import ModelCatalog.Proofs.Tag.Grammar
import Mathlib.Data.Set.List

/-!
# Expanding chains

A chain is cut into pieces at its separators. The pieces of a written chain are its names
(`Written.pieces_word`), and pieces join to the word that they were cut from (`pieces_join`); so a word
expands exactly when it is a written chain, and then to the chains of names behind the tags of that
chain (`expandChain_word`, `exists_written_of_expandChain`).
-/

namespace ModelCatalog

namespace Condensed

/-! ## Pieces -/

theorem pieces_cons {c : Char} (letter : isNameChar c) (rest : List Char) :
    pieces (c :: rest) = (c :: (pieces rest).1, (pieces rest).2) := by
  have noColon : c ≠ ':' := by
    rintro rfl
    exact absurd letter (by decide)
  have noPoint : c ≠ '.' := by
    rintro rfl
    exact absurd letter (by decide)
  rw [pieces]
  all_goals simp [noColon, noPoint]

/-- A name stays in its piece. -/
theorem pieces_append {name : List Char} (letters : ∀ c ∈ name, isNameChar c) (rest : List Char) :
    pieces (name ++ rest) = (name ++ (pieces rest).1, (pieces rest).2) := by
  induction name with
  | nil => rfl
  | cons c name ih =>
    obtain ⟨letter, others⟩ := List.forall_mem_cons.mp letters
    rw [List.cons_append, pieces_cons letter, ih others, List.cons_append]

/-- A separator ends a piece. -/
theorem pieces_separator (separator : Separator) (rest : List Char) :
    pieces (separator.word ++ rest) = ([], (separator, (pieces rest).1) :: (pieces rest).2) := by
  cases separator <;> rfl

/-- A chain with a text behind it that starts a new piece is cut into its names and the pieces behind. -/
theorem Written.pieces_append (written : Written) {word : List Char} (startsNew : (pieces word).1 = []) :
    pieces (written.word ++ word) =
      (written.first.1, written.rest.map (fun link => (link.1, link.2.1)) ++ (pieces word).2) := by
  have letters : ∀ name : Name, ∀ c ∈ name.1, isNameChar c := fun name => (isName_iff.mp name.2).2
  obtain ⟨first, rest⟩ := written
  induction rest generalizing first with
  | nil =>
    rw [Written.word, List.flatMap_nil, List.append_nil, Condensed.pieces_append (letters first), startsNew,
      List.append_nil]
    rfl
  | cons link rest ih =>
    have behind := ih link.2
    simp only [Written.word, List.append_assoc] at behind
    simp only [Written.word, List.flatMap_cons, List.append_assoc]
    rw [Condensed.pieces_append (letters first), pieces_separator, behind, List.append_nil]
    rfl

/-- The pieces of a written chain are its names. -/
theorem Written.pieces_word (written : Written) :
    pieces written.word = (written.first.1, written.rest.map fun link => (link.1, link.2.1)) := by
  have whole := written.pieces_append (rfl : (pieces []).1 = [])
  rw [List.append_nil] at whole
  rw [whole, pieces, List.append_nil]

/-- The pieces of a word, with their separators, are the word. -/
theorem pieces_join (word : List Char) :
    (pieces word).1 ++ (pieces word).2.flatMap (fun link => link.1.word ++ link.2) = word := by
  fun_induction pieces word with
  | case1 => rfl
  | case2 rest piece others cut ih =>
    rw [cut] at ih
    rw [List.flatMap_cons, List.nil_append, List.append_assoc, ih]
    rfl
  | case3 rest piece others cut ih =>
    rw [cut] at ih
    rw [List.flatMap_cons, List.nil_append, List.append_assoc, ih]
    rfl
  | case4 rest => rw [List.flatMap_nil, List.append_nil]
  | case5 c rest _ _ _ piece others cut ih =>
    rw [cut] at ih
    rw [List.cons_append, ih]

/-! ## Expansions -/

theorem checkPiece_ends {inner last : Bool} {piece : List Char} :
    Ends (fun _ => ¬isName piece) (fun _ => isName piece) (checkPiece inner last piece) := by
  rw [checkPiece]
  by_cases none : piece = []
  · subst none
    exact fun named => (isName_iff.mp named).1 rfl
  · rw [if_neg none]
    by_cases letters : piece.all isNameChar
    · rw [if_pos letters]
      exact isName_iff.mpr ⟨none, List.all_eq_true.mp letters⟩
    · rw [if_neg letters]
      exact fun named => letters (List.all_eq_true.mpr (isName_iff.mp named).2)

/-- A position in a list is the first one or one behind it. -/
theorem exists_position_cons_iff {α : Type} {head : α} {rest : List α} (holds : α → Nat → Prop) :
    (∃ position, ∃ below : position < (head :: rest).length, holds (head :: rest)[position] position) ↔
      holds head 0 ∨ ∃ position, ∃ below : position < rest.length, holds rest[position] (position + 1) := by
  constructor
  · rintro ⟨position, below, found⟩
    cases position with
    | zero => exact .inl found
    | succ position => exact .inr ⟨position, Nat.lt_of_succ_lt_succ below, found⟩
  · rintro (found | ⟨position, below, found⟩)
    · exact ⟨0, Nat.zero_lt_succ _, found⟩
    · exact ⟨position + 1, Nat.succ_lt_succ below, found⟩

/-- A separator names the chain before it when it is a point; `position` pieces of the others stand
    between the first piece and it. -/
def NamedBefore (outer : Chain) (piece : List Char) (others : List (Separator × List Char)) (chain : Chain)
    (link : Separator × List Char) (position : Nat) : Prop :=
  link.1 = .accumulating ∧ chain = outer ++ (piece :: others.map (·.2)).take (position + 1)

/-- What the expansion of pieces behind a chain is: the whole chain is the deepest, and it and each
    beginning with a point behind it are named. -/
structure Expands (outer : Chain) (piece : List Char) (others : List (Separator × List Char))
    (expansion : Expansion) : Prop where
  deepest : expansion.deepest = outer ++ piece :: others.map (·.2)
  chains : ∀ chain, chain ∈ expansion.chains ↔ chain = outer ++ piece :: others.map (·.2) ∨
    ∃ position, ∃ below : position < others.length,
      NamedBefore outer piece others chain others[position] position

/-- Pieces are refused when one of them is no name, and expanded when all are names. -/
theorem expandPieces_ends {outer : Chain} {inner : Bool} {piece : List Char}
    {others : List (Separator × List Char)} :
    Ends (fun _ => ¬(isName piece ∧ ∀ other ∈ others, isName other.2))
      (fun expansion => (isName piece ∧ ∀ other ∈ others, isName other.2) ∧
        Expands outer piece others expansion)
      (expandPieces outer inner piece others) := by
  induction others generalizing outer inner piece with
  | nil =>
    rw [expandPieces]
    refine (checkPiece_ends.imp (fun _ noName all => noName all.1) fun _ named => named).bind
      fun _ named => ?_
    refine ⟨⟨named, fun _ member => absurd member List.not_mem_nil⟩, rfl, fun chain => ?_⟩
    simp
  | cons link others ih =>
    obtain ⟨separator, next⟩ := link
    rw [expandPieces]
    refine (checkPiece_ends.imp (fun _ noName all => noName all.1) fun _ named => named).bind
      fun _ named => ?_
    refine (ih.imp (fun _ noNames all => noNames (List.forall_mem_cons.mp all.2)) fun _ done => done).bind
      fun expansion ⟨names, expands⟩ => ?_
    have all : isName piece ∧ ∀ other ∈ (separator, next) :: others, isName other.2 :=
      ⟨named, List.forall_mem_cons.mpr names⟩
    have deepest : expansion.deepest = outer ++ piece :: ((separator, next) :: others).map (·.2) := by
      rw [expands.deepest, List.append_assoc]
      rfl
    have behind : ∀ chain link position, NamedBefore (outer ++ [piece]) next others chain link position ↔
        NamedBefore outer piece ((separator, next) :: others) chain link (position + 1) := by
      intro chain link position
      simp [NamedBefore]
    have named : ∀ chain, chain ∈ expansion.chains ↔
        chain = outer ++ piece :: ((separator, next) :: others).map (·.2) ∨
          ∃ position, ∃ below : position < others.length,
            NamedBefore outer piece ((separator, next) :: others) chain others[position] (position + 1) := by
      intro chain
      rw [expands.chains, ← deepest, expands.deepest]
      simp only [behind]
    cases separator with
    | strict =>
      refine ⟨all, deepest, fun chain => ?_⟩
      rw [exists_position_cons_iff (NamedBefore outer piece ((.strict, next) :: others) chain), named]
      simp [NamedBefore]
    | accumulating =>
      refine ⟨all, deepest, fun chain => ?_⟩
      rw [exists_position_cons_iff (NamedBefore outer piece ((.accumulating, next) :: others) chain),
        List.mem_cons, named]
      simp only [NamedBefore, true_and, List.take_succ_cons, List.take_zero]
      exact or_left_comm

/-- A written chain expands to the chains of names behind its tags. -/
theorem expandChain_word (written : Written) : ∃ expansion, expandChain written.word = .ok expansion ∧
    expansion.deepest = written.names ∧ ∀ chain, chain ∈ expansion.chains ↔ chain ∈ written.chains := by
  have names : isName written.first.1 ∧
      ∀ other ∈ written.rest.map fun link => (link.1, link.2.1), isName other.2 := by
    refine ⟨written.first.2, fun other member => ?_⟩
    obtain ⟨link, _, rfl⟩ := List.mem_map.mp member
    exact link.2.2
  have ends : Ends _ _ (expandPieces [] false written.first.1
      (written.rest.map fun link => (link.1, link.2.1))) := expandPieces_ends
  rw [expandChain, written.pieces_word]
  cases result : expandPieces [] false written.first.1 (written.rest.map fun link => (link.1, link.2.1)) with
  | error error => exact absurd names (ends.of_error result)
  | ok expansion =>
    obtain ⟨_, expands⟩ := ends.of_ok result
    have whole : written.first.1 :: (written.rest.map fun link => (link.1, link.2.1)).map (·.2) =
        written.names := by
      rw [List.map_map]
      rfl
    refine ⟨expansion, result, by rw [expands.deepest, whole, List.nil_append], fun chain => ?_⟩
    rw [expands.chains]
    simp only [NamedBefore, whole, List.nil_append, List.getElem_map, List.length_map]
    rfl

/-- Pieces that are names are those of written links. -/
theorem exists_links {others : List (Separator × List Char)} (names : ∀ other ∈ others, isName other.2) :
    ∃ rest : List (Separator × Name), rest.map (fun link => (link.1, link.2.1)) = others := by
  have links : others ∈ Set.range (List.map fun link : Separator × Name => (link.1, link.2.1)) := by
    rw [Set.range_list_map]
    intro other member
    exact ⟨(other.1, ⟨other.2, names other member⟩), rfl⟩
  exact links

/-- A word that expands is a written chain. -/
theorem exists_written_of_expandChain {word : List Char} {expansion : Expansion}
    (done : expandChain word = .ok expansion) : ∃ written : Written, written.word = word := by
  obtain ⟨⟨first, names⟩, _⟩ := expandPieces_ends.of_ok done
  obtain ⟨rest, same⟩ := exists_links names
  refine ⟨⟨⟨(pieces word).1, first⟩, rest⟩, ?_⟩
  have joined := pieces_join word
  rw [← same, List.flatMap_map] at joined
  exact joined

end Condensed

end ModelCatalog
