import ModelCatalog.Markup.Entity
import ModelCatalog.Proofs.Results

/-!
# Escaping

The characters that markup is made of are written by their names in texts and values (`escape`). Where an
entity stands tells only in errors (`toOption_unescapeFrom`); so a text that starts with an escaped piece
stands for that piece and what the rest stands for (`unescaped?_escape_append`), and the piece is what
was escaped (`unescape_escape`).
-/

namespace ModelCatalog.Markup

/-- The names of the characters that are not written as themselves. -/
def entityName? (c : Char) : Option (List Char) :=
  if c = '&' then some ['a', 'm', 'p']
  else if c = '<' then some ['l', 't']
  else if c = '>' then some ['g', 't']
  else if c = '"' then some ['q', 'u', 'o', 't']
  else if c = '\'' then some ['a', 'p', 'o', 's']
  else none

/-- A character as it is written in a text or a value. -/
def escapeChar (c : Char) : List Char :=
  match entityName? c with
  | some name => '&' :: (name ++ [';'])
  | none => [c]

/-- A text or a value as it is written. -/
def escape (word : List Char) : List Char := word.flatMap escapeChar

theorem escape_cons (c : Char) (word : List Char) : escape (c :: word) = escapeChar c ++ escape word := rfl

/-- What a name is, for each of the five. -/
theorem entityName?_cases {c : Char} {name : List Char} (named : entityName? c = some name) :
    namedEntity? name = some c ∧ name.all Char.isAlpha := by
  unfold entityName? at named
  repeat' split at named
  all_goals cases named
  all_goals
    subst c
    exact ⟨rfl, rfl⟩

theorem escapeChar_of_plain {c : Char} (plain : entityName? c = none) : escapeChar c = [c] := by
  rw [escapeChar, plain]

/-- No markup starts or ends in an escaped text. -/
theorem not_mem_escape {c : Char} {word : List Char} (special : c = '<' ∨ c = '>' ∨ c = '"' ∨ c = '\'') :
    c ∉ escape word := by
  intro member
  obtain ⟨written, _, inside⟩ := List.mem_flatMap.mp member
  unfold escapeChar at inside
  cases named : entityName? written with
  | none =>
    rw [named, List.mem_singleton] at inside
    subst inside
    rcases special with rfl | rfl | rfl | rfl <;> cases named
  | some name =>
    rw [named] at inside
    have letters := List.all_eq_true.mp (entityName?_cases named).2
    rcases List.mem_cons.mp inside with rfl | inside
    · rcases special with impossible | impossible | impossible | impossible <;> cases impossible
    · rcases List.mem_append.mp inside with inside | inside
      · have letter := letters c inside
        rcases special with rfl | rfl | rfl | rfl <;> cases letter
      · rw [List.mem_singleton] at inside
        subst inside
        rcases special with impossible | impossible | impossible | impossible <;> cases impossible

theorem escape_ne_nil {word : List Char} (notEmpty : word ≠ []) : escape word ≠ [] := by
  cases word with
  | nil => exact absurd rfl notEmpty
  | cons c rest =>
    rw [escape_cons, escapeChar]
    cases entityName? c <;> exact nofun

/-! ## Reading back -/

/-- What a text stands for, when all its entities are right. -/
def unescaped? (text : List Char) : Option (List Char) := (unescape text).toOption

variable {total position : Nat}

theorem toOption_readEntity (start other : Nat) (name : List Char) :
    (readEntity start name).toOption = (readEntity other name).toOption := by
  unfold readEntity
  split
  · rfl
  · split <;> rfl

/-- Positions tell only in errors. -/
theorem toOption_unescapeFrom {entity other : OpenEntity} (same : entity.map (·.2) = other.map (·.2))
    (word : List Char) (otherTotal otherPosition : Nat) :
    (unescapeFrom total position entity word).toOption =
      (unescapeFrom otherTotal otherPosition other word).toOption := by
  induction word generalizing entity other position otherPosition with
  | nil => cases entity <;> cases other <;> first | rfl | cases same
  | cons c rest ih =>
    cases entity with
    | none =>
      cases other with
      | some _ => cases same
      | none =>
        simp only [unescapeFrom]
        split
        · apply ih
          rfl
        · rw [toOption_bind, toOption_bind, ih rfl]
    | some read =>
      cases other with
      | none => cases same
      | some otherRead =>
        obtain ⟨start, name⟩ := read
        obtain ⟨otherStart, otherName⟩ := otherRead
        cases Option.some.inj same
        simp only [unescapeFrom]
        split
        · rfl
        · split
          · rw [toOption_bind, toOption_bind, toOption_readEntity (start + 1) (otherStart + 1)]
            refine congrArg _ (funext fun character => ?_)
            rw [toOption_bind, toOption_bind, ih rfl]
          · apply ih
            rfl

/-- A character in front of what the rest stands for. -/
theorem toOption_onward (c : Char) (rest : List Char) :
    (unescapeFrom total position none rest >>= fun onward => pure (c :: onward)).toOption =
      (unescaped? rest).map (c :: ·) := by
  rw [toOption_bind, toOption_unescapeFrom rfl rest (Text.byteLength rest) 0]
  change (unescaped? rest).bind _ = _
  cases unescaped? rest <;> rfl

/-- A name of letters is read to its end. -/
theorem unescapeFrom_name {start : Nat} {name read rest : List Char} {c : Char}
    (letters : name.all Char.isAlpha) (names : namedEntity? (read.reverse ++ name) = some c) :
    (unescapeFrom total position (some (start, read)) (name ++ ';' :: rest)).toOption =
      (unescaped? rest).map (c :: ·) := by
  induction name generalizing read position with
  | nil =>
    have isEntity : readEntity (start + 1) read.reverse = .ok c := by
      rw [List.append_nil] at names
      unfold readEntity
      split
      next same =>
        rw [same] at names
        cases names
      · rw [names]
    rw [List.nil_append, unescapeFrom, if_neg (by decide), if_pos rfl, isEntity]
    exact toOption_onward c rest
  | cons letter name ih =>
    obtain ⟨isLetter, others⟩ := Bool.and_eq_true_iff.mp (List.all_cons.symm.trans letters)
    have inside : letter ≠ '&' ∧ letter ≠ ';' := by
      constructor <;> rintro rfl <;> cases isLetter
    rw [List.cons_append, unescapeFrom, if_neg inside.1, if_neg inside.2]
    exact ih others (by rwa [List.reverse_cons, List.append_assoc, List.singleton_append])

theorem unescaped?_escapeChar_append (c : Char) (rest : List Char) :
    unescaped? (escapeChar c ++ rest) = (unescaped? rest).map (c :: ·) := by
  rw [unescaped?, unescape, escapeChar]
  cases named : entityName? c with
  | none =>
    have plain : c ≠ '&' := by
      rintro rfl
      cases named
    rw [List.singleton_append, unescapeFrom, if_neg plain]
    exact toOption_onward c rest
  | some name =>
    obtain ⟨names, letters⟩ := entityName?_cases named
    rw [List.cons_append, List.append_assoc, unescapeFrom, if_pos rfl]
    exact unescapeFrom_name letters names

/-- An escaped piece stands for itself in front of any text. -/
theorem unescaped?_escape_append (piece rest : List Char) :
    unescaped? (escape piece ++ rest) = (unescaped? rest).map (piece ++ ·) := by
  induction piece with
  | nil => cases h : unescaped? rest <;> simp [escape, h]
  | cons c piece ih =>
    rw [escape_cons, List.append_assoc, unescaped?_escapeChar_append, ih]
    cases unescaped? rest <;> rfl

/-- What was escaped is read back. -/
theorem unescape_escape (word : List Char) : unescape (escape word) = .ok word := by
  have read := unescaped?_escape_append word []
  rw [List.append_nil] at read
  unfold unescaped? at read
  cases unescaped : unescape (escape word) with
  | error cause =>
    rw [unescaped] at read
    cases read
  | ok result =>
    rw [unescaped] at read
    cases Option.some.inj read
    simp

end ModelCatalog.Markup
