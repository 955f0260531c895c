import ModelCatalog.Number.Digits

/-!
# JSON texts

The small part of JSON that indexes and configurations are written in: objects and arrays of strings
and nulls. A text is cut into tokens, and any other token than these is refused, since no text with one
is of the form asked for. Strings follow the format exactly: no raw control characters, the short
escapes, and code points as pairs of surrogates where they need two.
-/

namespace ModelCatalog.Storage.Json

/-- The tokens of a text. -/
inductive Token where
  | openObject
  | closeObject
  | openArray
  | closeArray
  | colon
  | comma
  | null
  | string (value : String)
deriving DecidableEq, Repr

/-- The number that four hexadecimal digits write. -/
def unit? (a b c d : Char) : Option Nat := do
  let digit := Number.digitValue? 16
  return ((← digit a) * 16 + (← digit b)) * 256 + (← digit c) * 16 + (← digit d)

/-- The character that a letter after a backslash stands for. -/
def shortEscape? : Char → Option Char
  | '"' => some '"'
  | '\\' => some '\\'
  | '/' => some '/'
  | 'b' => some '\x08'
  | 'f' => some '\x0c'
  | 'n' => some '\n'
  | 'r' => some '\r'
  | 't' => some '\t'
  | _ => none

/-- A string that is being read: nothing special, behind a backslash, in the digits of a unit, or behind
    the first unit of a pair. -/
inductive StringState where
  | plain
  | backslash
  | digits (high : Option Nat) (read : List Char)
  | pairBackslash (high : Nat)
  | pairLetter (high : Nat)

/-- The first units of pairs. -/
def isHigh (unit : Nat) : Bool := 0xd800 ≤ unit && unit ≤ 0xdbff

/-- The second units of pairs. -/
def isLow (unit : Nat) : Bool := 0xdc00 ≤ unit && unit ≤ 0xdfff

/-- The characters of a string up to its closing quotation mark, and what follows. -/
def stringFrom (state : StringState) (word : List Char) : List Char → Option (List Char × List Char)
  | [] => none
  | c :: rest =>
    match state with
    | .plain =>
      if c = '"' then some (word.reverse, rest)
      else if c = '\\' then stringFrom .backslash word rest
      else if c.toNat < 0x20 then none
      else stringFrom .plain (c :: word) rest
    | .backslash =>
      if c = 'u' then stringFrom (.digits none []) word rest
      else do stringFrom .plain ((← shortEscape? c) :: word) rest
    | .pairBackslash high => if c = '\\' then stringFrom (.pairLetter high) word rest else none
    | .pairLetter high => if c = 'u' then stringFrom (.digits (some high) []) word rest else none
    | .digits high read =>
      match read with
      | [third, second, first] => do
        let unit ← unit? first second third c
        match high with
        | none =>
          if isLow unit then none
          else if isHigh unit then stringFrom (.pairBackslash unit) word rest
          else stringFrom .plain (Char.ofNat unit :: word) rest
        | some high =>
          if isLow unit then
            let code := (high - 0xd800) * 0x400 + (unit - 0xdc00) + 0x10000
            stringFrom .plain (Char.ofNat code :: word) rest
          else none
      | read => stringFrom (.digits high (c :: read)) word rest

theorem stringFrom_shorter {state : StringState} {word text value rest : List Char}
    (h : stringFrom state word text = some (value, rest)) : rest.length < text.length := by
  induction text generalizing state word with
  | nil => simp [stringFrom] at h
  | cons c tail ih =>
    simp only [List.length_cons]
    have step : ∀ {state word}, stringFrom state word tail = some (value, rest) →
        rest.length < tail.length + 1 := fun h => Nat.lt_succ_of_lt (ih h)
    unfold stringFrom at h
    repeat' split at h
    all_goals first
      | exact step h
      | (simp only [Option.some.injEq, Prod.mk.injEq] at h; simp [h.2])
      | cases h
      | (obtain ⟨_, _, h⟩ := Option.bind_eq_some_iff.1 h
         repeat' split at h
         all_goals first
           | exact step h
           | cases h)

/-- The tokens of a text. -/
def tokens (text : List Char) : Option (List Token) :=
  match text with
  | [] => some []
  | c :: rest =>
    if c = ' ' ∨ c = '\t' ∨ c = '\r' ∨ c = '\n' then tokens rest
    else if c = '"' then
      match _string : stringFrom .plain [] rest with
      | none => none
      | some (value, rest) => (tokens rest).map (.string (String.ofList value) :: ·)
    else if c = '\x7b' then (tokens rest).map (.openObject :: ·)
    else if c = '\x7d' then (tokens rest).map (.closeObject :: ·)
    else if c = '[' then (tokens rest).map (.openArray :: ·)
    else if c = ']' then (tokens rest).map (.closeArray :: ·)
    else if c = ':' then (tokens rest).map (.colon :: ·)
    else if c = ',' then (tokens rest).map (.comma :: ·)
    else
      match c, rest with
      | 'n', 'u' :: 'l' :: 'l' :: rest => (tokens rest).map (.null :: ·)
      | _, _ => none
termination_by text.length
decreasing_by
  all_goals simp only [List.length_cons]
  all_goals first
    | omega
    | exact Nat.lt_succ_of_lt (stringFrom_shorter _string)

/-- A value: a string, or null. -/
def value? : Token → Option (Option String)
  | .string value => some (some value)
  | .null => some none
  | _ => none

/-- The members of an object, in order, up to the brace that closes it and ends the text. -/
def members : List Token → Option (List (String × Option String))
  | [.string key, .colon, value, .closeObject] => return [(key, ← value? value)]
  | .string key :: .colon :: value :: .comma :: rest =>
    return (key, ← value? value) :: (← members rest)
  | _ => none

/-- The items of an array, in order, up to the bracket that closes it and ends the text. -/
def items : List Token → Option (List (Option String))
  | [value, .closeArray] => return [← value? value]
  | value :: .comma :: rest => return (← value? value) :: (← items rest)
  | _ => none

/-- The members of an object that is the whole text. -/
def object? (tokens : List Token) : Option (List (String × Option String)) :=
  match tokens with
  | [.openObject, .closeObject] => some []
  | .openObject :: rest => members rest
  | _ => none

/-- The items of an array that is the whole text. -/
def array? (tokens : List Token) : Option (List (Option String)) :=
  match tokens with
  | [.openArray, .closeArray] => some []
  | .openArray :: rest => items rest
  | _ => none

end ModelCatalog.Storage.Json
