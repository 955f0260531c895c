import ModelCatalog.Number.Digits
import ModelCatalog.Text.Lines

/-!
# Entities

Texts and attribute values write some characters as entities between `&` and `;`: the five that have
names, and any character by its code point. Positions in errors are byte positions in the text.
-/

namespace ModelCatalog.Markup

/-- What is wrong with the digits of a code point. -/
inductive DigitsError where
  | empty
  | invalidDigit
  | tooLarge
deriving DecidableEq, Repr

def DigitsError.message : DigitsError → String
  | .empty => "cannot parse integer from empty string"
  | .invalidDigit => "invalid digit found in string"
  | .tooLarge => "number too large to fit in target type"

/-- What is wrong with a character written by its code point. -/
inductive ReferenceError where
  | sign
  | digits (cause : DigitsError)
  | notCharacter (code : Nat)
  | nul
deriving DecidableEq, Repr

def ReferenceError.message : ReferenceError → String
  | .sign => "unexpected number sign"
  | .digits cause => cause.message
  | .notCharacter code => "`" ++ toString code ++ "` is not a valid codepoint"
  | .nul => "0x0 character is not permitted in XML"

/-- What is wrong with an entity. -/
inductive EntityError where
  | unterminated (start stop : Nat)
  | unrecognized (start stop : Nat) (name : String)
  | reference (cause : ReferenceError)
deriving DecidableEq, Repr

/-- A range of byte positions. -/
def showRange (start stop : Nat) : String := toString start ++ ".." ++ toString stop

def EntityError.message : EntityError → String
  | .unterminated start stop =>
    "Error while escaping character at range " ++ showRange start stop ++ ": Cannot find ';' after '&'"
  | .unrecognized start stop name =>
    "at " ++ showRange start stop ++ ": unrecognized entity `" ++ name ++ "`"
  | .reference cause => "invalid character reference: " ++ cause.message

/-- The messages of an entity error and of its causes, from the outermost on. -/
def EntityError.causes (error : EntityError) : List String :=
  error.message ::
    match error with
    | .reference (.digits cause) => [cause.message, cause.message]
    | .reference cause => [cause.message]
    | _ => []

/-- The characters that entities name. -/
def namedEntity? (name : List Char) : Option Char :=
  match name with
  | ['l', 't'] => some '<'
  | ['g', 't'] => some '>'
  | ['a', 'm', 'p'] => some '&'
  | ['a', 'p', 'o', 's'] => some '\''
  | ['q', 'u', 'o', 't'] => some '"'
  | _ => none

/-- Continue a number with digits. It has to stay below `2 ^ 32` at every digit. -/
def readCodeFrom (base number : Nat) : List Char → Except DigitsError Nat
  | [] => .ok number
  | c :: rest =>
    match Number.digitValue? base c with
    | none => .error .invalidDigit
    | some value =>
      let next := base * number + value
      if next < 2 ^ 32 then readCodeFrom base next rest else .error .tooLarge

/-- The code point that digits write. -/
def readCode (base : Nat) (digits : List Char) : Except ReferenceError Nat :=
  match digits with
  | [] => .error (.digits .empty)
  | '+' :: _ | '-' :: _ => .error .sign
  | digits => (readCodeFrom base 0 digits).mapError .digits

/-- The character with a code point. -/
def characterOfCode (code : Nat) : Except ReferenceError Char :=
  if code = 0 then .error .nul
  else if h : code.isValidChar then .ok (Char.ofNatAux code h)
  else .error (.notCharacter code)

/-- The character that a reference without its `#` writes: `x` announces hexadecimal digits. -/
def readReference (reference : List Char) : Except ReferenceError Char := do
  match reference with
  | 'x' :: digits => characterOfCode (← readCode 16 digits)
  | digits => characterOfCode (← readCode 10 digits)

/-- The character of an entity whose name starts at a position. -/
def readEntity (start : Nat) (name : List Char) : Except EntityError Char :=
  match name with
  | '#' :: reference => (readReference reference).mapError .reference
  | name =>
    match namedEntity? name with
    | some c => .ok c
    | none => .error (.unrecognized start (start + Text.byteLength name) (String.ofList name))

/-- What of an entity has been read: the position of its `&` and the name so far, reversed. -/
abbrev OpenEntity := Option (Nat × List Char)

/-- Replace the entities in the rest of a text of `total` bytes, from a position on. -/
def unescapeFrom (total position : Nat) (entity : OpenEntity) :
    List Char → Except EntityError (List Char)
  | [] =>
    match entity with
    | none => .ok []
    | some (start, _) => .error (.unterminated start total)
  | c :: rest =>
    match entity with
    | none =>
      if c = '&' then unescapeFrom total (position + c.utf8Size) (some (position, [])) rest
      else return c :: (← unescapeFrom total (position + c.utf8Size) none rest)
    | some (start, name) =>
      if c = '&' then .error (.unterminated start total)
      else if c = ';' then do
        let character ← readEntity (start + 1) name.reverse
        return character :: (← unescapeFrom total (position + c.utf8Size) none rest)
      else unescapeFrom total (position + c.utf8Size) (some (start, c :: name)) rest

/-- Replace the entities in a text. -/
def unescape (text : List Char) : Except EntityError (List Char) :=
  unescapeFrom (Text.byteLength text) 0 none text

end ModelCatalog.Markup
