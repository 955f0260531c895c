import ModelCatalog.Text.Lines

/-!
# Attributes

The attributes in a start tag, in order: a key, `=` and a value between quotation marks or
apostrophes. Positions are byte positions in the content of the tag.
-/

namespace ModelCatalog.Markup

/-- Exactly the blanks that markup is laid out with: space, tab, carriage return, line feed. -/
def isSpace (c : Char) : Bool := c == ' ' || c == '\t' || c == '\r' || c == '\n'

/-- What is wrong with an attribute. -/
inductive AttributeError where
  | expectedEquals (position : Nat)
  | expectedValue (position : Nat)
  | unquotedValue (position : Nat)
  | expectedQuote (position : Nat) (quote : Char)
  | duplicated (position previous : Nat)
deriving DecidableEq, Repr

def AttributeError.message : AttributeError → String
  | .expectedEquals position =>
    "position " ++ toString position ++ ": attribute key must be directly followed by `=` or space"
  | .expectedValue position =>
    "position " ++ toString position ++ ": `=` must be followed by an attribute value"
  | .unquotedValue position =>
    "position " ++ toString position ++ ": attribute value must be enclosed in `\"` or `'`"
  | .expectedQuote position quote =>
    "position " ++ toString position ++ ": missing closing quote `" ++ quote.toString ++
      "` in attribute value"
  | .duplicated position previous =>
    "position " ++ toString position ++ ": duplicated attribute, previous declaration at position " ++
      toString previous

/-- An attribute with its value as written. -/
structure RawAttribute where
  key : List Char
  value : List Char
deriving DecidableEq, Repr

/-- The value that follows `=`, with the blanks around it: `quote` is the mark it starts with. -/
structure RawValue where
  value : List Char
  length : Nat
  rest : List Char

/-- Read a value from a position on, in a content of `total` bytes. -/
def readValue (total position : Nat) (word : List Char) : Except AttributeError RawValue :=
  let blanks := Text.byteLength (word.takeWhile isSpace)
  match word.dropWhile isSpace with
  | [] => .error (.expectedValue total)
  | quote :: quoted =>
    if quote = '"' ∨ quote = '\'' then
      let value := quoted.takeWhile (· ≠ quote)
      match quoted.dropWhile (· ≠ quote) with
      | [] => .error (.expectedQuote total quote)
      | _ :: rest => .ok { value, length := blanks + Text.byteLength value + 2, rest }
    else .error (.unquotedValue (position + blanks))

theorem length_dropWhile_le (p : α → Bool) (l : List α) : (l.dropWhile p).length ≤ l.length :=
  (List.dropWhile_sublist p).length_le

theorem readValue_shorter {total position : Nat} {word : List Char} {found : RawValue}
    (h : readValue total position word = .ok found) : found.rest.length < word.length := by
  simp only [readValue] at h
  have blanks := length_dropWhile_le isSpace word
  split at h
  · cases h
  next quote quoted start =>
    have first := congrArg List.length start
    rw [List.length_cons] at first
    split at h
    · have body := length_dropWhile_le (· ≠ quote) quoted
      split at h
      · cases h
      next closing rest close =>
        cases h
        have last := congrArg List.length close
        rw [List.length_cons] at last
        dsimp only at body last ⊢
        omega
    · cases h

/-- The attributes of a content of `total` bytes from a position on, up to the first that is wrong.
    `seen` holds the keys so far with their positions. A key that is written twice is wrong whatever
    its value. -/
def attributesFrom (total position : Nat) (seen : List (List Char × Nat)) (content : List Char) :
    List RawAttribute × Option AttributeError :=
  match _start : content.dropWhile isSpace with
  | [] => ([], none)
  | head :: tail =>
    let start := position + Text.byteLength (content.takeWhile isSpace)
    let inKey := fun c => !isSpace c && c != '='
    let key := head :: tail.takeWhile inKey
    let afterKey := start + Text.byteLength key
    let gap := (tail.dropWhile inKey).takeWhile isSpace
    match _equals : (tail.dropWhile inKey).dropWhile isSpace with
    | [] => ([], some (.expectedEquals total))
    | sign :: afterSign =>
      let signPosition := afterKey + Text.byteLength gap
      if sign ≠ '=' then ([], some (.expectedEquals signPosition))
      else
        match seen.lookup key with
        | some previous => ([], some (.duplicated start previous))
        | none =>
          match _value : readValue total (signPosition + 1) afterSign with
          | .error error => ([], some error)
          | .ok found =>
            let (attributes, error) :=
              attributesFrom total (signPosition + 1 + found.length) ((key, start) :: seen) found.rest
            ({ key, value := found.value } :: attributes, error)
termination_by content.length
decreasing_by
  have first := congrArg List.length _start
  have blanks := length_dropWhile_le isSpace content
  have second := congrArg List.length _equals
  have gap := length_dropWhile_le isSpace (tail.dropWhile inKey)
  have key := length_dropWhile_le inKey tail
  have value := readValue_shorter _value
  simp only [List.length_cons] at first second
  omega

/-- The name of a tag and the attributes behind it. The name runs to the first blank. -/
structure TagContent where
  name : List Char
  attributes : List RawAttribute
  error : Option AttributeError
deriving DecidableEq, Repr

/-- Read the content of a start tag. -/
def TagContent.read (content : List Char) : TagContent :=
  let name := content.takeWhile (!isSpace ·)
  let (attributes, error) :=
    attributesFrom (Text.byteLength content) (Text.byteLength name) []
      (content.dropWhile (!isSpace ·))
  { name, attributes, error }

end ModelCatalog.Markup
