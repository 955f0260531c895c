import ModelCatalog.Markup.Attribute

/-!
# Events

A document is cut into events: tags, runs of text, and parts that carry nothing. Markup starts with
`<` and runs to the `>` that closes it; which one that is depends on the kind of markup. A text without
such a `>`, or one that starts like a special part without being one, ends the events with an error.
-/

namespace ModelCatalog.Markup

/-- What is wrong with markup. -/
inductive MarkupError where
  | unknownMarkup
  | unclosedInstruction
  | unclosedComment
  | unclosedDoctype
  | unclosedCData
  | unclosedTag
  | unmatchedEndTag (name : String)
  | mismatchedEndTag (expected found : String)
  | missingDoctypeName
deriving DecidableEq, Repr

def MarkupError.message : MarkupError → String
  | .unknownMarkup => "syntax error: unknown or missed symbol in markup"
  | .unclosedInstruction =>
    "syntax error: processing instruction or xml declaration not closed: `?>` not found before end of input"
  | .unclosedComment => "syntax error: comment not closed: `-->` not found before end of input"
  | .unclosedDoctype => "syntax error: DOCTYPE not closed: `>` not found before end of input"
  | .unclosedCData => "syntax error: CDATA not closed: `]]>` not found before end of input"
  | .unclosedTag => "syntax error: tag not closed: `>` not found before end of input"
  | .unmatchedEndTag name =>
    "ill-formed document: close tag `</" ++ name ++ ">` does not match any open tag"
  | .mismatchedEndTag expected found =>
    "ill-formed document: expected `</" ++ expected ++ ">`, but `</" ++ found ++ ">` was found"
  | .missingDoctypeName =>
    "ill-formed document: `<!DOCTYPE>` declaration does not contain a name of a document type"

/-- A part of a document. -/
inductive Event where
  | startTag (content : TagContent)
  | emptyTag (content : TagContent)
  | endTag (name : List Char)
  /-- Text with its entities. -/
  | text (raw : List Char)
  /-- Text without entities. -/
  | cdata (raw : List Char)
  /-- A comment, a declaration or a processing instruction. -/
  | skipped
  | broken (error : MarkupError)
deriving DecidableEq, Repr

/-! ## Where markup ends -/

/-- Cut a word at the first `>` that closes it; `closes` looks at the word before it, reversed. -/
def cutAt (closes : List Char → Bool) (before : List Char) :
    List Char → Option (List Char × List Char)
  | [] => none
  | c :: rest =>
    if c = '>' ∧ closes before then some (before.reverse, rest) else cutAt closes (c :: before) rest

/-- A comment ends with two hyphens, none of them one of the two characters it starts with, and is
    more than four characters long. -/
def closesComment : List Char → Bool
  | '-' :: '-' :: _ :: _ :: _ :: _ => true
  | _ => false

/-- Character data ends with two brackets. -/
def closesCData : List Char → Bool
  | ']' :: ']' :: _ => true
  | _ => false

/-- A processing instruction ends with a question mark. -/
def closesInstruction : List Char → Bool
  | '?' :: _ => true
  | _ => false

/-- Cut a document type declaration at the `>` that is not paired with a `<` inside it. -/
def cutDoctype (depth : Nat) : List Char → Option (List Char × List Char)
  | [] => none
  | c :: rest =>
    if c = '>' ∧ depth = 0 then some ([], rest)
    else
      let depth := if c = '<' then depth + 1 else if c = '>' then depth - 1 else depth
      (cutDoctype depth rest).map fun (content, rest) => (c :: content, rest)

/-- Cut a tag at the first `>` outside quotation marks and apostrophes. -/
def cutTag (quote : Option Char) : List Char → Option (List Char × List Char)
  | [] => none
  | c :: rest =>
    if c = '>' ∧ quote = none then some ([], rest)
    else
      let quote :=
        match quote with
        | none => if c = '"' ∨ c = '\'' then some c else none
        | some mark => if c = mark then none else some mark
      (cutTag quote rest).map fun (content, rest) => (c :: content, rest)

/-- The kinds of markup that the first characters behind `<` tell apart. -/
inductive MarkupKind where
  | comment
  | cdata
  | doctype
  | instruction
  | endTag
  | startTag
deriving DecidableEq, Repr

/-- The kind of the markup that starts a word. -/
def MarkupKind.of (word : List Char) : Except MarkupError MarkupKind :=
  match word with
  | '!' :: '-' :: _ => .ok .comment
  | '!' :: '[' :: _ => .ok .cdata
  | '!' :: 'D' :: _ | '!' :: 'd' :: _ => .ok .doctype
  | '!' :: _ => .error .unknownMarkup
  | '?' :: _ => .ok .instruction
  | '/' :: _ => .ok .endTag
  | _ => .ok .startTag

/-- The error of markup that does not end. -/
def MarkupKind.unclosed : MarkupKind → MarkupError
  | .comment => .unclosedComment
  | .cdata => .unclosedCData
  | .doctype => .unclosedDoctype
  | .instruction => .unclosedInstruction
  | .endTag | .startTag => .unclosedTag

/-- Cut a word behind the markup of a kind that starts it: the content before the closing `>`, and
    what follows. -/
def MarkupKind.cut (kind : MarkupKind) (word : List Char) : Option (List Char × List Char) :=
  match kind with
  | .comment => cutAt closesComment [] word
  | .cdata => cutAt closesCData [] word
  | .doctype => cutDoctype 0 word
  | .instruction => cutAt closesInstruction [] word
  | .endTag | .startTag => cutTag none word

/-! ## What markup says -/

/-- The name in an end tag, blanks behind it dropped; a name of blanks only keeps them. -/
def endTagName (content : List Char) : List Char :=
  if content.all isSpace then content else (content.reverse.dropWhile isSpace).reverse

/-- The declaration word in upper or lower case at the start of a content, and what follows. -/
def afterDoctype? (content : List Char) : Option (List Char) :=
  let word := ['!', 'D', 'O', 'C', 'T', 'Y', 'P', 'E']
  if (content.take word.length).map Char.toUpper = word then some (content.drop word.length) else none

/-- The event of a content of a kind. -/
def MarkupKind.event (kind : MarkupKind) (content : List Char) : Event :=
  match kind with
  | .comment =>
    match content with
    | '!' :: '-' :: '-' :: _ => .skipped
    | _ => .broken .unclosedComment
  | .cdata =>
    match content with
    | '!' :: '[' :: 'C' :: 'D' :: 'A' :: 'T' :: 'A' :: '[' :: data => .cdata (data.dropLast.dropLast)
    | _ => .broken .unclosedCData
  | .doctype =>
    match afterDoctype? content with
    | none => .broken .unclosedDoctype
    | some name => if name.all isSpace then .broken .missingDoctypeName else .skipped
  | .instruction => if content.length < 2 then .broken .unclosedInstruction else .skipped
  | .endTag => .endTag (endTagName (content.drop 1))
  | .startTag =>
    if content.getLast? = some '/' then .emptyTag (.read content.dropLast)
    else .startTag (.read content)

/-! ## Events of a document -/

theorem cutAt_shorter {closes : List Char → Bool} {before word content rest : List Char}
    (h : cutAt closes before word = some (content, rest)) : rest.length < word.length := by
  induction word generalizing before with
  | nil => simp [cutAt] at h
  | cons c tail ih =>
    simp only [cutAt] at h
    split at h
    · simp only [Option.some.injEq, Prod.mk.injEq] at h
      simp [h.2]
    · have := ih h
      simp only [List.length_cons]
      omega

theorem cutDoctype_shorter {depth : Nat} {word content rest : List Char}
    (h : cutDoctype depth word = some (content, rest)) : rest.length < word.length := by
  induction word generalizing depth content with
  | nil => simp [cutDoctype] at h
  | cons c tail ih =>
    simp only [cutDoctype] at h
    split at h
    · simp only [Option.some.injEq, Prod.mk.injEq] at h
      simp [h.2]
    · simp only [Option.map_eq_some_iff, Prod.mk.injEq] at h
      obtain ⟨⟨_, after⟩, cut, _, rfl⟩ := h
      have : after.length < tail.length := ih cut
      simp only [List.length_cons]
      omega

theorem cutTag_shorter {quote : Option Char} {word content rest : List Char}
    (h : cutTag quote word = some (content, rest)) : rest.length < word.length := by
  induction word generalizing quote content with
  | nil => simp [cutTag] at h
  | cons c tail ih =>
    simp only [cutTag] at h
    split at h
    · simp only [Option.some.injEq, Prod.mk.injEq] at h
      simp [h.2]
    · simp only [Option.map_eq_some_iff, Prod.mk.injEq] at h
      obtain ⟨⟨_, after⟩, cut, _, rfl⟩ := h
      have : after.length < tail.length := ih cut
      simp only [List.length_cons]
      omega

theorem MarkupKind.cut_shorter {kind : MarkupKind} {word content rest : List Char}
    (h : kind.cut word = some (content, rest)) : rest.length < word.length := by
  cases kind
  all_goals first
    | exact cutAt_shorter h
    | exact cutDoctype_shorter h
    | exact cutTag_shorter h

/-- The events of the rest of a document, each with its byte position. -/
def eventsFrom (position : Nat) (word : List Char) : List (Nat × Event) :=
  match word with
  | [] => []
  | '<' :: markup =>
    match MarkupKind.of markup with
    | .error error => [(position, .broken error)]
    | .ok kind =>
      match _cut : kind.cut markup with
      | none => [(position, .broken kind.unclosed)]
      | some (content, rest) =>
        (position, kind.event content) :: eventsFrom (position + Text.byteLength content + 2) rest
  | c :: tail =>
    let run := c :: tail.takeWhile (· ≠ '<')
    (position, .text run) ::
      eventsFrom (position + Text.byteLength run) (tail.dropWhile (· ≠ '<'))
termination_by word.length
decreasing_by
  · have := MarkupKind.cut_shorter _cut
    simp only [List.length_cons]
    omega
  · have := length_dropWhile_le (· ≠ '<') tail
    simp only [List.length_cons]
    omega

/-- The byte order mark, which may stand before a document. -/
def byteOrderMark : Char := '\ufeff'

/-- The events of a document. A byte order mark before it is left out, of the positions too. -/
def events (text : List Char) : List (Nat × Event) :=
  match text with
  | [] => []
  | c :: rest => if c = byteOrderMark then eventsFrom 0 rest else eventsFrom 0 (c :: rest)

end ModelCatalog.Markup
