import ModelCatalog.Markup.Element
import ModelCatalog.Markup.Entity
import ModelCatalog.Markup.Event
import ModelCatalog.Text.Quoted

/-!
# Documents

The events of a document are put together to its element tree, from left to right. Elements that are
open stand on a stack, the innermost first; the text between two tags goes to the innermost one. A
document has exactly one root, and elements nest at most `maxDepth` deep.
-/

namespace ModelCatalog.Markup

/-- The deepest nesting of elements in a document. -/
def maxDepth : Nat := 64

/-- Why a document cannot be read. -/
inductive DocumentError where
  | markup (line : Nat) (cause : MarkupError)
  | tooDeep (line : Nat)
  | attribute (tag : String) (line : Nat) (cause : AttributeError)
  | attributeValue (key : String) (line : Nat) (cause : EntityError)
  | text (line : Nat) (cause : EntityError)
  | secondRoot (tag : String) (line : Nat)
  | textOutsideRoot (line : Nat)
  | unclosedElement (tag : String) (line : Nat)
  | noRoot
deriving DecidableEq, Repr

def DocumentError.message : DocumentError → String
  | .markup line cause => "xml syntax error near line " ++ toString line ++ ": " ++ cause.message
  | .tooDeep line =>
    "element nesting at line " ++ toString line ++ " exceeds the maximum depth of " ++
      toString maxDepth
  | .attribute tag line cause =>
    "bad attribute on <" ++ tag ++ "> at line " ++ toString line ++ ": " ++ cause.message
  | .attributeValue key line cause =>
    ": ".intercalate
      (("attribute " ++ Text.quoted key ++ " at line " ++ toString line) ::
        cause.message :: cause.causes)
  | .text line cause => "bad text content at line " ++ toString line ++ ": " ++ cause.message
  | .secondRoot tag line => "second root element <" ++ tag ++ "> at line " ++ toString line
  | .textOutsideRoot line => "text outside the root element at line " ++ toString line
  | .unclosedElement tag line =>
    "element <" ++ tag ++ "> opened at line " ++ toString line ++ " is never closed"
  | .noRoot => "document has no root element"

/-- A document that is being read: the open elements, innermost first, and the root once it is
    complete. -/
structure Progress where
  stack : List Element := []
  root : Option Element := none

/-- Read the values of attributes in order. -/
def readAttributes (line : Nat) :
    List RawAttribute → Except DocumentError (List (String × String))
  | [] => .ok []
  | raw :: rest =>
    match unescape raw.value with
    | .error cause => .error (.attributeValue (String.ofList raw.key) line cause)
    | .ok value => return (String.ofList raw.key, String.ofList value) :: (← readAttributes line rest)

/-- The element of a start tag, without content as yet. -/
def openElement (line : Nat) (content : TagContent) : Except DocumentError Element := do
  let tag := String.ofList content.name
  let attributes ← readAttributes line content.attributes
  match content.error with
  | some cause => throw (.attribute tag line cause)
  | none => return { tag, line, attributes }

/-- Put a complete element into the innermost open one, or take it as the root. -/
def Progress.attach (progress : Progress) (element : Element) : Except DocumentError Progress :=
  match progress.stack, progress.root with
  | parent :: outer, _ =>
    .ok { progress with
      stack := { parent with children := parent.children ++ [element] } :: outer }
  | [], none => .ok { progress with root := some element }
  | [], some _ => .error (.secondRoot element.tag element.line)

/-- Put text into the innermost open element. Outside the root only blanks may stand. -/
def Progress.append (progress : Progress) (line : Nat) (text : List Char) :
    Except DocumentError Progress :=
  match progress.stack with
  | top :: outer =>
    let text := top.text.getD "" ++ String.ofList text
    .ok { progress with stack := { top with text := some text } :: outer }
  | [] => if text.all Text.isBlank then .ok progress else .error (.textOutsideRoot line)

/-- Nest no deeper than allowed. -/
def Progress.checkDepth (progress : Progress) (line : Nat) : Except DocumentError Unit :=
  if progress.stack.length < maxDepth then .ok () else .error (.tooDeep line)

/-- Close the innermost open element, which has to have the name of the end tag. -/
def Progress.close (progress : Progress) (line : Nat) (name : List Char) :
    Except DocumentError Progress :=
  match progress.stack with
  | [] => .error (.markup line (.unmatchedEndTag (String.ofList name)))
  | top :: outer =>
    if top.tag = String.ofList name then { progress with stack := outer }.attach top
    else .error (.markup line (.mismatchedEndTag top.tag (String.ofList name)))

/-- Take in an event at a line. -/
def Progress.step (progress : Progress) (line : Nat) (event : Event) :
    Except DocumentError Progress := do
  match event with
  | .startTag content =>
    progress.checkDepth line
    let element ← openElement line content
    return { progress with stack := element :: progress.stack }
  | .emptyTag content =>
    progress.checkDepth line
    progress.attach (← openElement line content)
  | .endTag name => progress.close line name
  | .text raw =>
    match unescape raw with
    | .error cause => throw (.text line cause)
    | .ok text => progress.append line text
  | .cdata raw => progress.append line raw
  | .skipped => return progress
  | .broken error => throw (.markup line error)

/-- Take in events in order. The line of an event is the line of its position. -/
def Progress.run (progress : Progress) (lines : Text.LineCounter) :
    List (Nat × Event) → Except DocumentError Progress
  | [] => .ok progress
  | (position, event) :: rest => do
    let lines := lines.advance position
    let progress ← progress.step lines.line event
    progress.run lines rest

/-- The root of a document that has been read to its end. -/
def Progress.finish (progress : Progress) : Except DocumentError Element :=
  match progress.stack, progress.root with
  | top :: _, _ => .error (.unclosedElement top.tag top.line)
  | [], some root => .ok root
  | [], none => .error .noRoot

/-- Read a document. Positions are counted without a byte order mark before the document, and lines
    in the text with it. -/
def parse (text : String) : Except DocumentError Element := do
  let word := text.toList
  let progress ← ({} : Progress).run (.start word) (events word)
  progress.finish

end ModelCatalog.Markup
