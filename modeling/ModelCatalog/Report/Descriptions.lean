import ModelCatalog.Markup.Document
import ModelCatalog.NameSet

/-!
# Descriptions

What the codes of violations and failures mean, in sentences for people. A set of descriptions is
kept in a document: a root with one entry a code.
-/

namespace ModelCatalog

/-- Descriptions by code. -/
structure Descriptions where
  entries : List (String × String)

namespace Descriptions

/-- The description of a code. -/
def get? (descriptions : Descriptions) (code : String) : Option String :=
  descriptions.entries.lookup code

/-- The description of a code, or the code when it has none. -/
def describe (descriptions : Descriptions) (code : String) : String :=
  (descriptions.get? code).getD code

/-- The codes that have a description. -/
def codes (descriptions : Descriptions) : NameSet := NameSet.ofList (descriptions.entries.map (·.1))

/-- Why descriptions cannot be read. -/
inductive Error where
  | document (cause : Markup.DocumentError)
  | wrongRoot (tag : String)
  | wrongEntry (line : Nat)
  | duplicateEntry (line : Nat) (code : String)
deriving DecidableEq, Repr

def Error.message : Error → String
  | .document cause => cause.message
  | .wrongRoot tag => "catalog root must be <catalog>, found <" ++ tag ++ ">"
  | .wrongEntry line => "line " ++ toString line ++ ": expected <entry kind=\"...\">"
  | .duplicateEntry line code => "line " ++ toString line ++ ": duplicate catalog entry " ++ code

/-- Read entries in order. No code may occur twice. -/
def readEntries (descriptions : Descriptions) : List Element → Except Error Descriptions
  | [] => .ok descriptions
  | entry :: rest =>
    if entry.tag = "entry" then
      match entry.attribute? "kind" with
      | none => .error (.wrongEntry entry.line)
      | some code =>
        if (descriptions.get? code).isSome then .error (.duplicateEntry entry.line code)
        else readEntries ⟨descriptions.entries ++ [(code, entry.trimmedText)]⟩ rest
    else .error (.wrongEntry entry.line)

/-- Read the descriptions in a document. -/
def parse (text : String) : Except Error Descriptions := do
  let root ← (Markup.parse text).mapError .document
  if root.tag = "catalog" then readEntries ⟨[]⟩ root.children else throw (.wrongRoot root.tag)

/-- What the codes of match failures and of manifest validation mean. -/
def matchFailures : Descriptions := ⟨[
  ("TAG_MISMATCH",
    "The manifest has a different element than the filter expects at this position."),
  ("DICT_MISSING_KEY",
    "The filter requires a key that the manifest dict does not have."),
  ("LIST_INSUFFICIENT_CHILDREN",
    "The manifest list has fewer items than the filter constrains."),
  ("STRING_VALUE_NOT_EQUAL",
    "The manifest string differs from the required value."),
  ("BOOL_VALUE_NOT_EQUAL",
    "The manifest bool differs from the required value."),
  ("NUMERIC_FAILED_COMPARISON",
    "The manifest number does not satisfy the comparison, read as manifest op filter."),
  ("LOGICAL_OPERATION_MATCH_FAILURE",
    "No operand of an or matched, or the operand of a not matched."),
  ("TAG_COLLECTION_EXPLICIT_TAG_MATCH_FAILURE",
    "The manifest does not declare every tag the filter requires."),
  ("TAG_NOT_FOUND",
    "A referenced tag has no definition in the tag registry."),
  ("TAG_CYCLE",
    "A tag definition refers back to a tag that is already being resolved."),
  ("TYPE_DECLARATION_TUPLE_INCORRECT_CHILDREN_COUNT",
    "The manifest tuple has a different number of element types than the filter."),
  ("TYPE_DECLARATION_TENSOR_DIFFERENT_DIM_NUMBER",
    "The manifest tensor has a different rank than the filter."),
  ("TYPE_DECLARATION_DIM_FAILED_COMPARISON",
    "A tensor dimension does not satisfy the comparison."),
  ("TYPE_DECLARATION_NAMED_VALUE_COLLECTION_DIFFERENT_KEYS",
    "The manifest named values must have exactly the keys of the filter."),
  ("UNFILLED_VALUE",
    "The manifest still contains the unfilled placeholder."),
  ("UNKNOWN_TAGS",
    "The manifest declares tags that are not in the tag registry.")
]⟩

/-- What the codes of the grammar rules and of filter validation mean. -/
def validUsage : Descriptions := ⟨[
  ("INVALID_TAG",
    "The element is not part of the value vocabulary at this position. Values are dict, list, string, bool, int, float, type-declaration and tag-collection; filters may also use logical."),
  ("MISSING_FILTER_OPERATION",
    "Every filter element needs a filter attribute, except named-field, type-named-value, condensed-tags and the primitive type tags."),
  ("INVALID_FILTER_OPERATION",
    "The filter attribute names an operation that is not legal on this element."),
  ("ILLEGAL_FILTER_ATTRIBUTE",
    "Manifests describe values; the filter attribute is only allowed in filters."),
  ("ILLEGAL_CONTENT_WHEN_NONE",
    "An element with filter=\"none\" only constrains its tag and must have no children and no text."),
  ("ILLEGAL_TEXT_ON_CONTAINER",
    "dict, list, logical, named-field, type-declaration, tag-collection and the type-tensor, type-list, type-tuple, type-named-value-collection and type-named-value containers hold elements only; text other than whitespace is not allowed."),
  ("DICT_INVALID_CHILD",
    "A dict may only contain named-field elements."),
  ("DICT_DUPLICATE_KEYS",
    "Every named-field of a dict needs a distinct name."),
  ("NAMED_FIELD_MISSING_NAME",
    "A named-field needs a name attribute."),
  ("NAMED_FIELD_WRONG_CHILD_COUNT",
    "A named-field holds exactly one value element."),
  ("ILLEGAL_CHILD_ON_TERMINAL",
    "string, bool, int and float hold text only, never child elements."),
  ("INT_INVALID_LITERAL",
    "The text of an int is not a signed 64-bit integer."),
  ("FLOAT_INVALID_LITERAL",
    "The text of a float is not a floating point number."),
  ("BOOL_INVALID_LITERAL",
    "A bool is one of true, 1, True, TRUE, false, 0, False or FALSE."),
  ("TYPE_DECLARATION_WRONG_CHILD_COUNT",
    "A type-declaration holds exactly one type element."),
  ("TYPE_DECLARATION_INVALID_TAG",
    "The element is not a type at this position. dim belongs in type-tensor and type-named-value in type-named-value-collection."),
  ("TYPE_DECLARATION_ILLEGAL_CONTENT_ON_PRIMITIVE",
    "type-string, type-bool, type-int and type-float must be empty."),
  ("TYPE_DECLARATION_LIST_WRONG_CHILD_COUNT",
    "A type-list holds exactly one element type."),
  ("TYPE_DECLARATION_TENSOR_INVALID_CHILD",
    "A type-tensor may only contain dim elements, or logical over dims in a filter."),
  ("TYPE_DECLARATION_NAMED_VALUE_COLLECTION_INVALID_CHILD",
    "A type-named-value-collection may only contain type-named-value elements."),
  ("TYPE_DECLARATION_NAMED_VALUE_COLLECTION_DUPLICATE_KEYS",
    "Every type-named-value of a collection needs a distinct name."),
  ("TYPE_DECLARATION_NAMED_VALUE_MISSING_NAME",
    "A type-named-value needs a name attribute."),
  ("TYPE_DECLARATION_NAMED_VALUE_WRONG_CHILD_COUNT",
    "A type-named-value holds exactly one type element."),
  ("TYPE_DECLARATION_DIM_INVALID_LITERAL",
    "The text of a dim is not an integer."),
  ("TYPE_DECLARATION_DIM_ILLEGAL_CHILD",
    "A dim holds text only, never child elements."),
  ("LOGICAL_WRONG_CHILD_COUNT",
    "and/or need at least two operands; not takes exactly one."),
  ("TAG_COLLECTION_INVALID_CHILD",
    "A tag-collection may only contain condensed-tags elements."),
  ("CONDENSED_TAGS_EMPTY",
    "A condensed-tags element must contain a tag expression."),
  ("CONDENSED_TAGS_INVALID_SYNTAX",
    "The tag expression does not parse. Use seg::seg for strict nesting, seg.seg for accumulating nesting, commas for union and braces for grouping after a separator."),
  ("CONDENSED_TAGS_ILLEGAL_CHILD",
    "A condensed-tags element holds text only."),
  ("CONDENSED_TAGS_ILLEGAL_FILTER_ATTRIBUTE",
    "condensed-tags never carries a filter attribute; the operation belongs on the enclosing tag-collection."),
  ("UNKNOWN_TAGS",
    "The document references tags that are not in the tag registry.")
]⟩

end Descriptions

end ModelCatalog
