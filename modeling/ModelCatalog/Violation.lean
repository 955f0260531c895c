import ModelCatalog.Markup.Element
import ModelCatalog.Tag.Condensed
import ModelCatalog.Vocabulary

/-!
# Violations

The rules of the two grammars, each with a code, and what a message says about the element that
breaks one.
-/

namespace ModelCatalog

/-- The rules a filter or a manifest can break. -/
inductive Rule where
  | invalidTag
  | missingFilterOperation
  | invalidFilterOperation
  | illegalFilterAttribute
  | illegalContentWhenNone
  | illegalTextOnContainer
  | dictInvalidChild
  | dictDuplicateKeys
  | namedFieldMissingName
  | namedFieldWrongChildCount
  | illegalChildOnTerminal
  | intInvalidLiteral
  | floatInvalidLiteral
  | boolInvalidLiteral
  | typeDeclarationWrongChildCount
  | typeDeclarationInvalidTag
  | typeDeclarationIllegalContentOnPrimitive
  | typeDeclarationListWrongChildCount
  | typeDeclarationTensorInvalidChild
  | typeDeclarationNamedValueCollectionInvalidChild
  | typeDeclarationNamedValueCollectionDuplicateKeys
  | typeDeclarationNamedValueMissingName
  | typeDeclarationNamedValueWrongChildCount
  | typeDeclarationDimInvalidLiteral
  | typeDeclarationDimIllegalChild
  | logicalWrongChildCount
  | tagCollectionInvalidChild
  | condensedTagsEmpty
  | condensedTagsInvalidSyntax
  | condensedTagsIllegalChild
  | condensedTagsIllegalFilterAttribute
deriving DecidableEq, Repr

namespace Rule

/-- The code of a rule, by which descriptions are kept. -/
def name : Rule → String
  | .invalidTag => "INVALID_TAG"
  | .missingFilterOperation => "MISSING_FILTER_OPERATION"
  | .invalidFilterOperation => "INVALID_FILTER_OPERATION"
  | .illegalFilterAttribute => "ILLEGAL_FILTER_ATTRIBUTE"
  | .illegalContentWhenNone => "ILLEGAL_CONTENT_WHEN_NONE"
  | .illegalTextOnContainer => "ILLEGAL_TEXT_ON_CONTAINER"
  | .dictInvalidChild => "DICT_INVALID_CHILD"
  | .dictDuplicateKeys => "DICT_DUPLICATE_KEYS"
  | .namedFieldMissingName => "NAMED_FIELD_MISSING_NAME"
  | .namedFieldWrongChildCount => "NAMED_FIELD_WRONG_CHILD_COUNT"
  | .illegalChildOnTerminal => "ILLEGAL_CHILD_ON_TERMINAL"
  | .intInvalidLiteral => "INT_INVALID_LITERAL"
  | .floatInvalidLiteral => "FLOAT_INVALID_LITERAL"
  | .boolInvalidLiteral => "BOOL_INVALID_LITERAL"
  | .typeDeclarationWrongChildCount => "TYPE_DECLARATION_WRONG_CHILD_COUNT"
  | .typeDeclarationInvalidTag => "TYPE_DECLARATION_INVALID_TAG"
  | .typeDeclarationIllegalContentOnPrimitive => "TYPE_DECLARATION_ILLEGAL_CONTENT_ON_PRIMITIVE"
  | .typeDeclarationListWrongChildCount => "TYPE_DECLARATION_LIST_WRONG_CHILD_COUNT"
  | .typeDeclarationTensorInvalidChild => "TYPE_DECLARATION_TENSOR_INVALID_CHILD"
  | .typeDeclarationNamedValueCollectionInvalidChild =>
    "TYPE_DECLARATION_NAMED_VALUE_COLLECTION_INVALID_CHILD"
  | .typeDeclarationNamedValueCollectionDuplicateKeys =>
    "TYPE_DECLARATION_NAMED_VALUE_COLLECTION_DUPLICATE_KEYS"
  | .typeDeclarationNamedValueMissingName => "TYPE_DECLARATION_NAMED_VALUE_MISSING_NAME"
  | .typeDeclarationNamedValueWrongChildCount => "TYPE_DECLARATION_NAMED_VALUE_WRONG_CHILD_COUNT"
  | .typeDeclarationDimInvalidLiteral => "TYPE_DECLARATION_DIM_INVALID_LITERAL"
  | .typeDeclarationDimIllegalChild => "TYPE_DECLARATION_DIM_ILLEGAL_CHILD"
  | .logicalWrongChildCount => "LOGICAL_WRONG_CHILD_COUNT"
  | .tagCollectionInvalidChild => "TAG_COLLECTION_INVALID_CHILD"
  | .condensedTagsEmpty => "CONDENSED_TAGS_EMPTY"
  | .condensedTagsInvalidSyntax => "CONDENSED_TAGS_INVALID_SYNTAX"
  | .condensedTagsIllegalChild => "CONDENSED_TAGS_ILLEGAL_CHILD"
  | .condensedTagsIllegalFilterAttribute => "CONDENSED_TAGS_ILLEGAL_FILTER_ATTRIBUTE"

def all : List Rule :=
  [.invalidTag, .missingFilterOperation, .invalidFilterOperation, .illegalFilterAttribute,
    .illegalContentWhenNone, .illegalTextOnContainer, .dictInvalidChild, .dictDuplicateKeys,
    .namedFieldMissingName, .namedFieldWrongChildCount, .illegalChildOnTerminal, .intInvalidLiteral,
    .floatInvalidLiteral, .boolInvalidLiteral, .typeDeclarationWrongChildCount,
    .typeDeclarationInvalidTag, .typeDeclarationIllegalContentOnPrimitive,
    .typeDeclarationListWrongChildCount, .typeDeclarationTensorInvalidChild,
    .typeDeclarationNamedValueCollectionInvalidChild,
    .typeDeclarationNamedValueCollectionDuplicateKeys, .typeDeclarationNamedValueMissingName,
    .typeDeclarationNamedValueWrongChildCount, .typeDeclarationDimInvalidLiteral,
    .typeDeclarationDimIllegalChild, .logicalWrongChildCount, .tagCollectionInvalidChild,
    .condensedTagsEmpty, .condensedTagsInvalidSyntax, .condensedTagsIllegalChild,
    .condensedTagsIllegalFilterAttribute]

def ofName? (text : String) : Option Rule := findNamed name all text

end Rule

/-- What a message shows beside the code of a rule: nothing, or one of the forms below. -/
inductive Violation.Detail where
  | none
  /-- The tag is not allowed at its place. -/
  | misplaced (tag : String)
  | operationRequired (tag : String)
  | operationNotAllowed (operation tag : String)
  | operationInManifest (tag : String)
  | strayText (tag content : String)
  | entry (container expected found : String)
  | repeatedKey (key : String)
  | childCount (found : Nat)
  | forbiddenChild (tag child : String)
  | literal (content : String)
  | foundInstead (tag : String)
  | operandCount (operation : Operation) (found : Nat)
  | expression (error : Condensed.Error)
deriving DecidableEq, Repr

/-- A tag as messages show it. -/
def angled (tag : String) : String := "<" ++ tag ++ ">"

/-- The text of a detail. -/
def Violation.Detail.text? : Violation.Detail → Option String
  | .none => Option.none
  | .misplaced tag => angled tag ++ " is not allowed here"
  | .operationRequired tag => angled tag ++ " requires a filter attribute"
  | .operationNotAllowed operation tag =>
    Text.quoted operation ++ " is not allowed on " ++ angled tag
  | .operationInManifest tag => angled tag ++ " in a manifest cannot carry a filter"
  | .strayText tag content => angled tag ++ " cannot hold text " ++ Text.quoted content
  | .entry container expected found =>
    angled container ++ " may only contain " ++ angled expected ++ ", found " ++ angled found
  | .repeatedKey key => "key " ++ Text.quoted key ++ " appears more than once"
  | .childCount found => "expected exactly one child, found " ++ toString found
  | .forbiddenChild tag child => angled tag ++ " cannot contain " ++ angled child
  | .literal content => Text.quoted content
  | .foundInstead tag => "found " ++ angled tag
  | .operandCount operation found =>
    "`" ++ operation.name ++ "` cannot take " ++ toString found ++ " operand(s)"
  | .expression error => error.message

/-- The first rule that a document breaks, with the line of the element that breaks it. -/
structure Violation where
  rule : Rule
  line : Nat
  detail : Violation.Detail := .none
deriving DecidableEq, Repr

/-- A detail in parentheses, when there is one. -/
def parenthesized : Option String → String
  | none => ""
  | some detail => " (" ++ detail ++ ")"

/-- A violation in one line. -/
def Violation.message (violation : Violation) : String :=
  "line " ++ toString violation.line ++ ": " ++ violation.rule.name ++
    parenthesized violation.detail.text?

/-- An element breaks a rule. -/
def Element.violation (e : Element) (rule : Rule) (detail : Violation.Detail := .none) : Violation :=
  { rule, line := e.line, detail }

end ModelCatalog
