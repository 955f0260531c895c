import ModelCatalog.Entry
import ModelCatalog.Violation

/-!
# Match failures

Why a filter does not match a manifest. A failure has a code, the lines of the two nodes that do not
fit together, and the tags under resolution at that point.
-/

namespace ModelCatalog

open Number (Binary64)

/-- The codes of match failures. -/
inductive FailureKind where
  | tagMismatch
  | dictMissingKey
  | listInsufficientChildren
  | stringValueNotEqual
  | boolValueNotEqual
  | numericFailedComparison
  | logicalOperationMatchFailure
  | tagCollectionExplicitTagMatchFailure
  | tagNotFound
  | tagCycle
  | typeDeclarationTupleIncorrectChildrenCount
  | typeDeclarationTensorDifferentDimNumber
  | typeDeclarationDimFailedComparison
  | typeDeclarationNamedValueCollectionDifferentKeys
deriving DecidableEq, Repr

namespace FailureKind

/-- The code of a kind of failure, by which descriptions are kept. -/
def name : FailureKind → String
  | .tagMismatch => "TAG_MISMATCH"
  | .dictMissingKey => "DICT_MISSING_KEY"
  | .listInsufficientChildren => "LIST_INSUFFICIENT_CHILDREN"
  | .stringValueNotEqual => "STRING_VALUE_NOT_EQUAL"
  | .boolValueNotEqual => "BOOL_VALUE_NOT_EQUAL"
  | .numericFailedComparison => "NUMERIC_FAILED_COMPARISON"
  | .logicalOperationMatchFailure => "LOGICAL_OPERATION_MATCH_FAILURE"
  | .tagCollectionExplicitTagMatchFailure => "TAG_COLLECTION_EXPLICIT_TAG_MATCH_FAILURE"
  | .tagNotFound => "TAG_NOT_FOUND"
  | .tagCycle => "TAG_CYCLE"
  | .typeDeclarationTupleIncorrectChildrenCount => "TYPE_DECLARATION_TUPLE_INCORRECT_CHILDREN_COUNT"
  | .typeDeclarationTensorDifferentDimNumber => "TYPE_DECLARATION_TENSOR_DIFFERENT_DIM_NUMBER"
  | .typeDeclarationDimFailedComparison => "TYPE_DECLARATION_DIM_FAILED_COMPARISON"
  | .typeDeclarationNamedValueCollectionDifferentKeys =>
    "TYPE_DECLARATION_NAMED_VALUE_COLLECTION_DIFFERENT_KEYS"

def all : List FailureKind :=
  [.tagMismatch, .dictMissingKey, .listInsufficientChildren, .stringValueNotEqual,
    .boolValueNotEqual, .numericFailedComparison, .logicalOperationMatchFailure,
    .tagCollectionExplicitTagMatchFailure, .tagNotFound, .tagCycle,
    .typeDeclarationTupleIncorrectChildrenCount, .typeDeclarationTensorDifferentDimNumber,
    .typeDeclarationDimFailedComparison, .typeDeclarationNamedValueCollectionDifferentKeys]

def ofName? (text : String) : Option FailureKind := findNamed name all text

/-- The failures that the registry causes and not the manifest. -/
def isRegistryFault : FailureKind → Bool
  | .tagCycle | .tagNotFound => true
  | _ => false

end FailureKind

/-- What does not fit. -/
inductive Mismatch where
  /-- The nodes have different tags. -/
  | differentTags (expected found : String)
  | missingKey (name : String)
  | shortList (wanted found : Nat)
  | string (expected : String) (found : Slot String)
  | bool (expected : Bool) (found : Slot Bool)
  | int (found : Slot Int) (relation : Comparison) (bound : Int)
  | float (found : Slot Binary64) (relation : Comparison) (bound : Binary64)
  /-- No operand of a disjunction matches. -/
  | noAlternative
  /-- The operand of a negation matches. -/
  | negatedMatch
  | undeclaredTags (tags : NameSet)
  | tagNotFound (tag : String)
  | tagCycle (tag : String)
  | tupleSize (wanted found : Nat)
  | tensorRank (wanted found : Nat)
  | dimSize (found : Int) (relation : Comparison) (bound : Int)
  | dimUnfilled
  | differentKeys (missing unexpected : NameSet)
deriving DecidableEq

namespace Mismatch

def kind : Mismatch → FailureKind
  | .differentTags .. => .tagMismatch
  | .missingKey _ => .dictMissingKey
  | .shortList .. => .listInsufficientChildren
  | .string .. => .stringValueNotEqual
  | .bool .. => .boolValueNotEqual
  | .int .. | .float .. => .numericFailedComparison
  | .noAlternative | .negatedMatch => .logicalOperationMatchFailure
  | .undeclaredTags _ => .tagCollectionExplicitTagMatchFailure
  | .tagNotFound _ => .tagNotFound
  | .tagCycle _ => .tagCycle
  | .tupleSize .. => .typeDeclarationTupleIncorrectChildrenCount
  | .tensorRank .. => .typeDeclarationTensorDifferentDimNumber
  | .dimSize .. | .dimUnfilled => .typeDeclarationDimFailedComparison
  | .differentKeys .. => .typeDeclarationNamedValueCollectionDifferentKeys

def showBool (value : Bool) : String := if value then "true" else "false"

/-- A comparison that does not hold. -/
def falseComparison (found : String) (relation : Comparison) (bound : String) : String :=
  found ++ " " ++ relation.symbol ++ " " ++ bound ++ " is false"

/-- What a message shows of a mismatch. -/
def detail : Mismatch → String
  | .differentTags expected found => "expected " ++ angled expected ++ ", found " ++ angled found
  | .missingKey name => "missing key " ++ Text.quoted name
  | .shortList wanted found =>
    "filter needs " ++ toString wanted ++ " item(s), manifest has " ++ toString found
  | .string expected found =>
    "expected " ++ Text.quoted expected ++ ", found " ++ found.render Text.quoted
  | .bool expected found => "expected " ++ showBool expected ++ ", found " ++ found.render showBool
  | .int found relation bound =>
    falseComparison (found.render Number.showInteger) relation (Number.showInteger bound)
  | .float found relation bound => falseComparison (found.render showFloat) relation (showBound bound)
  | .noAlternative => "no alternative of `or` matched"
  | .negatedMatch => "the negated filter matched"
  | .undeclaredTags tags => "manifest does not declare " ++ tags.join ", "
  | .tagNotFound tag => Text.quoted tag ++ " is not registered"
  | .tagCycle tag => Text.quoted tag ++ " is already being resolved"
  | .tupleSize wanted found =>
    "filter tuple has " ++ toString wanted ++ " element(s), manifest tuple has " ++ toString found
  | .tensorRank wanted found =>
    "filter tensor has " ++ toString wanted ++ " dim(s), manifest tensor has " ++ toString found
  | .dimSize found relation bound =>
    falseComparison (Number.showInteger found) relation (Number.showInteger bound)
  | .dimUnfilled => "dim is unfilled"
  | .differentKeys missing unexpected =>
    "missing [" ++ missing.join ", " ++ "], unexpected [" ++ unexpected.join ", " ++ "]"

end Mismatch

/-- A failure to match, with the tags under resolution, outermost first. Line 0 stands for no node. -/
structure MatchFailure where
  mismatch : Mismatch
  filterLine : Nat
  manifestLine : Nat
  tagStack : List String
deriving DecidableEq

namespace MatchFailure

def kind (failure : MatchFailure) : FailureKind := failure.mismatch.kind

/-- The registry causes the failure. -/
def isRegistryFault (failure : MatchFailure) : Bool := failure.kind.isRegistryFault

/-- A failure in one line, without the tags. -/
def message (failure : MatchFailure) : String :=
  failure.kind.name ++ " at filter line " ++ toString failure.filterLine ++ ", manifest line " ++
    toString failure.manifestLine ++ parenthesized failure.mismatch.detail

end MatchFailure

end ModelCatalog
