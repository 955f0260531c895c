import ModelCatalog.Comparison

/-!
# Vocabulary

The closed sets of words that filters and manifests are written in: the tags of values, the tags of
types and the operations of a filter. Each word has one name, and a name is read back as its word
(`ofName?_name`).
-/

namespace ModelCatalog

/-- The attribute that carries the operation of a filter. -/
def filterAttribute : String := "filter"

/-- The attribute that names an entry. -/
def nameAttribute : String := "name"

/-- The text that stands in a manifest for a value not yet known. -/
def unfilledText : String := "unfilled"

/-- The word among `words` whose name is `text`. -/
def findNamed (name : α → String) (words : List α) (text : String) : Option α :=
  words.find? fun word => name word == text

/-- Tags of the value layer. -/
inductive ValueTag where
  | dict
  | list
  | namedField
  | string
  | bool
  | int
  | float
  | typeDeclaration
  | logical
  | tagCollection
  | condensedTags
deriving DecidableEq, Repr

namespace ValueTag

def name : ValueTag → String
  | .dict => "dict"
  | .list => "list"
  | .namedField => "named-field"
  | .string => "string"
  | .bool => "bool"
  | .int => "int"
  | .float => "float"
  | .typeDeclaration => "type-declaration"
  | .logical => "logical"
  | .tagCollection => "tag-collection"
  | .condensedTags => "condensed-tags"

def all : List ValueTag :=
  [.dict, .list, .namedField, .string, .bool, .int, .float, .typeDeclaration, .logical,
    .tagCollection, .condensedTags]

def ofName? (text : String) : Option ValueTag := findNamed name all text

theorem ofName?_name (tag : ValueTag) : ofName? tag.name = some tag := by
  cases tag <;> decide +kernel

end ValueTag

/-- Tags that may appear below `type-declaration`. -/
inductive TypeTag where
  | string
  | bool
  | int
  | float
  | tensor
  | list
  | tuple
  | namedValueCollection
  | namedValue
  | dim
deriving DecidableEq, Repr

namespace TypeTag

def name : TypeTag → String
  | .string => "type-string"
  | .bool => "type-bool"
  | .int => "type-int"
  | .float => "type-float"
  | .tensor => "type-tensor"
  | .list => "type-list"
  | .tuple => "type-tuple"
  | .namedValueCollection => "type-named-value-collection"
  | .namedValue => "type-named-value"
  | .dim => "dim"

def all : List TypeTag :=
  [.string, .bool, .int, .float, .tensor, .list, .tuple, .namedValueCollection, .namedValue, .dim]

def ofName? (text : String) : Option TypeTag := findNamed name all text

theorem ofName?_name (tag : TypeTag) : ofName? tag.name = some tag := by
  cases tag <;> decide +kernel

end TypeTag

/-- Values of the attribute `filter`. -/
inductive Operation where
  | none
  | all
  | equals
  | typeMatch
  | less
  | lessOrEqual
  | greater
  | greaterOrEqual
  | and
  | or
  | not
  | implicitTagMatch
  | explicitTagMatch
deriving DecidableEq, Repr

namespace Operation

def name : Operation → String
  | .none => "none"
  | .all => "all"
  | .equals => "equals"
  | .typeMatch => "type-match"
  | .less => "lt"
  | .lessOrEqual => "le"
  | .greater => "gt"
  | .greaterOrEqual => "ge"
  | .and => "and"
  | .or => "or"
  | .not => "not"
  | .implicitTagMatch => "implicit-tag-match"
  | .explicitTagMatch => "explicit-tag-match"

def every : List Operation :=
  [.none, .all, .equals, .typeMatch, .less, .lessOrEqual, .greater, .greaterOrEqual, .and, .or,
    .not, .implicitTagMatch, .explicitTagMatch]

def ofName? (text : String) : Option Operation := findNamed name every text

theorem ofName?_name (operation : Operation) : ofName? operation.name = some operation := by
  cases operation <;> decide +kernel

/-- The comparison that an operation asks for, if it is one. -/
def comparison? : Operation → Option Comparison
  | .equals => some .equals
  | .less => some .less
  | .lessOrEqual => some .lessOrEqual
  | .greater => some .greater
  | .greaterOrEqual => some .greaterOrEqual
  | _ => Option.none

end Operation

end ModelCatalog
