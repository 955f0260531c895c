/-!
# Tag identifiers

A tag identifier is one or more names with `::` between each two. A name is a run of ASCII letters,
digits, underscores and hyphens.
-/

namespace ModelCatalog

/-- Exactly the ASCII letters and digits, the underscore and the hyphen. -/
def isNameChar (c : Char) : Bool := c.isAlphanum || c == '_' || c == '-'

/-- A word that can stand as a name. -/
def isName (word : List Char) : Bool := word ≠ [] && word.all isNameChar

/-- The names of a nested tag, outermost first. -/
abbrev Chain := List (List Char)

/-- The characters of the identifier of a chain. -/
def Chain.word : Chain → List Char
  | [] => []
  | [name] => name
  | name :: rest => name ++ ':' :: ':' :: Chain.word rest

/-- The identifier of a chain. -/
def Chain.identifier (chain : Chain) : String := String.ofList chain.word

/-- The rest of an identifier; `inName` says whether a name is under way. -/
def isIdentifierFrom (inName : Bool) : List Char → Bool
  | [] => inName
  | ':' :: ':' :: rest => inName && isIdentifierFrom false rest
  | c :: rest => isNameChar c && isIdentifierFrom true rest

/-- A text of the form of an identifier. -/
def isIdentifier (text : String) : Bool := isIdentifierFrom false text.toList

end ModelCatalog
