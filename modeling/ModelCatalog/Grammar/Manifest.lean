import ModelCatalog.Grammar.Content
import ModelCatalog.Manifest

/-!
# The manifest grammar

An element tree is read to a manifest when it keeps every rule of the manifest grammar; otherwise the
first violation in document order is reported. A manifest carries values and no operations. A terminal
holds a literal or the text that stands for a value still to be filled in.
-/

namespace ModelCatalog

/-- The slot of a terminal: the text for an unknown value, or a literal. -/
def Element.slot (e : Element) (illegalChild invalidLiteral : Rule) (read : String → Option α) :
    Checked (Slot α) := do
  e.requireNoChildren illegalChild
  if e.trimmedText = unfilledText then return .unfilled
  else return .filled (← e.literal invalidLiteral read)

/-- Read a dimension of a tensor. -/
def Dim.ofElement (e : Element) : Checked Dim :=
  if e.tag ≠ TypeTag.dim.name then
    .error (e.violation .typeDeclarationTensorInvalidChild (.foundInstead e.tag))
  else do
    e.requireNoOperation
    let size ← e.slot .typeDeclarationDimIllegalChild .typeDeclarationDimInvalidLiteral Literal.int?
    return { line := e.line, size }

/-- Read a primitive type. -/
def TypeDecl.ofPrimitive (e : Element) (type : PrimitiveType) : Checked TypeDecl := do
  e.requirePrimitive
  return .primitive e.line type

/-- Read a type. -/
def TypeDecl.ofElement (e : Element) : Checked TypeDecl :=
  match TypeTag.ofName? e.tag with
  | none => .error e.invalidType
  | some tag => do
    e.requireNoOperation
    match tag with
    | .namedValue | .dim => throw e.invalidType
    | .string => ofPrimitive e .string
    | .bool => ofPrimitive e .bool
    | .int => ofPrimitive e .int
    | .float => ofPrimitive e .float
    | .tensor =>
      e.requireNoText
      return .tensor e.line (← e.checkChildren fun child _ => Dim.ofElement child)
    | .list =>
      let item ← e.itemType
      return .list e.line (← ofElement item.1)
    | .tuple =>
      e.requireNoText
      return .tuple e.line (← e.checkChildren fun child _ => ofElement child)
    | .namedValueCollection =>
      return .namedValues e.line (← e.checkNamed .namedValue fun value _ => ofElement value)
termination_by sizeOf e
decreasing_by
  · exact Element.sizeOf_lt_of_mem_children item.2
  · exact Element.sizeOf_lt_of_mem_children ‹_›
  · assumption

/-- Any text is a literal of a string. -/
def Literal.string? (text : String) : Option String := some text

/-- Read a value. -/
def Manifest.ofElement (e : Element) : Checked Manifest :=
  match ValueTag.ofName? e.tag with
  | none => .error e.invalidTag
  | some tag => do
    e.requireNoOperation
    match tag with
    | .logical | .namedField | .condensedTags => throw e.invalidTag
    | .dict => return .dict e.line (← e.checkNamed .field fun value _ => ofElement value)
    | .list =>
      e.requireNoText
      return .list e.line (← e.checkChildren fun child _ => ofElement child)
    | .string =>
      return .string e.line
        (← e.slot .illegalChildOnTerminal .illegalChildOnTerminal Literal.string?)
    | .bool =>
      return .bool e.line (← e.slot .illegalChildOnTerminal .boolInvalidLiteral Literal.bool?)
    | .int => return .int e.line (← e.slot .illegalChildOnTerminal .intInvalidLiteral Literal.int?)
    | .float =>
      return .float e.line (← e.slot .illegalChildOnTerminal .floatInvalidLiteral Literal.float?)
    | .typeDeclaration =>
      let type ← e.declaredType
      return .typeDeclaration e.line (← TypeDecl.ofElement type.1)
    | .tagCollection => return .tagCollection e.line (← e.tagGroups)
termination_by sizeOf e
decreasing_by
  · assumption
  · exact Element.sizeOf_lt_of_mem_children ‹_›

end ModelCatalog
