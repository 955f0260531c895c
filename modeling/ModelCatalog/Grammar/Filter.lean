import ModelCatalog.Filter
import ModelCatalog.Grammar.Content

/-!
# The filter grammar

An element tree is read to a filter when it keeps every rule of the filter grammar; otherwise the
first violation in document order is reported. The tree is walked from left to right, each element
before its children.
-/

namespace ModelCatalog

namespace Operation

/-- Containers ask for all of their content or for none. -/
def ofCollection : List Operation := [.all, .none]

def ofEquality : List Operation := [.equals, .none]

def ofNumber : List Operation := [.equals, .less, .lessOrEqual, .greater, .greaterOrEqual, .none]

def ofTypeDeclaration : List Operation := [.typeMatch, .none]

def ofLogical : List Operation := [.and, .or, .not]

def ofTagCollection : List Operation := [.implicitTagMatch, .explicitTagMatch, .none]

end Operation

/-- A comparison with a literal, or nothing when the element asks for its kind only. -/
def Element.comparison (e : Element) (illegalChild invalidLiteral : Rule)
    (read : String → Option α) : Checked (Option (Comparison × α)) := do
  let operation ← e.operation Operation.ofNumber
  match operation.comparison? with
  | none =>
    e.requireEmpty
    return none
  | some relation =>
    e.requireNoChildren illegalChild
    return some (relation, ← e.literal invalidLiteral read)

/-- The operation of a logical element with the right number of operands and no text. -/
def Element.connective (e : Element) : Checked Operation := do
  let operation ← e.operation Operation.ofLogical
  let count := e.children.length
  if (if operation = .not then count = 1 else 2 ≤ count) then
    e.requireNoText
    return operation
  else throw (e.violation .logicalWrongChildCount (.operandCount operation count))

/-- The only operand of a negation. Its number has been checked, so the error never arises. -/
def Element.negated (e : Element) (operands : List α) : Checked α :=
  match operands with
  | [operand] => .ok operand
  | _ => .error (e.violation .logicalWrongChildCount)

/-- Read a slot of a tensor: a dimension, or a logical element over slots. -/
def DimFilter.ofElement (e : Element) : Checked DimFilter :=
  if e.tag = TypeTag.dim.name then do
    match ← e.comparison .typeDeclarationDimIllegalChild .typeDeclarationDimInvalidLiteral
      Literal.int? with
    | none => return .anything e.line
    | some (relation, bound) => return .size e.line relation bound
  else if e.tag = ValueTag.logical.name then do
    let operation ← e.connective
    let operands ← e.checkChildren fun child _ => ofElement child
    match operation with
    | .and => return .and e.line operands
    | .or => return .or e.line operands
    | _ => return .not e.line (← e.negated operands)
  else .error (e.violation .typeDeclarationTensorInvalidChild (.foundInstead e.tag))
termination_by sizeOf e
decreasing_by exact Element.sizeOf_lt_of_mem_children ‹_›

/-- An element that asks for its kind only, read to the given node. -/
def Element.kindOnly (e : Element) (node : α) : Checked α := do
  e.requireEmpty
  return node

/-- Read a primitive type. -/
def TypeFilter.ofPrimitive (e : Element) (type : PrimitiveType) : Checked TypeFilter := do
  e.requirePrimitive
  return .anything e.line type.kind

/-- Read a type. -/
def TypeFilter.ofElement (e : Element) : Checked TypeFilter :=
  match TypeTag.ofName? e.tag with
  | none | some .namedValue | some .dim => .error e.invalidType
  | some .string => ofPrimitive e .string
  | some .bool => ofPrimitive e .bool
  | some .int => ofPrimitive e .int
  | some .float => ofPrimitive e .float
  | some .tensor => do
    if (← e.operation Operation.ofCollection) = .all then
      e.requireNoText
      return .tensor e.line (← e.checkChildren fun child _ => DimFilter.ofElement child)
    else e.kindOnly (.anything e.line .tensor)
  | some .list => do
    if (← e.operation Operation.ofCollection) = .all then
      let item ← e.itemType
      return .list e.line (← ofElement item.1)
    else e.kindOnly (.anything e.line .list)
  | some .tuple => do
    if (← e.operation Operation.ofCollection) = .all then
      e.requireNoText
      return .tuple e.line (← e.checkChildren fun child _ => ofElement child)
    else e.kindOnly (.anything e.line .tuple)
  | some .namedValueCollection => do
    if (← e.operation Operation.ofCollection) = .all then
      return .namedValues e.line (← e.checkNamed .namedValue fun value _ => ofElement value)
    else e.kindOnly (.anything e.line .namedValues)
termination_by sizeOf e
decreasing_by
  · exact Element.sizeOf_lt_of_mem_children item.2
  · exact Element.sizeOf_lt_of_mem_children ‹_›
  · assumption

/-- Read a value. -/
def Filter.ofElement (e : Element) : Checked Filter :=
  match ValueTag.ofName? e.tag with
  | none | some .namedField | some .condensedTags => .error e.invalidTag
  | some .dict => do
    if (← e.operation Operation.ofCollection) = .all then
      return .dict e.line (← e.checkNamed .field fun value _ => ofElement value)
    else e.kindOnly (.anything e.line .dict)
  | some .list => do
    if (← e.operation Operation.ofCollection) = .all then
      e.requireNoText
      return .list e.line (← e.checkChildren fun child _ => ofElement child)
    else e.kindOnly (.anything e.line .list)
  | some .string => do
    if (← e.operation Operation.ofEquality) = .equals then
      e.requireNoChildren .illegalChildOnTerminal
      return .string e.line e.trimmedText
    else e.kindOnly (.anything e.line .string)
  | some .bool => do
    if (← e.operation Operation.ofEquality) = .equals then
      e.requireNoChildren .illegalChildOnTerminal
      return .bool e.line (← e.literal .boolInvalidLiteral Literal.bool?)
    else e.kindOnly (.anything e.line .bool)
  | some .int => do
    match ← e.comparison .illegalChildOnTerminal .intInvalidLiteral Literal.int? with
    | none => return .anything e.line .int
    | some (relation, bound) => return .int e.line relation bound
  | some .float => do
    match ← e.comparison .illegalChildOnTerminal .floatInvalidLiteral Literal.float? with
    | none => return .anything e.line .float
    | some (relation, bound) => return .float e.line relation bound
  | some .typeDeclaration => do
    if (← e.operation Operation.ofTypeDeclaration) = .typeMatch then
      let type ← e.declaredType
      return .typeDeclaration e.line (← TypeFilter.ofElement type.1)
    else e.kindOnly (.anything e.line .typeDeclaration)
  | some .logical => do
    let operation ← e.connective
    let operands ← e.checkChildren fun child _ => ofElement child
    match operation with
    | .and => return .and e.line operands
    | .or => return .or e.line operands
    | _ => return .not e.line (← e.negated operands)
  | some .tagCollection => do
    match ← e.operation Operation.ofTagCollection with
    | .implicitTagMatch => return .implicitTags e.line (← e.tagGroups)
    | .explicitTagMatch => return .explicitTags e.line (← e.tagGroups)
    | _ => e.kindOnly (.anything e.line .tagCollection)
termination_by sizeOf e
decreasing_by
  · assumption
  · exact Element.sizeOf_lt_of_mem_children ‹_›
  · exact Element.sizeOf_lt_of_mem_children ‹_›

end ModelCatalog
