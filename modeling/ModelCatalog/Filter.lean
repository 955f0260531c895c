import ModelCatalog.Entry

/-!
# Filters

A filter says what a manifest has to look like. A node that asks for nothing but its kind is
`anything`; every other node also asks something of the value. Each node keeps the line of its
element.
-/

namespace ModelCatalog

open Number (Binary64)

/-- What is asked of one dimension of a tensor. -/
inductive DimFilter where
  | anything (line : Nat)
  | size (line : Nat) (relation : Comparison) (bound : Int)
  | and (line : Nat) (operands : List DimFilter)
  | or (line : Nat) (operands : List DimFilter)
  | not (line : Nat) (operand : DimFilter)

/-- What is asked of a type. The primitive types have nothing to ask but their kind. -/
inductive TypeFilter where
  | anything (line : Nat) (kind : TypeKind)
  | tensor (line : Nat) (dims : List DimFilter)
  | list (line : Nat) (item : TypeFilter)
  | tuple (line : Nat) (items : List TypeFilter)
  | namedValues (line : Nat) (values : List (Named TypeFilter))

/-- What is asked of a value. The logical nodes apply to values of any kind; implicit tags ask that
    the whole manifest match the definition of every tag, explicit tags that the value declare every
    tag. -/
inductive Filter where
  | anything (line : Nat) (kind : ValueKind)
  | dict (line : Nat) (fields : List (Named Filter))
  | list (line : Nat) (items : List Filter)
  | string (line : Nat) (expected : String)
  | bool (line : Nat) (expected : Bool)
  | int (line : Nat) (relation : Comparison) (bound : Int)
  | float (line : Nat) (relation : Comparison) (bound : Binary64)
  | typeDeclaration (line : Nat) (expected : TypeFilter)
  | and (line : Nat) (operands : List Filter)
  | or (line : Nat) (operands : List Filter)
  | not (line : Nat) (operand : Filter)
  | implicitTags (line : Nat) (groups : List TagGroup)
  | explicitTags (line : Nat) (groups : List TagGroup)

namespace DimFilter

def line : DimFilter → Nat
  | .anything line | .size line .. | .and line _ | .or line _ | .not line _ => line

mutual

/-- The nesting of a dimension filter, itself included. -/
def depth : DimFilter → Nat
  | .anything _ | .size .. => 1
  | .and _ operands | .or _ operands => maxDepth operands + 1
  | .not _ operand => operand.depth + 1

/-- The deepest of several dimension filters. -/
def maxDepth : List DimFilter → Nat
  | [] => 0
  | dim :: rest => max dim.depth (maxDepth rest)

end

end DimFilter

namespace TypeFilter

def line : TypeFilter → Nat
  | .anything line _ | .tensor line _ | .list line _ | .tuple line _ | .namedValues line _ => line

def kind : TypeFilter → TypeKind
  | .anything _ kind => kind
  | .tensor .. => .tensor
  | .list .. => .list
  | .tuple .. => .tuple
  | .namedValues .. => .namedValues

mutual

/-- The nesting of a type filter, itself and the dimensions below it included. -/
def depth : TypeFilter → Nat
  | .anything .. => 1
  | .tensor _ dims => DimFilter.maxDepth dims + 1
  | .list _ item => item.depth + 1
  | .tuple _ items => maxDepth items + 1
  | .namedValues _ values => maxEntryDepth values + 1

/-- The deepest of several type filters. -/
def maxDepth : List TypeFilter → Nat
  | [] => 0
  | item :: rest => max item.depth (maxDepth rest)

/-- The deepest of the type filters in several entries. -/
def maxEntryDepth : List (Named TypeFilter) → Nat
  | [] => 0
  | ⟨_, _, value⟩ :: rest => max value.depth (maxEntryDepth rest)

end

end TypeFilter

/-- A tag collection of a filter. -/
inductive TagReference where
  | anything
  | implicit (groups : List TagGroup)
  | explicit (groups : List TagGroup)

/-- The tags that a tag collection lists. -/
def TagReference.tags : TagReference → NameSet
  | .anything => ∅
  | .implicit groups | .explicit groups => unionTags groups

namespace Filter

def line : Filter → Nat
  | .anything line _ | .dict line _ | .list line _ | .string line _ | .bool line _ | .int line ..
  | .float line .. | .typeDeclaration line _ | .and line _ | .or line _ | .not line _
  | .implicitTags line _ | .explicitTags line _ => line

/-- The kind of value that a filter asks for; a logical filter asks for none. -/
def kind? : Filter → Option ValueKind
  | .anything _ kind => some kind
  | .dict .. => some .dict
  | .list .. => some .list
  | .string .. => some .string
  | .bool .. => some .bool
  | .int .. => some .int
  | .float .. => some .float
  | .typeDeclaration .. => some .typeDeclaration
  | .and .. | .or .. | .not .. => none
  | .implicitTags .. | .explicitTags .. => some .tagCollection

mutual

/-- The nesting of a filter, itself and the types below it included. -/
def depth : Filter → Nat
  | .dict _ fields => maxEntryDepth fields + 1
  | .list _ items => maxDepth items + 1
  | .and _ operands | .or _ operands => maxDepth operands + 1
  | .not _ operand => operand.depth + 1
  | .typeDeclaration _ expected => expected.depth + 1
  | .anything .. | .string .. | .bool .. | .int .. | .float .. | .implicitTags ..
  | .explicitTags .. => 1

/-- The deepest of several filters. -/
def maxDepth : List Filter → Nat
  | [] => 0
  | item :: rest => max item.depth (maxDepth rest)

/-- The deepest of the filters in several entries. -/
def maxEntryDepth : List (Named Filter) → Nat
  | [] => 0
  | ⟨_, _, value⟩ :: rest => max value.depth (maxEntryDepth rest)

end

mutual

/-- The tag collections of a filter, in document order. -/
def tagReferences : Filter → List TagReference
  | .anything _ .tagCollection => [.anything]
  | .implicitTags _ groups => [.implicit groups]
  | .explicitTags _ groups => [.explicit groups]
  | .dict _ fields => entryTagReferences fields
  | .list _ items => listTagReferences items
  | .and _ operands | .or _ operands => listTagReferences operands
  | .not _ operand => operand.tagReferences
  | .anything .. | .string .. | .bool .. | .int .. | .float .. | .typeDeclaration .. => []

/-- The tag collections of several filters. -/
def listTagReferences : List Filter → List TagReference
  | [] => []
  | item :: rest => item.tagReferences ++ listTagReferences rest

/-- The tag collections of the filters in several entries. -/
def entryTagReferences : List (Named Filter) → List TagReference
  | [] => []
  | ⟨_, _, value⟩ :: rest => value.tagReferences ++ entryTagReferences rest

end

/-- The tags that a filter resolves against the whole manifest. -/
def implicitReferences (filter : Filter) : NameSet :=
  filter.tagReferences.foldr (fun reference tags =>
    match reference with
    | .implicit groups => unionTags groups ∪ tags
    | .anything | .explicit _ => tags) ∅

end Filter

end ModelCatalog
