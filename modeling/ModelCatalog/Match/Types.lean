import ModelCatalog.Filter
import ModelCatalog.Manifest
import ModelCatalog.Match.Outcome

/-!
# Matching types

A type filter is matched with a declared type node by node; the first pair of nodes that do not fit
decides the failure. Tuples and tensors have the same number of parts on both sides, collections of
named values the same names.
-/

namespace ModelCatalog

open Outcome (Place)

/-- A slot satisfies a comparison: it is filled, and its value is in the relation to the bound. -/
def Slot.satisfies (slot : Slot α) (relation : Comparison) (order : α → Option Ordering) : Bool :=
  match slot with
  | .filled value => relation.holds (order value)
  | .unfilled => false

namespace DimFilter

/-- Match the size of a dimension. -/
def evaluateSize (place : Place) (size : Slot Int) (relation : Comparison) (bound : Int) : Outcome :=
  match size with
  | .filled value =>
    place.require (relation.holds (some (compare value bound))) (.dimSize value relation bound)
  | .unfilled => place.fail .dimUnfilled

mutual

/-- Match a dimension. -/
def evaluate (stack : List String) (dim : Dim) : DimFilter → Outcome
  | .anything _ => .ok ()
  | .size line relation bound => evaluateSize ⟨stack, line, dim.line⟩ dim.size relation bound
  | .and _ operands => evaluateAll stack dim operands
  | .or line operands => evaluateAny stack dim ⟨stack, line, dim.line⟩ operands
  | .not line operand => (operand.evaluate stack dim).negate ⟨stack, line, dim.line⟩

/-- Match a dimension with every operand of a conjunction. -/
def evaluateAll (stack : List String) (dim : Dim) : List DimFilter → Outcome
  | [] => .ok ()
  | operand :: rest => do
    operand.evaluate stack dim
    evaluateAll stack dim rest

/-- Match a dimension with some operand of the disjunction at a place. -/
def evaluateAny (stack : List String) (dim : Dim) (place : Place) : List DimFilter → Outcome
  | [] => place.fail .noAlternative
  | operand :: rest =>
    Outcome.either (operand.evaluate stack dim) fun _ => evaluateAny stack dim place rest

end

/-- Match dimensions pairwise. -/
def evaluateEach (stack : List String) : List DimFilter → List Dim → Outcome
  | filter :: filters, dim :: dims => do
    filter.evaluate stack dim
    evaluateEach stack filters dims
  | _, _ => .ok ()

end DimFilter

namespace TypeFilter

/-- The names of entries. -/
def entryNames (entries : List (Named α)) : NameSet := NameSet.ofList (entries.map (·.name))

mutual

/-- Match a type. -/
def evaluate (stack : List String) : TypeFilter → TypeDecl → Outcome
  | .list _ item, .list _ found => item.evaluate stack found
  | .tuple line items, .tuple typeLine found => do
    Place.require ⟨stack, line, typeLine⟩ (items.length = found.length)
      (.tupleSize items.length found.length)
    evaluateEach stack items found
  | .tensor line dims, .tensor typeLine found => do
    Place.require ⟨stack, line, typeLine⟩ (dims.length = found.length)
      (.tensorRank dims.length found.length)
    DimFilter.evaluateEach stack dims found
  | .namedValues line values, .namedValues typeLine found => do
    let wanted := entryNames values
    let given := entryNames found
    Place.require ⟨stack, line, typeLine⟩ (wanted = given)
      (.differentKeys (wanted.diff given) (given.diff wanted))
    evaluateEntries stack found values
  | .anything line kind, type =>
    Place.require ⟨stack, line, type.line⟩ (kind = type.kind)
      (.differentTags kind.tag.name type.kind.tag.name)
  | filter, type =>
    Place.fail ⟨stack, filter.line, type.line⟩
      (.differentTags filter.kind.tag.name type.kind.tag.name)

/-- Match types pairwise. -/
def evaluateEach (stack : List String) : List TypeFilter → List TypeDecl → Outcome
  | item :: items, type :: types => do
    item.evaluate stack type
    evaluateEach stack items types
  | _, _ => .ok ()

/-- Match every entry of a filter with the entry of its name. -/
def evaluateEntries (stack : List String) (found : List (Named TypeDecl)) :
    List (Named TypeFilter) → Outcome
  | [] => .ok ()
  | ⟨name, _, value⟩ :: rest => do
    match findEntry name found with
    | some entry => value.evaluate stack entry.value
    | none => .ok ()
    evaluateEntries stack found rest

end

end TypeFilter

end ModelCatalog
