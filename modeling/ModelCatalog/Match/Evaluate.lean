import ModelCatalog.Match.Types
import ModelCatalog.Registry

/-!
# Matching filters

A filter is matched with a manifest node by node; the first pair of nodes that do not fit decides the
failure. A dict may have more fields than its filter and a list more items. Implicit tags are resolved
in increasing order: the definition of each is matched with the root of the manifest, whatever node the
filter stands opposite. While a tag is under resolution it cannot be resolved again, so every match
ends: each resolution leaves one registered tag less.
-/

namespace ModelCatalog

open Number (Binary64)
open Outcome (Place)

/-- Resolve a tag on behalf of the nodes at two lines. -/
abbrev Resolver := (tag : String) → (filterLine manifestLine : Nat) → Outcome

namespace Filter

/-- Resolve every tag of a set in order. -/
def resolveEach (resolve : Resolver) (filterLine manifestLine : Nat) : List String → Outcome
  | [] => .ok ()
  | tag :: rest => do
    resolve tag filterLine manifestLine
    resolveEach resolve filterLine manifestLine rest

/-- The tags that a collection asks for are declared. -/
def evaluateTags (place : Place) (required declared : NameSet) : Outcome :=
  let missing := required.diff declared
  place.require missing.isEmpty (.undeclaredTags missing)

mutual

/-- Match a value. `resolve` resolves implicit tags, and `stack` holds the tags under resolution. -/
def evaluate (resolve : Resolver) (stack : List String) : Filter → Manifest → Outcome
  | .and _ operands, manifest => evaluateAll resolve stack manifest operands
  | .or line operands, manifest =>
    evaluateAny resolve stack manifest ⟨stack, line, manifest.line⟩ operands
  | .not line operand, manifest =>
    (operand.evaluate resolve stack manifest).negate ⟨stack, line, manifest.line⟩
  | .implicitTags line groups, manifest =>
    resolveEach resolve line manifest.line (unionTags groups).toList
  | .dict _ fields, .dict line entries => evaluateEntries resolve stack line entries fields
  | .list line items, .list manifestLine values => do
    Place.require ⟨stack, line, manifestLine⟩ (items.length ≤ values.length)
      (.shortList items.length values.length)
    evaluateEach resolve stack items values
  | .typeDeclaration _ expected, .typeDeclaration _ type => expected.evaluate stack type
  | .string line expected, .string manifestLine slot =>
    Place.require ⟨stack, line, manifestLine⟩ (slot = .filled expected) (.string expected slot)
  | .bool line expected, .bool manifestLine slot =>
    Place.require ⟨stack, line, manifestLine⟩ (slot = .filled expected) (.bool expected slot)
  | .int line relation bound, .int manifestLine slot =>
    Place.require ⟨stack, line, manifestLine⟩
      (slot.satisfies relation fun value => some (compare value bound)) (.int slot relation bound)
  | .float line relation bound, .float manifestLine slot =>
    Place.require ⟨stack, line, manifestLine⟩
      (slot.satisfies relation fun value => value.compare? bound) (.float slot relation bound)
  | .explicitTags line required, .tagCollection manifestLine declared =>
    evaluateTags ⟨stack, line, manifestLine⟩ (unionTags required) (unionTags declared)
  | .anything line kind, manifest =>
    Place.require ⟨stack, line, manifest.line⟩ (kind = manifest.kind)
      (.differentTags kind.tag.name manifest.kind.tag.name)
  | filter, manifest =>
    Place.fail ⟨stack, filter.line, manifest.line⟩
      (.differentTags ((filter.kind?.map (·.tag.name)).getD ValueTag.logical.name)
        manifest.kind.tag.name)

/-- Match a value with every operand of a conjunction. -/
def evaluateAll (resolve : Resolver) (stack : List String) (manifest : Manifest) :
    List Filter → Outcome
  | [] => .ok ()
  | operand :: rest => do
    operand.evaluate resolve stack manifest
    evaluateAll resolve stack manifest rest

/-- Match a value with some operand of the disjunction at a place. -/
def evaluateAny (resolve : Resolver) (stack : List String) (manifest : Manifest) (place : Place) :
    List Filter → Outcome
  | [] => place.fail .noAlternative
  | operand :: rest =>
    Outcome.either (operand.evaluate resolve stack manifest) fun _ =>
      evaluateAny resolve stack manifest place rest

/-- Match items pairwise. -/
def evaluateEach (resolve : Resolver) (stack : List String) :
    List Filter → List Manifest → Outcome
  | item :: items, value :: values => do
    item.evaluate resolve stack value
    evaluateEach resolve stack items values
  | _, _ => .ok ()

/-- Match every field of a filter with the field of its name in the dict at a line. -/
def evaluateEntries (resolve : Resolver) (stack : List String) (manifestLine : Nat)
    (entries : List (Named Manifest)) : List (Named Filter) → Outcome
  | [] => .ok ()
  | ⟨name, line, value⟩ :: rest => do
    match findEntry name entries with
    | some entry => value.evaluate resolve stack entry.value
    | none => Place.fail ⟨stack, line, manifestLine⟩ (.missingKey name)
    evaluateEntries resolve stack manifestLine entries rest

end

end Filter

namespace Registry

/-- Match the definition of a tag with the root of a manifest, the tag being under resolution the
    while. -/
def resolve (registry : Registry) (root : Manifest) (stack : List String) (tag : String)
    (filterLine manifestLine : Nat) : Outcome :=
  if _fresh : tag ∈ stack then
    Place.fail ⟨stack ++ [tag], filterLine, manifestLine⟩ (.tagCycle tag)
  else
    match _found : registry.get? tag with
    | none => Place.fail ⟨stack, filterLine, manifestLine⟩ (.tagNotFound tag)
    | some definition =>
      definition.evaluate (registry.resolve root (stack ++ [tag])) (stack ++ [tag]) root
termination_by registry.remaining stack
decreasing_by exact remaining_push_lt _fresh (by simp [_found])

/-- Match a filter with a node of a manifest, the tags of a stack being under resolution. -/
def evaluate (registry : Registry) (root : Manifest) (stack : List String) (filter : Filter)
    (node : Manifest) : Outcome :=
  filter.evaluate (registry.resolve root stack) stack node

/-- Match a filter with a manifest. -/
def matchManifest (registry : Registry) (filter : Filter) (manifest : Manifest) : Outcome :=
  registry.evaluate manifest [] filter manifest

/-- Match the definition of a tag with a manifest. No node of a filter asks for it, so its line is 0. -/
def matchTag (registry : Registry) (tag : String) (manifest : Manifest) : Outcome :=
  registry.resolve manifest [] tag 0 manifest.line

end Registry

end ModelCatalog
