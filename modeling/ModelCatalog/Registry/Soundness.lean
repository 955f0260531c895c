import ModelCatalog.Markup.Document
import ModelCatalog.Registry
import ModelCatalog.Tag.Identifier
import ModelCatalog.Validation

/-!
# Sound registries

A registry is sound when every tag that a definition refers to is registered, no definition refers back
to itself through implicit references, and no chain of implicit references nests deeper than a document
may. The search for cycles goes from definition to definition, depth first; the depth of a tag is
remembered, so that a tag which many definitions refer to is searched once.
-/

namespace ModelCatalog

/-- Why definitions make no sound registry. -/
inductive RegistryFault where
  | notIdentifier (name : String)
  | duplicate (name : String)
  | unknownReferences (name : String) (unknown : NameSet)
  /-- A cycle, found in the search that started at a tag: the tags on the way, the last of them
      again one of those before it. -/
  | cycle (start : String) (path : List String)
  | tooDeep (name : String) (depth : Nat)
deriving DecidableEq

def RegistryFault.message : RegistryFault → String
  | .notIdentifier name => "tag name " ++ Text.quoted name ++ " is not a canonical identifier"
  | .duplicate name => "duplicate tag definition: " ++ name
  | .unknownReferences name unknown =>
    "definition of tag " ++ name ++ " references unknown tags: " ++ unknown.join ", "
  | .cycle start path =>
    "cycle check failed starting at tag " ++ start ++ ": tag cycle detected: " ++
      " -> ".intercalate path
  | .tooDeep name depth =>
    "resolving tag " ++ name ++ " nests " ++ toString depth ++ " levels deep, more than " ++
      toString Markup.maxDepth

namespace Registry

/-- Add definitions in order. Names are identifiers and occur once. -/
def addDefinitions (registry : Registry) : List (String × Filter) → Except RegistryFault Registry
  | [] => .ok registry
  | (name, definition) :: rest =>
    if !isIdentifier name then .error (.notIdentifier name)
    else if registry.contains name then .error (.duplicate name)
    else (registry.insert name definition).addDefinitions rest

/-- The registry of definitions that have been checked on their own. -/
def ofDefinitions (definitions : List (String × Filter)) : Except RegistryFault Registry :=
  empty.addDefinitions definitions

/-- Every tag that one of the definitions refers to is registered. -/
def checkReferences (registry : Registry) : List (String × Filter) → Except RegistryFault Unit
  | [] => .ok ()
  | (name, definition) :: rest =>
    let unknown := definition.unknownTags registry (some name)
    if unknown.isEmpty then registry.checkReferences rest
    else .error (.unknownReferences name unknown)

/-- The depths of tags that have been searched. -/
abbrev Depths := List (String × Nat)

/-- The depth of a tag: the deepest nesting of filters on a chain of implicit references from it on.
    The tags on the way to it stand in `path`. -/
def depthOf (registry : Registry) (path : List String) (known : Depths) (tag : String) :
    Except (List String) (Nat × Depths) :=
  match known.lookup tag with
  | some depth => .ok (depth, known)
  | none =>
    if _fresh : tag ∈ path then .error (path ++ [tag])
    else
      match _found : registry.get? tag with
      | none => .ok (0, known)
      | some definition => do
        let (deepest, known) ← definition.implicitReferences.toList.foldlM
          (fun (deepest, known) reference => do
            let (depth, known) ← registry.depthOf (path ++ [tag]) known reference
            return (max deepest depth, known))
          (0, known)
        let depth := definition.depth + deepest
        return (depth, (tag, depth) :: known)
termination_by registry.remaining path
decreasing_by exact remaining_push_lt _fresh (by simp [_found])

/-- Search from each of the tags in order. -/
def checkDepths (registry : Registry) (known : Depths) : List String → Except RegistryFault Unit
  | [] => .ok ()
  | name :: rest => do
    let (depth, known) ← (registry.depthOf [] known name).mapError (.cycle name)
    if Markup.maxDepth < depth then throw (.tooDeep name depth)
    registry.checkDepths known rest

/-- Check that a registry is sound. -/
def checkSound (registry : Registry) : Except RegistryFault Unit := do
  registry.checkReferences registry.definitions.entries
  registry.checkDepths [] registry.names

end Registry

end ModelCatalog
