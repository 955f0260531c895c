import ModelCatalog.Grammar.Filter
import ModelCatalog.Grammar.Manifest
import ModelCatalog.Match.Evaluate

/-!
# Validation

The checks that a filter and a manifest have to pass before they are used: the grammar first, then
what needs the registry.
-/

namespace ModelCatalog

/-- The code of tags that the registry does not have. -/
def unknownTagsCode : String := "UNKNOWN_TAGS"

/-- The code of a value still to be filled in. -/
def unfilledValueCode : String := "UNFILLED_VALUE"

def unknownTagsMessage (tags : NameSet) : String := "unknown tags: " ++ tags.join ", "

/-- Why a filter is not valid. -/
inductive FilterInvalidity where
  | broken (violation : Violation)
  | unknownTags (tags : NameSet)
deriving DecidableEq

namespace FilterInvalidity

def code : FilterInvalidity → String
  | .broken violation => violation.rule.name
  | .unknownTags _ => unknownTagsCode

def message : FilterInvalidity → String
  | .broken violation => violation.message
  | .unknownTags tags => unknownTagsMessage tags

end FilterInvalidity

/-- The tags of a tag collection that the registry does not have. The explicit tags of the definition
    of a tag may name that tag itself. -/
def TagReference.unknownTags (registry : Registry) (self : Option String) (reference : TagReference) :
    NameSet :=
  let exempt :=
    match reference with
    | .explicit _ => self
    | .anything | .implicit _ => none
  reference.tags.filter fun tag => !registry.contains tag && exempt != some tag

/-- The tags that a filter refers to and the registry does not have. -/
def Filter.unknownTags (registry : Registry) (self : Option String) (filter : Filter) : NameSet :=
  filter.tagReferences.foldr (fun reference tags => reference.unknownTags registry self ∪ tags) ∅

/-- Read a filter and check the tags that it refers to. `self` is the tag it defines, if any. -/
def Registry.validateFilter (registry : Registry) (self : Option String) (root : Element) :
    Except FilterInvalidity Filter := do
  let filter ← (Filter.ofElement root).mapError .broken
  let unknown := filter.unknownTags registry self
  if unknown.isEmpty then return filter else throw (.unknownTags unknown)

/-- Why a manifest is not valid. -/
inductive ManifestInvalidity where
  | broken (violation : Violation)
  | unfilled (line : Nat)
  | baseModel (failure : MatchFailure)
  | unknownTags (tags : NameSet)
  | tagMismatch (tag : String) (failure : MatchFailure)
deriving DecidableEq

namespace ManifestInvalidity

def code : ManifestInvalidity → String
  | .broken violation => violation.rule.name
  | .unfilled _ => unfilledValueCode
  | .baseModel failure | .tagMismatch _ failure => failure.kind.name
  | .unknownTags _ => unknownTagsCode

def message : ManifestInvalidity → String
  | .broken violation => violation.message
  | .unfilled line => "line " ++ toString line ++ ": value is still unfilled"
  | .baseModel failure => "base model filter: " ++ failure.message
  | .unknownTags tags => unknownTagsMessage tags
  | .tagMismatch tag failure => "tag " ++ tag ++ ": " ++ failure.message

end ManifestInvalidity

/-- Match the definitions of tags in order. -/
def Registry.matchDeclared (registry : Registry) (manifest : Manifest) :
    List String → Except ManifestInvalidity Unit
  | [] => .ok ()
  | tag :: rest => do
    (registry.matchTag tag manifest).mapError (.tagMismatch tag)
    registry.matchDeclared manifest rest

/-- Read a manifest and check, in this order: nothing is left to fill in, the base filter matches, the
    registry has every declared tag, and the definition of each matches. -/
def Registry.validateManifest (registry : Registry) (base : Filter) (root : Element) :
    Except ManifestInvalidity Manifest := do
  let manifest ← (Manifest.ofElement root).mapError .broken
  match manifest.firstUnfilled? with
  | some line => throw (.unfilled line)
  | none =>
    (registry.matchManifest base manifest).mapError .baseModel
    let declared := manifest.declaredTags
    let unknown := declared.filter (!registry.contains ·)
    if unknown.isEmpty then
      registry.matchDeclared manifest declared.toList
      return manifest
    else throw (.unknownTags unknown)

end ModelCatalog
