import ModelCatalog.Registry.Soundness
import ModelCatalog.Storage.FileAccess
import ModelCatalog.Storage.Json
import ModelCatalog.Storage.Path

/-!
# Loading registries

An index lists tags with the paths of their definitions, as seen from the directory of the index.
Definitions are read in increasing order of their tags; then the registry is checked to be sound.
-/

namespace ModelCatalog

open Storage

/-- The paths of definitions by tag. -/
abbrev TagIndex := NameMap String

namespace TagIndex

/-- The index with given members. A tag that is listed twice has its last path. -/
def ofMembers (members : List (String × Option String)) : Option TagIndex :=
  members.foldlM (fun index (tag, path) => path.map (index.insert tag)) ∅

/-- Read an index: an object of tags and paths. -/
def read (text : String) : Option TagIndex := do
  ofMembers (← Json.object? (← Json.tokens text.toList))

end TagIndex

/-- Why a registry cannot be loaded. -/
inductive RegistryError where
  | unreadableIndex (path : String) (cause : ReadFailure)
  | malformedIndex (path : String)
  | definition (tag : String) (cause : FileError)
  | invalidDefinition (tag path : String) (violation : Violation)
  | unsound (fault : RegistryFault)
deriving DecidableEq

def RegistryError.message : RegistryError → String
  | .unreadableIndex path cause => "failed to read tag index " ++ path ++ ": " ++ cause.message
  | .malformedIndex path => "failed to parse tag index " ++ path
  | .definition tag cause => "failed to load definition of tag " ++ tag ++ ": " ++ cause.message
  | .invalidDefinition tag path violation =>
    "definition of tag " ++ tag ++ " (" ++ path ++ ") is invalid: " ++ violation.message
  | .unsound fault => fault.message

/-- The text of an index as an index. -/
def indexOf (path : String) (text : Except ReadFailure String) : Except RegistryError TagIndex :=
  match text with
  | .error cause => .error (.unreadableIndex path cause)
  | .ok text =>
    match TagIndex.read text with
    | none => .error (.malformedIndex path)
    | some index => .ok index

/-- The document of a definition as a definition. -/
def definitionOf (tag path : String) (document : Except FileError Element) :
    Except RegistryError Filter :=
  match document with
  | .error cause => .error (.definition tag cause)
  | .ok root => (Filter.ofElement root).mapError (.invalidDefinition tag path)

/-- The registry of definitions that have been read, when it is sound. -/
def Registry.build (definitions : List (String × Filter)) : Except RegistryFault Registry := do
  let registry ← Registry.ofDefinitions definitions
  registry.checkSound
  return registry

variable {m : Type → Type} [Monad m]

/-- Read the definitions of listed tags in order. Their paths are seen from a directory. -/
def readDefinitions (files : FileAccess m) (base : String) :
    List (String × String) → ExceptT RegistryError m (List (String × Filter))
  | [] => return []
  | (tag, path) :: rest => do
    let path := join base path
    let document ← (files.document path).run
    let definition ← definitionOf tag path document
    return (tag, definition) :: (← readDefinitions files base rest)

/-- Read the definitions that an index lists and build their registry. Paths are seen from a
    directory. -/
def TagIndex.build (files : FileAccess m) (base : String) (index : TagIndex) :
    ExceptT RegistryError m Registry := do
  let definitions ← readDefinitions files base index.entries
  let registry ← (Registry.build definitions).mapError RegistryError.unsound
  return registry

/-- Load the registry of an index. -/
def Registry.load (files : FileAccess m) (path : String) : ExceptT RegistryError m Registry := do
  let text ← (files.read path : m _)
  let index ← indexOf path text
  index.build files (directory path)

end ModelCatalog
