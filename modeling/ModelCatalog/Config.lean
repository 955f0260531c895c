import ModelCatalog.Registry.Load

/-!
# Configurations

A configuration names the tag index and the filter that every manifest has to match. It is written in a
file, whose paths are seen from its directory, and overridden on the command line, whose paths are taken
as they are.
-/

namespace ModelCatalog

open Storage

/-- The paths that a configuration file, or the command line, gives. -/
structure Settings where
  tagIndex : Option String := none
  baseFilter : Option String := none
deriving DecidableEq, Repr

/-- A configuration. Only the validation of manifests needs the base filter. -/
structure Config where
  tagIndex : String
  baseFilter : Option String
deriving DecidableEq, Repr

namespace Settings

/-- Settings with a key that is not set yet. -/
def set? (settings : Settings) (seen : List String) (key : String) (value : Option String) :
    Option Settings :=
  if key ∈ seen then none
  else if key = "tag_index" then some { settings with tagIndex := value }
  else if key = "base_model_filter" then some { settings with baseFilter := value }
  else none

/-- The settings with given members: known keys, each at most once. -/
def ofMembers (settings : Settings) (seen : List String) :
    List (String × Option String) → Option Settings
  | [] => some settings
  | (key, value) :: rest => do
    ofMembers (← settings.set? seen key value) (key :: seen) rest

/-- The settings with given items: the index, then the base filter. -/
def ofItems : List (Option String) → Option Settings
  | [] => some {}
  | [tagIndex] => some { tagIndex }
  | [tagIndex, baseFilter] => some { tagIndex, baseFilter }
  | _ => none

/-- Read settings: an object, or an array. -/
def read (text : String) : Option Settings := do
  let tokens ← Json.tokens text.toList
  match Json.object? tokens with
  | some members => ofMembers {} [] members
  | none => ofItems (← Json.array? tokens)

/-- The settings with their paths as seen from a directory. -/
def within (settings : Settings) (directory : String) : Settings where
  tagIndex := settings.tagIndex.map (join directory)
  baseFilter := settings.baseFilter.map (join directory)

/-- The settings with others in front of them. -/
def overriddenBy (settings overrides : Settings) : Settings where
  tagIndex := overrides.tagIndex.or settings.tagIndex
  baseFilter := overrides.baseFilter.or settings.baseFilter

end Settings

/-- Why there is no configuration. -/
inductive ConfigError where
  | unreadable (path : String) (cause : ReadFailure)
  | malformed (path : String)
  | noTagIndex
deriving DecidableEq, Repr

def ConfigError.message : ConfigError → String
  | .unreadable path cause => "failed to read config " ++ path ++ ": " ++ cause.message
  | .malformed path => "failed to parse config " ++ path
  | .noTagIndex => "no tag index configured (set tag_index or pass --tag-index)"

/-- Why there is no base filter. -/
inductive BaseFilterError where
  | notConfigured
  | unloadable (path : String) (cause : FileError)
  | invalid (path : String) (invalidity : FilterInvalidity)
deriving DecidableEq

def BaseFilterError.message : BaseFilterError → String
  | .notConfigured =>
    "no base model filter configured (set base_model_filter or pass --base-model-filter)"
  | .unloadable path cause => "failed to load base model filter " ++ path ++ ": " ++ cause.message
  | .invalid path invalidity =>
    "base model filter " ++ path ++ " is invalid: " ++ invalidity.message

/-- The text of a configuration file as settings. -/
def settingsOf (path : String) (text : Except ReadFailure String) : Except ConfigError Settings :=
  match text with
  | .error cause => .error (.unreadable path cause)
  | .ok text =>
    match Settings.read text with
    | none => .error (.malformed path)
    | some settings => .ok (settings.within (directory path))

/-- Settings as a configuration. -/
def Settings.toConfig (settings : Settings) : Except ConfigError Config :=
  match settings.tagIndex with
  | none => .error .noTagIndex
  | some tagIndex => .ok { tagIndex, baseFilter := settings.baseFilter }

/-- The document at a path as the base filter. -/
def baseFilterOf (registry : Registry) (path : String) (document : Except FileError Element) :
    Except BaseFilterError Filter :=
  match document with
  | .error cause => .error (.unloadable path cause)
  | .ok root => (registry.validateFilter none root).mapError (.invalid path)

variable {m : Type → Type} [Monad m]

/-- Resolve the configuration. A file that is not there counts as an empty one, unless it was asked for
    by name. -/
def Config.resolve (files : FileAccess m) (path : String) (explicit : Bool) (overrides : Settings) :
    ExceptT ConfigError m Config := do
  let found ← (files.exists? path : m _)
  if found || explicit then
    let text ← (files.read path : m _)
    let settings ← settingsOf path text
    let config ← (settings.overriddenBy overrides).toConfig
    return config
  else
    let config ← overrides.toConfig
    return config

/-- Load the base filter of a configuration. -/
def Config.loadBaseFilter (files : FileAccess m) (config : Config) (registry : Registry) :
    ExceptT BaseFilterError m Filter := do
  match config.baseFilter with
  | none => throw .notConfigured
  | some path =>
    let document ← (files.document path).run
    let filter ← baseFilterOf registry path document
    return filter

end ModelCatalog
