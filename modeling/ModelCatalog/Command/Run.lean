import ModelCatalog.Command.Arguments
import ModelCatalog.Report.Reporter

/-!
# Running commands

A command ends with an exit code and what it writes. It succeeds with code 0 and writes to the standard
output, or fails with code 1 and writes to the standard error. A load error comes before anything else a
command has to say.
-/

namespace ModelCatalog

open Storage

namespace Command

/-- How a command ends. -/
structure Result where
  exitCode : Nat
  output : String := ""
  errors : String := ""
deriving DecidableEq, Repr

/-- A text as lines. -/
def lines (texts : List String) : String := String.join (texts.map (· ++ "\n"))

/-- End with success. -/
def Result.success (texts : List String) : Result := { exitCode := 0, output := lines texts }

/-- End with failure. -/
def Result.failure (text : String) : Result := { exitCode := 1, errors := lines [text] }

/-- The result of a computation that has either result. -/
def Result.merge : Except Result Result → Result
  | .ok result => result
  | .error result => result

/-- A load error as a result. -/
def Result.loadError (message : String) : Result := .failure ("error: " ++ message)

/-- The configuration file that is read when none is named. -/
def defaultConfigFile : String := "mercury.json"

variable {m : Type → Type} [Monad m]

/-- Go on only without a load error. -/
def orLoadError (message : ε → String) (action : ExceptT ε m α) : ExceptT Result m α :=
  action.adapt fun error => .loadError (message error)

/-- The configuration of a call. -/
def config (files : FileAccess m) (invocation : Invocation) : ExceptT Result m Config :=
  orLoadError ConfigError.message
    (Config.resolve files (invocation.config.getD defaultConfigFile) invocation.config.isSome
      invocation.overrides)

/-- The registry of a configuration. -/
def registry (files : FileAccess m) (config : Config) : ExceptT Result m Registry :=
  orLoadError RegistryError.message (Registry.load files config.tagIndex)

/-- The document in a file. -/
def document (files : FileAccess m) (path : String) : ExceptT Result m Element :=
  orLoadError FileError.message (files.document path)

/-- Report the verdict on the document in a file. -/
def verdict (path : String) (accepted : String) (report : ε → String) :
    Except ε α → Except Result Result
  | .ok _ => .ok (.success [path ++ ": " ++ accepted])
  | .error error => .error (.failure (path ++ ": " ++ report error))

/-- Expand a condensed tag expression. -/
def runExpandTags (text : String) : Result :=
  match Condensed.parse text with
  | .ok tags => .success tags.toList
  | .error error => .failure (Rule.condensedTagsInvalidSyntax.name ++ ": " ++ error.message)

/-- Validate a filter. -/
def runValidateFilter (files : FileAccess m) (invocation : Invocation) (path : String)
    (tagName : Option String) : ExceptT Result m Result := do
  let config ← config files invocation
  let registry ← registry files config
  let root ← document files path
  verdict path "valid filter" ({} : Reporter).filterInvalidity (registry.validateFilter tagName root)

/-- Validate a manifest. -/
def runValidateManifest (files : FileAccess m) (invocation : Invocation) (path : String) :
    ExceptT Result m Result := do
  let config ← config files invocation
  let registry ← registry files config
  let base ← orLoadError BaseFilterError.message (config.loadBaseFilter files registry)
  let root ← document files path
  verdict path "valid manifest" ({} : Reporter).manifestInvalidity
    (registry.validateManifest base root)

/-- Take a value, or fail with a report on the document in a file. -/
def orReport (path : String) (report : ε → String) : Except ε α → Except Result α
  | .ok value => .ok value
  | .error error => .error (.failure (path ++ ": " ++ report error))

/-- Match a filter with a manifest. -/
def runMatch (files : FileAccess m) (invocation : Invocation) (filterPath manifestPath : String) :
    ExceptT Result m Result := do
  let reporter : Reporter := {}
  let config ← config files invocation
  let registry ← registry files config
  let filterRoot ← document files filterPath
  let filter ← orReport filterPath reporter.filterInvalidity (registry.validateFilter none filterRoot)
  let manifestRoot ← document files manifestPath
  let manifest ← orReport manifestPath reporter.violation (Manifest.ofElement manifestRoot)
  match registry.matchManifest filter manifest with
  | .ok () => return .success [manifestPath ++ " matches " ++ filterPath]
  | .error failure => return .failure (reporter.matchFailure failure)

/-- Run a call. -/
def run (files : FileAccess m) (invocation : Invocation) : m Result :=
  match invocation.command with
  | .expandTags text => pure (runExpandTags text)
  | .validateFilter path tagName => finish (runValidateFilter files invocation path tagName)
  | .validateManifest path => finish (runValidateManifest files invocation path)
  | .matchFilter filter manifest => finish (runMatch files invocation filter manifest)
where
  finish (action : ExceptT Result m Result) : m Result := do
    return Result.merge (← action.run)

/-- The exit code of a call whose arguments make no sense. -/
def usageExitCode : Nat := 2

end Command

end ModelCatalog
