import ModelCatalog.Config

/-!
# Command-line arguments

A call consists of global options, a command, and the options and operands of the command, among which
global options may stand too; a global option behind the command wins over the same one before it. An
option takes its value from behind `=` or from the next argument, which then has to look like a value.
Within either part an option may be given once. Behind `--` everything is an operand.
-/

namespace ModelCatalog

/-- What a call asks for. -/
inductive Command where
  | validateManifest (path : String)
  | validateFilter (path : String) (tagName : Option String)
  | matchFilter (filter manifest : String)
  | expandTags (text : String)
deriving DecidableEq, Repr

/-- A call. -/
structure Invocation where
  config : Option String := none
  overrides : Settings := {}
  command : Command
deriving DecidableEq, Repr

namespace Arguments

/-- The options that take a value. -/
inductive OptionName where
  | config
  | tagIndex
  | baseFilter
  | tagName
  | filter
  | manifest
deriving DecidableEq, Repr

/-- The commands by name. -/
inductive CommandName where
  | validateManifest
  | validateFilter
  | matchFilter
  | expandTags
deriving DecidableEq, Repr

/-- The command of a name. -/
def name? (text : String) : Option CommandName :=
  if text = "validate-manifest" then some .validateManifest
  else if text = "validate-filter" then some .validateFilter
  else if text = "match" then some .matchFilter
  else if text = "expand-tags" then some .expandTags
  else none

/-- The option of a name that may stand in front of the commands, or behind a given one. -/
def option? (command : Option CommandName) (text : String) : Option OptionName :=
  if text = "config" then some .config
  else if text = "tag-index" then some .tagIndex
  else if text = "base-model-filter" then some .baseFilter
  else if text = "tag-name" ∧ command = some .validateFilter then some .tagName
  else if text = "filter" ∧ command = some .matchFilter then some .filter
  else if text = "manifest" ∧ command = some .matchFilter then some .manifest
  else none

/-- An option names a path, which is never empty. -/
def OptionName.isPath : OptionName → Bool
  | .tagName => false
  | _ => true

/-- What one part of a call has given so far: the values of options, whether it asked for more output,
    and the operands. -/
structure Part where
  values : List (OptionName × String) := []
  verbose : Bool := false
  operands : List String := []

/-- Give an option its value. -/
def Part.set (part : Part) (option : OptionName) (value : String) : Option Part :=
  if (part.values.lookup option).isSome ∨ (option.isPath ∧ value = "") then none
  else some { part with values := (option, value) :: part.values }

/-- Ask for more output. -/
def Part.setVerbose (part : Part) : Option Part :=
  if part.verbose then none else some { part with verbose := true }

/-- The form of an argument. -/
inductive Form where
  | separator
  /-- A long option, with its value when one stands behind `=`. -/
  | long (name : String) (value : Option String)
  /-- Short options. -/
  | short (letters : List Char)
  | plain

/-- The form of an argument. A single hyphen is a plain one. -/
def form (argument : String) : Form :=
  match argument.toList with
  | ['-', '-'] => .separator
  | '-' :: '-' :: word =>
    match word.dropWhile (· ≠ '=') with
    | [] => .long (String.ofList word) none
    | _ :: value =>
      .long (String.ofList (word.takeWhile (· ≠ '='))) (some (String.ofList value))
  | '-' :: c :: word => .short (c :: word)
  | _ => .plain

/-- What is being read: anything, the value of an option, or operands only. -/
inductive Reading where
  | any
  | value (option : OptionName)
  | operands
deriving DecidableEq

/-- Read an argument in front of the commands, or behind a given one. -/
def Part.read (part : Part) (command : Option CommandName) (reading : Reading) (argument : String) :
    Option (Part × Reading) :=
  match reading, form argument with
  | .operands, _ => some ({ part with operands := part.operands ++ [argument] }, .operands)
  | .value option, .plain => return (← part.set option argument, .any)
  | .value _, _ => none
  | .any, .separator => some (part, .operands)
  | .any, .short letters =>
    if letters = ['v'] then return (← part.setVerbose, .any) else none
  | .any, .long name none =>
    if name = "verbose" then return (← part.setVerbose, .any)
    else return (part, .value (← option? command name))
  | .any, .long name (some value) => do
    return (← part.set (← option? command name) value, .any)
  | .any, .plain => some ({ part with operands := part.operands ++ [argument] }, .any)

/-- Read the arguments behind a command. -/
def Part.readAll (part : Part) (command : CommandName) (reading : Reading) : List String → Option Part
  | [] =>
    match reading with
    | .value _ => none
    | _ => some part
  | argument :: rest => do
    let (part, reading) ← part.read (some command) reading argument
    part.readAll command reading rest

/-- The command with the operands and options that are its own. -/
def CommandName.command (name : CommandName) (part : Part) : Option Command :=
  match name, part.operands with
  | .validateManifest, [path] => if path = "" then none else some (.validateManifest path)
  | .validateFilter, [path] =>
    if path = "" then none else some (.validateFilter path (part.values.lookup .tagName))
  | .matchFilter, [] => return .matchFilter (← part.values.lookup .filter) (← part.values.lookup .manifest)
  | .expandTags, [text] => some (.expandTags text)
  | _, _ => none

/-- The value of a global option. -/
def globalValue (front back : Part) (option : OptionName) : Option String :=
  (back.values.lookup option).or (front.values.lookup option)

/-- Read the arguments in front of a command, and those behind it. -/
def readFront (front : Part) (reading : Reading) : List String → Option Invocation
  | [] => none
  | argument :: rest =>
    match reading, name? argument with
    | .any, some name => do
      let back ← ({} : Part).readAll name .any rest
      return {
        config := globalValue front back .config
        overrides := {
          tagIndex := globalValue front back .tagIndex
          baseFilter := globalValue front back .baseFilter }
        command := ← name.command back }
    | .any, none | .value _, _ => do
      let (front, reading) ← front.read none reading argument
      if front.operands ≠ [] then none else readFront front reading rest
    | .operands, _ => none

/-- Read a call. Without a command, or with arguments that do not fit it, there is none. -/
def read (arguments : List String) : Option Invocation := readFront {} .any arguments

end Arguments

end ModelCatalog
