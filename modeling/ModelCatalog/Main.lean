import ModelCatalog.Command.Run

/-!
# The command line

The outer layer: files are read from the file system, and the result of a call is written out.
-/

namespace ModelCatalog

open Storage

/-- Why a file could not be read. A directory is found out only when it is read, after its name has
    been used up; a path with NUL is refused before the file system sees it. -/
def readFailure : IO.Error → ReadFailure
  | .inappropriateType none .. => .isDirectory
  | .inappropriateType (some _) .. => .notDirectory
  | .invalidArgument _ code _ => if code = 22 then .nulInPath else .nameTooLong
  | .permissionDenied .. => .notAllowed
  | _ => .notFound

/-- The text of a file. -/
def readFile (path : String) : IO (Except ReadFailure String) := do
  try
    let bytes ← IO.FS.readBinFile path
    match String.fromUTF8? bytes with
    | some text => return .ok text
    | none => return .error .notText
  catch error => return .error (readFailure error)

/-- Whether a file can be found. -/
def fileExists (path : String) : IO Bool := do
  try
    let _ ← IO.FS.Handle.mk path .read
    return true
  catch _ => return false

/-- The files of the file system. -/
def systemFiles : FileAccess IO := ⟨readFile, fileExists⟩

end ModelCatalog

def main (arguments : List String) : IO UInt32 := do
  match ModelCatalog.Arguments.read arguments with
  | none =>
    IO.eprintln "error: the arguments make no command"
    return .ofNat ModelCatalog.Command.usageExitCode
  | some invocation =>
    let result ← ModelCatalog.Command.run ModelCatalog.systemFiles invocation
    IO.print result.output
    IO.eprint result.errors
    return .ofNat result.exitCode
