import ModelCatalog.Grammar.Filter
import ModelCatalog.Markup.Document

/-!
# Access to files

What loading needs of the files around it: the text at a path, and whether a path leads anywhere. The
loaders work over any monad that can answer these two questions.
-/

namespace ModelCatalog.Storage

/-- Why the text at a path cannot be read. -/
inductive ReadFailure where
  | notFound
  | notDirectory
  | isDirectory
  | notAllowed
  | nameTooLong
  /-- The path holds the character NUL. -/
  | nulInPath
  /-- The content is not UTF-8. -/
  | notText
deriving DecidableEq, Repr

def ReadFailure.message : ReadFailure → String
  | .notFound => "No such file or directory (os error 2)"
  | .notDirectory => "Not a directory (os error 20)"
  | .isDirectory => "Is a directory (os error 21)"
  | .notAllowed => "Permission denied (os error 13)"
  | .nameTooLong => "File name too long (os error 36)"
  | .nulInPath => "file name contained an unexpected NUL byte"
  | .notText => "stream did not contain valid UTF-8"

/-- The two questions about files. -/
structure FileAccess (m : Type → Type) where
  read : (path : String) → m (Except ReadFailure String)
  exists? : (path : String) → m Bool

/-- Why the document in a file cannot be read. -/
inductive FileError where
  | unreadable (path : String) (cause : ReadFailure)
  | malformed (path : String) (cause : Markup.DocumentError)
deriving DecidableEq, Repr

def FileError.message : FileError → String
  | .unreadable path cause => "read xml file " ++ path ++ ": " ++ cause.message
  | .malformed path cause => "parse xml file " ++ path ++ ": " ++ cause.message

/-- The text of a file, read or not, as a document. -/
def documentOf (path : String) (text : Except ReadFailure String) : Except FileError Element :=
  match text with
  | .error cause => .error (.unreadable path cause)
  | .ok text => (Markup.parse text).mapError (.malformed path)

variable {m : Type → Type} [Monad m]

/-- Read the document in a file. -/
def FileAccess.document (files : FileAccess m) (path : String) : ExceptT FileError m Element := do
  let text ← (files.read path : m _)
  documentOf path text

end ModelCatalog.Storage
