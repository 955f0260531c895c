import ModelCatalog.Storage.FileAccess
import ModelCatalog.Storage.Path

/-!
# File trees

A finite tree of files below the root, and the directory in it where a program works. A path with a slash at
its start is followed from the root, any other from the working directory, part by part: an empty part and a
single point stay, two points go up, a name goes down. Going up from the root stays there.
-/

namespace ModelCatalog.Storage

/-- What a file holds. -/
inductive Content where
  | text (value : String)
  | bytes (values : List UInt8)
  /-- Something that may not be read. -/
  | locked

/-- The text of a content. -/
def Content.read : Content → Except ReadFailure String
  | .text value => .ok value
  | .bytes values =>
    match String.fromUTF8? ⟨values.toArray⟩ with
    | some value => .ok value
    | none => .error .notText
  | .locked => .error .notAllowed

/-- The files of a tree by their places, which are the names on the way from the root, its directories that may
    be empty, and the working directory. -/
structure FileTree where
  files : List (List String × Content)
  directories : List (List String)
  working : List String

/-- The parts of a path. -/
def parts (path : String) : List String :=
  ((path.toList.splitOn '/').map String.ofList).filter fun part => part ≠ ""

/-- The longest name of a file, in bytes. -/
def maxNameLength : Nat := 255

/-- The longest path, in bytes. -/
def maxPathLength : Nat := 4095

/-- Where a path has led to: a directory, or a file. -/
inductive Location where
  | directory (place : List String)
  | file (content : Content)

namespace FileTree

/-- A directory of the tree: one that is listed, or one that leads to a file, a listed one or the working one. -/
def isDirectory (tree : FileTree) (place : List String) : Bool :=
  place.isPrefixOf tree.working || tree.directories.any (place.isPrefixOf ·) ||
    tree.files.any fun file => place.isPrefixOf file.1 && place.length < file.1.length

/-- One part further. -/
def follow (tree : FileTree) (location : Location) (part : String) :
    Except ReadFailure Location :=
  match location with
  | .file _ => .error .notDirectory
  | .directory place =>
    if part = "." then .ok (.directory place)
    else if part = ".." then .ok (.directory place.dropLast)
    else if maxNameLength < part.utf8ByteSize then .error .nameTooLong
    else
      let next := place ++ [part]
      match tree.files.lookup next with
      | some content => .ok (.file content)
      | none => if tree.isDirectory next then .ok (.directory next) else .error .notFound

/-- Where a path leads. A slash at its end asks for a directory. -/
def locate (tree : FileTree) (path : String) : Except ReadFailure Location :=
  if path = "" then .error .notFound
  else if '\x00' ∈ path.toList then .error .nulInPath
  else if maxPathLength < path.utf8ByteSize then .error .nameTooLong
  else do
    let start := if isAbsolute path then [] else tree.working
    let location ← (parts path).foldlM tree.follow (.directory start)
    match location with
    | .file _ => if path.toList.getLast? = some '/' then throw .notDirectory else return location
    | .directory _ => return location

/-- The text at a path. -/
def read (tree : FileTree) (path : String) : Except ReadFailure String := do
  match ← tree.locate path with
  | .file content => content.read
  | .directory _ => throw .isDirectory

/-- A path leads somewhere. -/
def exists? (tree : FileTree) (path : String) : Bool := (tree.locate path).isOk

/-- Access to the files of a tree. -/
def access (tree : FileTree) : FileAccess Id where
  read path := tree.read path
  exists? path := tree.exists? path

/-- The place of a path without points, as seen from a directory. -/
def placeFrom (directory : List String) (path : String) : List String :=
  (if isAbsolute path then [] else directory) ++ (parts path).filter (· ≠ ".")

/-- The working directory of a tree that is given by its files. -/
def defaultWorking : List String := ["tmp", "tree"]

/-- The tree of files given by path; a path that ends in a slash gives a directory. -/
def ofFiles (files : List (String × Content)) : FileTree where
  files := (files.filter fun file => file.1.toList.getLast? ≠ some '/').map fun file =>
    (placeFrom defaultWorking file.1, file.2)
  directories := (files.filter fun file => file.1.toList.getLast? = some '/').map fun file =>
    placeFrom defaultWorking file.1
  working := defaultWorking

end FileTree

end ModelCatalog.Storage
