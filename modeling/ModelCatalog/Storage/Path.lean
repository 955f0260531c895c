/-!
# Paths

A path is a text whose parts stand between slashes. Paths are put together as texts; nothing in them
is resolved.
-/

namespace ModelCatalog.Storage

/-- A path that starts at the root and not at the working directory. -/
def isAbsolute (path : String) : Bool := path.toList.head? = some '/'

/-- A path as seen from a directory: an absolute path stays, any other follows the directory and a
    slash, unless the directory is empty or brings the slash along. -/
def join (directory path : String) : String :=
  if isAbsolute path then path
  else
    match directory.toList.getLast? with
    | none | some '/' => directory ++ path
    | _ => directory ++ "/" ++ path

/-- The reversed word of a directory without what does not change it: slashes and single points at its
    end. A point or a slash at the start of the path stays. -/
def dropIdle : List Char → List Char
  | '/' :: c :: rest => dropIdle (c :: rest)
  | '.' :: '/' :: rest => if rest = [] then ['/'] else dropIdle ('/' :: rest)
  | word => word

/-- The directory of the file at a path; it is empty when the path has one part. -/
def directory (path : String) : String :=
  String.ofList (dropIdle (path.toList.reverse.dropWhile (· ≠ '/'))).reverse

end ModelCatalog.Storage
