/-!
# Files and their names

A file is asked for by a path, and what it holds is a text. `Directory.read` says what a path leads
to from inside a directory that holds files only, with no further directories in it; what lies
outside of that directory is not known, but for the directories above it.

## Main definitions

* `FileProblem`: why a path leads to no text, and what is reported of it
* `Directory.read`: the text at a path
-/

namespace ArrayEngine

/-- Why there is no text to be read at a path. -/
inductive FileProblem where
  /-- The path leads to nothing. -/
  | notFound
  /-- The file may not be read. -/
  | denied
  /-- The path goes on behind a file. -/
  | notDirectory
  /-- The path leads to a directory. -/
  | isDirectory
  /-- The path, or one of the names in it, is too long. -/
  | nameTooLong
  /-- What the file holds is no text. -/
  | notText
  | other (reason : String)
deriving DecidableEq, Repr

/-- What is reported of a problem. -/
def FileProblem.message : FileProblem → String
  | notFound => "No such file or directory (os error 2)"
  | denied => "Permission denied (os error 13)"
  | notDirectory => "Not a directory (os error 20)"
  | isDirectory => "Is a directory (os error 21)"
  | nameTooLong => "File name too long (os error 36)"
  | notText => "stream did not contain valid UTF-8"
  | other reason => reason

/-- A directory that holds files and no directories. -/
structure Directory where
  /-- Names and contents. -/
  files : List (String × String)
deriving DecidableEq, Repr

/-- Where a path has led to so far. -/
inductive Place where
  /-- The directory that is read from. -/
  | inside
  /-- A directory above it. -/
  | outside
  | file (contents : String)
deriving DecidableEq, Repr

/-- Greatest size of a name in bytes. -/
def maxNameSize : Nat := 255

/-- Greatest size of a path in bytes. -/
def maxPathSize : Nat := 4095

namespace Directory

/-- What a name leads to from a place. Only from a directory does a name lead anywhere, and the
empty name, which stands between two slashes and behind the last, leads to where one is. -/
def enter (directory : Directory) (place : Place) (name : String) : Except FileProblem Place :=
  match place with
  | .file _ => .error .notDirectory
  | .inside | .outside =>
    if name = "" ∨ name = "." then .ok place
    else if name = ".." then .ok .outside
    else if maxNameSize < name.utf8ByteSize then .error .nameTooLong
    else
      match place, directory.files.lookup name with
      | .inside, some contents => .ok (.file contents)
      | _, _ => .error .notFound

/-- The text at a path. The empty path leads nowhere. -/
def read (directory : Directory) (path : String) : Except FileProblem String := do
  if path = "" then throw .notFound
  if maxPathSize < path.utf8ByteSize then throw .nameTooLong
  let start := if path.startsWith "/" then Place.outside else .inside
  match ← (path.splitOn "/").foldlM directory.enter start with
  | .file contents => return contents
  | .inside | .outside => throw .isDirectory

end Directory

end ArrayEngine
