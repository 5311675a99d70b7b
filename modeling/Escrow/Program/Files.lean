/-!
# Files

What the program finds at a path, and what it does to files. Changes are made one
after the other, so that what a file holds in the end can be told without making
them (`Files.apply`).

A file may be given by different paths. Those that only differ in names that say
nothing are one path in normal form (`Path.normal`).
-/

namespace Escrow

namespace Path

/-- Whether a name in a path says nothing: an empty one, or a point. -/
def isVoid (name : String) : Bool :=
  name = "" || name = "."

/-- A path without names that say nothing. One that ends with such a name can only
    be that of a directory, so it ends with a slash. -/
def normal (path : String) : String :=
  let names := path.splitOn "/"
  let kept := names.filter fun name => !isVoid name
  if path = "" then ""
  else if kept.isEmpty then if path.startsWith "/" then "/" else "./"
  else
    (if path.startsWith "/" then "/" else "") ++ String.intercalate "/" kept ++
      (if isVoid (names.getLastD "") then "/" else "")

/-- The last name in a path. -/
def lastName (path : String) : String :=
  ((path.splitOn "/").filter fun name => !isVoid name).getLastD ""

/-- What follows the last point in the last name of a path, unless the name begins
    with that point. -/
def extension? (path : String) : Option String :=
  match ((lastName path).splitOn ".").reverse with
  | last :: rest@(_ :: _) => if rest.all String.isEmpty && rest.length = 1 then none else some last
  | _ => none

/-- The path of a name in a directory. -/
def join (directory name : String) : String :=
  if name.startsWith "/" || directory = "" then name
  else if directory.endsWith "/" then directory ++ name
  else directory ++ "/" ++ name

end Path

/-- What there is at a path. -/
inductive File
  | absent
  | text (content : String)
  /-- Something that cannot be read, or is no text. -/
  | unreadable
  deriving DecidableEq

/-- What there is at every path in normal form. -/
abbrev Files := String → File

/-- Something done to a file. -/
inductive Change
  | write (what path content : String)
  | remove (what path : String)
  | makeDirectory (path : String)
  deriving DecidableEq

/-- What is said if a change cannot be made. -/
def Change.failure : Change → String
  | write what path _ => s!"failed to write {what}: {path}"
  | remove what path => s!"failed to remove {what}: {path}"
  | makeDirectory path => s!"failed to create output directory: {path}"

namespace Files

/-- What there is at a path. -/
def find (files : Files) (path : String) : File :=
  files (Path.normal path)

/-- What there is at a path, and as before at all others. -/
def put (files : Files) (path : String) (file : File) : Files := fun p =>
  if p = Path.normal path then file else files p

/-- What there is after a change. -/
def apply (files : Files) : Change → Files
  | .write _ path content => files.put path (.text content)
  | .remove _ path => files.put path .absent
  | .makeDirectory _ => files

/-- What there is after some changes. -/
def applyAll (files : Files) (changes : List Change) : Files :=
  changes.foldl apply files

end Files

end Escrow
