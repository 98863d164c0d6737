import Criteria.Text.Parts

/-!
# Files that can be read

A snapshot of the files below one directory, and what happens when a file is read by its path. A
path is followed name by name: `.` stays, `..` goes up, and an empty name, as between two slashes,
is passed over. Every name has to be looked up in a directory, so a slash behind the name of a file
is a mistake. Outside the directory of the snapshot there are no files.
-/

namespace Criteria

/-- What stands at a path. -/
inductive FileContent where
  | bytes (b : ByteArray)
  | directory

/-- Everything but a directory is a file. -/
def FileContent.isFile : FileContent → Bool
  | bytes _ => true
  | directory => false

/-- The files below a directory. -/
structure FileTree where
  /-- The absolute path of the directory, without a slash at its end. -/
  root : String
  /-- The files by their paths from there. Directories on the way exist with them. -/
  files : List (String × FileContent)

/-- Why a file cannot be read. -/
inductive ReadError where
  | missing
  | notDirectory
  | isDirectory
  | notText
  deriving DecidableEq, Repr

/-- The message of the system. -/
def ReadError.message : ReadError → String
  | missing => "No such file or directory (os error 2)"
  | notDirectory => "Not a directory (os error 20)"
  | isDirectory => "Is a directory (os error 21)"
  | notText => "stream did not contain valid UTF-8"

/-- The place that a path leads to. -/
inductive Place where
  /-- Below the directory of the snapshot, by names from there. -/
  | inside (names : List String)
  /-- Anywhere else. -/
  | outside

namespace FileTree

/-- The names of a path that mean something. -/
def names (path : String) : List String :=
  (Text.parts '/' path).filter fun name => !name.isEmpty && name != "."

/-- What stands at a place: what was put there last, or a directory on the way to something. -/
def contentAt? (t : FileTree) (path : List String) : Option FileContent :=
  match t.files.reverse.find? fun (name, _) => names name == path with
  | some (_, content) => some content
  | none =>
    if path.isEmpty || t.files.any fun (name, _) => path.isPrefixOf (names name) then
      some .directory
    else none

/-- What stands at a place. -/
def at? (t : FileTree) : Place → Option FileContent
  | .inside path => t.contentAt? path
  | .outside => none

/-- Looks a name up in the directory at a place. -/
def step (t : FileTree) (place : Place) (name : String) : Except ReadError Place :=
  match place with
  | .outside =>
    if name == ".." || name == "." || name.isEmpty then .ok .outside else .error .missing
  | .inside path =>
    match t.contentAt? path with
    | none => .error .missing
    | some (.bytes _) => .error .notDirectory
    | some .directory =>
      if name == "." || name.isEmpty then .ok place
      else if name == ".." then .ok (if path.isEmpty then .outside else .inside path.dropLast)
      else .ok (.inside (path ++ [name]))

/-- Follows a path from a place. -/
def walk (t : FileTree) (start : Place) (path : String) : Except ReadError Place :=
  (Text.parts '/' path).foldlM t.step start

/-- The part of a path below the directory of the snapshot, if it begins with that. -/
def below? (t : FileTree) (path : String) : Option String :=
  if path == t.root then some ""
  else if (t.root ++ "/").toList.isPrefixOf path.toList then
    some (String.ofList (path.toList.drop (t.root.length + 1)))
  else none

/-- Reads a file as text. Relative paths do not start at the snapshot. -/
def read (t : FileTree) (path : String) : Except ReadError String := do
  let place ←
    match t.below? path with
    | some path => t.walk (.inside []) path
    | none => pure .outside
  match t.at? place with
  | none => throw .missing
  | some .directory => throw .isDirectory
  | some (.bytes b) =>
    match String.fromUTF8? b with
    | some s => return s
    | none => throw .notText

/-- Whether a path leads to a file. -/
def isFile (t : FileTree) (path : String) : Bool :=
  match t.below? path with
  | none => false
  | some path =>
    match t.walk (.inside []) path with
    | .ok place => (t.at? place).any FileContent.isFile
    | .error _ => false

end FileTree

end Criteria
