import Criteria.Config.FileTree
import Criteria.Config.Yaml

/-!
# Configuration files

A configuration is loaded from a file, in JSON or in YAML as the extension of the file says. Without
an explicit path, the file is the first one that exists of three names in the working directory.
-/

namespace Criteria

/-- Why a configuration could not be loaded. -/
inductive LoadError where
  /-- There is no file in the directory. -/
  | notFound (directory : String)
  /-- The extension of the path is none that is known. -/
  | unsupported (path : String)
  /-- The file cannot be read. -/
  | unreadable (path : String) (cause : ReadError)
  /-- The file holds no configuration in JSON. -/
  | invalidJson (path : String)
  /-- The file holds no configuration in YAML. -/
  | invalidYaml (path : String)
  deriving DecidableEq, Repr

/-- The message of an error. What a text is invalid for is left out. -/
def LoadError.message : LoadError → String
  | notFound directory => "no sieve.config file found in " ++ directory
  | unsupported path => "unsupported config format: " ++ path
  | unreadable path cause => "failed to read " ++ path ++ ": " ++ cause.message
  | invalidJson path => "invalid JSON in " ++ path ++ ": "
  | invalidYaml path => "invalid YAML in " ++ path ++ ": "

/-- The formats of configuration files. -/
inductive ConfigFormat where
  | json
  | yaml
  deriving DecidableEq, Repr

namespace ConfigFormat

/-- The last name of a path; there is none behind `..`. A dot alone counts only at the start of a
relative path, and is no name there either. -/
def fileName? (path : String) : Option (List Char) :=
  match (FileTree.names path).getLast? with
  | none => none
  | some name => if name == ".." then none else some name.toList

/-- What stands behind the last dot of a name, if something stands before it. -/
def extension? (name : List Char) : Option String :=
  let behind := (name.reverse.takeWhile (· != '.')).reverse
  if behind.length + 1 < name.length then some (String.ofList behind) else none

/-- The format that the extension of a path names. -/
def ofPath? (path : String) : Option ConfigFormat :=
  match (fileName? path).bind extension? with
  | some "json" => some json
  | some "yaml" | some "yml" => some yaml
  | _ => none

/-- A name that is all extension has none, and the case of letters counts. -/
example : ofPath? "a/.json" = none ∧ ofPath? "a.JSON" = none ∧ ofPath? "a.json/" = some json ∧
    ofPath? "a.b.yml" = some yaml := by decide +kernel

end ConfigFormat

namespace Config

/-- The names that are tried in the working directory. -/
def fileNames : List String := ["sieve.config.json", "sieve.config.yaml", "sieve.config.yml"]

/-- A path from a directory; an absolute path stays as it is. -/
def joinPath (directory path : String) : String :=
  if path.startsWith "/" then path else directory ++ "/" ++ path

/-- The path of the file to load: the explicit one, or the first of the fixed names that is a
file. -/
def resolvePath (t : FileTree) (explicit : Option String) : Option String :=
  match explicit with
  | some path => some (joinPath t.root path)
  | none => (fileNames.map (joinPath t.root)).find? t.isFile

/-- Loads the file at a path. The format is checked before anything is read. -/
def ofFile (t : FileTree) (path : String) : Except LoadError Config := do
  let some format := ConfigFormat.ofPath? path | throw (.unsupported path)
  let text ← (t.read path).mapError (.unreadable path)
  match format with
  | .json =>
    match ofJsonText? text with
    | some c => return c
    | none => throw (.invalidJson path)
  | .yaml =>
    match ofYamlText? text with
    | some c => return c
    | none => throw (.invalidYaml path)

/-- Loads the configuration of a directory. If there need not be one, an empty one stands for a
missing file, but not for one that is given explicitly. -/
def load (t : FileTree) (explicit : Option String) (isOptional : Bool) : Except LoadError Config :=
  match resolvePath t explicit with
  | some path => ofFile t path
  | none => if isOptional then .ok {} else .error (.notFound t.root)

end Config

end Criteria
