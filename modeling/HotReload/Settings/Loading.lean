import HotReload.Files.Tree
import HotReload.Settings.Reading
import HotReload.Settings.Validation
import HotReload.Terminal.Note

/-!
# Loading settings

Settings are searched for upwards from a directory.  A file that does not exist gives the defaults;
a file that exists must be readable, well formed and make sense.
-/

namespace HotReload
namespace Settings

/-- Why settings could not be loaded. -/
inductive LoadFault where
  | unreadable (path : String) (fault : FileFault)
  | malformed
  | senseless (diagnostics : List Diagnostic)
  deriving DecidableEq, Repr

namespace LoadFault

/-- The wording of a fault. -/
def message : LoadFault → String
  | .unreadable path _ => "IO error when reading `" ++ path ++ "`"
  | .malformed => "Config file parsing error"
  | .senseless ds => diagnosticsText ds

/-- The wording of what caused a fault. -/
def cause? : LoadFault → Option String
  | .unreadable _ fault => some fault.message
  | _ => none

end LoadFault

/-- What loading leaves behind. -/
structure Loading where
  result : Except LoadFault Settings
  notes : List Terminal.Note := []
  /-- Fields that were not known. -/
  unknown : List String := []

/-- Settings with the path from which they were read, and its directory as the root. -/
def located (s : Settings) (path : String) : Settings :=
  { s with path, root := (Path.parent? path).getD "" }

/-- Settings, if they make sense. -/
def checked (s : Settings) : Except LoadFault Settings :=
  if s.diagnostics.isEmpty then .ok s else .error (.senseless s.diagnostics)

/-- The notes on unknown fields of a file. -/
def unknownNotes (path : String) (unknown : List String) : List Terminal.Note :=
  if unknown.isEmpty then []
  else
    [{ topic := "warning"
       text := "unknown fields in " ++ (Path.name? path).getD path ++ " are ignored:" }]

/-- Loads the settings of a path. -/
def load (files : Files) (path : String) : Loading :=
  if files.exists? path then
    match files.readText path with
    | .error fault => { result := .error (.unreadable path fault) }
    | .ok text =>
      match read? text with
      | none => { result := .error .malformed }
      | some (s, unknown) =>
        { result := checked (s.located path), notes := unknownNotes path unknown, unknown }
  else
    { result := checked (located {} path)
      notes := [{ topic := "config"
                  text := path ++ " not found, using defaults"
                  detail := true }] }

/-- The first existing path of a name, from a directory upwards at most `n` times. -/
def findFrom (files : Files) (name : String) : Nat → String → Option String
  | 0, _ => none
  | n + 1, directory =>
    let candidate := Path.join directory name
    if files.exists? candidate then some candidate
    else
      match Path.parent? directory with
      | some parent => findFrom files name n parent
      | none => none

/-- The path of the settings of a name; an absolute name stands for itself. -/
def find? (files : Files) (directory name : String) : Option String :=
  if Path.isAbsolute name then if files.exists? name then some name else none
  else findFrom files name (directory.length + 2) directory

end Settings
end HotReload
