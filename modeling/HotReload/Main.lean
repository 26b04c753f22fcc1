import HotReload.Command.Run

/-!
# The program

Reads the arguments and the files that they need, runs the command, and writes what it says.
-/

namespace HotReload
namespace Program

/-- What stands at a path; whatever cannot be read as a file counts as a directory. -/
def entryAt (path : String) : IO (Option Entry) := do
  try
    let bytes ← IO.FS.readBinFile path
    return some (.file bytes.toList)
  catch
    | .noFileOrDirectory .. => return none
    | _ => return some (.directory [])

/-- A file tree with what stands at a path. -/
def withPath (files : Files) (path : String) : IO Files := do
  match ← entryAt path with
  | some e => return files.write path e
  | none => return files

/-- The directories from a directory upwards, at most `n`. -/
def upwards : Nat → String → List String
  | 0, _ => []
  | n + 1, directory =>
    directory :: match Path.parent? directory with
      | some parent => upwards n parent
      | none => []

/-- The file of an action. -/
def fileOf : Command.Action → String
  | .transform file _ _ => file
  | .plan file => file
  | .key file => file

/-- The variables that settings list, with their values. -/
def valuesOf (names : List String) : IO (List (String × String)) := do
  let mut found := []
  for name in names do
    if let some v ← IO.getEnv name then found := found ++ [(name, v)]
  return found

/-- The files and variables that an invocation needs. -/
def surroundings (i : Command.Invocation) : IO Surroundings := do
  let directory := (← IO.currentDir).toString
  let cwd := (Path.steps directory).filter (!·.isEmpty)
  let mut files : Files := { tree := .directory [], cwd }
  files := files.write directory (.directory [])
  for d in upwards (directory.length + 2) directory do
    files ← withPath files (Path.join d i.settings)
  files ← withPath files (fileOf i.action)
  match (Settings.load files (Command.settingsPath files i.settings)).result with
  | .error _ => return { files }
  | .ok s =>
    files ← withPath files s.manifestPath
    return { files, environment := ← valuesOf s.cache.allowed }

/-- How the program is called. -/
def usage : List String := [
  "usage: [--config PATH] [--color WHEN] [--verbose] COMMAND FILE",
  "",
  "commands:",
  "  transform  print the generated module for a file",
  "             --changed SOURCE  fill placeholders, stamping this source",
  "             --stamp STAMP     the stamp of changed sources",
  "  plan       print the plan and the strategy for a file",
  "  key        print the cache key for a file"]

end Program
end HotReload

open HotReload in
/-- Runs the program. -/
def main (arguments : List String) : IO UInt32 := do
  match Command.Invocation.parse arguments with
  | .error fault =>
    if fault.isRequest then
      IO.println (String.intercalate "\n" Program.usage)
      return 0
    else
      IO.eprintln (String.intercalate "\n" Program.usage)
      return 2
  | .ok i =>
    let exit := Command.run (← Program.surroundings i) i
    IO.print exit.output
    IO.eprint exit.errors
    return UInt32.ofNat exit.code
