import HotReload.Command.Invocation
import HotReload.Settings.Loading
import HotReload.Transform.Basic

/-!
# Running commands

A command reads one file and prints its code, a summary of its plan, or its cache key.  It fails
with a message, perhaps followed by the message of what caused the failure.
-/

namespace HotReload
namespace Command

/-- What a command writes, and the messages of its failure, the last cause at the end. -/
structure Result where
  output : String := ""
  errors : List String := []
  deriving DecidableEq, Repr

/-- The code for a file, its placeholders filled if a source has changed. -/
def transform (w : Surroundings) (verbose : Bool) (s : Settings) (file : String)
    (changed : List String) (stamp : String) : Result :=
  let t := (Transformer.ofSettings s).transformFile w (.ofSettings s) file
  let log := Terminal.renderNotes verbose t.notes
  match t.result.toExcept with
  | .error e => { output := log, errors := [e] }
  | .ok code =>
    { output := log ++ if changed.isEmpty then code else Placeholder.fill code changed stamp }

/-- The text of a truth value. -/
def truthText (b : Bool) : String := if b then "true" else "false"

/-- The line for a group of a plan. -/
def groupLine (g : ImportGroup) : String :=
  "rebindable   " ++ g.source ++ " " ++ inBraces [String.intercalate ", " g.localNames]

/-- The lines that sum up a plan. -/
def summary (p : Plan) : List String :=
  let strategy := (Strategy.ofPlan p).name.toList
  ["strategy     " ++ String.ofList (Terminal.coloured .brightGreen strategy),
    "flags        component=" ++ truthText p.flags.component ++
      " entry=" ++ truthText p.flags.entry ++ " core=" ++ truthText p.flags.core,
    "passthrough  " ++ String.ofList (Text.decimal p.passthrough.length)] ++
  p.groups.map groupLine ++
  ["exports      " ++ String.ofList (Text.decimal p.exports.length)]

/-- The messages of a file that cannot be read. -/
def readErrors (file : String) (fault : FileFault) : List String :=
  ["failed to read " ++ file, fault.message]

/-- The summary of the plan for a file. -/
def plan (w : Surroundings) (s : Settings) (file : String) : Result :=
  match w.files.readText file with
  | .error fault => { errors := readErrors file fault }
  | .ok source =>
    match (Transformer.ofSettings s).plan file source with
    | .error fault => { errors := [fault.message] }
    | .ok p => { output := String.intercalate "\n" (summary p) ++ "\n" }

/-- A label, at the right of eight columns. -/
def label (text : String) : List Char :=
  let cs := text.toList
  Terminal.dimmed (List.replicate (8 - cs.length) ' ' ++ cs)

/-- The labels of the fields of a cache key. -/
def keyLabels : List String := ["file", "content", "config", "env", "deps"]

/-- The lines for the fields of a cache key. -/
def keyLines (k : Cache.Key) : List String :=
  (keyLabels.zip k.fields).map fun (name, field) =>
    String.ofList (label name ++ ' ' :: field ++ ['\n'])

/-- The cache key for a file. -/
def key (w : Surroundings) (s : Settings) (file : String) : Result :=
  match w.files.readText file with
  | .error fault => { errors := readErrors file fault }
  | .ok source =>
    match (Cache.ofSettings s).key w file (Text.utf8 source) (.ok (some s.options)) with
    | .error fault => { errors := [fault.message] }
    | .ok k =>
      let note : Terminal.Note := { topic := "key", text := k.render }
      { output := String.join (keyLines k) ++ note.render }

/-- The result of an action. -/
def perform (w : Surroundings) (verbose : Bool) (s : Settings) : Action → Result
  | .transform file changed stamp => transform w verbose s file changed stamp
  | .plan file => plan w s file
  | .key file => key w s file

/-- What a run of the program leaves behind. -/
structure Exit where
  code : Nat
  output : String
  errors : String
  deriving DecidableEq, Repr

/-- The text of a failure with its cause. -/
def failureText : List String → String
  | [] => ""
  | [e] => "Error: " ++ e ++ "\n"
  | e :: causes => "Error: " ++ e ++ "\n\nCaused by:\n" ++
      String.join (causes.map fun c => "    " ++ c ++ "\n")

/-- The path of the settings: the first that exists upwards from the working directory, or else the
given one. -/
def settingsPath (files : Files) (name : String) : String :=
  let directory := files.workingDirectory
  files.absolute ((Settings.find? files directory name).getD (Path.join directory name))

/-- Runs an invocation. -/
def run (w : Surroundings) (i : Invocation) : Exit :=
  let loading := Settings.load w.files (settingsPath w.files i.settings)
  let log := Terminal.renderNotes i.verbose loading.notes
  let unknown := String.join (loading.unknown.map fun field => "- " ++ field ++ "\n")
  match loading.result with
  | .error fault =>
    ⟨1, log, unknown ++ failureText (fault.message :: fault.cause?.toList)⟩
  | .ok s =>
    let r := perform w (i.verbose || s.verbose) s i.action
    ⟨if r.errors.isEmpty then 0 else 1, log ++ r.output, unknown ++ failureText r.errors⟩

end Command
end HotReload
