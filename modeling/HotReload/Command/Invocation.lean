import HotReload.Command.Arguments

/-!
# Invocations

What the arguments of the program ask for: one of three commands on a file, with the path of the
settings and with options that may stand before or after the command.
-/

namespace HotReload
namespace Command

/-- When output is coloured. -/
inductive ColourChoice where
  | auto
  | always
  | never
  deriving DecidableEq, Repr

namespace ColourChoice

/-- The name of a choice. -/
def name : ColourChoice → String
  | .auto => "auto"
  | .always => "always"
  | .never => "never"

/-- The choice of a name. -/
def ofName? : String → Option ColourChoice
  | "auto" => some .auto
  | "always" => some .always
  | "never" => some .never
  | _ => none

end ColourChoice

/-- A command. -/
inductive Action where
  /-- Print the code for a file, with the placeholders of the changed sources stamped. -/
  | transform (file : String) (changed : List String) (stamp : String)
  /-- Print a summary of the plan for a file. -/
  | plan (file : String)
  /-- Print the cache key for a file. -/
  | key (file : String)
  deriving DecidableEq, Repr

/-- What the arguments ask for. -/
structure Invocation where
  colour : ColourChoice
  settings : String
  verbose : Bool
  action : Action
  deriving DecidableEq, Repr

namespace Invocation

/-- A path must not be empty. -/
def isPath (s : String) : Bool := !s.isEmpty

/-- The options that may stand on every level. -/
def everywhere : List OptionRule := [
  { name := "color", kind := .value (fun s => (ColourChoice.ofName? s).isSome) false },
  { name := "verbose", kind := .flag, letter := some 'v' },
  { name := "help", kind := .help, letter := some 'h' }]

/-- The names of the commands. -/
def commandNames : List (String × String) := [
  ("transform", "transform"), ("t", "transform"),
  ("plan", "plan"), ("p", "plan"),
  ("key", "key"), ("k", "key"),
  ("help", "help")]

/-- The level before the command. -/
def outer : Level where
  options := everywhere ++ [
    { name := "config", kind := .value isPath false, letter := some 'C' },
    { name := "version", kind := .version, letter := some 'V' }]
  commands := commandNames

/-- The positional argument of every command. -/
def fileRule : OptionRule := { name := "file", kind := .value isPath false, word := none }

/-- The options of the command `transform`. -/
def transformOptions : List OptionRule := [
  { name := "changed", kind := .value (fun _ => true) true },
  { name := "stamp", kind := .value (fun _ => true) false }]

/-- The level after the name of a command. -/
def inner (command : String) : Level where
  options := everywhere ++ (if command = "transform" then transformOptions else [])
  positional := some fileRule

/-- The fault of a request for help: it names commands, or none. -/
def helpFault : List String → UsageFault
  | [] => .helpRequested
  | [name] => if (commandNames.lookup name).isSome then .helpRequested else .unknownCommand
  | _ => .unknownCommand

/-- The action of a command whose arguments have been read. -/
def actionOf (command : String) (r : Reading) : Except UsageFault Action :=
  match r.value? "file" with
  | none => .error .missingArgument
  | some file =>
    match command with
    | "transform" => .ok (.transform file (r.values "changed") ((r.value? "stamp").getD "1"))
    | "plan" => .ok (.plan file)
    | _ => .ok (.key file)

/-- The invocation of an action, with the options before and after its command. -/
def assemble (before after : Reading) (action : Action) : Invocation where
  colour :=
    (((after.value? "color").or (before.value? "color")).bind ColourChoice.ofName?).getD .auto
  settings := (before.value? "config").getD "relive.toml"
  verbose := before.has "verbose" || after.has "verbose"
  action := action

/-- The arguments after a command; its own mistakes come first. -/
def afterCommand (before : Reading) (command : String) (rest : List String) :
    Except UsageFault Invocation := do
  let (after, _) ← (inner command).read false {} rest
  let after ← after.settle
  let action ← actionOf command after
  let before ← before.settle
  return assemble before after action

/-- What arguments ask for. -/
def parse (arguments : List String) : Except UsageFault Invocation := do
  let (before, command) ← outer.read false {} arguments
  match command with
  | some ("help", rest) => throw (helpFault rest)
  | some (name, rest) => afterCommand before name rest
  | none =>
    let before ← before.settle
    throw (if before.given.isEmpty then .nothingGiven else .missingCommand)

end Invocation
end Command
end HotReload
