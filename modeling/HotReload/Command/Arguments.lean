import HotReload.Text.Bytes

/-!
# Command-line arguments

Arguments are options, positional arguments, and the name of a command, after which the options of
that command follow.  An option is spelled by a word after two dashes or by a letter after one;
letters may be joined.  A value stands in the same argument, after an equals sign or directly after
a letter, or is the next argument.  After two dashes alone, every argument is positional.

The value of an option is checked when the next option, positional argument or end of a level is
reached, so of two mistakes the one met first is reported.
-/

namespace HotReload
namespace Command

/-- Why arguments do not say what to do. -/
inductive UsageFault where
  /-- Help is asked for. -/
  | helpRequested
  /-- The version is asked for. -/
  | versionRequested
  /-- There are no arguments at all. -/
  | nothingGiven
  | missingCommand
  | missingArgument
  | unknownArgument
  | unknownCommand
  | invalidValue
  /-- An option that may stand once stands twice. -/
  | repeated
  /-- A value is given to an option that takes none. -/
  | unexpectedValue
  deriving DecidableEq, Repr

/-- Whether the arguments ask for a text only. -/
def UsageFault.isRequest : UsageFault → Bool
  | .helpRequested => true
  | .versionRequested => true
  | _ => false

/-- What an option does. -/
inductive OptionKind where
  /-- It is set by its presence. -/
  | flag
  /-- It takes a value; `many` if it may stand several times. -/
  | value (accepts : String → Bool) (many : Bool)
  | help
  | version

/-- An option; one without a word and a letter is positional. -/
structure OptionRule where
  name : String
  kind : OptionKind
  word : Option String := some name
  letter : Option Char := none

/-- The options of one level, its positional argument, and the names of its commands. -/
structure Level where
  options : List OptionRule
  positional : Option OptionRule := none
  /-- Every name of every command with the command it stands for. -/
  commands : List (String × String) := []

/-- The arguments of one level read so far. -/
structure Reading where
  /-- The options given, with their values, in order. -/
  given : List (String × String) := []
  /-- An option whose value has not been checked; no value yet if it is awaited. -/
  pending : Option (OptionRule × Option String) := none
  /-- The positional argument has been given. -/
  placed : Bool := false

namespace Reading

/-- Whether an option has been given. -/
def has (r : Reading) (name : String) : Bool := r.given.any (·.1 == name)

/-- The latest value of an option. -/
def value? (r : Reading) (name : String) : Option String :=
  ((r.given.filter (·.1 == name)).getLast?).map Prod.snd

/-- All values of an option. -/
def values (r : Reading) (name : String) : List String :=
  (r.given.filter (·.1 == name)).map Prod.snd

/-- Whether the next argument may be the value of an option. -/
def awaits (r : Reading) : Bool :=
  match r.pending with
  | some (_, none) => true
  | _ => false

/-- Adds an option with its value. -/
def record (r : Reading) (o : OptionRule) (v : String) : Except UsageFault Reading :=
  match o.kind with
  | .help => .error .helpRequested
  | .version => .error .versionRequested
  | .flag =>
    if r.has o.name then .error .repeated
    else .ok { r with given := r.given ++ [(o.name, v)] }
  | .value accepts many =>
    if r.has o.name && !many then .error .repeated
    else if accepts v then .ok { r with given := r.given ++ [(o.name, v)] }
    else .error .invalidValue

/-- Checks the value that is pending. -/
def settle (r : Reading) : Except UsageFault Reading :=
  match r.pending with
  | none => .ok r
  | some (_, none) => .error .invalidValue
  | some (o, some v) => { r with pending := none }.record o v

/-- Adds an option whose value, if it has one, is in the same argument. -/
def add (r : Reading) (o : OptionRule) (v : String) : Except UsageFault Reading :=
  match r.settle with
  | .ok r => r.record o v
  | .error fault => .error fault

/-- Makes an option pending. -/
def await (r : Reading) (o : OptionRule) (v : Option String) : Except UsageFault Reading :=
  match r.settle with
  | .ok r => .ok { r with pending := some (o, v) }
  | .error fault => .error fault

/-- Adds an option, perhaps with a value in the same argument. -/
def take (r : Reading) (o : OptionRule) (attached : Option String) : Except UsageFault Reading :=
  match o.kind, attached with
  | .value _ _, some v => r.add o v
  | .value _ _, none => r.await o none
  | _, some _ => .error .unexpectedValue
  | _, none => r.add o ""

end Reading

namespace Level

/-- Reads joined letters. -/
def letters (l : Level) (r : Reading) : List Char → Except UsageFault Reading
  | [] => .ok r
  | c :: cs =>
    match l.options.find? (·.letter == some c) with
    | none => .error .unknownArgument
    | some o =>
      match o.kind, cs with
      | .value _ _, [] => r.take o none
      | .value _ _, '=' :: v => r.take o (some (String.ofList v))
      | .value _ _, v => r.take o (some (String.ofList v))
      | _, cs =>
        match r.take o none with
        | .ok r => letters l r cs
        | .error fault => .error fault

/-- Reads an option that is spelled by a word. -/
def word (l : Level) (r : Reading) (cs : List Char) : Except UsageFault Reading :=
  let name := String.ofList (cs.takeWhile (· ≠ '='))
  let attached := match cs.dropWhile (· ≠ '=') with
    | [] => none
    | _ :: v => some (String.ofList v)
  match l.options.find? (·.word == some name) with
  | none => .error .unknownArgument
  | some o => r.take o attached

/-- The fault of an argument that has no place. -/
def misplaced (l : Level) (trailing : Bool) (a : String) : UsageFault :=
  if l.commands.isEmpty || (trailing && (l.commands.lookup a).isSome) then .unknownArgument
  else .unknownCommand

/-- Reads a positional argument. -/
def place (l : Level) (r : Reading) (trailing : Bool) (a : String) : Except UsageFault Reading :=
  match l.positional with
  | none => .error (l.misplaced trailing a)
  | some o =>
    if r.placed then .error (l.misplaced trailing a)
    else { r with placed := true }.await o (some a)

/-- Reads an argument that names no command. -/
def argument (l : Level) (r : Reading) (a : String) : Except UsageFault Reading :=
  match a.toList with
  | '-' :: '-' :: cs => l.word r cs
  | '-' :: c :: cs => l.letters r (c :: cs)
  | _ =>
    match r.pending with
    | some (o, none) => .ok { r with pending := some (o, some a) }
    | _ => l.place r false a

/-- Reads arguments up to the name of a command; the result holds it with the arguments after it. -/
def read (l : Level) (trailing : Bool) (r : Reading) :
    List String → Except UsageFault (Reading × Option (String × List String))
  | [] => .ok (r, none)
  | a :: rest =>
    if trailing then
      match l.place r true a with
      | .ok r => read l true r rest
      | .error fault => .error fault
    else
      match (if r.awaits then none else l.commands.lookup a) with
      | some command => .ok (r, some (command, rest))
      | none =>
        if a = "--" then read l true r rest
        else
          match l.argument r a with
          | .ok r => read l false r rest
          | .error fault => .error fault

end Level
end Command
end HotReload
