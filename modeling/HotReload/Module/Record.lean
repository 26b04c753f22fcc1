import HotReload.Script.Program
import HotReload.Settings.Sections

/-!
# Modules

A module is a source text with its top-level statements.  From the text and the statements follow
its flags: whether it defines a component, whether it is an entry point of the application, and
whether it is a core module, which consists of imports and exports almost entirely.
-/

namespace HotReload

/-- A module that has been read. -/
structure Module where
  path : String
  source : String
  statements : List Script.Statement
  deriving DecidableEq, Repr

namespace Module

/-- What a module is. -/
structure Flags where
  component : Bool := false
  entry : Bool := false
  core : Bool := false
  deriving DecidableEq, Repr

/-- Whether all imports of a module have to stay as they are. -/
def Flags.forcesStatic (f : Flags) : Bool := f.entry || f.core

/-- Reads a module. -/
def parse (path source : String) : Except Script.Fault Module :=
  match Script.Program.parse source with
  | .ok program => .ok ⟨path, source, program.statements⟩
  | .error fault => .error fault

/-- The text of a statement. -/
def textOf (m : Module) (s : Script.Statement) : String :=
  String.ofList (Text.slice s.start s.stop m.source.toList)

/-- The import declarations, with their statements. -/
def imports (m : Module) : List (Script.Statement × ImportDeclaration) :=
  m.statements.filterMap fun s =>
    match s.kind with
    | .importing d => some (s, d)
    | _ => none

/-- The statements that are exports. -/
def exports (m : Module) : List Script.Statement :=
  m.statements.filter fun s => s.kind == .exporting

/-- The statements that are neither imports nor exports. -/
def others (m : Module) : List Script.Statement :=
  m.statements.filter fun s => s.kind == .other

/-- Whether the module exports something. -/
def hasExports (m : Module) : Bool := !m.exports.isEmpty

/-- Whether a module with these statements is a core module: it has at least two statements and a
local import, and the share of imports and exports reaches the ratio. -/
def isCore (m : Module) (ratio : Float) : Bool :=
  let total := m.statements.length
  let surface := m.imports.length + m.exports.length
  let importsLocally := m.imports.any fun (_, d) => Specifier.kind d.source.toList == .internal
  total ≥ 2 && importsLocally && Float.ofNat surface / Float.ofNat total ≥ ratio

/-- What a module is.  Only a module that is neither a component nor an entry point can be a core
module. -/
def flags (m : Module) (settings : ClassifySettings) : Flags :=
  let text := m.source.toList
  let component := Text.occursIn settings.componentMarker.toList text
  let entry := Text.occursIn settings.appMarker.toList text &&
    Text.occursIn settings.mountMarker.toList text
  { component, entry, core := !component && !entry && m.isCore settings.coreRatio }

end Module
end HotReload
