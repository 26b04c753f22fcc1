import HotReload.Module.Specifier
import HotReload.Json.Value

/-!
# Settings

The settings of a project, by section, with their defaults.
-/

namespace HotReload

/-- How much a minifier may change. -/
inductive MinifyMode where
  /-- Blanks and comments go; names stay. -/
  | whitespace
  /-- The code may be compressed and names shortened. -/
  | full
  deriving DecidableEq, Repr

/-- The name of a mode. -/
def MinifyMode.name : MinifyMode → String
  | .whitespace => "whitespace"
  | .full => "full"

/-- The mode of a name. -/
def MinifyMode.ofName? : String → Option MinifyMode
  | "whitespace" => some .whitespace
  | "full" => some .full
  | _ => none

/-- How modules are classified. -/
structure ClassifySettings where
  /-- A text that marks the definition of a component. -/
  componentMarker : String := "defineComponent"
  /-- A text that, together with `mountMarker`, marks an entry point. -/
  appMarker : String := "createApp"
  mountMarker : String := ".mount("
  /-- The call that looks components up by name. -/
  resolveCall : String := "resolveComponent"
  /-- The extensions of component files, without dots. -/
  componentExtensions : List String := ["vue"]
  /-- The least share of imports and exports among the statements of a core module. -/
  coreRatio : Float := 0.7

/-- Whether an extension is that of a component file. -/
def ClassifySettings.isComponentExtension (s : ClassifySettings) (extension : List Char) : Bool :=
  Specifier.isListed s.componentExtensions extension

/-- The bounds of the cache and what its keys are made of. -/
structure CacheSettings where
  /-- The greatest number of entries, zero for any number. -/
  capacity : Nat := 512
  /-- The lifetime of an entry in seconds, zero for no end. -/
  lifetimeSeconds : Nat := 0
  /-- The environment variables that matter. -/
  allowed : List String := ["NODE_ENV", "BASE_URL", "MODE"]
  /-- The path of the dependency manifest, relative to the root. -/
  manifest : String := "package.json"
  deriving DecidableEq, Repr

/-- The lifetime of an entry in seconds, if it has an end. -/
def CacheSettings.lifetime? (s : CacheSettings) : Option Nat :=
  if s.lifetimeSeconds > 0 then some s.lifetimeSeconds else none

/-- How code is written. -/
structure TransformSettings where
  minify : Bool := false
  minifyMode : MinifyMode := .whitespace
  /-- The query parameter that carries placeholders. -/
  placeholderParameter : String := "hmr"
  deriving DecidableEq, Repr

/-- The settings of a project. -/
structure Settings where
  classify : ClassifySettings := {}
  cache : CacheSettings := {}
  transform : TransformSettings := {}
  /-- Whether debug output is shown. -/
  verbose : Bool := false
  /-- The path from which the settings were read. -/
  path : String := ""
  /-- The directory of the project. -/
  root : String := ""

namespace Settings

/-- A float as JSON has it: a number that is not finite becomes `null`. -/
def floatValue (x : Float) : Json.Value :=
  if x.isNaN || x.isInf then .null else .number (.decimal x)

/-- The settings that shape the code that is written; they are part of every cache key. -/
def options (s : Settings) : Json.Value :=
  .object [
    ("classify", .object [
      ("component_marker", .string s.classify.componentMarker),
      ("app_marker", .string s.classify.appMarker),
      ("mount_marker", .string s.classify.mountMarker),
      ("resolve_call", .string s.classify.resolveCall),
      ("component_extensions", .array (s.classify.componentExtensions.map .string)),
      ("core_ratio", floatValue s.classify.coreRatio)]),
    ("transform", .object [
      ("minify", .boolean s.transform.minify),
      ("minify_mode", .string s.transform.minifyMode.name),
      ("placeholder_param", .string s.transform.placeholderParameter)])]

end Settings
end HotReload
