import HotReload.Cache.Basic
import HotReload.Module.Code
import HotReload.Script.Compact
import HotReload.Settings.Sections
import HotReload.Transform.Result

/-!
# Transforming modules

A module goes through a transpiler, is split into a plan, is written anew by the strategy for the
plan, and may be minified.  What comes out is stored in a cache under the content of the file and
all settings that shape the code; a module that fails is not stored.

A transformer does not own its cache, so several of them may share one.
-/

namespace HotReload

/-- The absolute or relative path of the dependency manifest. -/
def Settings.manifestPath (s : Settings) : String := Path.join s.root s.cache.manifest

/-- The cache that settings ask for. -/
def Cache.ofSettings (s : Settings) : Cache where
  limits := { capacity := s.cache.capacity, lifetime := s.cache.lifetime? }
  allowed := s.cache.allowed
  source := .process
  manifest := some s.manifestPath

/-- A tool that turns the source of a file into a module. -/
abbrev Transpiler := (source file : String) → Except String String

/-- A tool that makes the code of a file smaller. -/
abbrev Minifier := (code file : String) → MinifyMode → Except String String

/-- The minifier that keeps the tokens of a module in either mode. -/
def compactMinifier : Minifier := fun code file _ =>
  match Script.Program.parse code with
  | .ok program => .ok program.compact
  | .error fault => .error (file ++ ": " ++ fault.message)

/-- What a transformation of modules depends on. -/
structure Transformer where
  classify : ClassifySettings := {}
  /-- The query parameter that carries placeholders. -/
  parameter : String := "hmr"
  /-- How code is minified, if it is. -/
  minify : Option MinifyMode := none
  /-- The settings that are part of every cache key. -/
  options : Json.Value := .null
  transpiler : Transpiler := fun source _ => .ok source
  minifier : Minifier := compactMinifier

/-- Code with the strategy that wrote it. -/
structure Compiled where
  strategy : Strategy
  code : String
  deriving DecidableEq, Repr

namespace Transformer

/-- The transformer that settings ask for. -/
def ofSettings (s : Settings) : Transformer where
  classify := s.classify
  parameter := s.transform.placeholderParameter
  minify := if s.transform.minify then some s.transform.minifyMode else none
  options := s.options

/-- The plan of a source. -/
def plan (t : Transformer) (file source : String) : Except TransformFault Plan :=
  match t.transpiler source file with
  | .error reason => .error (.transpile file reason)
  | .ok text =>
    match Module.parse file text with
    | .error fault => .error (.parse file fault)
    | .ok m => .ok (Plan.of m t.classify)

/-- The code for a plan before it is minified. -/
def code (t : Transformer) (p : Plan) : String := p.code (.ofPlan p) t.parameter

/-- The code as it is delivered. -/
def finish (t : Transformer) (file code : String) : Except TransformFault String :=
  match t.minify with
  | none => .ok code
  | some mode =>
    match t.minifier code file mode with
    | .ok small => .ok small
    | .error reason => .error (.minify file reason)

/-- The code for a source, without the cache. -/
def compile (t : Transformer) (file source : String) : Except TransformFault Compiled :=
  match t.plan file source with
  | .error fault => .error fault
  | .ok p =>
    match t.finish file (t.code p) with
    | .ok code => .ok ⟨.ofPlan p, code⟩
    | .error fault => .error fault

/-- A use of one of the tools. -/
inductive Work where
  | transpiled
  | minified (file : String) (mode : MinifyMode)
  deriving DecidableEq, Repr

/-- The uses of the tools that compiling a source takes. -/
def work (t : Transformer) (file source : String) : List Work :=
  .transpiled ::
    match t.plan file source, t.minify with
    | .ok _, some mode => [.minified file mode]
    | _, _ => []

/-- What a transformation leaves behind. -/
structure Trace where
  result : TransformResult
  cache : Cache
  notes : List Terminal.Note := []
  work : List Work := []

/-- A note that only debug output shows. -/
def detail (topic text : String) : Terminal.Note := { topic, text, detail := true }

/-- The code for a source, from the cache if it is there. -/
def transform (t : Transformer) (w : Surroundings) (c : Cache) (file source : String) : Trace :=
  let content := Text.utf8 source
  match c.get w file content (.ok (some t.options)) with
  | (some text, c, events) =>
    { result := .ofCode text
      cache := c
      notes := events.map Cache.Event.note ++ [detail "cache" ("hit " ++ file)] }
  | (none, c, events) =>
    match t.compile file source with
    | .ok compiled =>
      let (c, stored) := c.set w file content (.ok (some t.options)) compiled.code
      { result := .ofCode compiled.code
        cache := c
        notes := events.map Cache.Event.note ++
          detail "transform" (file ++ " -> " ++ compiled.strategy.name) ::
          stored.map Cache.Event.note
        work := t.work file source }
    | .error fault =>
      { result := .ofError fault.message
        cache := c
        notes := events.map Cache.Event.note ++ [detail "transform" fault.message]
        work := t.work file source }

/-- The code for a file. -/
def transformFile (t : Transformer) (w : Surroundings) (c : Cache) (path : String) : Trace :=
  match w.files.readText path with
  | .ok source => t.transform w c path source
  | .error fault =>
    { result := .ofError ("failed to read `" ++ path ++ "`: " ++ fault.message), cache := c }

end Transformer
end HotReload
