import HotReload.Module.Strategy
import HotReload.Module.Placeholder

/-!
# Code of modules

The text that is written for a plan, one writer per strategy.

* A component keeps its text; only the imports of its groups are redirected, in place, to carry a
  placeholder.
* Another module with groups declares their names as variables, loads every source once, and assigns
  the variables before the body runs.
* A module without exports and groups runs its body inside of an asynchronous function.
-/

namespace HotReload
namespace Plan

/-- The import of a whole group, with a placeholder in its source. -/
def groupImport (parameter : String) (g : ImportGroup) : String :=
  renderImport (Placeholder.url g.source parameter) g.bindings

/-- What stands in the place of an import declaration. -/
def replacement (p : Plan) (parameter : String) (e : ImportEdit) : String :=
  String.intercalate "\n"
    ((p.fixedBy e).toList ++ ((p.openedBy e).map (groupImport parameter)).toList)

/-- A text, of which the byte offset is given, with the range of each edit replaced. -/
def splice (replace : ImportEdit → List Char) (offset : Nat) (text : List Char) :
    List ImportEdit → List Char
  | [] => text
  | e :: rest =>
    Text.takeBytes (e.start - offset) text ++ replace e ++
      splice replace e.stop (Text.dropBytes (e.stop - offset) text) rest

/-- The source with the imports of the groups redirected in place. -/
def patchedSource (p : Plan) (parameter : String) : String :=
  String.ofList
    (splice (fun e => (p.replacement parameter e).toList) 0 p.source.toList p.edits)

/-- What the names of generated constants start with. -/
def constantStem : String := "__relive_m"

/-- The constant that holds the module of a group. -/
def constantName (index : Nat) : String := constantStem ++ String.ofList (Text.decimal index)

/-- A named binding as a field of a destructuring. -/
def fieldText (name localName : String) : String :=
  if name = localName then localName else keyText name ++ ": " ++ localName

/-- The fields of the named bindings. -/
def fields (bindings : List Binding) : List String :=
  bindings.filterMap fun b =>
    match b.imported with
    | .named name => some (fieldText name b.localName)
    | _ => none

/-- The assignments of bindings from a constant; all named ones are assigned together where the
first of them stands. -/
def assignments (constant : String) (all : List Binding) (done : Bool) : List Binding → List String
  | [] => []
  | b :: rest =>
    match b.imported with
    | .defaultExport => (b.localName ++ " = " ++ constant ++ ".default;") ::
        assignments constant all done rest
    | .namespaceObject => (b.localName ++ " = " ++ constant ++ ";") ::
        assignments constant all done rest
    | .named _ =>
      if done then assignments constant all done rest
      else ("(" ++ inBraces (fields all) ++ " = " ++ constant ++ ");") ::
        assignments constant all true rest

/-- The block that loads the source of a group and assigns its bindings. -/
def initializer (index : Nat) (g : ImportGroup) : String :=
  let constant := constantName index
  let load := "const " ++ constant ++ " = await import(" ++ Json.quote g.source ++ ");"
  let lines := load :: assignments constant g.bindings false g.bindings
  "\x7b\n  " ++ String.intercalate "\n  " lines ++ "\n\x7d"

/-- The declaration of the variables of the groups, and the blocks that assign them. -/
def loading (p : Plan) : List String :=
  if p.groups.isEmpty then []
  else
    ("let " ++ String.intercalate ", " p.names ++ ";") ::
      p.groups.zipIdx.map fun (g, index) => initializer index g

/-- The module written anew: imports that stay, loading, body, exports. -/
def reconstructed (p : Plan) : String :=
  let body := if p.body.isEmpty then [] else [p.body]
  String.intercalate "\n" (p.passthrough ++ p.loading ++ body ++ p.exports) ++ "\n"

/-- The imports that stay, and the body inside of an asynchronous function. -/
def wrapped (p : Plan) : String :=
  String.join (p.passthrough.map (· ++ "\n")) ++ "(async () => \x7b\n" ++
    (if p.body.isEmpty then "" else p.body ++ "\n") ++ "\x7d)();\n"

/-- The code for a plan by a strategy. -/
def code (p : Plan) (strategy : Strategy) (parameter : String) : String :=
  match strategy with
  | .componentStatic => p.source
  | .componentPatchable => p.patchedSource parameter
  | .modulePatchable | .moduleFallback => p.reconstructed
  | .moduleStaticWrapped => p.wrapped

end Plan
end HotReload
