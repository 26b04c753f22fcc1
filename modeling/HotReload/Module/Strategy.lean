import HotReload.Module.Plan

/-!
# Output strategies

The shapes that the code of a module can take, and the table that picks one.
-/

namespace HotReload

/-- The shape of the code that is written for a module. -/
inductive Strategy where
  /-- A component with rebindable groups: their imports are redirected in place. -/
  | componentPatchable
  /-- A component without rebindable groups: unchanged. -/
  | componentStatic
  /-- Another module with rebindable groups: variables that are loaded into. -/
  | modulePatchable
  /-- No groups, no exports, no entry point: the body runs inside of a function. -/
  | moduleStaticWrapped
  /-- All others: written anew in a fixed order. -/
  | moduleFallback
  deriving DecidableEq, Repr

namespace Strategy

/-- The name of a strategy. -/
def name : Strategy → String
  | .componentPatchable => "component-patchable"
  | .componentStatic => "component-static"
  | .modulePatchable => "module-patchable"
  | .moduleStaticWrapped => "module-static-wrapped"
  | .moduleFallback => "module-fallback"

/-- All strategies. -/
def all : List Strategy :=
  [.componentPatchable, .componentStatic, .modulePatchable, .moduleStaticWrapped, .moduleFallback]

/-- The strategy of a name. -/
def ofName? (s : String) : Option Strategy := all.find? (·.name == s)

/-- The strategy for a module, by what it is and has. -/
def select (component groups exports entry : Bool) : Strategy :=
  match component, groups, exports, entry with
  | true, true, _, _ => .componentPatchable
  | true, false, _, _ => .componentStatic
  | false, true, _, _ => .modulePatchable
  | false, false, false, false => .moduleStaticWrapped
  | false, false, _, _ => .moduleFallback

/-- The strategy for a plan. -/
def ofPlan (p : Plan) : Strategy :=
  select p.flags.component (!p.groups.isEmpty) (!p.exports.isEmpty) p.flags.entry

end Strategy
end HotReload
