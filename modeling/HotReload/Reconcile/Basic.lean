import HotReload.Change.Event
import HotReload.Component.Parent
import HotReload.Reconcile.Activity
import HotReload.Reconcile.Outcome

/-!
# Reconciling a change with the running program

A changed component is looked for in a snapshot of the tree.  If it cannot be patched in, the change
escalates before anything is touched.  Otherwise each of its parents is patched in turn: the new
module is loaded and put into the parent's registry if the name is there, and the parent renders.  A
parent without a registry, or with an empty one, shows the change only when its own parents render
too.

A fault concerns one parent only; it is logged and the next parent is patched.  After a patch the
snapshot is taken anew from the host's root.
-/

namespace HotReload
namespace Reconcile

open Component

variable {σ ι ν δ : Type}

/-- The root of the tree, and the snapshot taken after the latest patch. -/
structure Context (ι : Type) where
  root : ι
  snapshot : Option (Component.Tree ι) := none

/-- Why a component with these parents cannot be patched in, if so. -/
def escalation (parents : List (Parent ι)) : Option Reason :=
  match parents with
  | [] => some .notFound
  | p :: rest =>
    if rest.isEmpty && p.isRoot then some .rootParent
    else if (p :: rest).any Parent.guarded then some .keepAlive
    else none

/-- Renders instances in order; the result is the number of those that did. -/
def renderAll (h : Host σ ι ν δ) : List (Parent ι) → Activity σ ι δ Nat
  | [] => return 0
  | p :: rest => do
    match ← forceRender h p.handle with
    | .ok () => return (← renderAll h rest) + 1
    | .error fault =>
      Activity.log [notice ("failed to refresh " ++ p.name ++ ": " ++ fault.message)]
      renderAll h rest

/-- Renders the parents of an instance. -/
def propagate [DecidableEq ι] (h : Host σ ι ν δ) (root thin : ι) : Activity σ ι δ Nat := do
  let tree ← takeSnapshot h root
  renderAll h (tree.parentsOfHandle thin)

/-- Whether a registry holds a name. -/
def holds (registry : Option (List String)) (name : String) : Bool :=
  registry.any fun names => names.contains name

/-- Whether there is no registry, or nothing in it. -/
def isThin (registry : Option (List String)) : Bool := registry.all List.isEmpty

/-- Puts a definition into the registry of an instance if its name is there; the result says whether
it is. -/
def rebindIfHeld (h : Host σ ι ν δ) (registry : Option (List String)) (i : ι) (name : String)
    (d : δ) : Activity σ ι δ (Except HostFault Bool) := do
  if holds registry name then
    match ← rebind h i name d with
    | .ok () => return .ok true
    | .error fault => return .error fault
  else return .ok false

/-- Patches a changed component into one of its parents. -/
def patchParent [DecidableEq ι] (h : Host σ ι ν δ) (root : ι) (e : Change.Event) (p : Parent ι) :
    Activity σ ι δ (Except HostFault ParentPatch) := do
  if p.wrapper.rendersOnly then
    match ← forceRender h p.handle with
    | .error fault => return .error fault
    | .ok () => return .ok { name := p.name, rendered := true }
  else
    match ← loadModule h e.url with
    | .error fault => return .error fault
    | .ok definition =>
      let registry ← Activity.look (h.registered · p.handle)
      match ← rebindIfHeld h registry p.handle e.component definition with
      | .error fault => return .error fault
      | .ok rebound =>
        match ← forceRender h p.handle with
        | .error fault => return .error fault
        | .ok () =>
          let propagated ← if isThin registry then propagate h root p.handle else pure 0
          return .ok { name := p.name, rebound, rendered := true, propagated }

/-- Patches a changed component into one of its parents; a fault is logged. -/
def attemptParent [DecidableEq ι] (h : Host σ ι ν δ) (root : ι) (e : Change.Event) (p : Parent ι) :
    Activity σ ι δ ParentPatch := do
  match ← patchParent h root e p with
  | .ok patch => return patch
  | .error fault =>
    Activity.log
      [notice ("failed to patch " ++ e.component ++ " in " ++ p.name ++ ": " ++ fault.message)]
    return { name := p.name }

/-- Patches a changed component into its parents, in order. -/
def patchAll [DecidableEq ι] (h : Host σ ι ν δ) (root : ι) (e : Change.Event) :
    List (Parent ι) → Activity σ ι δ (List ParentPatch)
  | [] => return []
  | p :: rest => do
    let patch ← attemptParent h root e p
    return patch :: (← patchAll h root e rest)

/-- Reconciles the change of a component. -/
def reloadComponent [DecidableEq ι] (h : Host σ ι ν δ) (root : ι) (e : Change.Event) :
    Activity σ ι δ Outcome := do
  let tree ← takeSnapshot h root
  let parents := tree.parentsOfName e.component
  match escalation parents with
  | some reason =>
    Activity.log [detail (e.component ++ ": " ++ reason.message)]
    return .escalate reason
  | none => return .patched ⟨e.component, ← patchAll h root e parents⟩

/-- Loads a module that is no component again. -/
def reloadPlain (h : Host σ ι ν δ) (e : Change.Event) : Activity σ ι δ Outcome := do
  match ← loadModule h e.url with
  | .ok _ => return .escalate (.plainModule none)
  | .error fault =>
    Activity.log [notice ("failed to re-import " ++ e.url ++ ": " ++ fault.message)]
    return .escalate (.plainModule (some fault.message))

/-- The context with the host's present root, if there is one, and a new snapshot. -/
def refresh (h : Host σ ι ν δ) (c : Context ι) : Activity σ ι δ (Context ι) := do
  let root := (← Activity.look h.root).getD c.root
  let tree ← takeSnapshot h root
  let count := String.ofList (Text.decimal tree.count)
  Activity.log [detail ("snapshot refreshed: " ++ count ++ " components")]
  return ⟨root, some tree⟩

/-- Reconciles a change; the result is the outcome and the context after it. -/
def reconcile [DecidableEq ι] (h : Host σ ι ν δ) (c : Context ι) (e : Change.Event) :
    Activity σ ι δ (Outcome × Context ι) := do
  let outcome ← match e.route with
    | .plain => reloadPlain h e
    | .component => reloadComponent h c.root e
  if outcome.isEscalation then return (outcome, c)
  else return (outcome, ← refresh h c)

end Reconcile
end HotReload
