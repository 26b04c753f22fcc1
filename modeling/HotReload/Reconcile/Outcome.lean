/-!
# Outcomes of a change

A change is either patched into the running program, parent by parent, or escalated, which asks for
a full reload.
-/

namespace HotReload
namespace Reconcile

/-- Why a change cannot be patched in. -/
inductive Reason where
  /-- The component is not rendered. -/
  | notFound
  /-- The only parent of the component is the root. -/
  | rootParent
  /-- A keep-alive wrapper guards the component. -/
  | keepAlive
  /-- The module is no component; the text is that of the fault if it could not be loaded again. -/
  | plainModule (fault : Option String)
  deriving DecidableEq, Repr

/-- The wording of a reason. -/
def Reason.message : Reason → String
  | .notFound => "component not found in the rendered tree"
  | .rootParent => "component is mounted directly under the root"
  | .keepAlive => "component is inside a keep-alive wrapper"
  | .plainModule none => "plain module has no patch target"
  | .plainModule (some fault) => "plain module reload failed: " ++ fault

/-- What happened to one parent. -/
structure ParentPatch where
  name : String
  /-- The new definition is in the parent's registry. -/
  rebound : Bool := false
  /-- The parent has rendered. -/
  rendered : Bool := false
  /-- The number of the parent's own parents that have rendered. -/
  propagated : Nat := 0
  deriving DecidableEq, Repr

/-- What happened to the parents of a component. -/
structure Report where
  component : String
  parents : List ParentPatch
  deriving DecidableEq, Repr

namespace Report

/-- Whether every parent has rendered. -/
def isComplete (r : Report) : Bool := r.parents.all ParentPatch.rendered

/-- The names of the parents that have rendered. -/
def renderedNames (r : Report) : List String :=
  (r.parents.filter ParentPatch.rendered).map ParentPatch.name

/-- The names of the parents that have not rendered. -/
def staleNames (r : Report) : List String :=
  (r.parents.filter (!·.rendered)).map ParentPatch.name

end Report

/-- The outcome of a change. -/
inductive Outcome where
  | escalate (reason : Reason)
  | patched (report : Report)
  deriving DecidableEq, Repr

/-- Whether a full reload is asked for. -/
def Outcome.isEscalation : Outcome → Bool
  | .escalate _ => true
  | .patched _ => false

end Reconcile
end HotReload
