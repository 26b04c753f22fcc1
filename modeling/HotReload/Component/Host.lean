import HotReload.Component.Descriptor

/-!
# Hosts

The framework that runs the components, seen from outside.  A host is looked at through functions of
its state, and acted on by four calls, each of which may fail and may change the state: load a
module, put a definition into the registry of an instance, and render an instance through its public
or its internal entry point.

A rendered node either holds an instance of a component or is a plain node with children.
-/

namespace HotReload
namespace Component

/-- Why a call of the host failed. -/
inductive HostFault where
  | loadRejected (url reason : String)
  | unavailable (entry : String)
  | renderFailed (reason : String)
  | rebindFailed (reason : String)
  deriving DecidableEq, Repr

/-- The wording of a fault. -/
def HostFault.message : HostFault → String
  | .loadRejected url reason => "module load rejected for `" ++ url ++ "`: " ++ reason
  | .unavailable entry => entry ++ " entry point unavailable"
  | .renderFailed reason => "render failed: " ++ reason
  | .rebindFailed reason => "registry rebind failed: " ++ reason

/-- A host with states `σ`, instances `ι`, rendered nodes `ν` and component definitions `δ`. -/
structure Host (σ ι ν δ : Type) where
  /-- The instance at the root. -/
  root : σ → Option ι
  /-- The top nodes that an instance rendered. -/
  nodes : σ → ι → List ν
  /-- The instance that a node holds. -/
  nested : σ → ν → Option ι
  /-- The children of a plain node. -/
  children : σ → ν → List ν
  /-- What is known about the type of an instance. -/
  describe : σ → ι → Descriptor
  /-- The names in the registry of an instance, if it has one. -/
  registered : σ → ι → Option (List String)
  /-- Puts a definition under a name into the registry of an instance. -/
  rebind : ι → String → δ → σ → Except HostFault Unit × σ
  /-- Renders an instance through its public entry point. -/
  forceUpdate : ι → σ → Except HostFault Unit × σ
  /-- Renders an instance through its internal entry point. -/
  internalUpdate : ι → σ → Except HostFault Unit × σ
  /-- Loads the module of a URL. -/
  load : String → σ → Except HostFault δ × σ

/-- A call of the host with its answer. -/
inductive Call (ι δ : Type) where
  | load (url : String) (answer : Except HostFault δ)
  | rebind (handle : ι) (name : String) (definition : δ) (answer : Except HostFault Unit)
  | force (handle : ι) (answer : Except HostFault Unit)
  | internal (handle : ι) (answer : Except HostFault Unit)

end Component
end HotReload
