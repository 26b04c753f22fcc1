/-!
# Component descriptors

What a framework tells about the type of a component: up to three names, and whether the component
is one of the wrappers that the framework treats specially.
-/

namespace HotReload
namespace Component

/-- The special role of a component. -/
inductive Wrapper where
  /-- No special role. -/
  | none
  /-- Animates its content. -/
  | transition
  /-- Keeps its content alive while it is not shown. -/
  | keepAlive
  /-- Waits for its content. -/
  | suspense
  deriving DecidableEq, Repr

namespace Wrapper

/-- The name of a wrapper. -/
def name? : Wrapper → Option String
  | .none => Option.none
  | .transition => some "Transition"
  | .keepAlive => some "KeepAlive"
  | .suspense => some "Suspense"

/-- Whether a wrapper is refreshed by rendering it, with nothing to load. -/
def rendersOnly : Wrapper → Bool
  | .transition => true
  | .suspense => true
  | _ => false

end Wrapper

/-- What is known about the type of a component. -/
structure Descriptor where
  declared : Option String := Option.none
  alternative : Option String := Option.none
  inferred : Option String := Option.none
  wrapper : Wrapper := .none
  deriving DecidableEq, Repr

/-- The name that stands for a component without any. -/
def anonymous : String := "Anonymous"

/-- The names of a component, the preferred one first. -/
def Descriptor.names (d : Descriptor) : List String :=
  [d.declared, d.alternative, d.inferred].filterMap (Option.filter (!·.isEmpty)) ++
    d.wrapper.name?.toList

/-- The name of a component: declared, alternative or inferred, whichever comes first and is not
empty, and else that of its wrapper. -/
def Descriptor.displayName (d : Descriptor) : String := d.names.head?.getD anonymous

end Component
end HotReload
