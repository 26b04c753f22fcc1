import HotReload.Change.Url

/-!
# Change events

A change of one file, on its way to the component tree or past it.  A changed component is looked up
in the tree by its name; any other module is only loaded again.
-/

namespace HotReload
namespace Change

/-- Where a change goes. -/
inductive Route where
  /-- To the component tree. -/
  | component
  /-- Past the tree: the module is no component. -/
  | plain
  deriving DecidableEq, Repr

/-- The change of one file. -/
structure Event where
  /-- The name under which the tree shows the component. -/
  component : String
  path : String
  route : Route
  timestamp : UInt64
  deriving DecidableEq, Repr

namespace Event

/-- The change of a component. -/
def ofComponent (component path : String) (timestamp : UInt64) : Event :=
  ⟨component, path, .component, timestamp⟩

/-- The change of a module that is no component. -/
def ofPlain (path : String) (timestamp : UInt64) : Event := ⟨path, path, .plain, timestamp⟩

/-- The URL that loads the changed module anew. -/
def url (e : Event) : String := stampedUrl e.path e.timestamp

end Event
end Change
end HotReload
