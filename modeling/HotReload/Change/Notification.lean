import HotReload.Change.Event
import HotReload.Json.Fields
import HotReload.Json.Printer
import HotReload.Module.Specifier

/-!
# Change notifications

What a file watcher sends: the name of a component, its path and extension, the type of the change,
and a time stamp.  On the wire it is a JSON object, or an array of the five values in order.  A
notification goes to the component tree if its extension, without leading dots, is listed.
-/

namespace HotReload
namespace Change

/-- A message from the file watcher. -/
structure Notification where
  component : String
  path : String
  extension : String
  /-- The type of the change. -/
  change : String
  timestamp : UInt64
  deriving DecidableEq, Repr

namespace Notification

/-- The names of the fields on the wire, in order. -/
def fieldNames : List String := ["component", "relativePath", "extension", "type", "timestamp"]

/-- The JSON value of a notification. -/
def value (n : Notification) : Json.Value :=
  .object [
    ("component", .string n.component),
    ("relativePath", .string n.path),
    ("extension", .string n.extension),
    ("type", .string n.change),
    ("timestamp", .number (.integer n.timestamp.toNat))]

/-- A notification as it is sent. -/
def render (n : Notification) : String := n.value.text

/-- The notification with the given field values. -/
def ofFields? : List Json.Raw → Option Notification
  | [component, path, extension, change, timestamp] =>
    match component.text?, path.text?, extension.text?, change.text?, timestamp.word? with
    | some component, some path, some extension, some change, some timestamp =>
      some ⟨component, path, extension, change, timestamp⟩
    | _, _, _, _, _ => none
  | _ => none

/-- The notification that a document writes. -/
def ofRaw? : Json.Raw → Option Notification
  | .array items => ofFields? items
  | .object members =>
    match Json.fields? fieldNames members with
    | some members => (fieldNames.mapM fun name => members.lookup name).bind ofFields?
    | none => none
  | _ => none

/-- The notification that a text writes. -/
def parse? (s : String) : Option Notification := (Json.Raw.parse? s).bind ofRaw?

/-- Where a notification goes: to the tree if its extension is exactly one of the listed ones. -/
def route (n : Notification) (extensions : List String) : Route :=
  let extension := String.ofList (Specifier.withoutDots n.extension.toList)
  if extensions.contains extension then .component else .plain

/-- The event of a notification. -/
def event (n : Notification) (extensions : List String) : Event :=
  ⟨n.component, n.path, n.route extensions, n.timestamp⟩

end Notification
end Change
end HotReload
