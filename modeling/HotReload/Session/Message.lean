import HotReload.Json.Fields
import HotReload.Json.Printer
import HotReload.Reconcile.Outcome

/-!
# Messages to the transport

What the page is told: to reload, that a component has been patched in, or that a module could not
be transformed.  On the wire a message is a JSON object whose member `type` names its form; an array
that holds the form and then every field in order is read as well.
-/

namespace HotReload

/-- A message to the transport. -/
inductive Message where
  /-- The page has to be reloaded. -/
  | reload (reason : Option String)
  /-- A component is new in the parents of the given names. -/
  | patched (component : String) (parents : List String)
  /-- The module of a path could not be transformed. -/
  | failed (path error : String)
  deriving DecidableEq, Repr

namespace Message

/-- The message for an outcome. -/
def ofOutcome : Reconcile.Outcome → Message
  | .escalate reason => .reload (some reason.message)
  | .patched report => .patched report.component report.renderedNames

/-- The JSON value of a message. -/
def value : Message → Json.Value
  | .reload none => .object [("type", .string "reload")]
  | .reload (some reason) => .object [("type", .string "reload"), ("reason", .string reason)]
  | .patched component parents =>
    .object [("type", .string "patched"), ("component", .string component),
      ("parents", .array (parents.map .string))]
  | .failed path error =>
    .object [("type", .string "error"), ("path", .string path), ("error", .string error)]

/-- A message as it is sent. -/
def render (m : Message) : String := m.value.text

/-- The fields of the form of a name. -/
def fieldNames? : String → Option (List String)
  | "reload" => some ["reason"]
  | "patched" => some ["component", "parents"]
  | "error" => some ["path", "error"]
  | _ => none

/-- The reason for a reload; `null` is none. -/
def reason? : Json.Raw → Option (Option String)
  | .null => some none
  | v => v.text?.map some

/-- The message of a form with the given field values, in order. -/
def ofFields? : String → List Json.Raw → Option Message
  | "reload", [reason] => (reason? reason).map .reload
  | "patched", [component, parents] =>
    match component.text?, parents.texts? with
    | some component, some parents => some (.patched component parents)
    | _, _ => none
  | "error", [path, error] =>
    match path.text?, error.text? with
    | some path, some error => some (.failed path error)
    | _, _ => none
  | _, _ => none

/-- The value of a field; a reason may be missing. -/
def field? (members : List (String × Json.Raw)) (name : String) : Option Json.Raw :=
  match members.lookup name with
  | some v => some v
  | none => if name = "reason" then some .null else none

/-- The message with the given members. -/
def ofMembers? (members : List (List Char × Json.Raw)) : Option Message :=
  match Json.fields? ["type"] members with
  | none => none
  | some named =>
    match (named.lookup "type").bind Json.Raw.text? with
    | none => none
    | some form =>
      match fieldNames? form with
      | none => none
      | some names =>
        if Json.onceEach names named then (names.mapM (field? named)).bind (ofFields? form)
        else none

/-- The message that a document writes. -/
def ofRaw? : Json.Raw → Option Message
  | .array (form :: fields) => form.text?.bind (ofFields? · fields)
  | .object members => ofMembers? members
  | _ => none

/-- The message that a text writes.  The whole document has to be readable as a value, unknown
members included. -/
def parse? (s : String) : Option Message :=
  match Json.Raw.parse? s with
  | some r => if r.bounded?.isSome then ofRaw? r else none
  | none => none

end Message
end HotReload
