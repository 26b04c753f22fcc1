import HotReload.Settings.Sections
import HotReload.Toml.Reader

/-!
# Settings from TOML

A document may set any field of the sections `classify`, `cache`, `transform` and `log`.  A section
is a table with named fields, or an array of the first fields in order; a date or time counts as a
table whose only field is unknown.  What is not set keeps its
default, an unknown field is reported and ignored, and a value of the wrong type is an error.
-/

namespace HotReload
namespace Settings

/-- A text. -/
def text? : Toml.Value → Option String
  | .string s => some s
  | _ => none

/-- A truth value. -/
def boolean? : Toml.Value → Option Bool
  | .boolean b => some b
  | _ => none

/-- A number that is not negative. -/
def natural? : Toml.Value → Option Nat
  | .integer n => if 0 ≤ n then some n.toNat else none
  | _ => none

/-- A float, or an integer as one. -/
def ratio? : Toml.Value → Option Float
  | .decimal x => some x
  | .integer n => some (Float.ofInt n)
  | _ => none

/-- A list of texts. -/
def texts? : Toml.Value → Option (List String)
  | .array items => items.mapM text?
  | _ => none

/-- Nothing: an array or a table without entries. -/
def isNothing : Toml.Value → Bool
  | .array items => items.isEmpty
  | .table entries => entries.isEmpty
  | _ => false

/-- A mode of minification: its name, or a table that holds nothing under the name. -/
def mode? : Toml.Value → Option MinifyMode
  | .string s => MinifyMode.ofName? s
  | .table [(name, v)] => if isNothing v then MinifyMode.ofName? name else none
  | _ => none

/-- A field of a section: its name, and how a value sets it. -/
abbrev Field (σ : Type) := String × (Toml.Value → σ → Option σ)

/-- The fields of the section `classify`. -/
def classifyFields : List (Field ClassifySettings) := [
  ("component_marker", fun v s => (text? v).map fun x => { s with componentMarker := x }),
  ("app_marker", fun v s => (text? v).map fun x => { s with appMarker := x }),
  ("mount_marker", fun v s => (text? v).map fun x => { s with mountMarker := x }),
  ("resolve_call", fun v s => (text? v).map fun x => { s with resolveCall := x }),
  ("component_extensions", fun v s =>
    (texts? v).map fun x => { s with componentExtensions := x }),
  ("core_ratio", fun v s => (ratio? v).map fun x => { s with coreRatio := x })]

/-- The fields of the section `cache`. -/
def cacheFields : List (Field CacheSettings) := [
  ("capacity", fun v s => (natural? v).map fun x => { s with capacity := x }),
  ("ttl_secs", fun v s => (natural? v).map fun x => { s with lifetimeSeconds := x }),
  ("env", fun v s => (texts? v).map fun x => { s with allowed := x }),
  ("manifest", fun v s => (text? v).map fun x => { s with manifest := x })]

/-- The fields of the section `transform`. -/
def transformFields : List (Field TransformSettings) := [
  ("minify", fun v s => (boolean? v).map fun x => { s with minify := x }),
  ("minify_mode", fun v s => (mode? v).map fun x => { s with minifyMode := x }),
  ("placeholder_param", fun v s =>
    (text? v).map fun x => { s with placeholderParameter := x })]

/-- The fields of the section `log`, of which the section's value is the flag itself. -/
def logFields : List (Field Bool) := [("verbose", fun v _ => boolean? v)]

/-- What has been read, and the unknown fields in their order. -/
abbrev Reading (σ : Type) := σ × List String

/-- A section after its named entries. -/
def readEntries {σ : Type} (fields : List (Field σ)) (section' : String) (r : Reading σ) :
    List (String × Toml.Value) → Option (Reading σ)
  | [] => some r
  | (key, v) :: rest =>
    match fields.lookup key with
    | some set => (set v r.1).bind fun s => readEntries fields section' (s, r.2) rest
    | none => readEntries fields section' (r.1, r.2 ++ [section' ++ "." ++ key]) rest

/-- A section after items for its first fields. -/
def readItems {σ : Type} : List (Field σ) → List Toml.Value → σ → Option σ
  | (_, set) :: fields, v :: rest, s => (set v s).bind (readItems fields rest)
  | _, _, s => some s

/-- The name of the only field of a date or time, seen as a table. -/
def momentField : String := "$__toml_private_datetime"

/-- The section that a value sets, starting from its defaults. -/
def readSection {σ : Type} (fields : List (Field σ)) (section' : String) (defaults : σ) :
    Toml.Value → Option (Reading σ)
  | .table entries => readEntries fields section' (defaults, []) entries
  | .array items => (readItems fields items defaults).map fun s => (s, [])
  | .moment lexeme => readEntries fields section' (defaults, []) [(momentField, .string lexeme)]
  | _ => none

/-- The settings after one entry of a document. -/
def readEntry (r : Reading Settings) (key : String) (v : Toml.Value) : Option (Reading Settings) :=
  let (s, unknown) := r
  match key with
  | "classify" => (readSection classifyFields key {} v).map fun (x, more) =>
    ({ s with classify := x }, unknown ++ more)
  | "cache" => (readSection cacheFields key {} v).map fun (x, more) =>
    ({ s with cache := x }, unknown ++ more)
  | "transform" => (readSection transformFields key {} v).map fun (x, more) =>
    ({ s with transform := x }, unknown ++ more)
  | "log" => (readSection logFields key false v).map fun (x, more) =>
    ({ s with verbose := x }, unknown ++ more)
  | _ => some (s, unknown ++ [key])

/-- The settings after all entries of a document. -/
def readDocument (r : Reading Settings) : List (String × Toml.Value) → Option (Reading Settings)
  | [] => some r
  | (key, v) :: rest => (readEntry r key v).bind fun r => readDocument r rest

/-- The settings that a text writes, and its unknown fields. -/
def read? (s : String) : Option (Reading Settings) :=
  (Toml.parse? s).bind (readDocument ({}, []))

/-- The settings that a text writes. -/
def parse? (s : String) : Option Settings := (read? s).map Prod.fst

end Settings
end HotReload
