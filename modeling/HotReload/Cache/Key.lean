import HotReload.Digest.Blake
import HotReload.Json.Canonical

/-!
# Cache keys

A compiled text is stored under five fields: the name of its file, and the digests of the file's
content, of the configuration, of the environment variables that matter, and of the dependency
manifest.  The rendered key joins the fields with bars.

File names are written with forward slashes and in percent-encoding, which escapes the bar, the
percent sign, control bytes and all bytes beyond ASCII, so a bar in a rendered key always separates
two fields.
-/

namespace HotReload
namespace Cache

/-- The character between the fields of a rendered key. -/
def bar : Char := '|'

/-- A name with a forward slash for every backslash. -/
def slashed (name : List Char) : List Char := Text.replaceAll ['\\'] ['/'] name

/-- Whether a byte of a name is escaped. -/
def isEscaped (b : UInt8) : Bool :=
  b.toNat < 0x20 || b.toNat ≥ 0x7F || b.toNat = '|'.toNat || b.toNat = '%'.toNat

/-- A byte of a name, or its escape: a percent sign and two upper-case hexadecimal digits. -/
def escapeByte (b : UInt8) : List Char :=
  if isEscaped b then ['%', Hex.upperDigit (b.toNat / 16), Hex.upperDigit (b.toNat % 16)]
  else [Char.ofNat b.toNat]

/-- A file name as it stands in a key. -/
def normalizeName (name : String) : String :=
  String.ofList ((Text.utf8 (String.ofList (slashed name.toList))).flatMap escapeByte)

/-- Why a configuration has no JSON text. -/
inductive EncodingFault where
  | keyNotText
  deriving DecidableEq, Repr

/-- The wording of an encoding fault. -/
def EncodingFault.message : EncodingFault → String
  | .keyNotText => "key must be a string"

/-- A configuration as a caller hands it over: its JSON value if it has one, and none if the caller
gives no configuration. -/
abbrev Configuration := Except EncodingFault (Option Json.Value)

/-- The value whose text is hashed for a configuration: none and `null` count as `{}`. -/
def effective : Option Json.Value → Json.Value
  | none => .object []
  | some .null => .object []
  | some v => v

/-- The text that is hashed for a configuration. -/
def configurationText (v : Option Json.Value) : String := (effective v).canonical.text

/-- The digest of a configuration. -/
def configurationDigest (v : Option Json.Value) : Digest := Digest.ofText (configurationText v)

/-- Eight bytes of a number, least significant first. -/
def littleEndian (n : Nat) : List UInt8 :=
  (List.range 8).map fun i => UInt8.ofNat (n / Nat.pow 256 i)

theorem length_littleEndian (n : Nat) : (littleEndian n).length = 8 := by
  simp [littleEndian]

/-- The bytes hashed for one variable: its name, whether it is set, the length and the bytes of its
value, and a closing byte. -/
def variableBytes (name : String) (value : Option String) : List UInt8 :=
  Text.utf8 name ++
    (match value with
      | some v => 1 :: littleEndian (Text.utf8 v).length ++ Text.utf8 v
      | none => [0]) ++ [0xFF]

/-- The bytes hashed for the listed variables, in the order of the list. -/
def environmentBytes (allowed : List String) (lookup : String → Option String) : List UInt8 :=
  allowed.flatMap fun name => variableBytes name (lookup name)

/-- The digest of the listed variables. -/
def environmentDigest (allowed : List String) (lookup : String → Option String) : Digest :=
  Digest.of (environmentBytes allowed lookup)

/-- The five fields under which a compiled text is stored. -/
structure Key where
  name : String
  content : Digest
  configuration : Digest
  environment : Digest
  dependencies : Digest
  deriving DecidableEq

namespace Key

/-- The key of a file with the given digests. -/
def of (name : String) (content configuration environment dependencies : Digest) : Key :=
  ⟨normalizeName name, content, configuration, environment, dependencies⟩

/-- The rendered fields, in order. -/
def fields (k : Key) : List (List Char) :=
  [k.name.toList, k.content.hex, k.configuration.hex, k.environment.hex, k.dependencies.hex]

/-- The rendered key. -/
def render (k : Key) : String := String.ofList (Text.join [bar] k.fields)

end Key
end Cache
end HotReload
