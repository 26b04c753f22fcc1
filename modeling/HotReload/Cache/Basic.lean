import HotReload.Cache.Key
import HotReload.Cache.Store
import HotReload.Files.Tree
import HotReload.Terminal.Note

/-!
# The compilation cache

A store together with what its keys are made of: the list of environment variables that matter, the
place where they are read, and the dependency manifest.  What cannot be read or encoded counts as a
miss and is not stored; it is never an error of the caller.
-/

namespace HotReload

/-- What a run can see besides its inputs: files, environment variables and the time. -/
structure Surroundings where
  files : Files := {}
  environment : List (String × String) := []
  now : Nat := 0
  deriving Inhabited

/-- The value of an environment variable. -/
def Surroundings.variable (w : Surroundings) (name : String) : Option String :=
  w.environment.lookup name

namespace Cache

/-- Where allowed environment variables are read from. -/
inductive VariableSource where
  /-- The environment of the run. -/
  | process
  /-- A fixed set of values. -/
  | fixed (values : List (String × String))
  deriving DecidableEq, Repr

/-- The value of a variable. -/
def VariableSource.lookup (w : Surroundings) : VariableSource → String → Option String
  | .process, name => w.variable name
  | .fixed values, name => values.lookup name

/-- Why a cache operation could not build its key. -/
inductive Fault where
  | configuration (fault : EncodingFault)
  | unreadable (path : String)
  deriving DecidableEq, Repr

/-- The wording of a fault. -/
def Fault.message : Fault → String
  | .configuration fault => "failed to serialize configuration: " ++ fault.message
  | .unreadable path => "failed to read `" ++ path ++ "`"

/-- Something that happened in the cache. -/
inductive Event where
  | expired (key : String)
  | evicted (key : String)
  | missed (fault : Fault)
  | notStored (fault : Fault)
  deriving DecidableEq, Repr

/-- The log note of an event. -/
def Event.note (e : Event) : Terminal.Note where
  topic := "cache"
  text := match e with
    | .expired key => "expired " ++ key
    | .evicted key => "evicted " ++ key
    | .missed fault => "treating as miss: " ++ fault.message
    | .notStored fault => "not storing: " ++ fault.message
  detail := true

end Cache

/-- A compilation cache. -/
structure Cache where
  limits : Cache.Limits := {}
  allowed : List String := []
  source : Cache.VariableSource := .process
  manifest : Option String := none
  store : Cache.Store := {}

namespace Cache

/-- The digest of a file, or the empty digest if it cannot be read. -/
def fileDigest (files : Files) (path : String) : Digest :=
  match files.read path with
  | .ok bytes => Digest.of bytes
  | .error _ => Digest.empty

/-- The key of a file with the given content and configuration. -/
def key (c : Cache) (w : Surroundings) (name : String) (content : List UInt8)
    (configuration : Configuration) : Except Fault Key :=
  match configuration with
  | .error fault => .error (.configuration fault)
  | .ok value =>
    let dependencies := match c.manifest with
      | some path => fileDigest w.files path
      | none => Digest.empty
    .ok (Key.of name (Digest.of content) (configurationDigest value)
      (environmentDigest c.allowed (c.source.lookup w)) dependencies)

/-- The text stored for a content in memory. -/
def get (c : Cache) (w : Surroundings) (name : String) (content : List UInt8)
    (configuration : Configuration) : Option String × Cache × List Event :=
  match c.key w name content configuration with
  | .error fault => (none, c, [.missed fault])
  | .ok key =>
    match c.store.lookup c.limits w.now key.render with
    | (.miss, store) => (none, { c with store }, [])
    | (.hit text, store) => (some text, { c with store }, [])
    | (.stale, store) => (none, { c with store }, [.expired key.render])

/-- Stores a text for a content in memory. -/
def set (c : Cache) (w : Surroundings) (name : String) (content : List UInt8)
    (configuration : Configuration) (text : String) : Cache × List Event :=
  match c.key w name content configuration with
  | .error fault => (c, [.notStored fault])
  | .ok key =>
    let (store, evicted) := c.store.insert c.limits w.now key text
    ({ c with store }, evicted.map .evicted)

/-- The text stored for the present content of a file. -/
def getFile (c : Cache) (w : Surroundings) (path : String) (configuration : Configuration) :
    Option String × Cache × List Event :=
  match w.files.read path with
  | .error _ => (none, c, [.missed (.unreadable path)])
  | .ok content => c.get w path content configuration

/-- Stores a text for the present content of a file. -/
def setFile (c : Cache) (w : Surroundings) (path : String) (configuration : Configuration)
    (text : String) : Cache × List Event :=
  match w.files.read path with
  | .error _ => (c, [.notStored (.unreadable path)])
  | .ok content => c.set w path content configuration text

/-- The cache without entries. -/
def clear (c : Cache) : Cache := { c with store := {} }

end Cache
end HotReload
