import HotReload.Files.Path

/-!
# File trees

The files that a run can see, as a value: a tree of directories and files, and the directory from
which relative paths are resolved.  Resolution walks a path component by component, so every
component before the last one has to be a directory, and `..` leaves a directory that exists.
-/

namespace HotReload

/-- A file with its bytes, or a directory with its entries. -/
inductive Entry where
  | file (bytes : List UInt8)
  | directory (entries : List (String × Entry))
  deriving Inhabited

/-- Why a path cannot be read. -/
inductive FileFault where
  | notFound
  | notDirectory
  | isDirectory
  | invalidText
  | nulInName
  deriving DecidableEq, Repr

namespace FileFault

/-- The system's wording. -/
def message : FileFault → String
  | .notFound => "No such file or directory (os error 2)"
  | .notDirectory => "Not a directory (os error 20)"
  | .isDirectory => "Is a directory (os error 21)"
  | .invalidText => "stream did not contain valid UTF-8"
  | .nulInName => "file name contained an unexpected NUL byte"

end FileFault

namespace Entry

/-- The entry at the end of a chain of names. -/
def find? : List String → Entry → Option Entry
  | [], e => some e
  | name :: names, .directory entries =>
    match entries.lookup name with
    | some e => find? names e
    | none => none
  | _ :: _, .file _ => none

/-- Entries with one replaced or, if it is new, added at the end. -/
def putIn (name : String) (e : Entry) : List (String × Entry) → List (String × Entry)
  | [] => [(name, e)]
  | (n, old) :: rest => if n = name then (n, e) :: rest else (n, old) :: putIn name e rest

/-- The tree with an entry at the end of a chain of names, directories created on the way. -/
def put (new : Entry) : List String → Entry → Entry
  | [], _ => new
  | name :: names, e =>
    let entries := match e with
      | .directory entries => entries
      | .file _ => []
    let old := (entries.lookup name).getD (.directory [])
    .directory (putIn name (put new names old) entries)

/-- The tree without the entry at the end of a chain of names. -/
def remove : List String → Entry → Entry
  | [], e => e
  | _, .file bytes => .file bytes
  | [name], .directory entries => .directory (entries.filter (·.1 ≠ name))
  | name :: names, .directory entries =>
    match entries.lookup name with
    | some e => .directory (putIn name (remove names e) entries)
    | none => .directory entries

end Entry

/-- A file tree and the chain of names that leads to the working directory. -/
structure Files where
  tree : Entry := .directory []
  cwd : List String := []
  deriving Inhabited

namespace Files

/-- The working directory as a path. -/
def workingDirectory (fs : Files) : String := Path.ofComponents fs.cwd

/-- The chain of names to which a path leads, innermost first, starting from `here`. -/
def walk (fs : Files) (here : List String) : List String → Except FileFault (List String)
  | [] => .ok here
  | step :: steps =>
    match fs.tree.find? here.reverse with
    | some (.directory entries) =>
      if step = "" || step = "." then walk fs here steps
      else if step = ".." then walk fs here.tail steps
      else if (entries.lookup step).isSome then walk fs (step :: here) steps
      else .error .notFound
    | some (.file _) => .error .notDirectory
    | none => .error .notFound

/-- The chain of names to which a path leads. -/
def resolve (fs : Files) (p : String) : Except FileFault (List String) :=
  if p.isEmpty then .error .notFound
  else if p.toList.contains '\x00' then .error .nulInName
  else
    let start := if Path.isAbsolute p then [] else fs.cwd.reverse
    (walk fs start (Path.steps p)).map List.reverse

/-- Whether a path leads somewhere. -/
def exists? (fs : Files) (p : String) : Bool := (fs.resolve p).toOption.isSome

/-- The bytes of a file. -/
def read (fs : Files) (p : String) : Except FileFault (List UInt8) :=
  match fs.resolve p with
  | .error fault => .error fault
  | .ok names =>
    match fs.tree.find? names with
    | some (.file bytes) => .ok bytes
    | some (.directory _) => .error .isDirectory
    | none => .error .notFound

/-- The text of a file. -/
def readText (fs : Files) (p : String) : Except FileFault String :=
  match fs.read p with
  | .error fault => .error fault
  | .ok bytes =>
    match Text.ofUtf8? bytes with
    | some s => .ok s
    | none => .error .invalidText

/-- The absolute path of what a path leads to; of a path that leads nowhere, the path taken from
the working directory. -/
def absolute (fs : Files) (p : String) : String :=
  match fs.resolve p with
  | .ok names => Path.ofComponents names
  | .error _ => if Path.isAbsolute p then p else Path.join fs.workingDirectory p

/-- The names of a path below the working directory. -/
def chain (fs : Files) (p : String) : List String :=
  let names := (Path.steps p).filter (fun s => s ≠ "" && s ≠ ".")
  if Path.isAbsolute p then names else fs.cwd ++ names

/-- The tree after writing an entry. -/
def write (fs : Files) (p : String) (e : Entry) : Files :=
  { fs with tree := Entry.put e (fs.chain p) fs.tree }

/-- The tree after removing an entry. -/
def delete (fs : Files) (p : String) : Files :=
  { fs with tree := Entry.remove (fs.chain p) fs.tree }

end Files
end HotReload
