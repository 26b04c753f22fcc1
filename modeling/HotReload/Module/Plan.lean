import HotReload.Module.Record
import HotReload.Module.Resolution
import HotReload.Module.Rendering

/-!
# Transform plans

A plan splits a module into imports that stay, groups of imports that can be rebound while the
program runs, and the rest.  Every binding of every import declaration goes to exactly one side.

The plan is drafted statement by statement.  An edit says what becomes of an import declaration by
two places: that of its part that stays among the imports that stay, and that of a group among the
groups.  Only the first declaration with rebindable bindings of a source has the second one; the
group takes its place, and later declarations of the source only add to the group.
-/

namespace HotReload

/-- The rebindable bindings of one source, each local name once. -/
structure ImportGroup where
  source : String
  bindings : List Binding
  deriving DecidableEq, Repr

namespace ImportGroup

/-- Whether the group binds a local name. -/
def binds (g : ImportGroup) (name : String) : Bool := g.bindings.any (·.localName == name)

/-- The local names of the group. -/
def localNames (g : ImportGroup) : List String := g.bindings.map Binding.localName

/-- The group with one more binding, unless its local name is bound already. -/
def push (g : ImportGroup) (b : Binding) : ImportGroup :=
  if g.binds b.localName then g else { g with bindings := g.bindings ++ [b] }

end ImportGroup

/-- What becomes of an import declaration. -/
structure ImportEdit where
  start : Nat
  stop : Nat
  /-- The place of its part that stays among the imports that stay. -/
  fixed : Option Nat
  /-- The place of the group that it opens among the groups. -/
  opened : Option Nat
  deriving DecidableEq, Repr

/-- A module split into what stays and what can be rebound. -/
structure Plan where
  flags : Module.Flags
  source : String
  /-- The texts of the imports that stay, in the order of the declarations. -/
  passthrough : List String
  groups : List ImportGroup
  /-- The text of the statements that are neither imports nor exports, one below the other. -/
  body : String
  exports : List String
  edits : List ImportEdit

namespace Plan

/-- All rebindable local names, group by group. -/
def names (p : Plan) : List String := p.groups.flatMap ImportGroup.localNames

/-- The group of a source. -/
def group? (p : Plan) (source : String) : Option ImportGroup :=
  p.groups.find? (·.source == source)

/-- What decides whether a binding can be rebound. -/
structure Policy where
  flags : Module.Flags
  hasExports : Bool
  /-- Names that are looked up when the framework renders. -/
  resolved : List String
  settings : ClassifySettings

namespace Policy

/-- The policy for a module. -/
def of (m : Module) (settings : ClassifySettings) : Policy where
  flags := m.flags settings
  hasExports := m.hasExports
  resolved := Resolution.names m.source settings.resolveCall
  settings := settings

/-- Whether a source is a component file. -/
def isComponentFile (p : Policy) (source : String) : Bool :=
  (Specifier.extension? source.toList).any p.settings.isComponentExtension

/-- Whether a binding of a declaration can be rebound.  The source is inside the project and is
imported without attributes; the module does not force static imports; the name is not looked up by
a call.  A component rebinds its auxiliary modules only, never other components; another module
rebinds its imports if it exports something. -/
def isRebindable (p : Policy) (d : ImportDeclaration) (b : Binding) : Bool :=
  Specifier.kind d.source.toList == .internal && !d.attributed && !p.flags.forcesStatic &&
    !p.resolved.contains b.localName &&
    (if p.flags.component then !p.isComponentFile d.source else p.hasExports)

/-- The rebindable bindings of a declaration. -/
def rebindable (p : Policy) (d : ImportDeclaration) : List Binding :=
  d.bindings.filter (p.isRebindable d)

/-- The bindings of a declaration that stay. -/
def static (p : Policy) (d : ImportDeclaration) : List Binding :=
  d.bindings.filter (!p.isRebindable d ·)

end Policy

/-- Groups with bindings of a source added: to its group, or to a new one at the end.  Gives the
place of the new group, if there is one. -/
def addTo (source : String) (bindings : List Binding) (groups : List ImportGroup) :
    Option Nat × List ImportGroup :=
  match groups.findIdx? (·.source == source) with
  | some i => (none, groups.modify i (bindings.foldl ImportGroup.push))
  | none => (some groups.length, groups ++ [bindings.foldl ImportGroup.push ⟨source, []⟩])

/-- The text of a declaration's part that stays: the declaration itself if nothing of it can be
rebound, and none if all of it can. -/
def fixedText (policy : Policy) (text : String) (d : ImportDeclaration) : Option String :=
  match policy.rebindable d, policy.static d with
  | [], _ => some text
  | _ :: _, [] => none
  | _ :: _, static => some (renderImport d.source static)

/-- What has been planned of a module so far. -/
structure Draft where
  passthrough : List String := []
  groups : List ImportGroup := []
  others : List String := []
  exports : List String := []
  edits : List ImportEdit := []

namespace Draft

/-- The draft after an import declaration. -/
def addImport (policy : Policy) (draft : Draft) (s : Script.Statement) (text : String)
    (d : ImportDeclaration) : Draft :=
  let fixed := fixedText policy text d
  let rebindable := policy.rebindable d
  let (opened, groups) :=
    if rebindable.isEmpty then (none, draft.groups) else addTo d.source rebindable draft.groups
  { draft with
    passthrough := draft.passthrough ++ fixed.toList
    groups
    edits := draft.edits ++
      [⟨s.start, s.stop, fixed.map fun _ => draft.passthrough.length, opened⟩] }

/-- The draft after a statement with the given text. -/
def add (policy : Policy) (textOf : Script.Statement → String) (draft : Draft)
    (s : Script.Statement) : Draft :=
  match s.kind with
  | .importing d => draft.addImport policy s (textOf s) d
  | .exporting => { draft with exports := draft.exports ++ [textOf s] }
  | .other => { draft with others := draft.others ++ [textOf s] }

/-- The draft of a list of statements. -/
def of (policy : Policy) (textOf : Script.Statement → String)
    (statements : List Script.Statement) : Draft :=
  statements.foldl (add policy textOf) {}

end Draft

/-- The plan of a module. -/
def of (m : Module) (settings : ClassifySettings) : Plan :=
  let policy := Policy.of m settings
  let draft := Draft.of policy m.textOf m.statements
  { flags := policy.flags
    source := m.source
    passthrough := draft.passthrough
    groups := draft.groups
    body := String.intercalate "\n" draft.others
    exports := draft.exports
    edits := draft.edits }

/-- The text of the part of a declaration that stays. -/
def fixedBy (p : Plan) (e : ImportEdit) : Option String := e.fixed.bind (p.passthrough[·]?)

/-- The group that an edit opens. -/
def openedBy (p : Plan) (e : ImportEdit) : Option ImportGroup := e.opened.bind (p.groups[·]?)

end Plan
end HotReload
