/-!
# Import declarations

What an import declaration brings in: the module it names, and the local names it binds.
-/

namespace HotReload

/-- What a local name is bound to. -/
inductive Imported where
  /-- The default export. -/
  | defaultExport
  /-- The namespace of the module. -/
  | namespaceObject
  /-- The export of a name. -/
  | named (name : String)
  deriving DecidableEq, Repr

/-- A local name and what it is bound to. -/
structure Binding where
  localName : String
  imported : Imported
  deriving DecidableEq, Repr

/-- The phase of loading that an import asks for. -/
inductive Phase where
  /-- The module is loaded and evaluated. -/
  | evaluation
  /-- The module is loaded, and evaluated on first use. -/
  | deferred
  /-- The source of the module is bound. -/
  | source
  deriving DecidableEq, Repr

/-- An import declaration. -/
structure ImportDeclaration where
  source : String
  bindings : List Binding
  phase : Phase := .evaluation
  /-- An attribute clause is present, though it may be empty. -/
  attributed : Bool := false
  deriving DecidableEq, Repr

end HotReload
