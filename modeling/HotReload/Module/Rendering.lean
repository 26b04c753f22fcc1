import HotReload.Json.Printer
import HotReload.Module.Binding
import HotReload.Text.Bytes

/-!
# Rendered imports

Import declarations as text.  One declaration can hold a default binding and a list of named ones;
further defaults, and namespaces, take declarations of their own.  A name that is no ASCII
identifier is written as a string, and so is every source.
-/

namespace HotReload

/-- A character that may start an ASCII identifier. -/
def isAsciiStart (c : Char) : Bool := Text.isLetter c || c = '_' || c = '$'

/-- Whether a name is an identifier of ASCII characters. -/
def isAsciiIdentifier : List Char → Bool
  | [] => false
  | c :: cs => isAsciiStart c && cs.all fun d => isAsciiStart d || Text.isDigit d

/-- A name as the key of a property or of an import: bare if it is an identifier, else quoted. -/
def keyText (name : String) : String :=
  if isAsciiIdentifier name.toList then name else Json.quote name

/-- A named binding as an item of an import. -/
def importItemText (name localName : String) : String :=
  if name = localName then localName else keyText name ++ " as " ++ localName

/-- The items of the named bindings. -/
def namedItems (bindings : List Binding) : List String :=
  bindings.filterMap fun b =>
    match b.imported with
    | .named name => some (importItemText name b.localName)
    | _ => none

/-- The local names of the default bindings. -/
def defaultNames (bindings : List Binding) : List String :=
  bindings.filterMap fun b => if b.imported = .defaultExport then some b.localName else none

/-- The local names of the namespace bindings. -/
def namespaceNames (bindings : List Binding) : List String :=
  bindings.filterMap fun b => if b.imported = .namespaceObject then some b.localName else none

/-- A list in braces, with a blank inside of both. -/
def inBraces (items : List String) : String :=
  "\x7b " ++ String.intercalate ", " items ++ " \x7d"

/-- An import of a default, as a statement. -/
def defaultStatement (source name : String) : String :=
  "import " ++ name ++ " from " ++ Json.quote source ++ ";"

/-- An import of a namespace, as a statement. -/
def namespaceStatement (source name : String) : String :=
  "import * as " ++ name ++ " from " ++ Json.quote source ++ ";"

/-- An import of named bindings, perhaps with a default in front, as a statement. -/
def namedStatement (source : String) (first : Option String) (items : List String) : String :=
  "import " ++ (match first with
    | some name => name ++ ", "
    | none => "") ++ inBraces items ++ " from " ++ Json.quote source ++ ";"

/-- The statements that bind the given bindings from a source. -/
def importStatements (source : String) (bindings : List Binding) : List String :=
  let items := namedItems bindings
  let defaults := defaultNames bindings
  let namespaces := (namespaceNames bindings).map (namespaceStatement source)
  if items.isEmpty then defaults.map (defaultStatement source) ++ namespaces
  else
    namedStatement source defaults.head? items ::
      defaults.tail.map (defaultStatement source) ++ namespaces

/-- The text that binds the given bindings from a source. -/
def renderImport (source : String) (bindings : List Binding) : String :=
  String.intercalate "\n" (importStatements source bindings)

end HotReload
