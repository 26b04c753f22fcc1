import HotReload.Decimal.Layout
import HotReload.Settings.Sections
import HotReload.Terminal.Style
import HotReload.Text.Blank

/-!
# Checking settings

Settings of the right types can still make no sense.  Every field that does not is reported, not
only the first one.
-/

namespace HotReload
namespace Settings

/-- A field that makes no sense. -/
structure Diagnostic where
  /-- The section and the name of the field, with a dot between them. -/
  field : String
  text : String
  /-- What would make sense. -/
  hint : Option String := none
  deriving DecidableEq, Repr

/-- Whether a text holds nothing but white space. -/
def isVoid (s : String) : Bool := s.toList.all Text.isWhiteSpace

/-- A marker must hold more than white space. -/
def checkMarker (field value : String) : List Diagnostic :=
  if isVoid value then [{ field, text := "marker must not be empty" }] else []

/-- The share of a core module lies above zero and goes up to one. -/
def checkRatio (x : Float) : List Diagnostic :=
  if x > 0 && x ≤ 1 then []
  else
    [{ field := "classify.core_ratio"
       text := "ratio " ++ String.ofList (Decimal.Layout.plain.text x) ++ " is out of range"
       hint := some "use a value in (0, 1]" }]

/-- An extension is written without a dot in front. -/
def isExtension (s : String) : Bool := !s.isEmpty && s.toList.head? != some '.'

/-- All extensions are written as such. -/
def checkExtensions (extensions : List String) : List Diagnostic :=
  if extensions.all isExtension then []
  else
    [{ field := "classify.component_extensions"
       text := "extensions must be non-empty and written without a leading dot"
       hint := some "write `vue`, not `.vue`" }]

/-- The names of variables make sense, and none stands twice after one of `seen`. -/
def checkVariables (seen : List String) : List String → List Diagnostic
  | [] => []
  | name :: rest =>
    if name.isEmpty || name.toList.contains '=' then
      { field := "cache.env"
        text := "`" ++ name ++ "` is not a valid environment variable name" } ::
        checkVariables seen rest
    else if seen.contains name then
      { field := "cache.env", text := "`" ++ name ++ "` listed twice" } ::
        checkVariables seen rest
    else checkVariables (name :: seen) rest

/-- The manifest has a path. -/
def checkManifest (path : String) : List Diagnostic :=
  if path.isEmpty then [{ field := "cache.manifest", text := "manifest path must not be empty" }]
  else []

/-- A character of a query parameter's name. -/
def isParameterChar (c : Char) : Bool := Text.isAlphanumeric c || c = '_' || c = '-'

/-- Whether a text can name a query parameter. -/
def isParameter (s : String) : Bool := !s.isEmpty && s.toList.all isParameterChar

/-- The query parameter has a name. -/
def checkParameter (name : String) : List Diagnostic :=
  if isParameter name then []
  else
    [{ field := "transform.placeholder_param"
       text := "`" ++ name ++ "` is not a usable query parameter name"
       hint := some "use ASCII letters, digits, `_` or `-`" }]

/-- Everything that makes no sense in the section `classify`. -/
def checkClassify (s : ClassifySettings) : List Diagnostic :=
  checkMarker "classify.component_marker" s.componentMarker ++
    checkMarker "classify.app_marker" s.appMarker ++
    checkMarker "classify.mount_marker" s.mountMarker ++
    checkMarker "classify.resolve_call" s.resolveCall ++
    checkRatio s.coreRatio ++ checkExtensions s.componentExtensions

/-- Everything that makes no sense in settings. -/
def diagnostics (s : Settings) : List Diagnostic :=
  checkClassify s.classify ++ checkVariables [] s.cache.allowed ++
    checkManifest s.cache.manifest ++ checkParameter s.transform.placeholderParameter

open Terminal in
/-- The text of one diagnostic. -/
def Diagnostic.chars (d : Diagnostic) : List Char :=
  dimmed ['['] ++ coloured .cyan d.field.toList ++ dimmed [']'] ++ '\n' ::
    coloured .red ['→'] ++ ' ' :: d.text.toList ++
    match d.hint with
    | some hint => "\n  ".toList ++ coloured .yellow "hint:".toList ++ ' ' :: hint.toList
    | none => []

open Terminal in
/-- The text of several diagnostics, with their number if there are at least two. -/
def diagnosticsText (ds : List Diagnostic) : String :=
  String.ofList <|
    bold (coloured .red "config validation failed:".toList) ++ "\n\n".toList ++
      Text.join "\n\n".toList (ds.map Diagnostic.chars) ++
      if ds.length > 1 then
        "\n\n".toList ++ dimmed "found".toList ++ ' ' ::
          bold (coloured .red (Text.decimal ds.length)) ++ ' ' :: dimmed "errors".toList
      else []

end Settings
end HotReload
