import HotReload.Script.Expression

/-!
# Imports, exports and variables

Import declarations give what they bind.  Exports give nothing, but the names that they export are
remembered, since no name may be exported twice.
-/

namespace HotReload
namespace Script

open Script.Parser

/-- A string literal. -/
def textLiteral : Parser String := do
  match (← peek).kind with
  | .text v _ =>
    advance
    return v
  | _ => unexpected

/-- A name of an export: any word, or a string without surrogates that stand alone; says which. -/
def exportedName : Parser (String × Bool) := do
  match (← peek).kind with
  | .word w _ =>
    advance
    return (w, false)
  | .text v alone =>
    if alone then fail .loneSurrogate
    else
      advance
      return (v, true)
  | _ => unexpected

/-- An attribute of an import. -/
def importAttribute (keys : List String) : Parser String := do
  match (← peek).kind with
  | .word key _ | .text key _ =>
    advance
    expect .colon
    discard textLiteral
    if keys.contains key then fail .duplicateAttribute else return key
  | _ => unexpected

/-- The attributes of an import, if there are any. -/
def importAttributes (r : Rules) : Parser Bool := do
  let t ← peek
  if t.isWord "with" || (t.isWord "assert" && !t.afterLine) then
    advance
    expect .openBrace
    iterate (fun (keys : List String) => do
      if ← eat .closeBrace then return .done true
      else
        let key ← importAttribute keys
        separator .closeBrace
        return .more (key :: keys)) r.steps []
  else return false

/-- An import of one export. -/
def importItem (c : Context) : Parser Binding := do
  let t ← peek
  match t.kind with
  | .text v alone =>
    if alone then fail .loneSurrogate
    else
      advance
      expectWord "as"
      return ⟨← bindingName c, .named v⟩
  | .word w _ =>
    let second ← peekSecond
    if second.any (·.isWord "as") then
      advance
      expectWord "as"
      return ⟨← bindingName c, .named w⟩
    else
      let name ← bindingName c
      return ⟨name, .named name⟩
  | _ => unexpected

/-- Imports in braces. -/
def importItems (r : Rules) (c : Context) : Parser (List Binding) := do
  expect .openBrace
  iterate (fun (items : List Binding) => do
    if ← eat .closeBrace then return .done items.reverse
    else
      let item ← importItem c
      separator .closeBrace
      return .more (item :: items)) r.steps []

/-- The import of a namespace. -/
def importNamespace (c : Context) : Parser Binding := do
  expect (.operator .times)
  expectWord "as"
  return ⟨← bindingName c, .namespaceObject⟩

/-- What an import binds, up to its source. -/
def importClause (r : Rules) (c : Context) : Parser (List Binding) := do
  let t ← peek
  if t.isMark .openBrace then importItems r c
  else if t.isMark (.operator .times) then return [← importNamespace c]
  else
    let first : Binding := ⟨← bindingName c, .defaultExport⟩
    if ← eat .comma then
      if ← atMark .openBrace then return first :: (← importItems r c)
      else return [first, ← importNamespace c]
    else return [first]

/-- The phase that an import asks for: the word `source` before a name, or `defer` before a
namespace. -/
def importPhase : Parser Phase := do
  let t ← peek
  if t.isWord "defer" then
    let second ← peekSecond
    if second.any (·.isMark (.operator .times)) then
      advance
      return .deferred
    else return .evaluation
  else if t.isWord "source" then
    match ← peekThird with
    | some (u, v) =>
      if isBindable u && (!u.isWord "from" || v.isWord "from") then
        advance
        return .source
      else return .evaluation
    | none => return .evaluation
  else return .evaluation

/-- An import declaration. -/
def importDeclaration (r : Rules) (c : Context) : Parser ImportDeclaration := do
  expectWord "import"
  match (← peek).kind with
  | .text source _ =>
    advance
    let attributed ← importAttributes r
    semicolon
    return { source, bindings := [], attributed }
  | _ =>
    let phase ← importPhase
    let bindings ← importClause r c
    if phase == .source && bindings.length != 1 then unexpected
    else
      expectWord "from"
      let source ← textLiteral
      let attributed ← importAttributes r
      semicolon
      return { source, bindings, phase, attributed }

/-- Variables declared together: the names they bind, and whether one lacks a needed initializer. -/
structure Variables where
  names : List String
  lacking : Bool

/-- Variables after their keyword.  A pattern and a constant need an initializer. -/
def variableList (r : Rules) (c : Context) (isConstant namesOnly : Bool) : Parser Variables :=
  iterate (fun (v : Variables) => do
    let t ← peek
    let isPattern := t.isMark .openBracket || t.isMark .openBrace
    if namesOnly && isPattern then unexpected
    else
      let names ← r.binding c
      let initialized ← initializer r c
      let lacking := v.lacking || ((isConstant || isPattern) && !initialized)
      let next : Variables := ⟨v.names ++ names, lacking⟩
      if ← eat .comma then return .more next else return .done next) r.steps ⟨[], false⟩

/-- A declaration of variables, read from its keyword on, that ends a statement. -/
def variableStatement (r : Rules) (c : Context) (isConstant namesOnly : Bool) :
    Parser (List String) := do
  advance
  let v ← variableList r c isConstant namesOnly
  semicolon
  if v.lacking then fail .missingInitializer else return v.names

/-- The name under which an item of an export is seen outside. -/
def outerName (name : String) : Parser String := do
  if ← eatWord "as" then return (← exportedName).1 else return name

/-- Exports in braces, with their local names and whether these are strings. -/
def exportItems (r : Rules) : Parser (List ((String × Bool) × String)) := do
  expect .openBrace
  iterate (fun (items : List ((String × Bool) × String)) => do
    if ← eat .closeBrace then return .done items.reverse
    else
      let loc ← exportedName
      let outer ← outerName loc.1
      separator .closeBrace
      return .more ((loc, outer) :: items)) r.steps []

/-- Words that cannot be exported as names of the module itself. -/
def isUnexportable (w : String) : Bool :=
  isReserved w || ["await", "yield", "implements", "interface", "package", "private", "protected",
    "public", "static"].contains w

/-- Adds several names to the exported ones. -/
def exportNames (names : List String) : Parser Unit := names.forM exportName

/-- The module that exports in braces are passed on from; without it, they are names of the module
itself. -/
def exportSource (r : Rules) (items : List ((String × Bool) × String)) : Parser Unit := do
  if ← eatWord "from" then
    discard textLiteral
    discard (importAttributes r)
  else if items.any fun ((name, isText), _) => isText || isUnexportable name then
    fail .reservedWord

/-- Exports in braces, of the module itself or passed on from another one. -/
def exportList (r : Rules) : Parser Unit := do
  let items ← exportItems r
  exportSource r items
  exportNames (items.map Prod.snd)
  semicolon

/-- The one name under which the exports of another module are passed on, if there is one. -/
def exportAlias : Parser Unit := do
  if ← eatWord "as" then exportName (← exportedName).1

/-- All exports of another module passed on, perhaps under one name. -/
def exportAll (r : Rules) : Parser Unit := do
  expect (.operator .times)
  exportAlias
  expectWord "from"
  discard textLiteral
  discard (importAttributes r)
  semicolon

/-- Whether the next token is `async` before a function on the same line. -/
def atAsyncFunction : Parser Bool := do
  if ← atWord "async" then
    let second ← peekSecond
    return second.any fun t => t.isWord "function" && !t.afterLine
  else return false

/-- The default export. -/
def exportDefault (r : Rules) (c : Context) (decorated : Bool) : Parser Unit := do
  expectWord "default"
  exportName "default"
  let inside ← decorators r c
  if inside && decorated then unexpected
  else if ← atWord "class" then discard (classFrom r c)
  else if inside || decorated then unexpected
  else if ← atWord "function" then discard (functionFrom r c false false false)
  else if ← atAsyncFunction then
    advance
    discard (functionFrom r c true false false)
  else
    discard (value r c)
    semicolon

/-- An export of a declaration. -/
def exportedDeclaration (r : Rules) (c : Context) (decorated : Bool) : Parser Unit := do
  let inside ← decorators r c
  let t ← peek
  if inside && decorated then unexpected
  else if t.isWord "class" then
    let name ← classFrom r c
    exportNames name.toList
  else if inside || decorated then unexpected
  else if t.isWord "var" || t.isWord "let" then
    exportNames (← variableStatement r c false false)
  else if t.isWord "const" then exportNames (← variableStatement r c true false)
  else if t.isWord "function" then
    let (name, _) ← functionFrom r c false false true
    exportNames name.toList
  else if ← atAsyncFunction then
    advance
    let (name, _) ← functionFrom r c true false true
    exportNames name.toList
  else unexpected

/-- An export declaration; `decorated` says that decorators stand before it. -/
def exportDeclaration (r : Rules) (c : Context) (decorated : Bool) : Parser Unit := do
  expectWord "export"
  let t ← peek
  if t.isWord "default" then exportDefault r c decorated
  else if t.isMark .openBrace && !decorated then exportList r
  else if t.isMark (.operator .times) && !decorated then exportAll r
  else exportedDeclaration r c decorated

end Script
end HotReload
