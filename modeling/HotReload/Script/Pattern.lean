import HotReload.Script.Rules

/-!
# Binding patterns and functions

What stands on the left of a declaration: a name, or a pattern in brackets or braces.  A pattern
gives the names that it binds.  The parameters of functions are patterns with defaults.
-/

namespace HotReload
namespace Script

open Script.Parser

/-- A pattern with an optional default. -/
def bindingItem (r : Rules) (c : Context) : Parser (List String) := do
  let names ← r.binding c
  discard (initializer r c.inner)
  return names

/-- The elements of a pattern up to its closing bracket. -/
def arrayPattern (r : Rules) (c : Context) : Parser (List String) := do
  expect .openBracket
  iterate (fun (names : List String) => do
    if ← eat .closeBracket then return .done names
    else if ← eat .comma then return .more names
    else if ← eat .ellipsis then
      let more ← r.binding c
      expect .closeBracket
      return .done (names ++ more)
    else
      let more ← bindingItem r c
      separator .closeBracket
      return .more (names ++ more)) r.steps []

/-- A member of a pattern. -/
def patternMember (r : Rules) (c : Context) : Parser (List String) := do
  let t ← peek
  match t.kind with
  | .word w _ =>
    let second ← peekSecond
    if second.any (·.isMark .colon) then
      advance
      expect .colon
      bindingItem r c
    else if isNameIn c w then
      advance
      discard (initializer r c.inner)
      return [w]
    else fail .reservedWord
  | .text _ _ | .number =>
    advance
    expect .colon
    bindingItem r c
  | .mark .openBracket =>
    computedKey r c
    expect .colon
    bindingItem r c
  | _ => unexpected

/-- The members of a pattern up to its closing brace. -/
def objectPattern (r : Rules) (c : Context) : Parser (List String) := do
  expect .openBrace
  iterate (fun (names : List String) => do
    if ← eat .closeBrace then return .done names
    else if ← eat .ellipsis then
      let name ← bindingName c
      expect .closeBrace
      return .done (names ++ [name])
    else
      let more ← patternMember r c
      separator .closeBrace
      return .more (names ++ more)) r.steps []

/-- A name or a pattern, with the names it binds. -/
def bindingRule (r : Rules) (c : Context) : Parser (List String) := do
  let t ← peek
  if t.isMark .openBracket then arrayPattern r c
  else if t.isMark .openBrace then objectPattern r c
  else return [← bindingName c]

/-- The parameters of a function, in parentheses. -/
def parameters (r : Rules) (c : Context) : Parser Arity := do
  expect .openParen
  iterate (fun (n : Nat) => do
    if ← eat .closeParen then return .done ⟨n, false⟩
    else if ← eat .ellipsis then
      discard (r.binding c)
      expect .closeParen
      return .done ⟨n, true⟩
    else
      discard (bindingItem r c)
      separator .closeParen
      return .more (n + 1)) r.steps 0

/-- The parameters and the body of a function whose inside has the given context. -/
def functionTailRule (r : Rules) (c : Context) : Parser Arity := do
  let arity ← parameters r c
  block r c
  return arity

/-- The name of a function, which may be missing where none is needed. -/
def functionName (c : Context) (required : Bool) : Parser (Option String) := do
  if isBindable (← peek) then return some (← bindingName c)
  else if required then unexpected
  else return none

/-- A function, read from its keyword on.  The name of an expression may be missing and belongs to
the inside; that of a declaration is bound outside, and may be missing only if it is exported as the
default.  Gives the name and whether the function is a generator. -/
def functionFrom (r : Rules) (c : Context) (async expressionName nameRequired : Bool) :
    Parser (Option String × Bool) := do
  expectWord "function"
  let generator ← eat (.operator .times)
  let inside := Context.function async generator
  let name ← functionName (if expressionName then inside else c) nameRequired
  discard (r.functionTail inside)
  return (name, generator)

/-- The function of a getter has no parameter, that of a setter one. -/
def accessorArity (isGetter : Bool) (a : Arity) : Bool :=
  if isGetter then a.count = 0 && !a.rest else a.count = 1 && !a.rest

end Script
end HotReload
