import HotReload.Script.Pattern

/-!
# Classes and decorators

A class has a name, perhaps a parent, and elements: methods, accessors, fields, and blocks that run
once.  A constructor is an ordinary method, and no field or private name is called `constructor`.
-/

namespace HotReload
namespace Script

open Script.Parser

/-- Decorators, as many as there are; says whether there was one. -/
def decorators (r : Rules) (c : Context) : Parser Bool :=
  iterate (fun (found : Bool) => do
    if ← eat .decorator then
      discard (operand (← r.leftHandSide { c with decorator := true }))
      return .more true
    else return .done found) r.steps false

/-- Whether a token can be the key of a class element. -/
def startsKey (t : Token) : Bool :=
  match t.kind with
  | .word _ _ | .privateName _ | .text _ _ | .number => true
  | .mark .openBracket => true
  | _ => false

/-- Whether a word before this token is the key of a class element and no modifier of it. -/
def endsKey (t : Token) : Bool :=
  t.isMark .openParen || t.isMark .assign || t.isMark .semicolon || t.isMark .closeBrace ||
    t.kind == .finish

/-- A modifier word, if the token after it lets it be one. -/
def modifier (w : String) (before : Token → Bool) : Parser Bool := do
  if ← atWord w then
    match ← peekSecond with
    | some t =>
      if before t then
        advance
        return true
      else return false
    | none => return false
  else return false

/-- A modifier word in a place where it may or may not be expected. -/
def modifierIf (expected : Bool) (w : String) (before : Token → Bool) : Parser Bool :=
  if expected then modifier w before else return false

/-- The star of a generator in a place where it may or may not be expected. -/
def starIf (expected : Bool) : Parser Bool :=
  if expected then eat (.operator .times) else return false

/-- The key of a class element, with its name if it is written as one. -/
def classKey (r : Rules) (c : Context) : Parser (Option String) := do
  match (← peek).kind with
  | .word w _ =>
    advance
    return some w
  | .text v _ =>
    advance
    return some v
  | .number =>
    advance
    return none
  | .privateName n =>
    if n = "constructor" then fail .invalidClassMember
    else
      advance
      return none
  | .mark .openBracket =>
    computedKey r c
    return none
  | _ => unexpected

/-- An element of a class. -/
def classElement (r : Rules) (c : Context) : Parser Unit := do
  discard (decorators r c)
  let isStatic ← modifier "static" (!endsKey ·)
  if isStatic && (← atMark .openBrace) then
    block r { await := true }
  else
    let stored ← modifier "accessor" fun t => startsKey t && !t.afterLine
    let async ← modifierIf (!stored) "async" fun t => !endsKey t && !t.afterLine
    let generator ← starIf (!stored)
    let plain := !stored && !async && !generator
    let getter ← modifierIf plain "get" startsKey
    let setter ← modifierIf (plain && !getter) "set" startsKey
    let key ← classKey r c
    if isStatic && key == some "prototype" then fail .invalidClassMember
    else if ← atMark .openParen then
      let special := stored || async || generator || getter || setter
      if stored || (!isStatic && key == some "constructor" && special) then fail .invalidClassMember
      else
        let arity ← r.functionTail (Context.function async generator)
        if (getter || setter) && !accessorArity getter arity then fail .invalidParameters
        else return ()
    else if async || generator || getter || setter then unexpected
    else if key == some "constructor" then fail .invalidClassMember
    else
      discard (initializer r {})
      semicolon

/-- The name of a class, if it has one. -/
def className (c : Context) : Parser (Option String) := do
  let t ← peek
  if isBindable t && !t.isWord "implements" then return some (← bindingName c) else return none

/-- The parent of a class, if it has one. -/
def classParent (r : Rules) (c : Context) : Parser Unit := do
  if ← eatWord "extends" then discard (operand (← r.leftHandSide c))

/-- A class, read from its keyword on; gives its name. -/
def classFrom (r : Rules) (c : Context) : Parser (Option String) := do
  expectWord "class"
  let name ← className c
  classParent r c
  expect .openBrace
  iterate (fun (_ : Unit) => do
    if ← eat .closeBrace then return .done ()
    else if ← eat .semicolon then return .more ()
    else
      classElement r c
      return .more ()) r.steps ()
  return name

end Script
end HotReload
