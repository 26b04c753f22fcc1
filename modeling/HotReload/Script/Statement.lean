import HotReload.Script.Declaration

/-!
# Statements

Every statement gives its kind and the byte at which it starts.  That is the byte of its first
token, but for an export with decorators in front: it starts at the word `export`.

A statement that ends in a semicolon may leave it out before a brace, before the end of the text and
before a line end.
-/

namespace HotReload
namespace Script

open Script.Parser

/-- The body of another statement. -/
def body (r : Rules) (c : Context) : Parser Unit := discard (r.statement c .single)

/-- A condition with its branches. -/
def ifStatement (r : Rules) (c : Context) : Parser Unit := do
  advance
  parenthesizedValue r c
  body r c
  if ← eatWord "else" then body r c

/-- A loop with its condition at the end. -/
def doStatement (r : Rules) (c : Context) : Parser Unit := do
  advance
  body r c
  expectWord "while"
  parenthesizedValue r c
  endStatement
  discard (eat .semicolon)

/-- A statement that is led by a value in parentheses. -/
def ledStatement (r : Rules) (c : Context) : Parser Unit := do
  advance
  parenthesizedValue r c
  body r c

/-- A value that may be missing before a mark. -/
def optionalValue (r : Rules) (c : Context) (close : Mark) : Parser Unit := do
  if ← atMark close then return () else discard (valueExpression r c.inner)

/-- The rest of a loop over a counter, from its first semicolon on. -/
def countingLoop (r : Rules) (c : Context) : Parser Unit := do
  expect .semicolon
  optionalValue r c .semicolon
  expect .semicolon
  optionalValue r c .closeParen
  expect .closeParen
  body r c

/-- A collection that is gone through, from the word before it on. -/
def collection (r : Rules) (c : Context) (awaited : Bool) : Parser Unit := do
  if ← eatWord "in" then
    if awaited then unexpected else discard (valueExpression r c.inner)
  else
    expectWord "of"
    discard (value r c.inner)

/-- The rest of a loop over a collection, from the word between the two on. -/
def collectionLoop (r : Rules) (c : Context) (awaited : Bool) : Parser Unit := do
  collection r c awaited
  expect .closeParen
  body r c

/-- Whether the next token is the word between a variable and a collection. -/
def atCollection : Parser Bool := return (← atWord "in") || (← atWord "of")

/-- A loop that declares its variables. -/
def declaringLoop (r : Rules) (c : Context) (awaited isConstant namesOnly : Bool) :
    Parser Unit := do
  let v ← variableList r { c with inOperator := false } isConstant namesOnly
  if ← atCollection then collectionLoop r c awaited
  else if v.lacking then fail .missingInitializer
  else if awaited then unexpected
  else countingLoop r c

/-- A loop whose head starts with an expression. -/
def expressionLoop (r : Rules) (c : Context) (awaited : Bool) : Parser Unit := do
  let t ← peek
  let second ← peekSecond
  let beforeOf := second.any (·.isWord "of")
  let s ← expression r { c with inOperator := false }
  if ← atCollection then
    if !s.isTarget then fail .invalidTarget
    else if beforeOf && (t.isWord "let" || (t.isWord "async" && !awaited)) then unexpected
    else collectionLoop r c awaited
  else
    discard (operand s)
    if awaited then unexpected else countingLoop r c

/-- Whether a token after `using` shows that a declaration was meant. -/
def followsUsing (t : Token) : Bool := isBindable t && !t.afterLine

/-- A loop with a head in parentheses. -/
def forStatement (r : Rules) (c : Context) : Parser Unit := do
  advance
  let awaited ← eatWord "await"
  if awaited && !c.await then unexpected
  else
    expect .openParen
    let t ← peek
    let second ← peekSecond
    if t.isMark .semicolon then if awaited then unexpected else countingLoop r c
    else if t.isWord "var" then
      advance
      declaringLoop r c awaited false false
    else if t.isWord "const" then
      advance
      declaringLoop r c awaited true false
    else if t.isWord "let" && second.any startsVariable then
      advance
      declaringLoop r c awaited false false
    else if t.isWord "using" && second.any (fun u => followsUsing u && !u.isWord "of") then
      advance
      declaringLoop r c awaited true true
    else if t.isWord "await" && c.await && (← atAwaitUsing) then
      advance
      advance
      declaringLoop r c awaited true true
    else expressionLoop r c awaited
where
  /-- Whether a token after `let` shows that a declaration was meant. -/
  startsVariable (t : Token) : Bool :=
    match t.kind with
    | .mark .openBrace | .mark .openBracket => true
    | .word w _ => w != "in"
    | _ => false
  /-- Whether `await` is followed by `using` and a name on one line. -/
  atAwaitUsing : Parser Bool := do
    match ← peekThird with
    | some (t, u) => return t.isWord "using" && !t.afterLine && followsUsing u
    | none => return false

/-- What may follow a word on the same line. -/
def sameLine (p : Parser Unit) : Parser Unit := do
  if ← atStatementEnd then return () else p

/-- A jump, perhaps to a label on the same line. -/
def jumpStatement (c : Context) : Parser Unit := do
  advance
  sameLine (discard (bindingName c))
  semicolon

/-- A return, perhaps with a value on the same line. -/
def returnStatement (r : Rules) (c : Context) : Parser Unit := do
  if !c.inFunction then fail .returnOutsideFunction
  else
    advance
    sameLine (discard (valueExpression r c.inner))
    semicolon

/-- A throw with its value on the same line. -/
def throwStatement (r : Rules) (c : Context) : Parser Unit := do
  advance
  if (← peek).afterLine then fail .lineEndAfterThrow
  else
    discard (valueExpression r c.inner)
    semicolon

/-- The statements of a case, up to the next case or the closing brace. -/
def caseStatements (r : Rules) (c : Context) : Parser Unit :=
  iterate (fun (_ : Unit) => do
    if (← atMark .closeBrace) || (← atWord "case") || (← atWord "default") then return .done ()
    else
      discard (r.statement c .list)
      return .more ()) r.steps ()

/-- What leads a case. -/
def caseLabel (r : Rules) (c : Context) : Parser Unit := do
  if ← eatWord "default" then return ()
  else
    expectWord "case"
    discard (valueExpression r c.inner)

/-- A choice between cases. -/
def switchStatement (r : Rules) (c : Context) : Parser Unit := do
  advance
  parenthesizedValue r c
  expect .openBrace
  iterate (fun (_ : Unit) => do
    if ← eat .closeBrace then return .done ()
    else
      caseLabel r c
      expect .colon
      caseStatements r c
      return .more ()) r.steps ()

/-- What is bound to a failure, if anything is. -/
def caughtBinding (r : Rules) (c : Context) : Parser Unit := do
  if ← eat .openParen then
    discard (r.binding c)
    expect .closeParen

/-- The handler of a failure, if there is one; says whether there is. -/
def catchClause (r : Rules) (c : Context) : Parser Bool := do
  if ← eatWord "catch" then
    caughtBinding r c
    block r c
    return true
  else return false

/-- A block whose failures are caught, or after which something is done in any case. -/
def tryStatement (r : Rules) (c : Context) : Parser Unit := do
  advance
  block r c
  let caught ← catchClause r c
  if ← eatWord "finally" then block r c
  else if caught then return ()
  else unexpected

/-- An expression, or a label with its statement. -/
def expressionStatement (r : Rules) (c : Context) : Parser Unit := do
  let s ← valueExpression r c
  if s.isName && (← atMark .colon) then
    advance
    body r c
  else semicolon

/-- A declaration that is allowed in a list of statements only. -/
def listOnly (place : Place) (p : Parser Unit) : Parser Unit :=
  if place == .list then p else fail .declarationNotAllowed

/-- A statement that starts with the word `let`, which is a name before some tokens. -/
def letStatement (r : Rules) (c : Context) (place : Place) : Parser Unit := do
  let second ← peekSecond
  let isOperation (t : Token) : Bool :=
    match t.kind with
    | .mark .assign | .mark (.assignWith _) => true
    | .mark (.operator op) => op != .and && op != .or && op != .coalesce
    | .word w false => w == "in" || w == "instanceof"
    | _ => false
  if second.any isOperation then
    discard (value r c)
    semicolon
  else if second.any fun t => t.isMark .dot || t.isMark .openParen then
    discard (valueExpression r c)
    endStatement
  else if second.any (·.isMark .semicolon) ||
      (place == .single && !second.any (·.isMark .openBracket)) then
    discard (bindingName c)
    semicolon
  else listOnly place (discard (variableStatement r c false false))

/-- A function; a single statement is neither a generator nor asynchronous. -/
def functionStatement (r : Rules) (c : Context) (async : Bool) (place : Place) : Parser Unit := do
  let (_, generator) ← functionFrom r c async false true
  if place == .single && (async || generator) then fail .declarationNotAllowed

/-- A statement that starts with a keyword or a name. -/
def wordStatement (r : Rules) (c : Context) (place : Place) (w : String) : Parser Unit := do
  match w with
  | "if" => ifStatement r c
  | "do" => doStatement r c
  | "while" | "with" => ledStatement r c
  | "for" => forStatement r c
  | "break" | "continue" => jumpStatement c
  | "return" => returnStatement r c
  | "throw" => throwStatement r c
  | "switch" => switchStatement r c
  | "try" => tryStatement r c
  | "debugger" =>
    advance
    semicolon
  | "class" => listOnly place (discard (classFrom r c))
  | "function" => functionStatement r c false place
  | "var" => discard (variableStatement r c false false)
  | "const" => listOnly place (discard (variableStatement r c true false))
  | "let" => letStatement r c place
  | "async" =>
    if ← atAsyncFunction then
      advance
      functionStatement r c true place
    else expressionStatement r c
  | "using" =>
    if (← peekSecond).any followsUsing then
      listOnly place (discard (variableStatement r c true true))
    else expressionStatement r c
  | "await" =>
    if c.await && (← forStatement.atAwaitUsing) then
      advance
      listOnly place (discard (variableStatement r c true true))
    else expressionStatement r c
  | _ => expressionStatement r c

/-- A statement that decorators lead: a class, or the export of one.  Gives its start if that is not
the first decorator. -/
def decoratedStatement (r : Rules) (c : Context) (place : Place) :
    Parser (Option Nat × StatementKind) := do
  discard (decorators r c)
  let t ← peek
  if t.isWord "export" then
    exportDeclaration r c true
    return (some t.start, .exporting)
  else if t.isWord "class" then
    listOnly place (discard (classFrom r c))
    return (none, .other)
  else unexpected

/-- A statement: the byte at which it starts, and its kind. -/
def statementRule (r : Rules) (c : Context) (place : Place) : Parser (Nat × StatementKind) := do
  let t ← peek
  match t.kind with
  | .mark .openBrace =>
    block r c
    return (t.start, .other)
  | .mark .semicolon =>
    advance
    return (t.start, .other)
  | .mark .decorator =>
    let (start, kind) ← decoratedStatement r c place
    return (start.getD t.start, kind)
  | .word "import" false =>
    if (← peekSecond).any fun u => u.isMark .dot || u.isMark .openParen then
      expressionStatement r c
      return (t.start, .other)
    else return (t.start, .importing (← importDeclaration r c))
  | .word "export" false =>
    exportDeclaration r c false
    return (t.start, .exporting)
  | .word w false =>
    wordStatement r c place w
    return (t.start, .other)
  | _ =>
    expressionStatement r c
    return (t.start, .other)

end Script
end HotReload
