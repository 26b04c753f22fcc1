import HotReload.Script.Reader
import HotReload.Script.Shape
import HotReload.Module.Binding

/-!
# The rules of the grammar that refer to one another

The grammar is written as functions that take the rules they refer back to as an argument (`Rules`);
the knot is tied once, in `Program`, where the length of the text bounds how often it is followed.
Here are also the small pieces that all rules share: contexts, names, and lists in brackets.
-/

namespace HotReload
namespace Script

/-- What is allowed around the text being read. -/
structure Context where
  /-- The word `in` is an operator. -/
  inOperator : Bool := true
  /-- The word `await` is an operator. -/
  await : Bool := false
  /-- The word `yield` is an operator. -/
  yield : Bool := false
  /-- A return is allowed. -/
  inFunction : Bool := false
  /-- The expression of a decorator, which has no properties in brackets. -/
  decorator : Bool := false
  deriving DecidableEq, Repr

namespace Context

/-- The context of a module. -/
def top : Context := { await := true }

/-- The context inside brackets. -/
def inner (c : Context) : Context := { c with inOperator := true, decorator := false }

/-- The context of a function. -/
def function (async generator : Bool) : Context :=
  { await := async, yield := generator, inFunction := true }

end Context

/-- Where a statement stands. -/
inductive Place where
  /-- In a list of statements. -/
  | list
  /-- Alone, as the body of another statement. -/
  | single
  deriving DecidableEq, Repr

/-- What kind of statement was read. -/
inductive StatementKind where
  | importing (declaration : ImportDeclaration)
  | exporting
  | other
  deriving DecidableEq, Repr

/-- The parameters of a function, counted. -/
structure Arity where
  count : Nat
  rest : Bool
  deriving DecidableEq, Repr

/-- The rules that others refer back to. -/
structure Rules where
  /-- A bound on the steps of a loop. -/
  steps : Nat
  assignment : Context → Parser Shape
  operands : Context → Nat → Parser Shape
  unary : Context → Parser Shape
  leftHandSide : Context → Parser Shape
  primary : Context → Parser Shape
  statement : Context → Place → Parser (Nat × StatementKind)
  binding : Context → Parser (List String)
  functionTail : Context → Parser Arity

open Script.Parser

/-- Words that are never names. -/
def isReserved (w : String) : Bool :=
  ["break", "case", "catch", "class", "const", "continue", "debugger", "default", "delete", "do",
    "else", "enum", "export", "extends", "false", "finally", "for", "function", "if", "import",
    "in", "instanceof", "new", "null", "return", "super", "switch", "this", "throw", "true", "try",
    "typeof", "var", "void", "while", "with"].contains w

/-- Whether a word can be a name: `await` and `yield` are none where they are operators. -/
def isNameIn (c : Context) (w : String) : Bool :=
  !isReserved w && !(c.await && w == "await") && !(c.yield && w == "yield")

/-- A name that may be bound or referred to. -/
def bindingName (c : Context) : Parser String := do
  match (← peek).kind with
  | .word w _ =>
    if isNameIn c w then
      advance
      return w
    else fail .reservedWord
  | _ => unexpected

/-- Whether a token is a word that could be bound somewhere. -/
def isBindable (t : Token) : Bool :=
  match t.kind with
  | .word w _ => !isReserved w
  | _ => false

/-- The comma after an item, which may be left out after the last one. -/
def separator (close : Mark) : Parser Unit := do
  if ← atMark close then return () else expect .comma

/-- An expression that is used as a value. -/
def operand (s : Shape) : Parser Shape :=
  if s.isOperand then return s else fail .shorthandInitializer

/-- An assignment expression used as a value. -/
def value (r : Rules) (c : Context) : Parser Shape := do operand (← r.assignment c)

/-- Expressions with commas between them; a single one keeps its shape. -/
def expression (r : Rules) (c : Context) : Parser Shape := do
  let first ← r.assignment c
  if ← atMark .comma then
    discard (operand first)
    iterate (fun (_ : Unit) => do
      if ← eat .comma then
        discard (value r c)
        return .more ()
      else return .done .other) r.steps ()
  else return first

/-- Expressions used as a value. -/
def valueExpression (r : Rules) (c : Context) : Parser Shape := do operand (← expression r c)

/-- A value in parentheses. -/
def parenthesizedValue (r : Rules) (c : Context) : Parser Unit := do
  expect .openParen
  discard (valueExpression r c.inner)
  expect .closeParen

/-- Statements up to a closing brace, which is read. -/
def statementsToBrace (r : Rules) (c : Context) : Parser Unit :=
  iterate (fun (_ : Unit) => do
    if ← eat .closeBrace then return .done ()
    else
      discard (r.statement c .list)
      return .more ()) r.steps ()

/-- Statements in braces. -/
def block (r : Rules) (c : Context) : Parser Unit := do
  expect .openBrace
  statementsToBrace r c

/-- An optional initializer. -/
def initializer (r : Rules) (c : Context) : Parser Bool := do
  if ← eat .assign then
    discard (value r c)
    return true
  else return false

/-- A property key in brackets. -/
def computedKey (r : Rules) (c : Context) : Parser Unit := do
  expect .openBracket
  discard (value r c.inner)
  expect .closeBracket

end Script
end HotReload
