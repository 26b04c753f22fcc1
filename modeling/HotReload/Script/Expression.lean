import HotReload.Script.Class

/-!
# Expressions

The expressions of the grammar, from literals to assignments and arrow functions.

What stands in parentheses may turn out to be the parameters of an arrow function, and so may the
arguments of a call of `async`.  Both are read as expressions first; if an arrow follows on the same
line, their shapes must be those of parameters.
-/

namespace HotReload
namespace Script

open Script.Parser

/-- A template, tagged or not: stretches of text with expressions between them. -/
def template (r : Rules) (c : Context) (tagged : Bool) : Parser Unit :=
  iterate (fun (_ : Unit) => do
    match (← peek).kind with
    | .template last ok =>
      if !ok && !tagged then fail .badEscape
      else if last then
        advance
        return .done ()
      else
        advance
        discard (valueExpression r c.inner)
        if ← atMark .closeBrace then
          takeTemplate
          return .more ()
        else unexpected
    | _ => unexpected) r.steps ()

/-- The comma after an item, which is missing only after the last one; says whether it is there. -/
def itemEnd (close : Mark) : Parser Bool := do
  if ← eat .comma then return true
  else if ← atMark close then return false
  else unexpected

/-- An expression in a list, spread or not; the mark that closes the list is given. -/
def listItem (r : Rules) (c : Context) (close : Mark) : Parser (Slot × Shape) := do
  let spread ← eat .ellipsis
  let s ← r.assignment c.inner
  let comma ← itemEnd close
  return (if spread then .spread comma else .item, s)

/-- The elements of an array literal. -/
def arrayLiteral (r : Rules) (c : Context) : Parser Shape := do
  expect .openBracket
  let elements ← iterate (fun (elements : List (Slot × Shape)) => do
    if ← eat .closeBracket then return .done elements.reverse
    else if ← eat .comma then return .more ((.hole, .other) :: elements)
    else return .more ((← listItem r c .closeBracket) :: elements)) r.steps []
  return .array (elements.any (·.2.pending)) elements

/-- The arguments of a call, not yet known to be values. -/
def arguments (r : Rules) (c : Context) : Parser (List (Slot × Shape)) := do
  expect .openParen
  iterate (fun (items : List (Slot × Shape)) => do
    if ← eat .closeParen then return .done items.reverse
    else return .more ((← listItem r c .closeParen) :: items)) r.steps []

/-- The arguments of a call. -/
def valueArguments (r : Rules) (c : Context) : Parser Unit := do
  let items ← arguments r c
  if items.all (·.2.isOperand) then return () else fail .shorthandInitializer

/-- What follows a key that is no plain word: a method or a value. -/
def afterKey (r : Rules) (c : Context) : Parser (Role × Shape) := do
  if ← atMark .openParen then
    discard (r.functionTail (Context.function false false))
    return (.method, .other)
  else
    expect .colon
    return (.value, ← r.assignment c.inner)

/-- The key of a member, if it is no plain word. -/
def memberKey (r : Rules) (c : Context) : Parser Unit := do
  match (← peek).kind with
  | .word _ _ | .text _ _ | .number => advance
  | .mark .openBracket => computedKey r c
  | _ => unexpected

/-- A member that starts with a word, and whether it has an initializer. -/
def wordMember (r : Rules) (c : Context) (w : String) : Parser ((Role × Shape) × Bool) := do
  advance
  if (← atMark .openParen) || (← atMark .colon) then return (← afterKey r c, false)
  else if isNameIn c w then
    let initialized ← initializer r c.inner
    return ((.shorthand, .name w), initialized)
  else fail .reservedWord

/-- Whether a word before this token is a key and no modifier. -/
def endsMemberKey (t : Token) : Bool :=
  t.isMark .openParen || t.isMark .comma || t.isMark .colon || t.isMark .closeBrace ||
    t.isMark .assign || t.kind == .finish

/-- A member of an object literal, and whether it is a shorthand with an initializer. -/
def objectMember (r : Rules) (c : Context) : Parser ((Role × Shape) × Bool) := do
  let t ← peek
  if ← eat .ellipsis then
    let s ← r.assignment c.inner
    return ((.spread (← atMark .comma), s), false)
  else if ← eat (.operator .times) then
    memberKey r c
    discard (r.functionTail (Context.function false true))
    return ((.method, .other), false)
  else if ← modifier "async" fun t => !endsMemberKey t && !t.afterLine then
    let generator ← eat (.operator .times)
    memberKey r c
    discard (r.functionTail (Context.function true generator))
    return ((.method, .other), false)
  else
    let getter ← modifier "get" startsKey
    let setter ← modifierIf (!getter) "set" startsKey
    if getter || setter then
      memberKey r c
      let arity ← r.functionTail (Context.function false false)
      if accessorArity getter arity then return ((.method, .other), false)
      else fail .invalidParameters
    else
      match t.kind with
      | .word w _ => wordMember r c w
      | _ =>
        memberKey r c
        return (← afterKey r c, false)

/-- An object literal. -/
def objectLiteral (r : Rules) (c : Context) : Parser Shape := do
  expect .openBrace
  let (members, initialized) ←
    iterate (fun ((members, initialized) : List (Role × Shape) × Bool) => do
      if ← eat .closeBrace then return .done (members.reverse, initialized)
      else
        let (m, i) ← objectMember r c
        separator .closeBrace
        return .more (m :: members, initialized || i)) r.steps ([], false)
  return .object (initialized || members.any (·.2.pending)) members

/-- What stands in parentheses: an expression, or the parameters of an arrow function. -/
def parenthesized (r : Rules) (c : Context) : Parser Shape := do
  expect .openParen
  let (items, openEnd) ← iterate (fun ((items, _) : List (Slot × Shape) × Bool) => do
    if ← eat .closeParen then return .done (items.reverse, true)
    else if ← eat .ellipsis then
      discard (r.binding c.inner)
      expect .closeParen
      return .done (((.spread false, .name "") :: items).reverse, true)
    else
      let s ← r.assignment c.inner
      if ← eat .comma then return .more ((.item, s) :: items, true)
      else
        expect .closeParen
        return .done (((.item, s) :: items).reverse, false)) r.steps ([], false)
  let t ← peek
  if t.isMark .arrow && !t.afterLine then
    if Shape.areBindingElements items then return .parameters false else fail .invalidParameters
  else if openEnd then unexpected
  else
    match items with
    | [(_, s)] => return .parenthesized (← operand s)
    | _ => if items.all (·.2.isOperand) then return .other else fail .shorthandInitializer

/-- The name of a property after its dot. -/
def propertyName : Parser Unit := do
  match (← peek).kind with
  | .word _ _ | .privateName _ => advance
  | _ => unexpected

/-- The options of the loading of a module, if there are any. -/
def importOptions (r : Rules) (c : Context) : Parser Unit := do
  if ← eat .comma then
    if ← atMark .closeParen then return ()
    else
      discard (value r c.inner)
      discard (eat .comma)

/-- The arguments of the loading of a module: one, and perhaps its options. -/
def importArguments (r : Rules) (c : Context) : Parser Unit := do
  expect .openParen
  discard (value r c.inner)
  importOptions r c
  expect .closeParen

/-- The loading of a module, or the properties of the present one. -/
def importExpression (r : Rules) (c : Context) : Parser Shape := do
  expectWord "import"
  if ← eat .dot then
    if ← eatWord "meta" then return .other
    else if (← atWord "source") || (← atWord "defer") then
      advance
      importArguments r c
      return .importCall
    else unexpected
  else
    importArguments r c
    return .importCall

/-- The arguments of a constructor, if there are any. -/
def optionalArguments (r : Rules) (c : Context) : Parser Unit := do
  if ← atMark .openParen then valueArguments r c

/-- One more link of a constructor. -/
def constructorLink (r : Rules) (c : Context) (s : Shape) : Parser (Progress Shape Shape) := do
  match (← peek).kind with
  | .mark .dot =>
    advance
    propertyName
    return .more .member
  | .mark .questionDot => unexpected
  | .mark .openBracket =>
    if c.decorator then return .done s
    else
      advance
      discard (valueExpression r c.inner)
      expect .closeBracket
      return .more .member
  | .template _ _ =>
    template r c true
    return .more .other
  | _ => return .done s

/-- The construction of an object, whose constructor has properties but no calls. -/
def newExpression (r : Rules) (c : Context) : Parser Shape := do
  expectWord "new"
  if ← eat .dot then
    expectWord "target"
    return .other
  else
    let first ← operand (← r.primary c)
    let callee ← iterate (constructorLink r c) r.steps first
    match callee with
    | .importCall => unexpected
    | _ =>
      optionalArguments r c
      return .other

/-- A reference to the parent of a class, which is only called or has a property taken. -/
def superExpression : Parser Shape := do
  expectWord "super"
  if (← atMark .dot) || (← atMark .openParen) || (← atMark .openBracket) then return .other
  else unexpected

/-- A word as an expression. -/
def wordExpression (r : Rules) (c : Context) (w : String) : Parser Shape := do
  match w with
  | "this" | "null" | "true" | "false" =>
    advance
    return .other
  | "function" =>
    discard (functionFrom r c false true false)
    return .other
  | "class" =>
    discard (classFrom r c)
    return .other
  | "new" => newExpression r c
  | "super" => superExpression
  | "import" => importExpression r c
  | "async" =>
    let second ← peekSecond
    if second.any fun t => t.isWord "function" && !t.afterLine then
      advance
      discard (functionFrom r c true true false)
      return .other
    else return .name (← bindingName c)
  | _ => return .name (← bindingName c)

/-- Names, literals, and what stands in brackets of its own. -/
def primaryRule (r : Rules) (c : Context) : Parser Shape := do
  match (← peek).kind with
  | .word w false => wordExpression r c w
  | .word _ true => return .name (← bindingName c)
  | .number | .text _ _ =>
    advance
    return .other
  | .template _ _ =>
    template r c false
    return .other
  | .mark .openBracket => arrayLiteral r c
  | .mark .openBrace => objectLiteral r c
  | .mark .openParen => parenthesized r c
  | .mark (.operator .divide) | .mark (.assignWith .divide) =>
    takePattern
    advance
    return .other
  | .mark .decorator =>
    discard (decorators r c)
    discard (classFrom r c)
    return .other
  | _ => unexpected

/-- An expression to which properties, templates and arguments are being added. -/
structure Chain where
  shape : Shape
  /-- It is the name `async`, whose call may be the head of an arrow function. -/
  async : Bool
  /-- A link of it is optional. -/
  optional : Bool

/-- What follows the mark of an optional link. -/
def optionalLink (r : Rules) (c : Context) : Parser Unit := do
  match (← peek).kind with
  | .mark .openBracket =>
    advance
    discard (valueExpression r c.inner)
    expect .closeBracket
  | .mark .openParen => valueArguments r c
  | _ => propertyName

/-- One more link of a chain. -/
def chainLink (r : Rules) (c : Context) (s : Chain) : Parser (Progress Chain Shape) := do
  let t ← peek
  let next (shape : Shape) : Chain := ⟨shape, false, s.optional⟩
  match t.kind with
  | .mark .dot =>
    discard (operand s.shape)
    advance
    propertyName
    return .more (next .member)
  | .mark .questionDot =>
    discard (operand s.shape)
    advance
    optionalLink r c
    return .more ⟨.other, false, true⟩
  | .mark .openBracket =>
    if c.decorator then return .done (if s.optional then .other else s.shape)
    else
      discard (operand s.shape)
      advance
      discard (valueExpression r c.inner)
      expect .closeBracket
      return .more (next .member)
  | .template _ _ =>
    discard (operand s.shape)
    if s.optional then unexpected
    else
      template r c true
      return .more (next .other)
  | .mark .openParen =>
    discard (operand s.shape)
    let items ← arguments r c
    let u ← peek
    if s.async && !t.afterLine && u.isMark .arrow && !u.afterLine then
      if Shape.areBindingElements items then return .done (.parameters true)
      else fail .invalidParameters
    else if items.all (·.2.isOperand) then return .more (next .other)
    else fail .shorthandInitializer
  | _ => return .done (if s.optional then .other else s.shape)

/-- An expression with its properties, templates and arguments. -/
def leftHandSideRule (r : Rules) (c : Context) : Parser Shape := do
  let t ← peek
  let s ← primaryRule r c
  iterate (chainLink r c) r.steps ⟨s, t.isWord "async" && s.isName, false⟩

/-- Whether a token after `await` or `yield` shows that an operator was meant. -/
def followsOperatorWord (t : Token) : Bool :=
  match t.kind with
  | .word w _ => w != "in" && w != "instanceof"
  | .number | .text _ _ => true
  | _ => false

/-- An operand with its increments. -/
def updateExpression (r : Rules) (c : Context) : Parser Shape := do
  if (← atMark .increment) || (← atMark .decrement) then
    advance
    let s ← r.unary c
    if s.isSimpleTarget then return .other else fail .invalidTarget
  else
    let s ← leftHandSideRule r c
    let t ← peek
    if (t.isMark .increment || t.isMark .decrement) && !t.afterLine then
      if s.isSimpleTarget then
        advance
        return .other
      else fail .invalidTarget
    else return s

/-- A unary operator with its operand. -/
def prefixed (r : Rules) (c : Context) : Parser Shape := do
  advance
  discard (operand (← r.unary c))
  return .unary

/-- An operand with its unary operators. -/
def unaryRule (r : Rules) (c : Context) : Parser Shape := do
  let t ← peek
  match t.kind with
  | .mark .not | .mark .complement | .mark (.operator .plus) | .mark (.operator .minus) =>
    prefixed r c
  | .word "delete" false | .word "void" false | .word "typeof" false => prefixed r c
  | .word "await" false =>
    if c.await then prefixed r c
    else
      let second ← peekSecond
      if second.any fun u => followsOperatorWord u && !u.isWord "of" && !u.afterLine then unexpected
      else updateExpression r c
  | _ => updateExpression r c

/-- The operator between two operands that a token is. -/
def operatorOf (c : Context) (t : Token) : Option Operator :=
  match t.kind with
  | .mark (.operator op) => some op
  | .word "instanceof" false => some .instanceOf
  | .word "in" false => if c.inOperator then some .within else none
  | _ => none

/-- Whether an operator goes on with operands at a level: a power groups to the right, all others
to the left. -/
def continues (op : Operator) (level : Nat) : Bool :=
  if op = .power then level ≤ op.level else level < op.level

/-- The shape of two operands joined. -/
def joined (op : Operator) (left right : Shape) : Parser Shape := do
  match op with
  | .coalesce =>
    match left, right with
    | .logical, _ => fail .mixedCoalesce
    | _, .logical => fail .mixedCoalesce
    | _, _ => return .coalesce
  | .and | .or => return .logical
  | _ => return .other

/-- The first one of several operands: a private name is one only before the word `in`, and is read
together with what follows that word. -/
def firstOperand (r : Rules) (c : Context) (level : Nat) : Parser Shape := do
  match (← peek).kind with
  | .privateName _ =>
    if c.inOperator && level < Operator.within.level then
      advance
      expectWord "in"
      discard (operand (← r.operands c Operator.within.level))
      return .other
    else unexpected
  | _ => unaryRule r c

/-- Operands joined by operators that bind more tightly than a level. -/
def operandsRule (r : Rules) (c : Context) (level : Nat) : Parser Shape := do
  let first ← firstOperand r c level
  iterate (fun (left : Shape) => do
    match operatorOf c (← peek) with
    | some op =>
      if continues op level then
        discard (operand left)
        if op = .power && left matches .unary then fail .unaryBeforePower
        else
          advance
          let right ← operand (← r.operands c op.level)
          return .more (← joined op left right)
      else return .done left
    | none => return .done left) r.steps first

/-- The body of an arrow function, read from its arrow on. -/
def arrowBody (r : Rules) (c : Context) (async : Bool) : Parser Shape := do
  expect .arrow
  if ← atMark .openBrace then block r (Context.function async false)
  else discard (value r { c with await := async, yield := false, decorator := false })
  return .other

/-- Whether a `yield` before this token gives nothing. -/
def endsYield (t : Token) : Bool :=
  t.isMark .semicolon || t.kind == .finish || t.isMark .closeBrace || t.isMark .closeParen ||
    t.isMark .closeBracket || t.isMark .colon || t.isMark .comma || t.isWord "in"

/-- A `yield` with what it gives. -/
def yieldExpression (r : Rules) (c : Context) : Parser Shape := do
  advance
  if (← peek).afterLine then return .other
  else
    let delegates ← eat (.operator .times)
    if delegates || !endsYield (← peek) then
      discard (value r c)
      return .other
    else return .other

/-- What follows the first operands: an arrow, an assignment, a condition, or nothing. -/
def afterOperands (r : Rules) (c : Context) (left : Shape) : Parser Shape := do
  let t ← peek
  match left, t.kind with
  | .name _, .mark .arrow => if t.afterLine then unexpected else arrowBody r c false
  | .parameters async, _ => arrowBody r c async
  | _, .mark .assign =>
    if left.isTarget then
      advance
      discard (value r c)
      return .assignment true left
    else fail .invalidTarget
  | _, .mark (.assignWith _) =>
    if left.isSimpleTarget then
      advance
      discard (value r c)
      return .assignment false left
    else fail .invalidTarget
  | _, .mark .question =>
    discard (operand left)
    advance
    discard (value r { c with inOperator := true })
    expect .colon
    discard (value r c)
    return .other
  | _, _ => return left

/-- Whether an arrow function starts here with the word `async` and a single name. -/
def atAsyncArrow : Parser Bool := do
  if ← atWord "async" then
    match ← peekThird with
    | some (t, u) => return isBindable t && !t.afterLine && u.isMark .arrow && !u.afterLine
    | none => return false
  else return false

/-- An assignment expression. -/
def assignmentRule (r : Rules) (c : Context) : Parser Shape := do
  if ← atWord "yield" then
    if c.yield then yieldExpression r c
    else
      let second ← peekSecond
      if second.any fun t => followsOperatorWord t && !t.afterLine then unexpected
      else afterOperands r c (← operandsRule r c 0)
  else if ← atAsyncArrow then
    advance
    discard (bindingName { c with await := true })
    arrowBody r c true
  else afterOperands r c (← operandsRule r c 0)

end Script
end HotReload
