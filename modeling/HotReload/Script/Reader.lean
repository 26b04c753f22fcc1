import HotReload.Script.Scanning

/-!
# Reading scripts token by token

A reader holds the next token of a script, the text after it, and what has been read: the tokens
with the places where a statement ended, and the names that the script exports.  A `Parser` is a
function on readers that may fail.
-/

namespace HotReload
namespace Script

/-- What has been read: a token, or the end of a statement that ends in a semicolon, written or
not. -/
inductive Piece where
  | token (t : Token)
  | statementEnd

/-- The state of reading. -/
structure Reader where
  /-- The next token. -/
  token : Token
  /-- The text from the start of the next token on. -/
  here : Cursor
  /-- The text after the next token. -/
  rest : Cursor
  /-- The byte after the last token read. -/
  last : Nat
  /-- What has been read, the latest first. -/
  pieces : List Piece
  /-- The names exported so far. -/
  exported : List String

/-- A length that no text reaches: places in a script are numbers of thirty-two bits. -/
def limit : Nat := 0x100000000

namespace Reader

/-- The token after the next one.  Only words make it matter: a stroke or a brace may have to be
scanned in another way first. -/
def second? (r : Reader) : Option Token :=
  if r.token.hasWord then
    match nextToken limit r.rest with
    | .ok (t, _) => some t
    | .error _ => none
  else none

/-- The two tokens after the next one, the first of which is a word like it. -/
def third? (r : Reader) : Option (Token × Token) :=
  if r.token.hasWord then
    match nextToken limit r.rest with
    | .ok (t, c) =>
      if t.hasWord then
        match nextToken limit c with
        | .ok (u, _) => some (t, u)
        | .error _ => none
      else none
    | .error _ => none
  else none

end Reader

/-- A step of reading that may fail. -/
abbrev Parser (α : Type) := StateT Reader (Except Fault) α

namespace Parser

/-- Failure at the next token. -/
def fail {α : Type} (cause : Cause) : Parser α := fun r => .error ⟨r.token.start, cause⟩

/-- The next token is not expected. -/
def unexpected {α : Type} : Parser α := fail .unexpectedToken

/-- The next token. -/
def peek : Parser Token := fun r => .ok (r.token, r)

/-- The byte after the last token read. -/
def lastStop : Parser Nat := fun r => .ok (r.last, r)

/-- The token after the next one, if there is one. -/
def peekSecond : Parser (Option Token) := fun r => .ok (r.second?, r)

/-- The two tokens after the next one, if there are. -/
def peekThird : Parser (Option (Token × Token)) := fun r => .ok (r.third?, r)

/-- Reads the next token, unless the text is over. -/
def advance : Parser Unit := fun r =>
  if r.token.kind = .finish then unexpected r
  else
    match skipTrivia .code false r.rest.offset r.rest.text with
    | .error fault => .error fault
    | .ok (line, here) =>
      match scanToken limit line here with
      | .error fault => .error fault
      | .ok (token, rest) =>
        let pieces := .token r.token :: r.pieces
        .ok ((), { r with token, here, rest, last := r.token.stop, pieces })

/-- Takes the stroke of the next token for the start of a regular expression. -/
def takePattern : Parser Unit := fun r =>
  if r.token.isStroke then
    match scanPattern limit r.here.skip with
    | .error fault => .error fault
    | .ok rest =>
      .ok ((), { r with token := .between .pattern r.token.afterLine r.here rest, rest })
  else unexpected r

/-- Takes the brace of the next token for the end of a substitution: the template goes on. -/
def takeTemplate : Parser Unit := fun r =>
  if r.token.isMark .closeBrace then
    match scanTemplate limit true r.here.skip with
    | .error fault => .error fault
    | .ok (last, ok, rest) =>
      .ok ((), { r with token := .between (.template last ok) r.token.afterLine r.here rest, rest })
  else unexpected r

/-- Marks the end of a statement. -/
def endStatement : Parser Unit := fun r =>
  .ok ((), { r with pieces := .statementEnd :: r.pieces })

/-- Adds a name to the exported ones. -/
def exportName (name : String) : Parser Unit := fun r =>
  if r.exported.contains name then .error ⟨r.last, .duplicateExport⟩
  else .ok ((), { r with exported := name :: r.exported })

/-- Whether the next token is a mark. -/
def atMark (m : Mark) : Parser Bool := return (← peek).isMark m

/-- Whether the next token is a keyword, written without escapes. -/
def atWord (w : String) : Parser Bool := return (← peek).isWord w

/-- Reads a mark if it is next; says whether it was. -/
def eat (m : Mark) : Parser Bool := do
  if ← atMark m then
    advance
    return true
  else return false

/-- Reads a keyword if it is next; says whether it was. -/
def eatWord (w : String) : Parser Bool := do
  if ← atWord w then
    advance
    return true
  else return false

/-- Reads a mark that has to be next. -/
def expect (m : Mark) : Parser Unit := do
  if ← atMark m then advance else unexpected

/-- Reads a keyword that has to be next. -/
def expectWord (w : String) : Parser Unit := do
  if ← atWord w then advance else unexpected

/-- Whether a semicolon may be left out before a token. -/
def mayEndBefore (t : Token) : Bool :=
  t.isMark .closeBrace || t.kind == .finish || t.afterLine

/-- Whether a statement may end here. -/
def atStatementEnd : Parser Bool := do
  let t ← peek
  return t.isMark .semicolon || mayEndBefore t

/-- The end of a statement: a semicolon, or a place where one is inserted. -/
def semicolon : Parser Unit := do
  let t ← peek
  if t.isMark .semicolon then
    endStatement
    advance
  else if mayEndBefore t then endStatement
  else fail .missingSemicolon

/-- What a step of a loop decides. -/
inductive Progress (σ α : Type) where
  | more (state : σ)
  | done (value : α)

/-- A loop of at most `n` steps. -/
def iterate {σ α : Type} (step : σ → Parser (Progress σ α)) : Nat → σ → Parser α
  | 0, _ => fail .nestedTooDeeply
  | n + 1, s => do
    match ← step s with
    | .more s => iterate step n s
    | .done a => return a

end Parser

/-- A reader at the start of a script. -/
def Reader.start (source : String) : Except Fault Reader :=
  let c := skipInterpreter (.ofText source)
  match skipTrivia .code false c.offset c.text with
  | .error fault => .error fault
  | .ok (line, here) =>
    match scanToken limit line here with
    | .error fault => .error fault
    | .ok (token, rest) => .ok ⟨token, here, rest, 0, [], []⟩

end Script
end HotReload
