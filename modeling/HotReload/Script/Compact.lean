import HotReload.Script.Program
import HotReload.Text.Hex

/-!
# Compact scripts

The shortest spelling of a script that keeps its tokens: no comments, blanks only between tokens
that would run together, strings in the quotation marks that need the fewer escapes.  Semicolons
stand where statements end, written or not, except before a closing brace, and a comma before a
closing bracket goes.  A name that is given to itself, as in `a as a` and `a: a`, is written once.
-/

namespace HotReload
namespace Script
namespace Compact

/-- A character inside a string in the given quotation mark. -/
def escape (mark c : Char) : List Char :=
  if c = mark || c = '\\' then ['\\', c]
  else if c = '\n' then ['\\', 'n']
  else if c = '\r' then ['\\', 'r']
  else if c = '\x00' then "\\0".toList
  else if c.toNat = 0x2028 || c.toNat = 0x2029 then '\\' :: 'u' :: Hex.fixed 4 c.toNat
  else [c]

/-- The quotation mark for a string: the double one unless the single one needs fewer escapes. -/
def quotationMark (value : List Char) : Char :=
  if value.count '\'' < value.count '"' then '\'' else '"'

/-- A string literal of a value. -/
def quoted (value : List Char) : List Char :=
  let mark := quotationMark value
  mark :: value.flatMap (escape mark) ++ [mark]

/-- The zeros at the end of a list of digits. -/
def trailingZeros (digits : List Char) : Nat := (digits.reverse.takeWhile (· = '0')).length

/-- A decimal integer, its trailing zeros as an exponent if there are three or more. -/
def integer (digits : List Char) : List Char :=
  let zeros := trailingZeros digits
  if 3 ≤ zeros && zeros < digits.length then
    digits.take (digits.length - zeros) ++ 'e' :: Text.decimal zeros
  else digits

/-- A token in compact spelling. -/
def spelling (t : Token) : List Char :=
  match t.kind with
  | .word name _ => name.toList
  | .text value false => quoted value.toList
  | .number => if t.text.all Text.isDigit then integer t.text else t.text
  | _ => t.text

/-- Whether two neighbouring characters would be read as one token. -/
def runTogether (before after : Char) : Bool :=
  (isIdentifierPart before && isIdentifierPart after) ||
    (before = after && (before = '+' || before = '-'))

/-- Whether a piece is a given mark. -/
def isMark (m : Mark) : Piece → Bool
  | .token t => t.isMark m
  | .statementEnd => false

/-- Whether a piece is followed by an item of a list in braces. -/
def opensItem (p : Piece) : Bool := isMark .openBrace p || isMark .comma p

/-- Whether a list starts with the end of an item of a list in braces. -/
def endsItem : List Piece → Bool
  | p :: _ => isMark .comma p || isMark .closeBrace p
  | [] => false

/-- Whether an item gives a name to itself. -/
def isSelf (name separator given : Token) : Bool :=
  match name.kind, given.kind with
  | .word a _, .word b _ =>
    a == b && a != "__proto__" && (separator.isWord "as" || separator.isMark .colon)
  | _, _ => false

/-- Pieces of which every item that gives a name to itself is cut down to the name. -/
def withoutSelf (opened : Bool) : List Piece → List Piece
  | [] => []
  | .token a :: .token separator :: .token b :: rest =>
    if opened && isSelf a separator b && endsItem rest then .token a :: withoutSelf false rest
    else .token a :: withoutSelf (opensItem (.token a)) (.token separator :: .token b :: rest)
  | p :: rest => p :: withoutSelf (opensItem p) rest

/-- Whether a list starts with a closing mark. -/
def closes : List Piece → Bool
  | p :: _ => isMark .closeBrace p || isMark .closeBracket p || isMark .closeParen p
  | [] => false

/-- Whether a piece is the end of a statement. -/
def isEnd : Piece → Bool
  | .statementEnd => true
  | .token _ => false

/-- Pieces without the semicolons that are written at ends of statements. -/
def withoutWritten (ended : Bool) : List Piece → List Piece
  | [] => []
  | p :: rest =>
    if ended && isMark .semicolon p then withoutWritten false rest
    else p :: withoutWritten (isEnd p) rest

/-- The spellings of pieces, of which the one before is given. -/
def spellings (before : Piece) : List Piece → List (List Char)
  | [] => []
  | .statementEnd :: rest =>
    if rest.head?.any (isMark .closeBrace) then spellings .statementEnd rest
    else [';'] :: spellings .statementEnd rest
  | .token t :: rest =>
    let hole := isMark .comma before || isMark .openBracket before
    if t.isMark .comma && closes rest && !hole then spellings (.token t) rest
    else spelling t :: spellings (.token t) rest

/-- Texts one after another, with blanks where two would run together. -/
def glued : List (List Char) → List Char
  | [] => []
  | [t] => t
  | t :: u :: rest =>
    match t.getLast?, u.head? with
    | some a, some b =>
      if runTogether a b then t ++ ' ' :: glued (u :: rest) else t ++ glued (u :: rest)
    | _, _ => t ++ glued (u :: rest)

end Compact

/-- The compact text of a script. -/
def Program.compact (p : Program) : String :=
  let pieces := Compact.withoutSelf false (Compact.withoutWritten false p.pieces)
  String.ofList (Compact.glued (Compact.spellings .statementEnd pieces))

end Script
end HotReload
