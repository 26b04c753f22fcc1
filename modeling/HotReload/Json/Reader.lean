import HotReload.Json.Value
import HotReload.Text.Bytes
import HotReload.Decimal.Reading

/-!
# Reading JSON

Reading goes in two steps.  The first checks the grammar and keeps strings and numbers as they are
written (`Raw`); the second gives them their meaning.  A document whose unknown parts are to be
skipped needs only the first step for those parts: a lone surrogate escape or a number out of range
in them does no harm.
-/

namespace HotReload
namespace Json

/-- A document whose strings and numbers still are as written, strings without their quotation
marks. -/
inductive Raw where
  | null
  | boolean (b : Bool)
  | number (lexeme : List Char)
  | string (lexeme : List Char)
  | array (items : List Raw)
  | object (members : List (List Char × Raw))
  deriving Inhabited

/-- The blanks between tokens. -/
def isBlank (c : Char) : Bool := c = ' ' || c = '\n' || c = '\t' || c = '\r'

/-- The text after leading blanks. -/
def skipBlanks (cs : List Char) : List Char := cs.dropWhile isBlank

/-- The inside of a string and what follows its closing mark, the characters read so far given in
reverse. -/
def scanString (read : List Char) : List Char → Option (List Char × List Char)
  | [] => none
  | '"' :: rest => some (read.reverse, rest)
  | '\\' :: 'u' :: a :: b :: c :: d :: rest =>
    if [a, b, c, d].all (Text.hexValue? · |>.isSome) then
      scanString (d :: c :: b :: a :: 'u' :: '\\' :: read) rest
    else none
  | '\\' :: e :: rest =>
    if "\"\\/bfnrt".toList.contains e then scanString (e :: '\\' :: read) rest else none
  | c :: rest => if c.toNat < 32 || c = '\\' then none else scanString (c :: read) rest

/-- The digits at the front of a text. -/
def scanDigits (cs : List Char) : List Char × List Char :=
  (cs.takeWhile Text.isDigit, cs.dropWhile Text.isDigit)

/-- An optional fraction. -/
def scanFraction : List Char → Option (List Char × List Char)
  | '.' :: cs =>
    match scanDigits cs with
    | ([], _) => none
    | (ds, rest) => some ('.' :: ds, rest)
  | cs => some ([], cs)

/-- An optional exponent. -/
def scanExponent : List Char → Option (List Char × List Char)
  | e :: cs =>
    if e = 'e' || e = 'E' then
      let (sign, cs) := match cs with
        | '+' :: r => (['+'], r)
        | '-' :: r => (['-'], r)
        | r => ([], r)
      match scanDigits cs with
      | ([], _) => none
      | (ds, rest) => some (e :: sign ++ ds, rest)
    else some ([], e :: cs)
  | [] => some ([], [])

/-- A number: a whole part without needless zeros, a fraction, an exponent. -/
def scanNumber (cs : List Char) : Option (List Char × List Char) :=
  let (sign, cs) := match cs with
    | '-' :: r => (['-'], r)
    | r => ([], r)
  let (whole, cs) := scanDigits cs
  if whole.isEmpty || (whole.length > 1 && whole.head? == some '0') then none
  else
    match scanFraction cs with
    | none => none
    | some (fraction, cs) =>
      match scanExponent cs with
      | none => none
      | some (exponent, cs) => some (sign ++ whole ++ fraction ++ exponent, cs)

mutual
/-- A value at the front of a text, blanks before it skipped. -/
def scanValue : Nat → List Char → Option (Raw × List Char)
  | 0, _ => none
  | n + 1, cs =>
    match skipBlanks cs with
    | 'n' :: 'u' :: 'l' :: 'l' :: rest => some (.null, rest)
    | 't' :: 'r' :: 'u' :: 'e' :: rest => some (.boolean true, rest)
    | 'f' :: 'a' :: 'l' :: 's' :: 'e' :: rest => some (.boolean false, rest)
    | '"' :: rest => (scanString [] rest).map fun (s, rest) => (.string s, rest)
    | '[' :: rest =>
      match skipBlanks rest with
      | ']' :: rest => some (.array [], rest)
      | rest => (scanItems n rest).map fun (items, rest) => (.array items, rest)
    | '\x7b' :: rest =>
      match skipBlanks rest with
      | '\x7d' :: rest => some (.object [], rest)
      | rest => (scanMembers n rest).map fun (members, rest) => (.object members, rest)
    | cs => (scanNumber cs).map fun (lexeme, rest) => (.number lexeme, rest)

/-- The items of an array up to its closing bracket. -/
def scanItems : Nat → List Char → Option (List Raw × List Char)
  | 0, _ => none
  | n + 1, cs =>
    match scanValue n cs with
    | none => none
    | some (v, rest) =>
      match skipBlanks rest with
      | ']' :: rest => some ([v], rest)
      | ',' :: rest => (scanItems n rest).map fun (vs, rest) => (v :: vs, rest)
      | _ => none

/-- The members of an object up to its closing brace. -/
def scanMembers : Nat → List Char → Option (List (List Char × Raw) × List Char)
  | 0, _ => none
  | n + 1, cs =>
    match skipBlanks cs with
    | '"' :: rest =>
      match scanString [] rest with
      | none => none
      | some (key, rest) =>
        match skipBlanks rest with
        | ':' :: rest =>
          match scanValue n rest with
          | none => none
          | some (v, rest) =>
            match skipBlanks rest with
            | '\x7d' :: rest => some ([(key, v)], rest)
            | ',' :: rest => (scanMembers n rest).map fun (ms, rest) => ((key, v) :: ms, rest)
            | _ => none
        | _ => none
    | _ => none
end

/-- A whole document.  Each step of the grammar reads a character, so the length bounds them. -/
def Raw.parse? (s : String) : Option Raw :=
  let cs := s.toList
  match scanValue (2 * cs.length + 2) cs with
  | some (v, rest) => if (skipBlanks rest).isEmpty then some v else none
  | none => none

/-- The number of four hexadecimal digits. -/
def hexNumber (ds : List Char) : Nat := Text.ofDigits 16 (ds.filterMap Text.hexValue?)

/-- A surrogate that opens a pair. -/
def isHigh (n : Nat) : Bool := 0xD800 ≤ n && n ≤ 0xDBFF

/-- A surrogate that closes a pair. -/
def isLow (n : Nat) : Bool := 0xDC00 ≤ n && n ≤ 0xDFFF

/-- The code point of a surrogate pair. -/
def pairPoint (high low : Nat) : Nat := 0x10000 + (high - 0xD800) * 0x400 + (low - 0xDC00)

/-- The character that a one-letter escape stands for. -/
def letterEscape (e : Char) : Char :=
  if e = 'b' then '\x08' else if e = 'f' then '\x0c' else if e = 'n' then '\n'
  else if e = 'r' then '\r' else if e = 't' then '\t' else e

/-- The characters that the inside of a string stands for; none if a surrogate stands alone. -/
def unescape : List Char → Option (List Char)
  | [] => some []
  | '\\' :: 'u' :: a :: b :: c :: d :: '\\' :: 'u' :: e :: f :: g :: h :: rest =>
    let n := hexNumber [a, b, c, d]
    let m := hexNumber [e, f, g, h]
    if isHigh n then
      if isLow m then (unescape rest).map (Char.ofNat (pairPoint n m) :: ·) else none
    else if isLow n then none
    else (unescape ('\\' :: 'u' :: e :: f :: g :: h :: rest)).map (Char.ofNat n :: ·)
  | '\\' :: 'u' :: a :: b :: c :: d :: rest =>
    let n := hexNumber [a, b, c, d]
    if isHigh n || isLow n then none else (unescape rest).map (Char.ofNat n :: ·)
  | '\\' :: e :: rest => (unescape rest).map (letterEscape e :: ·)
  | c :: rest => (unescape rest).map (c :: ·)
termination_by cs => cs.length

/-- The text that the inside of a string stands for. -/
def cook (lexeme : List Char) : Option String := (unescape lexeme).map String.ofList

/-- The digits of a text as numbers. -/
def digitsOf (cs : List Char) : List Nat := cs.map Text.digitValue

/-- The integer of at most 64 bits that a number is written as; `-0` is none. -/
def integer? (lexeme : List Char) : Option Int :=
  match lexeme with
  | '-' :: ds =>
    let n := Text.ofDigits 10 (digitsOf ds)
    if ds.all Text.isDigit && n ≠ 0 && n ≤ Nat.pow 2 63 then some (-n) else none
  | ds =>
    let n := Text.ofDigits 10 (digitsOf ds)
    if ds.all Text.isDigit && n < Nat.pow 2 64 then some n else none

/-- The float that a number is written as; none if it is out of range. -/
def decimal? (lexeme : List Char) : Option Float :=
  let (negative, cs) := match lexeme with
    | '-' :: r => (true, r)
    | r => (false, r)
  let (whole, cs) := scanDigits cs
  let (fraction, cs) := match cs with
    | '.' :: r => scanDigits r
    | r => ([], r)
  let exponent : Int := match cs with
    | _ :: '-' :: ds => -(Text.ofDigits 10 (digitsOf ds))
    | _ :: '+' :: ds => Text.ofDigits 10 (digitsOf ds)
    | _ :: ds => Text.ofDigits 10 (digitsOf ds)
    | [] => 0
  Decimal.read negative (digitsOf whole) (digitsOf fraction) exponent

/-- The number that a lexeme writes: an integer if it fits into 64 bits, else a float. -/
def number? (lexeme : List Char) : Option Number :=
  match integer? lexeme with
  | some n => some (.integer n)
  | none => (decimal? lexeme).map .decimal

namespace Raw

mutual
/-- The number of arrays and objects that lie in one another. -/
def nesting : Raw → Nat
  | .array items => nestingItems items + 1
  | .object members => nestingMembers members + 1
  | _ => 0

/-- The deepest nesting of the items. -/
def nestingItems : List Raw → Nat
  | [] => 0
  | v :: vs => max v.nesting (nestingItems vs)

/-- The deepest nesting of the members. -/
def nestingMembers : List (List Char × Raw) → Nat
  | [] => 0
  | (_, v) :: ms => max v.nesting (nestingMembers ms)
end

mutual
/-- The value of a document; of a key that stands twice the last value counts. -/
def value? : Raw → Option Value
  | .null => some .null
  | .boolean b => some (.boolean b)
  | .number lexeme => (number? lexeme).map .number
  | .string lexeme => (cook lexeme).map .string
  | .array items => (items? items).map .array
  | .object members => (members? [] members).map .object

/-- The values of items. -/
def items? : List Raw → Option (List Value)
  | [] => some []
  | v :: vs =>
    match v.value?, items? vs with
    | some w, some ws => some (w :: ws)
    | _, _ => none

/-- The members read so far and those of the list. -/
def members? (read : List (String × Value)) : List (List Char × Raw) →
    Option (List (String × Value))
  | [] => some read
  | (k, v) :: ms =>
    match cook k, v.value? with
    | some key, some w => members? (Value.put key w read) ms
    | _, _ => none
end

/-- The greatest nesting that is read into a value. -/
def nestingLimit : Nat := 127

/-- The value of a document that is not nested too deeply. -/
def bounded? (r : Raw) : Option Value :=
  if r.nesting ≤ nestingLimit then r.value? else none

end Raw

/-- The value that a text writes. -/
def Value.parse? (s : String) : Option Value := (Raw.parse? s).bind Raw.bounded?

end Json
end HotReload
