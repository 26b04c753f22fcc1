import HotReload.Json.Value
import HotReload.Text.Hex
import HotReload.Decimal.Layout

/-!
# JSON text

The compact text of a value: no blanks, members in their order, non-ASCII characters as themselves.
In strings the quotation mark, the backslash and the control characters are escaped, five of the
latter by a letter and the others by `\u` and four digits.
-/

namespace HotReload
namespace Json

/-- A character inside a string. -/
def escape (c : Char) : List Char :=
  if c = '"' then ['\\', '"']
  else if c = '\\' then ['\\', '\\']
  else if c = '\n' then ['\\', 'n']
  else if c = '\r' then ['\\', 'r']
  else if c = '\t' then ['\\', 't']
  else if c = '\x08' then ['\\', 'b']
  else if c = '\x0c' then ['\\', 'f']
  else if c.toNat < 32 then '\\' :: 'u' :: Hex.fixed 4 c.toNat
  else [c]

/-- A text in quotation marks. -/
def quoteChars (cs : List Char) : List Char := '"' :: cs.flatMap escape ++ ['"']

/-- A text in quotation marks. -/
def quote (s : String) : String := String.ofList (quoteChars s.toList)

/-- The text of an integer. -/
def integerChars (n : Int) : List Char :=
  if n < 0 then '-' :: Nat.toDigits 10 n.natAbs else Nat.toDigits 10 n.natAbs

/-- The text of a number. -/
def Number.chars : Number → List Char
  | .integer n => integerChars n
  | .decimal x => Decimal.Layout.json.text x

namespace Value

mutual
/-- The text of a value. -/
def chars : Value → List Char
  | .null => "null".toList
  | .boolean true => "true".toList
  | .boolean false => "false".toList
  | .number n => n.chars
  | .string s => quoteChars s.toList
  | .array items => '[' :: itemChars items ++ [']']
  | .object members => '\x7b' :: memberChars members ++ ['\x7d']

/-- Items with commas between them. -/
def itemChars : List Value → List Char
  | [] => []
  | [v] => v.chars
  | v :: vs => v.chars ++ ',' :: itemChars vs

/-- Members with commas between them. -/
def memberChars : List (String × Value) → List Char
  | [] => []
  | [(k, v)] => quoteChars k.toList ++ ':' :: v.chars
  | (k, v) :: ms => quoteChars k.toList ++ ':' :: v.chars ++ ',' :: memberChars ms
end

/-- The text of a value. -/
def text (v : Value) : String := String.ofList v.chars

end Value
end Json
end HotReload
