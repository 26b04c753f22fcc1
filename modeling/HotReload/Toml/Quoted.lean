import HotReload.Text.Bytes

/-!
# Quoted texts of TOML

Basic texts have escapes, literal ones have none; both exist on one line and over several.  In texts
over several lines a line end is a line feed, however it is written, and up to two quotation marks
may stand directly before the closing three.
-/

namespace HotReload
namespace Toml

/-- A character that may stand for itself: no control character but the tab. -/
def isPlain (c : Char) : Bool := c = '\t' || (0x20 ≤ c.toNat && c.toNat ≠ 0x7F)

/-- The character of a code point that hexadecimal digits write. -/
def codePoint? (digits : List Char) : Option Char :=
  if digits.all fun c => (Text.hexValue? c).isSome then
    let n := Text.ofDigits 16 (digits.filterMap Text.hexValue?)
    if n < 0xD800 || (0xE000 ≤ n && n ≤ 0x10FFFF) then some (Char.ofNat n) else none
  else none

/-- The character of an escape, of which the backslash has been read, and what follows. -/
def escape? : List Char → Option (Char × List Char)
  | 'b' :: rest => some ('\x08', rest)
  | 't' :: rest => some ('\t', rest)
  | 'n' :: rest => some ('\n', rest)
  | 'f' :: rest => some ('\x0c', rest)
  | 'r' :: rest => some ('\r', rest)
  | '"' :: rest => some ('"', rest)
  | '\\' :: rest => some ('\\', rest)
  | 'u' :: rest => if rest.length < 4 then none
    else (codePoint? (rest.take 4)).map fun c => (c, rest.drop 4)
  | 'U' :: rest => if rest.length < 8 then none
    else (codePoint? (rest.take 8)).map fun c => (c, rest.drop 8)
  | _ => none

/-- A text with one more character in front. -/
def cons (c : Char) (r : List Char × List Char) : List Char × List Char := (c :: r.1, r.2)

/-- A basic text on one line up to its closing mark, and what follows; at most `n` characters. -/
def basic? : Nat → List Char → Option (List Char × List Char)
  | 0, _ => none
  | _, [] => none
  | _ + 1, '"' :: rest => some ([], rest)
  | n + 1, '\\' :: rest =>
    match escape? rest with
    | some (c, rest) => (basic? n rest).map (cons c)
    | none => none
  | n + 1, c :: rest => if isPlain c then (basic? n rest).map (cons c) else none

/-- A literal text on one line up to its closing mark, and what follows. -/
def literal? : List Char → Option (List Char × List Char)
  | [] => none
  | '\'' :: rest => some ([], rest)
  | c :: rest => if isPlain c then (literal? rest).map (cons c) else none

/-- The text after one line end, if there is one. -/
def afterLineEnd? : List Char → Option (List Char)
  | '\n' :: rest => some rest
  | '\r' :: '\n' :: rest => some rest
  | _ => none

/-- The text after blanks and line ends. -/
def skipBlankLines : List Char → List Char
  | ' ' :: rest => skipBlankLines rest
  | '\t' :: rest => skipBlankLines rest
  | '\n' :: rest => skipBlankLines rest
  | '\r' :: '\n' :: rest => skipBlankLines rest
  | rest => rest

/-- A blank on a line. -/
def isBlank (c : Char) : Bool := c = ' ' || c = '\t'

/-- What follows a backslash at the end of a line: the next text that is not blank. -/
def afterFold? (cs : List Char) : Option (List Char) :=
  (afterLineEnd? (cs.dropWhile isBlank)).map skipBlankLines

/-- What follows three closing marks: up to two more marks belong to the text. -/
def closing (mark : Char) : List Char → List Char × List Char
  | a :: b :: rest =>
    if a = mark && b = mark then ([mark, mark], rest)
    else if a = mark then ([mark], b :: rest)
    else ([], a :: b :: rest)
  | [a] => if a = mark then ([mark], []) else ([], [a])
  | [] => ([], [])

/-- A basic text over several lines up to its closing marks, and what follows. -/
def longBasic? : Nat → List Char → Option (List Char × List Char)
  | 0, _ => none
  | _ + 1, '"' :: '"' :: '"' :: rest => some (closing '"' rest)
  | n + 1, '\\' :: rest =>
    match afterFold? rest with
    | some rest => longBasic? n rest
    | none =>
      match escape? rest with
      | some (c, rest) => (longBasic? n rest).map (cons c)
      | none => none
  | n + 1, cs =>
    match afterLineEnd? cs, cs with
    | some rest, _ => (longBasic? n rest).map (cons '\n')
    | none, c :: rest => if isPlain c then (longBasic? n rest).map (cons c) else none
    | none, [] => none

/-- A literal text over several lines up to its closing marks, and what follows. -/
def longLiteral? : Nat → List Char → Option (List Char × List Char)
  | 0, _ => none
  | _ + 1, '\'' :: '\'' :: '\'' :: rest => some (closing '\'' rest)
  | n + 1, cs =>
    match afterLineEnd? cs, cs with
    | some rest, _ => (longLiteral? n rest).map (cons '\n')
    | none, c :: rest => if isPlain c then (longLiteral? n rest).map (cons c) else none
    | none, [] => none

/-- The text after a line end directly behind the opening marks. -/
def afterOpening (cs : List Char) : List Char := (afterLineEnd? cs).getD cs

/-- A quoted text of any of the four kinds, and what follows. -/
def quoted? : List Char → Option (List Char × List Char)
  | '"' :: '"' :: '"' :: rest => longBasic? (rest.length + 1) (afterOpening rest)
  | '\'' :: '\'' :: '\'' :: rest => longLiteral? (rest.length + 1) (afterOpening rest)
  | '"' :: rest => basic? (rest.length + 1) rest
  | '\'' :: rest => literal? rest
  | _ => none

/-- A character of a bare key. -/
def isKeyChar (c : Char) : Bool := Text.isAlphanumeric c || c = '_' || c = '-'

/-- One part of a key, and what follows. -/
def keyPart? : List Char → Option (List Char × List Char)
  | '"' :: rest => basic? (rest.length + 1) rest
  | '\'' :: rest => literal? rest
  | cs =>
    match cs.takeWhile isKeyChar with
    | [] => none
    | part => some (part, cs.dropWhile isKeyChar)

/-- The parts of a key, dots between them and blanks around them, and what follows. -/
def keyParts? : Nat → List Char → Option (List String × List Char)
  | 0, _ => none
  | n + 1, cs =>
    match keyPart? (cs.dropWhile isBlank) with
    | none => none
    | some (part, rest) =>
      match rest.dropWhile isBlank with
      | '.' :: rest =>
        (keyParts? n rest).map fun (parts, rest) => (String.ofList part :: parts, rest)
      | rest => some ([String.ofList part], rest)

/-- The greatest depth of nested values, and of parts in a key, plus one. -/
def depthLimit : Nat := 80

/-- A key, and what follows: the parts before its last one, and that. -/
def key? (cs : List Char) : Option ((List String × String) × List Char) :=
  match keyParts? (cs.length + 1) cs with
  | some (parts, rest) =>
    if parts.length < depthLimit then
      parts.getLast?.map fun last => ((parts.dropLast, last), rest)
    else none
  | none => none

end Toml
end HotReload
