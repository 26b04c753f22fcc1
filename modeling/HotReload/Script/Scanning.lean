import HotReload.Script.Character
import HotReload.Script.Token

/-!
# Scanning tokens

The token at the front of a text.  A stroke is always scanned as an operator here; where the grammar
expects an operand, the reader asks for `scanPattern` instead, and where it expects a template to go
on, for `scanTemplate`.

Every scanner takes a `Cursor`, the rest of the text with its byte offset, and gives back the cursor
after what it has read.
-/

namespace HotReload
namespace Script

/-- The rest of a text and its byte offset. -/
structure Cursor where
  offset : Nat
  text : List Char
  deriving Repr

namespace Cursor

/-- The cursor after the first character. -/
def skip (c : Cursor) : Cursor :=
  match c.text with
  | [] => c
  | ch :: rest => ⟨c.offset + ch.utf8Size, rest⟩

/-- The cursor after `n` characters. -/
def drop : Nat → Cursor → Cursor
  | 0, c => c
  | n + 1, c => drop n c.skip

/-- The text of a whole script. -/
def ofText (s : String) : Cursor := ⟨0, s.toList⟩

end Cursor

/-- What surrounds the characters being skipped. -/
inductive Surround where
  | code
  | lineComment
  | blockComment
  deriving DecidableEq, Repr

/-- Skips blanks, line ends and comments; says whether a line end was among them. -/
def skipTrivia (around : Surround) (line : Bool) (offset : Nat) :
    List Char → Except Fault (Bool × Cursor)
  | [] =>
    if around = .blockComment then .error ⟨offset, .unterminatedComment⟩
    else .ok (line, ⟨offset, []⟩)
  | '*' :: '/' :: cs =>
    match around with
    | .code => .ok (line, ⟨offset, '*' :: '/' :: cs⟩)
    | .lineComment => skipTrivia .lineComment line (offset + 2) cs
    | .blockComment => skipTrivia .code line (offset + 2) cs
  | '/' :: '/' :: cs =>
    match around with
    | .code => skipTrivia .lineComment line (offset + 2) cs
    | .lineComment => skipTrivia .lineComment line (offset + 2) cs
    | .blockComment => skipTrivia .blockComment line (offset + 1) ('/' :: cs)
  | '/' :: '*' :: cs =>
    match around with
    | .code => skipTrivia .blockComment line (offset + 2) cs
    | .lineComment => skipTrivia .lineComment line (offset + 2) cs
    | .blockComment => skipTrivia .blockComment line (offset + 1) ('*' :: cs)
  | c :: cs =>
    let next := offset + c.utf8Size
    match around with
    | .code =>
      if isLineEnd c then skipTrivia .code true next cs
      else if isBlank c then skipTrivia .code line next cs
      else .ok (line, ⟨offset, c :: cs⟩)
    | .lineComment =>
      if isLineEnd c then skipTrivia .code true next cs else skipTrivia .lineComment line next cs
    | .blockComment => skipTrivia .blockComment (line || isLineEnd c) next cs

/-- The marks as they are written, the longer ones first. -/
def marks : List (List Char × Mark) :=
  [(['>', '>', '>', '='], .assignWith .shiftRightZero),
    (['>', '>', '>'], .operator .shiftRightZero), (['>', '>', '='], .assignWith .shiftRight),
    (['<', '<', '='], .assignWith .shiftLeft), (['=', '=', '='], .operator .same),
    (['!', '=', '='], .operator .notSame), (['*', '*', '='], .assignWith .power),
    (['&', '&', '='], .assignWith .and), (['|', '|', '='], .assignWith .or),
    (['?', '?', '='], .assignWith .coalesce), (['.', '.', '.'], .ellipsis),
    (['>', '>'], .operator .shiftRight), (['>', '='], .operator .greaterOrEqual),
    (['<', '<'], .operator .shiftLeft), (['<', '='], .operator .lessOrEqual),
    (['=', '='], .operator .equal), (['=', '>'], .arrow), (['!', '='], .operator .notEqual),
    (['*', '*'], .operator .power), (['*', '='], .assignWith .times),
    (['/', '='], .assignWith .divide), (['%', '='], .assignWith .remainder),
    (['+', '+'], .increment), (['+', '='], .assignWith .plus), (['-', '-'], .decrement),
    (['-', '='], .assignWith .minus), (['&', '&'], .operator .and),
    (['&', '='], .assignWith .bitAnd), (['|', '|'], .operator .or),
    (['|', '='], .assignWith .bitOr), (['^', '='], .assignWith .bitXor),
    (['?', '?'], .operator .coalesce), (['?', '.'], .questionDot), (['>'], .operator .greater),
    (['<'], .operator .less), (['='], .assign), (['!'], .not), (['*'], .operator .times),
    (['/'], .operator .divide), (['%'], .operator .remainder), (['+'], .operator .plus),
    (['-'], .operator .minus), (['&'], .operator .bitAnd), (['|'], .operator .bitOr),
    (['^'], .operator .bitXor), (['?'], .question), (['.'], .dot), (['~'], .complement),
    (['\x7b'], .openBrace), (['\x7d'], .closeBrace), (['('], .openParen), ([')'], .closeParen),
    (['['], .openBracket), ([']'], .closeBracket), ([';'], .semicolon), ([','], .comma),
    ([':'], .colon), (['@'], .decorator)]

/-- Whether a text starts with a question mark and a number that starts with its point. -/
def questionsNumber : List Char → Bool
  | '?' :: '.' :: c :: _ => Text.isDigit c
  | _ => false

/-- The longest mark at the front of a text, and its length. -/
def scanMark (cs : List Char) : Option (Mark × Nat) :=
  if questionsNumber cs then some (.question, 1)
  else (marks.find? (·.1.isPrefixOf cs)).map fun (text, m) => (m, text.length)

/-- The digits of a code point in braces and their number: up to the closing brace, at least one,
and not beyond the last code point. -/
def scanCodePoint : Nat → Bool → Cursor → Option (Nat × Cursor)
  | n, some?, ⟨offset, c :: cs⟩ =>
    if c = '\x7d' then if some? then some (n, ⟨offset + 1, cs⟩) else none
    else
      match Text.hexValue? c with
      | some d => if n * 16 + d ≤ 0x10FFFF then scanCodePoint (n * 16 + d) true ⟨offset + 1, cs⟩
                  else none
      | none => none
  | _, _, ⟨_, []⟩ => none
termination_by _ _ c => c.text.length

/-- The code unit or code point of a Unicode escape, read after its letter. -/
def scanUnicodeEscape (c : Cursor) : Option (Nat × Cursor) :=
  match c.text with
  | '\x7b' :: cs => scanCodePoint 0 false ⟨c.offset + 1, cs⟩
  | a :: b :: d :: e :: cs =>
    let ds := [a, b, d, e].filterMap Text.hexValue?
    if ds.length = 4 then some (Text.ofDigits 16 ds, ⟨c.offset + 4, cs⟩) else none
  | _ => none

/-- The code unit of a two-digit escape, read after its letter. -/
def scanByteEscape (c : Cursor) : Option (Nat × Cursor) :=
  match c.text with
  | a :: b :: cs =>
    let ds := [a, b].filterMap Text.hexValue?
    if ds.length = 2 then some (Text.ofDigits 16 ds, ⟨c.offset + 2, cs⟩) else none
  | _ => none

/-- The characters of a word, its escapes resolved, and whether there was one. -/
def scanWord : Nat → List Char → Bool → Cursor → Except Fault (List Char × Bool × Cursor)
  | 0, read, escaped, c => .ok (read.reverse, escaped, c)
  | n + 1, read, escaped, c =>
    let allowed := if read.isEmpty then isIdentifierStart else isIdentifierPart
    match c.text with
    | '\\' :: 'u' :: cs =>
      match scanUnicodeEscape ⟨c.offset + 2, cs⟩ with
      | some (m, next) =>
        if m.isValidChar && allowed (Char.ofNat m) then scanWord n (Char.ofNat m :: read) true next
        else .error ⟨c.offset, .badEscape⟩
      | none => .error ⟨c.offset, .badEscape⟩
    | '\\' :: _ => .error ⟨c.offset, .badEscape⟩
    | ch :: _ =>
      if allowed ch then scanWord n (ch :: read) escaped c.skip
      else .ok (read.reverse, escaped, c)
    | [] => .ok (read.reverse, escaped, c)

/-- Digits with single underscores between them, after a first digit: how many characters they take,
and what follows; none if an underscore does not stand between two digits. -/
def moreDigits (isDigit : Char → Bool) (n : Nat) : List Char → Option (Nat × List Char)
  | '_' :: c :: cs => if isDigit c then moreDigits isDigit (n + 2) cs else none
  | '_' :: [] => none
  | c :: cs => if isDigit c then moreDigits isDigit (n + 1) cs else some (n, c :: cs)
  | [] => some (n, [])

/-- At least one digit, and more. -/
def someDigits (isDigit : Char → Bool) (n : Nat) : List Char → Option (Nat × List Char)
  | c :: cs => if isDigit c then moreDigits isDigit (n + 1) cs else none
  | [] => none

/-- Digits, perhaps with a sign in front. -/
def signedDigits (n : Nat) : List Char → Option (Nat × List Char)
  | '+' :: cs => someDigits Text.isDigit (n + 1) cs
  | '-' :: cs => someDigits Text.isDigit (n + 1) cs
  | cs => someDigits Text.isDigit n cs

/-- An optional exponent. -/
def exponentPart (n : Nat) : List Char → Option (Nat × List Char)
  | e :: cs => if e = 'e' || e = 'E' then signedDigits (n + 1) cs else some (n, e :: cs)
  | [] => some (n, [])

/-- What may follow the point of a number: digits and an exponent. -/
def afterPoint (n : Nat) : List Char → Option (Nat × List Char)
  | c :: cs =>
    if Text.isDigit c then
      (moreDigits Text.isDigit (n + 1) cs).bind fun (m, rest) => exponentPart m rest
    else exponentPart n (c :: cs)
  | [] => some (n, [])

/-- What may follow the whole part of a number: a fraction, an exponent, or the mark of a big
integer. -/
def afterWhole (n : Nat) : List Char → Option (Nat × List Char)
  | '.' :: cs => afterPoint (n + 1) cs
  | 'n' :: cs => some (n + 1, cs)
  | cs => exponentPart n cs

/-- A binary digit. -/
def isBinaryDigit (c : Char) : Bool := c = '0' || c = '1'

/-- An octal digit. -/
def isOctalDigit (c : Char) : Bool := '0' ≤ c && c ≤ '7'

/-- A hexadecimal digit. -/
def isHexDigit (c : Char) : Bool := (Text.hexValue? c).isSome

/-- A whole number in another base, after its letter. -/
def basedNumber (isDigit : Char → Bool) (cs : List Char) : Option (Nat × List Char) :=
  match someDigits isDigit 2 cs with
  | some (n, 'n' :: rest) => some (n + 1, rest)
  | r => r

/-- A number with a needless leading zero: octal, or decimal as soon as it holds an eight or a nine,
which then may have a fraction and an exponent. -/
def zeroLedNumber (cs : List Char) : Option (Nat × List Char) :=
  let digits := cs.takeWhile Text.isDigit
  let rest := cs.dropWhile Text.isDigit
  let n := digits.length + 1
  if digits.all isOctalDigit then some (n, rest)
  else
    match rest with
    | 'n' :: _ => some (n, rest)
    | _ => afterWhole n rest

/-- A number that starts with a zero, read after that zero. -/
def afterZero : List Char → Option (Nat × List Char)
  | c :: cs =>
    if c = 'x' || c = 'X' then basedNumber isHexDigit cs
    else if c = 'o' || c = 'O' then basedNumber isOctalDigit cs
    else if c = 'b' || c = 'B' then basedNumber isBinaryDigit cs
    else if Text.isDigit c then zeroLedNumber (c :: cs)
    else afterWhole 1 (c :: cs)
  | [] => some (1, [])

/-- A number: how many characters it takes, and what follows. -/
def scanNumber : List Char → Option (Nat × List Char)
  | '0' :: cs => afterZero cs
  | '.' :: cs => (someDigits Text.isDigit 1 cs).bind fun (n, rest) => exponentPart n rest
  | c :: cs =>
    if Text.isDigit c then
      (moreDigits Text.isDigit 1 cs).bind fun (n, rest) => afterWhole n rest
    else none
  | [] => none

/-- Whether what follows a number could be taken for a part of it. -/
def touchesNumber : List Char → Bool
  | c :: _ => Text.isDigit c || isIdentifierStart c
  | [] => false

/-- A code unit or code point of a string value: an escape may write half of a surrogate pair. -/
abbrev Unit16 := Nat

/-- The value of the octal digit at a cursor, if there is one. -/
def octalDigit? (c : Cursor) : Option Nat :=
  match c.text with
  | d :: _ => if isOctalDigit d then some (Text.digitValue d) else none
  | [] => none

/-- The value of an octal escape of at most three digits, not above 255. -/
def octalEscape (first : Nat) (c : Cursor) : Nat × Cursor :=
  match octalDigit? c with
  | none => (first, c)
  | some d =>
    let n := first * 8 + d
    if first ≤ 3 then
      match octalDigit? c.skip with
      | none => (n, c.skip)
      | some e => (n * 8 + e, c.skip.skip)
    else (n, c.skip)

/-- The code unit that a single character stands for after a backslash. -/
def escapedUnit : Char → Unit16
  | 'b' => 0x08
  | 'f' => 0x0C
  | 'n' => 0x0A
  | 'r' => 0x0D
  | 't' => 0x09
  | 'v' => 0x0B
  | ch => ch.toNat

/-- An escape that starts at a cursor and that has to have a value. -/
def valued (c : Cursor) : Option (Nat × Cursor) → Except Fault (Option Unit16 × Cursor)
  | some (n, next) => .ok (some n, next)
  | none => .error ⟨c.offset, .badEscape⟩

/-- The value of an escape in a string literal, read after its backslash: nothing for a line end. -/
def scanEscape (c : Cursor) : Except Fault (Option Unit16 × Cursor) :=
  match c.text with
  | [] => .error ⟨c.offset, .unterminatedText⟩
  | '\r' :: '\n' :: _ => .ok (none, c.drop 2)
  | ch :: _ =>
    if isLineEnd ch then .ok (none, c.skip)
    else if ch = 'x' then valued c (scanByteEscape c.skip)
    else if ch = 'u' then valued c (scanUnicodeEscape c.skip)
    else if isOctalDigit ch then valued c (some (octalEscape (Text.digitValue ch) c.skip))
    else .ok (some (escapedUnit ch), c.skip)

/-- The value of a string literal up to its closing mark, read after the opening one. -/
def scanUnits : Nat → Char → List Unit16 → Cursor → Except Fault (List Unit16 × Cursor)
  | 0, _, _, c => .error ⟨c.offset, .unterminatedText⟩
  | n + 1, mark, read, c =>
    match c.text with
    | [] => .error ⟨c.offset, .unterminatedText⟩
    | ch :: _ =>
      if ch = mark then .ok (read.reverse, c.skip)
      else if ch = '\\' then
        match scanEscape c.skip with
        | .error fault => .error fault
        | .ok (some u, next) => scanUnits n mark (u :: read) next
        | .ok (none, next) => scanUnits n mark read next
      else if ch = '\n' || ch = '\r' then .error ⟨c.offset, .unterminatedText⟩
      else scanUnits n mark (ch.toNat :: read) c.skip

/-- Code points, neighbouring halves of a surrogate pair joined. -/
def joinPairs : List Unit16 → List Nat
  | high :: low :: rest =>
    if 0xD800 ≤ high && high ≤ 0xDBFF && 0xDC00 ≤ low && low ≤ 0xDFFF then
      (0x10000 + (high - 0xD800) * 0x400 + (low - 0xDC00)) :: joinPairs rest
    else high :: joinPairs (low :: rest)
  | rest => rest

/-- Whether a code point is a surrogate. -/
def isSurrogate (n : Nat) : Bool := 0xD800 ≤ n && n ≤ 0xDFFF

/-- The text of a string value.  A surrogate without its partner is written as a replacement
character and its four hexadecimal digits; in a value with such a surrogate, a replacement character
is written in the same way. -/
def textOfUnits (units : List Unit16) : String × Bool :=
  let points := joinPairs units
  let alone := points.any isSurrogate
  let write (n : Nat) : List Char :=
    if isSurrogate n || (alone && n = 0xFFFD) then '\ufffd' :: hex4 n else [Char.ofNat n]
  (String.ofList (points.flatMap write), alone)
where
  /-- Four lower-case hexadecimal digits. -/
  hex4 (n : Nat) : List Char :=
    let d (k : Nat) : Char :=
      let v := n / Nat.pow 16 k % 16
      if v < 10 then Char.ofNat (48 + v) else Char.ofNat (87 + v)
    [d 3, d 2, d 1, d 0]

/-- Whether the escape after a backslash in a template has a value. -/
def templateEscapeOk (c : Cursor) : Bool :=
  match c.text with
  | 'u' :: _ => (scanUnicodeEscape c.skip).isSome
  | 'x' :: _ => (scanByteEscape c.skip).isSome
  | '0' :: d :: _ => !Text.isDigit d
  | '0' :: [] => true
  | d :: _ => !Text.isDigit d
  | [] => true

/-- A stretch of a template: whether it ends the template, whether all its escapes have values, and
what follows. -/
def scanTemplate : Nat → Bool → Cursor → Except Fault (Bool × Bool × Cursor)
  | 0, _, c => .error ⟨c.offset, .unterminatedTemplate⟩
  | n + 1, ok, c =>
    match c.text with
    | [] => .error ⟨c.offset, .unterminatedTemplate⟩
    | '`' :: _ => .ok (true, ok, c.skip)
    | '$' :: '\x7b' :: _ => .ok (false, ok, c.drop 2)
    | '\\' :: [] => .error ⟨c.offset, .unterminatedTemplate⟩
    | '\\' :: _ :: _ => scanTemplate n (ok && templateEscapeOk c.skip) (c.drop 2)
    | _ :: _ => scanTemplate n ok c.skip

/-- The body of a regular expression up to its closing stroke; inside brackets a stroke does not
close it. -/
def scanPatternBody : Nat → Bool → Cursor → Except Fault Cursor
  | 0, _, c => .error ⟨c.offset, .unterminatedPattern⟩
  | n + 1, inClass, c =>
    match c.text with
    | [] => .error ⟨c.offset, .unterminatedPattern⟩
    | '\\' :: e :: _ =>
      if isLineEnd e then .error ⟨c.offset, .unterminatedPattern⟩
      else scanPatternBody n inClass (c.drop 2)
    | ch :: _ =>
      if isLineEnd ch then .error ⟨c.offset, .unterminatedPattern⟩
      else if ch = '/' && !inClass then .ok c.skip
      else if ch = '[' then scanPatternBody n true c.skip
      else if ch = ']' then scanPatternBody n false c.skip
      else scanPatternBody n inClass c.skip

/-- The flags of a regular expression: known letters, each at most once. -/
def scanFlags (c : Cursor) : Except Fault Cursor :=
  let flags := c.text.takeWhile fun ch => Text.isAlphanumeric ch || ch = '$' || ch = '_'
  if flags.all ("dgimsuvy".toList.contains ·) && decide flags.Nodup then .ok (c.drop flags.length)
  else .error ⟨c.offset, .badPatternFlags⟩

/-- A regular expression, read after its opening stroke. -/
def scanPattern (bound : Nat) (c : Cursor) : Except Fault Cursor :=
  (scanPatternBody bound false c).bind scanFlags

/-- The token of a kind between two cursors. -/
def Token.between (kind : Kind) (line : Bool) (c next : Cursor) : Token where
  kind := kind
  start := c.offset
  stop := next.offset
  afterLine := line
  text := Text.takeBytes (next.offset - c.offset) c.text

/-- The token of a kind between two cursors, and what follows it. -/
def Token.give (kind : Kind) (line : Bool) (c next : Cursor) : Except Fault (Token × Cursor) :=
  .ok (.between kind line c next, next)

/-- A number as a token. -/
def scanNumeral (line : Bool) (c : Cursor) : Except Fault (Token × Cursor) :=
  match scanNumber c.text with
  | some (n, rest) =>
    if touchesNumber rest then .error ⟨c.offset, .badNumber⟩
    else Token.give .number line c ⟨c.offset + n, rest⟩
  | none => .error ⟨c.offset, .badNumber⟩

/-- Punctuation as a token. -/
def scanPunctuation (line : Bool) (c : Cursor) : Except Fault (Token × Cursor) :=
  match scanMark c.text with
  | some (m, n) => Token.give (.mark m) line c (c.drop n)
  | none => .error ⟨c.offset, .unexpectedCharacter⟩

/-- The first stretch of a template as a token. -/
def scanTemplateHead (bound : Nat) (line : Bool) (c : Cursor) : Except Fault (Token × Cursor) :=
  match scanTemplate bound true c.skip with
  | .ok (last, ok, next) => Token.give (.template last ok) line c next
  | .error fault => .error fault

/-- A name with a number sign as a token. -/
def scanPrivateName (bound : Nat) (line : Bool) (c : Cursor) : Except Fault (Token × Cursor) :=
  match scanWord bound [] false c.skip with
  | .ok (name, _, next) =>
    if name.isEmpty then .error ⟨c.offset, .unexpectedCharacter⟩
    else Token.give (.privateName (String.ofList name)) line c next
  | .error fault => .error fault

/-- A string literal as a token. -/
def scanText (bound : Nat) (line : Bool) (mark : Char) (c : Cursor) :
    Except Fault (Token × Cursor) :=
  match scanUnits bound mark [] c.skip with
  | .ok (units, next) =>
    Token.give (.text (textOfUnits units).1 (textOfUnits units).2) line c next
  | .error fault => .error fault

/-- A word as a token. -/
def scanName (bound : Nat) (line : Bool) (c : Cursor) : Except Fault (Token × Cursor) :=
  match scanWord bound [] false c with
  | .ok (name, escaped, next) => Token.give (.word (String.ofList name) escaped) line c next
  | .error fault => .error fault

/-- The token at the front of a text, which starts with neither a blank nor a comment; `bound` is
above the length of the text. -/
def scanToken (bound : Nat) (line : Bool) (c : Cursor) : Except Fault (Token × Cursor) :=
  match c.text with
  | [] => Token.give .finish line c c
  | '.' :: d :: _ => if Text.isDigit d then scanNumeral line c else scanPunctuation line c
  | '`' :: _ => scanTemplateHead bound line c
  | '#' :: _ => scanPrivateName bound line c
  | ch :: _ =>
    if ch = '"' || ch = '\'' then scanText bound line ch c
    else if Text.isDigit ch then scanNumeral line c
    else if isIdentifierStart ch || ch = '\\' then scanName bound line c
    else scanPunctuation line c

/-- The next token of a text, and what follows it. -/
def nextToken (bound : Nat) (c : Cursor) : Except Fault (Token × Cursor) :=
  match skipTrivia .code false c.offset c.text with
  | .ok (line, next) => scanToken bound line next
  | .error fault => .error fault

/-- A script without the line that names its interpreter. -/
def skipInterpreter (c : Cursor) : Cursor :=
  match c.text with
  | '#' :: '!' :: cs => c.drop (2 + (cs.takeWhile (!isLineEnd ·)).length)
  | _ => c

end Script
end HotReload
