import HotReload.Decimal.Nearest
import HotReload.Text.Bytes
import HotReload.Toml.Value

/-!
# Bare values of TOML

Values that are written without quotation marks or brackets: integers in four bases, floats,
booleans, dates and times.  Underscores may stand between digits.
-/

namespace HotReload
namespace Toml

/-- The digits of a text that may have single underscores between them. -/
def digits? (isDigit : Char → Bool) (cs : List Char) : Option (List Char) :=
  let parts := Text.splitWhere (· == '_') cs
  if parts.all fun part => !part.isEmpty && part.all isDigit then some parts.flatten else none

/-- The number that digits of a base write. -/
def numberOf (base : Nat) (digits : List Char) : Nat :=
  Text.ofDigits base (digits.filterMap Text.hexValue?)

/-- A sign, and what follows it; no sign counts as plus. -/
def sign : List Char → Bool × List Char
  | '-' :: rest => (true, rest)
  | '+' :: rest => (false, rest)
  | rest => (false, rest)

/-- The digits of a whole number, which starts with zero only if it is zero. -/
def whole? (cs : List Char) : Option (List Char) :=
  match digits? Text.isDigit cs with
  | some ds => if ds.length > 1 && ds.head? == some '0' then none else some ds
  | none => none

/-- The integer if it fits into 64 bits with a sign. -/
def fitting? (n : Int) : Option Value :=
  if -(Nat.pow 2 63 : Int) ≤ n && n < Nat.pow 2 63 then some (.integer n) else none

/-- An octal digit. -/
def isOctalDigit (c : Char) : Bool := '0' ≤ c && c ≤ '7'

/-- A binary digit. -/
def isBinaryDigit (c : Char) : Bool := c = '0' || c = '1'

/-- An integer. -/
def integer? : List Char → Option Value
  | '0' :: 'x' :: cs =>
    (digits? (Text.hexValue? · |>.isSome) cs).bind fun ds => fitting? (numberOf 16 ds)
  | '0' :: 'o' :: cs => (digits? isOctalDigit cs).bind fun ds => fitting? (numberOf 8 ds)
  | '0' :: 'b' :: cs => (digits? isBinaryDigit cs).bind fun ds => fitting? (numberOf 2 ds)
  | cs =>
    let (negative, ds) := sign cs
    (whole? ds).bind fun ds =>
      let n : Int := numberOf 10 ds
      fitting? (if negative then -n else n)

/-- The exponent that a text writes after its letter. -/
def exponent? (cs : List Char) : Option Int :=
  let (negative, ds) := sign cs
  (digits? Text.isDigit ds).map fun ds =>
    let n : Int := numberOf 10 ds
    if negative then -n else n

/-- The float of the given parts; one that is too great is refused. -/
def decimalOf? (negative : Bool) (whole fraction : List Char) (exponent : Int) : Option Value :=
  let x := Decimal.nearest (numberOf 10 (whole ++ fraction)) (exponent - fraction.length)
  if negative then some (.decimal (-x)) else if x.isInf then none else some (.decimal x)

/-- The letter of an exponent. -/
def isExponentLetter (c : Char) : Bool := c = 'e' || c = 'E'

/-- A float: a whole number, and a fraction or an exponent or both. -/
def decimal? (cs : List Char) : Option Value :=
  let (negative, cs) := sign cs
  match cs with
  | ['i', 'n', 'f'] => some (.decimal (if negative then -(1.0 / 0.0) else 1.0 / 0.0))
  | ['n', 'a', 'n'] => some (.decimal (0.0 / 0.0))
  | _ =>
    let before := cs.takeWhile fun c => !isExponentLetter c
    let exponent := match (cs.dropWhile fun c => !isExponentLetter c) with
      | [] => some 0
      | _ :: rest => exponent? rest
    let whole := before.takeWhile (· ≠ '.')
    let fraction := match before.dropWhile (· ≠ '.') with
      | [] => if before.length < cs.length then some [] else none
      | _ :: rest => digits? Text.isDigit rest
    match whole? whole, fraction, exponent with
    | some w, some f, some e => decimalOf? negative w f e
    | _, _, _ => none

/-- Two digits as a number, and what follows. -/
def two? : List Char → Option (Nat × List Char)
  | a :: b :: rest =>
    if Text.isDigit a && Text.isDigit b then some (numberOf 10 [a, b], rest) else none
  | _ => none

/-- The number of days of a month. -/
def daysIn (year month : Nat) : Nat :=
  if month = 2 then
    if (year % 4 = 0 && year % 100 ≠ 0) || year % 400 = 0 then 29 else 28
  else if [4, 6, 9, 11].contains month then 30
  else 31

/-- A date at the front of a text; the result is what follows. -/
def afterDate? : List Char → Option (List Char)
  | a :: b :: c :: d :: '-' :: rest =>
    match two? rest with
    | some (month, '-' :: rest) =>
      match two? rest with
      | some (day, rest) =>
        let year := numberOf 10 [a, b, c, d]
        if [a, b, c, d].all Text.isDigit && 1 ≤ month && month ≤ 12 && 1 ≤ day &&
            day ≤ daysIn year month then some rest
        else none
      | none => none
    | _ => none
  | _ => none

/-- A time at the front of a text; the result is what follows. -/
def afterTime? (cs : List Char) : Option (List Char) :=
  match two? cs with
  | some (hour, ':' :: rest) =>
    match two? rest with
    | some (minute, ':' :: rest) =>
      match two? rest with
      | some (second, rest) =>
        if hour ≤ 23 && minute ≤ 59 && second ≤ 60 then
          match rest with
          | '.' :: c :: more => if Text.isDigit c then some (more.dropWhile Text.isDigit) else none
          | _ => some rest
        else none
      | none => none
    | _ => none
  | _ => none

/-- Whether a text is nothing or an offset from universal time. -/
def isOffset : List Char → Bool
  | [] => true
  | ['Z'] => true
  | ['z'] => true
  | c :: rest =>
    (c = '+' || c = '-') &&
      match two? rest with
      | some (hour, ':' :: rest) =>
        match two? rest with
        | some (minute, []) => hour ≤ 23 && minute ≤ 59
        | _ => false
      | _ => false

/-- The mark between a date and a time. -/
def isDateSeparator (c : Char) : Bool := c = 'T' || c = 't' || c = ' '

/-- Whether a text is a date, a time, or both. -/
def isMoment (cs : List Char) : Bool :=
  match afterDate? cs with
  | some [] => true
  | some (c :: rest) => isDateSeparator c && (afterTime? rest).any isOffset
  | none => (afterTime? cs).any List.isEmpty

/-- A character of a bare value. -/
def isBareChar (c : Char) : Bool :=
  Text.isAlphanumeric c || c = '_' || c = '+' || c = '-' || c = '.' || c = ':'

/-- Whether a blank inside of a date with a time follows: a blank, two digits and a colon. -/
def timeFollows : List Char → Bool
  | ' ' :: a :: b :: ':' :: _ => Text.isDigit a && Text.isDigit b
  | _ => false

/-- The characters of a bare value at the front of a text, and what follows. -/
def bare (cs : List Char) : List Char × List Char :=
  let front := cs.takeWhile isBareChar
  let rest := cs.dropWhile isBareChar
  if afterDate? front == some [] && timeFollows rest then
    (front ++ ' ' :: rest.tail.takeWhile isBareChar, rest.tail.dropWhile isBareChar)
  else (front, rest)

/-- The value of a bare lexeme. -/
def bareValue? (cs : List Char) : Option Value :=
  if cs = "true".toList then some (.boolean true)
  else if cs = "false".toList then some (.boolean false)
  else if isMoment cs then some (.moment (String.ofList cs))
  else
    match integer? cs with
    | some v => some v
    | none => decimal? cs

end Toml
end HotReload
