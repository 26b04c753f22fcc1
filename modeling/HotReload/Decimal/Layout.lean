import HotReload.Decimal.Shortest

/-!
# Layouts of floating-point numbers

How the shortest digits of a number are laid out: from which magnitudes on an exponent is written,
whether a whole number keeps a fraction, and the words for numbers that are not finite.  Two layouts
are used: the one of JSON text, and the plain one of messages.
-/

namespace HotReload
namespace Decimal

/-- The choices that turn digits into text. -/
structure Layout where
  /-- Whether a number whose first digit stands for `10 ^ e` is written without an exponent. -/
  positional : Int → Bool
  /-- Whether a whole number written without an exponent ends in `.0`. -/
  keepPoint : Bool
  /-- What stands for a number that is not a number. -/
  notANumber : List Char
  /-- What stands for positive infinity. -/
  infinity : List Char

/-- JSON text: positional from `1e-5` to below `1e16`, with at least one decimal there. -/
def Layout.json : Layout where
  positional e := -5 ≤ e && e < 16
  keepPoint := true
  notANumber := "null".toList
  infinity := "null".toList

/-- Plain text: never an exponent, and no decimals for whole numbers. -/
def Layout.plain : Layout where
  positional _ := true
  keepPoint := false
  notANumber := "NaN".toList
  infinity := "inf".toList

/-- Digits with the point `point` places from their left end, zeros filled in where it lies
outside. -/
def placePoint (keepPoint : Bool) (digits : List Char) (point : Int) : List Char :=
  if point ≤ 0 then "0.".toList ++ List.replicate (-point).toNat '0' ++ digits
  else
    let n := point.toNat
    if digits.length ≤ n then
      digits ++ List.replicate (n - digits.length) '0' ++ (if keepPoint then ".0".toList else [])
    else digits.take n ++ '.' :: digits.drop n

/-- A signed exponent. -/
def exponentText (e : Int) : List Char :=
  'e' :: (if e < 0 then '-' else '+') :: Nat.toDigits 10 e.natAbs

/-- Digits before an exponent: a point after the first one, if there are more. -/
def pointAfterFirst : List Char → List Char
  | [] => []
  | [d] => [d]
  | d :: ds => d :: '.' :: ds

/-- The text of a positive decimal. -/
def Layout.positive (l : Layout) (d : Decimal) : List Char :=
  let digits := Nat.toDigits 10 d.digits
  let first := d.exponent + digits.length - 1
  if l.positional first then placePoint l.keepPoint digits (first + 1)
  else pointAfterFirst digits ++ exponentText first

/-- The text of a float, by the layout. -/
def Layout.text (l : Layout) (x : Float) : List Char :=
  let bits := x.toBits
  let negative := bits.toNat ≥ Nat.pow 2 63
  let sign := if negative then ['-'] else []
  if x.isNaN then l.notANumber
  else if x.isInf then sign ++ l.infinity
  else
    let b := Binary.ofBits bits
    if b.mantissa = 0 then sign ++ '0' :: (if l.keepPoint then ".0".toList else [])
    else sign ++ l.positive (shortest b)

end Decimal
end HotReload
