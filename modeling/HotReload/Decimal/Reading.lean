/-!
# Reading decimals in binary64 arithmetic

A decimal is read as `significand · 10 ^ exponent`, where the significand is the number written by
the leading digits that fit into 64 bits: digits after them only move the exponent, and digits of
the fraction after them are dropped.  The product is formed in binary64 arithmetic, by powers of ten
up to `1e308`; a product out of range is refused.
-/

namespace HotReload
namespace Decimal

/-- The largest 64-bit number. -/
def word : Nat := Nat.pow 2 64 - 1

/-- The power of ten nearest to `10 ^ n`. -/
def tenTo (n : Nat) : Float := Float.ofScientific 1 false n

/-- `x · 10 ^ exponent`, in steps of at most `10 ^ 308`; four steps take any significand to zero. -/
def scale : Nat → Float → Int → Option Float
  | 0, x, _ => some x
  | fuel + 1, x, exponent =>
    if exponent.natAbs ≤ 308 then
      if exponent ≥ 0 then
        let y := x * tenTo exponent.natAbs
        if y.isInf then none else some y
      else some (x / tenTo exponent.natAbs)
    else if x == 0 then some x
    else if exponent ≥ 0 then none
    else scale fuel (x / tenTo 308) (exponent + 308)

/-- The leading digits that fit into 64 bits, and the digits after them. -/
def fitting : Nat → List Nat → Nat × List Nat
  | n, [] => (n, [])
  | n, d :: ds => if n * 10 + d > word then (n, d :: ds) else fitting (n * 10 + d) ds

/-- A decimal with the given digits before and after its point, and a written exponent. -/
def read (negative : Bool) (whole fraction : List Nat) (exponent : Int) : Option Float :=
  let (n, dropped) := fitting 0 whole
  let (n, shift) :=
    if dropped.isEmpty then
      let (n', rest) := fitting n fraction
      (n', -((fraction.length - rest.length : Nat) : Int))
    else (n, (dropped.length : Int))
  let e := shift + exponent
  (scale 8 (Float.ofNat n) e).map fun x => if negative then -x else x

end Decimal
end HotReload
