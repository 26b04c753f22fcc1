/-!
# Shortest decimal digits

The decimal with the fewest digits that reads back as a given binary floating-point number, and of
those the nearest to it.

A finite number is `m · 2 ^ q`.  The reals that round to it form an interval around it, whose ends
belong to it exactly when `m` is even.  For one digit, two digits, and so on, the two neighbours of
the number on the grid of that many digits are tested for the interval, in exact arithmetic on
natural numbers; the first grid with a hit gives the digits.
-/

namespace HotReload

/-- A decimal `digits · 10 ^ exponent`. -/
structure Decimal where
  digits : Nat
  exponent : Int
  deriving DecidableEq, Repr

namespace Decimal

/-- A positive binary number `mantissa · 2 ^ exponent`; `lowest` marks a power of two whose lower
neighbour is nearer than its upper one. -/
structure Binary where
  mantissa : Nat
  exponent : Int
  lowest : Bool
  deriving DecidableEq, Repr

namespace Binary

/-- The magnitude that the bits of a 64-bit float write, zero included; its class is not checked. -/
def ofBits (bits : UInt64) : Binary :=
  let field : Nat := (bits.toNat / Nat.pow 2 52) % 2048
  let fraction : Nat := bits.toNat % Nat.pow 2 52
  if field = 0 then ⟨fraction, -1074, false⟩
  else ⟨Nat.pow 2 52 + fraction, Int.ofNat field - 1075, fraction == 0 && field > 1⟩

/-- A quarter unit of the last place as a fraction. -/
def quarter (b : Binary) : Nat × Nat :=
  let q := b.exponent - 2
  if q ≥ 0 then (Nat.pow 2 q.toNat, 1) else (1, Nat.pow 2 (-q).toNat)

end Binary

/-- The power `10 ^ e` as a fraction. -/
def power (e : Int) : Nat × Nat :=
  if e ≥ 0 then (Nat.pow 10 e.toNat, 1) else (1, Nat.pow 10 (-e).toNat)

/-- The number of decimal digits of a natural number. -/
def width (n : Nat) : Nat := (Nat.toDigits 10 n).length

/-- The largest `e` with `10 ^ e ≤ n / d`, for `n` and `d` positive. -/
def magnitude (n d : Nat) : Int :=
  if n ≥ d then (width (n / d) : Int) - 1
  else -(width ((d + n - 1) / n - 1) : Int)

/-- Whether `k · 10 ^ e` rounds to the binary number. -/
def roundsTo (b : Binary) (k : Nat) (e : Int) : Bool :=
  let (un, ud) := b.quarter
  let (tn, td) := power e
  let x := k * tn * ud
  let low := (4 * b.mantissa - if b.lowest then 1 else 2) * un * td
  let high := (4 * b.mantissa + 2) * un * td
  if b.mantissa % 2 = 0 then low ≤ x && x ≤ high else low < x && x < high

/-- The nearer of the two neighbours of the number on the grid `10 ^ e`, among those that round to
it; of two equally near ones the even one. -/
def onGrid (b : Binary) (e : Int) : Option Nat :=
  let (un, ud) := b.quarter
  let (tn, td) := power e
  let n := 4 * b.mantissa * un * td
  let d := ud * tn
  let k := n / d
  let below := roundsTo b k e
  let above := roundsTo b (k + 1) e
  match below, above with
  | true, true =>
    let rest := 2 * (n % d)
    if rest < d then some k
    else if d < rest then some (k + 1)
    else if k % 2 = 0 then some k else some (k + 1)
  | true, false => some k
  | false, true => some (k + 1)
  | false, false => none

/-- The first hit over grids of `digits`, `digits + 1`, … digits. -/
def search (b : Binary) (top : Int) : Nat → Nat → Decimal
  | 0, digits => ⟨b.mantissa, top - digits⟩
  | fuel + 1, digits =>
    let e := top - ((digits : Int) - 1)
    match onGrid b e with
    | some k => ⟨k, e⟩
    | none => search b top fuel (digits + 1)

/-- Trailing zeros of the digits moved into the exponent. -/
def trim : Nat → Decimal → Decimal
  | 0, d => d
  | fuel + 1, d =>
    if d.digits ≠ 0 && d.digits % 10 = 0 then trim fuel ⟨d.digits / 10, d.exponent + 1⟩ else d

/-- The shortest decimal of a positive binary number; seventeen digits always suffice. -/
def shortest (b : Binary) : Decimal :=
  let (un, ud) := b.quarter
  trim 20 (search b (magnitude (4 * b.mantissa * un) ud) 17 1)

end Decimal
end HotReload
