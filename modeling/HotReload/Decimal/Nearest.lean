/-!
# Reading decimals to the nearest float

A decimal is read as the binary64 number nearest to it.  Magnitudes far outside of the range are
settled first, so that a long exponent costs nothing.
-/

namespace HotReload
namespace Decimal

/-- The number of decimal places beyond which every number is zero or infinite. -/
def farAway : Int := 400

/-- The float nearest to `n · 10 ^ exponent`. -/
def nearest (n : Nat) (exponent : Int) : Float :=
  let top := ((Nat.toDigits 10 n).length : Int) + exponent
  if n = 0 then 0
  else if top > farAway then 1.0 / 0.0
  else if top < -farAway then 0
  else Float.ofScientific n (exponent < 0) exponent.natAbs

end Decimal
end HotReload
