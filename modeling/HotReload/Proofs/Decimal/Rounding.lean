import HotReload.Decimal.Shortest
import Mathlib.Algebra.Order.Archimedean.Basic
import Mathlib.Algebra.Order.Field.Power
import Mathlib.Data.Nat.Cast.Order.Field
import Mathlib.Tactic.FieldSimp
import Mathlib.Tactic.Linarith
import Mathlib.Tactic.Positivity
import Mathlib.Tactic.Ring

/-!
# The shortest digits name one binary number

The reals that round to a binary number form an interval around it.  The binary numbers that bits
can write follow one another, and the interval of each ends where the next one begins; of the two
only the one with the even mantissa holds the common end.  So no real rounds to two of them
(`Binary.covers_unique`).

The digits found for a number do round to it (`covers_shortest`): a grid of seventeen digits is
finer than the interval, so the search does not come to its end without a hit.
-/

namespace HotReload
namespace Decimal

/-- The number that a decimal writes. -/
def value (d : Decimal) : ℚ := d.digits * (10 : ℚ) ^ d.exponent

namespace Binary

/-- A quarter unit of the last place. -/
def unit (b : Binary) : ℚ := (2 : ℚ) ^ (b.exponent - 2)

/-- The number itself. -/
def real (b : Binary) : ℚ := 4 * b.mantissa * b.unit

/-- The lower end of the interval of reals that round to the number. -/
def lower (b : Binary) : ℚ := (4 * b.mantissa - if b.lowest then 1 else 2) * b.unit

/-- The upper end of that interval. -/
def upper (b : Binary) : ℚ := (4 * b.mantissa + 2) * b.unit

/-- A real that rounds to the number. -/
def Covers (b : Binary) (x : ℚ) : Prop :=
  if b.mantissa % 2 = 0 then b.lower ≤ x ∧ x ≤ b.upper else b.lower < x ∧ x < b.upper

theorem unit_pos (b : Binary) : 0 < b.unit := by
  unfold unit
  positivity

theorem lower_lt_upper (b : Binary) : b.lower < b.upper := by
  have positive := b.unit_pos
  unfold lower upper
  refine mul_lt_mul_of_pos_right ?_ positive
  split <;> linarith

variable {b : Binary} {x : ℚ}

theorem Covers.lower_le (h : b.Covers x) : b.lower ≤ x := by
  unfold Covers at h
  split at h
  · exact h.1
  · exact h.1.le

theorem Covers.le_upper (h : b.Covers x) : x ≤ b.upper := by
  unfold Covers at h
  split at h
  · exact h.2
  · exact h.2.le

/-- Only an even number reaches the ends of its interval. -/
theorem Covers.even_of_end (h : b.Covers x) (atEnd : x = b.lower ∨ x = b.upper) :
    b.mantissa % 2 = 0 := by
  unfold Covers at h
  split at h
  · assumption
  · rcases atEnd with rfl | rfl
    · exact absurd h.1 (lt_irrefl _)
    · exact absurd h.2 (lt_irrefl _)

theorem covers_of_between (above : b.lower < x) (below : x < b.upper) : b.Covers x := by
  unfold Covers
  split
  · exact ⟨above.le, below.le⟩
  · exact ⟨above, below⟩

/-- The number that bits without a sign write. -/
def place (n : Nat) : Binary :=
  if n / 2 ^ 52 = 0 then ⟨n % 2 ^ 52, -1074, false⟩
  else ⟨2 ^ 52 + n % 2 ^ 52, (n / 2 ^ 52 : Nat) - 1075, n % 2 ^ 52 == 0 && n / 2 ^ 52 > 1⟩

/-- The sign does not count for the magnitude. -/
theorem ofBits_eq_place (bits : UInt64) : ofBits bits = place (bits.toNat % 2 ^ 63) := by
  have field : bits.toNat / 2 ^ 52 % 2048 = bits.toNat % 2 ^ 63 / 2 ^ 52 := by omega
  have fraction : bits.toNat % 2 ^ 52 = bits.toNat % 2 ^ 63 % 2 ^ 52 := by omega
  simp only [ofBits, place, Nat.pow_eq, ← field, ← fraction]
  rfl

theorem place_mantissa_lt (n : Nat) : (place n).mantissa < 2 ^ 53 := by
  unfold place
  split <;> dsimp only <;> omega

/-- Every number but zero is positive. -/
theorem place_mantissa_pos {n : Nat} (h : n ≠ 0) : 0 < (place n).mantissa := by
  unfold place
  split <;> dsimp only <;> omega

/-- Neighbours differ in parity. -/
theorem place_parity (n : Nat) : (place n).mantissa % 2 = n % 2 := by
  unfold place
  split <;> dsimp only <;> omega

/-- Below a number marked as such, the units are half as large. -/
theorem place_lowest {n : Nat} (h : (place n).lowest = true) : (place n).mantissa = 2 ^ 52 := by
  unfold place at h ⊢
  split at h
  · simp at h
  · rename_i field
    rw [if_neg field]
    simp only [Bool.and_eq_true, beq_iff_eq] at h
    dsimp only
    omega

/-- The interval of a number ends where that of the next one begins. -/
theorem lower_place_succ (n : Nat) : (place (n + 1)).lower = (place n).upper := by
  by_cases carry : n % 2 ^ 52 = 2 ^ 52 - 1
  · have fraction : (n + 1) % 2 ^ 52 = 0 := by omega
    have field : (n + 1) / 2 ^ 52 = n / 2 ^ 52 + 1 := by omega
    by_cases first : n / 2 ^ 52 = 0
    · simp only [place, first, carry, fraction, field, lower, upper, unit]
      refine congrArg₂ (· * ·) ?_ rfl
      norm_num
    · have larger : n / 2 ^ 52 + 1 > 1 := by omega
      have nonzero : n / 2 ^ 52 + 1 ≠ 0 := by omega
      have double : (2 : ℚ) ^ (((n / 2 ^ 52 + 1 : Nat) : Int) - 1075 - 2) =
          2 * (2 : ℚ) ^ (((n / 2 ^ 52 : Nat) : Int) - 1075 - 2) := by
        rw [← zpow_one_add₀ (by norm_num)]
        congr 1
        push_cast
        ring
      simp only [place, first, carry, fraction, field, lower, upper, unit, larger, nonzero,
        if_false, double, beq_self_eq_true, decide_true, Bool.and_self, if_true, ← mul_assoc]
      refine congrArg₂ (· * ·) ?_ rfl
      norm_num
  · have fraction : (n + 1) % 2 ^ 52 = n % 2 ^ 52 + 1 := by omega
    have field : (n + 1) / 2 ^ 52 = n / 2 ^ 52 := by omega
    have nonzero : (n % 2 ^ 52 + 1 == 0) = false := by simp
    simp only [place, fraction, field, lower, upper, unit, nonzero, Bool.false_and]
    split <;>
    · refine congrArg₂ (· * ·) ?_ rfl
      push_cast
      ring

/-- The ends of the intervals follow one another. -/
theorem upper_place_strictMono : StrictMono fun n => (place n).upper := by
  refine strictMono_nat_of_lt_succ fun n => ?_
  have next := (place (n + 1)).lower_lt_upper
  rw [lower_place_succ] at next
  exact next

/-- No real rounds to a number and to a later one. -/
theorem not_covers_of_lt {m n : Nat} (h : m < n) (hm : (place m).Covers x) :
    ¬ (place n).Covers x := by
  intro hn
  obtain ⟨k, rfl⟩ : ∃ k, n = k + 1 := ⟨n - 1, by omega⟩
  have low := hn.lower_le
  rw [lower_place_succ] at low
  have up := hm.le_upper
  have ordered : (place m).upper ≤ (place k).upper :=
    upper_place_strictMono.monotone (by omega : m ≤ k)
  have same : (place m).upper = (place k).upper := le_antisymm ordered (low.trans up)
  have adjacent : m = k := upper_place_strictMono.injective same
  subst adjacent
  -- The real is the common end, which would belong to two neighbours.
  have atEnd : x = (place m).upper := le_antisymm up low
  have evenm := hm.even_of_end (.inr atEnd)
  have evenn := hn.even_of_end (.inl (atEnd.trans (lower_place_succ m).symm))
  rw [place_parity] at evenm evenn
  omega

/-- A real rounds to one number at most. -/
theorem covers_unique {m n : Nat} (hm : (place m).Covers x) (hn : (place n).Covers x) : m = n := by
  rcases Nat.lt_trichotomy m n with less | same | more
  · exact absurd hn (not_covers_of_lt less hm)
  · exact same
  · exact absurd hm (not_covers_of_lt more hn)

end Binary

/-- Trailing zeros moved into the exponent leave the number as it is. -/
theorem value_trim (fuel : Nat) (d : Decimal) : (trim fuel d).value = d.value := by
  induction fuel generalizing d with
  | zero => rfl
  | succ fuel ih =>
      rw [trim]
      split
      · rename_i zeros
        simp only [Bool.and_eq_true, decide_eq_true_eq] at zeros
        rw [ih]
        have digits : (d.digits : ℚ) = (d.digits / 10 : Nat) * 10 := by
          exact_mod_cast (Nat.div_mul_cancel (Nat.dvd_of_mod_eq_zero zeros.2)).symm
        rw [value, value, digits, zpow_add_one₀ (by norm_num)]
        ring
      · rfl

/-- The power as a fraction. -/
theorem power_eq (e : Int) : ((power e).1 : ℚ) / (power e).2 = (10 : ℚ) ^ e := by
  unfold power
  split
  · rename_i sign
    obtain ⟨n, rfl⟩ := Int.eq_ofNat_of_zero_le sign
    simp [Nat.pow_eq]
  · rename_i sign
    obtain ⟨n, hn⟩ := Int.eq_ofNat_of_zero_le (show 0 ≤ -e by omega)
    obtain rfl : e = -n := by omega
    simp [Nat.pow_eq]

theorem power_pos (e : Int) : 0 < (power e).1 ∧ 0 < (power e).2 := by
  unfold power
  split <;> simp [Nat.pow_eq]

namespace Binary

variable {b : Binary}

/-- The quarter unit as a fraction. -/
theorem quarter_eq (b : Binary) : (b.quarter.1 : ℚ) / b.quarter.2 = b.unit := by
  unfold quarter unit
  dsimp only
  split
  · rename_i sign
    obtain ⟨n, hn⟩ := Int.eq_ofNat_of_zero_le sign
    simp [hn, Nat.pow_eq]
  · rename_i sign
    obtain ⟨n, hn⟩ := Int.eq_ofNat_of_zero_le (show 0 ≤ -(b.exponent - 2) by omega)
    have exponent : b.exponent - 2 = -n := by omega
    simp [exponent, Nat.pow_eq]

theorem quarter_pos (b : Binary) : 0 < b.quarter.1 ∧ 0 < b.quarter.2 := by
  unfold quarter
  dsimp only
  split <;> simp [Nat.pow_eq]

/-- The test of a decimal in natural numbers tells whether it rounds to the number. -/
theorem roundsTo_iff (positive : 0 < b.mantissa) (k : Nat) (e : Int) :
    roundsTo b k e = true ↔ b.Covers (value ⟨k, e⟩) := by
  obtain ⟨un, ud⟩ := b.quarter_pos
  obtain ⟨tn, td⟩ := power_pos e
  have hud : (0 : ℚ) < b.quarter.2 := by exact_mod_cast ud
  have htd : (0 : ℚ) < (power e).2 := by exact_mod_cast td
  have four : (1 : Nat) ≤ 4 * b.mantissa ∧ 2 ≤ 4 * b.mantissa := by omega
  have low : b.lower =
      ((4 * b.mantissa - if b.lowest then 1 else 2 : Nat) * b.quarter.1 : ℚ) / b.quarter.2 := by
    rw [lower, ← quarter_eq, mul_div_assoc]
    congr 1
    split
    · rw [Nat.cast_sub four.1]
      push_cast
      rfl
    · rw [Nat.cast_sub four.2]
      push_cast
      rfl
  have high : b.upper = ((4 * b.mantissa + 2 : Nat) * b.quarter.1 : ℚ) / b.quarter.2 := by
    rw [upper, ← quarter_eq, mul_div_assoc]
    push_cast
    rfl
  have real : value ⟨k, e⟩ = (k * (power e).1 : ℚ) / (power e).2 := by
    rw [value, ← power_eq, mul_div_assoc]
  unfold roundsTo Covers
  dsimp only
  rw [low, high, real]
  split
  · rw [div_le_div_iff₀ hud htd, div_le_div_iff₀ htd hud, Bool.and_eq_true, decide_eq_true_eq,
      decide_eq_true_eq]
    norm_cast
  · rw [div_lt_div_iff₀ hud htd, div_lt_div_iff₀ htd hud, Bool.and_eq_true, decide_eq_true_eq,
      decide_eq_true_eq]
    norm_cast

/-- What a grid offers rounds to the number. -/
theorem covers_of_onGrid (positive : 0 < b.mantissa) {e : Int} {k : Nat}
    (h : onGrid b e = some k) : b.Covers (value ⟨k, e⟩) := by
  rw [← roundsTo_iff positive]
  unfold onGrid at h
  dsimp only at h
  split at h
  · rename_i below above
    split at h
    · obtain rfl := Option.some.inj h
      exact below
    · split at h
      · obtain rfl := Option.some.inj h
        exact above
      · split at h
        · obtain rfl := Option.some.inj h
          exact below
        · obtain rfl := Option.some.inj h
          exact above
  · rename_i below _
    obtain rfl := Option.some.inj h
    exact below
  · rename_i _ above
    obtain rfl := Option.some.inj h
    exact above
  · simp at h

/-- A grid that is finer than the interval offers something. -/
theorem onGrid_ne_none (positive : 0 < b.mantissa) {e : Int}
    (fine : (10 : ℚ) ^ e < b.upper - b.lower) : onGrid b e ≠ none := by
  obtain ⟨un, ud⟩ := b.quarter_pos
  obtain ⟨tn, td⟩ := power_pos e
  set d := b.quarter.2 * (power e).1 with hd
  set k := 4 * b.mantissa * b.quarter.1 * (power e).2 / d with hk
  have ten : (0 : ℚ) < (10 : ℚ) ^ e := by positivity
  have ratio : b.real =
      ((4 * b.mantissa * b.quarter.1 * (power e).2 : Nat) / d : ℚ) * (10 : ℚ) ^ e := by
    have hun : (b.quarter.1 : ℚ) ≠ 0 := by exact_mod_cast un.ne'
    have hud : (b.quarter.2 : ℚ) ≠ 0 := by exact_mod_cast ud.ne'
    have htn : ((power e).1 : ℚ) ≠ 0 := by exact_mod_cast tn.ne'
    have htd : ((power e).2 : ℚ) ≠ 0 := by exact_mod_cast td.ne'
    rw [real, ← quarter_eq, ← power_eq, hd]
    push_cast
    field_simp
  have below : value ⟨k, e⟩ ≤ b.real := by
    rw [ratio, value]
    refine mul_le_mul_of_nonneg_right ?_ ten.le
    exact Nat.cast_div_le
  have above : b.real < value ⟨k + 1, e⟩ := by
    rw [ratio, value]
    refine mul_lt_mul_of_pos_right ?_ ten
    rw [div_lt_iff₀ (by exact_mod_cast Nat.mul_pos ud tn)]
    exact_mod_cast Nat.lt_mul_of_div_lt (Nat.lt_succ_self k) (Nat.mul_pos ud tn)
  have gap : value ⟨k + 1, e⟩ = value ⟨k, e⟩ + (10 : ℚ) ^ e := by
    simp only [value]
    push_cast
    ring
  have inside : b.lower < b.real ∧ b.real < b.upper := by
    have unit := b.unit_pos
    unfold lower upper real
    constructor
    · refine mul_lt_mul_of_pos_right ?_ unit
      split <;> linarith
    · refine mul_lt_mul_of_pos_right ?_ unit
      linarith
  have hit : roundsTo b k e = true ∨ roundsTo b (k + 1) e = true := by
    rw [roundsTo_iff positive, roundsTo_iff positive]
    by_cases low : b.lower < value ⟨k, e⟩
    · exact .inl (covers_of_between low (below.trans_lt inside.2))
    · refine .inr (covers_of_between (inside.1.trans above) ?_)
      rw [gap]
      linarith
  intro none
  unfold onGrid at none
  dsimp only at none
  rw [← hd, ← hk] at none
  split at none
  · split_ifs at none
  · simp at none
  · simp at none
  · rename_i notBelow notAbove
    rcases hit with below | above
    · exact Bool.noConfusion (below.symm.trans notBelow)
    · exact Bool.noConfusion (above.symm.trans notAbove)

/-- With seventeen digits a grid is finer than the interval, if the first digit stands for a power
of ten that is at most the number. -/
theorem grid_fine {n : Nat} {top : Int} (h : (10 : ℚ) ^ top ≤ (place n).real) :
    (10 : ℚ) ^ (top - 16) < (place n).upper - (place n).lower := by
  have unit := (place n).unit_pos
  have split : (10 : ℚ) ^ (top - 16) = (10 : ℚ) ^ top / 10 ^ 16 := by
    rw [zpow_sub₀ (by norm_num)]
    norm_cast
  rw [split, div_lt_iff₀ (by positivity)]
  refine h.trans_lt ?_
  have width : (place n).upper - (place n).lower =
      (if (place n).lowest then 3 else 4) * (place n).unit := by
    unfold upper lower
    split_ifs <;> ring
  rw [width, real, mul_right_comm _ (place n).unit]
  refine mul_lt_mul_of_pos_right ?_ unit
  split_ifs with lowest
  · rw [place_lowest lowest]
    norm_num
  · have bound : ((place n).mantissa : ℚ) < 2 ^ 53 := by exact_mod_cast place_mantissa_lt n
    linarith

/-- The search ends with a hit. -/
theorem covers_search (positive : 0 < b.mantissa) {top : Int}
    (fine : (10 : ℚ) ^ (top - 16) < b.upper - b.lower) (fuel digits : Nat) (some : 0 < fuel)
    (count : fuel + digits = 18) : b.Covers (search b top fuel digits).value := by
  induction fuel generalizing digits with
  | zero => omega
  | succ fuel ih =>
      rw [search]
      cases hit : onGrid b (top - ((digits : Int) - 1)) with
      | some k => exact covers_of_onGrid positive hit
      | none =>
          by_cases last : fuel = 0
          · have exponent : top - ((digits : Int) - 1) = top - 16 := by omega
            rw [exponent] at hit
            exact absurd hit (onGrid_ne_none positive fine)
          · exact ih (digits + 1) (by omega) (by omega)

end Binary

/-- A number has more digits than the power of ten below it. -/
theorem pow_width_le {n : Nat} (h : 0 < n) : 10 ^ (width n - 1) ≤ n := by
  by_contra more
  have positive : 0 < width n := Nat.length_toDigits_pos
  by_cases one : width n = 1
  · rw [one] at more
    omega
  · have fewer := (Nat.length_toDigits_le_iff (by decide : 1 < 10)
      (by omega : 0 < width n - 1)).mpr (by omega : n < 10 ^ (width n - 1))
    change width n ≤ width n - 1 at fewer
    omega

theorem lt_pow_width (n : Nat) : n < 10 ^ width n :=
  (Nat.length_toDigits_le_iff (by decide) Nat.length_toDigits_pos).mp (Nat.le_refl _)

/-- The first digit of a fraction stands for a power of ten that is at most the fraction. -/
theorem pow_magnitude_le {n d : Nat} (hn : 0 < n) (hd : 0 < d) :
    (10 : ℚ) ^ magnitude n d ≤ (n : ℚ) / d := by
  have hn' : (0 : ℚ) < n := by exact_mod_cast hn
  have hd' : (0 : ℚ) < d := by exact_mod_cast hd
  unfold magnitude
  split
  · rename_i large
    have quotient : 0 < n / d := Nat.div_pos large hd
    have width : ((width (n / d) : Int) - 1) = (width (n / d) - 1 : Nat) := by
      have positive : 0 < width (n / d) := Nat.length_toDigits_pos
      omega
    rw [width, zpow_natCast]
    calc ((10 : ℚ) ^ (Decimal.width (n / d) - 1)) ≤ (n / d : Nat) := by
          exact_mod_cast pow_width_le quotient
      _ ≤ (n : ℚ) / d := Nat.cast_div_le
  · rename_i small
    rw [zpow_neg, zpow_natCast, inv_le_comm₀ (by positivity) (by positivity), inv_div,
      div_le_iff₀ hn']
    -- The fraction's inverse, rounded up, is no larger than the power.
    have up : d ≤ (d + n - 1) / n * n := by
      have remainder := Nat.div_add_mod (d + n - 1) n
      have less := Nat.mod_lt (d + n - 1) hn
      rw [Nat.mul_comm] at remainder
      omega
    have power : (d + n - 1) / n ≤ 10 ^ Decimal.width ((d + n - 1) / n - 1) := by
      have less := lt_pow_width ((d + n - 1) / n - 1)
      omega
    exact_mod_cast up.trans (Nat.mul_le_mul_right n power)

/-- The shortest digits of a positive number round to it. -/
theorem covers_shortest {n : Nat} (h : n ≠ 0) :
    (Binary.place n).Covers (shortest (Binary.place n)).value := by
  have positive := Binary.place_mantissa_pos h
  obtain ⟨un, ud⟩ := (Binary.place n).quarter_pos
  unfold shortest
  dsimp only
  rw [value_trim]
  refine Binary.covers_search positive (Binary.grid_fine ?_) 17 1 (by omega) (by omega)
  have first := pow_magnitude_le (Nat.mul_pos (Nat.mul_pos (by omega : 0 < 4) positive) un) ud
  rw [Binary.real, ← Binary.quarter_eq, ← mul_div_assoc]
  exact_mod_cast first

/-- Numbers with the same shortest digits, up to zeros at their end, are the same. -/
theorem shortest_injective {m n : Nat} (hm : m ≠ 0) (hn : n ≠ 0)
    (h : (shortest (Binary.place m)).value = (shortest (Binary.place n)).value) : m = n :=
  Binary.covers_unique (covers_shortest hm) (h ▸ covers_shortest hn)

end Decimal
end HotReload
