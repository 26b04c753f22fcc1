import HotReload.Decimal.Layout
import HotReload.Proofs.Decimal.Rounding

/-!
# Numbers are told apart by their texts

Whatever a layout chooses, the text of a decimal can be read back: the digits, the place of the
point and the exponent give the decimal again (`Layout.numeral_positive`, `reading_eq`).  As the
shortest digits of a float name no other float of its sign, two finite floats with one text are the
same float (`Layout.text_injective`).
-/

namespace HotReload
namespace Decimal

/-- The integer that a sign and digits write. -/
def signed : List Char → Int
  | [] => 0
  | sign :: digits =>
    if sign = '-' then -(Nat.ofDigitChars 10 digits 0 : Int) else Nat.ofDigitChars 10 digits 0

/-- The number that digits write, some of them after a point, with an exponent. -/
def assembled (whole fraction : List Char) (exponent : Int) : ℚ :=
  Nat.ofDigitChars 10 (whole ++ fraction) 0 * (10 : ℚ) ^ (exponent - fraction.length)

/-- The number that a text writes which may hold a point and an exponent. -/
def reading (text : List Char) : ℚ :=
  let front := text.takeWhile (· ≠ 'e')
  let back := text.dropWhile (· ≠ 'e')
  assembled (front.takeWhile (· ≠ '.')) (front.dropWhile (· ≠ '.')).tail (signed back.tail)

/-- A text of digits, then a point and more digits or nothing, then an exponent or nothing. -/
structure Numeral (text whole point exponent : List Char) : Prop where
  parts : text = whole ++ (point ++ exponent)
  nonempty : whole ≠ []
  whole_digits : ∀ c ∈ whole, c.isDigit
  point_opens : ∀ c ∈ point.head?, c = '.'
  point_digits : ∀ c ∈ point.tail, c.isDigit
  exponent_opens : ∀ c ∈ exponent.head?, c = 'e'
  exponent_chars : ∀ c ∈ exponent.tail, c.isDigit ∨ c = '+' ∨ c = '-'

/-- A list is cut where the elements that `p` takes end. -/
theorem cut_append {p : Char → Bool} {front back : List Char} (hf : ∀ c ∈ front, p c = true)
    (hb : ∀ c ∈ back.head?, p c = false) :
    (front ++ back).takeWhile p = front ∧ (front ++ back).dropWhile p = back := by
  rw [List.takeWhile_append_of_pos hf, List.dropWhile_append_of_pos hf]
  cases back with
  | nil => simp
  | cons c back => simp [hb c rfl]

theorem ne_of_isDigit {c d : Char} (h : c.isDigit) (hd : d.isDigit = false) : c ≠ d := by
  rintro rfl
  simp [hd] at h

namespace Numeral

variable {text whole point exponent : List Char}

/-- The parts of a numeral are found again. -/
theorem reading_eq (h : Numeral text whole point exponent) :
    reading text = assembled whole point.tail (signed exponent.tail) := by
  have front : ∀ c ∈ whole ++ point, decide (c ≠ 'e') = true := by
    intro c hc
    rw [decide_eq_true_eq]
    rcases List.mem_append.mp hc with hc | hc
    · exact ne_of_isDigit (h.whole_digits c hc) rfl
    · cases point with
      | nil => simp at hc
      | cons d point =>
          rcases List.mem_cons.mp hc with rfl | hc
          · rw [h.point_opens c rfl]
            decide
          · exact ne_of_isDigit (h.point_digits c hc) rfl
  have back : ∀ c ∈ exponent.head?, decide (c ≠ 'e') = false := by
    intro c hc
    simpa using h.exponent_opens c hc
  have digits : ∀ c ∈ whole, decide (c ≠ '.') = true := by
    intro c hc
    rw [decide_eq_true_eq]
    exact ne_of_isDigit (h.whole_digits c hc) rfl
  have dot : ∀ c ∈ point.head?, decide (c ≠ '.') = false := by
    intro c hc
    simpa using h.point_opens c hc
  obtain ⟨take, drop⟩ := cut_append front back
  obtain ⟨take', drop'⟩ := cut_append digits dot
  rw [reading, h.parts, ← List.append_assoc, take, drop, take', drop']

/-- A numeral begins with a digit. -/
theorem head (h : Numeral text whole point exponent) : ∃ c rest, text = c :: rest ∧ c.isDigit := by
  cases whole with
  | nil => exact absurd rfl h.nonempty
  | cons c whole => exact ⟨c, _, h.parts, h.whole_digits c (by simp)⟩

/-- The characters of numerals. -/
theorem chars (h : Numeral text whole point exponent) {c : Char} (hc : c ∈ text) :
    c.isDigit ∨ c = '.' ∨ c = 'e' ∨ c = '+' ∨ c = '-' := by
  rw [h.parts, List.mem_append, List.mem_append] at hc
  rcases hc with hc | hc | hc
  · exact .inl (h.whole_digits c hc)
  · cases point with
    | nil => simp at hc
    | cons d point =>
        rcases List.mem_cons.mp hc with rfl | hc
        · exact .inr (.inl (h.point_opens c rfl))
        · exact .inl (h.point_digits c hc)
  · cases exponent with
    | nil => simp at hc
    | cons d exponent =>
        rcases List.mem_cons.mp hc with rfl | hc
        · exact .inr (.inr (.inl (h.exponent_opens c rfl)))
        · rcases h.exponent_chars c hc with digit | sign
          · exact .inl digit
          · exact .inr (.inr (.inr sign))

end Numeral

theorem isDigit_of_mem {n : Nat} {c : Char} (h : c ∈ Nat.toDigits 10 n) : c.isDigit :=
  Nat.isDigit_of_mem_toDigits (by decide) (by decide) h

theorem isDigit_of_zero {n : Nat} {c : Char} (h : c ∈ List.replicate n '0') : c.isDigit := by
  rw [(List.mem_replicate.mp h).2]
  decide

/-- The exponent is read back. -/
theorem signed_exponentText (e : Int) : signed (exponentText e).tail = e := by
  unfold exponentText signed
  by_cases h : e < 0
  · simp only [h, if_true, List.tail_cons, Nat.ofDigitChars_ten_toDigits]
    omega
  · have plus : ('+' = '-') = False := by decide
    simp only [h, plus, if_false, List.tail_cons, Nat.ofDigitChars_ten_toDigits]
    omega

/-- Digits with a point among them, or with zeros up to it. -/
theorem numeral_placePoint (keep : Bool) (n : Nat) (e : Int) :
    ∃ whole point, Numeral (placePoint keep (Nat.toDigits 10 n) (e + (Nat.toDigits 10 n).length))
        whole point [] ∧
      assembled whole point.tail 0 = value ⟨n, e⟩ := by
  set digits := Nat.toDigits 10 n with hdigits
  have all : ∀ c ∈ digits, c.isDigit := fun c hc => isDigit_of_mem hc
  have number : Nat.ofDigitChars 10 digits 0 = n := Nat.ofDigitChars_ten_toDigits
  have long : 0 < digits.length := Nat.length_toDigits_pos
  unfold placePoint
  by_cases left : e + digits.length ≤ 0
  · rw [if_pos left]
    refine ⟨['0'], '.' :: (List.replicate (-(e + digits.length)).toNat '0' ++ digits),
      ⟨by simp, by simp, by simp, by simp, ?_, by simp, by simp⟩, ?_⟩
    · intro c hc
      rcases List.mem_append.mp hc with hc | hc
      · exact isDigit_of_zero hc
      · exact all c hc
    · have places : (0 : Int) - (List.replicate (-(e + digits.length)).toNat '0' ++ digits).length =
          e := by
        simp only [List.length_append, List.length_replicate]
        omega
      rw [assembled, List.tail_cons, places, value]
      simp [Nat.ofDigitChars_cons, Nat.ofDigitChars_append, number]
  · rw [if_neg left]
    dsimp only
    by_cases right : digits.length ≤ (e + digits.length).toNat
    · rw [if_pos right]
      obtain ⟨zeros, rfl⟩ := Int.eq_ofNat_of_zero_le (by omega : 0 ≤ e)
      have count : (zeros + digits.length : Int).toNat - digits.length = zeros := by omega
      rw [count]
      refine ⟨digits ++ List.replicate zeros '0', if keep then ['.', '0'] else [],
        ⟨?_, ?_, ?_, ?_, ?_, by simp, by simp⟩, ?_⟩
      · cases keep <;> simp
      · simp [hdigits]
      · intro c hc
        rcases List.mem_append.mp hc with hc | hc
        · exact all c hc
        · exact isDigit_of_zero hc
      · cases keep <;> simp
      · cases keep <;> simp
      · cases keep with
        | true =>
            rw [assembled, value]
            simp [Nat.ofDigitChars_append, Nat.ofDigitChars_cons, number]
            ring
        | false =>
            rw [assembled, value]
            simp [Nat.ofDigitChars_append, number]
            ring
    · rw [if_neg right]
      refine ⟨digits.take (e + digits.length).toNat, '.' :: digits.drop (e + digits.length).toNat,
        ⟨by simp, ?_, ?_, by simp, ?_, by simp, by simp⟩, ?_⟩
      · rw [← List.length_pos_iff, List.length_take]
        omega
      · intro c hc
        exact all c (List.mem_of_mem_take hc)
      · intro c hc
        exact all c (List.mem_of_mem_drop hc)
      · have places : (0 : Int) - (digits.drop (e + digits.length).toNat).length = e := by
          rw [List.length_drop]
          omega
        rw [assembled, List.tail_cons, places, value, List.take_append_drop, number]

/-- Digits before an exponent. -/
theorem numeral_exponent (n : Nat) (e : Int) :
    ∃ whole point, Numeral (pointAfterFirst (Nat.toDigits 10 n) ++
          exponentText (e + (Nat.toDigits 10 n).length - 1))
        whole point (exponentText (e + (Nat.toDigits 10 n).length - 1)) ∧
      assembled whole point.tail (e + (Nat.toDigits 10 n).length - 1) = value ⟨n, e⟩ := by
  have all : ∀ c ∈ Nat.toDigits 10 n, c.isDigit := fun c hc => isDigit_of_mem hc
  have number : Nat.ofDigitChars 10 (Nat.toDigits 10 n) 0 = n := Nat.ofDigitChars_ten_toDigits
  have exponentChars : ∀ f : Int, ∀ c ∈ (exponentText f).tail,
      c.isDigit ∨ c = '+' ∨ c = '-' := by
    intro f c hc
    rcases List.mem_cons.mp hc with rfl | hc
    · split <;> simp
    · exact .inl (isDigit_of_mem hc)
  cases shape : Nat.toDigits 10 n with
  | nil => exact absurd shape Nat.toDigits_ne_nil
  | cons d ds =>
      rw [shape] at all number
      cases ds with
      | nil =>
          refine ⟨[d], [], ⟨rfl, by simp, all, by simp, by simp, ?_, exponentChars _⟩, ?_⟩
          · simp [exponentText]
          · rw [assembled, value]
            simp [number]
      | cons c cs =>
          refine ⟨[d], '.' :: c :: cs, ⟨rfl, by simp, ?_, by simp, ?_, ?_, exponentChars _⟩, ?_⟩
          · intro x hx
            exact all x (by simp_all)
          · intro x hx
            exact all x (List.mem_cons_of_mem _ hx)
          · simp [exponentText]
          · have places : e + (d :: c :: cs).length - 1 - (c :: cs).length = e := by
              simp only [List.length_cons]
              omega
            rw [assembled, value, List.tail_cons, places, List.singleton_append, number]

/-- The text of a decimal is a numeral that is read back. -/
theorem Layout.numeral_positive (l : Layout) (d : Decimal) :
    ∃ whole point exponent, Numeral (l.positive d) whole point exponent ∧
      reading (l.positive d) = d.value := by
  unfold Layout.positive
  dsimp only
  split
  · obtain ⟨whole, point, numeral, same⟩ := numeral_placePoint l.keepPoint d.digits d.exponent
    rw [Int.sub_add_cancel]
    exact ⟨whole, point, [], numeral, numeral.reading_eq.trans same⟩
  · obtain ⟨whole, point, numeral, same⟩ := numeral_exponent d.digits d.exponent
    refine ⟨whole, point, _, numeral, numeral.reading_eq.trans ?_⟩
    rw [signed_exponentText]
    exact same

/-- The magnitude of a float among those that bits write. -/
def index (x : Float) : Nat := x.toBits.toNat % 2 ^ 63

/-- Whether the sign of a float is set. -/
def isNegative (x : Float) : Bool := x.toBits.toNat ≥ 2 ^ 63

/-- A float that is a number and not infinite. -/
def IsFinite (x : Float) : Prop := x.isNaN = false ∧ x.isInf = false

/-- Sign and magnitude make up a float. -/
theorem eq_of_index {x y : Float} (sign : isNegative x = isNegative y) (h : index x = index y) :
    x = y := by
  have hx := x.toBits.toNat_lt
  have hy := y.toBits.toNat_lt
  have bits : x.toBits = y.toBits := by
    rw [← UInt64.toNat_inj]
    simp only [isNegative, index, decide_eq_decide] at sign h
    omega
  cases x with
  | ofModel m =>
      cases y with
      | ofModel n =>
          cases m
          cases n
          cases bits
          rfl

/-- The text of a magnitude. -/
def Layout.unsigned (l : Layout) (n : Nat) : List Char :=
  if n = 0 then '0' :: (if l.keepPoint then ".0".toList else [])
  else l.positive (shortest (Binary.place n))

/-- A finite float is written as its sign and its magnitude. -/
theorem Layout.text_eq (l : Layout) {x : Float} (h : IsFinite x) :
    l.text x = (if isNegative x then ['-'] else []) ++ l.unsigned (index x) := by
  have zero : (Binary.place (index x)).mantissa = 0 ↔ index x = 0 := by
    constructor
    · intro none
      by_contra some
      have positive := Binary.place_mantissa_pos some
      omega
    · intro none
      rw [none]
      rfl
  unfold Layout.text Layout.unsigned
  simp only [h.1, h.2, Bool.false_eq_true, if_false, Binary.ofBits_eq_place, Nat.pow_eq,
    isNegative, decide_eq_true_eq]
  change (if (Binary.place (index x)).mantissa = 0 then _ else _) = _
  simp only [zero]
  split <;> rfl

/-- A magnitude is a numeral. -/
theorem Layout.numeral_unsigned (l : Layout) (n : Nat) :
    ∃ whole point exponent, Numeral (l.unsigned n) whole point exponent ∧
      reading (l.unsigned n) = if n = 0 then 0 else (shortest (Binary.place n)).value := by
  unfold Layout.unsigned
  split
  · have shape : Numeral ('0' :: if l.keepPoint then ".0".toList else [])
        ['0'] (if l.keepPoint then ".0".toList else []) [] := by
      refine ⟨by simp, by simp, by simp, ?_, ?_, by simp, by simp⟩
      · cases l.keepPoint <;> simp
      · cases l.keepPoint <;> simp
    refine ⟨_, _, _, shape, shape.reading_eq.trans ?_⟩
    cases l.keepPoint <;> simp [assembled, Nat.ofDigitChars_cons]
  · exact l.numeral_positive _

/-- Nothing but zero is written as zero. -/
theorem value_shortest_pos {n : Nat} (h : n ≠ 0) : 0 < (shortest (Binary.place n)).value := by
  have positive := Binary.place_mantissa_pos h
  have one : (1 : ℚ) ≤ (Binary.place n).mantissa := by exact_mod_cast positive
  refine lt_of_lt_of_le ?_ (covers_shortest h).lower_le
  refine mul_pos ?_ (Binary.place n).unit_pos
  split <;> linarith

/-- Magnitudes are told apart by their texts. -/
theorem Layout.unsigned_injective (l : Layout) {m n : Nat} (h : l.unsigned m = l.unsigned n) :
    m = n := by
  obtain ⟨_, _, _, _, readm⟩ := l.numeral_unsigned m
  obtain ⟨_, _, _, _, readn⟩ := l.numeral_unsigned n
  have same := readm.symm.trans ((congrArg reading h).trans readn)
  by_cases hm : m = 0
  · by_cases hn : n = 0
    · rw [hm, hn]
    · rw [if_pos hm, if_neg hn] at same
      exact absurd same (value_shortest_pos hn).ne
  · by_cases hn : n = 0
    · rw [if_neg hm, if_pos hn] at same
      exact absurd same.symm (value_shortest_pos hm).ne
    · rw [if_neg hm, if_neg hn] at same
      exact shortest_injective hm hn same

/-- Finite floats are told apart by their texts. -/
theorem Layout.text_injective (l : Layout) {x y : Float} (hx : IsFinite x) (hy : IsFinite y)
    (h : l.text x = l.text y) : x = y := by
  rw [l.text_eq hx, l.text_eq hy] at h
  obtain ⟨_, _, _, numeralx, _⟩ := l.numeral_unsigned (index x)
  obtain ⟨_, _, _, numeraly, _⟩ := l.numeral_unsigned (index y)
  obtain ⟨c, restx, headx, digitx⟩ := numeralx.head
  obtain ⟨d, resty, heady, digity⟩ := numeraly.head
  have sign : isNegative x = isNegative y := by
    cases hx : isNegative x <;> cases hy : isNegative y
    · rfl
    · rw [hx, hy, headx] at h
      exact absurd (List.head_eq_of_cons_eq h) (ne_of_isDigit digitx rfl)
    · rw [hx, hy, heady] at h
      exact absurd (List.head_eq_of_cons_eq h).symm (ne_of_isDigit digity rfl)
    · rfl
  rw [sign] at h
  exact eq_of_index sign (l.unsigned_injective (List.append_cancel_left h))

end Decimal
end HotReload
