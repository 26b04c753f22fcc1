import HotReload.Json.Printer
import HotReload.Json.Reader

/-!
# Strings in JSON text

A string is written with marks around it and escapes inside.  The reader finds its end and gives
back its characters (`scanString_quoted`, `unescape_escaped`), so a string is told apart from every
other one, and from what follows it, by its text (`quoteChars_append_inj`).
-/

namespace HotReload
namespace Json

theorem hexValue_digit {n : Nat} (h : n < 16) : Text.hexValue? (Hex.digit n) = some n := by
  have all : ∀ n : Fin 16, Text.hexValue? (Hex.digit n) = some n.val := by decide
  exact all ⟨n, h⟩

/-- Four digits of a number that they can write. -/
theorem hexNumber_fixed {n : Nat} (h : n < 0x10000) : hexNumber (Hex.fixed 4 n) = n := by
  have digits := fun m : Nat => hexValue_digit (Nat.mod_lt m (by omega : 0 < 16))
  simp only [hexNumber, Hex.fixed, List.nil_append, List.cons_append, List.filterMap_cons, digits,
    List.filterMap_nil, Text.ofDigits, List.foldl_cons, List.foldl_nil]
  omega

/-- The four digits of an escaped character. -/
theorem fixed_four (n : Nat) : ∃ a b c d, Hex.fixed 4 n = [a, b, c, d] ∧
    [a, b, c, d].all (Text.hexValue? · |>.isSome) = true := by
  have digits := fun m : Nat => hexValue_digit (Nat.mod_lt m (by omega : 0 < 16))
  refine ⟨_, _, _, _, rfl, ?_⟩
  simp [digits]

/-- How a character is written: a letter after a backslash, four digits, or as itself. -/
theorem escape_cases (c : Char) :
    (∃ e, escape c = ['\\', e] ∧ e ≠ 'u' ∧ "\"\\/bfnrt".toList.contains e = true ∧
        letterEscape e = c) ∨
      (escape c = '\\' :: 'u' :: Hex.fixed 4 c.toNat ∧ c.toNat < 32) ∨
      (escape c = [c] ∧ c ≠ '"' ∧ c ≠ '\\' ∧ ¬ c.toNat < 32) := by
  unfold escape
  by_cases quote : c = '"'
  · exact .inl ⟨'"', by simp [quote], by decide, by decide, by rw [quote]; rfl⟩
  by_cases backslash : c = '\\'
  · exact .inl ⟨'\\', by simp [backslash], by decide, by decide, by rw [backslash]; rfl⟩
  by_cases feed : c = '\n'
  · exact .inl ⟨'n', by simp [feed], by decide, by decide, by rw [feed]; rfl⟩
  by_cases ret : c = '\r'
  · exact .inl ⟨'r', by simp [ret], by decide, by decide, by rw [ret]; rfl⟩
  by_cases tab : c = '\t'
  · exact .inl ⟨'t', by simp [tab], by decide, by decide, by rw [tab]; rfl⟩
  by_cases back : c = '\x08'
  · exact .inl ⟨'b', by simp [back], by decide, by decide, by rw [back]; rfl⟩
  by_cases form : c = '\x0c'
  · exact .inl ⟨'f', by simp [form], by decide, by decide, by rw [form]; rfl⟩
  by_cases control : c.toNat < 32
  · exact .inr (.inl ⟨by simp [*], control⟩)
  · exact .inr (.inr ⟨by simp [*], quote, backslash, control⟩)

theorem one_le_length_escape (c : Char) : 1 ≤ (escape c).length := by
  rcases escape_cases c with ⟨e, letter, _⟩ | ⟨digits, _⟩ | ⟨same, _⟩
  · simp [letter]
  · simp [digits]
  · simp [same]

theorem length_le_escaped (cs : List Char) : cs.length ≤ (cs.flatMap escape).length := by
  induction cs with
  | nil => exact Nat.le_refl 0
  | cons c cs ih =>
      have first := one_le_length_escape c
      rw [List.flatMap_cons, List.length_append, List.length_cons]
      omega

/-- The reader passes an escaped character. -/
theorem scanString_escape (read : List Char) (c : Char) (rest : List Char) :
    scanString read (escape c ++ rest) = scanString ((escape c).reverse ++ read) rest := by
  rcases escape_cases c with ⟨e, written, notU, letter, _⟩ | ⟨written, _⟩ |
    ⟨written, quote, backslash, control⟩
  · rw [written, List.cons_append, List.singleton_append, scanString]
    · rw [if_pos letter]
      rfl
    · simp [notU]
  · obtain ⟨a, b, c', d, digits, hex⟩ := fixed_four c.toNat
    rw [written, digits, List.cons_append, List.cons_append, List.cons_append, List.cons_append,
      List.cons_append, List.singleton_append, scanString, if_pos hex]
    rfl
  · rw [written, List.singleton_append, scanString]
    · rw [if_neg (by simp [control, backslash])]
      rfl
    · exact quote
    · simp [backslash]
    · simp [backslash]

/-- The reader passes escaped characters up to the closing mark. -/
theorem scanString_quoted (read cs rest : List Char) :
    scanString read (cs.flatMap escape ++ '"' :: rest) =
      some (read.reverse ++ cs.flatMap escape, rest) := by
  induction cs generalizing read with
  | nil => simp [scanString]
  | cons c cs ih =>
      rw [List.flatMap_cons, List.append_assoc, scanString_escape, ih]
      simp

/-- An escaped character stands for itself. -/
theorem unescape_escape (c : Char) (rest : List Char) :
    unescape (escape c ++ rest) = (unescape rest).map (c :: ·) := by
  rcases escape_cases c with ⟨e, written, notU, _, stands⟩ | ⟨written, control⟩ |
    ⟨written, _, backslash, _⟩
  · rw [written, List.cons_append, List.singleton_append, unescape]
    · rw [stands]
    · simp [notU]
    · simp [notU]
  · obtain ⟨a, b, c', d, digits, _⟩ := fixed_four c.toNat
    have number : hexNumber [a, b, c', d] = c.toNat := by
      rw [← digits, hexNumber_fixed (by omega)]
    have notHigh : isHigh c.toNat = false := by simp [isHigh]; omega
    have notLow : isLow c.toNat = false := by simp [isLow]; omega
    rw [written, digits, List.cons_append, List.cons_append, List.cons_append, List.cons_append,
      List.cons_append, List.singleton_append]
    rw [unescape.eq_def]
    split
    · simp_all
    · rename_i next _ _ _ _ _ _ _ _ _ equal
      simp only [List.cons.injEq] at equal
      obtain ⟨-, -, rfl, rfl, rfl, rfl, rfl⟩ := equal
      simp only [number, notHigh, notLow, Bool.false_eq_true, if_false, Char.ofNat_toNat]
    · rename_i equal
      simp only [List.cons.injEq] at equal
      obtain ⟨-, -, rfl, rfl, rfl, rfl, rfl⟩ := equal
      simp only [number, notHigh, notLow, Bool.or_self, Bool.false_eq_true, if_false,
        Char.ofNat_toNat]
    · rename_i other equal
      simp only [List.cons.injEq] at equal
      exact absurd equal.2.2.symm (other _ _ _ _ _ equal.2.1.symm)
    · rename_i other equal
      simp only [List.cons.injEq] at equal
      exact absurd equal.2.symm (other _ _ equal.1.symm)
  · rw [written, List.singleton_append, unescape]
    · simp [backslash]
    · simp [backslash]
    · simp [backslash]

/-- Escaped characters stand for themselves. -/
theorem unescape_escaped (cs : List Char) : unescape (cs.flatMap escape) = some cs := by
  induction cs with
  | nil => rw [List.flatMap_nil, unescape]
  | cons c cs ih => rw [List.flatMap_cons, unescape_escape, ih, Option.map_some]

/-- A string is told apart from others and from what follows it. -/
theorem quoteChars_append_inj {a b r s : List Char} (h : quoteChars a ++ r = quoteChars b ++ s) :
    a = b ∧ r = s := by
  have inside : a.flatMap escape ++ '"' :: r = b.flatMap escape ++ '"' :: s := by
    simpa [quoteChars] using h
  have scanned := congrArg (scanString []) inside
  rw [scanString_quoted, scanString_quoted] at scanned
  simp only [List.reverse_nil, List.nil_append, Option.some.injEq, Prod.mk.injEq] at scanned
  have cooked := congrArg unescape scanned.1
  rw [unescape_escaped, unescape_escaped] at cooked
  exact ⟨Option.some.inj cooked, scanned.2⟩

end Json
end HotReload
