import HotReload.Script.Reader

/-!
# What scanners take

Every scanner gives back a cursor that stands further on in the same text: the characters between
the two cursors are those that it took, and the offset has grown by the bytes of these characters.
This is `Cursor.Reaches`.  It is shown for one scanner after the other, up to `scanToken_spans`,
which also places the token that was scanned.
-/

namespace HotReload
namespace Script

open Text

namespace Cursor

/-- The second cursor stands further on in the text of the first one. -/
def Reaches (c d : Cursor) : Prop :=
  ∃ taken, c.text = taken ++ d.text ∧ d.offset = c.offset + byteLength taken

theorem Reaches.refl (c : Cursor) : c.Reaches c := ⟨[], rfl, rfl⟩

theorem Reaches.trans {c d e : Cursor} (h : c.Reaches d) (h' : d.Reaches e) : c.Reaches e := by
  obtain ⟨taken, text, offset⟩ := h
  obtain ⟨taken', text', offset'⟩ := h'
  refine ⟨taken ++ taken', ?_, ?_⟩
  · rw [text, text', List.append_assoc]
  · rw [offset', offset, byteLength_append, Nat.add_assoc]

theorem Reaches.offset_le {c d : Cursor} (h : c.Reaches d) : c.offset ≤ d.offset := by
  obtain ⟨taken, _, offset⟩ := h
  omega

/-- A cursor reaches the place after a known front of its text. -/
theorem reaches_front (offset : Nat) (taken rest : List Char) :
    Reaches ⟨offset, taken ++ rest⟩ ⟨offset + byteLength taken, rest⟩ := ⟨taken, rfl, rfl⟩

/-- A cursor whose text has a known front. -/
theorem reaches_of_text {c : Cursor} (taken : List Char) {rest : List Char}
    (h : c.text = taken ++ rest) : c.Reaches ⟨c.offset + byteLength taken, rest⟩ := ⟨taken, h, rfl⟩

theorem reaches_skip (c : Cursor) : c.Reaches c.skip := by
  obtain ⟨offset, text⟩ := c
  cases text with
  | nil => exact Reaches.refl _
  | cons ch rest => exact reaches_front offset [ch] rest

theorem offset_lt_skip {c : Cursor} (h : c.text ≠ []) : c.offset < c.skip.offset := by
  obtain ⟨offset, text⟩ := c
  cases text with
  | nil => exact absurd rfl h
  | cons ch rest =>
      have positive := Char.utf8Size_pos ch
      change offset < offset + ch.utf8Size
      omega

/-- What comes after a character that is there comes after the cursor. -/
theorem Reaches.offset_lt {c d : Cursor} (h : c.skip.Reaches d) (hc : c.text ≠ []) :
    c.offset < d.offset := Nat.lt_of_lt_of_le (offset_lt_skip hc) h.offset_le

theorem reaches_drop (n : Nat) (c : Cursor) : c.Reaches (c.drop n) := by
  induction n generalizing c with
  | zero => exact Reaches.refl c
  | succ n ih => exact (reaches_skip c).trans (ih c.skip)

end Cursor

open Cursor

theorem utf8Size_of_le {c : Char} (h : c ≤ '\x7f') : c.utf8Size = 1 := by
  have small : c.val ≤ 0x7f := h
  simp [Char.utf8Size, small]

theorem utf8Size_of_isDigit {c : Char} (h : isDigit c) : c.utf8Size = 1 := by
  simp only [isDigit, Bool.and_eq_true, decide_eq_true_eq] at h
  exact utf8Size_of_le (Char.le_trans h.2 (by decide))

theorem utf8Size_of_hexValue? {c : Char} {n : Nat} (h : hexValue? c = some n) :
    c.utf8Size = 1 := by
  unfold hexValue? at h
  split at h
  next digit => exact utf8Size_of_isDigit digit
  · split at h
    next lower =>
      simp only [Bool.and_eq_true, decide_eq_true_eq] at lower
      exact utf8Size_of_le (Char.le_trans lower.2 (by decide))
    · split at h
      next upper =>
        simp only [Bool.and_eq_true, decide_eq_true_eq] at upper
        exact utf8Size_of_le (Char.le_trans upper.2 (by decide))
      · simp at h

theorem utf8Size_of_isHexDigit {c : Char} (h : isHexDigit c) : c.utf8Size = 1 := by
  obtain ⟨n, value⟩ := Option.isSome_iff_exists.mp h
  exact utf8Size_of_hexValue? value

theorem utf8Size_of_isOctalDigit {c : Char} (h : isOctalDigit c) : c.utf8Size = 1 := by
  simp only [isOctalDigit, Bool.and_eq_true, decide_eq_true_eq] at h
  exact utf8Size_of_le (Char.le_trans h.2 (by decide))

theorem utf8Size_of_isBinaryDigit {c : Char} (h : isBinaryDigit c) : c.utf8Size = 1 := by
  simp only [isBinaryDigit, Bool.or_eq_true, decide_eq_true_eq] at h
  rcases h with rfl | rfl <;> rfl

theorem skipTrivia_reaches (around : Surround) (line : Bool) (offset : Nat) (cs : List Char)
    {line' : Bool} {next : Cursor} (h : skipTrivia around line offset cs = .ok (line', next)) :
    Reaches ⟨offset, cs⟩ next := by
  fun_induction skipTrivia around line offset cs with
  | case1 => simp at h
  | case2 | case3 | case14 =>
      -- The text goes on with code, or is over.
      simp only [Except.ok.injEq, Prod.mk.injEq] at h
      exact h.2 ▸ Reaches.refl _
  | case4 _ offset cs ih | case5 _ offset cs ih =>
      exact (reaches_front offset ['*', '/'] cs).trans (ih h)
  | case6 _ offset cs ih | case7 _ offset cs ih =>
      exact (reaches_front offset ['/', '/'] cs).trans (ih h)
  | case9 _ offset cs ih | case10 _ offset cs ih =>
      exact (reaches_front offset ['/', '*'] cs).trans (ih h)
  | case8 _ offset cs ih | case11 _ offset cs ih =>
      exact (reaches_front offset ['/'] _).trans (ih h)
  | case12 _ offset c cs _ _ _ _ _ ih | case15 _ offset c cs _ _ _ _ _ ih =>
      exact (reaches_front offset [c] cs).trans (ih h)
  | case13 _ offset c cs _ _ _ _ _ _ ih => exact (reaches_front offset [c] cs).trans (ih h)
  | case16 _ offset c cs _ _ _ _ _ ih => exact (reaches_front offset [c] cs).trans (ih h)
  | case17 _ offset c cs _ _ _ _ ih => exact (reaches_front offset [c] cs).trans (ih h)

theorem scanCodePoint_reaches (n : Nat) (digits : Bool) (c : Cursor) {m : Nat} {next : Cursor}
    (h : scanCodePoint n digits c = some (m, next)) : c.Reaches next := by
  fun_induction scanCodePoint n digits c with
  | case1 n offset cs =>
      simp only [Option.some.injEq, Prod.mk.injEq] at h
      exact h.2 ▸ reaches_front offset ['\x7d'] cs
  | case3 n digits offset c cs _ d value _ ih =>
      have step := reaches_front offset [c] cs
      rw [byteLength, utf8Size_of_hexValue? value] at step
      exact step.trans (ih h)
  | _ => simp at h

/-- Hexadecimal digits that all have a value take one byte each. -/
theorem byteLength_of_hexValues {cs : List Char} (h : (cs.filterMap hexValue?).length = cs.length) :
    byteLength cs = cs.length := by
  induction cs with
  | nil => rfl
  | cons c cs ih =>
      have atMost := List.length_filterMap_le hexValue? cs
      cases value : hexValue? c with
      | none =>
          rw [List.filterMap_cons_none value, List.length_cons] at h
          omega
      | some n =>
          rw [List.filterMap_cons_some value, List.length_cons, List.length_cons] at h
          rw [byteLength, utf8Size_of_hexValue? value, ih (by omega), List.length_cons]
          omega

theorem scanUnicodeEscape_reaches {c : Cursor} {m : Nat} {next : Cursor}
    (h : scanUnicodeEscape c = some (m, next)) : c.Reaches next := by
  unfold scanUnicodeEscape at h
  split at h
  next cs text =>
    exact (reaches_of_text ['\x7b'] text).trans (scanCodePoint_reaches _ _ _ h)
  next a b d e cs _ text =>
    dsimp only at h
    split at h
    next full =>
      simp only [Option.some.injEq, Prod.mk.injEq] at h
      have step := reaches_of_text [a, b, d, e] text
      rw [byteLength_of_hexValues full] at step
      exact h.2 ▸ step
    · simp at h
  · simp at h

theorem scanByteEscape_reaches {c : Cursor} {m : Nat} {next : Cursor}
    (h : scanByteEscape c = some (m, next)) : c.Reaches next := by
  unfold scanByteEscape at h
  split at h
  next a b cs text =>
    dsimp only at h
    split at h
    next full =>
      simp only [Option.some.injEq, Prod.mk.injEq] at h
      have step := reaches_of_text [a, b] text
      rw [byteLength_of_hexValues full] at step
      exact h.2 ▸ step
    · simp at h
  · simp at h

theorem scanWord_reaches (n : Nat) (read : List Char) (escaped : Bool) (c : Cursor)
    {name : List Char} {escaped' : Bool} {next : Cursor}
    (h : scanWord n read escaped c = .ok (name, escaped', next)) : c.Reaches next := by
  fun_induction scanWord n read escaped c with
  | case1 | case7 | case8 =>
      simp only [Except.ok.injEq, Prod.mk.injEq] at h
      exact h.2.2 ▸ Reaches.refl _
  | case2 n read escaped c _ cs text m next' value _ ih =>
      have front := reaches_of_text ['\\', 'u'] text
      exact (front.trans (scanUnicodeEscape_reaches value)).trans (ih h)
  | case6 n read escaped c _ _ _ _ _ _ _ ih => exact (reaches_skip c).trans (ih h)
  | _ => simp at h

/-- A count of characters, continued on a text, is a count of bytes. -/
def Counts (n : Nat) (cs : List Char) (result : Option (Nat × List Char)) : Prop :=
  ∀ m rest, result = some (m, rest) → ∃ taken, cs = taken ++ rest ∧ m = n + byteLength taken

theorem Counts.none (n : Nat) (cs : List Char) : Counts n cs .none := by
  intro m rest h
  simp at h

theorem Counts.here (n : Nat) (cs : List Char) : Counts n cs (some (n, cs)) := by
  intro m rest h
  simp only [Option.some.injEq, Prod.mk.injEq] at h
  exact ⟨[], h.2, h.1.symm⟩

/-- A count may start with a front of known length. -/
theorem Counts.after {n k : Nat} (front : List Char) {cs : List Char}
    {result : Option (Nat × List Char)} (h : Counts k cs result)
    (size : n + byteLength front = k) : Counts n (front ++ cs) result := by
  intro m rest found
  obtain ⟨taken, rfl, count⟩ := h m rest found
  refine ⟨front ++ taken, (List.append_assoc _ _ _).symm, ?_⟩
  rw [count, byteLength_append, ← size, Nat.add_assoc]

/-- A count that started with a text of its own. -/
def Counted (cs : List Char) (result : Option (Nat × List Char)) : Prop :=
  ∀ m rest, result = some (m, rest) → 0 < m ∧ ∃ taken, cs = taken ++ rest ∧ m = byteLength taken

theorem Counted.none (cs : List Char) : Counted cs .none := by
  intro m rest h
  simp at h

/-- A count goes on after a first character of one byte. -/
theorem Counts.started {c : Char} {cs : List Char} {result : Option (Nat × List Char)}
    (h : Counts 1 cs result) (size : c.utf8Size = 1) : Counted (c :: cs) result := by
  intro m rest found
  obtain ⟨taken, rfl, count⟩ := h m rest found
  refine ⟨by omega, c :: taken, rfl, ?_⟩
  rw [count, byteLength, size]

theorem Counts.bind {n : Nat} {cs : List Char} {result : Option (Nat × List Char)}
    {f : Nat × List Char → Option (Nat × List Char)} (h : Counts n cs result)
    (hf : ∀ m rest, Counts m rest (f (m, rest))) : Counts n cs (result.bind f) := by
  intro m rest found
  obtain ⟨⟨k, mid⟩, first, second⟩ := Option.bind_eq_some_iff.mp found
  obtain ⟨taken, rfl, rfl⟩ := h k mid first
  obtain ⟨taken', rfl, rfl⟩ := hf _ _ m rest second
  refine ⟨taken ++ taken', (List.append_assoc _ _ _).symm, ?_⟩
  rw [byteLength_append, Nat.add_assoc]

/-- A character of one byte counts as one. -/
theorem count_of_size (n : Nat) {c : Char} (h : c.utf8Size = 1) : n + byteLength [c] = n + 1 := by
  rw [byteLength, h]
  rfl

section Digits

variable {digit : Char → Bool} (hd : ∀ c, digit c → c.utf8Size = 1)

include hd

theorem moreDigits_counts (n : Nat) (cs : List Char) : Counts n cs (moreDigits digit n cs) := by
  fun_induction moreDigits digit n cs with
  | case1 n c cs isDigit ih =>
      exact (ih.after [c] (count_of_size (n + 1) (hd c isDigit))).after ['_'] rfl
  | case4 n c cs _ _ isDigit ih =>
      exact ih.after [c] (count_of_size n (hd c isDigit))
  | case2 | case3 => exact Counts.none _ _
  | case5 | case6 => exact Counts.here _ _

theorem someDigits_counts (n : Nat) (cs : List Char) : Counts n cs (someDigits digit n cs) := by
  unfold someDigits
  split
  next c cs =>
    split
    next isDigit =>
      exact (moreDigits_counts hd (n + 1) cs).after [c]
        (count_of_size n (hd c isDigit))
    · exact Counts.none _ _
  · exact Counts.none _ _

end Digits

theorem signedDigits_counts (n : Nat) (cs : List Char) : Counts n cs (signedDigits n cs) := by
  have some_ (m : Nat) (rest : List Char) : Counts m rest (someDigits isDigit m rest) :=
    someDigits_counts (fun _ => utf8Size_of_isDigit) m rest
  unfold signedDigits
  split
  · exact (some_ (n + 1) _).after ['+'] rfl
  · exact (some_ (n + 1) _).after ['-'] rfl
  · exact some_ n _

theorem exponentPart_counts (n : Nat) (cs : List Char) : Counts n cs (exponentPart n cs) := by
  unfold exponentPart
  split
  next e cs =>
    split
    next letter =>
      have size : e.utf8Size = 1 := by
        simp only [Bool.or_eq_true, decide_eq_true_eq] at letter
        rcases letter with rfl | rfl <;> rfl
      exact (signedDigits_counts (n + 1) cs).after [e] (count_of_size n size)
    · exact Counts.here _ _
  · exact Counts.here _ _

theorem afterPoint_counts (n : Nat) (cs : List Char) : Counts n cs (afterPoint n cs) := by
  unfold afterPoint
  split
  next c cs =>
    split
    next digit =>
      have more := moreDigits_counts (fun _ => utf8Size_of_isDigit) (n + 1) cs
      refine (Counts.bind more ?_).after [c] (count_of_size n (utf8Size_of_isDigit digit))
      exact fun m rest => exponentPart_counts m rest
    · exact exponentPart_counts n _
  · exact Counts.here n []

theorem afterWhole_counts (n : Nat) (cs : List Char) : Counts n cs (afterWhole n cs) := by
  unfold afterWhole
  split
  · exact (afterPoint_counts (n + 1) _).after ['.'] rfl
  next cs => exact (Counts.here (n + 1) cs).after ['n'] rfl
  · exact exponentPart_counts n _

theorem basedNumber_counts {digit : Char → Bool} (hd : ∀ c, digit c → c.utf8Size = 1)
    (cs : List Char) : Counts 2 cs (basedNumber digit cs) := by
  have digits := someDigits_counts hd 2 cs
  unfold basedNumber
  split
  next n rest found =>
    intro m rest' h
    simp only [Option.some.injEq, Prod.mk.injEq] at h
    obtain ⟨rfl, rfl⟩ := h
    obtain ⟨taken, rfl, rfl⟩ := digits _ _ found
    refine ⟨taken ++ ['n'], by simp, ?_⟩
    rw [byteLength_append]
    rfl
  next => exact digits

theorem byteLength_of_all {digit : Char → Bool} (hd : ∀ c, digit c → c.utf8Size = 1)
    {cs : List Char} (h : cs.all digit) : byteLength cs = cs.length := by
  induction cs with
  | nil => rfl
  | cons c cs ih =>
      rw [List.all_cons, Bool.and_eq_true] at h
      rw [byteLength, hd c h.1, ih h.2, List.length_cons, Nat.add_comm]

theorem zeroLedNumber_counts (cs : List Char) : Counts 1 cs (zeroLedNumber cs) := by
  have size : byteLength (cs.takeWhile isDigit) = (cs.takeWhile isDigit).length :=
    byteLength_of_all (fun _ => utf8Size_of_isDigit) List.all_takeWhile
  have split_ : Counts 1 (cs.takeWhile isDigit ++ cs.dropWhile isDigit) (zeroLedNumber cs) := by
    refine Counts.after _ ?_ (by rw [size, Nat.add_comm])
    unfold zeroLedNumber
    dsimp only
    split
    · exact Counts.here _ _
    · split
      · exact Counts.here _ _
      · exact afterWhole_counts _ _
  rwa [List.takeWhile_append_dropWhile] at split_

theorem afterZero_counts (cs : List Char) : Counts 1 cs (afterZero cs) := by
  unfold afterZero
  split
  next c cs =>
    have letter {a b : Char} (ha : a.utf8Size = 1) (hb : b.utf8Size = 1)
        (h : (c = a || c = b) = true) : 1 + byteLength [c] = 2 := by
      simp only [Bool.or_eq_true, decide_eq_true_eq] at h
      rcases h with rfl | rfl
      · exact count_of_size 1 ha
      · exact count_of_size 1 hb
    split
    next x =>
      exact (basedNumber_counts (fun _ => utf8Size_of_isHexDigit) cs).after [c] (letter rfl rfl x)
    · split
      next o =>
        exact (basedNumber_counts (fun _ => utf8Size_of_isOctalDigit) cs).after [c]
          (letter rfl rfl o)
      · split
        next b =>
          exact (basedNumber_counts (fun _ => utf8Size_of_isBinaryDigit) cs).after [c]
            (letter rfl rfl b)
        · split
          · exact zeroLedNumber_counts _
          · exact afterWhole_counts 1 _
  · exact Counts.here 1 []

theorem scanNumber_counted (cs : List Char) : Counted cs (scanNumber cs) := by
  unfold scanNumber
  split
  · exact (afterZero_counts _).started rfl
  next cs =>
    have digits := someDigits_counts (fun _ => utf8Size_of_isDigit) 1 cs
    refine (Counts.bind digits ?_).started rfl
    exact fun m rest => exponentPart_counts m rest
  next c cs _ _ =>
    split
    next digit =>
      have digits := moreDigits_counts (fun _ => utf8Size_of_isDigit) 1 cs
      refine (Counts.bind digits ?_).started (utf8Size_of_isDigit digit)
      exact fun m rest => afterWhole_counts m rest
    · exact Counted.none _
  · exact Counted.none _

theorem octalEscape_reaches (first : Nat) (c : Cursor) : c.Reaches (octalEscape first c).2 := by
  unfold octalEscape
  split
  · exact Reaches.refl c
  · split
    · split
      · exact reaches_skip c
      · exact (reaches_skip c).trans (reaches_skip _)
    · exact reaches_skip c

theorem valued_reaches {c mid : Cursor} {escape : Option (Nat × Cursor)} {value : Option Unit16}
    {next : Cursor} (hmid : ∀ n d, escape = some (n, d) → mid.Reaches d)
    (h : valued c escape = .ok (value, next)) : mid.Reaches next := by
  unfold valued at h
  split at h
  next n d =>
    simp only [Except.ok.injEq, Prod.mk.injEq] at h
    exact h.2 ▸ hmid n d rfl
  · simp at h

theorem scanEscape_reaches {c : Cursor} {value : Option Unit16} {next : Cursor}
    (h : scanEscape c = .ok (value, next)) : c.Reaches next := by
  unfold scanEscape at h
  split at h
  · simp at h
  · simp only [Except.ok.injEq, Prod.mk.injEq] at h
    exact h.2 ▸ reaches_drop 2 c
  next ch _ _ _ =>
    split at h
    · simp only [Except.ok.injEq, Prod.mk.injEq] at h
      exact h.2 ▸ reaches_skip c
    · refine (reaches_skip c).trans ?_
      split at h
      · exact valued_reaches (fun _ _ => scanByteEscape_reaches) h
      · split at h
        · exact valued_reaches (fun _ _ => scanUnicodeEscape_reaches) h
        · split at h
          · refine valued_reaches (fun n d octal => ?_) h
            have reached := octalEscape_reaches (digitValue ch) c.skip
            rw [Option.some.inj octal] at reached
            exact reached
          · simp only [Except.ok.injEq, Prod.mk.injEq] at h
            exact h.2 ▸ Reaches.refl _

theorem scanUnits_reaches (n : Nat) (mark : Char) (read : List Unit16) (c : Cursor)
    {units : List Unit16} {next : Cursor} (h : scanUnits n mark read c = .ok (units, next)) :
    c.Reaches next := by
  fun_induction scanUnits n mark read c with
  | case3 _ _ c =>
      simp only [Except.ok.injEq, Prod.mk.injEq] at h
      exact h.2 ▸ reaches_skip c
  | case5 _ _ _ c _ _ _ found _ _ ih | case6 _ _ _ c _ _ found _ _ ih =>
      exact ((reaches_skip c).trans (scanEscape_reaches found)).trans (ih h)
  | case8 _ _ _ c _ _ _ _ _ _ ih => exact (reaches_skip c).trans (ih h)
  | _ => simp at h

theorem scanTemplate_reaches (n : Nat) (ok : Bool) (c : Cursor) {last ok' : Bool} {next : Cursor}
    (h : scanTemplate n ok c = .ok (last, ok', next)) : c.Reaches next := by
  fun_induction scanTemplate n ok c with
  | case3 _ _ c =>
      simp only [Except.ok.injEq, Prod.mk.injEq] at h
      exact h.2.2 ▸ reaches_skip c
  | case4 _ _ c =>
      simp only [Except.ok.injEq, Prod.mk.injEq] at h
      exact h.2.2 ▸ reaches_drop 2 c
  | case6 _ _ c _ _ _ ih => exact (reaches_drop 2 c).trans (ih h)
  | case7 _ _ c _ _ _ _ _ _ _ ih => exact (reaches_skip c).trans (ih h)
  | _ => simp at h

theorem scanPatternBody_text {n : Nat} {inClass : Bool} {c next : Cursor}
    (h : scanPatternBody n inClass c = .ok next) : c.text ≠ [] := by
  intro nothing
  cases n with
  | zero => simp [scanPatternBody] at h
  | succ n => simp [scanPatternBody, nothing] at h

theorem scanTemplate_text {n : Nat} {ok last ok' : Bool} {c next : Cursor}
    (h : scanTemplate n ok c = .ok (last, ok', next)) : c.text ≠ [] := by
  intro nothing
  cases n with
  | zero => simp [scanTemplate] at h
  | succ n => simp [scanTemplate, nothing] at h

theorem scanPatternBody_reaches (n : Nat) (inClass : Bool) (c : Cursor) {next : Cursor}
    (h : scanPatternBody n inClass c = .ok next) : c.Reaches next := by
  fun_induction scanPatternBody n inClass c with
  | case4 _ _ c _ _ _ _ ih => exact (reaches_drop 2 c).trans (ih h)
  | case6 _ _ c =>
      rw [Except.ok.injEq] at h
      exact h ▸ reaches_skip c
  | case7 _ _ c _ _ _ _ _ ih => exact (reaches_skip c).trans (ih h)
  | case8 _ _ c _ _ _ _ _ _ ih => exact (reaches_skip c).trans (ih h)
  | case9 _ _ c _ _ _ _ _ _ _ _ ih => exact (reaches_skip c).trans (ih h)
  | _ => simp at h

theorem scanFlags_reaches {c next : Cursor} (h : scanFlags c = .ok next) : c.Reaches next := by
  unfold scanFlags at h
  dsimp only at h
  split at h
  · rw [Except.ok.injEq] at h
    exact h ▸ reaches_drop _ c
  · simp at h

theorem scanPattern_reaches {bound : Nat} {c next : Cursor} (h : scanPattern bound c = .ok next) :
    c.Reaches next := by
  unfold scanPattern at h
  cases body : scanPatternBody bound false c with
  | error fault =>
      rw [body] at h
      simp [Except.bind] at h
  | ok mid =>
      rw [body] at h
      exact (scanPatternBody_reaches _ _ _ body).trans (scanFlags_reaches h)

theorem scanPattern_text {bound : Nat} {c next : Cursor} (h : scanPattern bound c = .ok next) :
    c.text ≠ [] := by
  unfold scanPattern at h
  cases body : scanPatternBody bound false c with
  | error fault =>
      rw [body] at h
      simp [Except.bind] at h
  | ok mid => exact scanPatternBody_text body

/-- A token that was scanned between two cursors; only the end of the text takes no characters. -/
structure Token.Spans (t : Token) (c next : Cursor) : Prop where
  reaches : c.Reaches next
  start : t.start = c.offset
  stop : t.stop = next.offset
  nonempty : t.kind = .finish ∨ c.offset < next.offset

section Tokens

variable {bound : Nat} {line : Bool} {c : Cursor} {t : Token} {next : Cursor}

theorem Token.give_spans {kind : Kind} {mid : Cursor} (hmid : c.Reaches mid)
    (nonempty : kind = .finish ∨ c.offset < mid.offset)
    (h : Token.give kind line c mid = .ok (t, next)) : t.Spans c next := by
  simp only [Token.give, Except.ok.injEq, Prod.mk.injEq] at h
  obtain ⟨rfl, rfl⟩ := h
  exact ⟨hmid, rfl, rfl, nonempty⟩

/-- A token whose first character is skipped before the rest of it is scanned. -/
theorem Token.give_spans_skip {kind : Kind} {mid : Cursor} (hc : c.text ≠ [])
    (hmid : c.skip.Reaches mid) (h : Token.give kind line c mid = .ok (t, next)) :
    t.Spans c next :=
  Token.give_spans ((reaches_skip c).trans hmid) (.inr (hmid.offset_lt hc)) h

theorem scanNumeral_spans (h : scanNumeral line c = .ok (t, next)) : t.Spans c next := by
  unfold scanNumeral at h
  split at h
  next n rest number =>
    split at h
    · simp at h
    · obtain ⟨positive, taken, text, count⟩ := scanNumber_counted c.text n rest number
      refine Token.give_spans ⟨taken, text, ?_⟩ (.inr ?_) h
      · rw [count]
      · exact Nat.lt_add_of_pos_right positive
  · simp at h

theorem length_marks_pos : ∀ e ∈ marks, 0 < e.1.length := by decide

theorem scanMark_some {cs : List Char} {m : Mark} {n : Nat} (h : scanMark cs = some (m, n)) :
    cs ≠ [] ∧ 0 < n := by
  unfold scanMark at h
  split at h
  next question =>
    cases h
    refine ⟨?_, Nat.one_pos⟩
    rintro rfl
    cases question
  · rw [Option.map_eq_some_iff] at h
    obtain ⟨e, found, same⟩ := h
    cases same
    have written := List.find?_some found
    have positive := length_marks_pos e (List.mem_of_find?_eq_some found)
    refine ⟨?_, positive⟩
    rintro rfl
    rw [List.isPrefixOf_iff_prefix, List.prefix_nil] at written
    rw [written] at positive
    exact absurd positive (Nat.lt_irrefl 0)

theorem scanPunctuation_spans (h : scanPunctuation line c = .ok (t, next)) : t.Spans c next := by
  unfold scanPunctuation at h
  split at h
  next m n mark =>
    obtain ⟨text, positive⟩ := scanMark_some mark
    obtain ⟨n, rfl⟩ := Nat.exists_eq_add_of_lt positive
    rw [Nat.zero_add] at h
    exact Token.give_spans_skip text (reaches_drop n c.skip) h
  · simp at h

variable (hc : c.text ≠ [])

include hc

theorem scanTemplateHead_spans (h : scanTemplateHead bound line c = .ok (t, next)) :
    t.Spans c next := by
  unfold scanTemplateHead at h
  split at h
  next found => exact Token.give_spans_skip hc (scanTemplate_reaches _ _ _ found) h
  · simp at h

theorem scanPrivateName_spans (h : scanPrivateName bound line c = .ok (t, next)) :
    t.Spans c next := by
  unfold scanPrivateName at h
  split at h
  next found =>
    split at h
    · simp at h
    · exact Token.give_spans_skip hc (scanWord_reaches _ _ _ _ found) h
  · simp at h

theorem scanText_spans {mark : Char} (h : scanText bound line mark c = .ok (t, next)) :
    t.Spans c next := by
  unfold scanText at h
  split at h
  next found => exact Token.give_spans_skip hc (scanUnits_reaches _ _ _ _ found) h
  · simp at h

omit hc in
/-- A word has a first character. -/
theorem scanWord_passes {name : List Char} {escaped : Bool} (hb : 0 < bound) {ch : Char}
    {cs : List Char} (text : c.text = ch :: cs) (first : isIdentifierStart ch || ch = '\\')
    (h : scanWord bound [] false c = .ok (name, escaped, next)) : c.offset < next.offset := by
  obtain ⟨n, rfl⟩ := Nat.exists_eq_add_of_lt hb
  simp only [Nat.zero_add, scanWord, List.isEmpty_nil, if_true] at h
  split at h
  · split at h
    next m mid value =>
      split at h
      · have escape := (scanUnicodeEscape_reaches value).offset_le
        have rest := (scanWord_reaches _ _ _ _ h).offset_le
        simp only at escape
        omega
      · simp at h
    · simp at h
  · simp at h
  next ch' _ _ other text' =>
    rw [text', List.cons.injEq] at text
    obtain ⟨rfl, rfl⟩ := text
    split at h
    · exact (scanWord_reaches _ _ _ _ h).offset_lt (text' ▸ List.cons_ne_nil _ _)
    next notAllowed =>
      have backslash : ch' ≠ '\\' := fun same => other same
      simp [notAllowed, backslash] at first
  next nothing => simp [nothing] at text

omit hc in
theorem scanName_spans (hb : 0 < bound) {ch : Char} {cs : List Char} (text : c.text = ch :: cs)
    (first : isIdentifierStart ch || ch = '\\') (h : scanName bound line c = .ok (t, next)) :
    t.Spans c next := by
  unfold scanName at h
  split at h
  next found =>
    exact Token.give_spans (scanWord_reaches _ _ _ _ found)
      (.inr (scanWord_passes hb text first found)) h
  · simp at h

omit hc in
theorem scanToken_spans (hb : 0 < bound) (h : scanToken bound line c = .ok (t, next)) :
    t.Spans c next := by
  unfold scanToken at h
  split at h
  · exact Token.give_spans (Reaches.refl c) (.inl rfl) h
  · split at h
    · exact scanNumeral_spans h
    · exact scanPunctuation_spans h
  next text => exact scanTemplateHead_spans (text ▸ List.cons_ne_nil _ _) h
  next text => exact scanPrivateName_spans (text ▸ List.cons_ne_nil _ _) h
  next ch cs _ _ _ text =>
    split at h
    · exact scanText_spans (text ▸ List.cons_ne_nil _ _) h
    · split at h
      · exact scanNumeral_spans h
      · split at h
        next first => exact scanName_spans hb text first h
        · exact scanPunctuation_spans h

end Tokens

end Script
end HotReload
