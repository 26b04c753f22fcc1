import HotReload.Proofs.Script.Cursors

/-!
# What stands between tokens

White space and comments, as a grammar of their own (`Trivia`): blanks and line ends, line comments
up to the line end that closes them, and block comments up to their first closing mark.  What
`skipTrivia` takes is a text of this grammar; at the end of the text a line comment may lack its
line end (`skipTrivia_skips`).
-/

namespace HotReload
namespace Script

open Text

/-- White space and comments. -/
inductive Trivia : List Char → Prop
  | nil : Trivia []
  | blank {c : Char} {cs : List Char} : isBlank c ∨ isLineEnd c → Trivia cs → Trivia (c :: cs)
  | lineComment (body : List Char) {c : Char} {cs : List Char} :
      (∀ b ∈ body, isLineEnd b = false) → isLineEnd c → Trivia cs →
      Trivia ('/' :: '/' :: (body ++ c :: cs))
  | blockComment (body : List Char) {cs : List Char} :
      ¬['*', '/'] <:+: body → Trivia cs → Trivia ('/' :: '*' :: (body ++ '*' :: '/' :: cs))

namespace Trivia

theorem line_cons {c : Char} {cs : List Char} (hc : isLineEnd c = false)
    (h : Trivia ('/' :: '/' :: cs)) : Trivia ('/' :: '/' :: c :: cs) := by
  cases h with
  | blank stroke _ => exact absurd stroke (by decide)
  | lineComment body inside stop later =>
      refine lineComment (c :: body) (fun b hb => ?_) stop later
      rcases List.mem_cons.mp hb with rfl | hb
      · exact hc
      · exact inside b hb

/-- A block comment may start one character earlier, unless it would end there. -/
theorem block_cons {c : Char} {cs : List Char} (hc : ∀ rest, c = '*' → cs = '/' :: rest → False)
    (h : Trivia ('/' :: '*' :: cs)) : Trivia ('/' :: '*' :: c :: cs) := by
  cases h with
  | blank stroke _ => exact absurd stroke (by decide)
  | @blockComment body rest inside later =>
      refine blockComment (c :: body) (fun closing => ?_) later
      -- A closing mark in the longer body is in the shorter one, or it begins with the character.
      rcases List.infix_cons_iff.mp closing with first | there
      · obtain ⟨star, ⟨after, stroke⟩⟩ := List.cons_prefix_cons.mp first
        refine hc (after ++ '*' :: '/' :: rest) star.symm ?_
        rw [← stroke]
        rfl
      · exact inside there

end Trivia

/-- How what surrounds the characters being skipped has begun. -/
def Surround.opening : Surround → List Char
  | .code => []
  | .lineComment => ['/', '/']
  | .blockComment => ['/', '*']

/-- The line end that a line comment may lack where nothing follows. -/
def lineEndAfter : List Char → List Char
  | [] => ['\n']
  | _ :: _ => []

/-- White space and comments reach from a place to a cursor, and go on with what surrounds the
place. -/
def Skips (around : Surround) (offset : Nat) (cs : List Char) (next : Cursor) : Prop :=
  ∃ taken, cs = taken ++ next.text ∧ next.offset = offset + byteLength taken ∧
    Trivia (around.opening ++ (taken ++ lineEndAfter next.text))

theorem Skips.here {around : Surround} (next : Cursor)
    (h : Trivia (around.opening ++ lineEndAfter next.text)) :
    Skips around next.offset next.text next := ⟨[], rfl, rfl, h⟩

/-- What is skipped may begin earlier, with a front of which a part may close what surrounds it. -/
theorem Skips.after {around around' : Surround} {offset : Nat} {next : Cursor} (front : List Char)
    {rest : List Char} (h : Skips around' (offset + byteLength front) rest next)
    (grow : ∀ taken, rest = taken ++ next.text →
      Trivia (around'.opening ++ (taken ++ lineEndAfter next.text)) →
      Trivia (around.opening ++ (front ++ (taken ++ lineEndAfter next.text)))) :
    Skips around offset (front ++ rest) next := by
  obtain ⟨taken, text, place, trivia⟩ := h
  refine ⟨front ++ taken, by rw [text, List.append_assoc], ?_, ?_⟩
  · rw [place, byteLength_append, Nat.add_assoc]
  · rw [List.append_assoc]
    exact grow taken text trivia

theorem Skips.inBlock {offset : Nat} {c : Char} {cs : List Char} {next : Cursor}
    (h : Skips .blockComment (offset + c.utf8Size) cs next)
    (hc : ∀ rest, c = '*' → cs = '/' :: rest → False) :
    Skips .blockComment offset (c :: cs) next := by
  refine Skips.after [c] h fun taken text trivia => Trivia.block_cons ?_ trivia
  intro rest star stroke
  cases taken with
  | nil =>
      -- What would close the comment is no line end.
      cases closing : next.text with
      | nil => simp [closing, lineEndAfter] at stroke
      | cons d ds => simp [closing, lineEndAfter] at stroke
  | cons d ds =>
      obtain ⟨rfl, _⟩ := List.cons.inj stroke
      exact hc _ star text

theorem Skips.inLine {offset : Nat} {c : Char} {cs : List Char} {next : Cursor}
    (h : Skips .lineComment (offset + c.utf8Size) cs next) (hc : isLineEnd c = false) :
    Skips .lineComment offset (c :: cs) next :=
  Skips.after [c] h fun _ _ trivia => Trivia.line_cons hc trivia

theorem Skips.markInLine {offset : Nat} {c d : Char} {cs : List Char} {next : Cursor}
    (h : Skips .lineComment (offset + (c.utf8Size + d.utf8Size)) cs next)
    (hc : isLineEnd c = false) (hd : isLineEnd d = false) :
    Skips .lineComment offset (c :: d :: cs) next :=
  Skips.inLine (Skips.inLine (by rwa [Nat.add_assoc]) hd) hc

/-- Skipping takes white space and comments. -/
theorem skipTrivia_skips (around : Surround) (line : Bool) (offset : Nat) (cs : List Char)
    {line' : Bool} {next : Cursor} (h : skipTrivia around line offset cs = .ok (line', next)) :
    Skips around offset cs next := by
  -- The cases: the text is over, a mark that opens or closes a comment, any other character; each
  -- of them in code, in a line comment and in a block comment.
  fun_induction skipTrivia around line offset cs with
  | case1 => simp at h
  | case2 around line offset unfinished =>
      cases h
      refine Skips.here ⟨offset, []⟩ ?_
      cases around with
      | code => exact .blank (by decide) .nil
      | lineComment => exact .lineComment [] (by simp) (by decide) .nil
      | blockComment => exact absurd rfl unfinished
  | case3 _ offset cs =>
      cases h
      exact Skips.here ⟨offset, '*' :: '/' :: cs⟩ .nil
  | case14 _ offset c cs =>
      cases h
      exact Skips.here ⟨offset, c :: cs⟩ .nil
  | case4 _ offset cs ih | case7 _ offset cs ih | case10 _ offset cs ih =>
      exact (ih h).markInLine (by decide) (by decide)
  | case5 _ offset cs ih =>
      exact Skips.after ['*', '/'] (ih h) fun _ _ trivia =>
        .blockComment [] (by simp) trivia
  | case6 _ offset cs ih => exact Skips.after ['/', '/'] (ih h) fun _ _ trivia => trivia
  | case9 _ offset cs ih => exact Skips.after ['/', '*'] (ih h) fun _ _ trivia => trivia
  | case8 _ offset cs ih | case11 _ offset cs ih =>
      exact (ih h).inBlock fun _ star => absurd star (by decide)
  | case12 _ offset c cs _ _ _ _ lineEnd ih =>
      exact Skips.after [c] (ih h) fun _ _ trivia => .blank (.inr lineEnd) trivia
  | case13 _ offset c cs _ _ _ _ _ blank ih =>
      exact Skips.after [c] (ih h) fun _ _ trivia => .blank (.inl blank) trivia
  | case15 _ offset c cs _ _ _ _ lineEnd ih =>
      exact Skips.after [c] (ih h) fun _ _ trivia =>
        .lineComment [] (by simp) lineEnd trivia
  | case16 _ offset c cs _ _ _ _ noLineEnd ih =>
      exact (ih h).inLine (Bool.eq_false_iff.mpr noLineEnd)
  | case17 _ offset c cs noClose _ _ _ ih => exact (ih h).inBlock noClose

/-- Between code and a token stand white space and comments. -/
theorem Skips.trivia {c next : Cursor} (h : Skips .code c.offset c.text next)
    (going : next.text ≠ []) :
    ∃ gap, c.text = gap ++ next.text ∧ next.offset = c.offset + byteLength gap ∧ Trivia gap := by
  obtain ⟨gap, text, offset, trivia⟩ := h
  refine ⟨gap, text, offset, ?_⟩
  cases rest : next.text with
  | nil => exact absurd rest going
  | cons d ds => simpa [Surround.opening, rest, lineEndAfter] using trivia

/-- Where nothing follows, white space and comments are all there is. -/
theorem Skips.tail {c next : Cursor} (h : Skips .code c.offset c.text next)
    (ended : next.text = []) : Trivia (c.text ++ ['\n']) := by
  obtain ⟨gap, text, _, trivia⟩ := h
  rw [text, ended, List.append_nil]
  simpa [Surround.opening, ended, lineEndAfter] using trivia

end Script
end HotReload
