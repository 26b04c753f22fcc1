import HotReload.Proofs.Script.Steps

/-!
# What stands around the statements

A script is its statements and what stands around them: the line that names its interpreter, white
space, comments, and the decorators of an exported class, which are read in front of the statement
and are no part of it (`Program.parse_spaced`).

A statement is read by a run of steps.  Before the run white space and comments stand in front of
the next token, and so they do after it.  The statement starts at that token, unless decorators are
read first (`statementRule_starts`).
-/

namespace HotReload
namespace Script

open Script.Parser Cursor Text

/-- A text that the rule for decorators reads, up to the export of a class, with what follows it. -/
def Decorators (text rest : List Char) : Prop :=
  ∃ n r found mid, r.here.text = text ++ rest ∧ r.Scanned ∧ r.token.isMark .decorator ∧
    decorators (rules n) Context.top r = .ok (found, mid) ∧ mid.token.isWord "export" ∧
    mid.here.text = rest

/-- What stands in front of a statement, with the text from the statement on. -/
inductive Gap (s : Statement) (rest : List Char) : List Char → Prop
  | trivia {gap : List Char} : Trivia gap → Gap s rest gap
  | decorators {blanks text : List Char} : s.kind = .exporting → Trivia blanks →
      Decorators text rest → Gap s rest (blanks ++ text)

/-- A text from a place on is made of statements and of what stands around them.  A line comment at
its end may lack its line end. -/
inductive Spaced : Nat → List Statement → List Char → Prop
  | tail {offset : Nat} {text : List Char} : Trivia (text ++ ['\n']) → Spaced offset [] text
  | statement {offset : Nat} {s : Statement} {rest : List Statement} {gap piece later : List Char} :
      Gap s (piece ++ later) gap → s.start = offset + byteLength gap →
      s.stop = s.start + byteLength piece → piece ≠ [] → Spaced s.stop rest later →
      Spaced offset (s :: rest) (gap ++ (piece ++ later))

/-- A reader in the text of one cursor that follows another one. -/
structure Reader.Ready (r : Reader) (c d : Cursor) : Prop where
  within : r.Within c
  fresh : r.Fresh
  follows : r.Follows d

theorem Reader.Within.text_ne_nil {c : Cursor} {r : Reader} (hr : r.Within c) (going : r.Going) :
    r.here.text ≠ [] := by
  have passes := hr.spans.nonempty.resolve_left going
  obtain ⟨taken, text, offset⟩ := hr.spans.reaches
  intro nothing
  rw [nothing, eq_comm, List.append_eq_nil_iff] at text
  rw [text.1] at offset
  simp only [byteLength] at offset
  omega

theorem Reader.Ready.gap {c d : Cursor} {r : Reader} (hr : r.Ready c d) (going : r.Going) :
    ∃ gap, d.text = gap ++ r.here.text ∧ r.token.start = d.offset + byteLength gap ∧
      Trivia gap := by
  obtain ⟨line, skipped⟩ := hr.follows
  have here := hr.within.text_ne_nil going
  obtain ⟨gap, text, offset, trivia⟩ := (skipTrivia_skips _ _ _ _ skipped).trivia here
  exact ⟨gap, text, hr.within.spans.start.trans offset, trivia⟩

section Statement

variable {n : Nat} {c d : Cursor} {r r' : Reader} (hr : r.Ready c d) (going : r.Going) {start : Nat}
  {kind : StatementKind}
  (h : (rules n).statement Context.top .list r = .ok ((start, kind), r'))

include hr going h

/-- After a statement the reader stands behind it, at the end of the last token read. -/
theorem statement_ready : ∃ e, c.Reaches e ∧ e.offset = r'.last ∧ r'.Ready c e := by
  have composed := (grounded_rules n).statement Context.top .list
  have kindOnly : (Prod.snd <$> (rules n).statement Context.top .list) r = .ok (kind, r') := by
    change StateT.map _ _ _ = _
    rw [StateT.map, h]
    rfl
  have run := composed.run kindOnly
  obtain ⟨within, reads⟩ := composed.sound hr.within kindOnly
  have forward : r.last < r'.last :=
    Nat.lt_of_le_of_lt hr.within.last_le (reads.taken_lt (by decide) going)
  obtain ⟨e, ce, offset, follows⟩ := run.follows hr.within forward
  exact ⟨e, ce, offset, within, run.fresh hr.fresh, follows⟩

/-- In front of the place where a statement starts stands a gap. -/
theorem statement_gap : ∃ gap b, c.Reaches b ∧ b.offset = start ∧ d.text = gap ++ b.text ∧
    start = d.offset + byteLength gap ∧ ∀ stop, Gap ⟨start, stop, kind⟩ b.text gap := by
  obtain ⟨blanks, text, place, trivia⟩ := hr.gap going
  have here := hr.within.spans.start
  cases n with
  | zero => cases h
  | succ n =>
      rcases statementRule_starts (start, kind) r' h with same | decorated
      · exact ⟨blanks, r.here, hr.within.here, here.symm.trans same.symm, text, same.trans place,
          fun _ => .trivia trivia⟩
      · -- The decorators are a part of the gap: they end where the reader stands after them.
        obtain ⟨exporting, decorator, found, mid, read, word, there⟩ := decorated
        have composed := decorators_composed (grounded_rules n) Context.top
        obtain ⟨hmid, ahead⟩ := composed.sound hr.within read
        have begins := hmid.spans.start
        have onwards := ahead.start
        obtain ⟨decorators, dtext, doffset⟩ := hr.within.here.of_le hmid.here (by omega)
        have once : r.token.kind.isRetaken = false := by
          rw [show r.token.kind = .mark .decorator by simpa [Token.isMark] using decorator]
          rfl
        refine ⟨blanks ++ decorators, mid.here, hmid.here, begins.symm.trans there, ?_, ?_,
          fun _ => .decorators exporting trivia ⟨n, r, found, mid, dtext, hr.fresh once, decorator,
            read, word, rfl⟩⟩
        · rw [text, dtext, List.append_assoc]
        · rw [byteLength_append]
          omega

/-- A statement stands between the gap in front of it and the place behind it. -/
theorem statement_spaced : ∃ gap piece e, d.text = gap ++ (piece ++ e.text) ∧
    Gap ⟨start, r'.last, kind⟩ (piece ++ e.text) gap ∧ start = d.offset + byteLength gap ∧
    r'.last = start + byteLength piece ∧ piece ≠ [] ∧ e.offset = r'.last ∧ r'.Ready c e := by
  obtain ⟨e, ce, stop, ready⟩ := statement_ready hr going h
  obtain ⟨gap, b, cb, begins, text, place, isGap⟩ := statement_gap hr going h
  have before := (statement_placing hr.within going Context.top .list n start kind r' h).before
  obtain ⟨piece, ptext, poffset⟩ := cb.of_le ce (by omega)
  refine ⟨gap, piece, e, by rw [text, ptext], ptext ▸ isGap _, place, by omega, ?_, stop, ready⟩
  rintro rfl
  simp only [byteLength] at poffset
  omega

end Statement

/-- If a scanner gives a token, this is not the one for the end. -/
def Unfinished (scanned : Except Fault (Token × Cursor)) : Prop :=
  ∀ t next, scanned = .ok (t, next) → t.kind ≠ .finish

section Tokens

variable {bound : Nat} {line : Bool} {c : Cursor}

theorem Unfinished.error {fault : Fault} : Unfinished (.error fault) := by
  intro t next scanned
  cases scanned

theorem Unfinished.give {kind : Kind} {next : Cursor} (h : kind ≠ .finish) :
    Unfinished (Token.give kind line c next) := by
  intro t next' scanned
  cases scanned
  exact h

theorem scanNumeral_unfinished : Unfinished (scanNumeral line c) := by
  unfold scanNumeral
  split
  · split
    · exact .error
    · exact .give (by simp)
  · exact .error

theorem scanPunctuation_unfinished : Unfinished (scanPunctuation line c) := by
  unfold scanPunctuation
  split
  · exact .give (by simp)
  · exact .error

theorem scanTemplateHead_unfinished : Unfinished (scanTemplateHead bound line c) := by
  unfold scanTemplateHead
  split
  · exact .give (by simp)
  · exact .error

theorem scanPrivateName_unfinished : Unfinished (scanPrivateName bound line c) := by
  unfold scanPrivateName
  split
  · split
    · exact .error
    · exact .give (by simp)
  · exact .error

theorem scanText_unfinished {mark : Char} : Unfinished (scanText bound line mark c) := by
  unfold scanText
  split
  · exact .give (by simp)
  · exact .error

theorem scanName_unfinished : Unfinished (scanName bound line c) := by
  unfold scanName
  split
  · exact .give (by simp)
  · exact .error

theorem scanToken_unfinished (h : c.text ≠ []) : Unfinished (scanToken bound line c) := by
  unfold scanToken
  split
  next nothing => exact absurd nothing h
  · split
    · exact scanNumeral_unfinished
    · exact scanPunctuation_unfinished
  · exact scanTemplateHead_unfinished
  · exact scanPrivateName_unfinished
  · split
    · exact scanText_unfinished
    · split
      · exact scanNumeral_unfinished
      · split
        · exact scanName_unfinished
        · exact scanPunctuation_unfinished

end Tokens

/-- Where the text is over, white space and comments are all that is left. -/
theorem Reader.Ready.tail {c d : Cursor} {r : Reader} (hr : r.Ready c d)
    (ended : r.token.kind = .finish) : Trivia (d.text ++ ['\n']) := by
  obtain ⟨line, skipped⟩ := hr.follows
  obtain ⟨_, scanned⟩ := hr.fresh (by rw [ended]; rfl)
  refine (skipTrivia_skips _ _ _ _ skipped).tail (Classical.byContradiction fun some => ?_)
  exact scanToken_unfinished some _ _ scanned ended

/-- The statements up to the end of the text cover what is left of it. -/
theorem topStatements_spaced (n k : Nat) {c d : Cursor} {r r' : Reader}
    {read found : List Statement} (hr : r.Ready c d)
    (h : iterate (topStatement (rules n)) k read r = .ok (found, r')) :
    ∃ later, found = read.reverse ++ later ∧ Spaced d.offset later d.text := by
  induction k generalizing r read d with
  | zero => cases h
  | succ k ih =>
      obtain ⟨progress, mid, step, next⟩ := bind_ok h
      rw [topStatement, peek_bind] at step
      split at step
      next finished =>
        cases step
        cases next
        exact ⟨[], (List.append_nil _).symm, .tail (hr.tail (by simpa using finished))⟩
      next unfinished =>
        obtain ⟨⟨start, kind⟩, mid', first, second⟩ := bind_ok step
        cases second
        have going : r.Going := fun finished => unfinished (by simp [finished])
        obtain ⟨gap, piece, e, text, isGap, begins, stop, nonempty, behind, ready⟩ :=
          statement_spaced hr going first
        obtain ⟨later, all, spaced⟩ := ih ready next
        refine ⟨⟨start, mid.last, kind⟩ :: later, ?_, ?_⟩
        · rw [all, List.reverse_cons, List.append_assoc, List.singleton_append]
        · rw [text]
          rw [behind] at spaced
          exact .statement isGap begins stop nonempty spaced

/-- A line that names the interpreter, up to the line end behind it; or nothing. -/
def InterpreterLine (line rest : List Char) : Prop :=
  line = [] ∨ ∃ body, line = '#' :: '!' :: body ∧ (∀ b ∈ body, isLineEnd b = false) ∧
    ∀ b ∈ rest.head?, isLineEnd b

theorem Cursor.text_drop (n : Nat) (c : Cursor) : (c.drop n).text = c.text.drop n := by
  induction n generalizing c with
  | zero => rfl
  | succ n ih =>
      obtain ⟨offset, text⟩ := c
      cases text with
      | nil => simp [Cursor.drop, Cursor.skip, ih]
      | cons ch rest => simp [Cursor.drop, Cursor.skip, ih]

theorem skipInterpreter_takes (c : Cursor) :
    ∃ line, c.text = line ++ (skipInterpreter c).text ∧
      (skipInterpreter c).offset = c.offset + byteLength line ∧
      InterpreterLine line (skipInterpreter c).text := by
  unfold skipInterpreter
  split
  next cs text =>
    let body := cs.takeWhile (!isLineEnd ·)
    have rest : (c.drop (2 + body.length)).text = cs.dropWhile (!isLineEnd ·) := by
      have behind : (body ++ cs.dropWhile (!isLineEnd ·)).drop body.length =
          cs.dropWhile (!isLineEnd ·) := List.drop_left
      rw [List.takeWhile_append_dropWhile] at behind
      rw [text_drop, text, Nat.add_comm, List.drop_succ_cons, List.drop_succ_cons, behind]
    obtain ⟨line, whole, offset⟩ := reaches_drop (2 + body.length) c
    have line_eq : line = '#' :: '!' :: body := by
      refine (List.append_left_inj (cs.dropWhile (!isLineEnd ·))).mp ?_
      rw [← rest, ← whole, text, rest, List.cons_append, List.cons_append,
        List.takeWhile_append_dropWhile]
    refine ⟨line, whole, offset, .inr ⟨body, line_eq, fun b hb => ?_, fun b hb => ?_⟩⟩
    · have inside := List.all_eq_true.mp (List.all_takeWhile (p := (!isLineEnd ·)) (l := cs)) b hb
      simpa using inside
    · have stops := List.head?_dropWhile_not (!isLineEnd ·) cs
      rw [← rest, Option.mem_def.mp hb] at stops
      simpa using stops
  · exact ⟨[], rfl, rfl, .inl rfl⟩

/-- A reader at the start of a script follows the line that names the interpreter. -/
theorem Reader.start_ready {source : String} {r : Reader} (h : Reader.start source = .ok r) :
    r.Ready (.ofText source) (skipInterpreter (.ofText source)) := by
  have past := Reader.start_past h
  unfold Reader.start at h
  dsimp only at h
  split at h
  · cases h
  next line here skipped =>
    split at h
    · cases h
    next token rest scanned =>
      cases h
      exact ⟨past.within, fun _ => ⟨line, scanned⟩, line, skipped⟩

/-- A script is its statements and what stands around them. -/
theorem Program.parse_spaced {source : String} {program : Program}
    (h : Program.parse source = .ok program) :
    ∃ line text, source.toList = line ++ text ∧ InterpreterLine line text ∧
      Spaced (byteLength line) program.statements text := by
  unfold Program.parse at h
  split at h
  · cases h
  next reader started =>
    split at h
    · cases h
    next statements last read =>
      cases h
      obtain ⟨line, text, offset, interpreter⟩ := skipInterpreter_takes (.ofText source)
      obtain ⟨later, all, spaced⟩ := topStatements_spaced _ _ (Reader.start_ready started) read
      rw [offset, show (Cursor.ofText source).offset = 0 from rfl, Nat.zero_add] at spaced
      rw [all]
      exact ⟨line, _, text, interpreter, spaced⟩

end Script
end HotReload
