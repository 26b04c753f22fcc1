import HotReload.Proofs.Script.Cursors
import HotReload.Proofs.Script.Grammar.Statements

/-!
# Where statements stand

A reader works its way through one text: its next token and the end of the last one are places in
that text, in this order, and reading only goes forward.  Every step keeps that, and so does
everything that is put together from steps (`Composed.sound`), which is the whole grammar.

The statements of a script therefore stand one after the other in its text, on character boundaries
(`Program.parse_laid`).
-/

namespace HotReload
namespace Script

open Script.Parser Cursor

theorem byteLength_lt_of_prefix {as bs : List Char} (h : as <+: bs) (hne : as ≠ bs) :
    Text.byteLength as < Text.byteLength bs := by
  obtain ⟨rest, rfl⟩ := h
  cases rest with
  | nil => simp at hne
  | cons c cs =>
      have positive := Char.utf8Size_pos c
      rw [Text.byteLength_append, Text.byteLength]
      omega

/-- Of two places in one text, that with the larger offset comes later. -/
theorem Cursor.Reaches.of_le {c d e : Cursor} (hd : c.Reaches d) (he : c.Reaches e)
    (h : d.offset ≤ e.offset) : d.Reaches e := by
  obtain ⟨front, textd, offsetd⟩ := hd
  obtain ⟨front', texte, offsete⟩ := he
  have same : front ++ d.text = front' ++ e.text := textd.symm.trans texte
  rcases List.prefix_or_prefix_of_prefix ⟨d.text, same⟩ ⟨e.text, rfl⟩ with before | after
  · obtain ⟨between, rfl⟩ := before
    rw [List.append_assoc] at same
    refine ⟨between, List.append_cancel_left same, ?_⟩
    rw [offsete, offsetd, Text.byteLength_append, Nat.add_assoc]
  · by_cases equal : front' = front
    · subst equal
      refine ⟨[], List.append_cancel_left same, ?_⟩
      rw [offsete, offsetd]
      rfl
    · have shorter := byteLength_lt_of_prefix after equal
      omega

namespace Reader

/-- A reader in the text of a cursor: the last token read ends in front of the next one. -/
structure Within (r : Reader) (c : Cursor) : Prop where
  last : ∃ d, c.Reaches d ∧ d.Reaches r.here ∧ d.offset = r.last
  spans : r.token.Spans r.here r.rest

/-- There is a next token. -/
def Going (r : Reader) : Prop := r.token.kind ≠ .finish

/-- Reading has gone forward, by at least `n` tokens as far as that is counted: the next token has
been taken, or it is still there. -/
structure Reads (n : Nat) (r r' : Reader) : Prop where
  last : r.last ≤ r'.last
  start : r.token.start ≤ r'.token.start
  taken : 0 < n → r.token.start ≤ r'.last
  going : r.Going → r.token.start < r'.last ∨ (n = 0 ∧ r'.Going ∧ r'.token.start = r.token.start)

variable {c : Cursor} {r r' r'' : Reader} {m n : Nat}

theorem Within.here (h : r.Within c) : c.Reaches r.here := by
  obtain ⟨d, before, after, _⟩ := h.last
  exact before.trans after

theorem Within.last_le (h : r.Within c) : r.last ≤ r.token.start := by
  obtain ⟨d, _, after, offset⟩ := h.last
  rw [← offset, h.spans.start]
  exact after.offset_le

/-- A step that leaves the places of the reader as they are. -/
theorem Reads.stay (last : r'.last = r.last) (start : r'.token.start = r.token.start)
    (going : r.Going → r'.Going) : Reads 0 r r' :=
  ⟨Nat.le_of_eq last.symm, Nat.le_of_eq start.symm, fun none => absurd none (Nat.lt_irrefl 0),
    fun h => .inr ⟨rfl, going h, start⟩⟩

theorem Reads.taken_lt (h : Reads n r r') (hn : 0 < n) (going : r.Going) :
    r.token.start < r'.last := by
  rcases h.going going with passed | ⟨none, _⟩
  · exact passed
  · omega

theorem Reads.trans (h : Reads m r r') (h' : Reads n r' r'') : Reads (m + n) r r'' := by
  refine ⟨Nat.le_trans h.last h'.last, Nat.le_trans h.start h'.start, fun some => ?_, ?_⟩
  · by_cases first : 0 < m
    · exact Nat.le_trans (h.taken first) h'.last
    · exact Nat.le_trans h.start (h'.taken (by omega))
  · intro going
    rcases h.going going with passed | ⟨none, going', same⟩
    · exact .inl (Nat.lt_of_lt_of_le passed h'.last)
    · rcases h'.going going' with passed | ⟨none', going'', same'⟩
      · exact .inl (same ▸ passed)
      · exact .inr ⟨by omega, going'', same'.trans same⟩

end Reader

namespace Parser

variable {α β : Type} {c : Cursor} {r r' : Reader}

/-- A sequence of parsers succeeds if both do. -/
theorem bind_ok {p : Parser α} {f : α → Parser β} {b : β} (h : (p >>= f) r = .ok (b, r')) :
    ∃ a mid, p r = .ok (a, mid) ∧ f a mid = .ok (b, r') := by
  change (p r >>= fun (a, mid) => f a mid) = _ at h
  cases first : p r with
  | error fault =>
      rw [first] at h
      simp [bind, Except.bind] at h
  | ok result =>
      rw [first] at h
      exact ⟨result.1, result.2, rfl, h⟩

theorem advance_ok (h : advance r = .ok ((), r')) :
    r.Going ∧ ∃ here, r.rest.Reaches here ∧ r'.here = here ∧ r'.token.Spans here r'.rest ∧
      r'.last = r.token.stop := by
  unfold advance at h
  split at h
  · cases h
  next going =>
    split at h
    · cases h
    next line here skipped =>
      split at h
      · cases h
      next token rest scanned =>
        cases h
        exact ⟨going, here, skipTrivia_reaches _ _ _ _ skipped, rfl,
          scanToken_spans (by decide) scanned, rfl⟩

theorem advance_sound (hr : r.Within c) (h : advance r = .ok ((), r')) :
    r'.Within c ∧ r.Reads 1 r' := by
  obtain ⟨going, here, skipped, rfl, spans, last⟩ := advance_ok h
  have along := hr.spans.reaches
  have stop : r.rest.offset = r'.last := by rw [last, hr.spans.stop]
  have passes := hr.spans.nonempty.resolve_left going
  have onwards := skipped.offset_le
  have before := hr.last_le
  have start := hr.spans.start
  refine ⟨⟨⟨r.rest, hr.here.trans along, skipped, stop⟩, spans⟩, ?_, ?_, fun _ => ?_, fun _ => ?_⟩
  · omega
  · rw [spans.start]
    omega
  · omega
  · exact .inl (by omega)

/-- A step that changes the next token only, and lets it start where it did. -/
theorem retake_sound {kind : Kind} {rest : Cursor} (hr : r.Within c) (text : r.here.text ≠ [])
    (h : r.here.skip.Reaches rest) (hk : kind ≠ .finish) :
    let r' := { r with token := .between kind r.token.afterLine r.here rest, rest }
    r'.Within c ∧ r.Reads 0 r' := by
  have spans : (Token.between kind r.token.afterLine r.here rest).Spans r.here rest :=
    Token.give_spans_skip text h rfl
  exact ⟨⟨hr.last, spans⟩, .stay rfl hr.spans.start.symm fun _ => hk⟩

theorem text_of_skip {c : Cursor} (h : c.skip.text ≠ []) : c.text ≠ [] := by
  intro nothing
  obtain ⟨offset, text⟩ := c
  subst nothing
  exact h rfl

theorem takePattern_sound (hr : r.Within c) (h : takePattern r = .ok ((), r')) :
    r'.Within c ∧ r.Reads 0 r' := by
  unfold takePattern at h
  split at h
  · split at h
    · cases h
    next rest scanned =>
      cases h
      have text := text_of_skip (scanPattern_text scanned)
      exact retake_sound hr text (scanPattern_reaches scanned) (by decide)
  · cases h

theorem takeTemplate_sound (hr : r.Within c) (h : takeTemplate r = .ok ((), r')) :
    r'.Within c ∧ r.Reads 0 r' := by
  unfold takeTemplate at h
  split at h
  · split at h
    · cases h
    next last ok rest scanned =>
      cases h
      have text := text_of_skip (scanTemplate_text scanned)
      exact retake_sound hr text (scanTemplate_reaches _ _ _ scanned) (by simp)
  · cases h

theorem exportName_sound {name : String} (hr : r.Within c)
    (h : exportName name r = .ok ((), r')) : r'.Within c ∧ r.Reads 0 r' := by
  unfold exportName at h
  split at h
  · simp at h
  · simp only [Except.ok.injEq, Prod.mk.injEq, true_and] at h
    subst h
    exact ⟨⟨hr.last, hr.spans⟩, .stay rfl rfl id⟩

theorem peek_bind (f : Token → Parser β) (r : Reader) : (peek >>= f) r = f r.token r := rfl

/-- Whatever is put together from steps stays in the text and goes forward. -/
theorem Composed.sound {n d : Nat} {p : Parser α} (hp : Composed n d p) {a : α}
    (hr : r.Within c) (h : p r = .ok (a, r')) : r'.Within c ∧ r.Reads n r' := by
  induction hp generalizing r r' with
  | pure a =>
      cases h
      exact ⟨hr, .stay rfl rfl id⟩
  | fail n cause => cases h
  | advance => exact advance_sound hr h
  | takePattern => exact takePattern_sound hr h
  | takeTemplate => exact takeTemplate_sound hr h
  | endStatement =>
      cases h
      exact ⟨⟨hr.last, hr.spans⟩, .stay rfl rfl id⟩
  | exportName name => exact exportName_sound hr h
  | bind _ _ ihp ihf =>
      obtain ⟨b, mid, first, second⟩ := bind_ok h
      obtain ⟨hmid, reads⟩ := ihp hr first
      obtain ⟨hr', reads'⟩ := ihf b hmid second
      exact ⟨hr', reads.trans reads'⟩
  | look _ _ ih => exact ih r.token hr h
  | lookSecond _ _ ih => exact ih r.second? hr h
  | lookThird _ _ ih => exact ih r.third? hr h
  | lookThirdOnLine _ _ _ ih => exact ih r.third? hr h
  | weaken hn _ _ ih =>
      obtain ⟨hr', reads⟩ := ih hr h
      refine ⟨hr', reads.last, reads.start, fun some => reads.taken (by omega), fun going => ?_⟩
      rcases reads.going going with passed | ⟨none, still⟩
      · exact .inl passed
      · exact .inr ⟨by omega, still⟩

end Parser

section Statements

/-- A statement that was read from one reader to another stands between them. -/
structure Stands (c : Cursor) (r r' : Reader) (start : Nat) : Prop where
  within : r'.Within c
  place : ∃ d, c.Reaches d ∧ d.offset = start
  after : r.token.start ≤ start
  before : start < r'.last

/-- A parser that gives the place of the statement that it reads. -/
def Placing (c : Cursor) (r : Reader) (p : Parser (Nat × StatementKind)) : Prop :=
  ∀ start kind r', p r = .ok ((start, kind), r') → Stands c r r' start

variable {c : Cursor} {r : Reader} (hr : r.Within c) (going : r.Going) {g : Rules} (hg : Grounded g)
  (ctx : Context) (place : Place)

include hr going

/-- A statement that starts with the next token. -/
theorem placing_here {α : Type} {p : Parser α} {f : α → StatementKind} (hp : Composed 1 0 p) :
    Placing c r (p >>= fun a => pure (r.token.start, f a)) := by
  intro start kind r' h
  obtain ⟨a, mid, first, second⟩ := bind_ok h
  cases second
  obtain ⟨hmid, reads⟩ := hp.sound hr first
  have start := hr.spans.start
  exact ⟨hmid, ⟨r.here, hr.here, start.symm⟩, Nat.le_refl _, reads.taken_lt (by decide) going⟩

omit hr going in
theorem placing_peek {f : Token → Parser (Nat × StatementKind)} (h : Placing c r (f r.token)) :
    Placing c r (peek >>= f) := h

omit hr going in
theorem placing_peekSecond {f : Option Token → Parser (Nat × StatementKind)}
    (h : ∀ o, Placing c r (f o)) : Placing c r (peekSecond >>= f) := by
  intro start kind r' found
  exact h r.second? start kind r' found

include hg

theorem decoratedStatement_stands {outer : Option Nat} {kind : StatementKind} {r' : Reader}
    (h : decoratedStatement g ctx place r = .ok ((outer, kind), r')) :
    Stands c r r' (outer.getD r.token.start) := by
  obtain ⟨_, mid, first, second⟩ := bind_ok h
  obtain ⟨hmid, reads⟩ := (Composed.discard (decorators_composed hg ctx)).sound hr first
  rw [peek_bind] at second
  split at second
  next word =>
    obtain ⟨_, last, third, done⟩ := bind_ok second
    cases done
    obtain ⟨hlast, reads'⟩ := (exportDeclaration_composed hg ctx true).sound hmid third
    have midGoing : mid.Going := by
      intro finished
      simp [Token.isWord, finished] at word
    refine ⟨hlast, ⟨mid.here, hmid.here, hmid.spans.start.symm⟩, reads.start, ?_⟩
    exact reads'.taken_lt (by decide) midGoing
  · split at second
    · obtain ⟨_, last, third, done⟩ := bind_ok second
      cases done
      have composed := listOnly_composed place (.discard (classFrom_composed hg ctx))
      obtain ⟨hlast, reads'⟩ := composed.sound hmid third
      refine ⟨hlast, ⟨r.here, hr.here, hr.spans.start.symm⟩, Nat.le_refl _, ?_⟩
      exact (reads.trans reads').taken_lt (by decide) going
    · cases second

theorem statementRule_placing : Placing c r (statementRule g ctx place) := by
  refine placing_peek ?_
  split
  · exact placing_here hr going (block_composed hg ctx)
  · exact placing_here hr going .advance
  · intro start kind r' h
    obtain ⟨⟨outer, kind'⟩, mid, first, second⟩ := bind_ok h
    cases second
    exact decoratedStatement_stands hr going hg ctx place first
  · refine placing_peekSecond fun o => ?_
    split
    · exact placing_here hr going (expressionStatement_composed hg ctx)
    · exact placing_here hr going (importDeclaration_composed ctx)
  · exact placing_here hr going (exportDeclaration_composed hg ctx false)
  · exact placing_here hr going (wordStatement_composed hg ctx place _)
  · exact placing_here hr going (expressionStatement_composed hg ctx)

omit hg in
theorem statement_placing (n : Nat) : Placing c r ((rules n).statement ctx place) := by
  cases n with
  | zero =>
      intro start kind r' h
      cases h
  | succ n => exact statementRule_placing hr going (grounded_rules n) ctx place

end Statements

/-- Statements that stand one after the other, the first one behind a place and the last one in
front of another; none is empty. -/
def Laid (c : Cursor) : List Statement → Cursor → Prop
  | [], e => c.Reaches e
  | s :: rest, e => ∃ d d', c.Reaches d ∧ d.Reaches d' ∧ d.offset = s.start ∧ d'.offset = s.stop ∧
      s.start < s.stop ∧ Laid d' rest e

theorem Laid.snoc {c d d' e : Cursor} {statements : List Statement} {s : Statement}
    (h : Laid c statements d) (hs : d.Reaches d') (start : d'.offset = s.start) (he : d'.Reaches e)
    (stop : e.offset = s.stop) (hne : s.start < s.stop) : Laid c (statements ++ [s]) e := by
  induction statements generalizing c with
  | nil => exact ⟨d', e, Reaches.trans h hs, he, start, stop, hne, Reaches.refl e⟩
  | cons first rest ih =>
      obtain ⟨a, b, ca, ab, astart, bstop, nonempty, later⟩ := h
      exact ⟨a, b, ca, ab, astart, bstop, nonempty, ih later⟩

/-- A reader that has read statements, which stand in front of it. -/
structure Reader.Past (r : Reader) (c : Cursor) (statements : List Statement) : Prop where
  within : r.Within c
  laid : ∃ e, Laid c statements e ∧ e.Reaches r.here ∧ e.offset = r.last

theorem Reader.Past.add {r r' : Reader} {c : Cursor} {statements : List Statement} {start : Nat}
    (h : r.Past c statements) (hs : Stands c r r' start) (kind : StatementKind) :
    r'.Past c (statements ++ [⟨start, r'.last, kind⟩]) := by
  obtain ⟨e, laid, ahead, last⟩ := h.laid
  obtain ⟨d, cd, dstart⟩ := hs.place
  obtain ⟨e', ce', ahead', last'⟩ := hs.within.last
  have start_le := hs.after
  have here := h.within.spans.start
  have from_here : r.here.Reaches d := h.within.here.of_le cd (by omega)
  have before := hs.before
  have to_last : d.Reaches e' := cd.of_le ce' (by omega)
  refine ⟨hs.within, e', ?_, ahead', last'⟩
  exact laid.snoc (ahead.trans from_here) dstart to_last last' before

theorem topStatements_past (n k : Nat) {c : Cursor} {r r' : Reader} {read found : List Statement}
    (hr : r.Past c read.reverse)
    (h : iterate (topStatement (rules n)) k read r = .ok (found, r')) : r'.Past c found := by
  induction k generalizing r read with
  | zero => cases h
  | succ k ih =>
      obtain ⟨progress, mid, step, next⟩ := bind_ok h
      rw [topStatement, peek_bind] at step
      split at step
      · cases step
        cases next
        exact hr
      next unfinished =>
        obtain ⟨⟨start, kind⟩, mid', first, second⟩ := bind_ok step
        cases second
        have going : r.Going := fun finished => unfinished (by simp [finished])
        have stands := statement_placing hr.within going Context.top .list n start kind mid first
        refine ih ?_ next
        rw [List.reverse_cons]
        exact hr.add stands kind

/-- A reader at the start of a script has read nothing. -/
theorem Reader.start_past {source : String} {r : Reader} (h : Reader.start source = .ok r) :
    r.Past (Cursor.ofText source) [] := by
  have interpreter : (Cursor.ofText source).Reaches (skipInterpreter (.ofText source)) := by
    unfold skipInterpreter
    split
    · exact reaches_drop _ _
    · exact Reaches.refl _
  unfold Reader.start at h
  dsimp only at h
  split at h
  · cases h
  next line here skipped =>
    split at h
    · cases h
    next token rest scanned =>
      cases h
      have along := interpreter.trans (skipTrivia_reaches _ _ _ _ skipped)
      have zero : Reaches (.ofText source) (.ofText source) := Reaches.refl _
      have spans := scanToken_spans (by decide) scanned
      exact ⟨⟨⟨_, zero, along, rfl⟩, spans⟩, ⟨_, zero, along, rfl⟩⟩

/-- The statements of a script stand one after the other in its text. -/
theorem Program.parse_laid {source : String} {program : Program}
    (h : Program.parse source = .ok program) :
    ∃ e, Laid (Cursor.ofText source) program.statements e := by
  unfold Program.parse at h
  split at h
  · cases h
  next reader started =>
    split at h
    · cases h
    next statements last read =>
      cases h
      have past := topStatements_past _ _ (Reader.start_past started) read
      obtain ⟨e, laid, _, _⟩ := past.laid
      exact ⟨e, laid⟩

end Script
end HotReload
