import HotReload.Proofs.Script.Cursors
import HotReload.Proofs.Script.Lexemes
import HotReload.Script.Program

/-!
# Parsers on rows of tokens

`r.Ahead kinds` says which tokens a reader has before it, from its next one up to the end of the
text.  `Parses p kinds Q rest` says that the parser `p` succeeds wherever the tokens `kinds` are
ahead, gives a value with the property `Q`, and leaves the tokens `rest` ahead.  There is one rule
for each way of putting parsers together; a loop that reads one item at a time succeeds if it does
at each item (`Parses.iterate`), and so a script that is a row of statements is read as these
(`Program.parse_of_lexemes`).
-/

namespace HotReload
namespace Script

open Script.Parser

section Lengths

variable {cs rest : List Char} {kind : Kind} {kinds : List Kind}

/-- What a token takes of a text, together with what stands in front of it. -/
theorem Lexeme.takes (h : Lexeme cs kind rest) :
    ∃ taken, cs = taken ++ rest ∧ (kind ≠ .finish → taken ≠ []) := by
  obtain ⟨line, here, t, next, skipped, scanned, rfl, rfl⟩ := h (cs.length + 1) false 0 (by omega)
  have spans := scanToken_spans (Nat.succ_pos _) scanned
  have front := skipTrivia_reaches .code false 0 cs skipped
  obtain ⟨taken, text, offset⟩ := front.trans spans.reaches
  refine ⟨taken, text, fun going empty => ?_⟩
  rw [empty] at offset
  have still : next.offset = 0 := offset
  rcases spans.nonempty with finish | forward
  · exact going finish
  · omega

theorem Lexeme.length_le (h : Lexeme cs kind rest) : rest.length ≤ cs.length := by
  obtain ⟨taken, rfl, _⟩ := h.takes
  rw [List.length_append]
  exact Nat.le_add_left _ _

/-- A row has no more tokens than the text has characters. -/
theorem Lexemes.length_le (h : Lexemes cs kinds rest) (going : .finish ∉ kinds) :
    kinds.length + rest.length ≤ cs.length := by
  induction h with
  | nil cs => exact Nat.le_of_eq (Nat.zero_add _)
  | @cons cs mid rest kind kinds first _ ih =>
      rw [List.mem_cons, not_or] at going
      have later := ih going.2
      obtain ⟨taken, rfl, some⟩ := first.takes
      have positive := List.length_pos_iff.mpr (some (Ne.symm going.1))
      rw [List.length_cons, List.length_append]
      omega

/-- A text has one first token. -/
theorem Lexeme.unique {kind' : Kind} {rest' : List Char} (h : Lexeme cs kind rest)
    (h' : Lexeme cs kind' rest') : kind = kind' ∧ rest = rest' := by
  obtain ⟨line, here, t, next, skipped, scanned, rfl, rfl⟩ := h (cs.length + 1) false 0 (by omega)
  obtain ⟨line', here', t', next', skipped', scanned', rfl, rfl⟩ :=
    h' (cs.length + 1) false 0 (by omega)
  rw [skipped] at skipped'
  cases skipped'
  rw [scanned] at scanned'
  cases scanned'
  exact ⟨rfl, rfl⟩

/-- Up to a place behind it, a text has one row of tokens. -/
theorem Lexemes.unique {kinds' : List Kind} (h : Lexemes cs kinds rest)
    (h' : Lexemes cs kinds' rest) (going : .finish ∉ kinds) (going' : .finish ∉ kinds') :
    kinds = kinds' := by
  induction h generalizing kinds' with
  | nil cs =>
      have short := h'.length_le going'
      exact (List.length_eq_zero_iff.mp (by omega)).symm
  | @cons cs mid rest kind kinds first others ih =>
      have short := (Lexemes.cons first others).length_le going
      cases h' with
      | nil =>
          rw [List.length_cons] at short
          omega
      | @cons _ mid' _ kind' kinds' first' others' =>
          rw [List.mem_cons, not_or] at going going'
          obtain ⟨rfl, rfl⟩ := first.unique first'
          rw [ih others' going.2 going'.2]

/-- Behind the last token the text is over. -/
theorem Lexemes.finish (h : Lexemes cs kinds []) : Lexemes cs (kinds ++ [.finish]) [] :=
  h.append (Lexeme.single fun _ line offset _ =>
    ⟨line, ⟨offset, []⟩, _, ⟨offset, []⟩, rfl, rfl, rfl, rfl⟩)

/-- A text that starts with a token starts with no line that names an interpreter. -/
theorem Lexeme.skipInterpreter {source : String} (h : Lexeme source.toList kind rest) :
    skipInterpreter (.ofText source) = .ofText source := by
  rw [Script.skipInterpreter]
  split
  next cs text =>
    replace text : source.toList = '#' :: '!' :: cs := text
    obtain ⟨line, here, t, next, skipped, scanned, _⟩ :=
      h (source.toList.length + 1) false 0 (by omega)
    rw [text] at skipped scanned
    rw [skipTrivia_here false 0 _ (by decide) (by decide) (by decide)] at skipped
    cases skipped
    cases scanned
  · rfl

end Lengths

/-- The tokens from the next one of a reader up to the end of the text are of the given kinds. -/
def Reader.Ahead (r : Reader) : List Kind → Prop
  | [] => False
  | kind :: later => r.token.kind = kind ∧ Lexemes r.rest.text later [] ∧ r.rest.text.length < limit

section Looking

variable {r : Reader} {w : String} {escaped : Bool} {kind : Kind} {later : List Kind}

theorem nextToken_of_lexeme {c : Cursor} {rest : List Char} (h : Lexeme c.text kind rest)
    (short : c.text.length < limit) :
    ∃ t next, nextToken limit c = .ok (t, next) ∧ t.kind = kind ∧ next.text = rest := by
  obtain ⟨line, here, t, next, skipped, scanned, same⟩ := h limit false c.offset short
  exact ⟨t, next, by rw [nextToken, skipped]; exact scanned, same⟩

/-- The token behind a word. -/
theorem Reader.Ahead.second (h : r.Ahead (.word w escaped :: kind :: later)) :
    ∃ t, r.second? = some t ∧ t.kind = kind := by
  obtain ⟨word, tokens, short⟩ := h
  cases tokens with
  | cons first _ =>
      obtain ⟨t, next, scanned, same, _⟩ := nextToken_of_lexeme first short
      exact ⟨t, by simp [Reader.second?, Token.hasWord, word, scanned], same⟩

/-- The two tokens behind a word, if the first of them is a word too. -/
theorem Reader.Ahead.third {w' : String} {escaped' : Bool}
    (h : r.Ahead (.word w escaped :: .word w' escaped' :: kind :: later)) :
    ∃ t u, r.third? = some (t, u) ∧ t.kind = .word w' escaped' ∧ u.kind = kind := by
  obtain ⟨word, tokens, short⟩ := h
  obtain _ | ⟨first, _ | ⟨second, _⟩⟩ := tokens
  obtain ⟨t, next, scanned, same, text⟩ := nextToken_of_lexeme first short
  have shorter : next.text.length < limit := text ▸ Nat.lt_of_le_of_lt first.length_le short
  obtain ⟨u, _, scanned', same', _⟩ := nextToken_of_lexeme (text.symm ▸ second) shorter
  exact ⟨t, u, by simp [Reader.third?, Token.hasWord, word, scanned, same, scanned'], same, same'⟩

/-- Behind a mark nothing more is looked at. -/
theorem Reader.Ahead.third_mark {m : Mark} (h : r.Ahead (.word w escaped :: .mark m :: later)) :
    r.third? = none := by
  obtain ⟨word, tokens, short⟩ := h
  cases tokens with
  | cons first _ =>
      obtain ⟨t, next, scanned, same, _⟩ := nextToken_of_lexeme first short
      simp [Reader.third?, Token.hasWord, word, scanned, same]

end Looking

/-- Wherever the tokens `kinds` are ahead, a parser gives a value with a property, and leaves the
tokens `rest` ahead. -/
def Parses {α : Type} (p : Parser α) (kinds : List Kind) (Q : α → Prop) (rest : List Kind) : Prop :=
  ∀ r, r.Ahead kinds → ∃ a r', p r = .ok (a, r') ∧ Q a ∧ r'.Ahead rest

namespace Parses

variable {α β : Type} {p q : Parser α} {f : α → Parser β} {P : α → Prop} {Q : β → Prop}
  {kinds mid rest later : List Kind} {kind next : Kind} {w : String} {m : Mark}

theorem pure {a : α} (h : P a) : Parses (pure a) kinds P kinds := fun r hr => ⟨a, r, rfl, h, hr⟩

theorem bind (h : Parses p kinds P mid) (hf : ∀ a, P a → Parses (f a) mid Q rest) :
    Parses (p >>= f) kinds Q rest := by
  intro r hr
  obtain ⟨a, r', first, property, ahead⟩ := h r hr
  obtain ⟨b, r'', second, result⟩ := hf a property r' ahead
  refine ⟨b, r'', ?_, result⟩
  change StateT.bind p f r = _
  rw [StateT.bind, first]
  exact second

/-- A parser whose value is known, and then another one. -/
theorem seq {a : α} (h : Parses p kinds (· = a) mid) (hf : Parses (f a) mid Q rest) :
    Parses (p >>= f) kinds Q rest := by
  refine .bind h ?_
  rintro _ rfl
  exact hf

theorem ite_pos {c : Prop} [Decidable c] (h : c) (hp : Parses p kinds P rest) :
    Parses (if c then p else q) kinds P rest := by rwa [if_pos h]

theorem ite_neg {c : Prop} [Decidable c] (h : ¬c) (hq : Parses q kinds P rest) :
    Parses (if c then p else q) kinds P rest := by rwa [if_neg h]

theorem peek {f : Token → Parser β}
    (h : ∀ t, t.kind = kind → Parses (f t) (kind :: later) Q rest) :
    Parses (peek >>= f) (kind :: later) Q rest := fun r hr => h r.token hr.1 r hr

theorem lastStop : Parses lastStop kinds (fun _ => True) kinds :=
  fun r hr => ⟨r.last, r, rfl, trivial, hr⟩

theorem endStatement : Parses endStatement kinds (· = ()) kinds := by
  intro r hr
  refine ⟨(), _, rfl, rfl, ?_⟩
  cases kinds with
  | nil => exact hr
  | cons kind later => exact hr

theorem peekSecond {f : Option Token → Parser β} {escaped : Bool}
    (h : ∀ t, t.kind = kind → Parses (f (some t)) (.word w escaped :: kind :: later) Q rest) :
    Parses (peekSecond >>= f) (.word w escaped :: kind :: later) Q rest := by
  intro r hr
  obtain ⟨t, seen, same⟩ := hr.second
  change ∃ a r', f r.second? r = _ ∧ _
  rw [seen]
  exact h t same r hr

theorem peekThird {f : Option (Token × Token) → Parser β} {w' : String} {escaped escaped' : Bool}
    (h : ∀ t u, t.kind = .word w' escaped' → u.kind = kind →
      Parses (f (some (t, u))) (.word w escaped :: .word w' escaped' :: kind :: later) Q rest) :
    Parses (peekThird >>= f) (.word w escaped :: .word w' escaped' :: kind :: later) Q rest := by
  intro r hr
  obtain ⟨t, u, seen, same, same'⟩ := hr.third
  change ∃ a r', f r.third? r = _ ∧ _
  rw [seen]
  exact h t u same same' r hr

theorem peekThird_mark {f : Option (Token × Token) → Parser β} {escaped : Bool}
    (h : Parses (f none) (.word w escaped :: .mark m :: later) Q rest) :
    Parses (Parser.peekThird >>= f) (.word w escaped :: .mark m :: later) Q rest := by
  intro r hr
  change ∃ a r', f r.third? r = _ ∧ _
  rw [hr.third_mark]
  exact h r hr

theorem advance (going : kind ≠ .finish) :
    Parses advance (kind :: next :: later) (· = ()) (next :: later) := by
  rintro r ⟨rfl, tokens, short⟩
  cases tokens with
  | cons first others =>
      obtain ⟨line, here, t, after, skipped, scanned, same, rfl⟩ :=
        first limit false r.rest.offset short
      refine ⟨(), ⟨t, here, after, r.token.stop, .token r.token :: r.pieces, r.exported⟩, ?_, rfl,
        same, others, Nat.lt_of_le_of_lt first.length_le short⟩
      rw [Parser.advance, if_neg going, skipped]
      dsimp only
      rw [scanned]

theorem atMark : Parses (atMark m) (kind :: later) (· = (kind == .mark m)) (kind :: later) := by
  apply Parses.peek
  intro t same
  apply Parses.pure
  rw [Token.isMark, same]

theorem atWord :
    Parses (atWord w) (.word w false :: later) (· = true) (.word w false :: later) := by
  apply Parses.peek
  intro t same
  apply Parses.pure
  rw [Token.isWord, same, beq_self_eq_true]

theorem expect : Parses (expect m) (.mark m :: next :: later) (· = ()) (next :: later) := by
  apply Parses.seq .atMark
  apply Parses.ite_pos (beq_self_eq_true _)
  exact Parses.advance (by simp)

theorem expectWord :
    Parses (expectWord w) (.word w false :: next :: later) (· = ()) (next :: later) := by
  apply Parses.seq .atWord
  apply Parses.ite_pos rfl
  exact Parses.advance (by simp)

/-- A mark that is next is read. -/
theorem eat : Parses (eat m) (.mark m :: next :: later) (· = true) (next :: later) := by
  apply Parses.seq .atMark
  apply Parses.ite_pos (beq_self_eq_true _)
  apply Parses.seq (.advance (by simp))
  exact Parses.pure rfl

/-- A mark that is not next is not read. -/
theorem eat_other (other : kind ≠ .mark m) :
    Parses (Parser.eat m) (kind :: later) (· = false) (kind :: later) := by
  have elsewhere : ¬ (kind == .mark m) := by simpa using other
  apply Parses.seq .atMark
  apply Parses.ite_neg elsewhere
  exact Parses.pure rfl

/-- A semicolon that is written ends a statement. -/
theorem semicolon :
    Parses semicolon (.mark .semicolon :: next :: later) (· = ()) (next :: later) := by
  apply Parses.peek
  intro t same
  have written : t.isMark .semicolon := by
    rw [Token.isMark, same, beq_self_eq_true]
  apply Parses.ite_pos written
  apply Parses.seq .endStatement
  exact Parses.advance (by simp)

/-- A loop that reads one item at a time, where `row items` is what is ahead of it as long as there
are the given items. -/
theorem iterate {σ ι : Type} {step : σ → Parser (Progress σ α)} (row : List ι → List Kind)
    (Inv : σ → List ι → Prop)
    (more : ∀ s i is, Inv s (i :: is) → Parses (step s) (row (i :: is))
      (fun progress => ∃ s', progress = .more s' ∧ Inv s' is) (row is))
    (done : ∀ s, Inv s [] → Parses (step s) (row [])
      (fun progress => ∃ a, progress = .done a ∧ P a) rest)
    {n : Nat} {is : List ι} (enough : is.length < n) {s : σ} (hs : Inv s is) :
    Parses (Parser.iterate step n s) (row is) P rest := by
  obtain ⟨n, rfl⟩ := Nat.exists_eq_succ_of_ne_zero (Nat.ne_zero_of_lt enough)
  induction is generalizing n s with
  | nil =>
      refine .bind (done s hs) fun progress ⟨a, last, property⟩ => ?_
      rw [last]
      exact .pure property
  | cons i is ih =>
      refine .bind (more s i is hs) fun progress ⟨s', next, kept⟩ => ?_
      rw [next]
      have enough' := Nat.lt_of_succ_lt_succ enough
      obtain ⟨n, rfl⟩ := Nat.exists_eq_succ_of_ne_zero (Nat.ne_zero_of_lt enough')
      exact ih kept n enough'

end Parses

/-- A script is read from the first of its tokens on. -/
theorem Reader.start_ahead {source : String} {kind : Kind} {later : List Kind}
    (tokens : Lexemes source.toList (kind :: later) []) (short : source.toList.length < limit) :
    ∃ r, Reader.start source = .ok r ∧ r.Ahead (kind :: later) := by
  cases tokens with
  | cons first others =>
      obtain ⟨line, here, t, rest, skipped, scanned, same, rfl⟩ := first limit false 0 short
      have shorter := Nat.lt_of_le_of_lt first.length_le short
      refine ⟨⟨t, here, rest, 0, [], []⟩, ?_, same, others, shorter⟩
      rw [Reader.start, first.skipInterpreter]
      dsimp only [Cursor.ofText]
      rw [skipped]
      dsimp only
      rw [scanned]

/-- Parts that are not empty are no more than their elements. -/
theorem length_le_flatMap {ι α : Type} {f : ι → List α} {is : List ι} (some : ∀ i ∈ is, f i ≠ []) :
    is.length ≤ (is.flatMap f).length := by
  induction is with
  | nil => exact Nat.le_refl _
  | cons i is ih =>
      obtain ⟨first, others⟩ := List.forall_mem_cons.mp some
      have positive := List.length_pos_iff.mpr first
      have later := ih others
      rw [List.flatMap_cons, List.length_append, List.length_cons]
      omega

section Programs

variable {ι : Type} {row : ι → List Kind} {kind : ι → StatementKind} {is : List ι}
  (some : ∀ i ∈ is, row i ≠ []) (going : ∀ i ∈ is, .finish ∉ row i)

include some going

/-- The statements of a script are read one by one. -/
theorem topStatements_parses {n : Nat} (enough : is.length < n)
    (each : ∀ i ∈ is, ∀ next later, Parses (statementRule (rules n) Context.top .list)
      (row i ++ next :: later) (fun result => result.2 = kind i) (next :: later)) :
    Parses (topStatements (rules (n + 1))) (is.flatMap row ++ [.finish])
      (fun statements => statements.map Statement.kind = is.map kind) [.finish] := by
  refine .iterate (fun js => js.flatMap row ++ [.finish])
    (fun (read : List Statement) js => (∀ j ∈ js, j ∈ is) ∧
      read.reverse.map Statement.kind ++ js.map kind = is.map kind)
    ?_ ?_ enough (s := []) ⟨fun _ hj => hj, rfl⟩
  · rintro read j js ⟨among, sofar⟩
    obtain ⟨hj, among⟩ := List.forall_mem_cons.mp among
    obtain ⟨first, others, front⟩ := List.exists_cons_of_ne_nil (some j hj)
    obtain ⟨next, later, behind⟩ : ∃ next later, js.flatMap row ++ [.finish] = next :: later :=
      List.exists_cons_of_ne_nil (by simp)
    have parsed := each j hj next later
    have unfinished := going j hj
    rw [List.flatMap_cons, List.append_assoc, behind]
    rw [front, List.mem_cons, not_or] at unfinished
    rw [front, List.cons_append] at parsed ⊢
    apply Parses.peek
    intro t same
    rw [same, beq_eq_false_iff_ne.mpr (Ne.symm unfinished.1), if_neg Bool.false_ne_true]
    refine Parses.bind parsed ?_
    rintro ⟨start, _⟩ rfl
    refine Parses.bind .lastStop ?_
    intro stop _
    exact Parses.pure ⟨_, rfl, among, by simpa using sofar⟩
  · rintro read ⟨_, sofar⟩
    apply Parses.peek
    intro t same
    rw [same, if_pos (beq_self_eq_true _)]
    exact Parses.pure ⟨_, rfl, by simpa using sofar⟩

/-- A text whose tokens are those of statements that can be read is a script of these statements.
There are more levels of rules than a statement has tokens. -/
theorem Program.parse_of_lexemes {source : String}
    (tokens : Lexemes source.toList (is.flatMap row) []) (short : source.toList.length < limit)
    (each : ∀ n, ∀ i ∈ is, (row i).length < n → ∀ next later,
      Parses (statementRule (rules n) Context.top .list) (row i ++ next :: later)
        (fun result => result.2 = kind i) (next :: later)) :
    ∃ program, Program.parse source = .ok program ∧
      program.statements.map Statement.kind = is.map kind := by
  have unfinished : .finish ∉ is.flatMap row := by
    rw [List.mem_flatMap]
    exact fun ⟨i, hi, finish⟩ => going i hi finish
  have fewer := tokens.length_le unfinished
  have few := length_le_flatMap some
  have part (i : ι) (hi : i ∈ is) : (row i).length ≤ (is.flatMap row).length :=
    (List.sublist_flatten_of_mem (List.mem_map_of_mem hi)).length_le
  -- A loop of this level makes more steps than the text has characters.
  have levels : limit < 4 * limit + 15 := by decide
  obtain ⟨first, others, front⟩ : ∃ first others, is.flatMap row ++ [.finish] = first :: others :=
    List.exists_cons_of_ne_nil (by simp)
  have finished := tokens.finish
  rw [front] at finished
  obtain ⟨r, started, ahead⟩ := Reader.start_ahead finished short
  rw [← front] at ahead
  have parsed : Parses (topStatements (rules (4 * limit + 15 + 1))) (is.flatMap row ++ [.finish])
      (fun statements => statements.map Statement.kind = is.map kind) [.finish] :=
    topStatements_parses some going (by omega) fun i hi => each _ i hi (by have := part i hi; omega)
  obtain ⟨statements, r', read, same, _⟩ := parsed r ahead
  refine ⟨⟨statements, r'.pieces.reverse⟩, ?_, same⟩
  rw [Program.parse, started]
  dsimp only
  rw [read]

end Programs

end Script
end HotReload
