import HotReload.Proofs.Script.Readers

/-!
# What parsers give

`Gives r p Q` says that the parser `p`, if it succeeds from the reader `r`, gives a result and a
reader with the property `Q`.  There is one rule for each way of putting parsers together; a look
ahead shows the token that the next step reaches (`Gives.advance`, `nextToken_of_second?`).

With these rules two facts are read off the grammar: where a statement starts
(`statementRule_starts`), and what an import with a phase binds (`importDeclaration_phased`).
-/

namespace HotReload

/-- What an import binds if it asks for a phase: a deferred one binds a namespace and nothing else,
and one for the source of a module binds this, as if it were the default export. -/
def ImportDeclaration.Phased (d : ImportDeclaration) : Prop :=
  match d.phase with
  | .evaluation => True
  | .deferred => ∃ name, d.bindings = [⟨name, .namespaceObject⟩]
  | .source => ∃ name, d.bindings = [⟨name, .defaultExport⟩]

namespace Script

open Script.Parser

/-- Whatever a parser gives from a reader, with the reader after it, has a property. -/
def Gives {α : Type} (r : Reader) (p : Parser α) (Q : α → Reader → Prop) : Prop :=
  ∀ a r', p r = .ok (a, r') → Q a r'

/-- Reading a token skips what stands behind it and scans the next one. -/
theorem advance_scans {r r' : Reader} (h : advance r = .ok ((), r')) :
    ∃ line, skipTrivia .code false r.rest.offset r.rest.text = .ok (line, r'.here) ∧
      scanToken limit line r'.here = .ok (r'.token, r'.rest) ∧ r'.last = r.token.stop := by
  unfold Parser.advance at h
  split at h
  · cases h
  · split at h
    · cases h
    next line here skipped =>
      split at h
      · cases h
      next token rest scanned =>
        cases h
        exact ⟨line, skipped, scanned, rfl⟩

namespace Gives

variable {α β : Type} {r : Reader} {p q : Parser α} {f : α → Parser β} {P : α → Reader → Prop}
  {Q : β → Reader → Prop}

theorem pure {b : β} (h : Q b r) : Gives r (pure b) Q := by
  intro a r' result
  cases result
  exact h

theorem fail {cause : Cause} : Gives r (fail cause) Q := by
  intro a r' result
  cases result

theorem bind (h : Gives r p P) (hf : ∀ a mid, P a mid → Gives mid (f a) Q) :
    Gives r (p >>= f) Q := by
  intro b r' result
  obtain ⟨a, mid, first, second⟩ := bind_ok result
  exact hf a mid (h a mid first) b r' second

theorem after (hf : ∀ a mid, Gives mid (f a) Q) : Gives r (p >>= f) Q :=
  bind (P := fun _ _ => True) (fun _ _ _ => trivial) fun a mid _ => hf a mid

theorem ite {c : Prop} [Decidable c] (hp : c → Gives r p P) (hq : ¬c → Gives r q P) :
    Gives r (if c then p else q) P := by
  split
  next h => exact hp h
  next h => exact hq h

theorem peek {f : Token → Parser β} (h : Gives r (f r.token) Q) : Gives r (peek >>= f) Q := h

theorem peekSecond {f : Option Token → Parser β} (h : Gives r (f r.second?) Q) :
    Gives r (peekSecond >>= f) Q := h

theorem peekThird {f : Option (Token × Token) → Parser β} (h : Gives r (f r.third?) Q) :
    Gives r (peekThird >>= f) Q := h

theorem advance : Gives r advance fun _ r' => nextToken limit r.rest = .ok (r'.token, r'.rest) := by
  intro _ r' read
  obtain ⟨line, skipped, scanned, _⟩ := advance_scans read
  rw [nextToken, skipped]
  exact scanned

/-- A loop keeps what each of its steps keeps. -/
theorem iterate {σ : Type} {step : σ → Parser (Progress σ α)} (Inv : σ → Reader → Prop)
    (h : ∀ s r, Inv s r → Gives r (step s) fun progress r' =>
      match progress with
      | .more s' => Inv s' r'
      | .done a => P a r') (k : Nat) (s : σ) (hs : Inv s r) : Gives r (iterate step k s) P := by
  induction k generalizing r s with
  | zero => exact fail
  | succ k ih =>
      refine bind (h s r hs) fun progress mid kept => ?_
      cases progress with
      | more s' => exact ih s' kept
      | done a => exact pure kept

end Gives

theorem nextToken_of_second? {r : Reader} {t : Token} (h : r.second? = some t) :
    ∃ c, nextToken limit r.rest = .ok (t, c) := by
  unfold Reader.second? at h
  split at h
  · split at h
    next c scanned =>
      cases h
      exact ⟨c, scanned⟩
    · cases h
  · cases h

theorem nextToken_of_third? {r : Reader} {t u : Token} (h : r.third? = some (t, u)) :
    ∃ c, nextToken limit r.rest = .ok (t, c) := by
  unfold Reader.third? at h
  split at h
  · split at h
    next c scanned =>
      split at h
      · split at h
        · cases h
          exact ⟨c, scanned⟩
        · cases h
      · cases h
    · cases h
  · cases h

/-- A token that has been looked at is the one that is reached. -/
theorem Gives.advance_to {r : Reader} {t : Token} (h : ∃ c, nextToken limit r.rest = .ok (t, c)) :
    Gives r Parser.advance fun _ r' => r'.token = t := by
  intro a r' read
  obtain ⟨c, scanned⟩ := h
  have reached := Gives.advance a r' read
  rw [scanned] at reached
  cases reached
  rfl

section Statements

variable {g : Rules} {c : Context} {place : Place} {r : Reader}

/-- What is known of the place where a statement starts: it is that of the next token, unless
decorators lead the export of a class. -/
def StartsAt (g : Rules) (c : Context) (r : Reader) (start : Nat) (kind : StatementKind) : Prop :=
  start = r.token.start ∨ (kind = .exporting ∧ r.token.isMark .decorator ∧
    ∃ found mid, decorators g c r = .ok (found, mid) ∧ mid.token.isWord "export" ∧
      mid.token.start = start)

theorem discard_ok {α : Type} {p : Parser α} {r' : Reader}
    (h : Functor.discard p r = .ok ((), r')) : ∃ a, p r = .ok (a, r') := by
  obtain ⟨a, mid, first, second⟩ := bind_ok (f := fun _ => pure ()) h
  cases second
  exact ⟨a, first⟩

theorem decoratedStatement_starts (decorator : r.token.isMark .decorator) :
    Gives r (decoratedStatement g c place) fun (outer, kind) _ =>
      StartsAt g c r (outer.getD r.token.start) kind := by
  have front : Gives r (Functor.discard (decorators g c)) fun _ mid =>
      ∃ found, decorators g c r = .ok (found, mid) := fun _ mid read => discard_ok read
  refine Gives.bind front ?_
  rintro _ mid ⟨found, read⟩
  apply Gives.peek
  apply Gives.ite
  · intro word
    apply Gives.after
    intro _ last
    apply Gives.pure
    exact .inr ⟨rfl, decorator, found, mid, read, word, rfl⟩
  intro noWord
  apply Gives.ite
  · intro ofClass
    apply Gives.after
    intro _ last
    exact Gives.pure (.inl rfl)
  · intro noClass
    exact Gives.fail

/-- A statement that starts with the next token, whatever is read of it. -/
theorem Gives.startsHere {α : Type} {p : Parser α} {kind : α → StatementKind} :
    Gives r (do let a ← p; return (r.token.start, kind a)) fun (start, kind) _ =>
      StartsAt g c r start kind := by
  apply Gives.after
  intro a last
  exact Gives.pure (.inl rfl)

/-- A statement starts with the next token, but for the export of a class that decorators lead. -/
theorem statementRule_starts :
    Gives r (statementRule g c place) fun (start, kind) _ => StartsAt g c r start kind := by
  apply Gives.peek
  split
  · exact Gives.startsHere
  · exact Gives.startsHere
  next mark =>
    have decorator : r.token.isMark .decorator := by simp [Token.isMark, mark]
    refine Gives.bind (decoratedStatement_starts decorator) ?_
    intro result last starts
    exact Gives.pure starts
  · apply Gives.peekSecond
    apply Gives.ite
    · intro expression
      exact Gives.startsHere
    · intro declaration
      exact Gives.startsHere
  · exact Gives.startsHere
  · exact Gives.startsHere
  · exact Gives.startsHere

end Statements

section Imports

variable {g : Rules} {c : Context} {r : Reader}

/-- A phase is given only in front of a token that goes with it. -/
theorem importPhase_gives : Gives r importPhase fun phase r' =>
    match phase with
    | .evaluation => True
    | .deferred => r'.token.isMark (.operator .times)
    | .source => isBindable r'.token := by
  apply Gives.peek
  apply Gives.ite
  · intro deferred
    apply Gives.peekSecond
    apply Gives.ite
    · intro star
      obtain ⟨t, second, mark⟩ := (Option.any_eq_true _ _).mp star
      refine Gives.bind (.advance_to (nextToken_of_second? second)) ?_
      intro _ last reached
      apply Gives.pure
      rw [reached]
      exact mark
    · intro noStar
      exact Gives.pure trivial
  intro noDefer
  apply Gives.ite
  · intro ofSource
    apply Gives.peekThird
    split
    next u v third =>
      apply Gives.ite
      · intro name
        refine Gives.bind (.advance_to (nextToken_of_third? third)) ?_
        intro _ last reached
        apply Gives.pure
        rw [reached]
        exact (Bool.and_eq_true_iff.mp name).1
      · intro noName
        exact Gives.pure trivial
    · exact Gives.pure trivial
  · intro noSource
    exact Gives.pure trivial

theorem importNamespace_gives :
    Gives r (importNamespace c) fun b _ => b.imported = .namespaceObject := by
  iterate 3
    apply Gives.after
    intro _ mid
  exact Gives.pure rfl

/-- Before a star a namespace is imported, and nothing else. -/
theorem importClause_star (star : r.token.isMark (.operator .times)) :
    Gives r (importClause g c) fun bindings _ => ∃ name, bindings = [⟨name, .namespaceObject⟩] := by
  apply Gives.peek
  apply Gives.ite
  · intro brace
    simp only [Token.isMark, beq_iff_eq] at star brace
    rw [star] at brace
    cases brace
  intro noBrace
  apply Gives.ite
  · intro _
    refine Gives.bind importNamespace_gives ?_
    intro b last imported
    apply Gives.pure
    exact ⟨b.localName, by rw [← imported]⟩
  · intro other
    exact absurd star other

/-- Before a name a default export is imported, and perhaps more. -/
theorem importClause_name (name : isBindable r.token) :
    Gives r (importClause g c) fun bindings _ =>
      ∃ name rest, bindings = ⟨name, .defaultExport⟩ :: rest := by
  have noMark (m : Mark) : ¬r.token.isMark m := by
    intro mark
    simp only [Token.isMark, beq_iff_eq] at mark
    simp [isBindable, mark] at name
  apply Gives.peek
  apply Gives.ite
  · intro brace
    exact absurd brace (noMark _)
  intro noBrace
  apply Gives.ite
  · intro star
    exact absurd star (noMark _)
  intro noStar
  apply Gives.after
  intro first mid
  apply Gives.after
  intro comma mid
  apply Gives.ite
  · intro more
    apply Gives.after
    intro brace mid
    apply Gives.ite
    · intro _
      apply Gives.after
      intro items last
      exact Gives.pure ⟨first, items, rfl⟩
    · intro _
      apply Gives.after
      intro namespace_ last
      exact Gives.pure ⟨first, [namespace_], rfl⟩
  · intro alone
    exact Gives.pure ⟨first, [], rfl⟩

/-- A clause read where its phase has been read binds what goes with the phase. -/
theorem importClause_phased {phase : Phase}
    (token : match phase with
      | .evaluation => True
      | .deferred => r.token.isMark (.operator .times)
      | .source => isBindable r.token) :
    Gives r (importClause g c) fun bindings _ =>
      (phase == .source && bindings.length != 1) = false →
        ∀ source attributed, ImportDeclaration.Phased ⟨source, bindings, phase, attributed⟩ := by
  intro bindings last read one source attributed
  cases phase with
  | evaluation => trivial
  | deferred => exact importClause_star token bindings last read
  | source =>
      obtain ⟨name, rest, rfl⟩ := importClause_name token bindings last read
      cases rest with
      | nil => exact ⟨name, rfl⟩
      | cons b rest => simp at one

theorem importDeclaration_phased :
    Gives r (importDeclaration g c) fun d _ => d.Phased := by
  apply Gives.after
  intro _ front
  apply Gives.peek
  split
  next source alone text =>
    iterate 3
      apply Gives.after
      intro _ mid
    exact Gives.pure trivial
  · refine Gives.bind importPhase_gives ?_
    intro phase mid token
    refine Gives.bind (importClause_phased token) ?_
    intro bindings mid phased
    apply Gives.ite
    · intro _
      exact Gives.fail
    intro one
    apply Gives.after
    intro _ mid
    apply Gives.after
    intro source mid
    apply Gives.after
    intro attributed mid
    apply Gives.after
    intro _ last
    apply Gives.pure
    exact phased (Bool.eq_false_iff.mpr one) source attributed

end Imports

end Script
end HotReload
