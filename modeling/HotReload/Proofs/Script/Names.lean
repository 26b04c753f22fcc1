import HotReload.Proofs.Script.Gaps
import HotReload.Proofs.Script.Lexemes

/-!
# The names that imports bind

A word is scanned character by character, escaped or not, so that it is an identifier or a keyword
(`scanToken_word`).  What an import binds is such a word that may be a name at the top of a module
(`importDeclaration_gives`), whatever stands around it.

What holds of every import declaration that is read holds of the import declarations of a script
(`Program.parse_imports`).  So these bind names (`Program.parse_named`), and have their phases for
what they bind (`Program.parse_phased`).
-/

namespace HotReload
namespace Script

open Script.Parser

theorem isIdentifier_concat {cs : List Char} {c : Char} (h : isIdentifier cs)
    (part : isIdentifierPart c) : isIdentifier (cs ++ [c]) := by
  cases cs with
  | nil => cases h
  | cons d cs =>
      rw [isIdentifier, Bool.and_eq_true] at h
      simp only [List.cons_append, isIdentifier, List.all_append, List.all_cons, List.all_nil,
        Bool.and_true, Bool.and_eq_true]
      exact ⟨h.1, h.2, part⟩

/-- What has been taken of a word goes on as one. -/
theorem scanWord_identifier (n : Nat) {read name : List Char} {escaped escaped' : Bool}
    {c next : Cursor} (begun : isIdentifier read.reverse)
    (h : scanWord n read escaped c = .ok (name, escaped', next)) : isIdentifier name := by
  have started {r : List Char} (h : isIdentifier r.reverse) : r.isEmpty = false := by
    cases r with
    | nil => cases h
    | cons c r => rfl
  have longer {r : List Char} {d : Char} (h : isIdentifier r.reverse) (part : isIdentifierPart d) :
      isIdentifier (d :: r).reverse := by
    rw [List.reverse_cons]
    exact isIdentifier_concat h part
  fun_induction scanWord n read escaped c with
  | case1 | case7 | case8 =>
      simp only [Except.ok.injEq, Prod.mk.injEq] at h
      exact h.1 ▸ begun
  | case2 n read escaped c allowed cs text m next' value valid ih =>
      refine ih (longer begun ?_) h
      have part := (Bool.and_eq_true_iff.mp valid).2
      simp only [allowed, started begun] at part
      exact part
  | case6 n read escaped c allowed ch cs _ _ text part ih =>
      refine ih (longer begun ?_) h
      simp only [allowed, started begun] at part
      exact part
  | _ => simp at h

section Tokens

variable {bound : Nat} {line : Bool} {c next : Cursor} {t : Token} {w : String} {escaped : Bool}

/-- A word that is begun is an identifier. -/
theorem scanWord_begun (hb : 0 < bound) {ch : Char} {cs name : List Char}
    (text : c.text = ch :: cs) (first : isIdentifierStart ch || ch = '\\')
    (h : scanWord bound [] false c = .ok (name, escaped, next)) : isIdentifier name := by
  obtain ⟨n, rfl⟩ := Nat.exists_eq_add_of_lt hb
  have alone {d : Char} (start : isIdentifierStart d) : isIdentifier [d].reverse := by
    simp [isIdentifier, start]
  simp only [Nat.zero_add, scanWord, List.isEmpty_nil, if_true] at h
  split at h
  · split at h
    · split at h
      next valid => exact scanWord_identifier _ (alone (Bool.and_eq_true_iff.mp valid).2) h
      · cases h
    · cases h
  · cases h
  next other text' =>
    rw [text', List.cons.injEq] at text
    obtain ⟨rfl, rfl⟩ := text
    split at h
    next start => exact scanWord_identifier _ (alone start) h
    next none_ =>
      simp only [none_, Bool.false_or, decide_eq_true_eq] at first
      exact absurd first other
  next nothing => simp [nothing] at text

theorem scanName_word (hb : 0 < bound) {ch : Char} {cs : List Char} (text : c.text = ch :: cs)
    (first : isIdentifierStart ch || ch = '\\') (h : scanName bound line c = .ok (t, next))
    (word : t.kind = .word w escaped) : isIdentifier w.toList := by
  unfold scanName at h
  split at h
  next found =>
    cases h
    cases word
    rw [String.toList_ofList]
    exact scanWord_begun hb text first found
  · cases h

/-- A token that is a word is an identifier, or a keyword. -/
theorem scanToken_word (hb : 0 < bound) (h : scanToken bound line c = .ok (t, next))
    (word : t.kind = .word w escaped) : isIdentifier w.toList := by
  have numeral (h : scanNumeral line c = .ok (t, next)) : isIdentifier w.toList := by
    unfold scanNumeral at h
    split at h
    · split at h
      · cases h
      · cases h
        cases word
    · cases h
  have punctuation (h : scanPunctuation line c = .ok (t, next)) : isIdentifier w.toList := by
    unfold scanPunctuation at h
    split at h
    · cases h
      cases word
    · cases h
  unfold scanToken at h
  split at h
  · cases h
    cases word
  · split at h
    · exact numeral h
    · exact punctuation h
  · unfold scanTemplateHead at h
    split at h
    · cases h
      cases word
    · cases h
  · unfold scanPrivateName at h
    split at h
    · split at h
      · cases h
      · cases h
        cases word
    · cases h
  next text =>
    split at h
    · unfold scanText at h
      split at h
      · cases h
        cases word
      · cases h
    · split at h
      · exact numeral h
      · split at h
        next first => exact scanName_word hb text first h word
        · exact punctuation h

end Tokens

/-- The next token of a reader, if it is a word, is an identifier, or a keyword. -/
theorem Reader.Fresh.word {r : Reader} (hr : r.Fresh) {w : String} {escaped : Bool}
    (word : r.token.kind = .word w escaped) : isIdentifier w.toList := by
  obtain ⟨line, scanned⟩ := hr (by rw [word]; rfl)
  exact scanToken_word (by decide) scanned word

/-- A name that may be bound at some place. -/
def IsName (c : Context) (w : String) : Prop := isIdentifier w.toList ∧ isNameIn c w

section Imports

variable {g : Rules} {c : Context} {r : Reader}

/-- What reads tokens leaves a reader that has scanned its next one. -/
theorem Gives.fresh {α : Type} {n d : Nat} {p : Parser α} {P : α → Reader → Prop}
    (hp : Composed n d p) (hr : r.Fresh) (h : Gives r p P) :
    Gives r p fun a r' => P a r' ∧ r'.Fresh := fun a r' read =>
  ⟨h a r' read, (hp.run read).fresh hr⟩

/-- What reads tokens, whatever it gives. -/
theorem Gives.onward {α β : Type} {n d : Nat} {p : Parser α} {f : α → Parser β}
    {Q : β → Reader → Prop} (hp : Composed n d p) (hr : r.Fresh)
    (hf : ∀ a mid, mid.Fresh → Gives mid (f a) Q) : Gives r (p >>= f) Q := by
  have moved := Gives.fresh (P := fun _ _ => True) hp hr fun _ _ _ => trivial
  refine Gives.bind moved ?_
  rintro a mid ⟨_, fresh⟩
  exact hf a mid fresh

theorem bindingName_gives (hr : r.Fresh) : Gives r (bindingName c) fun w _ => IsName c w := by
  apply Gives.peek
  split
  next w escaped word =>
    apply Gives.ite
    · intro allowed
      apply Gives.after
      intro _ mid
      apply Gives.pure
      exact ⟨hr.word word, allowed⟩
    · intro _
      exact Gives.fail
  · exact Gives.fail

/-- A name behind the word `as`. -/
theorem renamed_gives (hr : r.Fresh) (imported : Imported) :
    Gives r (do expectWord "as"; return (⟨← bindingName c, imported⟩ : Binding))
      fun b _ => IsName c b.localName := by
  refine Gives.onward (.expectWord _) hr ?_
  intro _ mid fresh
  refine Gives.bind (bindingName_gives fresh) ?_
  intro w last name
  exact Gives.pure name

theorem importItem_gives (hr : r.Fresh) :
    Gives r (importItem c) fun b _ => IsName c b.localName := by
  apply Gives.peek
  split
  next v alone text =>
    apply Gives.ite
    · intro _
      exact Gives.fail
    · intro _
      refine Gives.onward .advance hr ?_
      intro _ mid fresh
      exact renamed_gives fresh _
  next w escaped word =>
    apply Gives.peekSecond
    apply Gives.ite
    · intro _
      refine Gives.onward .advance hr ?_
      intro _ mid fresh
      exact renamed_gives fresh _
    · intro _
      refine Gives.bind (bindingName_gives hr) ?_
      intro w last name
      exact Gives.pure name
  · exact Gives.fail

theorem importItems_gives (hr : r.Fresh) :
    Gives r (importItems g c) fun bs _ => ∀ b ∈ bs, IsName c b.localName := by
  refine Gives.onward (.expect _) hr ?_
  intro _ front fresh
  -- What has been read binds names, and the next token has been scanned.
  refine Gives.iterate (fun read r => r.Fresh ∧ ∀ b ∈ read, IsName c b.localName) ?_ _ _ ?_
  · rintro read r ⟨fresh, names⟩
    refine Gives.onward (.eat _) fresh ?_
    intro closed mid fresh
    apply Gives.ite
    · intro _
      apply Gives.pure
      intro b hb
      exact names b (List.mem_reverse.mp hb)
    · intro _
      have item := Gives.fresh (importItem_composed c) fresh (importItem_gives fresh)
      refine Gives.bind item ?_
      rintro b mid ⟨name, fresh⟩
      refine Gives.onward (separator_composed _) fresh ?_
      intro _ last fresh
      apply Gives.pure
      exact ⟨fresh, List.forall_mem_cons.mpr ⟨name, names⟩⟩
  · exact ⟨fresh, by simp⟩

theorem importNamespace_names (hr : r.Fresh) :
    Gives r (importNamespace c) fun b _ => IsName c b.localName := by
  refine Gives.onward (.expect _) hr ?_
  intro _ mid fresh
  exact renamed_gives fresh _

theorem importClause_gives (hr : r.Fresh) :
    Gives r (importClause g c) fun bs _ => ∀ b ∈ bs, IsName c b.localName := by
  apply Gives.peek
  apply Gives.ite
  · intro brace
    exact importItems_gives hr
  intro noBrace
  apply Gives.ite
  · intro star
    refine Gives.bind (importNamespace_names hr) ?_
    intro b last name
    apply Gives.pure
    simpa using name
  intro noStar
  have default := Gives.fresh (bindingName_composed c) hr (bindingName_gives hr)
  refine Gives.bind default ?_
  rintro first mid ⟨name, fresh⟩
  refine Gives.onward (.eat _) fresh ?_
  intro comma mid fresh
  apply Gives.ite
  · intro more
    refine Gives.onward (.atMark _) fresh ?_
    intro brace mid fresh
    apply Gives.ite
    · intro _
      refine Gives.bind (importItems_gives fresh) ?_
      intro items last names
      apply Gives.pure
      exact List.forall_mem_cons.mpr ⟨name, names⟩
    · intro _
      refine Gives.bind (importNamespace_names fresh) ?_
      intro b last name'
      apply Gives.pure
      simpa using ⟨name, name'⟩
  · intro alone
    apply Gives.pure
    simpa using name

/-- What an import declaration binds are names. -/
theorem importDeclaration_gives (hr : r.Fresh) :
    Gives r (importDeclaration g c) fun d _ => ∀ b ∈ d.bindings, IsName c b.localName := by
  refine Gives.onward (.expectWord _) hr ?_
  intro _ front fresh
  apply Gives.peek
  split
  next source alone text =>
    -- Only the source stands behind `import`, and nothing is bound.
    iterate 3
      apply Gives.after
      intro _ mid
    apply Gives.pure
    simp
  · refine Gives.onward importPhase_composed fresh ?_
    intro phase mid fresh
    refine Gives.bind (importClause_gives fresh) ?_
    intro bindings mid names
    apply Gives.ite
    · intro _
      exact Gives.fail
    · intro _
      iterate 4
        apply Gives.after
        intro _ mid
      exact Gives.pure names

end Imports

section Statements

variable {g : Rules} {place : Place} {r : Reader} {P : ImportDeclaration → Prop}

/-- A statement that is no import declaration, whatever is read of it. -/
theorem Gives.noImport {α σ : Type} {p : Parser α} {start : α → σ} {kind : α → StatementKind}
    (other : ∀ a d, kind a ≠ .importing d) :
    Gives r (do let a ← p; return (start a, kind a)) fun result _ =>
      ∀ d, result.2 = .importing d → P d := by
  apply Gives.after
  intro a last
  apply Gives.pure
  intro d same
  exact absurd same (other a d)

/-- What holds of every import declaration that is read holds of the statements. -/
theorem statementRule_imports
    (declared : Gives r (importDeclaration g Context.top) fun d _ => P d) :
    Gives r (statementRule g Context.top place) fun result _ =>
      ∀ d, result.2 = .importing d → P d := by
  apply Gives.peek
  split
  · exact Gives.noImport (by simp)
  · exact Gives.noImport (by simp)
  · have decorated : Gives r (decoratedStatement g Context.top place) fun result _ =>
        ∀ d, result.2 = .importing d → P d := by
      apply Gives.after
      intro _ mid
      apply Gives.peek
      apply Gives.ite
      · intro word
        exact Gives.noImport (by simp)
      intro noWord
      apply Gives.ite
      · intro ofClass
        exact Gives.noImport (by simp)
      · intro noClass
        exact Gives.fail
    refine Gives.bind decorated ?_
    intro result last holds
    exact Gives.pure holds
  · apply Gives.peekSecond
    apply Gives.ite
    · intro expression
      exact Gives.noImport (by simp)
    · intro declaration
      refine Gives.bind declared ?_
      intro d last holds
      apply Gives.pure
      rintro _ ⟨⟩
      exact holds
  · exact Gives.noImport (by simp)
  · exact Gives.noImport (by simp)
  · exact Gives.noImport (by simp)

/-- A statement, read from where tokens are scanned. -/
theorem statement_imports (n : Nat) (hr : r.Fresh)
    (declared : ∀ g, Gives r (importDeclaration g Context.top) fun d _ => P d) :
    Gives r ((rules n).statement Context.top .list) fun result r' =>
      (∀ d, result.2 = .importing d → P d) ∧ r'.Fresh := by
  rintro ⟨start, kind⟩ r' read
  have kindOnly : (Prod.snd <$> (rules n).statement Context.top .list) r = .ok (kind, r') := by
    change StateT.map _ _ _ = _
    rw [StateT.map, read]
    rfl
  refine ⟨?_, (((grounded_rules n).statement Context.top .list).run kindOnly).fresh hr⟩
  cases n with
  | zero => cases read
  | succ n => exact statementRule_imports (declared _) _ _ read

end Statements

section Programs

variable {source : String} {program : Program} (h : Program.parse source = .ok program)

include h

/-- What holds of every import declaration that is read holds of those of a script. -/
theorem Program.parse_imports {P : ImportDeclaration → Prop}
    (declared : ∀ g (r : Reader), r.Fresh →
      Gives r (importDeclaration g Context.top) fun d _ => P d) :
    ∀ s ∈ program.statements, ∀ d, s.kind = .importing d → P d := by
  unfold Program.parse at h
  split at h
  · cases h
  next reader started =>
    split at h
    · cases h
    next statements last read =>
      cases h
      have loop (n k : Nat) : Gives reader (iterate (topStatement (rules n)) k [])
          fun statements _ => ∀ s ∈ statements, ∀ d, s.kind = .importing d → P d := by
        -- It holds of what has been read, and the next token has been scanned.
        refine Gives.iterate
          (fun read r => r.Fresh ∧ ∀ s ∈ read, ∀ d, s.kind = .importing d → P d) ?_ k [] ?_
        · rintro read r ⟨fresh, sofar⟩
          apply Gives.peek
          apply Gives.ite
          · intro finish
            apply Gives.pure
            intro s hs
            exact sofar s (List.mem_reverse.mp hs)
          · intro more
            refine Gives.bind (statement_imports n fresh fun g => declared g r fresh) ?_
            rintro ⟨start, kind⟩ mid ⟨holds, fresh⟩
            refine Gives.pure (r := mid) ⟨fresh, ?_⟩
            exact List.forall_mem_cons.mpr ⟨holds, sofar⟩
        · exact ⟨(Reader.start_ready started).fresh, by simp⟩
      exact loop _ _ statements last read

/-- The import declarations of a script bind names. -/
theorem Program.parse_named : ∀ s ∈ program.statements, ∀ d, s.kind = .importing d →
    ∀ b ∈ d.bindings, IsName Context.top b.localName :=
  Program.parse_imports h fun _ _ fresh => importDeclaration_gives fresh

/-- The import declarations of a script have their phases for what they bind. -/
theorem Program.parse_phased : ∀ s ∈ program.statements, ∀ d, s.kind = .importing d → d.Phased :=
  Program.parse_imports h fun _ _ _ => importDeclaration_phased

end Programs

end Script
end HotReload
