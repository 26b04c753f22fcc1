import HotReload.Module.Rendering
import HotReload.Proofs.Module.Loading
import HotReload.Proofs.Script.Rows
import Mathlib.Data.List.Perm.Basic

/-!
# Rendered imports are read as what they bind

Bindings are rendered as import declarations of three forms (`Import.Clause`).  What such a
declaration looks like is a row of tokens (`Import.kinds`), and the parser of declarations, on that
row, gives the source and the bindings of the declaration, whatever names these have
(`Import.parses_declaration`).  The rendered text has the tokens of the declarations for the given
bindings (`Import.lexemes_renderImport`), and they bind the same, with the named ones in their order
(`Import.perm_bindings`, `Import.named_bindings`); so a script that is read from the text is these
declarations (`renderImport_binds`), and what stays of an import that is rebound in part binds just
its other bindings (`Plan.mixed_binds`).

The items in the braces are written like the fields of a destructuring (`Loader.Field`), with a word
in place of the colon.
-/

namespace HotReload

open Script Script.Parser Loader

namespace Import

/-- What stands between the first word of an import declaration and its source. -/
inductive Clause where
  /-- `name` -/
  | single (name : String)
  /-- `* as name` -/
  | whole (name : String)
  /-- `{ items }`, where `name, ` may stand in front. -/
  | listed (first : Option String) (items : List Field)
  deriving DecidableEq, Repr

end Import

/-- An import declaration without attributes: `import clause from "source";` -/
structure Import where
  source : String
  clause : Import.Clause
  deriving DecidableEq, Repr

namespace Import

/-- What an item binds. -/
def item (f : Field) : Binding := ⟨f.target, .named f.name⟩

def Clause.bindings : Clause → List Binding
  | .single name => [⟨name, .defaultExport⟩]
  | .whole name => [⟨name, .namespaceObject⟩]
  | .listed first items => first.toList.map (⟨·, .defaultExport⟩) ++ items.map item

def bindings (i : Import) : List Binding := i.clause.bindings

/-- What is declared. -/
def declaration (i : Import) : ImportDeclaration where
  source := i.source
  bindings := i.bindings
  phase := .evaluation
  attributed := false

def itemKinds : Field → List Kind
  | .short name => [word name]
  | .keyed key target => [key.kind, word "as", word target]

/-- The tokens of the items in braces. -/
def listKinds (items : List Field) : List Kind :=
  .mark .openBrace :: separated (items.map itemKinds) ++ [.mark .closeBrace]

def Clause.kinds : Clause → List Kind
  | .single name => [word name]
  | .whole name => [.mark (.operator .times), word "as", word name]
  | .listed none items => listKinds items
  | .listed (some name) items => word name :: .mark .comma :: listKinds items

def kinds (i : Import) : List Kind :=
  word "import" :: i.clause.kinds ++ [word "from", .text i.source false, .mark .semicolon]

theorem itemKinds_bound (f : Field) : 0 < (itemKinds f).length ∧ .finish ∉ itemKinds f := by
  cases f with
  | short name => simp [itemKinds, word]
  | keyed key target => cases key <;> simp [itemKinds, Key.kind, word]

/-- Items are no more than their tokens, and the text is not over among them. -/
theorem separated_bound (items : List Field) :
    items.length ≤ (separated (items.map itemKinds)).length ∧
      .finish ∉ separated (items.map itemKinds) := by
  induction items with
  | nil => simp [separated]
  | cons f items ih =>
      obtain ⟨positive, going⟩ := itemKinds_bound f
      cases items with
      | nil => simpa [separated] using ⟨positive, going⟩
      | cons f' items =>
          rw [separated] at ih ⊢
          rw [List.map_cons, List.map_cons, List.intercalate_cons_cons, ← List.map_cons]
          simp only [List.length_append, List.length_cons, List.length_nil, List.mem_append,
            List.mem_singleton, reduceCtorEq, or_false, not_or] at ih ⊢
          exact ⟨by omega, going, ih.2⟩

/-- Bindings are fewer than the tokens of their declaration, and the text is not over among
these. -/
theorem kinds_bound (i : Import) : i.bindings.length < i.kinds.length ∧ .finish ∉ i.kinds := by
  obtain ⟨source, clause⟩ := i
  cases clause with
  | single name => simp [bindings, Clause.bindings, kinds, Clause.kinds, word]
  | whole name => simp [bindings, Clause.bindings, kinds, Clause.kinds, word]
  | listed first items =>
      obtain ⟨few, going⟩ := separated_bound items
      have list : items.length + 2 ≤ (listKinds items).length ∧ .finish ∉ listKinds items := by
        simp only [listKinds, List.cons_append, List.length_cons, List.length_append,
          List.length_nil, List.mem_cons, List.mem_append, List.not_mem_nil, reduceCtorEq, going,
          or_false, not_false_eq_true, and_true]
        omega
      cases first with
      | none =>
          constructor
          · simp only [bindings, Clause.bindings, kinds, Clause.kinds, List.length_append,
              List.length_map, List.length_cons, Option.toList_none, List.length_nil]
            omega
          · simp [kinds, Clause.kinds, word, list.2]
      | some name =>
          constructor
          · simp only [bindings, Clause.bindings, kinds, Clause.kinds, List.length_append,
              List.length_map, List.length_cons, Option.toList_some, List.length_nil]
            omega
          · simp [kinds, Clause.kinds, word, list.2]

section Parsing

variable {g : Rules} {c : Context} {next : Kind} {later : List Kind}

theorem parses_bindingName {name : String} (h : isNameIn c name) :
    Parses (bindingName c) (word name :: next :: later) (· = name) (next :: later) := by
  apply Parses.peek
  intro t same
  simp only [same, word]
  apply Parses.ite_pos h
  apply Parses.seq (.advance (by simp))
  exact Parses.pure rfl

/-- A name behind the word `as`. -/
theorem parses_renamed {name : String} (h : isNameIn c name) (imported : Imported) :
    Parses (do expectWord "as"; return (⟨← bindingName c, imported⟩ : Binding))
      (word "as" :: word name :: next :: later) (· = ⟨name, imported⟩) (next :: later) := by
  apply Parses.seq .expectWord
  apply Parses.seq (parses_bindingName h)
  exact Parses.pure rfl

theorem parses_item {f : Field} (h : isNameIn c f.target) {m : Mark} :
    Parses (importItem c) (itemKinds f ++ .mark m :: later) (· = item f) (.mark m :: later) := by
  cases f with
  | short name =>
      apply Parses.peek
      intro t same
      simp only [same]
      apply Parses.peekSecond
      intro u behind
      have alone : ¬ (some u).any (·.isWord "as") := by
        simp [Token.isWord, behind]
      apply Parses.ite_neg alone
      apply Parses.seq (parses_bindingName h)
      exact Parses.pure rfl
  | keyed key target =>
      apply Parses.peek
      intro t same
      cases key with
      | bare name =>
          simp only [same]
          apply Parses.peekSecond
          intro u behind
          have renamed : (some u).any (·.isWord "as") := by
            simp [Token.isWord, behind, word]
          apply Parses.ite_pos renamed
          apply Parses.seq (.advance (by simp))
          exact parses_renamed h _
      | quoted name =>
          simp only [same, Key.kind]
          apply Parses.ite_neg Bool.false_ne_true
          apply Parses.seq (.advance (by simp))
          exact parses_renamed h _

/-- The comma behind an item is read. -/
theorem parses_separator_comma {close : Mark} (other : close ≠ .comma) :
    Parses (separator close) (.mark .comma :: next :: later) (· = ()) (next :: later) := by
  have going : ¬ (Kind.mark .comma == .mark close) := by
    simpa using other.symm
  apply Parses.seq .atMark
  apply Parses.ite_neg going
  exact Parses.expect

/-- What closes the list is not. -/
theorem parses_separator_close {close : Mark} :
    Parses (separator close) (.mark close :: later) (· = ()) (.mark close :: later) := by
  apply Parses.seq .atMark
  apply Parses.ite_pos (beq_self_eq_true _)
  exact Parses.pure rfl

/-- An item starts with a word or a string. -/
theorem eat_itemKinds (f : Field) {m : Mark} :
    Parses (eat m) (itemKinds f ++ later) (· = false) (itemKinds f ++ later) := by
  cases f with
  | short name => exact Parses.eat_other (by simp [word])
  | keyed key target => cases key <;> exact Parses.eat_other (by simp [Key.kind, word])

theorem parses_list {items : List Field} (h : ∀ f ∈ items, isNameIn c f.target)
    (enough : items.length < g.steps) (next : Kind) (later : List Kind) :
    Parses (importItems g c) (listKinds items ++ next :: later) (· = items.map item)
      (next :: later) := by
  let ahead (fs : List Field) := separated (fs.map itemKinds) ++ .mark .closeBrace :: next :: later
  have front (fs : List Field) : ∃ first others, ahead fs = first :: others :=
    List.exists_cons_of_ne_nil (by simp [ahead])
  have row : listKinds items ++ next :: later = .mark .openBrace :: ahead items := by
    simp [ahead, listKinds]
  have opened : Parses (expect .openBrace) (.mark .openBrace :: ahead items) (· = ())
      (ahead items) := by
    obtain ⟨first, others, same⟩ := front items
    rw [same]
    exact Parses.expect
  rw [row]
  apply Parses.seq opened
  -- The items that have been read, with those that are still ahead, are all of them.
  refine Parses.iterate ahead
    (fun (read : List Binding) fs => (∀ f ∈ fs, isNameIn c f.target) ∧
      read.reverse ++ fs.map item = items.map item) ?_ ?_ enough ?_
  · rintro read f fs ⟨names, sofar⟩
    obtain ⟨name, names⟩ := List.forall_mem_cons.mp names
    have sofar' : (item f :: read).reverse ++ fs.map item = items.map item := by
      simpa using sofar
    have ahead_cons := separated_cons (itemKinds f) (fs.map itemKinds) .closeBrace (next :: later)
    simp only [ahead, List.map_cons, ahead_cons]
    apply Parses.seq (eat_itemKinds f)
    apply Parses.ite_neg Bool.false_ne_true
    cases fs with
    | nil =>
        apply Parses.seq (parses_item name)
        apply Parses.seq parses_separator_close
        exact Parses.pure ⟨_, rfl, names, sofar'⟩
    | cons f' fs =>
        have comma : Parses (separator .closeBrace) (.mark .comma :: ahead (f' :: fs)) (· = ())
            (ahead (f' :: fs)) := by
          obtain ⟨first, others, same⟩ := front (f' :: fs)
          rw [same]
          exact parses_separator_comma (by decide)
        apply Parses.seq (parses_item name)
        apply Parses.seq comma
        exact Parses.pure ⟨_, rfl, names, sofar'⟩
  · rintro read ⟨_, sofar⟩
    apply Parses.seq .eat
    apply Parses.ite_pos rfl
    exact Parses.pure ⟨_, rfl, by simpa using sofar⟩
  · exact ⟨h, rfl⟩

theorem parses_namespace {name : String} (h : isNameIn c name) :
    Parses (importNamespace c)
      (.mark (.operator .times) :: word "as" :: word name :: next :: later)
      (· = ⟨name, .namespaceObject⟩) (next :: later) := by
  apply Parses.seq .expect
  exact parses_renamed h _

theorem parses_clause {clause : Clause} (h : ∀ b ∈ clause.bindings, isNameIn c b.localName)
    (enough : clause.bindings.length < g.steps) (w : String) (escaped : Bool)
    (later : List Kind) : Parses (importClause g c) (clause.kinds ++ .word w escaped :: later)
      (· = clause.bindings) (.word w escaped :: later) := by
  cases clause with
  | single name =>
      have allowed := h _ List.mem_cons_self
      apply Parses.peek
      intro t same
      have noBrace : ¬ t.isMark .openBrace := by simp [Token.isMark, same, word]
      have noStar : ¬ t.isMark (.operator .times) := by simp [Token.isMark, same, word]
      apply Parses.ite_neg noBrace
      apply Parses.ite_neg noStar
      apply Parses.seq (parses_bindingName allowed)
      apply Parses.seq (.eat_other (by simp))
      apply Parses.ite_neg Bool.false_ne_true
      exact Parses.pure rfl
  | whole name =>
      have allowed := h _ List.mem_cons_self
      apply Parses.peek
      intro t same
      have noBrace : ¬ t.isMark .openBrace := by simp [Token.isMark, same]
      have star : t.isMark (.operator .times) := by simp [Token.isMark, same]
      apply Parses.ite_neg noBrace
      apply Parses.ite_pos star
      apply Parses.seq (parses_namespace allowed)
      exact Parses.pure rfl
  | listed first items =>
      have names : ∀ f ∈ items, isNameIn c f.target := by
        intro f hf
        exact h (item f) (List.mem_append_right _ (List.mem_map_of_mem hf))
      have few : items.length < g.steps := by
        simp only [Clause.bindings, List.length_append, List.length_map] at enough
        omega
      have list := parses_list names few (.word w escaped) later
      cases first with
      | none =>
          apply Parses.peek
          intro t same
          have brace : t.isMark .openBrace := by simp [Token.isMark, same]
          apply Parses.ite_pos brace
          exact list
      | some name =>
          have allowed := h _ List.mem_cons_self
          apply Parses.peek
          intro t same
          have noBrace : ¬ t.isMark .openBrace := by simp [Token.isMark, same, word]
          have noStar : ¬ t.isMark (.operator .times) := by simp [Token.isMark, same, word]
          apply Parses.ite_neg noBrace
          apply Parses.ite_neg noStar
          apply Parses.seq (parses_bindingName allowed)
          apply Parses.seq .eat
          apply Parses.ite_pos rfl
          apply Parses.seq .atMark
          apply Parses.ite_pos (beq_self_eq_true _)
          apply Parses.seq list
          exact Parses.pure rfl

/-- In front of a mark no phase is meant. -/
theorem parses_phase_mark (m : Mark) (later : List Kind) :
    Parses importPhase (.mark m :: later) (· = .evaluation) (.mark m :: later) := by
  apply Parses.peek
  intro t same
  have noDefer : ¬ t.isWord "defer" := by simp [Token.isWord, same]
  have noSource : ¬ t.isWord "source" := by simp [Token.isWord, same]
  apply Parses.ite_neg noDefer
  apply Parses.ite_neg noSource
  exact Parses.pure rfl

/-- A name that is no phase, since a comma stands behind it, or `from` and the source. -/
theorem parses_phase_name (name : String) {kind : Kind} {later : List Kind}
    (behind : kind = .mark .comma ∨
      kind = word "from" ∧ ∃ v rest, later = .text v false :: rest) :
    Parses importPhase (word name :: kind :: later) (· = .evaluation)
      (word name :: kind :: later) := by
  apply Parses.peek
  intro t same
  by_cases deferred : t.isWord "defer"
  · apply Parses.ite_pos deferred
    apply Parses.peekSecond
    intro u second
    have noStar : ¬ (some u).any (·.isMark (.operator .times)) := by
      rcases behind with rfl | ⟨rfl, _⟩ <;> simp [Token.isMark, second, word]
    apply Parses.ite_neg noStar
    exact Parses.pure rfl
  by_cases ofSource : t.isWord "source"
  · apply Parses.ite_neg deferred
    apply Parses.ite_pos ofSource
    rcases behind with rfl | ⟨rfl, v, rest, rfl⟩
    · apply Parses.peekThird_mark
      exact Parses.pure rfl
    · apply Parses.peekThird
      intro u v second third
      have noPhase : ¬ (isBindable u && (!u.isWord "from" || v.isWord "from")) := by
        simp [Token.isWord, second, third]
      apply Parses.ite_neg noPhase
      exact Parses.pure rfl
  · apply Parses.ite_neg deferred
    apply Parses.ite_neg ofSource
    exact Parses.pure rfl

/-- The names of phases are names of bindings where no phase is meant. -/
theorem parses_phase (clause : Clause) (source : String) (later : List Kind) :
    Parses importPhase (clause.kinds ++ word "from" :: .text source false :: later)
      (· = .evaluation) (clause.kinds ++ word "from" :: .text source false :: later) := by
  cases clause with
  | single name =>
      apply parses_phase_name
      exact .inr ⟨rfl, source, later, rfl⟩
  | whole name => exact parses_phase_mark _ _
  | listed first items =>
      cases first with
      | none => exact parses_phase_mark _ _
      | some name =>
          apply parses_phase_name
          exact .inl rfl

/-- A clause starts neither with a string, nor with what makes an expression of an import. -/
theorem kinds_front (clause : Clause) : ∃ kind others, clause.kinds = kind :: others ∧
    (∀ v alone, kind ≠ .text v alone) ∧ kind ≠ .mark .dot ∧ kind ≠ .mark .openParen := by
  cases clause with
  | single name => exact ⟨_, _, rfl, by simp [word]⟩
  | whole name => exact ⟨_, _, rfl, by simp⟩
  | listed first items =>
      cases first with
      | none => exact ⟨_, _, rfl, by simp⟩
      | some name => exact ⟨_, _, rfl, by simp [word]⟩

theorem parses_textLiteral {v : String} {alone : Bool} :
    Parses textLiteral (.text v alone :: next :: later) (· = v) (next :: later) := by
  apply Parses.peek
  intro t same
  simp only [same]
  apply Parses.seq (.advance (by simp))
  exact Parses.pure rfl

/-- A semicolon is no attribute. -/
theorem parses_noAttributes :
    Parses (importAttributes g) (.mark .semicolon :: later) (· = false)
      (.mark .semicolon :: later) := by
  apply Parses.peek
  intro t same
  have noKeyword : ¬ (t.isWord "with" || t.isWord "assert" && !t.afterLine) := by
    simp [Token.isWord, same]
  apply Parses.ite_neg noKeyword
  exact Parses.pure rfl

/-- The tokens of an import declaration are read as what it declares. -/
theorem parses_declaration {i : Import} (h : ∀ b ∈ i.bindings, isNameIn c b.localName)
    (enough : i.bindings.length < g.steps) (next : Kind) (later : List Kind) :
    Parses (importDeclaration g c) (i.kinds ++ next :: later) (· = i.declaration)
      (next :: later) := by
  obtain ⟨source, clause⟩ := i
  have row : kinds ⟨source, clause⟩ ++ next :: later = word "import" ::
      (clause.kinds ++ word "from" :: .text source false :: .mark .semicolon :: next :: later) := by
    simp [kinds]
  have phase := parses_phase clause source (.mark .semicolon :: next :: later)
  have bound := parses_clause h enough "from" false
    (.text source false :: .mark .semicolon :: next :: later)
  obtain ⟨first, others, front, noText, _⟩ := kinds_front clause
  rw [row]
  rw [front, List.cons_append] at phase bound ⊢
  apply Parses.seq .expectWord
  apply Parses.peek
  intro t same
  split
  next v alone text => exact absurd (same.symm.trans text) (noText v alone)
  · apply Parses.seq phase
    apply Parses.seq bound
    apply Parses.ite_neg (by simp)
    apply Parses.seq .expectWord
    apply Parses.seq parses_textLiteral
    apply Parses.seq parses_noAttributes
    apply Parses.seq .semicolon
    exact Parses.pure rfl

theorem parses_statement {i : Import} (h : ∀ b ∈ i.bindings, isNameIn c b.localName)
    (enough : i.bindings.length < g.steps) (place : Place) (next : Kind) (later : List Kind) :
    Parses (statementRule g c place) (i.kinds ++ next :: later)
      (fun result => result.2 = .importing i.declaration) (next :: later) := by
  have declared := parses_declaration h enough next later
  obtain ⟨first, others, front, _, noDot, noParen⟩ := kinds_front i.clause
  rw [kinds, front, List.cons_append, List.cons_append, List.cons_append] at declared ⊢
  apply Parses.peek
  intro t same
  simp only [same, word]
  apply Parses.peekSecond
  intro u second
  have noExpression : ¬ (some u).any fun u => u.isMark .dot || u.isMark .openParen := by
    simp [Token.isMark, second, noDot, noParen]
  apply Parses.ite_neg noExpression
  apply Parses.seq declared
  exact Parses.pure rfl

end Parsing

section Writing

variable {source : String}

/-- A text has the tokens of an import, whatever follows. -/
def Spells (text : String) (i : Import) : Prop :=
  ∀ rest, Lexemes (text.toList ++ rest) i.kinds rest

/-- The end of a declaration. -/
theorem lexemes_from (source : String) (rest : List Char) :
    Lexemes (' ' :: ("from".toList ++ ' ' :: ((Json.quote source).toList ++ ';' :: rest)))
      [word "from", .text source false, .mark .semicolon] rest := by
  apply Lexemes.cons (lexeme_word "from" (by decide) (by decide) _).blank
  apply Lexemes.cons (lexeme_text source _).blank
  exact (lexeme_delimiter (by decide) rest).single

theorem spells_default {name : String} (h : isIdentifier name.toList) :
    Spells (defaultStatement source name) ⟨source, .single name⟩ := by
  intro rest
  have text : (defaultStatement source name).toList ++ rest = "import".toList ++ ' ' ::
      (name.toList ++ ' ' :: ("from".toList ++ ' ' :: ((Json.quote source).toList ++
        ';' :: rest))) := by
    -- Its equation would be proved by comparing the bytes of the texts.
    delta defaultStatement
    simp
  rw [text]
  apply Lexemes.cons (lexeme_word "import" (by decide) (by decide) _)
  apply Lexemes.cons (lexeme_word _ h (by decide) _).blank
  exact lexemes_from source rest

theorem spells_namespace {name : String} (h : isIdentifier name.toList) :
    Spells (namespaceStatement source name) ⟨source, .whole name⟩ := by
  intro rest
  have text : (namespaceStatement source name).toList ++ rest = "import".toList ++ ' ' :: '*' ::
      ' ' :: ("as".toList ++ ' ' :: (name.toList ++ ' ' :: ("from".toList ++ ' ' ::
        ((Json.quote source).toList ++ ';' :: rest)))) := by
    delta namespaceStatement
    simp
  rw [text]
  apply Lexemes.cons (lexeme_word "import" (by decide) (by decide) _)
  apply Lexemes.cons (lexeme_star _).blank
  apply Lexemes.cons (lexeme_word "as" (by decide) (by decide) _).blank
  apply Lexemes.cons (lexeme_word _ h (by decide) _).blank
  exact lexemes_from source rest

theorem writes_item (name : String) {localName : String} (h : isIdentifier localName.toList) :
    Writes (importItemText name localName).toList (itemKinds (.of name localName)) := by
  rw [importItemText, Field.of]
  split
  next same => exact writes_word h
  next other =>
    refine ⟨List.cons_ne_nil _ _, fun c rest ends => ?_⟩
    have text : (keyText name ++ " as " ++ localName).toList ++ c :: rest = (keyText name).toList ++
        ' ' :: ("as".toList ++ ' ' :: (localName.toList ++ c :: rest)) := by simp
    have key := (writes_key name).lexes ' ' ("as".toList ++ ' ' :: (localName.toList ++ c :: rest))
      (by decide)
    rw [text]
    refine key.append ?_
    apply Lexemes.cons (lexeme_word "as" (by decide) (by decide) _).blank
    exact (lexeme_word _ h ends rest).blank.single

/-- A text writes an item. -/
abbrev ItemText (text : String) (item : Field) : Prop := Writes text.toList (itemKinds item)

theorem writes_items {bindings : List Binding}
    (h : ∀ b ∈ bindings, isIdentifier b.localName.toList) :
    List.Forall₂ ItemText (namedItems bindings) (fieldsOf bindings) := by
  induction bindings with
  | nil => exact .nil
  | cons b bindings ih =>
      obtain ⟨first, others⟩ := List.forall_mem_cons.mp h
      have later := ih others
      rw [namedItems, fieldsOf] at later ⊢
      cases imported : b.imported with
      | defaultExport => simpa [List.filterMap_cons, imported] using later
      | namespaceObject => simpa [List.filterMap_cons, imported] using later
      | named name => simpa [List.filterMap_cons, imported] using ⟨writes_item name first, later⟩

theorem lexemes_inBraces {texts : List String} {items : List Field}
    (written : List.Forall₂ ItemText texts items) (some : texts ≠ []) (rest : List Char) :
    Lexemes ((inBraces texts).toList ++ rest) (listKinds items) rest := by
  have text : (inBraces texts).toList ++ rest = '\x7b' :: ' ' ::
      (", ".toList.intercalate (texts.map String.toList) ++ ' ' :: '\x7d' :: rest) := by
    simp [inBraces, String.toList_intercalate]
  have joined : Writes (", ".toList.intercalate (texts.map String.toList))
      (separated (items.map itemKinds)) :=
    Writes.intercalate separates_comma (by simpa using some) (by simpa using written)
  have inner := joined.lexes ' ' ('\x7d' :: rest) (by decide)
  have closed : Lexemes (' ' :: '\x7d' :: rest) [.mark .closeBrace] rest :=
    (lexeme_delimiter (by decide) rest).blank.single
  have opened := (inner.append closed).blank (by simp)
  rw [text]
  exact Lexemes.cons (lexeme_delimiter (by decide) _) opened

theorem spells_named {first : Option String} (h : ∀ name ∈ first, isIdentifier name.toList)
    {texts : List String} {items : List Field} (written : List.Forall₂ ItemText texts items)
    (some : texts ≠ []) :
    Spells (namedStatement source first texts) ⟨source, .listed first items⟩ := by
  intro rest
  have list := lexemes_inBraces written some
    (' ' :: ("from".toList ++ ' ' :: ((Json.quote source).toList ++ ';' :: rest)))
  have ended := list.append (lexemes_from source rest)
  cases first with
  | none =>
      have text : (namedStatement source none texts).toList ++ rest = "import".toList ++ ' ' ::
          ((inBraces texts).toList ++ ' ' :: ("from".toList ++ ' ' :: ((Json.quote source).toList ++
            ';' :: rest))) := by
        delta namedStatement
        simp
      rw [text]
      apply Lexemes.cons (lexeme_word "import" (by decide) (by decide) _)
      exact ended.blank (by simp)
  | some name =>
      have text : (namedStatement source (.some name) texts).toList ++ rest = "import".toList ++
          ' ' :: (name.toList ++ ',' :: ' ' :: ((inBraces texts).toList ++ ' ' ::
            ("from".toList ++ ' ' :: ((Json.quote source).toList ++ ';' :: rest)))) := by
        delta namedStatement
        simp
      rw [text]
      apply Lexemes.cons (lexeme_word "import" (by decide) (by decide) _)
      apply Lexemes.cons (lexeme_word _ (h name rfl) (by decide) _).blank
      apply Lexemes.cons (lexeme_delimiter (by decide) _)
      exact ended.blank (by simp)

/-- Declarations with line ends between them. -/
theorem lexemes_lines {texts : List String} {imports : List Import}
    (spelled : List.Forall₂ Spells texts imports) :
    Lexemes (String.intercalate "\n" texts).toList (imports.flatMap kinds) [] := by
  rw [String.toList_intercalate]
  induction spelled with
  | nil => exact .nil []
  | @cons text i texts imports first others ih =>
      cases others with
      | nil => simpa using first []
      | cons second others =>
          rw [List.map_cons, List.map_cons, List.intercalate_cons_cons, List.flatMap_cons,
            List.append_assoc]
          refine (first _).append ?_
          apply Lexemes.lineEnd ih
          simp [kinds]

end Writing

section Declarations

variable {source : String} {bindings : List Binding}

/-- The declarations that bind the given bindings. -/
def importsOf (source : String) (bindings : List Binding) : List Import :=
  let items := fieldsOf bindings
  let defaults := defaultNames bindings
  let namespaces := (namespaceNames bindings).map fun name => ⟨source, .whole name⟩
  if items.isEmpty then defaults.map (⟨source, .single ·⟩) ++ namespaces
  else
    ⟨source, .listed defaults.head? items⟩ ::
      defaults.tail.map (⟨source, .single ·⟩) ++ namespaces

/-- The local names that are bound to one thing are identifiers, if all local names are. -/
theorem isIdentifier_of_mem_localNames (h : ∀ b ∈ bindings, isIdentifier b.localName.toList)
    {imported : Imported} : ∀ name ∈ bindings.filterMap fun b =>
      if b.imported = imported then some b.localName else none, isIdentifier name.toList := by
  intro name member
  obtain ⟨b, hb, same⟩ := List.mem_filterMap.mp member
  split at same
  · cases same
    exact h b hb
  · cases same

/-- Declarations of one name each are spelled one by one. -/
theorem spells_map {names : List String} {text : String → String} {clause : String → Clause}
    (h : ∀ name ∈ names, Spells (text name) ⟨source, clause name⟩) :
    List.Forall₂ Spells (names.map text) (names.map fun name => ⟨source, clause name⟩) :=
  List.forall₂_map_left_iff.mpr (List.forall₂_map_right_iff.mpr (List.forall₂_same.mpr h))

theorem spells_importsOf (h : ∀ b ∈ bindings, isIdentifier b.localName.toList) :
    List.Forall₂ Spells (importStatements source bindings) (importsOf source bindings) := by
  have local_ (imported : Imported) := @isIdentifier_of_mem_localNames bindings h imported
  have items := writes_items h
  have namespaces : List.Forall₂ Spells ((namespaceNames bindings).map (namespaceStatement source))
      ((namespaceNames bindings).map fun name => ⟨source, .whole name⟩) :=
    spells_map fun name member => spells_namespace (local_ _ name member)
  rw [importStatements, importsOf]
  by_cases none_ : fieldsOf bindings = []
  · have none_' : namedItems bindings = [] := by
      rw [none_] at items
      exact List.forall₂_nil_right_iff.mp items
    rw [none_, none_']
    have defaults : List.Forall₂ Spells ((defaultNames bindings).map (defaultStatement source))
        ((defaultNames bindings).map fun name => ⟨source, .single name⟩) := by
      apply spells_map
      intro name member
      exact spells_default (local_ _ name member)
    exact List.rel_append defaults namespaces
  · have some_ : namedItems bindings ≠ [] := by
      intro empty
      rw [empty] at items
      exact none_ (List.forall₂_nil_left_iff.mp items)
    have first : ∀ name ∈ (defaultNames bindings).head?, isIdentifier name.toList := by
      intro name member
      exact local_ _ name (List.mem_of_mem_head? member)
    rw [List.isEmpty_eq_false_iff.mpr none_, List.isEmpty_eq_false_iff.mpr some_]
    have defaults : List.Forall₂ Spells ((defaultNames bindings).tail.map (defaultStatement source))
        ((defaultNames bindings).tail.map fun name => ⟨source, .single name⟩) := by
      apply spells_map
      intro name member
      exact spells_default (local_ _ name (List.mem_of_mem_tail member))
    exact List.Forall₂.cons (spells_named first items some_) (List.rel_append defaults namespaces)

/-- The tokens of a rendered text. -/
theorem lexemes_renderImport (source : String)
    (h : ∀ b ∈ bindings, isIdentifier b.localName.toList) :
    Lexemes (renderImport source bindings).toList ((importsOf source bindings).flatMap kinds) [] :=
  lexemes_lines (spells_importsOf h)

theorem source_of_mem_importsOf (source : String) (bindings : List Binding) :
    ∀ i ∈ importsOf source bindings, i.source = source := by
  intro i hi
  simp only [importsOf] at hi
  split at hi <;>
  simp only [List.cons_append, List.mem_cons, List.mem_append, List.mem_map] at hi
  · rcases hi with ⟨_, _, rfl⟩ | ⟨_, _, rfl⟩ <;> rfl
  · rcases hi with rfl | ⟨_, _, rfl⟩ | ⟨_, _, rfl⟩ <;> rfl

/-- The items bind what the named bindings are. -/
theorem map_item_fieldsOf (bindings : List Binding) :
    (fieldsOf bindings).map item = bindings.filter isNamed := by
  induction bindings with
  | nil => rfl
  | cons b bindings ih =>
      obtain ⟨localName, imported⟩ := b
      rw [fieldsOf] at ih ⊢
      cases imported with
      | defaultExport => simpa [isNamed] using ih
      | namespaceObject => simpa [isNamed] using ih
      | named name =>
          rw [List.filter_cons_of_pos rfl, ← ih]
          simp [item, Field.target_of, Field.name_of]

/-- The local names that are bound to one thing, as bindings. -/
theorem map_localNames (imported : Imported) (bindings : List Binding) :
    (bindings.filterMap fun b => if b.imported = imported then some b.localName else none).map
      (⟨·, imported⟩) = bindings.filter (·.imported = imported) := by
  induction bindings with
  | nil => rfl
  | cons b bindings ih =>
      obtain ⟨localName, imported'⟩ := b
      by_cases same : imported' = imported
      · simpa [same] using ih
      · simpa [same] using ih

/-- Declarations of one name each bind these names. -/
theorem flatMap_bindings (source : String) (clause : String → Clause) {imported : Imported}
    (h : ∀ name, (clause name).bindings = [⟨name, imported⟩]) (names : List String) :
    (names.map fun name => (⟨source, clause name⟩ : Import)).flatMap Import.bindings =
      names.map (⟨·, imported⟩) := by
  induction names with
  | nil => rfl
  | cons name names ih =>
      rw [List.map_cons, List.map_cons, List.flatMap_cons, ih, Import.bindings, h]
      rfl

/-- What the declarations bind: the first default, the named ones, the other defaults, and the
namespaces. -/
theorem bindings_importsOf (source : String) (all : List Binding) :
    (importsOf source all).flatMap Import.bindings =
      (all.filter (·.imported = .defaultExport)).take 1 ++ all.filter isNamed ++
        ((all.filter (·.imported = .defaultExport)).drop 1 ++
          all.filter (·.imported = .namespaceObject)) := by
  have single := flatMap_bindings source .single fun _ => rfl
  have whole := flatMap_bindings source .whole fun _ => rfl
  rw [← map_item_fieldsOf, ← map_localNames .defaultExport, ← map_localNames .namespaceObject]
  change _ = ((defaultNames all).map _).take 1 ++ _ ++ (((defaultNames all).map _).drop 1 ++
    (namespaceNames all).map _)
  rw [importsOf]
  generalize defaultNames all = defaults
  cases fieldsOf all with
  | nil =>
      rw [List.isEmpty_nil, if_pos rfl, List.flatMap_append, single, whole, List.map_nil,
        List.append_nil, ← List.append_assoc, List.take_append_drop]
  | cons f items =>
      rw [List.isEmpty_cons, if_neg Bool.false_ne_true, List.cons_append, List.flatMap_cons,
        List.flatMap_append, single, whole]
      cases defaults with
      | nil => rfl
      | cons name names => rfl

/-- The declarations bind what is given, in another order. -/
theorem perm_bindings (source : String) (all : List Binding) :
    ((importsOf source all).flatMap Import.bindings).Perm all := by
  let defaults := all.filter (·.imported = .defaultExport)
  let namespaces := all.filter (·.imported = .namespaceObject)
  -- What is not named is a default or a namespace.
  have unnamed : (defaults ++ namespaces).Perm (all.filter (!isNamed ·)) := by
    have parts := List.filter_append_perm (fun b : Binding => b.imported = .defaultExport)
      (all.filter (!isNamed ·))
    rw [List.filter_filter, List.filter_filter] at parts
    refine .trans (.of_eq (congrArg₂ _ (List.filter_congr ?_) (List.filter_congr ?_))) parts
    · intro b _
      cases imported : b.imported <;> simp [isNamed, imported]
    · intro b _
      cases imported : b.imported <;> simp [isNamed, imported]
  have ordered : (defaults.take 1 ++ all.filter isNamed ++ (defaults.drop 1 ++ namespaces)).Perm
      (all.filter isNamed ++ (defaults ++ namespaces)) := by
    refine (List.perm_append_comm.append_right _).trans (.of_eq ?_)
    rw [List.append_assoc, ← List.append_assoc (defaults.take 1), List.take_append_drop]
  rw [bindings_importsOf]
  exact ordered.trans ((unnamed.append_left _).trans (List.filter_append_perm isNamed all))

/-- The named ones are bound in their order. -/
theorem named_bindings (source : String) (all : List Binding) :
    ((importsOf source all).flatMap Import.bindings).filter isNamed = all.filter isNamed := by
  have none_ (imported : Imported) (other : ∀ name, imported ≠ .named name) :
      ∀ b ∈ all.filter (·.imported = imported), ¬ isNamed b := by
    intro b hb named
    have same := of_decide_eq_true (List.mem_filter.mp hb).2
    cases found : b.imported with
    | named name => exact other name (same.symm.trans found)
    | defaultExport => simp [isNamed, found] at named
    | namespaceObject => simp [isNamed, found] at named
  have defaults := none_ .defaultExport (by simp)
  have namespaces := none_ .namespaceObject (by simp)
  rw [bindings_importsOf, List.filter_append, List.filter_append, List.filter_append,
    List.filter_filter]
  rw [List.filter_eq_nil_iff.mpr fun b hb => defaults b (List.mem_of_mem_take hb),
    List.filter_eq_nil_iff.mpr fun b hb => defaults b (List.mem_of_mem_drop hb),
    List.filter_eq_nil_iff.mpr namespaces]
  simp

end Declarations

/-- A text binds the given bindings from a source by import declarations without attributes: it has
their tokens, they bind together what is given, each binding once and the named ones in their order,
and it is a script of just these declarations if it is not too long for one. -/
structure Renders (text source : String) (bindings : List Binding) (imports : List Import) :
    Prop where
  tokens : Lexemes text.toList (imports.flatMap kinds) []
  sources : ∀ i ∈ imports, i.source = source
  perm : (imports.flatMap Import.bindings).Perm bindings
  named : (imports.flatMap Import.bindings).filter isNamed = bindings.filter isNamed
  parsed : text.length < limit → ∃ program, Program.parse text = .ok program ∧
    program.statements.map Statement.kind =
      imports.map fun i => .importing ⟨source, i.bindings, .evaluation, false⟩

theorem renders_importsOf (source : String) {bindings : List Binding}
    (names : ∀ b ∈ bindings, IsName Context.top b.localName) :
    Renders (renderImport source bindings) source bindings (importsOf source bindings) := by
  have identifiers : ∀ b ∈ bindings, isIdentifier b.localName.toList := fun b hb => (names b hb).1
  have tokens := lexemes_renderImport source identifiers
  have perm := perm_bindings source bindings
  have sources := source_of_mem_importsOf source bindings
  refine ⟨tokens, sources, perm, named_bindings source bindings, ?_⟩
  intro short
  have some_ : ∀ i ∈ importsOf source bindings, i.kinds ≠ [] := by
    intro i _
    simp [kinds]
  have going : ∀ i ∈ importsOf source bindings, .finish ∉ i.kinds := fun i _ => i.kinds_bound.2
  refine Program.parse_of_lexemes some_ going tokens short ?_
  intro n i hi long next later
  obtain ⟨n, rfl⟩ := Nat.exists_eq_succ_of_ne_zero (Nat.ne_zero_of_lt long)
  have allowed : ∀ b ∈ i.bindings, isNameIn Context.top b.localName := by
    intro b hb
    exact (names b (perm.subset (List.mem_flatMap_of_mem hi hb))).2
  have enough : i.bindings.length < (rules (n + 1)).steps :=
    Nat.lt_of_lt_of_le i.kinds_bound.1 (Nat.le_of_lt_succ long)
  have parsed := parses_statement allowed enough .list next later
  rwa [declaration, sources i hi] at parsed

end Import

/-- Rendered imports bind what they were given.  Where the local names may be bound at the top of a
module, the rendered text has the tokens of import declarations from the given source, with no
attributes.  Together these bind the given bindings, each of them once, and the named ones in their
order.  A text that is not too long for a script is a script of just these declarations. -/
theorem renderImport_binds (source : String) (bindings : List Binding)
    (names : ∀ b ∈ bindings, IsName Context.top b.localName) :
    ∃ imports : List Import,
      Lexemes (renderImport source bindings).toList (imports.flatMap Import.kinds) [] ∧
      (∀ i ∈ imports, i.source = source) ∧
      (imports.flatMap Import.bindings).Perm bindings ∧
      (imports.flatMap Import.bindings).filter isNamed = bindings.filter isNamed ∧
      ((renderImport source bindings).length < limit → ∃ program,
        Program.parse (renderImport source bindings) = .ok program ∧
        program.statements.map Statement.kind =
          imports.map fun i => .importing ⟨source, i.bindings, .evaluation, false⟩) := by
  have rendered := Import.renders_importsOf source names
  exact ⟨Import.importsOf source bindings, rendered.tokens, rendered.sources, rendered.perm,
    rendered.named, rendered.parsed⟩

/-- Two defaults and a namespace among named ones, with names that are words of the syntax or no
identifiers at all. -/
theorem renderImport_binds_odd_names :
    let bindings : List Binding :=
      [⟨"defer", .defaultExport⟩, ⟨"as", .named "as"⟩, ⟨"ns", .namespaceObject⟩,
        ⟨"from", .defaultExport⟩, ⟨"d", .named "a \"b\"\n"⟩]
    (∀ b ∈ bindings, IsName Context.top b.localName) ∧
      (renderImport "./\u2028.js" bindings).length < limit ∧
      ∃ imports : List Import,
        (imports.flatMap Import.bindings).Perm bindings ∧
        ∃ program, Program.parse (renderImport "./\u2028.js" bindings) = .ok program ∧
          program.statements.map Statement.kind =
            imports.map fun i => .importing ⟨"./\u2028.js", i.bindings, .evaluation, false⟩ := by
  intro bindings
  have identifiers : ∀ b ∈ bindings, isIdentifier b.localName.toList ∧
      isNameIn Context.top b.localName := by decide +kernel
  have short : (renderImport "./\u2028.js" bindings).length < limit := by decide +kernel
  obtain ⟨imports, _, _, perm, _, parsed⟩ := renderImport_binds "./\u2028.js" bindings identifiers
  exact ⟨identifiers, short, imports, perm, parsed short⟩

/-- Where some bindings of an import can be rebound and others cannot, what stays of it binds just
the others, from the same source. -/
theorem Plan.mixed_binds {path source : String} {m : Module} {settings : ClassifySettings}
    (parsed : Module.parse path source = .ok m) {s : Statement} {d : ImportDeclaration}
    (hd : (s, d) ∈ m.imports) (some_ : (Policy.of m settings).rebindable d ≠ [])
    (others : (Policy.of m settings).static d ≠ []) :
    ∃ text ∈ (Plan.of m settings).passthrough,
      fixedText (Policy.of m settings) (m.textOf s) d = some text ∧
      ∃ imports, Import.Renders text d.source ((Policy.of m settings).static d) imports := by
  have fixed : fixedText (Policy.of m settings) (m.textOf s) d =
      some (renderImport d.source ((Policy.of m settings).static d)) := by
    rw [fixedText_of_busy _ some_, if_neg others]
  have names : ∀ b ∈ (Policy.of m settings).static d, IsName Context.top b.localName := by
    intro b hb
    exact Module.isName_of_parse parsed hd b (List.mem_of_mem_filter hb)
  refine ⟨_, ?_, fixed, _, Import.renders_importsOf d.source names⟩
  rw [passthrough_of]
  exact List.mem_filterMap.mpr ⟨(s, d), hd, fixed⟩

end HotReload
