import HotReload.Proofs.Json.Strings
import HotReload.Script.Scanning

/-!
# How written pieces are scanned

`Lexeme cs kind rest` says that the token at the front of the text `cs` is of the kind `kind`, and
that `rest` follows it; `Lexemes` says so of several tokens.  An identifier is scanned as a word
where no identifier goes on behind it (`lexeme_word`), and a quoted text as a literal with that text
for its value, whichever characters it holds (`lexeme_text`).
-/

namespace HotReload
namespace Script

/-- A token of a kind stands at the front of a text, and `rest` follows it. -/
def Lexeme (cs : List Char) (kind : Kind) (rest : List Char) : Prop :=
  ∀ bound line offset, cs.length < bound → ∃ line' here t next,
    skipTrivia .code line offset cs = .ok (line', here) ∧
      scanToken bound line' here = .ok (t, next) ∧ t.kind = kind ∧ next.text = rest

/-- Tokens of the given kinds stand at the front of a text, and `rest` follows them. -/
inductive Lexemes : List Char → List Kind → List Char → Prop
  | nil (cs : List Char) : Lexemes cs [] cs
  | cons {cs mid rest : List Char} {kind : Kind} {kinds : List Kind} :
      Lexeme cs kind mid → Lexemes mid kinds rest → Lexemes cs (kind :: kinds) rest

variable {cs mid rest : List Char} {kind : Kind} {kinds more : List Kind}

theorem Lexeme.single (h : Lexeme cs kind rest) : Lexemes cs [kind] rest := .cons h (.nil rest)

theorem Lexemes.append (h : Lexemes cs kinds mid) (h' : Lexemes mid more rest) :
    Lexemes cs (kinds ++ more) rest := by
  induction h with
  | nil => exact h'
  | cons first _ ih => exact .cons first (ih h')

theorem Lexeme.blank (h : Lexeme cs kind rest) : Lexeme (' ' :: cs) kind rest := by
  intro bound line offset long
  exact h bound line (offset + 1) (Nat.lt_of_succ_lt long)

theorem Lexeme.lineEnd (h : Lexeme cs kind rest) : Lexeme ('\n' :: cs) kind rest := by
  intro bound line offset long
  exact h bound true (offset + 1) (Nat.lt_of_succ_lt long)

theorem Lexemes.blank (h : Lexemes cs kinds rest) (some : kinds ≠ []) :
    Lexemes (' ' :: cs) kinds rest := by
  cases h with
  | nil => exact absurd rfl some
  | cons first others => exact .cons first.blank others

theorem Lexemes.lineEnd (h : Lexemes cs kinds rest) (some : kinds ≠ []) :
    Lexemes ('\n' :: cs) kinds rest := by
  cases h with
  | nil => exact absurd rfl some
  | cons first others => exact .cons first.lineEnd others

/-- A character that is no blank and starts no comment. -/
theorem skipTrivia_here {c : Char} (line : Bool) (offset : Nat) (cs : List Char)
    (ends : isLineEnd c = false) (blank : isBlank c = false) (stroke : c ≠ '/') :
    skipTrivia .code line offset (c :: cs) = .ok (line, ⟨offset, c :: cs⟩) := by
  rw [skipTrivia.eq_def]
  split
  · simp_all
  next same => rw [same]
  · simp_all
  · simp_all
  · simp_all

/-- A token at the very front of a text. -/
theorem lexeme_here {c : Char} (ends : isLineEnd c = false) (blank : isBlank c = false)
    (stroke : c ≠ '/')
    (scanned : ∀ bound line offset, (c :: cs).length < bound → ∃ t next,
      scanToken bound line ⟨offset, c :: cs⟩ = .ok (t, next) ∧ t.kind = kind ∧ next.text = rest) :
    Lexeme (c :: cs) kind rest := by
  intro bound line offset long
  obtain ⟨t, next, found⟩ := scanned bound line offset long
  exact ⟨line, _, t, next, skipTrivia_here line offset cs ends blank stroke, found⟩

/-- Marks of one character that no other mark starts with. -/
def delimiters : List (Char × Mark) :=
  [('\x7b', .openBrace), ('\x7d', .closeBrace), ('(', .openParen), (')', .closeParen),
    (';', .semicolon), (',', .comma), (':', .colon)]

theorem lexeme_delimiter {c : Char} {m : Mark} (h : (c, m) ∈ delimiters) (rest : List Char) :
    Lexeme (c :: rest) (.mark m) rest := by
  simp only [delimiters, List.mem_cons, List.not_mem_nil, or_false, Prod.mk.injEq] at h
  rcases h with ⟨rfl, rfl⟩ | ⟨rfl, rfl⟩ | ⟨rfl, rfl⟩ | ⟨rfl, rfl⟩ | ⟨rfl, rfl⟩ | ⟨rfl, rfl⟩ |
    ⟨rfl, rfl⟩ <;>
  exact lexeme_here (by decide) (by decide) (by decide) fun _ _ _ _ => ⟨_, _, rfl, rfl, rfl⟩

theorem lexeme_assign (rest : List Char) :
    Lexeme ('=' :: ' ' :: rest) (.mark .assign) (' ' :: rest) :=
  lexeme_here (by decide) (by decide) (by decide) fun _ _ _ _ => ⟨_, _, rfl, rfl, rfl⟩

/-- A star in front of a blank. -/
theorem lexeme_star (rest : List Char) :
    Lexeme ('*' :: ' ' :: rest) (.mark (.operator .times)) (' ' :: rest) :=
  lexeme_here (by decide) (by decide) (by decide) fun _ _ _ _ => ⟨_, _, rfl, rfl, rfl⟩

/-- A point in front of a word that starts with the given letter. -/
theorem lexeme_dot (rest : List Char) :
    Lexeme ('.' :: 'd' :: rest) (.mark .dot) ('d' :: rest) :=
  lexeme_here (by decide) (by decide) (by decide) fun _ _ _ _ => ⟨_, _, rfl, rfl, rfl⟩

/-- Whether a text is an identifier, or a keyword. -/
def isIdentifier : List Char → Bool
  | [] => false
  | c :: cs => isIdentifierStart c && cs.all isIdentifierPart

/-- A character that ends a word in front of it. -/
def endsWord (c : Char) : Bool := !isIdentifierPart c && c ≠ '\\'

/-- What holds of every code point of a range holds of a character in it. -/
theorem eq_false_of_between {p : Char → Bool} (low count : Nat)
    (all : ∀ n < count, p (Char.ofNat (low + n)) = false) {c : Char} (above : low ≤ c.toNat)
    (below : c.toNat < low + count) : p c = false := by
  obtain ⟨n, hn⟩ := Nat.exists_eq_add_of_le above
  rw [← Char.ofNat_toNat c, hn]
  exact all n (by omega)

section Starts

variable {c : Char} (h : isIdentifierStart c)

include h

theorem ne_of_isIdentifierStart {d : Char} (other : isIdentifierStart d = false) : c ≠ d := by
  rintro rfl
  rw [other] at h
  exact Bool.false_ne_true h

/-- An identifier starts with no digit. -/
theorem isDigit_of_isIdentifierStart : Text.isDigit c = false := by
  rw [← Bool.not_eq_true, Text.isDigit, Bool.and_eq_true, decide_eq_true_eq, decide_eq_true_eq]
  rintro ⟨low, high⟩
  have none_ : isIdentifierStart c = false := eq_false_of_between 48 10
    (by decide +kernel) low (Nat.lt_succ_of_le high)
  rw [none_] at h
  exact Bool.false_ne_true h

/-- An identifier starts with no blank, no line end and no comment. -/
theorem apart_of_isIdentifierStart : isLineEnd c = false ∧ isBlank c = false ∧ c ≠ '/' := by
  have narrow : ¬(0x2000 ≤ c.toNat ∧ c.toNat ≤ 0x200B) := by
    rintro ⟨low, high⟩
    have none_ : isIdentifierStart c = false := eq_false_of_between 0x2000 12
      (by decide +kernel) low (Nat.lt_succ_of_le high)
    rw [none_] at h
    exact Bool.false_ne_true h
  refine ⟨?_, ?_, ne_of_isIdentifierStart h (by decide)⟩
  · simp only [isLineEnd, Bool.or_eq_false_iff, decide_eq_false_iff_not]
    refine ⟨⟨⟨?_, ?_⟩, ?_⟩, ?_⟩ <;>
    exact ne_of_isIdentifierStart h (by decide +kernel)
  · simp only [isBlank, Bool.or_eq_false_iff, Bool.and_eq_false_iff, decide_eq_false_iff_not]
    refine ⟨⟨⟨⟨⟨⟨⟨⟨⟨⟨⟨?_, ?_⟩, ?_⟩, ?_⟩, ?_⟩, ?_⟩, ?_⟩, by omega⟩, ?_⟩, ?_⟩, ?_⟩, ?_⟩ <;>
    exact ne_of_isIdentifierStart h (by decide +kernel)

/-- Where an identifier starts, a name is scanned. -/
theorem scanToken_name (bound : Nat) (line : Bool) (offset : Nat) (cs : List Char) :
    scanToken bound line ⟨offset, c :: cs⟩ = scanName bound line ⟨offset, c :: cs⟩ := by
  have other {d : Char} (none_ : isIdentifierStart d = false) : c ≠ d :=
    ne_of_isIdentifierStart h none_
  rw [scanToken]
  split
  next empty => cases empty
  next text => exact absurd (List.cons.inj text).1 (other (by decide))
  next text => exact absurd (List.cons.inj text).1 (other (by decide))
  next text => exact absurd (List.cons.inj text).1 (other (by decide))
  next text =>
    obtain ⟨rfl, rfl⟩ := List.cons.inj text
    have quote : (decide (c = '"') || decide (c = '\'')) = false := by
      simp [other (d := '"') (by decide), other (d := '\'') (by decide)]
    rw [quote, isDigit_of_isIdentifierStart h, h]
    rfl

end Starts

/-- A character of a word is taken. -/
theorem scanWord_cons {c : Char} (cs : List Char) (n offset : Nat) (read : List Char)
    (escaped : Bool) (h : c ≠ '\\') :
    scanWord (n + 1) read escaped ⟨offset, c :: cs⟩ =
      if (if read.isEmpty then isIdentifierStart else isIdentifierPart) c then
        scanWord n (c :: read) escaped ⟨offset + c.utf8Size, cs⟩
      else .ok (read.reverse, escaped, ⟨offset, c :: cs⟩) := by
  rw [scanWord]
  dsimp only
  split
  next text => exact absurd (List.cons.inj text).1 h
  next text => exact absurd (List.cons.inj text).1 h
  next text =>
    obtain ⟨rfl, rfl⟩ := List.cons.inj text
    rfl
  next empty => cases empty

/-- The rest of a word is taken up to a character that ends it. -/
theorem scanWord_rest {c : Char} (more : List Char) (ends : endsWord c) {cs read : List Char}
    (parts : cs.all isIdentifierPart) (begun : read ≠ []) {n : Nat} (long : cs.length < n)
    (offset : Nat) : ∃ next, scanWord n read false ⟨offset, cs ++ c :: more⟩ =
      .ok (read.reverse ++ cs, false, next) ∧ next.text = c :: more := by
  have started {r : List Char} (h : r ≠ []) : r.isEmpty = false := by simpa using h
  simp only [endsWord, Bool.and_eq_true, Bool.not_eq_true', decide_eq_true_eq] at ends
  obtain ⟨n, rfl⟩ := Nat.exists_eq_succ_of_ne_zero (Nat.ne_zero_of_lt long)
  induction cs generalizing read offset n with
  | nil =>
      rw [List.nil_append, scanWord_cons _ _ _ _ _ ends.2, started begun, if_neg Bool.false_ne_true,
        ends.1, if_neg Bool.false_ne_true]
      exact ⟨_, by rw [List.append_nil], rfl⟩
  | cons d cs ih =>
      rw [List.all_cons, Bool.and_eq_true] at parts
      have plain : d ≠ '\\' := by
        rintro rfl
        exact absurd parts.1 (by decide)
      obtain ⟨n, rfl⟩ := Nat.exists_eq_succ_of_ne_zero
        (Nat.ne_zero_of_lt (Nat.lt_of_succ_lt_succ long))
      obtain ⟨next, found, text⟩ := ih parts.2 (List.cons_ne_nil d read) (offset + d.utf8Size) n
        (Nat.lt_of_succ_lt_succ long)
      refine ⟨next, ?_, text⟩
      rw [List.cons_append, scanWord_cons _ _ _ _ _ plain, started begun,
        if_neg Bool.false_ne_true, if_pos parts.1, found]
      simp

/-- An identifier is a word where a character follows that ends it. -/
theorem lexeme_word (name : String) {c : Char} (h : isIdentifier name.toList) (ends : endsWord c)
    (rest : List Char) :
    Lexeme (name.toList ++ c :: rest) (.word name false) (c :: rest) := by
  cases text : name.toList with
  | nil => simp [text, isIdentifier] at h
  | cons d cs =>
      rw [text, isIdentifier, Bool.and_eq_true] at h
      obtain ⟨line, blank, stroke⟩ := apart_of_isIdentifierStart h.1
      rw [List.cons_append]
      refine lexeme_here line blank stroke fun bound line offset long => ?_
      have plain : d ≠ '\\' := ne_of_isIdentifierStart h.1 (by decide)
      obtain ⟨n, rfl⟩ := Nat.exists_eq_succ_of_ne_zero (Nat.ne_zero_of_lt long)
      have short : cs.length < n := by
        simp only [List.length_cons, List.length_append] at long
        omega
      obtain ⟨next, found, more⟩ := scanWord_rest rest ends h.2 (List.cons_ne_nil d []) short
        (offset + d.utf8Size)
      rw [scanToken_name h.1, scanName, scanWord_cons _ _ _ _ _ plain, List.isEmpty_nil, if_pos rfl,
        if_pos h.1, found]
      refine ⟨_, next, rfl, ?_, more⟩
      change Kind.word (String.ofList (d :: cs)) false = _
      rw [← text, String.ofList_toList]

/-- A letter after a backslash stands for a character. -/
theorem scanEscape_letter {e : Char} (h : "\"\\/bfnrt".toList.contains e = true) (offset : Nat)
    (rest : List Char) : scanEscape ⟨offset, e :: rest⟩ =
      .ok (some (Json.letterEscape e).toNat, ⟨offset + e.utf8Size, rest⟩) := by
  have letters : e ∈ ['"', '\\', '/', 'b', 'f', 'n', 'r', 't'] := by simpa using h
  simp only [List.mem_cons, List.not_mem_nil, or_false] at letters
  rcases letters with rfl | rfl | rfl | rfl | rfl | rfl | rfl | rfl <;> rfl

/-- Four digits after a backslash and a letter stand for the number that they write. -/
theorem scanEscape_fixed {n : Nat} (h : n < 0x10000) (offset : Nat) (rest : List Char) :
    ∃ next, scanEscape ⟨offset, 'u' :: (Hex.fixed 4 n ++ rest)⟩ = .ok (some n, next) ∧
      next.text = rest := by
  obtain ⟨a, b, c, d, digits, hex⟩ := Json.fixed_four n
  have number := Json.hexNumber_fixed h
  rw [digits] at number ⊢
  have four : ([a, b, c, d].filterMap Text.hexValue?).length = 4 := by
    simp only [List.all_cons, List.all_nil, Bool.and_true, Bool.and_eq_true] at hex
    obtain ⟨ha, hb, hc, hd⟩ := hex
    obtain ⟨_, ha⟩ := Option.isSome_iff_exists.mp ha
    obtain ⟨_, hb⟩ := Option.isSome_iff_exists.mp hb
    obtain ⟨_, hc⟩ := Option.isSome_iff_exists.mp hc
    obtain ⟨_, hd⟩ := Option.isSome_iff_exists.mp hd
    simp [ha, hb, hc, hd]
  have digit : a ≠ '\x7b' := by
    rintro rfl
    exact absurd (List.all_eq_true.mp hex _ List.mem_cons_self) (by decide)
  have scanned (o : Nat) : scanUnicodeEscape ⟨o, a :: b :: c :: d :: rest⟩ =
      some (n, ⟨o + 4, rest⟩) := by
    rw [scanUnicodeEscape]
    dsimp only
    split
    next text => exact absurd (List.cons.inj text).1 digit
    next text =>
      cases text
      rw [if_pos four, ← number]
      rfl
    next other => exact absurd rfl (other a b c d rest)
  refine ⟨⟨offset + 1 + 4, rest⟩, ?_, rfl⟩
  have letter : scanEscape ⟨offset, 'u' :: ([a, b, c, d] ++ rest)⟩ =
      valued ⟨offset, 'u' :: ([a, b, c, d] ++ rest)⟩
        (scanUnicodeEscape ⟨offset + 1, a :: b :: c :: d :: rest⟩) := rfl
  rw [letter, scanned]
  rfl

/-- What stands behind a backslash is read in one step. -/
theorem scanUnits_backslash {cs : List Char} {u n offset : Nat} {next : Cursor}
    (h : scanEscape ⟨offset + 1, cs⟩ = .ok (some u, next)) (read : List Unit16) :
    scanUnits (n + 1) '"' read ⟨offset, '\\' :: cs⟩ = scanUnits n '"' (u :: read) next := by
  have skipped : (⟨offset, '\\' :: cs⟩ : Cursor).skip = ⟨offset + 1, cs⟩ := rfl
  simp [scanUnits, skipped, h]

/-- A character of a literal, as it is written in quotes, is read in one step. -/
theorem scanUnits_escape (c : Char) (n offset : Nat) (read : List Unit16) (rest : List Char) :
    ∃ after, scanUnits (n + 1) '"' read ⟨offset, Json.escape c ++ rest⟩ =
      scanUnits n '"' (c.toNat :: read) ⟨after, rest⟩ := by
  rcases Json.escape_cases c with ⟨e, written, _, letter, stands⟩ | ⟨written, control⟩ |
    ⟨written, quote, backslash, control⟩
  · rw [written, List.cons_append, List.singleton_append,
      scanUnits_backslash (scanEscape_letter letter _ rest), stands]
    exact ⟨_, rfl⟩
  · obtain ⟨⟨after, text⟩, found, same⟩ := scanEscape_fixed (n := c.toNat) (by omega) (offset + 1)
      rest
    obtain rfl : text = rest := same
    exact ⟨after, by rw [written, List.cons_append, List.cons_append, scanUnits_backslash found]⟩
  · refine ⟨offset + c.utf8Size, ?_⟩
    have feed : c ≠ '\n' := by
      rintro rfl
      exact control (by decide)
    have ret : c ≠ '\r' := by
      rintro rfl
      exact control (by decide)
    rw [written, List.singleton_append, scanUnits]
    simp [quote, backslash, feed, ret, Cursor.skip]

/-- The inside of a literal is read up to the closing mark. -/
theorem scanUnits_quoted (cs rest : List Char) {n : Nat} (long : cs.length < n) (offset : Nat)
    (read : List Unit16) :
    ∃ next, scanUnits n '"' read ⟨offset, cs.flatMap Json.escape ++ '"' :: rest⟩ =
      .ok (read.reverse ++ cs.map Char.toNat, next) ∧ next.text = rest := by
  obtain ⟨n, rfl⟩ := Nat.exists_eq_succ_of_ne_zero (Nat.ne_zero_of_lt long)
  induction cs generalizing n offset read with
  | nil => exact ⟨⟨offset + '"'.utf8Size, rest⟩, by simp [scanUnits, Cursor.skip], rfl⟩
  | cons c cs ih =>
      obtain ⟨after, step⟩ := scanUnits_escape c n offset read
        (cs.flatMap Json.escape ++ '"' :: rest)
      obtain ⟨n, rfl⟩ := Nat.exists_eq_succ_of_ne_zero
        (Nat.ne_zero_of_lt (Nat.lt_of_succ_lt_succ long))
      obtain ⟨next, found, text⟩ := ih after (c.toNat :: read) n (Nat.lt_of_succ_lt_succ long)
      refine ⟨next, ?_, text⟩
      rw [List.flatMap_cons, List.append_assoc, step, found]
      simp

theorem isSurrogate_toNat (c : Char) : isSurrogate c.toNat = false := by
  have valid : c.toNat < 0xD800 ∨ 0xDFFF < c.toNat ∧ c.toNat < 0x110000 := c.valid
  rw [← Bool.not_eq_true, isSurrogate, Bool.and_eq_true, decide_eq_true_eq, decide_eq_true_eq]
  omega

/-- Code points that are no surrogates are no pairs. -/
theorem joinPairs_eq_self {units : List Unit16} (h : ∀ u ∈ units, isSurrogate u = false) :
    joinPairs units = units := by
  fun_induction joinPairs units with
  | case1 high low rest pair ih =>
      have first := h high List.mem_cons_self
      simp only [isSurrogate, Bool.and_eq_false_iff, decide_eq_false_iff_not] at first
      simp only [Bool.and_eq_true, decide_eq_true_eq] at pair
      obtain ⟨⟨⟨above, below⟩, _⟩, _⟩ := pair
      rcases first with low_ | high_
      · exact absurd above low_
      · exact absurd (Nat.le_trans below (by decide)) high_
  | case2 high low rest _ ih => rw [ih fun u hu => h u (List.mem_cons_of_mem _ hu)]
  | case3 => rfl

/-- A value without surrogates is the text of its characters. -/
theorem textOfUnits_toNat (cs : List Char) :
    textOfUnits (cs.map Char.toNat) = (String.ofList cs, false) := by
  have none_ : ∀ u ∈ cs.map Char.toNat, isSurrogate u = false := by
    intro u hu
    obtain ⟨c, _, rfl⟩ := List.mem_map.mp hu
    exact isSurrogate_toNat c
  have alone : (cs.map Char.toNat).any isSurrogate = false := by
    rw [List.any_eq_false]
    intro u hu
    rw [none_ u hu]
    exact Bool.false_ne_true
  rw [textOfUnits, joinPairs_eq_self none_, alone]
  simp only [Bool.false_and, Bool.or_false, Prod.mk.injEq, and_true, String.ofList_inj]
  simp [List.flatMap_map, isSurrogate_toNat]

/-- A quoted text is a literal with this text for its value. -/
theorem lexeme_text (s : String) (rest : List Char) :
    Lexeme ((Json.quote s).toList ++ rest) (.text s false) rest := by
  have quoted : (Json.quote s).toList ++ rest =
      '"' :: (s.toList.flatMap Json.escape ++ '"' :: rest) := by
    simp [Json.quote, Json.quoteChars]
  rw [quoted]
  refine lexeme_here (by decide) (by decide) (by decide) fun bound line offset long => ?_
  have short : s.toList.length < bound := by
    have longer := Json.length_le_escaped s.toList
    simp only [List.length_cons, List.length_append] at long
    omega
  obtain ⟨next, found, more⟩ := scanUnits_quoted s.toList rest short (offset + '"'.utf8Size) []
  have scanned (cs : List Char) : scanToken bound line ⟨offset, '"' :: cs⟩ =
      scanText bound line '"' ⟨offset, '"' :: cs⟩ := rfl
  have skipped (cs : List Char) : (⟨offset, '"' :: cs⟩ : Cursor).skip =
      ⟨offset + '"'.utf8Size, cs⟩ := rfl
  rw [scanned, scanText, skipped, found]
  refine ⟨_, next, rfl, ?_, more⟩
  change Kind.text (textOfUnits (s.toList.map Char.toNat)).1 _ = _
  rw [List.reverse_nil, List.nil_append, textOfUnits_toNat, String.ofList_toList]

end Script
end HotReload
