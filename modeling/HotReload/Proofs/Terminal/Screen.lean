import HotReload.Proofs.Decimal.Numerals
import HotReload.Terminal.Style
import HotReload.Text.Bytes

/-!
# What a terminal shows

A terminal that is wide and tall enough shows rows of characters, one of which has the cursor.  It
takes one character after another: most are put where the cursor is, a line feed goes to the next
row, and an escape sequence moves the cursor or erases something.

The program always writes at the end of the lowest row (`Screen.pen`).  There a text shows as its
lines (`Screen.write_lines`), styles do not show at all (`Screen.Types`), and moving up and clearing
takes the lowest rows away (`Screen.feed_erase`).
-/

namespace HotReload
namespace Terminal

/-- The characters of a row. -/
abbrev Row := List Char

/-- What the next character of a terminal belongs to. -/
inductive Mode where
  | plain
  /-- The character after the one that opens an escape sequence. -/
  | escaped
  /-- A sequence with the parameter read so far, which is zero if there is none. -/
  | sequence (parameter : Nat)
  deriving DecidableEq

/-- A terminal.  The rows above the cursor's stand in reverse. -/
structure Screen where
  above : List Row := []
  row : Row := []
  column : Nat := 0
  below : List Row := []
  mode : Mode := .plain
  deriving DecidableEq

/-- A character that is no control character. -/
def isPrintable (c : Char) : Bool := 32 ≤ c.toNat && (c.toNat < 127 || 160 ≤ c.toNat)

/-- A character that a text may have: a line feed, or none that controls the terminal. -/
def isLegible (c : Char) : Bool := c = '\n' || isPrintable c

namespace Screen

/-- The cursor goes up, to the first row at most. -/
def up : Nat → Screen → Screen
  | 0, s => s
  | n + 1, s =>
    match s.above with
    | [] => s
    | row :: above => up n { s with above, row, below := s.row :: s.below }

/-- What a sequence does that ends with the given character.  A missing parameter counts as one for
a movement. -/
def obey (s : Screen) (parameter : Nat) : Char → Screen
  | 'A' => s.up (max 1 parameter)
  | 'J' => if parameter = 0 then { s with row := s.row.take s.column, below := [] } else s
  | 'K' => if parameter = 0 then { s with row := s.row.take s.column } else s
  | _ => s

/-- The cursor goes to the beginning of the next row. -/
def feedLine (s : Screen) : Screen :=
  match s.below with
  | [] => { s with above := s.row :: s.above, row := [], column := 0 }
  | row :: below => { s with above := s.row :: s.above, row, column := 0, below }

/-- A character stands where the cursor is, and the cursor goes on. -/
def put (s : Screen) (c : Char) : Screen :=
  { s with
    row := s.row.take s.column ++ List.replicate (s.column - s.row.length) ' ' ++
      c :: s.row.drop (s.column + 1)
    column := s.column + 1 }

/-- The terminal after one more character. -/
def step (s : Screen) (c : Char) : Screen :=
  match s.mode with
  | .plain =>
    if c = escape then { s with mode := .escaped }
    else if c = '\n' then s.feedLine
    else if isPrintable c then s.put c
    else s
  | .escaped => { s with mode := if c = '[' then .sequence 0 else .plain }
  | .sequence parameter =>
    if c.isDigit then { s with mode := .sequence (10 * parameter + (c.toNat - '0'.toNat)) }
    else { s with mode := .plain }.obey parameter c

/-- The terminal after a text. -/
def feed (s : Screen) (cs : List Char) : Screen := cs.foldl step s

theorem feed_append (s : Screen) (cs ds : List Char) : s.feed (cs ++ ds) = (s.feed cs).feed ds :=
  List.foldl_append

/-- The cursor at the end of the lowest row, with rows above in reverse. -/
def pen (above : List Row) (row : Row) : Screen := { above, row, column := row.length }

/-- Rows with the cursor below them. -/
def under (rows : List Row) : Screen := pen rows.reverse []

variable {above : List Row} {row : Row}

theorem step_pen {c : Char} (legible : isLegible c = true) :
    (pen above row).step c =
      if c = '\n' then pen (row :: above) [] else pen above (row ++ [c]) := by
  by_cases feed : c = '\n'
  · subst feed
    rfl
  · have shown : isPrintable c = true := by simpa [isLegible, feed] using legible
    have other : c ≠ escape := by
      rintro rfl
      exact absurd shown (by decide)
    simp [step, pen, feed, other, shown, put]

/-- Where the pen is after a text. -/
def write (above : List Row) (row : Row) : List Char → Screen
  | [] => pen above row
  | c :: cs => if c = '\n' then write (row :: above) [] cs else write above (row ++ [c]) cs

theorem feed_pen {cs : List Char} (legible : ∀ c ∈ cs, isLegible c = true) :
    (pen above row).feed cs = write above row cs := by
  induction cs generalizing above row with
  | nil => rfl
  | cons c cs ih =>
      have later := fun d hd => legible d (List.mem_cons_of_mem c hd)
      change ((pen above row).step c).feed cs = _
      rw [step_pen (legible c List.mem_cons_self), write]
      split
      · exact ih later
      · exact ih later

/-- A text after another one is written where the pen is after the first. -/
theorem write_append (above : List Row) (row : Row) (cs : List Char) :
    ∃ above' row', write above row cs = pen above' row' ∧
      ∀ ds, write above row (cs ++ ds) = write above' row' ds := by
  induction cs generalizing above row with
  | nil => exact ⟨above, row, rfl, fun ds => rfl⟩
  | cons c cs ih =>
      simp only [write, List.cons_append]
      split
      · exact ih _ _
      · exact ih _ _

/-- A text that ends with a line feed shows as its lines. -/
theorem write_lines {cs : List Char} (alone : ∀ c ∈ row, (c == '\n') = false) :
    write above row (cs ++ ['\n']) =
      pen ((Text.splitWhere (· == '\n') (row ++ cs)).reverse ++ above) [] := by
  induction cs generalizing above row with
  | nil =>
      rw [List.append_nil, Text.splitWhere_of_all alone]
      rfl
  | cons c cs ih =>
      rw [List.cons_append, write]
      split
      · rename_i feed
        rw [Text.splitWhere_append cs alone (by simpa using feed), ih (by simp)]
        simp
      · rename_i other
        have longer : ∀ d ∈ row ++ [c], (d == '\n') = false := by
          intro d hd
          rcases List.mem_append.mp hd with old | new
          · exact alone d old
          · obtain rfl := List.mem_singleton.mp new
            exact beq_eq_false_iff_ne.mpr other
        rw [ih longer, List.append_assoc, List.singleton_append]

/-- The digits of a parameter are read as the parameter. -/
theorem feed_digits (s : Screen) (m : Nat) {ds : List Char} (digits : ∀ c ∈ ds, c.isDigit = true) :
    feed { s with mode := .sequence m } ds =
      { s with mode := .sequence (Nat.ofDigitChars 10 ds m) } := by
  induction ds generalizing m with
  | nil => rfl
  | cons c cs ih =>
      have first := digits c List.mem_cons_self
      change feed (step { s with mode := .sequence m } c) cs = _
      rw [step]
      simp only [first, if_true]
      exact ih _ fun d hd => digits d (List.mem_cons_of_mem c hd)

/-- A sequence with a parameter is obeyed. -/
theorem feed_sequence (n : Nat) {final : Char} (ends : final.isDigit = false) (rest : List Char) :
    (pen above row).feed (escape :: '[' :: (Nat.toDigits 10 n ++ final :: rest)) =
      ((pen above row).obey n final).feed rest := by
  have digits : ∀ c ∈ Nat.toDigits 10 n, c.isDigit = true := fun c hc => Decimal.isDigit_of_mem hc
  change feed { pen above row with mode := .sequence 0 } _ = _
  rw [feed_append, feed_digits _ 0 digits, Nat.ofDigitChars_ten_toDigits]
  change feed (step { pen above row with mode := .sequence n } final) rest = _
  rw [step]
  simp only [ends, Bool.false_eq_true, if_false]
  rfl

/-- Going up leaves the rows above that are not passed. -/
theorem up_above (n : Nat) (s : Screen) :
    (s.up n).above = s.above.drop n ∧ (s.up n).column = s.column ∧ (s.up n).mode = s.mode := by
  induction n generalizing s with
  | zero => exact ⟨rfl, rfl, rfl⟩
  | succ n ih =>
      rw [up]
      split
      · rename_i none
        simp [none]
      · rename_i row above shape
        simpa [shape] using ih { s with above, row, below := s.row :: s.below }

/-- Going up from an empty row and clearing takes rows away, at least one. -/
theorem feed_erase (n : Nat) : (pen above []).feed (moveUp n ++ clearBelow) =
    pen (above.drop (max 1 n)) [] := by
  obtain ⟨passed, column, mode⟩ := up_above (max 1 n) (pen above [])
  have text : moveUp n ++ clearBelow =
      escape :: '[' :: (Nat.toDigits 10 n ++ 'A' :: clearBelow) := by
    simp [moveUp]
  have moved : (pen above []).obey n 'A' = (pen above []).up (max 1 n) := rfl
  rw [text, feed_sequence n rfl, moved]
  cases after : (pen above []).up (max 1 n) with
  | mk above' row' column' below' mode' =>
      rw [after] at passed column mode
      obtain rfl : above' = above.drop (max 1 n) := passed
      obtain rfl : column' = 0 := column
      obtain rfl : mode' = .plain := mode
      rfl

/-- Characters, escape sequences among them, that show as a text. -/
def Types (cs ds : List Char) : Prop :=
  ∀ above row, (pen above row).feed cs = write above row ds

namespace Types

variable {cs cs' ds ds' : List Char}

theorem text (legible : ∀ c ∈ cs, isLegible c = true) : Types cs cs :=
  fun _ _ => feed_pen legible

theorem append (first : Types cs ds) (second : Types cs' ds') : Types (cs ++ cs') (ds ++ ds') := by
  intro above row
  obtain ⟨above', row', here, later⟩ := write_append above row ds
  rw [feed_append, first, here, second, later]

/-- A style does not show. -/
theorem rendition (code : Nat) : Types (rendition code) [] := by
  intro above row
  have text : Terminal.rendition code = escape :: '[' :: (Nat.toDigits 10 code ++ ['m']) := rfl
  rw [text, feed_sequence code rfl]
  rfl

/-- Behind the end of a row there is nothing to clear. -/
theorem clearLine : Types clearLine [] := by
  intro above row
  change { pen above row with row := row.take row.length } = _
  rw [List.take_length]
  rfl

theorem coloured (c : Colour) (h : Types cs ds) : Types (coloured c cs) ds := by
  have whole := ((rendition c.code).append h).append (rendition 39)
  rwa [List.nil_append, List.append_nil] at whole

theorem bold (h : Types cs ds) : Types (bold cs) ds := by
  have whole := ((rendition 1).append h).append (rendition 0)
  rwa [List.nil_append, List.append_nil] at whole

theorem dimmed (h : Types cs ds) : Types (dimmed cs) ds := by
  have whole := ((rendition 2).append h).append (rendition 0)
  rwa [List.nil_append, List.append_nil] at whole

/-- A line, shown from the beginning of the lowest row, goes below the rows. -/
theorem under {rows : List Row} (h : Types cs (ds ++ ['\n'])) :
    (under rows).feed cs = .under (rows ++ Text.splitWhere (· == '\n') ds) := by
  rw [Screen.under, h, write_lines (by simp), Screen.under, List.reverse_append, List.nil_append]

end Types
end Screen
end Terminal
end HotReload
