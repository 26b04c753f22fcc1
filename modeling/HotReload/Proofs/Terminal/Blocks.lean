import Mathlib.Data.List.DropRight
import HotReload.Proofs.Reconcile.Reports
import HotReload.Proofs.Terminal.Screen
import HotReload.Session.Basic
import HotReload.Terminal.Output

/-!
# Status blocks on the screen

Log notes and status messages share a terminal.  Every status message first takes away as many rows
as the block before it had lines (`Status.reach`), and these are the lowest ones, whatever has been
written since.  So a block replaces the block before it as long as no note is shown in between, and
otherwise notes go and lines of the old block stay.
-/

namespace HotReload

/-- A list has one part more than separators. -/
theorem Text.length_splitWhere {α : Type} (p : α → Bool) (xs : List α) :
    (Text.splitWhere p xs).length = xs.countP p + 1 := by
  induction xs with
  | nil => rfl
  | cons x xs ih =>
      rw [Text.splitWhere, List.countP_cons]
      split
      · simp [ih]
      · obtain ⟨part, rest, shape⟩ := List.exists_cons_of_ne_nil (Text.splitWhere_ne_nil p xs)
        rw [shape] at ih ⊢
        simpa using ih

namespace Terminal

/-- The symbol of a mood. -/
def Mood.mark : Mood → Char
  | .success => '✓'
  | .failure => '✗'
  | .warning => '⚠'

/-- The rows of a note. -/
def Note.rows (n : Note) : List Row :=
  Text.splitWhere (· == '\n') ('[' :: (n.topic.toList ++ ']' :: ' ' :: n.text.toList))

/-- The rows of the notes that are shown. -/
def noteRows (verbose : Bool) (notes : List Note) : List Row :=
  (notes.filter (Note.visible verbose)).flatMap Note.rows

/-- The rows of a status message. -/
def Message.block (time : String) (m : Message) : List Row :=
  Text.splitWhere (· == '\n')
    ('[' :: (time.toList ++ ']' :: ' ' :: m.mood.mark :: ' ' :: m.text.toList))

/-- The number of rows that the next status message takes away.  No movement goes up by no row at
all, and none by more rows than the limit. -/
def Status.reach (s : Status) : Nat := if s.lines = 0 then 0 else max 1 (s.lines % movementLimit)

variable {verbose : Bool} {time : String} {rows : List Row}

/-- A label in brackets shows as it is. -/
theorem Screen.Types.label {cs : List Char} (legible : ∀ c ∈ cs, isLegible c = true) :
    Screen.Types ('[' :: cs ++ [']']) ('[' :: cs ++ [']']) :=
  .text (by simpa [or_imp, forall_and] using ⟨by decide, legible, by decide⟩)

/-- The end of a line shows as it is. -/
theorem Screen.Types.ending {cs : List Char} (legible : ∀ c ∈ cs, isLegible c = true) :
    Screen.Types (' ' :: cs ++ ['\n']) (' ' :: cs ++ ['\n']) :=
  .text (by simpa [or_imp, forall_and] using ⟨by decide, legible, by decide⟩)

theorem Mood.types_symbol (m : Mood) : Screen.Types m.symbol [m.mark] := by
  cases m with
  | success => exact (Screen.Types.text (List.all_eq_true.mp rfl)).coloured .green
  | failure => exact (Screen.Types.text (List.all_eq_true.mp rfl)).coloured .red
  | warning => exact (Screen.Types.text (List.all_eq_true.mp rfl)).coloured .yellow

/-- A block has as many rows as its message has lines. -/
theorem Message.length_block (m : Message) (stamp : ∀ c ∈ time.toList, isPrintable c = true) :
    (m.block time).length = m.lineCount := by
  have unbroken : time.toList.countP (· == '\n') = 0 := by
    rw [List.countP_eq_zero]
    rintro c hc feed
    obtain rfl := beq_iff_eq.mp feed
    exact absurd (stamp _ hc) (by decide)
  have mark : (m.mood.mark == '\n') = false := by cases m.mood <;> rfl
  rw [block, Text.length_splitWhere, lineCount, List.count]
  simp [unbroken, mark]

theorem noteRows_cons (verbose : Bool) (n : Note) (notes : List Note) :
    noteRows verbose (n :: notes) = noteRows verbose [n] ++ noteRows verbose notes := by
  rw [noteRows, ← List.singleton_append, List.filter_append, List.flatMap_append]
  rfl

/-- A note goes below the rows. -/
theorem Note.feed_render (rows : List Row) (n : Note)
    (topic : ∀ c ∈ n.topic.toList, isLegible c = true)
    (text : ∀ c ∈ n.text.toList, isLegible c = true) :
    (Screen.under rows).feed n.render.toList = .under (rows ++ n.rows) := by
  have label := ((Screen.Types.label topic).coloured (colour n.topic)).bold
  have whole := (Screen.Types.clearLine.append label).append (.ending text)
  have shown : Screen.Types n.render.toList
      ('[' :: (n.topic.toList ++ ']' :: ' ' :: n.text.toList) ++ ['\n']) := by
    simpa [render] using whole
  exact shown.under

/-- What erases a block takes away as many rows as it reaches. -/
theorem Status.feed_erase (s : Status) :
    (Screen.under rows).feed s.erase = .under (rows.rdrop s.reach) := by
  unfold erase reach
  split
  · rw [List.rdrop_zero]
    rfl
  · rw [Screen.under, Screen.feed_erase, Screen.under, List.rdrop_eq_reverse_drop_reverse,
      List.reverse_reverse]

/-- A status message goes below the rows that are left. -/
theorem Status.feed_display (s : Status) (m : Message)
    (stamp : ∀ c ∈ time.toList, isPrintable c = true)
    (text : ∀ c ∈ m.text.toList, isLegible c = true) :
    (Screen.under rows).feed (s.display time m).1.toList =
      .under (rows.rdrop s.reach ++ m.block time) := by
  have legible : ∀ c ∈ time.toList, isLegible c = true := fun c hc => by
    simp [isLegible, stamp c hc]
  have blank : Screen.Types [' '] [' '] := .text (List.all_eq_true.mp rfl)
  have label := (Screen.Types.label legible).dimmed
  have whole := ((label.append blank).append m.mood.types_symbol).append (.ending text)
  have text : (s.display time m).1.toList = s.erase ++
      (dimmed ('[' :: time.toList ++ [']']) ++ [' '] ++ m.mood.symbol ++
        (' ' :: m.text.toList ++ ['\n'])) := by
    simp [display]
  have block : '[' :: time.toList ++ [']'] ++ [' '] ++ [m.mood.mark] ++
      (' ' :: m.text.toList ++ ['\n']) =
      '[' :: (time.toList ++ ']' :: ' ' :: m.mood.mark :: ' ' :: m.text.toList) ++ ['\n'] := by
    simp
  rw [block] at whole
  rw [text, Screen.feed_append, feed_erase]
  exact whole.under

/-- A block that is not too long is taken away as a whole. -/
theorem Status.reach_of_short {m : Message} (short : m.lineCount < Status.movementLimit) :
    Status.reach ⟨m.lineCount⟩ = m.lineCount := by
  have some : m.lineCount ≠ 0 := Nat.succ_ne_zero _
  rw [reach, if_neg some, Nat.mod_eq_of_lt short]
  omega

namespace Output

/-- Whether the texts of an output do not control the terminal. -/
def legible : Output → Bool
  | .note n => n.topic.toList.all isLegible && n.text.toList.all isLegible
  | .status m => m.text.toList.all isLegible

/-- Whether an output is shown. -/
def visible (verbose : Bool) : Output → Bool
  | .note n => n.visible verbose
  | .status _ => true

/-- The rows on the screen and the status block, after one more output. -/
def lay (verbose : Bool) (time : String) (p : List Row × Status) : Output → List Row × Status
  | .note n => (p.1 ++ noteRows verbose [n], p.2)
  | .status m => (p.1.rdrop p.2.reach ++ m.block time, ⟨m.lineCount⟩)

/-- The rows on the screen and the status block after a run of outputs, below the rows that were
there before. -/
def laid (verbose : Bool) (time : String) (top : List Row) (run : List Output) :
    List Row × Status :=
  run.foldl (lay verbose time) (top, {})

/-- One output. -/
theorem feed_render (verbose : Bool) (rows : List Row) (s : Status) {o : Output}
    (stamp : ∀ c ∈ time.toList, isPrintable c = true) (legible : o.legible = true) :
    (Screen.under rows).feed (o.render verbose time s).1.toList =
        .under (o.lay verbose time (rows, s)).1 ∧
      (o.render verbose time s).2 = (o.lay verbose time (rows, s)).2 := by
  cases o with
  | note n =>
      refine ⟨?_, rfl⟩
      obtain ⟨topic, text⟩ := Bool.and_eq_true_iff.mp legible
      have line := n.feed_render rows (List.all_eq_true.mp topic) (List.all_eq_true.mp text)
      cases shown : n.visible verbose with
      | true => simp [render, lay, noteRows, shown, line]
      | false => simp [render, lay, noteRows, shown, Screen.feed]
  | status m => exact ⟨s.feed_display m stamp (List.all_eq_true.mp legible), rfl⟩

/-- A run of outputs shows as it is laid. -/
theorem feed_renderAll (s : Status) {run : List Output}
    (stamp : ∀ c ∈ time.toList, isPrintable c = true) (legible : ∀ o ∈ run, o.legible = true) :
    (Screen.under rows).feed (renderAll verbose time s run).1.toList =
      .under (run.foldl (lay verbose time) (rows, s)).1 := by
  induction run generalizing rows s with
  | nil => rfl
  | cons o run ih =>
      obtain ⟨here, block⟩ := feed_render verbose rows s stamp (legible o List.mem_cons_self)
      simp only [renderAll, String.toList_append, Screen.feed_append, here, block]
      exact ih _ fun o ho => legible o (List.mem_cons_of_mem _ ho)

/-- Notes go below the rows. -/
theorem foldl_lay_notes (p : List Row × Status) (notes : List Note) :
    (notes.map Output.note).foldl (lay verbose time) p = (p.1 ++ noteRows verbose notes, p.2) := by
  induction notes generalizing p with
  | nil => simp [noteRows]
  | cons n notes ih =>
      rw [List.map_cons, List.foldl_cons, ih, noteRows_cons verbose n notes, lay,
        List.append_assoc]

/-- The rows of the last of some status messages. -/
def lastBlock (time : String) (ms : List Message) : List Row :=
  (ms.getLast?.map (Message.block time)).getD []

/-- Each of some status messages replaces the one before it, if none of them is too long. -/
theorem foldl_lay_statuses (verbose : Bool) (rows : List Row) {ms : List Message}
    (stamp : ∀ c ∈ time.toList, isPrintable c = true)
    (short : ∀ m ∈ ms, m.lineCount < Status.movementLimit) :
    ∃ s : Status, (ms.map Output.status).foldl (lay verbose time) (rows, {}) =
        (rows ++ lastBlock time ms, s) ∧ s.reach = (lastBlock time ms).length := by
  -- From the right: a message takes away exactly what the one before it has left.
  induction ms using List.reverseRecOn with
  | nil => exact ⟨{}, by simp [lastBlock], rfl⟩
  | append_singleton ms m ih =>
      obtain ⟨s, before, reach⟩ :=
        ih fun other member => short other (List.mem_append_left _ member)
      refine ⟨⟨m.lineCount⟩, ?_, ?_⟩
      · rw [List.map_append, List.foldl_append, before]
        simp [lay, reach, List.rdrop_append_length, lastBlock]
      · rw [Status.reach_of_short (short m (by simp))]
        simp [lastBlock, m.length_block stamp]

/-- What is not shown leaves the screen as it is. -/
theorem foldl_lay_filter (p : List Row × Status) (run : List Output) :
    (run.filter (visible verbose)).foldl (lay verbose time) p = run.foldl (lay verbose time) p := by
  induction run generalizing p with
  | nil => rfl
  | cons o run ih =>
      rw [List.foldl_cons, ← ih, List.filter_cons]
      split
      · rfl
      · rename_i hidden
        cases o with
        | note n =>
            have unseen : n.visible verbose = false := by simpa [visible] using hidden
            simp [lay, noteRows, unseen]
        | status m => simp [visible] at hidden

/-- A run of outputs shows as it is laid.  A status message that follows another one takes away as
many rows as that one has lines, the lowest of its rows and of those of the notes since then.  If no
note is shown between status messages, what is left are the notes, in their order, and the last
message in its place. -/
theorem run_shows (verbose : Bool) (time : String) (top : List Row) (run : List Output)
    (stamp : ∀ c ∈ time.toList, isPrintable c = true) (legible : ∀ o ∈ run, o.legible = true) :
    (Screen.under top).feed (renderAll verbose time {} run).1.toList =
        .under (laid verbose time top run).1 ∧
      (∀ earlier m notes m', run = earlier ++ .status m :: notes.map .note ++ [.status m'] →
        m.lineCount < Status.movementLimit →
          ∃ rows, (laid verbose time top (earlier ++ [.status m])).1 = rows ++ m.block time ∧
            (laid verbose time top run).1 = rows ++
              (m.block time ++ noteRows verbose notes).rdrop m.lineCount ++ m'.block time) ∧
      ∀ before ms after,
        run.filter (visible verbose) = before.map .note ++ ms.map .status ++ after.map .note →
          (∀ m ∈ ms, m.lineCount < Status.movementLimit) →
            (laid verbose time top run).1 =
              top ++ noteRows verbose before ++ lastBlock time ms ++ noteRows verbose after := by
  refine ⟨feed_renderAll {} stamp legible, ?_, ?_⟩
  · intro earlier m notes m' shape short
    have long : m.lineCount ≤ (m.block time ++ noteRows verbose notes).length := by
      rw [List.length_append, m.length_block stamp]
      exact Nat.le_add_right _ _
    refine ⟨(laid verbose time top earlier).1.rdrop (laid verbose time top earlier).2.reach, ?_, ?_⟩
    · simp [laid, lay]
    · rw [shape, ← List.rdrop_append_of_le_length _ long, ← List.append_assoc]
      simp only [laid, List.foldl_append, List.foldl_cons, List.foldl_nil, foldl_lay_notes, lay,
        Status.reach_of_short short]
  · intro before ms after shape short
    obtain ⟨s, statuses, _⟩ :=
      foldl_lay_statuses verbose (top ++ noteRows verbose before) stamp short
    rw [laid, ← foldl_lay_filter, shape, List.foldl_append, List.foldl_append,
      foldl_lay_notes _ before, statuses, foldl_lay_notes]

/-- Two status messages between two notes, on a screen that is not empty. -/
theorem run_shows_two_statuses :
    let run := [.note ⟨"cache", "miss", false⟩, .status ⟨.failure, "partially patched Card\nstale"⟩,
      .note ⟨"reload", "snapshot", true⟩, .status ⟨.success, "patched Card"⟩,
      .note ⟨"reload", "done", false⟩]
    (∀ c ∈ "12:00:00".toList, isPrintable c = true) ∧ (∀ o ∈ run, o.legible = true) ∧
      (Screen.under ["$ dev".toList]).feed (renderAll false "12:00:00" {} run).1.toList =
        .under ["$ dev".toList, "[cache] miss".toList, "[12:00:00] ✓ patched Card".toList,
          "[reload] done".toList] := by
  intro run
  have stamp : ∀ c ∈ "12:00:00".toList, isPrintable c = true := List.all_eq_true.mp rfl
  have legible : ∀ o ∈ run, o.legible = true := List.all_eq_true.mp rfl
  obtain ⟨screen, _, quiet⟩ := run_shows false "12:00:00" ["$ dev".toList] run stamp legible
  refine ⟨stamp, legible, screen.trans (congrArg Screen.under ?_)⟩
  rw [quiet [⟨"cache", "miss", false⟩] [⟨.failure, "partially patched Card\nstale"⟩,
    ⟨.success, "patched Card"⟩] [⟨"reload", "done", false⟩] (by decide) (by decide)]
  decide

/-- A page cannot be rendered after either of two changes.  The second time, the note that says so
is gone as soon as the status message is there, and a line of the message before has stayed. -/
theorem run_loses_note :
    let first := (Session.start 0 ["vue"]).dispatch Reconcile.unrenderable Reconcile.cardChange ()
    let second := first.session.dispatch Reconcile.unrenderable Reconcile.cardChange ()
    let note : Output :=
      .note ⟨"reload", "failed to patch Card in Page: render failed: boom", false⟩
    let run := Session.outputsOf (first.steps ++ second.steps)
    run.count note = 2 ∧
      (Screen.under []).feed (renderAll false "12:00:00" {} run).1.toList =
        .under ["[reload] failed to patch Card in Page: render failed: boom".toList,
          "[12:00:00] ✗ partially patched Card".toList,
          "[12:00:00] ✗ partially patched Card".toList,
          "stale until next change: Page".toList] := by
  intro first second note run
  let more : Output := .note ⟨"reload", "snapshot refreshed: 3 components", true⟩
  let status : Output :=
    .status (.failure "partially patched Card" "stale until next change: Page")
  have written : run = [note, more, status, note, more, status] := by decide +kernel
  have stamp : ∀ c ∈ "12:00:00".toList, isPrintable c = true := List.all_eq_true.mp rfl
  have legible : ∀ o ∈ [note, more, status, note, more, status], o.legible = true :=
    List.all_eq_true.mp rfl
  rw [written]
  refine ⟨by decide, ?_⟩
  rw [feed_renderAll {} stamp legible]
  exact congrArg Screen.under (by decide +kernel)

end Output
end Terminal
end HotReload
