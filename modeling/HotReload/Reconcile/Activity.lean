import HotReload.Component.Tree
import HotReload.Terminal.Note

/-!
# Activities on a host

An activity acts on a host: from a state of the host it yields a result, the state after it, and the
journal of the calls it made and the notes it logged, in order.
-/

namespace HotReload
namespace Reconcile

open Component

/-- Something that an activity did. -/
inductive Step (ι δ : Type) where
  | call (c : Call ι δ)
  | note (n : Terminal.Note)

/-- What an activity leaves behind. -/
structure Trace (σ ι δ α : Type) where
  result : α
  state : σ
  journal : List (Step ι δ) := []

/-- An activity on a host. -/
def Activity (σ ι δ α : Type) : Type := σ → Trace σ ι δ α

namespace Activity

variable {σ ι ν δ α β γ : Type}

/-- An activity that does nothing. -/
def done (a : α) : Activity σ ι δ α := fun s => ⟨a, s, []⟩

/-- One activity after another. -/
def andThen (x : Activity σ ι δ α) (f : α → Activity σ ι δ β) : Activity σ ι δ β := fun s =>
  let t := x s
  let u := f t.result t.state
  ⟨u.result, u.state, t.journal ++ u.journal⟩

instance : Monad (Activity σ ι δ) where
  pure := done
  bind := andThen

/-- Doing nothing first changes nothing. -/
theorem done_andThen (a : α) (f : α → Activity σ ι δ β) : andThen (done a) f = f a := by
  funext s
  simp [andThen, done]

/-- Doing nothing last changes nothing. -/
theorem andThen_done (x : Activity σ ι δ α) : andThen x done = x := by
  funext s
  simp [andThen, done]

/-- Activities one after another may be grouped at will. -/
theorem andThen_assoc (x : Activity σ ι δ α) (f : α → Activity σ ι δ β)
    (g : β → Activity σ ι δ γ) :
    andThen (andThen x f) g = andThen x fun a => andThen (f a) g := by
  funext s
  simp [andThen, List.append_assoc]

instance : LawfulMonad (Activity σ ι δ) :=
  LawfulMonad.mk' _ andThen_done done_andThen andThen_assoc

/-- Looks at the host. -/
def look (f : σ → α) : Activity σ ι δ α := fun s => ⟨f s, s, []⟩

/-- Logs notes. -/
def log (notes : List Terminal.Note) : Activity σ ι δ Unit := fun s =>
  ⟨(), s, notes.map .note⟩

/-- Makes a call, whose entry for the journal is made from its answer. -/
def perform (call : σ → Except HostFault α × σ) (entry : Except HostFault α → Call ι δ) :
    Activity σ ι δ (Except HostFault α) := fun s =>
  let (answer, s') := call s
  ⟨answer, s', [.call (entry answer)]⟩

end Activity

variable {σ ι ν δ : Type}

/-- A note about reloading. -/
def notice (text : String) : Terminal.Note := { topic := "reload", text }

/-- A note about reloading that only debug output shows. -/
def detail (text : String) : Terminal.Note := { topic := "reload", text, detail := true }

/-- The calls of a journal. -/
def callsOf (journal : List (Step ι δ)) : List (Call ι δ) :=
  journal.filterMap fun
    | .call c => some c
    | .note _ => none

/-- The notes of a journal. -/
def notesOf (journal : List (Step ι δ)) : List Terminal.Note :=
  journal.filterMap fun
    | .note n => some n
    | .call _ => none

/-- The calls of two journals. -/
@[simp] theorem callsOf_append (a b : List (Step ι δ)) :
    callsOf (a ++ b) = callsOf a ++ callsOf b := List.filterMap_append

/-- The notes of two journals. -/
@[simp] theorem notesOf_append (a b : List (Step ι δ)) :
    notesOf (a ++ b) = notesOf a ++ notesOf b := List.filterMap_append

/-- Takes a snapshot, with a note for each place where the walk stopped. -/
def takeSnapshot (h : Host σ ι ν δ) (root : ι) : Activity σ ι δ (Component.Tree ι) := fun s =>
  ⟨h.snapshot s root, s, (h.cuts s root).map fun c => .note (detail c.message)⟩

/-- Loads a module. -/
def loadModule (h : Host σ ι ν δ) (url : String) : Activity σ ι δ (Except HostFault δ) :=
  .perform (h.load url) (.load url)

/-- Puts a definition into a registry. -/
def rebind (h : Host σ ι ν δ) (i : ι) (name : String) (d : δ) :
    Activity σ ι δ (Except HostFault Unit) :=
  .perform (h.rebind i name d) (.rebind i name d)

/-- Renders an instance through its public entry point, and through the internal one if there is no
public one. -/
def forceRender (h : Host σ ι ν δ) (i : ι) : Activity σ ι δ (Except HostFault Unit) := do
  match ← Activity.perform (h.forceUpdate i) (.force i) with
  | .error (.unavailable _) => Activity.perform (h.internalUpdate i) (.internal i)
  | answer => return answer

end Reconcile
end HotReload
