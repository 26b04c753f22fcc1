import HotReload.Proofs.Session.Commuting
import HotReload.Proofs.Session.Roots

/-!
# What a session tells of its changes

Notifications are taken one after another, and between them the host may do what it likes.  The
transport is told of each of them once, by the message for its outcome.  A change that escalates
leaves the session as it is.  One that is patched in, completely or not, leaves the root that the
host has after the last call of the change, and the snapshot of that root in that state (`Settles`).

So there is a snapshot as soon as something has been patched in, and not before
(`notices_told_once`).
-/

namespace HotReload
namespace Session

open Component Reconcile

variable {σ ι ν δ : Type}

/-- Nothing that an activity does is a message. -/
theorem messagesOf_ofActivity (journal : List (Reconcile.Step ι δ)) :
    messagesOf (journal.map Step.ofActivity) = [] := by
  induction journal with
  | nil => rfl
  | cons step journal ih =>
      cases step with
      | call c => exact ih
      | note n => exact ih

theorem messagesOf_append (xs ys : List (Step ι δ)) :
    messagesOf (xs ++ ys) = messagesOf xs ++ messagesOf ys := List.filterMap_append

/-- What becomes of a session by a change that it has met in a state of the host. -/
structure Settles (h : Host σ ι ν δ) (s : Session ι) (state : σ) (t : Trace σ ι δ) : Prop where
  /-- The transport is told once. -/
  message : messagesOf t.steps = [Message.ofOutcome t.outcome]
  /-- The change ends with its last call. -/
  ends : t.state = stateAfter h state (callsOf t.steps)
  escalated : ∀ reason, t.outcome = .escalate reason → t.session = s
  patched : ∀ report, t.outcome = .patched report →
    let root := (h.root t.state).getD s.context.root
    t.session = { s with context := ⟨root, some (h.snapshot t.state root)⟩ }

section

variable [DecidableEq ι] (h : Host σ ι ν δ)

section

variable (s : Session ι) (e : Change.Event) (state : σ)

theorem messagesOf_dispatch (connected : s.connected = true) :
    messagesOf (s.dispatch h e state).steps =
      [Message.ofOutcome (s.dispatch h e state).outcome] := by
  change messagesOf (List.map _ _ ++ [_, deliver s.connected _ _]) = _
  rw [messagesOf_append, messagesOf_ofActivity, connected]
  rfl

theorem connected_dispatch : (s.dispatch h e state).session.connected = s.connected := by
  rw [(dispatch_reconciles h s e state).2.1]

theorem dispatch_settles (connected : s.connected = true) :
    Settles h s state (s.dispatch h e state) := by
  obtain ⟨outcome, session, ends, calls⟩ := dispatch_reconciles h s e state
  refine ⟨messagesOf_dispatch h s e state connected, ?_, fun reason escalated => ?_,
    fun report patched => ?_⟩
  · rw [ends, calls]
    exact (reconcile_answers h s.context e state).2
  · exact session_of_escalates (congrArg Outcome.isEscalation escalated)
  · rw [outcome] at patched
    rcases reconcile_ends h s.context e state with ⟨_, result⟩ | ⟨_, result⟩
    · rw [result] at patched
      cases patched
    · dsimp only
      rw [session, ends, result]

/-- There is a snapshot after a change if there was one before, or the change is patched in. -/
theorem snapshot_dispatch_eq_none :
    (s.dispatch h e state).session.context.snapshot = none ↔
      s.context.snapshot = none ∧ (s.dispatch h e state).outcome.isEscalation = true := by
  obtain ⟨outcome, session, _, _⟩ := dispatch_reconciles h s e state
  rw [outcome, session]
  rcases reconcile_ends h s.context e state with ⟨_, result⟩ | ⟨_, result⟩
  · rw [result]
    simp [Outcome.isEscalation]
  · rw [result]
    simp [Outcome.isEscalation]

end

/-- What a session leaves behind after each of several notifications, each of which finds the host
in a state of its own. -/
def traces (s : Session ι) : List (Change.Notification × σ) → List (Trace σ ι δ)
  | [] => []
  | (n, state) :: rest => s.notify h n state :: traces (s.notify h n state).session rest

/-- The session after several notifications. -/
def noticed (s : Session ι) (notices : List (Change.Notification × σ)) : Session ι :=
  (traces h s notices).foldl (fun _ t => t.session) s

theorem length_traces (s : Session ι) (notices : List (Change.Notification × σ)) :
    (traces h s notices).length = notices.length := by
  induction notices generalizing s with
  | nil => rfl
  | cons notice rest ih => rw [traces, List.length_cons, ih, List.length_cons]

theorem getElem?_traces (s : Session ι) (notices : List (Change.Notification × σ)) (k : Nat) :
    (traces h s notices)[k]? =
      notices[k]?.map fun notice => (noticed h s (notices.take k)).notify h notice.1 notice.2 := by
  induction notices generalizing s k with
  | nil => rfl
  | cons notice rest ih =>
      cases k with
      | zero => rfl
      | succ k =>
          rw [traces, List.getElem?_cons_succ, List.getElem?_cons_succ, ih, List.take_succ_cons]
          rfl

theorem connected_noticed (s : Session ι) (notices : List (Change.Notification × σ)) :
    (noticed h s notices).connected = s.connected := by
  induction notices generalizing s with
  | nil => rfl
  | cons notice rest ih => exact (ih _).trans (connected_dispatch h s _ _)

theorem messagesOf_traces (s : Session ι) (notices : List (Change.Notification × σ))
    (connected : s.connected = true) :
    messagesOf ((traces h s notices).flatMap Trace.steps) =
      (traces h s notices).map fun t => Message.ofOutcome t.outcome := by
  induction notices generalizing s with
  | nil => rfl
  | cons notice rest ih =>
      have later := ih (s.notify h notice.1 notice.2).session
        ((connected_dispatch h s _ _).trans connected)
      rw [traces, List.flatMap_cons, messagesOf_append, later, List.map_cons]
      exact congrArg (· ++ _) (messagesOf_dispatch h s _ _ connected)

theorem snapshot_noticed_eq_none (s : Session ι) (notices : List (Change.Notification × σ)) :
    (noticed h s notices).context.snapshot = none ↔
      s.context.snapshot = none ∧ ∀ t ∈ traces h s notices, t.outcome.isEscalation = true := by
  induction notices generalizing s with
  | nil => simp [noticed, traces]
  | cons notice rest ih =>
      have first := snapshot_dispatch_eq_none h s (notice.1.event s.extensions) notice.2
      have later := ih (s.notify h notice.1 notice.2).session
      rw [traces, List.forall_mem_cons, ← and_assoc]
      exact later.trans (and_congr_left fun _ => first)

end

/-- A session that is started at a root, and whose transport stays open, tells the transport of
every notification once, in order, by the message for the outcome.  A change that escalates leaves
root and snapshot as they are; one that is patched in leaves the host's root, or the one before if
the host has none, and its snapshot, both as the host is after the last call.  There is no snapshot
just as long as every change has escalated. -/
theorem notices_told_once [DecidableEq ι] (h : Host σ ι ν δ) (mount : ι) (extensions : List String)
    (notices : List (Change.Notification × σ)) :
    let s := start mount extensions
    let told := traces h s notices
    told.length = notices.length ∧
    messagesOf (told.flatMap Trace.steps) = (told.map fun t => Message.ofOutcome t.outcome) ∧
    (∀ (k : Nat) n state, notices[k]? = some (n, state) →
      let before := noticed h s (notices.take k)
      told[k]? = some (before.notify h n state) ∧
        Settles h before state (before.notify h n state)) ∧
    ((noticed h s notices).context.snapshot = none ↔
      ∀ t ∈ told, t.outcome.isEscalation = true) := by
  intro s told
  refine ⟨length_traces h s notices, messagesOf_traces h s notices rfl,
    fun k n state found => ⟨?_, ?_⟩, ?_⟩
  · rw [getElem?_traces, found]
    rfl
  · exact dispatch_settles h _ _ state ((connected_noticed h s _).trans rfl)
  · rw [snapshot_noticed_eq_none]
    exact and_iff_right rfl

/-- A module that is no component, and then a card. -/
example :
    let notices := [(⟨"utils", "/src/utils.js", "js", "change", 1⟩, fun _ => "old"),
      (⟨"Card", "/src/Card.vue", ".vue", "change", 2⟩, fun _ => "old")]
    messagesOf ((traces registering (start 0 ["vue"]) notices).flatMap Trace.steps) =
      [.reload (some "plain module has no patch target"), .patched "Card" ["Page"]] := by
  decide +kernel

end Session
end HotReload
