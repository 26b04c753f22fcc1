import HotReload.Change.Notification
import HotReload.Reconcile.Basic
import HotReload.Session.Message
import HotReload.Terminal.Output

/-!
# Reload sessions

A session reconciles one change after another with one host.  It keeps the root and the snapshot
that the latest patch left, shows the outcome of each change in the status block, and sends a
message about it to the transport, which may have been closed.

A change that escalates leaves the root and the snapshot as they are.
-/

namespace HotReload

open Component Reconcile

/-- What a session keeps between changes. -/
structure Session (ι : Type) where
  context : Context ι
  /-- The extensions of component files, without dots. -/
  extensions : List String
  /-- The transport still takes messages. -/
  connected : Bool := true

namespace Session

/-- Something that a session did. -/
inductive Step (ι δ : Type) where
  | call (c : Call ι δ)
  | shown (o : Terminal.Output)
  | sent (m : Message)

/-- A step of an activity as a step of the session. -/
def Step.ofActivity {ι δ : Type} : Reconcile.Step ι δ → Step ι δ
  | .call c => .call c
  | .note n => .shown (.note n)

/-- What is written to the terminal. -/
def outputsOf {ι δ : Type} (steps : List (Step ι δ)) : List Terminal.Output :=
  steps.filterMap fun
    | .shown o => some o
    | _ => none

/-- The messages that reach the transport. -/
def messagesOf {ι δ : Type} (steps : List (Step ι δ)) : List Message :=
  steps.filterMap fun
    | .sent m => some m
    | _ => none

/-- The calls of the host. -/
def callsOf {ι δ : Type} (steps : List (Step ι δ)) : List (Call ι δ) :=
  steps.filterMap fun
    | .call c => some c
    | _ => none

variable {σ ι ν δ : Type}

/-- A session at a root. -/
def start (root : ι) (extensions : List String) : Session ι := ⟨⟨root, none⟩, extensions, true⟩

/-- The session after the transport has been closed. -/
def disconnect (s : Session ι) : Session ι := { s with connected := false }

/-- What the status block says about a change. -/
def statusOf (e : Change.Event) : Outcome → Terminal.Message
  | .escalate reason => ⟨.warning, e.path ++ ": full reload (" ++ reason.message ++ ")"⟩
  | .patched report =>
    if report.isComplete then ⟨.success, "patched " ++ e.component⟩
    else
      .failure ("partially patched " ++ e.component)
        ("stale until next change: " ++ String.intercalate ", " report.staleNames)

/-- The context of the session after a change that ended in the given one.  A change starts without
a snapshot, so there is one only if the component has been patched. -/
def adopt (s : Session ι) (c : Context ι) : Session ι :=
  if c.snapshot.isSome then { s with context := c } else s

/-- What becomes of a message about a path: it is sent, or dropped with a note. -/
def deliver (connected : Bool) (m : Message) (path : String) : Step ι δ :=
  if connected then .sent m
  else .shown (.note (detail ("transport closed, dropping outcome for " ++ path)))

/-- What a session leaves behind after a change: the outcome, the session, the host's state, and
what it did. -/
structure Trace (σ ι δ : Type) where
  outcome : Outcome
  session : Session ι
  state : σ
  steps : List (Step ι δ)

/-- Reconciles a change. -/
def dispatch [DecidableEq ι] (h : Host σ ι ν δ) (s : Session ι) (e : Change.Event) (state : σ) :
    Trace σ ι δ :=
  let t := reconcile h { root := s.context.root } e state
  let (outcome, context) := t.result
  { outcome
    session := s.adopt context
    state := t.state
    steps := t.journal.map .ofActivity ++
      [.shown (.status (statusOf e outcome)),
        deliver s.connected (.ofOutcome outcome) e.path] }

/-- Reconciles the change that a notification tells of. -/
def notify [DecidableEq ι] (h : Host σ ι ν δ) (s : Session ι) (n : Change.Notification)
    (state : σ) : Trace σ ι δ :=
  s.dispatch h (n.event s.extensions) state

/-- Tells of a module that could not be transformed; nothing is told of one that could. -/
def reportTransform (s : Session ι) (path : String) : Option String → List (Step ι δ)
  | none => []
  | some error =>
    .shown (.status (.failure ("failed to transform " ++ path) error)) ::
      if s.connected then [.sent (.failed path error)] else []

end Session
end HotReload
