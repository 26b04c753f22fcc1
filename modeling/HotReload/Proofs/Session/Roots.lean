import HotReload.Proofs.Reconcile.Escalation
import HotReload.Session.Basic
import Mathlib.Data.List.Induction

/-!
# The root that a session looks at

Between changes the host may do what it likes, and may have another root each time a change starts.
A session looks for the parents of a changed component below the root that it keeps.  That is the
root which the host had after the latest change that was patched in, or the root at which the
session was started if there was none (`LeftBy`): a change that escalates does not move it.

So a change is looked for below the root that the host has when the change starts if and only if
this is the root that the session was left with (`dispatch_locates_below_left`), and a session that
has escalated does not see what the host has mounted since (`dispatch_misses_mounted`).
-/

namespace HotReload
namespace Session

open Component Reconcile

variable {σ ι ν δ : Type}

/-- A snapshot tells its root. -/
theorem snapshot_injective (h : Host σ ι ν δ) (s : σ) {i j : ι} :
    h.snapshot s i = h.snapshot s j ↔ i = j := by
  constructor
  · exact fun same => congrArg Tree.handle same
  · exact congrArg (h.snapshot s)

section

variable [DecidableEq ι] (h : Host σ ι ν δ)

/-- A session after several changes, each with the state in which it finds the host. -/
def after (s : Session ι) (changes : List (Change.Event × σ)) : Session ι :=
  changes.foldl (fun s change => (s.dispatch h change.1 change.2).session) s

theorem after_snoc (s : Session ι) (changes : List (Change.Event × σ)) (e : Change.Event)
    (state : σ) :
    s.after h (changes ++ [(e, state)]) = ((s.after h changes).dispatch h e state).session :=
  List.foldl_append

/-- Whether a session escalates a change. -/
def Escalates (s : Session ι) (change : Change.Event × σ) : Prop :=
  (s.dispatch h change.1 change.2).outcome.isEscalation = true

/-- A root that a session is left with: the one that the host had after the latest change that was
patched in, or the first one if all have escalated. -/
inductive LeftBy (s : Session ι) (changes : List (Change.Event × σ)) : ι → Prop
  | mounted : (∀ change ∈ changes, s.Escalates h change) → LeftBy s changes s.context.root
  | patched {earlier later : List (Change.Event × σ)} {e : Change.Event} {state : σ} :
      changes = earlier ++ (e, state) :: later → ¬(s.after h earlier).Escalates h (e, state) →
      (∀ change ∈ later, (s.after h changes).Escalates h change) →
      LeftBy s changes
        ((h.root ((s.after h earlier).dispatch h e state).state).getD
          (s.after h earlier).context.root)

variable {h} {s : Session ι} {e : Change.Event} {state : σ}

/-- A change that escalates leaves the session as it is. -/
theorem session_of_escalates (escalates : s.Escalates h (e, state)) :
    (s.dispatch h e state).session = s := by
  change (reconcile h { root := s.context.root } e state).result.1.isEscalation = true at escalates
  change s.adopt (reconcile h { root := s.context.root } e state).result.2 = s
  rcases reconcile_ends h { root := s.context.root } e state with ⟨_, result⟩ | ⟨_, result⟩
  · rw [result]
    rfl
  · rw [result] at escalates
    cases escalates

/-- A change that is patched in leaves the root that the host then has. -/
theorem root_of_patched (patched : ¬s.Escalates h (e, state)) :
    (s.dispatch h e state).session.context.root =
      (h.root (s.dispatch h e state).state).getD s.context.root := by
  change ¬(reconcile h { root := s.context.root } e state).result.1.isEscalation = true at patched
  change (s.adopt (reconcile h { root := s.context.root } e state).result.2).context.root = _
  rcases reconcile_ends h { root := s.context.root } e state with ⟨_, result⟩ | ⟨_, result⟩
  · rw [result] at patched
    exact absurd rfl patched
  · rw [result]
    rfl

/-- Changes that all escalate leave the session as it is. -/
theorem after_of_escalates {changes : List (Change.Event × σ)}
    (escalate : ∀ change ∈ changes, s.Escalates h change) : s.after h changes = s := by
  induction changes using List.reverseRecOn with
  | nil => rfl
  | append_singleton changes change ih =>
      have before := ih fun change member => escalate change (List.mem_append_left _ member)
      rw [after_snoc, before]
      exact session_of_escalates (escalate change (by simp))

/-- One more change that escalates leaves a session with the same root. -/
theorem LeftBy.snoc {changes : List (Change.Event × σ)} {root : ι}
    (left : LeftBy h s changes root) (escalates : (s.after h changes).Escalates h (e, state)) :
    LeftBy h s (changes ++ [(e, state)]) root := by
  cases left with
  | mounted all =>
      rw [after_of_escalates all] at escalates
      refine .mounted fun change member => ?_
      rcases List.mem_append.mp member with first | last
      · exact all change first
      · rw [List.mem_singleton.mp last]
        exact escalates
  | @patched earlier later e' state' parts patched all =>
      have same : s.after h (changes ++ [(e, state)]) = s.after h changes := by
        rw [after_snoc]
        exact session_of_escalates escalates
      have longer :
          changes ++ [(e, state)] = earlier ++ (e', state') :: (later ++ [(e, state)]) := by
        rw [parts, List.append_assoc, List.cons_append]
      refine .patched longer patched fun change member => ?_
      rw [same]
      rcases List.mem_append.mp member with first | last
      · exact all change first
      · rw [List.mem_singleton.mp last]
        exact escalates

variable (h)

/-- A session keeps the root that it was left with. -/
theorem leftBy_after (s : Session ι) (changes : List (Change.Event × σ)) :
    LeftBy h s changes (s.after h changes).context.root := by
  induction changes using List.reverseRecOn with
  | nil => exact .mounted (by simp)
  | append_singleton changes change ih =>
      obtain ⟨e, state⟩ := change
      by_cases escalates : (s.after h changes).Escalates h (e, state)
      · rw [after_snoc, session_of_escalates escalates]
        exact ih.snoc escalates
      · rw [after_snoc, root_of_patched escalates]
        exact .patched rfl escalates (by simp)

end

/-- Whatever has happened before, a session looks for the parents of a changed component below the
root that it was left with: they decide whether the change escalates, and are those that are
patched.  The snapshot is that of the root which the host has if and only if the session was left
with it. -/
theorem dispatch_locates_below_left [DecidableEq ι] (h : Host σ ι ν δ) (mount : ι)
    (extensions : List String) (changes : List (Change.Event × σ)) (component path : String)
    (timestamp : UInt64) (state : σ) :
    let s := (start mount extensions).after h changes
    let t := s.dispatch h (.ofComponent component path timestamp) state
    ∃ root, LeftBy h (start mount extensions) changes root ∧
      (∀ reason, t.outcome = .escalate reason ↔
        escalation ((h.snapshot state root).parentsOfName component) = some reason) ∧
      (∀ report, t.outcome = .patched report →
        report.parents.map ParentPatch.name =
          ((h.snapshot state root).parentsOfName component).map Parent.name) ∧
      ∀ live, h.root state = some live →
        (h.snapshot state root = h.snapshot state live ↔ root = live) := by
  intro s t
  refine ⟨s.context.root, leftBy_after h _ changes, ?_⟩
  have outcome : t.outcome = (reconcile h { root := s.context.root }
    (.ofComponent component path timestamp) state).result.1 := rfl
  rcases reconcile_component (h := h) (c := { root := s.context.root }) (s := state)
      (e := .ofComponent component path timestamp) rfl with
    ⟨reason, found, runs⟩ | ⟨turns, patches, s', clear, all, runs⟩
  · rw [runs.result] at outcome
    have found :
        escalation ((h.snapshot state s.context.root).parentsOfName component) = some reason :=
      found
    refine ⟨fun other => ?_, fun report patched => ?_, fun live _ => snapshot_injective h state⟩
    · rw [outcome, found, Option.some.injEq, Outcome.escalate.injEq]
    · rw [outcome] at patched
      cases patched
  · rw [runs.result] at outcome
    have clear : escalation ((h.snapshot state s.context.root).parentsOfName component) = none :=
      clear
    refine ⟨fun other => ?_, fun report patched => ?_, fun live _ => snapshot_injective h state⟩
    · rw [outcome, clear]
      simp
    · rw [outcome] at patched
      rw [← Outcome.patched.inj patched]
      exact all.names_eq

/-- A host whose state is its root: first an empty one, and then one with a page that contains a
card. -/
def remounted : Host Nat Nat Nat String where
  root s := some s
  nodes _ i := if i = 1 ∨ i = 2 then [i + 1] else []
  nested _ n := some n
  children _ _ := []
  describe _ i := { declared := ["App", "App", "Page", "Card"][i]? }
  registered _ i := if i = 2 then some ["Card"] else none
  rebind _ _ _ s := (.ok (), s)
  forceUpdate _ s := (.ok (), s)
  internalUpdate _ s := (.ok (), s)
  load url s := (.ok url, s)

/-- After a change that escalates, a session does not find a card that the host has mounted since,
although below the host's root it could be patched in. -/
theorem dispatch_misses_mounted :
    let change : Change.Event := .ofComponent "Card" "/src/Card.vue" 1
    let s := (start 0 ["vue"]).after remounted [(change, 0)]
    (s.dispatch remounted change 1).outcome = .escalate .notFound ∧ remounted.root 1 = some 1 ∧
      escalation ((remounted.snapshot 1 1).parentsOfName "Card") = none := by
  decide +kernel

end Session
end HotReload
