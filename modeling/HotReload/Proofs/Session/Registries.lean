import HotReload.Proofs.Reconcile.Registries
import HotReload.Session.Basic

/-!
# Registries during a session

A session reconciles one change after another.  Each of them only replaces entries that the host has
reported, those of its component in the parents that were located for it; so over a whole session no
registry gains or loses a name, and an entry that differs in the end is one of those
(`run_reassigns_reported`).
-/

namespace HotReload
namespace Session

open Component Reconcile

section

variable {σ ι ν δ : Type} [DecidableEq ι] (h : Host σ ι ν δ)

/-- The session and the host's state after several changes, one after another. -/
def run (s : Session ι) (state : σ) : List Change.Event → Session ι × σ
  | [] => (s, state)
  | e :: events => run (s.dispatch h e state).session (s.dispatch h e state).state events

/-- The calls of a change in a session are those of reconciling it. -/
theorem callsOf_dispatch (s : Session ι) (e : Change.Event) (state : σ) :
    Session.callsOf (s.dispatch h e state).steps =
      Reconcile.callsOf (reconcile h { root := s.context.root } e state).journal := by
  have activity (journal : List (Reconcile.Step ι δ)) :
      Session.callsOf (journal.map Step.ofActivity) = Reconcile.callsOf journal := by
    rw [Session.callsOf, Reconcile.callsOf, List.filterMap_map]
    refine List.filterMap_congr fun step _ => ?_
    cases step <;> rfl
  have rest (connected : Bool) (m : Message) (path : String) (o : Terminal.Output) :
      Session.callsOf (ι := ι) (δ := δ) [.shown o, deliver connected m path] = [] := by
    cases connected <;> rfl
  change Session.callsOf (List.map _ _ ++ _) = _
  rw [Session.callsOf, List.filterMap_append, ← Session.callsOf, ← Session.callsOf, activity, rest,
    List.append_nil]

/-- In the course of several changes, a change finds the session and the host like this. -/
inductive Meets : Session ι → σ → List Change.Event → Change.Event → Session ι → σ → Prop
  | first {s : Session ι} {state : σ} {e : Change.Event} {events : List Change.Event} :
      Meets s state (e :: events) e s state
  | later {s s' : Session ι} {state state' : σ} {e e' : Change.Event} {events : List Change.Event} :
      Meets (s.dispatch h e state).session (s.dispatch h e state).state events e' s' state' →
      Meets s state (e :: events) e' s' state'

/-- Over several changes, only entries are replaced that one of them may replace. -/
theorem run_keeps (R : h.Registries) (s : Session ι) (state : σ) (events : List Change.Event) :
    R.Keeps state (run h s state events).2 fun i name =>
      ∃ e s' state', Meets h s state events e s' state' ∧ e.route = .component ∧
        name = e.component ∧ ∃ p ∈ (h.snapshot state' s'.context.root).parentsOfName e.component,
          p.handle = i ∧ p.wrapper.rendersOnly = false := by
  induction events generalizing s state with
  | nil => exact .of_eq rfl
  | cons e events ih =>
      have own := reconcile_keeps h { root := s.context.root } e state R
      refine (own.mono ?_).trans ((ih _ _).mono ?_)
      · rintro i name ⟨route, named, located⟩
        exact ⟨e, s, state, .first, route, named, located⟩
      · rintro i name ⟨e', s', state', meets, replaced⟩
        exact ⟨e', s', state', .later meets, replaced⟩

/-- Whatever a session puts into a registry, in whatever state it and the host are, it puts there in
the turn of a located parent that is no mere wrapper: under the name of the changed component, which
the host has just reported, and right after the call that has loaded the definition.  No registry is
written to twice for one change.  So over several changes no registry gains or loses a name, and
only entries of the changed components in such parents are replaced. -/
theorem run_reassigns_reported :
    (∀ (s : Session ι) (e : Change.Event) (state : σ),
      let calls := Session.callsOf (s.dispatch h e state).steps
      let located := (h.snapshot state s.context.root).parentsOfName e.component
      let turns := turnsOf h s.context.root e located state
      (∀ i name d answer, Call.rebind i name d answer ∈ calls →
        calls = turns.flatMap Turn.calls ∧
        ∃ k t, turns[k]? = some t ∧ t.parent ∈ located ∧ Call.rebind i name d answer ∈ t.calls ∧
          Reassigns h e (startOf h state turns k) t i name d answer) ∧
      (calls.filterMap reboundHandle?).Nodup) ∧
    ∀ (R : h.Registries) (s : Session ι) (state : σ) (events : List Change.Event),
      R.Keeps state (run h s state events).2 fun i name =>
        ∃ e s' state', Meets h s state events e s' state' ∧ e.route = .component ∧
          name = e.component ∧
          ∃ p ∈ (h.snapshot state' s'.context.root).parentsOfName e.component,
            p.handle = i ∧ p.wrapper.rendersOnly = false := by
  refine ⟨fun s e state => ?_, run_keeps h⟩
  dsimp only
  rw [callsOf_dispatch]
  exact ⟨fun i name d answer => reassigns_of_rebind h _ e state, nodup_reboundHandles h _ e state⟩

end

/-- A host with a page that contains a card and a menu and has both in its registry.  The state is
what is registered there under each name. -/
def registering : Host (String → String) Nat Nat String where
  root _ := some 0
  nodes _
    | 0 => [1]
    | 1 => [2, 3]
    | _ => []
  nested _ n := some n
  children _ _ := []
  describe _ i := { declared := ["App", "Page", "Card", "Menu"][i]? }
  registered _ i := if i = 1 then some ["Card", "Menu"] else none
  rebind i name d s :=
    if i = 1 ∧ name ∈ ["Card", "Menu"] then
      (.ok (), fun other => if other = name then d else s other)
    else (.error (.rebindFailed "unknown"), s)
  forceUpdate _ s := (.ok (), s)
  internalUpdate _ s := (.ok (), s)
  load url s := (.ok url, s)

/-- The entries of such a host. -/
def pageRegistry : registering.Registries where
  entry s i name := if i = 1 ∧ name ∈ ["Card", "Menu"] then some (s name) else none
  mem_registered := by
    intro s i names name reported
    by_cases page : i = 1
    · simp [registering, page] at reported
      simp [page, ← reported]
    · simp [registering, page] at reported
  rebind_self := by
    intro i name d s s' bound
    simp only [registering] at bound
    split at bound
    · rename_i here
      rw [← (Prod.mk.inj bound).2, if_pos here]
      exact congrArg some (if_pos rfl)
    · cases (Prod.mk.inj bound).1
  rebind_other := by
    intro i name d s s' bound j other apart
    simp only [registering] at bound
    split at bound
    · rename_i here
      rw [← (Prod.mk.inj bound).2]
      by_cases there : j = 1 ∧ other ∈ ["Card", "Menu"]
      · rw [if_pos there, if_pos there]
        exact congrArg some (if_neg fun same => apart ⟨there.1.trans here.1.symm, same⟩)
      · rw [if_neg there, if_neg there]
    · cases (Prod.mk.inj bound).1
  rebind_error := by
    intro i name d s s' fault bound
    simp only [registering] at bound
    split at bound
    · cases (Prod.mk.inj bound).1
    · rw [(Prod.mk.inj bound).2]
  load _ _ := rfl
  forceUpdate _ _ := rfl
  internalUpdate _ _ := rfl

/-- After two changes of the card, the entry of the page is what the second has loaded, and nothing
else has been registered. -/
theorem run_reassigns_reported_page :
    let changes := [Change.Event.ofComponent "Card" "/src/Card.vue" 1,
      Change.Event.ofComponent "Card" "/src/Card.vue" 2]
    let s := (run registering (start 0 ["vue"]) (fun _ => "old") changes).2
    pageRegistry.entry s 1 "Card" = some "/src/Card.vue?t=2" ∧
      ∀ i name, (pageRegistry.entry s i name).isSome =
        (pageRegistry.entry (fun _ => "old") i name).isSome := by
  refine ⟨by decide +kernel, fun i name => ?_⟩
  exact ((run_reassigns_reported registering).2 pageRegistry _ _ _).names i name

end Session
end HotReload
