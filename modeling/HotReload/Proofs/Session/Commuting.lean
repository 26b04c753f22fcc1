import HotReload.Proofs.Reconcile.Calm
import HotReload.Proofs.Session.Registries

/-!
# Changes in either order

On a calm host two changes may be made in either order, unless they are changes of one component:
each has the same outcome, the registries have the same entries in the end, each instance has been
rendered as often, and the same root and snapshot are kept (`dispatch_commutes`).  A change finds
everything that it looks at as it would alone, since a calm host shows the same throughout, and the
entries that one change may replace are left alone by the other.
-/

namespace HotReload
namespace Session

open Component Reconcile

variable {σ ι ν δ : Type} [DecidableEq ι]

/-- Whether a call renders a given instance, through whichever entry point. -/
def rendersInstance (i : ι) : Call ι δ → Bool
  | .force j _ => j = i
  | .internal j _ => j = i
  | _ => false

/-- What two changes come to, one after the other. -/
@[ext]
structure Upshot (ι δ γ : Type) where
  first : Outcome
  second : Outcome
  /-- The entries of the registries in the end. -/
  entry : ι → String → Option δ
  /-- The number of calls that have rendered an instance. -/
  renders : ι → Nat
  /-- The context or the session in the end. -/
  kept : γ

omit [DecidableEq ι] in
/-- The same for the changes named in the other order. -/
def Upshot.swap {γ : Type} (u : Upshot ι δ γ) : Upshot ι δ γ :=
  { u with first := u.second, second := u.first }

section

variable {h : Host σ ι ν δ} (R : h.Registries)

/-- What two changes come to in a context. -/
def reconciled (c : Context ι) (state : σ) (e f : Change.Event) : Upshot ι δ (Context ι) :=
  let one := reconcile h c e state
  let two := reconcile h one.result.2 f one.state
  { first := one.result.1
    second := two.result.1
    entry := R.entry two.state
    renders := fun i =>
      (Reconcile.callsOf one.journal ++ Reconcile.callsOf two.journal).countP (rendersInstance i)
    kept := two.result.2 }

/-- What two changes come to in a session. -/
def dispatched (s : Session ι) (state : σ) (e f : Change.Event) : Upshot ι δ (Session ι) :=
  let one := s.dispatch h e state
  let two := one.session.dispatch h f one.state
  { first := one.outcome
    second := two.outcome
    entry := R.entry two.state
    renders := fun i => (callsOf one.steps ++ callsOf two.steps).countP (rendersInstance i)
    kept := two.session }

variable {R} {c : Context ι} {e f : Change.Event} {state : σ}

/-- An entry that the second change does not touch is in the end what the first makes of it. -/
theorem entry_reconciled (calm : Calm h) (mounted : h.root state = some c.root) {i : ι}
    {name : String} (untouched : ¬(f.route = .component ∧ name = f.component)) :
    (reconciled R c state e f).entry i name = (reconciled R c state f e).entry i name := by
  have apart (d : Context ι) (s : σ) :
      R.entry (reconcile h d f s).state i name = R.entry s i name :=
    (reconcile_keeps h d f s R).others i name fun replaced => untouched ⟨replaced.1, replaced.2.1⟩
  obtain ⟨root, looks⟩ := reconcile_stays (e := f) calm mounted
  exact (apart _ _).trans (entry_reconcile_congr R calm mounted root looks (apart c state).symm)

theorem reconciled_comm (calm : Calm h) (mounted : h.root state = some c.root)
    (different : ¬(e.route = .component ∧ f.route = .component ∧ e.component = f.component)) :
    reconciled R c state e f = (reconciled R c state f e).swap := by
  obtain ⟨root, looks⟩ := reconcile_stays (e := e) calm mounted
  obtain ⟨root', looks'⟩ := reconcile_stays (e := f) calm mounted
  obtain ⟨alone, _, _⟩ := reconcile_of_calm (e := e) calm mounted rfl (.refl h state)
  obtain ⟨alone', _, _⟩ := reconcile_of_calm (e := f) calm mounted rfl (.refl h state)
  obtain ⟨result, calls, _⟩ := reconcile_of_calm (e := f) calm mounted root looks
  obtain ⟨result', calls', _⟩ := reconcile_of_calm (e := e) calm mounted root' looks'
  have first : (reconciled R c state e f).first = (reconciled R c state f e).second := by
    simp only [reconciled, result']
  have second : (reconciled R c state e f).second = (reconciled R c state f e).first := by
    simp only [reconciled, result]
  -- An entry that both changes might touch would be one of the same component.
  have entry : (reconciled R c state e f).entry = (reconciled R c state f e).entry := by
    funext i name
    by_cases touched : f.route = .component ∧ name = f.component
    · refine (entry_reconciled calm mounted ?_).symm
      rintro ⟨route, named⟩
      exact different ⟨route, touched.1, named.symm.trans touched.2⟩
    · exact entry_reconciled calm mounted touched
  have renders : (reconciled R c state e f).renders = (reconciled R c state f e).renders := by
    funext i
    simp only [reconciled, List.countP_append, calls, calls']
    exact Nat.add_comm _ _
  have kept : (reconciled R c state e f).kept = (reconciled R c state f e).kept := by
    simp only [reconciled]
    rw [result, result', alone, alone']
    cases (reconcile h c e state).result.1.isEscalation <;>
      cases (reconcile h c f state).result.1.isEscalation <;> rfl
  exact Upshot.ext first second entry renders kept

/-- In a session a change is reconciled in the context that the session keeps. -/
theorem dispatch_reconciles (h : Host σ ι ν δ) (s : Session ι) (e : Change.Event) (state : σ) :
    (s.dispatch h e state).outcome = (reconcile h s.context e state).result.1 ∧
      (s.dispatch h e state).session =
        { s with context := (reconcile h s.context e state).result.2 } ∧
      (s.dispatch h e state).state = (reconcile h s.context e state).state ∧
      callsOf (s.dispatch h e state).steps =
        Reconcile.callsOf (reconcile h s.context e state).journal := by
  obtain ⟨result, calls, ends⟩ :=
    reconcile_of_root (h := h) (c := s.context) (d := { root := s.context.root }) (s := state)
      (e := e) rfl
  refine ⟨?_, ?_, ends, (callsOf_dispatch h s e state).trans calls⟩
  · change (reconcile h { root := s.context.root } e state).result.1 = _
    rw [result]
  · change s.adopt (reconcile h { root := s.context.root } e state).result.2 = _
    rw [result]
    rcases reconcile_ends h s.context e state with ⟨reason, escalated⟩ | ⟨report, patched⟩
    · rw [escalated]
      rfl
    · rw [patched]
      rfl

theorem dispatched_eq (s : Session ι) :
    dispatched R s state e f =
      { reconciled R s.context state e f with
        kept := { s with context := (reconciled R s.context state e f).kept } } := by
  obtain ⟨outcome, session, ends, calls⟩ := dispatch_reconciles h s e state
  obtain ⟨outcome', session', ends', calls'⟩ :=
    dispatch_reconciles h (s.dispatch h e state).session f (s.dispatch h e state).state
  simp only [dispatched, reconciled]
  rw [outcome, outcome', session', ends', calls, calls', session, ends]

end

/-- On a calm host two changes that are not changes of one component come to the same in either
order, in every context or session at the root of the host: each has its outcome, and the entries of
the registries, the number of calls that render each instance, the root and the snapshot are the
same in the end. -/
theorem dispatch_commutes {h : Host σ ι ν δ} (calm : Calm h) (R : h.Registries) (e f : Change.Event)
    (different : ¬(e.route = .component ∧ f.route = .component ∧ e.component = f.component))
    (state : σ) :
    (∀ c : Context ι, h.root state = some c.root →
      reconciled R c state e f = (reconciled R c state f e).swap) ∧
    ∀ s : Session ι, h.root state = some s.context.root →
      dispatched R s state e f = (dispatched R s state f e).swap := by
  refine ⟨fun c mounted => reconciled_comm calm mounted different, fun s mounted => ?_⟩
  calc dispatched R s state e f
      = { reconciled R s.context state e f with
          kept := { s with context := (reconciled R s.context state e f).kept } } := dispatched_eq s
    _ = { (reconciled R s.context state f e).swap with
          kept := { s with context := (reconciled R s.context state f e).swap.kept } } := by
        rw [reconciled_comm calm mounted different]
    _ = (dispatched R s state f e).swap := by rw [dispatched_eq]; rfl

theorem calm_registering : Calm registering where
  looks _ _ := ⟨⟨rfl, rfl, rfl, rfl⟩, rfl, rfl⟩
  replies s s' call := by
    cases call with
    | rebind i name d _ =>
        simp only [reply, registering]
        split <;> rfl
    | _ => rfl

/-- A card and a menu of one page, changed in either order: in the end the page has both new entries
and has been rendered twice. -/
theorem dispatch_commutes_page :
    let card := Change.Event.ofComponent "Card" "/src/Card.vue" 1
    let menu := Change.Event.ofComponent "Menu" "/src/Menu.vue" 2
    let u := dispatched pageRegistry (start 0 ["vue"]) (fun _ => "old") card menu
    u.entry 1 "Card" = some "/src/Card.vue?t=1" ∧ u.entry 1 "Menu" = some "/src/Menu.vue?t=2" ∧
      u.renders 1 = 2 ∧
      dispatched pageRegistry (start 0 ["vue"]) (fun _ => "old") menu card = u.swap := by
  refine ⟨by decide +kernel, by decide +kernel, by decide +kernel, ?_⟩
  exact (dispatch_commutes calm_registering pageRegistry _ _ (by decide) _).2 _ rfl

end Session
end HotReload
