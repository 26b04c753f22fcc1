import HotReload.Proofs.Component.Views
import HotReload.Proofs.Reconcile.Escalation
import HotReload.Proofs.Reconcile.Replay

/-!
# Activities in lockstep

An activity learns about the host only from what it looks at and from the answers to its calls.  So
if a second host shows the same before, between and after these calls and gives the same answers to
them (`Agree`), then the same activity on the second host makes the same calls and ends with the
same result (`Follows`).  The relation passes through sequences (`Follows.bind`), and with it
everything that is done for a change (`attemptParent_follows`, `reconcile_follows`).

The two hosts may be one host in two of its states.
-/

namespace HotReload
namespace Reconcile

open Component

variable {σ σ' ι ν δ α β : Type}

/-- Everything that can be looked at is the same of two hosts, each in a state. -/
structure LooksLike (h : Host σ ι ν δ) (s : σ) (h' : Host σ' ι ν δ) (s' : σ') : Prop where
  tree : h.SameTree s h' s'
  root : h.root s = h'.root s'
  registered : h.registered s = h'.registered s'

/-- A call with the answer that a host gives to it. -/
def reply (h : Host σ ι ν δ) (s : σ) : Call ι δ → Call ι δ
  | .load url _ => .load url (h.load url s).1
  | .rebind i name d _ => .rebind i name d (h.rebind i name d s).1
  | .force i _ => .force i (h.forceUpdate i s).1
  | .internal i _ => .internal i (h.internalUpdate i s).1

/-- A host gives these answers to these calls, one after another. -/
inductive Answers (h : Host σ ι ν δ) : σ → List (Call ι δ) → Prop
  | none {s : σ} : Answers h s []
  | call {s : σ} {call : Call ι δ} {calls : List (Call ι δ)} :
      reply h s call = call → Answers h (stateAfterCall h s call) calls →
        Answers h s (call :: calls)

/-- The second host gives these answers to these calls, and before, between and after them shows the
same as the first. -/
structure Agree (h : Host σ ι ν δ) (s : σ) (h' : Host σ' ι ν δ) (s' : σ')
    (calls : List (Call ι δ)) : Prop where
  answers : Answers h' s' calls
  looks : ∀ before, before <+: calls →
    LooksLike h (stateAfter h s before) h' (stateAfter h' s' before)

section

variable {h : Host σ ι ν δ} {h' : Host σ' ι ν δ} {s : σ} {s' : σ'} {cs ds : List (Call ι δ)}

theorem LooksLike.refl (h : Host σ ι ν δ) (s : σ) : LooksLike h s h s :=
  ⟨⟨rfl, rfl, rfl, rfl⟩, rfl, rfl⟩

theorem answers_append :
    Answers h s (cs ++ ds) ↔ Answers h s cs ∧ Answers h (stateAfter h s cs) ds := by
  induction cs generalizing s with
  | nil => exact ⟨fun rest => ⟨.none, rest⟩, fun both => both.2⟩
  | cons c cs ih =>
      constructor
      · intro all
        cases all with
        | call here rest =>
            obtain ⟨first, later⟩ := ih.mp rest
            exact ⟨.call here first, later⟩
      · rintro ⟨all, later⟩
        cases all with
        | call here rest => exact .call here (ih.mpr ⟨rest, later⟩)

theorem Agree.first (agree : Agree h s h' s' (cs ++ ds)) : Agree h s h' s' cs :=
  ⟨(answers_append.mp agree.answers).1,
    fun before early => agree.looks before (early.trans (List.prefix_append cs ds))⟩

theorem Agree.later (agree : Agree h s h' s' (cs ++ ds)) :
    Agree h (stateAfter h s cs) h' (stateAfter h' s' cs) ds := by
  refine ⟨(answers_append.mp agree.answers).2, fun before early => ?_⟩
  have looks := agree.looks (cs ++ before) ((List.prefix_append_right_inj cs).mpr early)
  rwa [stateAfter_append, stateAfter_append] at looks

theorem Agree.here (agree : Agree h s h' s' cs) : LooksLike h s h' s' :=
  agree.looks [] List.nil_prefix

end

/-- From whatever state the first activity starts, its calls have the answers that its host gives
and make the state in which it ends; and on a host that agrees with its own on these calls, the
second activity makes them too and has the same result. -/
def Follows (h : Host σ ι ν δ) (h' : Host σ' ι ν δ) (x : Activity σ ι δ α)
    (x' : Activity σ' ι δ α) : Prop :=
  ∀ s, ∃ cs a, Runs x s cs a (stateAfter h s cs) ∧ Answers h s cs ∧
    ∀ s', Agree h s h' s' cs → Runs x' s' cs a (stateAfter h' s' cs)

namespace Follows

variable {h : Host σ ι ν δ} {h' : Host σ' ι ν δ}

theorem bind {x : Activity σ ι δ α} {x' : Activity σ' ι δ α} {f : α → Activity σ ι δ β}
    {f' : α → Activity σ' ι δ β} (first : Follows h h' x x')
    (second : ∀ a, Follows h h' (f a) (f' a)) :
    Follows h h' (x >>= f) (x' >>= f') := by
  intro s
  obtain ⟨cs, a, runs, answers, follows⟩ := first s
  obtain ⟨ds, b, later, answered, on⟩ := second a (stateAfter h s cs)
  refine ⟨cs ++ ds, b, ?_, answers_append.mpr ⟨answers, answered⟩, fun s' agree => ?_⟩
  · rw [stateAfter_append]
    exact runs.bind later
  · rw [stateAfter_append]
    exact (follows s' agree.first).bind (on _ agree.later)

theorem pure (a : α) : Follows h h' (Pure.pure a : Activity σ ι δ α) (Pure.pure a) :=
  fun s => ⟨[], a, .pure a s, .none, fun s' _ => .pure a s'⟩

theorem log (notes : List Terminal.Note) :
    Follows h h' (Activity.log notes : Activity σ ι δ Unit) (Activity.log notes) :=
  fun s => ⟨[], (), runs_log notes s, .none, fun s' _ => runs_log notes s'⟩

theorem look {f : σ → α} {f' : σ' → α} (same : ∀ s s', LooksLike h s h' s' → f s = f' s') :
    Follows h h' (Activity.look f : Activity σ ι δ α) (Activity.look f') :=
  fun s => ⟨[], f s, runs_look f s, .none, fun s' agree => same s s' agree.here ▸ runs_look f' s'⟩

theorem takeSnapshot (root : ι) :
    Follows h h' (Reconcile.takeSnapshot h root) (Reconcile.takeSnapshot h' root) :=
  fun s => ⟨[], h.snapshot s root, runs_takeSnapshot h root s, .none,
    fun s' agree => agree.here.tree.snapshot root ▸ runs_takeSnapshot h' root s'⟩

/-- A call on which the hosts agree has one answer. -/
theorem perform {call : σ → Except HostFault α × σ} {call' : σ' → Except HostFault α × σ'}
    {entry : Except HostFault α → Call ι δ}
    (after : ∀ s answer, stateAfterCall h s (entry answer) = (call s).2)
    (after' : ∀ s' answer, stateAfterCall h' s' (entry answer) = (call' s').2)
    (replies : ∀ s answer, reply h s (entry answer) = entry (call s).1)
    (replies' : ∀ s' answer, reply h' s' (entry answer) = entry (call' s').1)
    (injective : ∀ a b, entry a = entry b → a = b) :
    Follows h h' (Activity.perform call entry) (Activity.perform call' entry) := by
  intro s
  refine ⟨[entry (call s).1], (call s).1, ?_, .call (replies s _) .none, fun s' agree => ?_⟩
  · rw [stateAfter, List.foldl_cons, List.foldl_nil, after]
    exact runs_perform entry rfl
  · cases agree.answers with
    | call here _ =>
        have same : (call' s').1 = (call s).1 := injective _ _ ((replies' s' _).symm.trans here)
        rw [stateAfter, List.foldl_cons, List.foldl_nil, after', ← same]
        exact runs_perform entry rfl

end Follows

section

variable (h : Host σ ι ν δ) (h' : Host σ' ι ν δ)

theorem loadModule_follows (url : String) : Follows h h' (loadModule h url) (loadModule h' url) :=
  .perform (fun _ _ => rfl) (fun _ _ => rfl) (fun _ _ => rfl) (fun _ _ => rfl)
    fun _ _ same => (Call.load.inj same).2

theorem rebind_follows (i : ι) (name : String) (d : δ) :
    Follows h h' (rebind h i name d) (rebind h' i name d) :=
  .perform (fun _ _ => rfl) (fun _ _ => rfl) (fun _ _ => rfl) (fun _ _ => rfl)
    fun _ _ same => (Call.rebind.inj same).2.2.2

theorem forceRender_follows (i : ι) : Follows h h' (forceRender h i) (forceRender h' i) := by
  have force : Follows h h' (Activity.perform (h.forceUpdate i) (.force i))
      (Activity.perform (h'.forceUpdate i) (.force i)) :=
    .perform (fun _ _ => rfl) (fun _ _ => rfl) (fun _ _ => rfl) (fun _ _ => rfl)
      fun _ _ same => (Call.force.inj same).2
  have internal : Follows h h' (Activity.perform (h.internalUpdate i) (.internal i))
      (Activity.perform (h'.internalUpdate i) (.internal i)) :=
    .perform (fun _ _ => rfl) (fun _ _ => rfl) (fun _ _ => rfl) (fun _ _ => rfl)
      fun _ _ same => (Call.internal.inj same).2
  refine force.bind fun answer => ?_
  split
  · exact internal
  · exact .pure _

theorem renderAll_follows (ps : List (Parent ι)) :
    Follows h h' (renderAll h ps) (renderAll h' ps) := by
  induction ps with
  | nil => exact .pure 0
  | cons p ps ih =>
      refine (forceRender_follows h h' p.handle).bind fun answer => ?_
      cases answer with
      | ok _ => exact ih.bind fun n => .pure (n + 1)
      | error fault => exact (Follows.log _).bind fun _ => ih

theorem rebindIfHeld_follows (registry : Option (List String)) (i : ι) (name : String) (d : δ) :
    Follows h h' (rebindIfHeld h registry i name d) (rebindIfHeld h' registry i name d) := by
  unfold rebindIfHeld
  split
  · refine (rebind_follows h h' i name d).bind fun answer => ?_
    cases answer with
    | ok _ => exact .pure _
    | error fault => exact .pure _
  · exact .pure _

theorem reloadPlain_follows (e : Change.Event) :
    Follows h h' (reloadPlain h e) (reloadPlain h' e) := by
  refine (loadModule_follows h h' e.url).bind fun answer => ?_
  cases answer with
  | ok _ => exact .pure _
  | error fault => exact (Follows.log _).bind fun _ => .pure _

theorem refresh_follows (c : Context ι) : Follows h h' (refresh h c) (refresh h' c) :=
  (Follows.look fun _ _ same => same.root).bind fun live =>
    (Follows.takeSnapshot (live.getD c.root)).bind fun _ => (Follows.log _).bind fun _ => .pure _

variable [DecidableEq ι] (root : ι) (e : Change.Event)

theorem propagate_follows (thin : ι) :
    Follows h h' (propagate h root thin) (propagate h' root thin) :=
  (Follows.takeSnapshot root).bind fun tree => renderAll_follows h h' (tree.parentsOfHandle thin)

theorem patchParent_follows (p : Parent ι) :
    Follows h h' (patchParent h root e p) (patchParent h' root e p) := by
  have renders := forceRender_follows h h' p.handle
  unfold patchParent
  split
  · refine renders.bind fun answer => ?_
    cases answer with
    | ok _ => exact .pure _
    | error fault => exact .pure _
  · refine (loadModule_follows h h' e.url).bind fun answer => ?_
    cases answer with
    | error fault => exact .pure _
    | ok d =>
        have registered : Follows h h' (Activity.look (h.registered · p.handle))
            (Activity.look (h'.registered · p.handle)) :=
          .look fun s s' same => congrFun same.registered p.handle
        refine registered.bind fun registry => ?_
        refine (rebindIfHeld_follows h h' registry p.handle e.component d).bind fun answer => ?_
        cases answer with
        | error fault => exact .pure _
        | ok rebound =>
            refine renders.bind fun answer => ?_
            cases answer with
            | error fault => exact .pure _
            | ok _ =>
                dsimp only
                split
                · exact (propagate_follows h h' root p.handle).bind fun propagated => .pure _
                · exact (Follows.pure 0).bind fun propagated => .pure _

theorem attemptParent_follows (p : Parent ι) :
    Follows h h' (attemptParent h root e p) (attemptParent h' root e p) := by
  refine (patchParent_follows h h' root e p).bind fun answer => ?_
  cases answer with
  | ok patch => exact .pure patch
  | error fault => exact (Follows.log _).bind fun _ => .pure _

theorem patchAll_follows (ps : List (Parent ι)) :
    Follows h h' (patchAll h root e ps) (patchAll h' root e ps) := by
  induction ps with
  | nil => exact .pure []
  | cons p ps ih =>
      exact (attemptParent_follows h h' root e p).bind fun patch =>
        ih.bind fun patches => .pure (patch :: patches)

theorem reloadComponent_follows :
    Follows h h' (reloadComponent h root e) (reloadComponent h' root e) := by
  refine (Follows.takeSnapshot root).bind fun tree => ?_
  dsimp only
  split
  · exact (Follows.log _).bind fun _ => .pure _
  · exact (patchAll_follows h h' root e _).bind fun patches => .pure _

/-- On a host that agrees with another one on the calls made there, a change makes the same calls
and has the same outcome. -/
theorem reconcile_follows (c : Context ι) : Follows h h' (reconcile h c e) (reconcile h' c e) := by
  rw [reconcile_eq, reconcile_eq]
  refine Follows.bind ?_ fun outcome => ?_
  · unfold reloadRouted
    cases e.route with
    | plain => exact reloadPlain_follows h h' e
    | component => exact reloadComponent_follows h h' c.root e
  · split
    · exact .pure _
    · exact (refresh_follows h h' c).bind fun c' => .pure _

end

end Reconcile
end HotReload
