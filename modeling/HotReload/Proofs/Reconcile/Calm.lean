import HotReload.Proofs.Reconcile.Registries

/-!
# Calm hosts

A host is calm if its calls change nothing that can be looked at, and if the answer to a call
depends on nothing but what is asked (`Calm`).  Only the entries of its registries are then ever
different.  So a change makes the same calls and has the same outcome in all states that the host
goes through (`reconcile_of_calm`), and what it makes of an entry depends on this entry alone
(`entry_stateAfter_congr`).
-/

namespace HotReload
namespace Reconcile

open Component

variable {σ ι ν δ : Type} {h : Host σ ι ν δ} {s s' s₁ s₂ : σ}

/-- Neither a load nor a rebind nor a render changes anything that can be looked at, and their
answers depend only on what is asked. -/
structure Calm (h : Host σ ι ν δ) : Prop where
  looks : ∀ s call, LooksLike h s h (stateAfterCall h s call)
  replies : ∀ s s' call, reply h s call = reply h s' call

theorem LooksLike.symm (same : LooksLike h s h s₁) : LooksLike h s₁ h s :=
  ⟨⟨same.tree.nodes.symm, same.tree.nested.symm, same.tree.children.symm, same.tree.describe.symm⟩,
    same.root.symm, same.registered.symm⟩

theorem LooksLike.trans (first : LooksLike h s h s₁) (second : LooksLike h s₁ h s₂) :
    LooksLike h s h s₂ :=
  ⟨⟨first.tree.nodes.trans second.tree.nodes, first.tree.nested.trans second.tree.nested,
      first.tree.children.trans second.tree.children,
      first.tree.describe.trans second.tree.describe⟩,
    first.root.trans second.root, first.registered.trans second.registered⟩

theorem Calm.looks_after (calm : Calm h) (s : σ) (calls : List (Call ι δ)) :
    LooksLike h s h (stateAfter h s calls) := by
  induction calls generalizing s with
  | nil => exact .refl h s
  | cons call calls ih => exact (calm.looks s call).trans (ih (stateAfterCall h s call))

theorem Calm.answers (calm : Calm h) {calls : List (Call ι δ)} (answers : Answers h s calls)
    (s' : σ) : Answers h s' calls := by
  induction answers generalizing s' with
  | none => exact .none
  | call here _ ih => exact .call ((calm.replies s' _ _).trans here) (ih _)

/-- A calm host agrees with itself in states that look alike. -/
theorem Calm.agree (calm : Calm h) {calls : List (Call ι δ)} (answers : Answers h s calls)
    (same : LooksLike h s h s') : Agree h s h s' calls :=
  ⟨calm.answers answers s', fun before _ =>
    (calm.looks_after s before).symm.trans (same.trans (calm.looks_after s' before))⟩

section

variable [DecidableEq ι] {c d : Context ι} {e : Change.Event}

/-- Of a context only the root matters, and what remains of it if the change escalates. -/
theorem reconcile_of_root (same : d.root = c.root) :
    (reconcile h d e s).result =
        ((reconcile h c e s).result.1,
          if (reconcile h c e s).result.1.isEscalation then d else (reconcile h c e s).result.2) ∧
      callsOf (reconcile h d e s).journal = callsOf (reconcile h c e s).journal ∧
      (reconcile h d e s).state = (reconcile h c e s).state := by
  have routed : reloadRouted h d e = reloadRouted h c e := by
    unfold reloadRouted
    rw [same]
  obtain ⟨calls, outcome, s', runs⟩ :
      ∃ calls outcome s', Runs (reloadRouted h c e) s calls outcome s' :=
    ⟨_, _, _, rfl, rfl, rfl⟩
  have runs' : Runs (reloadRouted h d e) s calls outcome s' := routed ▸ runs
  cases outcome with
  | escalate reason =>
      have one := reconcile_of_escalated runs
      have other := reconcile_of_escalated runs'
      exact ⟨by rw [one.result, other.result]; rfl, other.calls.trans one.calls.symm,
        other.state.trans one.state.symm⟩
  | patched report =>
      have one := reconcile_of_patched runs
      have other := reconcile_of_patched runs'
      exact ⟨by rw [one.result, other.result, same]; rfl, other.calls.trans one.calls.symm,
        other.state.trans one.state.symm⟩

/-- The calls of a change have the answers that the host gives, and make the state in which it
ends. -/
theorem reconcile_answers (h : Host σ ι ν δ) (c : Context ι) (e : Change.Event) (s : σ) :
    Answers h s (callsOf (reconcile h c e s).journal) ∧
      (reconcile h c e s).state = stateAfter h s (callsOf (reconcile h c e s).journal) := by
  obtain ⟨cs, result, runs, answers, _⟩ := reconcile_follows h h e c s
  rw [runs.calls]
  exact ⟨answers, runs.state⟩

/-- On a calm host a change makes the same calls and has the same outcome in all states that look
alike, and leaves the context or, if it does not escalate, the host's root and its snapshot. -/
theorem reconcile_of_calm (calm : Calm h) (mounted : h.root s = some c.root)
    (root : d.root = c.root) (same : LooksLike h s h s') :
    (reconcile h d e s').result =
        ((reconcile h c e s).result.1,
          if (reconcile h c e s).result.1.isEscalation then d
          else ⟨c.root, some (h.snapshot s c.root)⟩) ∧
      callsOf (reconcile h d e s').journal = callsOf (reconcile h c e s).journal ∧
      LooksLike h s h (reconcile h d e s').state := by
  obtain ⟨cs, result, runs, answers, follows⟩ := reconcile_follows h h e c s
  have again := follows s' (calm.agree answers same)
  obtain ⟨ended, calls, state⟩ := reconcile_of_root (h := h) (s := s') (e := e) root
  have last : LooksLike h s h (reconcile h d e s').state := by
    rw [state, again.state]
    exact same.trans (calm.looks_after s' cs)
  -- A change that is patched in takes the context from the state in which it ends, and this state
  -- looks like the first one.
  have present : ∀ report, (reconcile h c e s').result.1 = .patched report →
      (reconcile h c e s').result.2 = ⟨c.root, some (h.snapshot s c.root)⟩ := by
    intro report patched
    rcases reconcile_ends h c e s' with ⟨_, escalated⟩ | ⟨_, ends⟩
    · rw [escalated] at patched
      cases patched
    · rw [state] at last
      rw [ends, ← last.root, mounted, Option.getD_some, last.tree.snapshot c.root]
  have outcome : (reconcile h c e s').result.1 = (reconcile h c e s).result.1 := by
    rw [again.result, runs.result]
  refine ⟨?_, calls.trans (again.calls.trans runs.calls.symm), last⟩
  rw [ended, ← outcome]
  cases found : (reconcile h c e s').result.1 with
  | escalate reason => rfl
  | patched report =>
      rw [present report found]

end

theorem entry_stateAfterCall_congr (R : h.Registries) {call : Call ι δ} {i : ι} {name : String}
    (replied : reply h s call = call) (replied' : reply h s' call = call)
    (same : R.entry s i name = R.entry s' i name) :
    R.entry (stateAfterCall h s call) i name = R.entry (stateAfterCall h s' call) i name := by
  cases call with
  | load url answer =>
      change R.entry (h.load url s).2 i name = R.entry (h.load url s').2 i name
      rw [R.load, R.load, same]
  | force j answer =>
      change R.entry (h.forceUpdate j s).2 i name = R.entry (h.forceUpdate j s').2 i name
      rw [R.forceUpdate, R.forceUpdate, same]
  | internal j answer =>
      change R.entry (h.internalUpdate j s).2 i name = R.entry (h.internalUpdate j s').2 i name
      rw [R.internalUpdate, R.internalUpdate, same]
  | rebind j other d answer =>
      have bound : h.rebind j other d s = (answer, (h.rebind j other d s).2) :=
        Prod.ext (Call.rebind.inj replied).2.2.2 rfl
      have bound' : h.rebind j other d s' = (answer, (h.rebind j other d s').2) :=
        Prod.ext (Call.rebind.inj replied').2.2.2 rfl
      change R.entry (h.rebind j other d s).2 i name = R.entry (h.rebind j other d s').2 i name
      cases answer with
      | error fault => rw [R.rebind_error bound, R.rebind_error bound', same]
      | ok _ =>
          by_cases here : i = j ∧ name = other
          · obtain ⟨rfl, rfl⟩ := here
            rw [R.rebind_self bound, R.rebind_self bound']
          · rw [R.rebind_other bound i name here, R.rebind_other bound' i name here, same]

/-- What calls make of an entry depends on this entry and on their answers alone. -/
theorem entry_stateAfter_congr (R : h.Registries) {calls : List (Call ι δ)} {i : ι} {name : String}
    (answers : Answers h s calls) (answers' : Answers h s' calls)
    (same : R.entry s i name = R.entry s' i name) :
    R.entry (stateAfter h s calls) i name = R.entry (stateAfter h s' calls) i name := by
  induction calls generalizing s s' with
  | nil => exact same
  | cons call calls ih =>
      cases answers with
      | call here later =>
          cases answers' with
          | call here' later' =>
              exact ih later later' (entry_stateAfterCall_congr R here here' same)

section

variable [DecidableEq ι] {c d : Context ι} {e : Change.Event}

/-- A calm host does not move the root of a context, and looks the same after a change. -/
theorem reconcile_stays (calm : Calm h) (mounted : h.root s = some c.root) :
    (reconcile h c e s).result.2.root = c.root ∧ LooksLike h s h (reconcile h c e s).state := by
  obtain ⟨result, _, looks⟩ := reconcile_of_calm (e := e) calm mounted rfl (.refl h s)
  refine ⟨?_, looks⟩
  rw [result]
  split <;> rfl

/-- A change makes the same of an entry in two states in which the entry is the same. -/
theorem entry_reconcile_congr (R : h.Registries) (calm : Calm h) (mounted : h.root s = some c.root)
    (root : d.root = c.root) (same : LooksLike h s h s') {i : ι} {name : String}
    (entry : R.entry s i name = R.entry s' i name) :
    R.entry (reconcile h c e s).state i name = R.entry (reconcile h d e s').state i name := by
  obtain ⟨answers, ends⟩ := reconcile_answers h c e s
  obtain ⟨answers', ends'⟩ := reconcile_answers h d e s'
  obtain ⟨_, calls, _⟩ := reconcile_of_calm (e := e) calm mounted root same
  rw [calls] at answers' ends'
  rw [ends, ends']
  exact entry_stateAfter_congr R answers answers' entry

end

end Reconcile
end HotReload
