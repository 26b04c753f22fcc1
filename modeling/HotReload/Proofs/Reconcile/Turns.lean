import HotReload.Proofs.Reconcile.Lockstep
import HotReload.Proofs.Reconcile.Reports

/-!
# The turns of the parents

If a change is patched in, then its parents have their turns one after another, in the order in
which they were located: the calls of the change are those of the turns, and the report has the
patch of each (`reconcile_turns`).  A turn depends on the host alone as it is when the turn starts,
which is what the calls of the turns before it have made of it (`getElem?_turnsOf`).
-/

namespace HotReload
namespace Reconcile

open Component

variable {σ ι ν δ : Type} [DecidableEq ι] (h : Host σ ι ν δ) (root : ι) (e : Change.Event)

/-- The turn that a parent has if it starts in a state. -/
def turnOf (s : σ) (p : Parent ι) : Turn ι δ :=
  ⟨p, callsOf (attemptParent h root e p s).journal, (attemptParent h root e p s).result⟩

/-- The turns of several parents, one after another. -/
def turnsOf : List (Parent ι) → σ → List (Turn ι δ)
  | [], _ => []
  | p :: ps, s => turnOf h root e s p :: turnsOf ps (attemptParent h root e p s).state

/-- The state in which a turn starts, by its number. -/
def startOf (s : σ) (turns : List (Turn ι δ)) (k : Nat) : σ :=
  stateAfter h s ((turns.take k).flatMap Turn.calls)

theorem turnOf_patches (s : σ) (p : Parent ι) :
    Patches h root e p s (turnOf h root e s p).calls (turnOf h root e s p).patch
      (attemptParent h root e p s).state := by
  obtain ⟨cs, patch, s', turn, runs⟩ := attemptParent_patches h root e p s
  rw [runs.state, turnOf, runs.calls, runs.result]
  exact turn

theorem state_attemptParent (s : σ) (p : Parent ι) :
    (attemptParent h root e p s).state = stateAfter h s (turnOf h root e s p).calls :=
  (turnOf_patches h root e s p).stateAfter.symm

theorem map_parent_turnsOf (ps : List (Parent ι)) (s : σ) :
    (turnsOf h root e ps s).map Turn.parent = ps := by
  induction ps generalizing s with
  | nil => rfl
  | cons p ps ih => rw [turnsOf, List.map_cons, ih, turnOf]

/-- The turn of a given number is that of the parent of this number. -/
theorem getElem?_turnsOf (ps : List (Parent ι)) (s : σ) (k : Nat) :
    (turnsOf h root e ps s)[k]? =
      ps[k]?.map (turnOf h root e (startOf h s (turnsOf h root e ps s) k)) := by
  -- A later turn is one of the rest, which begins where the first turn has ended.
  induction ps generalizing s k with
  | nil => rfl
  | cons p ps ih =>
      cases k with
      | zero => rfl
      | succ k =>
          rw [turnsOf, List.getElem?_cons_succ, List.getElem?_cons_succ, ih, startOf, startOf,
            List.take_succ_cons, List.flatMap_cons, stateAfter_append, state_attemptParent]

/-- The parents have their turns, and each of them adds its patch. -/
theorem runs_patchAll (ps : List (Parent ι)) (s : σ) :
    Runs (patchAll h root e ps) s ((turnsOf h root e ps s).flatMap Turn.calls)
      ((turnsOf h root e ps s).map Turn.patch)
      (stateAfter h s ((turnsOf h root e ps s).flatMap Turn.calls)) := by
  induction ps generalizing s with
  | nil => exact .pure [] s
  | cons p ps ih =>
      rw [turnsOf, List.flatMap_cons, List.map_cons, stateAfter_append, ← state_attemptParent]
      have own : Runs (attemptParent h root e p) s (turnOf h root e s p).calls
          (turnOf h root e s p).patch (attemptParent h root e p s).state := ⟨rfl, rfl, rfl⟩
      exact own.bind ((ih _).still (.pure _ _))

variable {h e}

/-- A change that is patched in consists of the turns of its parents, in their order, after which
the snapshot is taken anew. -/
theorem reconcile_turns {c : Context ι} {s : σ} (route : e.route = .component)
    (clear : escalation ((h.snapshot s c.root).parentsOfName e.component) = none) :
    let turns := turnsOf h c.root e ((h.snapshot s c.root).parentsOfName e.component) s
    let s' := stateAfter h s (turns.flatMap Turn.calls)
    Runs (reconcile h c e) s (turns.flatMap Turn.calls)
      (.patched ⟨e.component, turns.map Turn.patch⟩,
        ⟨(h.root s').getD c.root, some (h.snapshot s' ((h.root s').getD c.root))⟩) s' := by
  intro turns s'
  refine reconcile_of_patched ?_
  rw [reloadRouted, route]
  refine (runs_takeSnapshot h c.root s).quiet ?_
  dsimp only
  rw [clear]
  exact (runs_patchAll h c.root e _ s).still (.pure _ s')

end Reconcile
end HotReload
