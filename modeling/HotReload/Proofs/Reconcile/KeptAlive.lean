import HotReload.Proofs.Component.Shelter
import HotReload.Proofs.Reconcile.Escalation
import HotReload.Proofs.Reconcile.Replay

/-!
# Nothing that is kept alive is rendered

Renders reach the parents of the changed component and, through a parent with a thin registry, the
parents of that parent.  The guard of the latter is never looked at; but the changed component is
shown below each of them, so a keep-alive wrapper above any of the places of one of them would guard
the component, and the change would have escalated (`reconcile_spares_kept`).

The argument needs that the tree is seen the same during the whole change, and that no snapshot is
cut.
-/

namespace HotReload
namespace Reconcile

open Component

variable {σ ι ν δ : Type}

/-- What can be seen of the tree of components is the same in every state that calls go through. -/
def Steady (h : Host σ ι ν δ) (s : σ) (calls : List (Call ι δ)) : Prop :=
  ∀ before, before <+: calls → h.SameView s (stateAfter h s before)

section

variable [DecidableEq ι] {h : Host σ ι ν δ} {root i : ι} {s s' : σ} {e : Change.Event}

/-- Below what is rendered in the turn of a parent stands a component of the name that the parent
was found for. -/
theorem Target.shows {calls : List (Call ι δ)} {name : String} {p : Parent ι}
    (steady : Steady h s calls) (found : p ∈ (h.snapshot s root).parentsOfName name)
    (target : Target h root s calls p i) :
    h.Mounted s root i ∧ ∃ j, (h.describe s j).displayName = name ∧ h.Shows s i j := by
  obtain ⟨mounted, v, match_, shows, described⟩ := Host.shows_of_parent found
  have named : (h.describe s v.handle).displayName = name := by
    rw [← described]
    simpa using match_
  cases target with
  | own => exact ⟨mounted, v.handle, named, shows⟩
  | above early member =>
      rw [← (steady _ early).snapshot] at member
      obtain ⟨mounted, w, here, above, _⟩ := Host.shows_of_parent member
      have same : w.handle = p.handle := of_decide_eq_true here
      exact ⟨mounted, v.handle, named, (same ▸ above).trans shows⟩

/-- The turns of unguarded parents render nothing that is kept alive. -/
theorem PatchesAll.spares {turns : List (List (Call ι δ))} {patches : List ParentPatch}
    (all : PatchesAll h root e ((h.snapshot s root).parentsOfName e.component) s turns patches s')
    (unguarded : ((h.snapshot s root).parentsOfName e.component).any Parent.guarded = false)
    (steady : Steady h s turns.flatten) (shallow : h.Shallow s root)
    (rendered : Rerenders turns.flatten i) : h.Free s root i := by
  obtain ⟨p, found, target⟩ := all.rerenders rendered
  obtain ⟨mounted, j, named, shows⟩ := target.shows steady found
  rw [← named] at unguarded
  exact Host.free_of_unguarded shallow unguarded mounted shows

end

/-- Whatever calls fail, a change renders no instance that keeps something alive, and none that is
shown anywhere below one, provided that the tree is seen the same during the change and is not so
deep that a snapshot would be cut. -/
theorem reconcile_spares_kept [DecidableEq ι] (h : Host σ ι ν δ) (c : Context ι)
    (e : Change.Event) (s : σ) (steady : Steady h s (callsOf (reconcile h c e s).journal))
    (shallow : h.Shallow s c.root) (i : ι)
    (rendered : Rerenders (callsOf (reconcile h c e s).journal) i) : h.Free s c.root i := by
  cases route : e.route with
  | plain =>
      obtain ⟨answer, _, _, runs⟩ := reloadPlain_escalates h e s
      have whole := reconcile_of_escalated (c := c) (by rw [reloadRouted, route]; exact runs)
      rw [whole.calls] at rendered
      obtain ⟨_, force | internal⟩ := rendered
      · simp at force
      · simp at internal
  | component =>
      rcases reconcile_component (h := h) (c := c) (s := s) route with
        ⟨reason, _, runs⟩ | ⟨turns, patches, s', clear, all, runs⟩
      · rw [runs.calls] at rendered
        obtain ⟨_, force | internal⟩ := rendered
        · simp at force
        · simp at internal
      · rw [runs.calls] at rendered steady
        refine all.spares ?_ steady shallow rendered
        by_contra guarded
        rw [Bool.not_eq_false] at guarded
        obtain ⟨reason, found⟩ := escalation_of_guarded guarded
        rw [clear] at found
        cases found

/-- A host with a keep-alive wrapper beside a layout, whose page contains a card and has no
registry. -/
def sheltering : Host Unit Nat Nat String where
  root _ := some 0
  nodes _
    | 0 => [1, 4]
    | 1 => [2]
    | 2 => [3]
    | 4 => [5]
    | _ => []
  nested _ n := some n
  children _ _ := []
  describe _ i :=
    { declared := ["App", "Layout", "Page", "Card", "Tabs", "Menu"][i]?
      wrapper := if i = 4 then .keepAlive else .none }
  registered _ _ := none
  rebind _ _ _ s := (.ok (), s)
  forceUpdate _ s := (.ok (), s)
  internalUpdate _ s := (.ok (), s)
  load url s := (.ok url, s)

/-- A step of such a host leads to a greater number, and to none above five. -/
theorem sheltering_ascends {n m k : Nat} (step : (sheltering.below () n)[k]? = some m) :
    n < m ∧ m ≤ 5 := by
  have listed : m ∈ sheltering.nodes () n := List.mem_of_getElem? step
  simp only [sheltering] at listed
  split at listed <;> simp at listed <;> omega

/-- The layout is rendered through the page, and the wrapper beside it is left alone with what it
keeps. -/
theorem reconcile_spares_tabs :
    Rerenders (callsOf (reconcile sheltering { root := 0 }
        (.ofComponent "Card" "/src/Card.vue" 7) ()).journal) 1 ∧
      sheltering.Mounted () 0 4 ∧ (sheltering.describe () 4).wrapper = .keepAlive ∧
      sheltering.Shows () 4 5 ∧ sheltering.Free () 0 1 := by
  have steady (calls : List (Call Nat String)) : Steady sheltering () calls :=
    fun _ _ => ⟨rfl, rfl, rfl, rfl⟩
  have deep (place : List Nat) (n m : Nat) (reached : sheltering.nodeFrom () n place = some m) :
      place.length + n ≤ max n 5 := by
    induction place generalizing n with
    | nil =>
        rw [List.length_nil]
        omega
    | cons k place ih =>
        obtain ⟨next, step, on⟩ := Option.bind_eq_some_iff.mp reached
        have ascends := sheltering_ascends step
        have rest := ih next on
        rw [List.length_cons]
        omega
  have shallow : sheltering.Shallow () 0 := by
    intro place node reached
    cases place with
    | nil => cases reached
    | cons k place =>
        have whole : sheltering.nodeFrom () 0 (k :: place) = some node := reached
        have short := deep (k :: place) 0 node whole
        have limit : depthLimit = 256 := rfl
        omega
  have rendered : Rerenders (callsOf (reconcile sheltering { root := 0 }
      (.ofComponent "Card" "/src/Card.vue" 7) ()).journal) 1 :=
    ⟨.ok (), .inl (List.mem_cons_of_mem _ (List.mem_cons_of_mem _ List.mem_cons_self))⟩
  exact ⟨rendered, ⟨[1], rfl⟩, rfl, ⟨[0], by simp, rfl⟩,
    reconcile_spares_kept sheltering { root := 0 } _ () (steady _) shallow 1 rendered⟩

end Reconcile
end HotReload
