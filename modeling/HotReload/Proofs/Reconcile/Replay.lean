import HotReload.Proofs.Reconcile.Effects

/-!
# The states between the calls

Only calls change the host.  So the state in which an activity ends is what its calls make of the
state in which it starts (`stateAfter`), and the states that it goes through are those after the
first few of its calls.

A change renders the parents that were located, and the parents of a located parent that the
snapshot of one of those states shows (`PatchesAll.rerenders`).  No other instance is rendered.
-/

namespace HotReload
namespace Reconcile

open Component

variable {σ ι ν δ : Type}

/-- The state that a call makes of a state. -/
def stateAfterCall (h : Host σ ι ν δ) (s : σ) : Call ι δ → σ
  | .load url _ => (h.load url s).2
  | .rebind i name d _ => (h.rebind i name d s).2
  | .force i _ => (h.forceUpdate i s).2
  | .internal i _ => (h.internalUpdate i s).2

/-- The state that calls, one after another, make of a state. -/
def stateAfter (h : Host σ ι ν δ) (s : σ) (calls : List (Call ι δ)) : σ :=
  calls.foldl (stateAfterCall h) s

/-- One of the calls renders an instance, through whichever entry point. -/
def Rerenders (calls : List (Call ι δ)) (i : ι) : Prop :=
  ∃ answer, Call.force i answer ∈ calls ∨ Call.internal i answer ∈ calls

theorem stateAfter_append (h : Host σ ι ν δ) (s : σ) (cs ds : List (Call ι δ)) :
    stateAfter h s (cs ++ ds) = stateAfter h (stateAfter h s cs) ds := List.foldl_append

theorem rerenders_append {cs ds : List (Call ι δ)} {i : ι} :
    Rerenders (cs ++ ds) i ↔ Rerenders cs i ∨ Rerenders ds i := by
  constructor
  · rintro ⟨answer, force | internal⟩
    · rcases List.mem_append.mp force with first | later
      · exact .inl ⟨answer, .inl first⟩
      · exact .inr ⟨answer, .inl later⟩
    · rcases List.mem_append.mp internal with first | later
      · exact .inl ⟨answer, .inr first⟩
      · exact .inr ⟨answer, .inr later⟩
  · rintro (⟨answer, first⟩ | ⟨answer, later⟩)
    · exact ⟨answer, first.imp (List.mem_append_left ds) (List.mem_append_left ds)⟩
    · exact ⟨answer, later.imp (List.mem_append_right cs) (List.mem_append_right cs)⟩

section

variable {h : Host σ ι ν δ} {e : Change.Event} {p : Parent ι} {ps : List (Parent ι)} {i j : ι}
variable {s s' : σ} {cs : List (Call ι δ)}

theorem Renders.stateAfter {answer : Except HostFault Unit}
    (renders : Renders h i s cs answer s') : Reconcile.stateAfter h s cs = s' := by
  cases renders with
  | viaPublic first _ => simp [Reconcile.stateAfter, stateAfterCall, first]
  | viaInternal first second => simp [Reconcile.stateAfter, stateAfterCall, first, second]

theorem Renders.rerenders {answer : Except HostFault Unit}
    (renders : Renders h i s cs answer s') (rendered : Rerenders cs j) : j = i := by
  obtain ⟨_, member⟩ := rendered
  cases renders with
  | viaPublic _ _ =>
      rcases member with force | internal
      · simp at force
        exact force.1
      · simp at internal
  | viaInternal _ _ =>
      rcases member with force | internal
      · simp at force
        exact force.1
      · simp at internal
        exact internal.1

theorem RendersAll.stateAfter {n : Nat} (renders : RendersAll h ps s cs n s') :
    Reconcile.stateAfter h s cs = s' := by
  induction renders with
  | none => rfl
  | rendered first _ ih => rw [stateAfter_append, first.stateAfter, ih]
  | failed first _ ih => rw [stateAfter_append, first.stateAfter, ih]

theorem RendersAll.rerenders {n : Nat} (renders : RendersAll h ps s cs n s')
    (rendered : Rerenders cs j) : ∃ p ∈ ps, j = p.handle := by
  have next {p : Parent ι} {ps : List (Parent ι)} {cs ds : List (Call ι δ)}
      (own : Rerenders cs j → j = p.handle) (others : Rerenders ds j → ∃ q ∈ ps, j = q.handle)
      (rendered : Rerenders (cs ++ ds) j) : ∃ q ∈ p :: ps, j = q.handle := by
    rcases rerenders_append.mp rendered with first | later
    · exact ⟨p, List.mem_cons_self, own first⟩
    · obtain ⟨q, member, same⟩ := others later
      exact ⟨q, List.mem_cons_of_mem p member, same⟩
  induction renders with
  | none =>
      obtain ⟨_, force | internal⟩ := rendered
      · simp at force
      · simp at internal
  | rendered first _ ih => exact next first.rerenders ih rendered
  | failed first _ ih => exact next first.rerenders ih rendered

theorem Prepares.stateAfter {result : Except HostFault (Bool × Option (List String))}
    (prepared : Prepares h e p s cs result s') : Reconcile.stateAfter h s cs = s' := by
  cases prepared with
  | notLoaded loaded => simp [Reconcile.stateAfter, stateAfterCall, loaded]
  | notHeld loaded _ => simp [Reconcile.stateAfter, stateAfterCall, loaded]
  | notRebound loaded _ bound => simp [Reconcile.stateAfter, stateAfterCall, loaded, bound]
  | rebound loaded _ bound => simp [Reconcile.stateAfter, stateAfterCall, loaded, bound]

theorem Prepares.not_rerenders {result : Except HostFault (Bool × Option (List String))}
    (prepared : Prepares h e p s cs result s') : ¬Rerenders cs j := by
  rintro ⟨_, force | internal⟩
  · cases prepared <;> simp at force
  · cases prepared <;> simp at internal

variable [DecidableEq ι] {root : ι}

theorem Patches.stateAfter {patch : ParentPatch} (turn : Patches h root e p s cs patch s') :
    Reconcile.stateAfter h s cs = s' := by
  cases turn with
  | wrapper _ renders => exact renders.stateAfter
  | staleWrapper _ renders => exact renders.stateAfter
  | unprepared _ prepared => exact prepared.stateAfter
  | stale _ prepared renders => rw [stateAfter_append, prepared.stateAfter, renders.stateAfter]
  | rendered _ prepared renders _ =>
      rw [stateAfter_append, prepared.stateAfter, renders.stateAfter]
  | propagated _ prepared renders _ all =>
      rw [stateAfter_append, prepared.stateAfter, stateAfter_append, renders.stateAfter,
        all.stateAfter]

/-- An instance that is rendered in the turn of a parent: the parent, or one of the parents of the
parent in a state that the turn goes through. -/
inductive Target (h : Host σ ι ν δ) (root : ι) (s : σ) (calls : List (Call ι δ)) (p : Parent ι) :
    ι → Prop
  | own : Target h root s calls p p.handle
  | above {before : List (Call ι δ)} {g : Parent ι} : before <+: calls →
      g ∈ (h.snapshot (Reconcile.stateAfter h s before) root).parentsOfHandle p.handle →
      Target h root s calls p g.handle

theorem Patches.rerenders {patch : ParentPatch} (turn : Patches h root e p s cs patch s')
    (rendered : Rerenders cs j) : Target h root s cs p j := by
  have own {a b : List (Call ι δ)} {s₁ s₂ : σ} {answer : Except HostFault Unit}
      {result : Except HostFault (Bool × Option (List String))}
      (prepared : Prepares h e p s a result s₁) (renders : Renders h p.handle s₁ b answer s₂)
      (rendered : Rerenders (a ++ b) j) : j = p.handle := by
    rcases rerenders_append.mp rendered with preparing | rendering
    · exact absurd preparing prepared.not_rerenders
    · exact renders.rerenders rendering
  cases turn with
  | wrapper _ renders =>
      rw [renders.rerenders rendered]
      exact .own
  | staleWrapper _ renders =>
      rw [renders.rerenders rendered]
      exact .own
  | unprepared _ prepared => exact absurd rendered prepared.not_rerenders
  | stale _ prepared renders =>
      rw [own prepared renders rendered]
      exact .own
  | rendered _ prepared renders _ =>
      rw [own prepared renders rendered]
      exact .own
  | @propagated cs ds es _ _ _ s₁ s₂ _ _ prepared renders _ all =>
      rw [← List.append_assoc] at rendered
      rcases rerenders_append.mp rendered with first | later
      · rw [own prepared renders first]
        exact .own
      · obtain ⟨g, member, same⟩ := all.rerenders later
        have between : Reconcile.stateAfter h s (cs ++ ds) = s₂ := by
          rw [stateAfter_append, prepared.stateAfter, renders.stateAfter]
        rw [same]
        refine .above ⟨es, by rw [List.append_assoc]⟩ ?_
        rw [between]
        exact member

/-- What is rendered while several parents have their turns is rendered in the turn of one. -/
theorem PatchesAll.rerenders {turns : List (List (Call ι δ))} {patches : List ParentPatch}
    (all : PatchesAll h root e ps s turns patches s') (rendered : Rerenders turns.flatten j) :
    ∃ p ∈ ps, Target h root s turns.flatten p j := by
  induction all with
  | none =>
      obtain ⟨_, force | internal⟩ := rendered
      · simp at force
      · simp at internal
  | @turn p ps s s₁ s₂ cs turns patch patches first rest ih =>
      rw [List.flatten_cons] at rendered ⊢
      rcases rerenders_append.mp rendered with own | others
      · refine ⟨p, List.mem_cons_self, ?_⟩
        cases first.rerenders own with
        | own => exact .own
        | above early member => exact .above (early.trans (List.prefix_append _ _)) member
      · obtain ⟨q, member, target⟩ := ih others
        refine ⟨q, List.mem_cons_of_mem p member, ?_⟩
        cases target with
        | own => exact .own
        | @above before g early found =>
            refine .above ((List.prefix_append_right_inj cs).mpr early) ?_
            rw [stateAfter_append, first.stateAfter]
            exact found

end

end Reconcile
end HotReload
