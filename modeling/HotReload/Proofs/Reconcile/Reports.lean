import HotReload.Proofs.Reconcile.Escalation
import Mathlib.Data.List.Nodup

/-!
# What a report says and what was done

A report has one patch for each parent, and the calls of a change fall into one turn for each of
them, in the same order (`Turn`).  Whether a parent has rendered, and how many of its own parents
have rendered through it, is reported as the calls of its turn have it (`Turn.Accounted`).

Whether a registry holds the new definition is not: a turn whose rebinding succeeds and whose render
fails is reported as one that did nothing.  So a patch says that the entry was reassigned exactly if
it was and the parent rendered after it (`reconcile_reports`), and a host whose render fails shows
the difference (`reconcile_hides_rebinding`).
-/

namespace HotReload
namespace Reconcile

open Component

variable {σ ι ν δ : Type}

/-- Whether a call renders an instance. -/
def isRender : Call ι δ → Bool
  | .force _ _ => true
  | .internal _ _ => true
  | _ => false

/-- A rebind call that succeeded has put a definition into the registry of an instance. -/
def Reassigned (calls : List (Call ι δ)) (i : ι) (name : String) : Prop :=
  ∃ d, Call.rebind i name d (.ok ()) ∈ calls

/-- What is done for one parent: its calls, and the patch that the report has for it. -/
structure Turn (ι δ : Type) where
  parent : Parent ι
  calls : List (Call ι δ)
  patch : ParentPatch

/-- The renders of a turn are what its patch says.  Either the turn ended before the parent was to
render, or it is made of calls that render nothing, the render of the parent, and the renders of the
parents of the parent, of which as many have succeeded as the patch says. -/
inductive Turn.Accounted [DecidableEq ι] (h : Host σ ι ν δ) (root : ι) (t : Turn ι δ) : Prop
  | early : (∀ call ∈ t.calls, isRender call = false) → t.patch.rendered = false →
      t.patch.propagated = 0 → Accounted h root t
  | renders {before own after : List (Call ι δ)} {s₁ s₂ s₃ : σ} {answer : Except HostFault Unit}
      {above : List (Parent ι)} :
      t.calls = before ++ (own ++ after) → (∀ call ∈ before, isRender call = false) →
      Renders h t.parent.handle s₁ own answer s₂ →
      (t.patch.rendered = true ↔ answer = .ok ()) →
      (above = [] ∨ above = (h.snapshot s₂ root).parentsOfHandle t.parent.handle) →
      RendersAll h above s₂ after t.patch.propagated s₃ → Accounted h root t

section Calls

variable {h : Host σ ι ν δ} {e : Change.Event} {p : Parent ι} {i j : ι} {name : String} {d : δ}
variable {s s' : σ} {cs : List (Call ι δ)} {answer : Except HostFault Unit}

theorem Renders.isRender (renders : Renders h i s cs answer s') :
    ∀ call ∈ cs, isRender call = true := by
  cases renders <;> simp [Reconcile.isRender]

theorem RendersAll.isRender {ps : List (Parent ι)} {n : Nat}
    (renders : RendersAll h ps s cs n s') : ∀ call ∈ cs, isRender call = true := by
  induction renders with
  | none => simp
  | rendered first _ ih =>
      exact fun call member => (List.mem_append.mp member).elim (first.isRender call) (ih call)
  | failed first _ ih =>
      exact fun call member => (List.mem_append.mp member).elim (first.isRender call) (ih call)

/-- Renders rebind nothing. -/
theorem not_rebind_of_isRender (renders : ∀ call ∈ cs, isRender call = true) :
    Call.rebind j name d answer ∉ cs :=
  fun member => absurd (renders _ member) Bool.false_ne_true

/-- Preparing a turn renders nothing. -/
theorem Prepares.not_isRender {result : Except HostFault (Bool × Option (List String))}
    (prepared : Prepares h e p s cs result s') : ∀ call ∈ cs, isRender call = false := by
  cases prepared <;> simp [isRender]

/-- Preparing a turn rebinds the changed component in its parent, if anything. -/
theorem Prepares.rebind_eq {result : Except HostFault (Bool × Option (List String))}
    (prepared : Prepares h e p s cs result s') (member : Call.rebind j name d answer ∈ cs) :
    j = p.handle ∧ name = e.component := by
  cases prepared <;> simp_all

/-- Preparing a turn succeeds in rebinding exactly if it says so. -/
theorem Prepares.reassigned_iff {result : Except HostFault (Bool × Option (List String))}
    (prepared : Prepares h e p s cs result s') :
    Reassigned cs p.handle e.component ↔ ∃ registry, result = .ok (true, registry) := by
  cases prepared <;> simp [Reassigned]

/-- Renders after other calls reassign nothing. -/
theorem reassigned_append {ds : List (Call ι δ)} (renders : ∀ call ∈ ds, isRender call = true) :
    Reassigned (cs ++ ds) i name ↔ Reassigned cs i name := by
  unfold Reassigned
  constructor
  · rintro ⟨d, member⟩
    rcases List.mem_append.mp member with first | later
    · exact ⟨d, first⟩
    · exact absurd later (not_rebind_of_isRender renders)
  · rintro ⟨d, member⟩
    exact ⟨d, List.mem_append_left ds member⟩

variable [DecidableEq ι] {root : ι} {patch : ParentPatch}

/-- A turn has the renders that its patch says. -/
theorem Patches.accounted (turn : Patches h root e p s cs patch s') :
    Turn.Accounted h root ⟨p, cs, patch⟩ := by
  cases turn with
  | wrapper _ renders =>
      have whole : cs = [] ++ (cs ++ []) := by simp
      exact .renders whole (by simp) renders (by simp) (.inl rfl) .none
  | staleWrapper _ renders =>
      have whole : cs = [] ++ (cs ++ []) := by simp
      exact .renders whole (by simp) renders (by simp) (.inl rfl) .none
  | unprepared _ prepared => exact .early prepared.not_isRender rfl rfl
  | @stale cs ds _ _ _ _ _ _ prepared renders =>
      have whole : cs ++ ds = cs ++ (ds ++ []) := by simp
      exact .renders whole prepared.not_isRender renders (by simp) (.inl rfl) .none
  | @rendered cs ds _ _ _ _ _ prepared renders _ =>
      have whole : cs ++ ds = cs ++ (ds ++ []) := by simp
      exact .renders whole prepared.not_isRender renders (by simp) (.inl rfl) .none
  | propagated _ prepared renders _ all =>
      exact .renders rfl prepared.not_isRender renders (by simp) (.inr rfl) all

/-- A turn rebinds the changed component in its parent, if anything. -/
theorem Patches.rebind_eq (turn : Patches h root e p s cs patch s')
    (member : Call.rebind j name d answer ∈ cs) : j = p.handle ∧ name = e.component := by
  cases turn with
  | wrapper _ renders => exact absurd member (not_rebind_of_isRender renders.isRender)
  | staleWrapper _ renders => exact absurd member (not_rebind_of_isRender renders.isRender)
  | unprepared _ prepared => exact prepared.rebind_eq member
  | stale _ prepared renders =>
      rcases List.mem_append.mp member with first | later
      · exact prepared.rebind_eq first
      · exact absurd later (not_rebind_of_isRender renders.isRender)
  | rendered _ prepared renders _ =>
      rcases List.mem_append.mp member with first | later
      · exact prepared.rebind_eq first
      · exact absurd later (not_rebind_of_isRender renders.isRender)
  | propagated _ prepared renders _ all =>
      rcases List.mem_append.mp member with first | later
      · exact prepared.rebind_eq first
      · rcases List.mem_append.mp later with own | above
        · exact absurd own (not_rebind_of_isRender renders.isRender)
        · exact absurd above (not_rebind_of_isRender all.isRender)

/-- A patch says that the entry was reassigned if it was and the parent rendered after it. -/
theorem Patches.rebound_iff (turn : Patches h root e p s cs patch s') :
    patch.rebound = true ↔ Reassigned cs p.handle e.component ∧ patch.rendered = true := by
  cases turn with
  | wrapper _ renders =>
      have nothing : ¬Reassigned cs p.handle e.component :=
        fun ⟨_, member⟩ => not_rebind_of_isRender renders.isRender member
      simp [nothing]
  | staleWrapper _ renders => simp
  | unprepared _ prepared => simp
  | stale _ prepared renders => simp
  | rendered _ prepared renders _ =>
      rw [reassigned_append renders.isRender, prepared.reassigned_iff]
      simp
  | propagated _ prepared renders _ all =>
      rw [reassigned_append, prepared.reassigned_iff]
      · simp
      · exact fun call member =>
          (List.mem_append.mp member).elim (renders.isRender call) (all.isRender call)

/-- The turns of all parents, each with its calls and its patch. -/
theorem PatchesAll.turns {ps : List (Parent ι)} {css : List (List (Call ι δ))}
    {patches : List ParentPatch} (all : PatchesAll h root e ps s css patches s') :
    ∃ turns : List (Turn ι δ), turns.map Turn.parent = ps ∧ turns.map Turn.calls = css ∧
      turns.map Turn.patch = patches ∧
      ∀ t ∈ turns, ∃ s₁ s₂, Patches h root e t.parent s₁ t.calls t.patch s₂ := by
  induction all with
  | none => exact ⟨[], rfl, rfl, rfl, by simp⟩
  | @turn p ps s₁ s₂ _ cs _ patch _ first _ ih =>
      obtain ⟨turns, rfl, rfl, rfl, each⟩ := ih
      refine ⟨⟨p, cs, patch⟩ :: turns, rfl, rfl, rfl, fun t member => ?_⟩
      rcases List.mem_cons.mp member with rfl | later
      · exact ⟨s₁, s₂, first⟩
      · exact each t later

end Calls

/-- A registry entry is reassigned in the turn of its parent, if it is reassigned at all. -/
theorem reassigned_in_turn [DecidableEq ι] {h : Host σ ι ν δ} {root : ι} {e : Change.Event}
    {turns : List (Turn ι δ)} (distinct : (turns.map fun t => t.parent.handle).Nodup)
    (each : ∀ t ∈ turns, ∃ s₁ s₂, Patches h root e t.parent s₁ t.calls t.patch s₂) {t : Turn ι δ}
    (member : t ∈ turns) :
    Reassigned (turns.flatMap Turn.calls) t.parent.handle e.component ↔
      Reassigned t.calls t.parent.handle e.component := by
  constructor
  · rintro ⟨d, call⟩
    obtain ⟨u, hu, inside⟩ := List.mem_flatMap.mp call
    obtain ⟨_, _, turn⟩ := each u hu
    have same : t = u := List.inj_on_of_nodup_map distinct member hu (turn.rebind_eq inside).1
    exact ⟨d, same ▸ inside⟩
  · rintro ⟨d, call⟩
    exact ⟨d, List.mem_flatMap.mpr ⟨t, member, call⟩⟩

/-- If a change is patched in, the calls fall into one turn for each parent, in order, and the patch
of a parent says what was done in its turn: whether the parent has rendered, and how many of its own
parents have.  It says that the registry entry was reassigned if that is so and the parent has
rendered: of a parent whose entry was reassigned and which did not render, it says otherwise. -/
theorem reconcile_reports [DecidableEq ι] (h : Host σ ι ν δ) (c : Context ι) (e : Change.Event)
    (s : σ) (report : Report) (patched : (reconcile h c e s).result.1 = .patched report) :
    ∃ turns : List (Turn ι δ),
      turns.map Turn.parent = (h.snapshot s c.root).parentsOfName e.component ∧
      turns.map Turn.patch = report.parents ∧
      turns.flatMap Turn.calls = callsOf (reconcile h c e s).journal ∧
      ∀ t ∈ turns, t.patch.name = t.parent.name ∧ t.Accounted h c.root ∧
        (t.patch.rebound = true ↔
          Reassigned (callsOf (reconcile h c e s).journal) t.parent.handle e.component ∧
            t.patch.rendered = true) := by
  cases route : e.route with
  | plain =>
      obtain ⟨answer, _, _, runs⟩ := reloadPlain_escalates h e s
      have whole := reconcile_of_escalated (c := c) (by rw [reloadRouted, route]; exact runs)
      rw [whole.result] at patched
      cases patched
  | component =>
      rcases reconcile_component (h := h) (c := c) (s := s) route with
        ⟨reason, _, runs⟩ | ⟨css, patches, s', _, all, runs⟩
      · rw [runs.result] at patched
        cases patched
      · rw [runs.result] at patched
        obtain rfl : ⟨e.component, patches⟩ = report := Outcome.patched.inj patched
        obtain ⟨turns, parents, calls, same, each⟩ := all.turns
        have journal : callsOf (reconcile h c e s).journal = turns.flatMap Turn.calls := by
          rw [runs.calls, ← calls, List.flatMap_def]
        have distinct : (turns.map fun t => t.parent.handle).Nodup := by
          have handles := Tree.nodup_parents (h.snapshot s c.root) (·.name == e.component)
          rw [Tree.parentsOfName] at parents
          rwa [← parents, List.map_map] at handles
        refine ⟨turns, parents, same, journal.symm, fun t member => ?_⟩
        obtain ⟨s₁, s₂, turn⟩ := each t member
        refine ⟨turn.name_eq, turn.accounted, ?_⟩
        rw [journal, reassigned_in_turn distinct each member]
        exact turn.rebound_iff

/-- A host with a page that contains a card and has it in its registry; nothing can be rendered. -/
def unrenderable : Host Unit Nat Nat String where
  root _ := some 0
  nodes _ i := if i < 2 then [i + 1] else []
  nested _ n := some n
  children _ _ := []
  describe _ i := { declared := ["App", "Page", "Card"][i]? }
  registered _ i := if i = 1 then some ["Card"] else none
  rebind _ _ _ s := (.ok (), s)
  forceUpdate _ s := (.error (.renderFailed "boom"), s)
  internalUpdate _ s := (.ok (), s)
  load url s := (.ok url, s)

/-- A change of the card. -/
def cardChange : Change.Event := .ofComponent "Card" "/src/Card.vue" 7

/-- The page of such a host has a turn of its own. -/
theorem reconcile_reports_page :
    (reconcile unrenderable { root := 0 } cardChange ()).result.1 =
        .patched ⟨"Card", [⟨"Page", false, false, 0⟩]⟩ ∧
      ∃ t : Turn Nat String, t.parent.name = "Page" ∧ t.Accounted unrenderable 0 ∧
        t.patch.rebound = false ∧ t.patch.rendered = false := by
  have patched : (reconcile unrenderable { root := 0 } cardChange ()).result.1 =
      .patched ⟨"Card", [⟨"Page", false, false, 0⟩]⟩ := by decide +kernel
  obtain ⟨turns, _, patches, _, each⟩ :=
    reconcile_reports unrenderable { root := 0 } cardChange () _ patched
  have listed : (⟨"Page", false, false, 0⟩ : ParentPatch) ∈ turns.map Turn.patch := by
    rw [patches]
    exact List.mem_singleton_self _
  obtain ⟨t, member, same⟩ := List.mem_map.mp listed
  obtain ⟨name, accounted, _⟩ := each t member
  exact ⟨patched, t, by rw [← name, same], accounted, by rw [same], by rw [same]⟩

/-- The registry entry of the page is reassigned, and the report denies it. -/
theorem reconcile_hides_rebinding :
    let t := reconcile unrenderable { root := 0 } cardChange ()
    t.result.1 = .patched ⟨"Card", [⟨"Page", false, false, 0⟩]⟩ ∧
      Reassigned (callsOf t.journal) 1 "Card" := by
  refine ⟨by decide +kernel, "/src/Card.vue?t=7", ?_⟩
  exact List.mem_cons_of_mem _ List.mem_cons_self

end Reconcile
end HotReload
