import HotReload.Proofs.Component.Ancestors
import HotReload.Proofs.Reconcile.Effects

/-!
# Escalation leaves no trace

The change of a component escalates if a keep-alive wrapper stands anywhere above one of its
occurrences in the snapshot.  Whenever it escalates, for this reason or for another one, no call has
been made and the context is what it was.  The change of any other module escalates after one call,
which loads the module again.
-/

namespace HotReload
namespace Reconcile

open Component

variable {σ ι ν δ : Type}

/-- A guarded parent is enough to escalate, whatever other parents there are. -/
theorem escalation_of_guarded {ps : List (Parent ι)} (h : ps.any Parent.guarded = true) :
    ∃ reason, escalation ps = some reason := by
  cases ps with
  | nil => exact ⟨.notFound, rfl⟩
  | cons p rest =>
      by_cases alone : (rest.isEmpty && p.isRoot) = true
      · exact ⟨.rootParent, if_pos alone⟩
      · exact ⟨.keepAlive, (if_neg alone).trans (if_pos h)⟩

/-- The change of another module loads it and escalates. -/
theorem reloadPlain_escalates (h : Host σ ι ν δ) (e : Change.Event) (s : σ) :
    ∃ answer s', h.load e.url s = (answer, s') ∧
      Runs (reloadPlain h e) s [.load e.url answer]
        (.escalate (.plainModule (match answer with
          | .ok _ => none
          | .error fault => some fault.message))) s' := by
  rcases loaded : h.load e.url s with ⟨answer, s'⟩
  have loading := runs_perform (Call.load (ι := ι) e.url) loaded
  refine ⟨answer, s', rfl, ?_⟩
  cases answer with
  | ok d => exact loading.still (.pure _ s')
  | error fault => exact loading.still ((runs_log _ s').quiet (.pure _ s'))

/-- Taking the snapshot anew makes no call. -/
theorem refresh_quiet (h : Host σ ι ν δ) (c : Context ι) (s : σ) :
    Runs (refresh h c) s []
      ⟨(h.root s).getD c.root, some (h.snapshot s ((h.root s).getD c.root))⟩ s :=
  (runs_look h.root s).quiet ((runs_takeSnapshot h _ s).quiet ((runs_log _ s).quiet (.pure _ s)))

section

variable [DecidableEq ι] (h : Host σ ι ν δ) (c : Context ι) (e : Change.Event) (s : σ)

/-- The change of a component that has a reason to escalate does so without a call. -/
theorem reloadComponent_escalates {reason : Reason}
    (found : escalation ((h.snapshot s c.root).parentsOfName e.component) = some reason) :
    Runs (reloadComponent h c.root e) s [] (.escalate reason) s := by
  refine (runs_takeSnapshot h c.root s).quiet ?_
  dsimp only
  rw [found]
  exact (runs_log _ s).quiet (.pure _ s)

/-- The change of a component that has none is patched into its parents, one turn after another. -/
theorem reloadComponent_patches
    (clear : escalation ((h.snapshot s c.root).parentsOfName e.component) = none) :
    ∃ turns patches s', PatchesAll h c.root e ((h.snapshot s c.root).parentsOfName e.component) s
        turns patches s' ∧
      Runs (reloadComponent h c.root e) s turns.flatten (.patched ⟨e.component, patches⟩) s' := by
  obtain ⟨turns, patches, s', all, runs⟩ :=
    patchAll_patches h c.root e ((h.snapshot s c.root).parentsOfName e.component) s
  refine ⟨turns, patches, s', all, (runs_takeSnapshot h c.root s).quiet ?_⟩
  dsimp only
  rw [clear]
  exact runs.still (.pure _ s')

/-- What a change asks for, before the context is looked after. -/
def reloadRouted : Activity σ ι δ Outcome :=
  match e.route with
  | .plain => reloadPlain h e
  | .component => reloadComponent h c.root e

/-- The context is looked after once the change has been patched in, and not if it has escalated. -/
theorem reconcile_eq :
    reconcile h c e = (do
      let outcome ← reloadRouted h c e
      if outcome.isEscalation then return (outcome, c)
      else return (outcome, ← refresh h c)) := by
  unfold reconcile reloadRouted
  cases e.route with
  | plain => rfl
  | component => rfl

variable {h c e s}

/-- Reconciling ends where the change has escalated. -/
theorem reconcile_of_escalated {s' : σ} {calls : List (Call ι δ)} {reason : Reason}
    (runs : Runs (reloadRouted h c e) s calls (.escalate reason) s') :
    Runs (reconcile h c e) s calls (.escalate reason, c) s' := by
  rw [reconcile_eq]
  exact runs.still (.pure _ s')

/-- After a patch the snapshot is taken anew. -/
theorem reconcile_of_patched {s' : σ} {calls : List (Call ι δ)} {report : Report}
    (runs : Runs (reloadRouted h c e) s calls (.patched report) s') :
    Runs (reconcile h c e) s calls
      (.patched report, ⟨(h.root s').getD c.root, some (h.snapshot s' ((h.root s').getD c.root))⟩)
      s' := by
  rw [reconcile_eq]
  exact runs.still ((refresh_quiet h c s').still (.pure _ s'))

variable (h c e s)

/-- The context is what it was if the change escalates, and is taken from the host otherwise. -/
theorem reconcile_ends :
    (∃ reason, (reconcile h c e s).result = (.escalate reason, c)) ∨
    ∃ report, (reconcile h c e s).result = (.patched report,
      ⟨(h.root (reconcile h c e s).state).getD c.root,
        some (h.snapshot (reconcile h c e s).state
          ((h.root (reconcile h c e s).state).getD c.root))⟩) := by
  cases ended : (reloadRouted h c e s).result with
  | escalate reason =>
      exact .inl ⟨reason, (reconcile_of_escalated ⟨rfl, ended, rfl⟩).result⟩
  | patched report =>
      have runs := reconcile_of_patched ⟨rfl, ended, rfl⟩
      refine .inr ⟨report, ?_⟩
      rw [runs.state]
      exact runs.result

variable {h c e s}

/-- The change of a component escalates if its parents give a reason to, without a call and with the
context as it was, and is patched into them otherwise. -/
theorem reconcile_component (route : e.route = .component) :
    (∃ reason, escalation ((h.snapshot s c.root).parentsOfName e.component) = some reason ∧
      Runs (reconcile h c e) s [] (.escalate reason, c) s) ∨
    ∃ turns patches s',
      escalation ((h.snapshot s c.root).parentsOfName e.component) = none ∧
      PatchesAll h c.root e ((h.snapshot s c.root).parentsOfName e.component) s turns patches s' ∧
      Runs (reconcile h c e) s turns.flatten
        (.patched ⟨e.component, patches⟩,
          ⟨(h.root s').getD c.root, some (h.snapshot s' ((h.root s').getD c.root))⟩) s' := by
  cases found : escalation ((h.snapshot s c.root).parentsOfName e.component) with
  | some reason =>
      refine .inl ⟨reason, rfl, reconcile_of_escalated ?_⟩
      rw [reloadRouted, route]
      exact reloadComponent_escalates h c e s found
  | none =>
      obtain ⟨turns, patches, s', all, runs⟩ := reloadComponent_patches h c e s found
      refine .inr ⟨turns, patches, s', rfl, all, reconcile_of_patched ?_⟩
      rw [reloadRouted, route]
      exact runs

/-- The change of another module loads it and escalates. -/
theorem reconcile_plain (route : e.route = .plain) :
    ∃ answer s' reason, h.load e.url s = (answer, s') ∧
      Runs (reconcile h c e) s [.load e.url answer] (.escalate reason, c) s' := by
  obtain ⟨answer, s', loaded, runs⟩ := reloadPlain_escalates h e s
  exact ⟨answer, s', _, loaded, reconcile_of_escalated (by rw [reloadRouted, route]; exact runs)⟩

/-- The change of a component escalates exactly if its parents give a reason to. -/
theorem isEscalation_iff (route : e.route = .component) :
    (reconcile h c e s).result.1.isEscalation = true ↔
      (escalation ((h.snapshot s c.root).parentsOfName e.component)).isSome = true := by
  rcases reconcile_component (h := h) (c := c) (s := s) route with
    ⟨reason, found, runs⟩ | ⟨_, _, _, clear, _, runs⟩
  · rw [runs.result, found]
    exact ⟨fun _ => rfl, fun _ => rfl⟩
  · rw [runs.result, clear]
    constructor
    · intro never
      exact absurd never Bool.false_ne_true
    · intro never
      exact absurd never Bool.false_ne_true

/-- The change of a component that escalates leaves no trace. -/
theorem quiet_of_isEscalation (route : e.route = .component)
    (escalates : (reconcile h c e s).result.1.isEscalation = true) :
    callsOf (reconcile h c e s).journal = [] ∧ (reconcile h c e s).result.2 = c ∧
      (reconcile h c e s).state = s := by
  rcases reconcile_component (h := h) (c := c) (s := s) route with
    ⟨_, _, runs⟩ | ⟨_, _, _, _, _, runs⟩
  · exact ⟨runs.calls, congrArg Prod.snd runs.result, runs.state⟩
  · rw [runs.result] at escalates
    cases escalates

/-- A change that is patched in is that of a component whose parents give no reason to escalate. -/
theorem clear_of_patched {report : Report}
    (patched : (reconcile h c e s).result.1 = .patched report) :
    e.route = .component ∧
      escalation ((h.snapshot s c.root).parentsOfName e.component) = none := by
  cases route : e.route with
  | plain =>
      obtain ⟨_, _, _, _, runs⟩ := reconcile_plain (h := h) (c := c) (s := s) route
      rw [runs.result] at patched
      cases patched
  | component =>
      refine ⟨rfl, ?_⟩
      rw [← Option.not_isSome_iff_eq_none, ← isEscalation_iff route, patched]
      exact Bool.false_ne_true

/-- The report of a change that is patched in is about the component, and names its parents. -/
theorem report_of_patched {report : Report}
    (patched : (reconcile h c e s).result.1 = .patched report) :
    ∃ patches, report = ⟨e.component, patches⟩ ∧ patches.map ParentPatch.name =
      ((h.snapshot s c.root).parentsOfName e.component).map Parent.name := by
  rcases reconcile_component (h := h) (c := c) (s := s) (clear_of_patched patched).1 with
    ⟨reason, _, runs⟩ | ⟨_, patches, _, _, all, runs⟩
  · rw [runs.result] at patched
    cases patched
  · rw [runs.result] at patched
    exact ⟨patches, (Outcome.patched.inj patched).symm, all.names_eq⟩

end

/-- The change of a component escalates if a keep-alive wrapper stands above one of its occurrences;
whenever it escalates, it has made no call and the context and the host are as they were.  The
change of another module makes one call, which loads it, and escalates. -/
theorem reconcile_escalates_quietly [DecidableEq ι] (h : Host σ ι ν δ) (c : Context ι)
    (e : Change.Event) (s : σ) :
    let t := reconcile h c e s
    (e.route = .component →
      (∀ kept occurrence : Component.Tree ι, kept.Within (h.snapshot s c.root) →
        kept.wrapper = .keepAlive → occurrence.Below kept → occurrence.name = e.component →
        t.result.1.isEscalation = true) ∧
      (t.result.1.isEscalation = true →
        callsOf t.journal = [] ∧ t.result.2 = c ∧ t.state = s)) ∧
    (e.route = .plain → ∃ answer, callsOf t.journal = [.load e.url answer] ∧
      t.result = (.escalate (.plainModule (match answer with
        | .ok _ => none
        | .error fault => some fault.message)), c) ∧
      h.load e.url s = (answer, t.state)) := by
  intro t
  refine ⟨fun route => ?_, fun route => ?_⟩
  · rcases reconcile_component (h := h) (c := c) (s := s) route with
      ⟨reason, _, calls, result, state⟩ | ⟨turns, patches, s', clear, _, runs⟩
    · refine ⟨fun _ _ _ _ _ _ => ?_, fun _ => ⟨calls, congrArg Prod.snd result, state⟩⟩
      rw [show t.result = (.escalate reason, c) from result]
      rfl
    · have result : t.result.1 = .patched ⟨e.component, patches⟩ := congrArg Prod.fst runs.result
      refine ⟨fun kept occurrence within keeps below name => ?_, fun escalated => ?_⟩
      · have guarded :
            ((h.snapshot s c.root).parentsOfName e.component).any Parent.guarded = true :=
          Tree.guarded_of_below within keeps below (by simpa using name)
        obtain ⟨reason, found⟩ := escalation_of_guarded guarded
        rw [clear] at found
        cases found
      · rw [result] at escalated
        cases escalated
  · obtain ⟨answer, s', loaded, runs⟩ := reloadPlain_escalates h e s
    have whole : Runs (reconcile h c e) s [.load e.url answer] _ s' :=
      reconcile_of_escalated (by rw [reloadRouted, route]; exact runs)
    obtain ⟨calls, result, state⟩ := whole
    exact ⟨answer, calls, result, by rw [loaded, ← state]⟩

end Reconcile
end HotReload
