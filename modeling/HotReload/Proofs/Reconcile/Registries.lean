import HotReload.Proofs.Reconcile.Turns

/-!
# Registries

What a host has registered is given by its entries (`Host.Registries`): putting a definition into a
registry replaces the entry of a name, and no other call touches an entry.

A change puts the definition that it has loaded into a registry at most once in the turn of each
parent, as the call right after the load, and only where the host has just reported the name
(`reassigns_of_rebind`).  So no registry gains or loses a name, and only entries of the changed
component in parents that are no mere wrappers are replaced (`reconcile_keeps`).
-/

namespace HotReload
namespace Component

variable {σ ι ν δ : Type}

/-- The entries of a host's registries. -/
structure Host.Registries (h : Host σ ι ν δ) where
  /-- The definition that is registered under a name for an instance. -/
  entry : σ → ι → String → Option δ
  /-- The names that are reported are those with an entry. -/
  mem_registered : ∀ {s i names name}, h.registered s i = some names →
    (name ∈ names ↔ (entry s i name).isSome = true)
  rebind_self : ∀ {i name d s s'}, h.rebind i name d s = (.ok (), s') → entry s' i name = some d
  rebind_other : ∀ {i name d s s'}, h.rebind i name d s = (.ok (), s') →
    ∀ j other, ¬(j = i ∧ other = name) → entry s' j other = entry s j other
  rebind_error : ∀ {i name d s s' fault}, h.rebind i name d s = (.error fault, s') →
    entry s' = entry s
  load : ∀ url s, entry (h.load url s).2 = entry s
  forceUpdate : ∀ i s, entry (h.forceUpdate i s).2 = entry s
  internalUpdate : ∀ i s, entry (h.internalUpdate i s).2 = entry s

namespace Host.Registries

variable {h : Host σ ι ν δ} (R : h.Registries) {s s₁ s₂ : σ} {P Q : ι → String → Prop}

/-- From one state to another, no registry gains or loses a name, and only entries with a property
are replaced. -/
structure Keeps (s s' : σ) (replaced : ι → String → Prop) : Prop where
  names : ∀ i name, (R.entry s' i name).isSome = (R.entry s i name).isSome
  others : ∀ i name, ¬replaced i name → R.entry s' i name = R.entry s i name

variable {R}

theorem Keeps.of_eq (same : R.entry s₁ = R.entry s) : R.Keeps s s₁ P :=
  ⟨fun i name => by rw [same], fun i name _ => by rw [same]⟩

theorem Keeps.mono (keeps : R.Keeps s s₁ P) (weaker : ∀ i name, P i name → Q i name) :
    R.Keeps s s₁ Q :=
  ⟨keeps.names, fun i name other =>
    keeps.others i name fun replaced => other (weaker i name replaced)⟩

theorem Keeps.trans (first : R.Keeps s s₁ P) (second : R.Keeps s₁ s₂ P) : R.Keeps s s₂ P :=
  ⟨fun i name => (second.names i name).trans (first.names i name),
    fun i name other => (second.others i name other).trans (first.others i name other)⟩

end Host.Registries
end Component

namespace Reconcile

open Component

variable {σ ι ν δ : Type}

/-- The instance in whose registry a call puts a definition. -/
def reboundHandle? : Call ι δ → Option ι
  | .rebind i _ _ _ => some i
  | _ => none

theorem reboundHandles_eq_nil {cs : List (Call ι δ)}
    (none_ : ¬∃ i name d answer, Call.rebind i name d answer ∈ cs) :
    cs.filterMap reboundHandle? = [] := by
  rw [List.filterMap_eq_nil_iff]
  intro call member
  cases call with
  | rebind i name d answer => exact absurd ⟨i, name, d, answer, member⟩ none_
  | _ => rfl

/-- The registry of an instance is reported, and a name is in it. -/
def Reported (h : Host σ ι ν δ) (s : σ) (i : ι) (name : String) : Prop :=
  ∃ names, h.registered s i = some names ∧ name ∈ names

theorem reported_of_holds {h : Host σ ι ν δ} {s : σ} {i : ι} {name : String}
    (held : holds (h.registered s i) name = true) : Reported h s i name := by
  cases registry : h.registered s i with
  | none =>
      rw [registry] at held
      cases held
  | some names =>
      rw [registry] at held
      exact ⟨names, registry, List.contains_iff_mem.mp held⟩

/-- A turn puts a definition into a registry: that of its parent, which is no mere wrapper, under
the changed name.  The definition is the one that the turn has loaded in the call before, after
which the host has reported the name, and the turn goes on with renders only. -/
structure Reassigns (h : Host σ ι ν δ) (e : Change.Event) (start : σ) (t : Turn ι δ) (i : ι)
    (name : String) (d : δ) (answer : Except HostFault Unit) : Prop where
  handle : i = t.parent.handle
  loads : t.parent.wrapper.rendersOnly = false
  named : name = e.component
  calls : ∃ renders, t.calls = .load e.url (.ok d) :: .rebind i name d answer :: renders ∧
    ∀ call ∈ renders, isRender call = true
  reported : Reported h (h.load e.url start).2 i name

section

variable {h : Host σ ι ν δ} {e : Change.Event} {p : Parent ι} {i : ι} {name : String} {d : δ}
variable {s s' : σ} {cs ds : List (Call ι δ)} {answer : Except HostFault Unit}

theorem Prepares.rebinds {result : Except HostFault (Bool × Option (List String))}
    (prepared : Prepares h e p s cs result s') (member : Call.rebind i name d answer ∈ cs) :
    i = p.handle ∧ name = e.component ∧ cs = [.load e.url (.ok d), .rebind i name d answer] ∧
      Reported h (h.load e.url s).2 i name := by
  cases prepared with
  | notLoaded _ => simp at member
  | notHeld _ _ => simp at member
  | notRebound loaded held _ =>
      simp at member
      obtain ⟨rfl, rfl, rfl, rfl⟩ := member
      exact ⟨rfl, rfl, rfl, by rw [loaded]; exact reported_of_holds held⟩
  | rebound loaded held _ =>
      simp at member
      obtain ⟨rfl, rfl, rfl, rfl⟩ := member
      exact ⟨rfl, rfl, rfl, by rw [loaded]; exact reported_of_holds held⟩

/-- Renders after the module has been prepared rebind nothing more. -/
theorem Prepares.reassigns {result : Except HostFault (Bool × Option (List String))}
    {patch : ParentPatch} (loads : p.wrapper.rendersOnly = false)
    (prepared : Prepares h e p s cs result s') (renders : ∀ call ∈ ds, isRender call = true)
    (member : Call.rebind i name d answer ∈ cs ++ ds) :
    Reassigns h e s ⟨p, cs ++ ds, patch⟩ i name d answer := by
  rcases List.mem_append.mp member with first | later
  · obtain ⟨handle, named, calls, reported⟩ := prepared.rebinds first
    refine ⟨handle, loads, named, ⟨ds, ?_, renders⟩, reported⟩
    rw [calls, List.cons_append, List.singleton_append]
  · exact absurd later (not_rebind_of_isRender renders)

variable [DecidableEq ι] {root : ι} {patch : ParentPatch}

theorem Patches.reassigns (turn : Patches h root e p s cs patch s')
    (member : Call.rebind i name d answer ∈ cs) :
    Reassigns h e s ⟨p, cs, patch⟩ i name d answer := by
  cases turn with
  | wrapper _ renders => exact absurd member (not_rebind_of_isRender renders.isRender)
  | staleWrapper _ renders => exact absurd member (not_rebind_of_isRender renders.isRender)
  | unprepared loads prepared =>
      rw [← List.append_nil cs] at member ⊢
      exact prepared.reassigns loads (by simp) member
  | stale loads prepared renders => exact prepared.reassigns loads renders.isRender member
  | rendered loads prepared renders _ => exact prepared.reassigns loads renders.isRender member
  | propagated loads prepared renders _ all =>
      refine prepared.reassigns loads (fun call rendering => ?_) member
      exact (List.mem_append.mp rendering).elim (renders.isRender call) (all.isRender call)

/-- A turn puts a definition into a registry once at most: that of its parent. -/
theorem Patches.reboundHandles (turn : Patches h root e p s cs patch s') :
    (cs.filterMap reboundHandle?).Sublist [p.handle] := by
  by_cases rebinds : ∃ i name d answer, Call.rebind i name d answer ∈ cs
  · obtain ⟨i, name, d, answer, member⟩ := rebinds
    obtain ⟨handle, _, _, ⟨renders, calls, each⟩, _⟩ := turn.reassigns member
    have rest : renders.filterMap reboundHandle? = [] :=
      reboundHandles_eq_nil fun ⟨_, _, _, _, again⟩ => not_rebind_of_isRender each again
    have one : cs.filterMap reboundHandle? = [i] := by
      change cs = _ at calls
      rw [calls]
      exact congrArg (i :: ·) rest
    rw [one, handle]
  · rw [reboundHandles_eq_nil rebinds]
    exact List.nil_sublist _

end

section

variable {h : Host σ ι ν δ} (R : h.Registries) {e : Change.Event} {p : Parent ι} {i : ι}
variable {s s' : σ} {cs : List (Call ι δ)}

theorem Renders.entry_eq {answer : Except HostFault Unit} (renders : Renders h i s cs answer s') :
    R.entry s' = R.entry s := by
  cases renders with
  | viaPublic first _ =>
      have force := R.forceUpdate i s
      rwa [first] at force
  | @viaInternal _ _ s₁ _ first second =>
      have force := R.forceUpdate i s
      have internal := R.internalUpdate i s₁
      rw [first] at force
      rw [second] at internal
      exact internal.trans force

theorem RendersAll.entry_eq {ps : List (Parent ι)} {n : Nat} (renders : RendersAll h ps s cs n s') :
    R.entry s' = R.entry s := by
  induction renders with
  | none => rfl
  | rendered first _ ih => exact ih.trans (first.entry_eq R)
  | failed first _ ih => exact ih.trans (first.entry_eq R)

theorem Prepares.keeps {result : Except HostFault (Bool × Option (List String))}
    (prepared : Prepares h e p s cs result s') :
    R.Keeps s s' fun i name => i = p.handle ∧ name = e.component := by
  have load := R.load e.url s
  cases prepared with
  | notLoaded loaded =>
      rw [loaded] at load
      exact .of_eq load
  | notHeld loaded _ =>
      rw [loaded] at load
      exact .of_eq load
  | notRebound loaded _ bound =>
      rw [loaded] at load
      exact .of_eq ((R.rebind_error bound).trans load)
  | rebound loaded held bound =>
      rw [loaded] at load
      refine Host.Registries.Keeps.trans (.of_eq load) ⟨fun i name => ?_, R.rebind_other bound⟩
      -- The one entry that is replaced was there, since the host has reported its name.
      by_cases here : i = p.handle ∧ name = e.component
      · obtain ⟨rfl, rfl⟩ := here
        obtain ⟨names, reported, member⟩ := reported_of_holds held
        rw [R.rebind_self bound, (R.mem_registered reported).mp member]
        rfl
      · rw [R.rebind_other bound i name here]

variable [DecidableEq ι] {root : ι} {patch : ParentPatch}

/-- A turn replaces at most the entry of the changed component in its parent. -/
theorem Patches.keeps (turn : Patches h root e p s cs patch s') :
    R.Keeps s s' fun i name =>
      i = p.handle ∧ p.wrapper.rendersOnly = false ∧ name = e.component := by
  have loading {s s' : σ} {cs : List (Call ι δ)} (loads : p.wrapper.rendersOnly = false)
      {result : Except HostFault (Bool × Option (List String))}
      (prepared : Prepares h e p s cs result s') :
      R.Keeps s s' fun i name =>
        i = p.handle ∧ p.wrapper.rendersOnly = false ∧ name = e.component :=
    (prepared.keeps R).mono fun i name replaced => ⟨replaced.1, loads, replaced.2⟩
  cases turn with
  | wrapper _ renders => exact .of_eq (renders.entry_eq R)
  | staleWrapper _ renders => exact .of_eq (renders.entry_eq R)
  | unprepared loads prepared => exact loading loads prepared
  | stale loads prepared renders =>
      exact (loading loads prepared).trans (.of_eq (renders.entry_eq R))
  | rendered loads prepared renders _ =>
      exact (loading loads prepared).trans (.of_eq (renders.entry_eq R))
  | propagated loads prepared renders _ all =>
      exact (loading loads prepared).trans (.of_eq ((all.entry_eq R).trans (renders.entry_eq R)))

theorem PatchesAll.keeps {ps : List (Parent ι)} {turns : List (List (Call ι δ))}
    {patches : List ParentPatch} (all : PatchesAll h root e ps s turns patches s') :
    R.Keeps s s' fun i name =>
      (∃ p ∈ ps, p.handle = i ∧ p.wrapper.rendersOnly = false) ∧ name = e.component := by
  induction all with
  | none => exact .of_eq rfl
  | @turn p ps _ _ _ _ _ _ _ first _ ih =>
      refine ((first.keeps R).mono ?_).trans (ih.mono ?_)
      · rintro i name ⟨rfl, loads, named⟩
        exact ⟨⟨p, List.mem_cons_self, rfl, loads⟩, named⟩
      · rintro i name ⟨⟨q, member, same⟩, named⟩
        exact ⟨⟨q, List.mem_cons_of_mem p member, same⟩, named⟩

end

section

variable [DecidableEq ι] (h : Host σ ι ν δ) (c : Context ι) (e : Change.Event) (s : σ)

/-- A change replaces at most the entries of the changed component in its parents that are no mere
wrappers. -/
theorem reconcile_keeps (R : h.Registries) :
    R.Keeps s (reconcile h c e s).state fun i name =>
      e.route = .component ∧ name = e.component ∧
        ∃ p ∈ (h.snapshot s c.root).parentsOfName e.component,
          p.handle = i ∧ p.wrapper.rendersOnly = false := by
  cases route : e.route with
  | plain =>
      obtain ⟨_, _, _, loaded, runs⟩ := reconcile_plain (h := h) (c := c) (s := s) route
      have load := R.load e.url s
      rw [loaded] at load
      rw [runs.state]
      exact .of_eq load
  | component =>
      rcases reconcile_component (h := h) (c := c) (s := s) route with
        ⟨_, _, runs⟩ | ⟨_, _, _, _, all, runs⟩
      · rw [runs.state]
        exact .of_eq rfl
      · rw [runs.state]
        exact (all.keeps R).mono fun i name replaced => ⟨rfl, replaced.2, replaced.1⟩

/-- The calls of a change are those of the turns that it consists of, if they put a definition into
a registry. -/
theorem turns_of_rebind {i : ι} {name : String} {d : δ} {answer : Except HostFault Unit}
    (member : Call.rebind i name d answer ∈ callsOf (reconcile h c e s).journal) :
    callsOf (reconcile h c e s).journal =
      (turnsOf h c.root e ((h.snapshot s c.root).parentsOfName e.component) s).flatMap
        Turn.calls := by
  cases ended : (reconcile h c e s).result.1 with
  | patched report =>
      obtain ⟨route, clear⟩ := clear_of_patched ended
      exact (reconcile_turns route clear).calls
  | escalate reason =>
      cases route : e.route with
      | plain =>
          obtain ⟨_, _, _, _, runs⟩ := reconcile_plain (h := h) (c := c) (s := s) route
          rw [runs.calls] at member
          simp at member
      | component =>
          rw [(quiet_of_isEscalation route (by rw [ended]; rfl)).1] at member
          simp at member

/-- Whatever a change puts into a registry is put there in the turn of a located parent. -/
theorem reassigns_of_rebind {i : ι} {name : String} {d : δ} {answer : Except HostFault Unit}
    (member : Call.rebind i name d answer ∈ callsOf (reconcile h c e s).journal) :
    let located := (h.snapshot s c.root).parentsOfName e.component
    let turns := turnsOf h c.root e located s
    callsOf (reconcile h c e s).journal = turns.flatMap Turn.calls ∧
      ∃ k t, turns[k]? = some t ∧ t.parent ∈ located ∧ Call.rebind i name d answer ∈ t.calls ∧
        Reassigns h e (startOf h s turns k) t i name d answer := by
  intro located turns
  have whole := turns_of_rebind h c e s member
  refine ⟨whole, ?_⟩
  rw [whole] at member
  obtain ⟨t, there, inside⟩ := List.mem_flatMap.mp member
  obtain ⟨k, listed⟩ := List.mem_iff_getElem?.mp there
  have parent : t.parent ∈ located := by
    rw [← map_parent_turnsOf h c.root e located s]
    exact List.mem_map_of_mem there
  refine ⟨k, t, listed, parent, inside, ?_⟩
  have own := getElem?_turnsOf h c.root e located s k
  rw [show (turnsOf h c.root e located s)[k]? = some t from listed] at own
  obtain ⟨p, _, same⟩ := Option.map_eq_some_iff.mp own.symm
  subst same
  exact (turnOf_patches h c.root e _ p).reassigns inside

/-- In the turns of several parents, each of these has a definition put into its registry once at
most. -/
theorem reboundHandles_turnsOf (root : ι) (ps : List (Parent ι)) :
    (((turnsOf h root e ps s).flatMap Turn.calls).filterMap reboundHandle?).Sublist
      (ps.map Parent.handle) := by
  induction ps generalizing s with
  | nil => exact List.Sublist.refl _
  | cons p ps ih =>
      rw [turnsOf, List.flatMap_cons, List.filterMap_append, List.map_cons, ← List.singleton_append]
      exact (turnOf_patches h root e s p).reboundHandles.append (ih _)

/-- A change puts a definition into the registry of an instance once at most. -/
theorem nodup_reboundHandles :
    ((callsOf (reconcile h c e s).journal).filterMap reboundHandle?).Nodup := by
  -- Located parents are different instances, and each has one turn.
  by_cases rebinds : ∃ i name d answer,
      Call.rebind i name d answer ∈ callsOf (reconcile h c e s).journal
  · obtain ⟨_, _, _, _, member⟩ := rebinds
    rw [turns_of_rebind h c e s member]
    exact (Tree.nodup_parents _ _).sublist (reboundHandles_turnsOf h e s c.root _)
  · rw [reboundHandles_eq_nil rebinds]
    exact List.nodup_nil

end

end Reconcile
end HotReload
