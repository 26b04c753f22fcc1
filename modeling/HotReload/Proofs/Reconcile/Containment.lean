import HotReload.Proofs.Reconcile.Turns

/-!
# Faults stay with their parent

A report has an entry for each parent that was located, in the order of location, whatever calls
have failed, and the snapshot is taken anew afterwards.

Nothing is carried from the turn of one parent to the next.  So if two hosts show the same and
answer the same except during the turn of one parent, then all other parents have the same turns on
both: the same calls, and the same entries in the report (`reconcile_contains_faults`).  What
happens during the turn of the one parent is not restricted: its calls may succeed on one host and
fail on the other, and there may be more of them on one than on the other.
-/

namespace HotReload
namespace Reconcile

open Component

variable {σ σ' ι ν δ : Type}

/-- A change has been patched into the given parents, and consists of their turns. -/
structure Comprises (t : Trace σ ι δ (Outcome × Context ι)) (component : String)
    (parents : List (Parent ι)) (turns : List (Turn ι δ)) : Prop where
  parents : turns.map Turn.parent = parents
  calls : turns.flatMap Turn.calls = callsOf t.journal
  patched : t.result.1 = .patched ⟨component, turns.map Turn.patch⟩

section

variable [DecidableEq ι] {h : Host σ ι ν δ} {h' : Host σ' ι ν δ} {root : ι} {e : Change.Event}

/-- On a host that agrees with another one on the calls of a turn, the parent has the same turn. -/
theorem turnOf_congr {s : σ} {s' : σ'} {p : Parent ι}
    (agree : Agree h s h' s' (turnOf h root e s p).calls) :
    turnOf h' root e s' p = turnOf h root e s p := by
  obtain ⟨cs, patch, runs, _, follows⟩ := attemptParent_follows h h' root e p s
  obtain ⟨calls, result, _⟩ := runs
  have again := follows s' (by rw [← calls]; exact agree)
  rw [turnOf, turnOf, calls, result, again.calls, again.result]

/-- The turns during which two hosts agree are the same on both. -/
theorem getElem?_turnsOf_congr {s : σ} {s' : σ'} {ps : List (Parent ι)} {k : Nat}
    (agree : ∀ turn, (turnsOf h root e ps s)[k]? = some turn →
      Agree h (startOf h s (turnsOf h root e ps s) k) h'
        (startOf h' s' (turnsOf h' root e ps s') k) turn.calls) :
    (turnsOf h' root e ps s')[k]? = (turnsOf h root e ps s)[k]? := by
  rw [getElem?_turnsOf] at agree
  rw [getElem?_turnsOf, getElem?_turnsOf]
  cases listed : ps[k]? with
  | none => rfl
  | some p =>
      rw [listed] at agree
      exact congrArg some (turnOf_congr (agree _ rfl))

theorem comprises_turnsOf {c : Context ι} {s : σ} (route : e.route = .component)
    (clear : escalation ((h.snapshot s c.root).parentsOfName e.component) = none) :
    Comprises (reconcile h c e s) e.component ((h.snapshot s c.root).parentsOfName e.component)
      (turnsOf h c.root e ((h.snapshot s c.root).parentsOfName e.component) s) := by
  have runs := reconcile_turns route clear
  exact ⟨map_parent_turnsOf h c.root e _ s, runs.calls.symm, congrArg Prod.fst runs.result⟩

end

/-- If a change is patched in, then the report has one entry for each parent that was located, in
this order and with its name, and the snapshot has been taken anew from the host's root.  The change
consists of one turn for each of these parents; and if another host shows the same tree when the
change starts, and agrees with this one during all turns but one, then the change is patched in
there too, with the same turns except for the one. -/
theorem reconcile_contains_faults [DecidableEq ι] (h : Host σ ι ν δ) (c : Context ι)
    (e : Change.Event) (s : σ) (report : Report)
    (patched : (reconcile h c e s).result.1 = .patched report) :
    let t := reconcile h c e s
    let located := (h.snapshot s c.root).parentsOfName e.component
    let turns := turnsOf h c.root e located s
    report.parents.map ParentPatch.name = located.map Parent.name ∧
    t.result.2 = ⟨(h.root t.state).getD c.root,
      some (h.snapshot t.state ((h.root t.state).getD c.root))⟩ ∧
    Comprises t e.component located turns ∧
    ∀ (σ' : Type) (h' : Host σ' ι ν δ) (s' : σ') (k : Nat),
      let turns' := turnsOf h' c.root e located s'
      h.SameTree s h' s' →
      (∀ j ≠ k, ∀ turn, turns[j]? = some turn →
        Agree h (startOf h s turns j) h' (startOf h' s' turns' j) turn.calls) →
      Comprises (reconcile h' c e s') e.component located turns' ∧
        ∀ j ≠ k, turns'[j]? = turns[j]? := by
  intro t located turns
  obtain ⟨route, clear⟩ := clear_of_patched patched
  have whole := comprises_turnsOf route clear
  refine ⟨?_, ?_, whole, ?_⟩
  · obtain ⟨_, rfl, names⟩ := report_of_patched patched
    exact names
  · rcases reconcile_ends h c e s with ⟨reason, result⟩ | ⟨_, result⟩
    · rw [result] at patched
      cases patched
    · exact congrArg Prod.snd result
  · intro σ' h' s' k turns' same agree
    refine ⟨?_, fun j other => getElem?_turnsOf_congr (agree j other)⟩
    have there : located = (h'.snapshot s' c.root).parentsOfName e.component :=
      congrArg (Tree.parentsOfName · e.component) (same.snapshot c.root)
    change Comprises _ _ _ (turnsOf h' c.root e located s')
    rw [there]
    exact comprises_turnsOf route (there ▸ clear)

/-- A host that counts the calls made, with two pages that contain a card each and have it in their
registries.  A module is not loaded at a given count. -/
def counting (rejected : Nat → Bool) : Host Nat Nat Nat String where
  root _ := some 0
  nodes _
    | 0 => [1, 2]
    | 1 => [3]
    | 2 => [3]
    | _ => []
  nested _ n := some n
  children _ _ := []
  describe _ i := { declared := ["App", "Page", "Sidebar", "Card"][i]? }
  registered _ i := if i = 1 ∨ i = 2 then some ["Card"] else none
  rebind _ _ _ s := (.ok (), s + 1)
  forceUpdate _ s := (.ok (), s + 1)
  internalUpdate _ s := (.ok (), s + 1)
  load url s := (if rejected s then .error (.loadRejected url "offline") else .ok url, s + 1)

/-- Such hosts show the same at all counts, and agree on the calls of a turn that loads a module. -/
theorem agree_counting (r r' : Nat → Bool) {s s' : Nat} (loads : r' s' = false) (i : Nat) :
    Agree (counting r) s (counting r') s'
      [.load "/src/Card.vue?t=7" (.ok "/src/Card.vue?t=7"),
        .rebind i "Card" "/src/Card.vue?t=7" (.ok ()), .force i (.ok ())] := by
  refine ⟨.call ?_ (.call rfl (.call rfl .none)), fun _ _ => ⟨⟨rfl, rfl, rfl, rfl⟩, rfl, rfl⟩⟩
  simp [reply, counting, loads]

/-- A host that does not load the module at first, and one that does.  The page has different turns
on them, and the sidebar has the same. -/
theorem reconcile_contains_faults_page :
    let t := reconcile (counting (· == 0)) { root := 0 } cardChange 0
    let t' := reconcile (counting fun _ => false) { root := 0 } cardChange 0
    t.result.1 = .patched ⟨"Card", [⟨"Page", false, false, 0⟩, ⟨"Sidebar", true, true, 0⟩]⟩ ∧
      t'.result.1 = .patched ⟨"Card", [⟨"Page", true, true, 0⟩, ⟨"Sidebar", true, true, 0⟩]⟩ ∧
      ∃ turns turns' : List (Turn Nat String),
        turns.flatMap Turn.calls = callsOf t.journal ∧
        turns'.flatMap Turn.calls = callsOf t'.journal ∧ turns'[1]? = turns[1]? := by
  intro t t'
  have patched : t.result.1 =
      .patched ⟨"Card", [⟨"Page", false, false, 0⟩, ⟨"Sidebar", true, true, 0⟩]⟩ := by
    decide +kernel
  obtain ⟨_, _, whole, others⟩ :=
    reconcile_contains_faults (counting (· == 0)) { root := 0 } cardChange 0 _ patched
  obtain ⟨whole', same⟩ := others Nat (counting fun _ => false) 0 0 ⟨rfl, rfl, rfl, rfl⟩ (by
    intro j other turn listed
    match j, other, listed with
    | 1, _, listed =>
        obtain rfl := Option.some.inj listed
        exact agree_counting _ _ rfl 2
    | j + 2, _, listed => cases listed)
  exact ⟨patched, by decide +kernel, _, _, whole.calls, whole'.calls, same 1 Nat.one_ne_zero⟩

end Reconcile
end HotReload
