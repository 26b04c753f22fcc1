import HotReload.Proofs.Component.Chains
import HotReload.Proofs.Reconcile.Reports

/-!
# Components that only the root contains

A component whose only parent is the root is not patched in: rendering the root anew is what a full
reload is for.  A parent is taken for the root if it was first met at the top of the tree.  So if
the root shows itself again below the top, as it may in a cyclic graph, then the answer depends on
where the walk meets a component of the name first: at the top the change escalates, further down it
is patched into the root, unless a keep-alive wrapper guards it (`reconcile_below_root`).

A root that a page contains before the changed component is rendered anew
(`reconcile_patches_root`).
-/

namespace HotReload
namespace Reconcile

open Component

variable {σ ι ν δ : Type}

/-- A single parent escalates if it is the root or guarded. -/
theorem escalation_singleton (p : Parent ι) :
    (escalation [p]).isSome = true ↔ p.isRoot = true ∨ p.guarded = true := by
  cases root : p.isRoot <;> cases guarded : p.guarded <;> simp [escalation, root, guarded]

/-- If components of the changed name are shown below others, and each of these is the root
instance, then the change escalates exactly if the first of them that the walk meets is shown at the
top or one is shown below a keep-alive wrapper.  If it escalates no call has been made, and if it
does not then it is patched into the root.  If the root is shown at the top only, it always
escalates. -/
theorem reconcile_below_root [DecidableEq ι] (h : Host σ ι ν δ) (c : Context ι) (e : Change.Event)
    (s : σ) (route : e.route = .component)
    (shown : ∃ u v : Component.Tree ι, u.Within (h.snapshot s c.root) ∧ v ∈ u.children ∧
      v.name = e.component)
    (rooted : ∀ u v : Component.Tree ι, u.Within (h.snapshot s c.root) → v ∈ u.children →
      v.name = e.component → u.handle = c.root) :
    let tree := h.snapshot s c.root
    let t := reconcile h c e s
    (t.result.1.isEscalation = true ↔
      (∃ v, tree.firstMet? (·.name == e.component) = some (v, [tree])) ∨
      ∃ kept v : Component.Tree ι, kept.Within tree ∧ kept.wrapper = .keepAlive ∧ v.Below kept ∧
        v.name = e.component) ∧
    (t.result.1.isEscalation = true → callsOf t.journal = [] ∧ t.result.2 = c ∧ t.state = s) ∧
    (t.result.1.isEscalation = false →
      ∃ p patch, tree.parentsOfName e.component = [p] ∧ p.handle = c.root ∧
        t.result.1 = .patched ⟨e.component, [patch]⟩ ∧ patch.name = p.name) ∧
    ((∀ u : Component.Tree ι, u.Below tree → u.handle ≠ c.root) →
      t.result.1.isEscalation = true) := by
  intro tree t
  obtain ⟨a, b, inside, member, name⟩ := shown
  obtain ⟨v, u, above, met⟩ :
      ∃ v u above, tree.firstMet? (·.name == e.component) = some (v, u :: above) :=
    Tree.exists_firstMet? inside member (by simpa using name)
  have one (u v : Component.Tree ι) (within : u.Within tree) (member : v ∈ u.children)
      (match_ : (v.name == e.component) = true) : u.handle = c.root :=
    rooted u v within member (by simpa using match_)
  obtain ⟨guarded, listed⟩ := Tree.parents_of_one_handle one met
  have stands := (Tree.firstMet?_eq_some met).1
  have guards : (tree.parents (·.name == e.component)).any Parent.guarded = true ↔ _ :=
    Tree.any_guarded_parents
  rw [listed] at guards
  -- The chain of the first component is the top alone exactly if its parent is taken for the root.
  have top : (∃ v, tree.firstMet? (·.name == e.component) = some (v, [tree])) ↔ above = [] := by
    rw [met]
    constructor
    · rintro ⟨w, same⟩
      exact (List.cons.inj (Prod.mk.inj (Option.some.inj same)).2).2
    · rintro rfl
      cases stands with
      | child upper _ =>
          cases upper
          exact ⟨v, rfl⟩
  have escalates : t.result.1.isEscalation = true ↔ above = [] ∨ guarded = true := by
    rw [isEscalation_iff route, Tree.parentsOfName, listed, escalation_singleton,
      List.isEmpty_iff]
  have handle : u.handle = c.root := by
    cases stands with
    | child upper child => exact one u v upper.within child (Tree.firstMet?_eq_some met).2.1
  refine ⟨?_, quiet_of_isEscalation route, fun patched => ?_,
    fun once => escalates.mpr (.inl ?_)⟩
  · rw [escalates, top]
    exact or_congr_right (by simpa using guards)
  · cases ended : t.result.1 with
    | escalate reason =>
        rw [ended] at patched
        cases patched
    | patched report =>
        obtain ⟨patches, rfl, names⟩ := report_of_patched ended
        rw [Tree.parentsOfName, listed, List.map_singleton, List.map_eq_singleton_iff] at names
        obtain ⟨patch, rfl, named⟩ := names
        exact ⟨_, patch, listed, handle, rfl, named⟩
  · cases stands with
    | child upper child =>
        cases upper with
        | top => rfl
        | @child w _ _ higher below =>
            exact absurd handle (once u (higher.within.child_below below))

/-- A host whose root and a page contain each other.  What else the root contains stands before or
behind the page. -/
def recursive (nodes : List Nat) : Host Unit Nat Nat String where
  root _ := some 0
  nodes _
    | 0 => nodes
    | 1 => [0]
    | _ => []
  nested _ n := some n
  children _ _ := []
  describe _ i := { declared := ["App", "Page", "Card"][i]? }
  registered _ i := if i = 0 then some ["Card"] else none
  rebind _ _ _ s := (.ok (), s)
  forceUpdate _ s := (.ok (), s)
  internalUpdate _ s := (.ok (), s)
  load url s := (.ok url, s)

/-- No instance but the root contains a card itself. -/
def Rooted (t : Component.Tree Nat) : Prop :=
  ∀ u v : Component.Tree Nat, u.Within t → v ∈ u.children → v.name = "Card" → u.handle = 0

/-- A page does not contain a card itself, and a card contains nothing. -/
theorem rooted_treeOf {nodes : List Nat} {subtrees : Nat → List (Component.Tree Nat)}
    (each : ∀ j, ∀ t ∈ subtrees j,
      Rooted t ∧ ∃ children, t = (recursive nodes).treeOf () j children)
    (i : Nat) :
    Rooted ((recursive nodes).treeOf () i (((recursive nodes).nodes () i).flatMap subtrees)) := by
  intro u v within member name
  rcases within with rfl | below
  · obtain ⟨j, contained, shown⟩ := List.mem_flatMap.mp member
    obtain ⟨_, children, rfl⟩ := each j v shown
    rcases i with _ | _ | i
    · rfl
    · obtain rfl : j = 0 := List.mem_singleton.mp contained
      exact absurd (show "App" = "Card" from name) (by decide)
    · cases contained
  · obtain ⟨w, first, inside⟩ : ∃ w ∈ ((recursive nodes).nodes () i).flatMap subtrees,
        u.Within w := by
      cases below with
      | child first => exact ⟨u, first, .inl rfl⟩
      | deeper first rest => exact ⟨_, first, .inr rest⟩
    obtain ⟨j, _, shown⟩ := List.mem_flatMap.mp first
    exact (each j w shown).1 u v inside member name

/-- Whatever else the root contains, cards are directly below it only. -/
theorem rooted_snapshot (nodes : List Nat) : Rooted ((recursive nodes).snapshot () 0) := by
  have each (n : Nat) : ∀ j, ∀ t ∈ (recursive nodes).collect () n j,
      Rooted t ∧ ∃ children, t = (recursive nodes).treeOf () j children := by
    induction n with
    | zero =>
        intro j t shown
        obtain rfl := List.mem_singleton.mp shown
        have cut : ((recursive nodes).nodes () j).flatMap (fun _ => []) =
            ([] : List (Component.Tree Nat)) := List.flatMap_eq_nil_iff.mpr fun _ _ => rfl
        exact ⟨cut ▸ rooted_treeOf (by simp) j, [], rfl⟩
    | succ n ih =>
        intro j t shown
        obtain rfl := List.mem_singleton.mp shown
        exact ⟨rooted_treeOf ih j, _, rfl⟩
  exact rooted_treeOf (each _) 0

/-- A card before the page is met at the top. -/
theorem reconcile_below_root_card :
    let tree := (recursive [2, 1]).snapshot () 0
    let t := reconcile (recursive [2, 1]) { root := 0 } cardChange ()
    (∃ u v : Component.Tree Nat, u.Within tree ∧ v ∈ u.children ∧ v.name = "Card") ∧
      (∀ u v : Component.Tree Nat, u.Within tree → v ∈ u.children → v.name = "Card" →
        u.handle = 0) ∧
      t.result.1.isEscalation = true ∧ callsOf t.journal = [] := by
  intro tree t
  have shown : ∃ u v : Component.Tree Nat, u.Within tree ∧ v ∈ u.children ∧ v.name = "Card" :=
    ⟨tree, _, .inl rfl, List.mem_cons_self, rfl⟩
  have rooted : Rooted tree := rooted_snapshot [2, 1]
  have whole := reconcile_below_root (recursive [2, 1]) { root := 0 } cardChange () rfl shown rooted
  have escalates : t.result.1.isEscalation = true := whole.1.mpr (.inl ⟨_, rfl⟩)
  exact ⟨shown, rooted, escalates, (whole.2.1 escalates).1⟩

/-- A card behind the page is met further down, although only the root contains it: the root is
rendered anew. -/
theorem reconcile_patches_root :
    let tree := (recursive [1, 2]).snapshot () 0
    let t := reconcile (recursive [1, 2]) { root := 0 } cardChange ()
    (∃ u v : Component.Tree Nat, u.Within tree ∧ v ∈ u.children ∧ v.name = "Card") ∧
      (∀ u v : Component.Tree Nat, u.Within tree → v ∈ u.children → v.name = "Card" →
        u.handle = 0) ∧
      t.result.1 = .patched ⟨"Card", [⟨"App", true, true, 0⟩]⟩ := by
  intro tree t
  have last : ∃ v ∈ tree.children, v.name = "Card" :=
    ⟨_, List.mem_cons_of_mem _ List.mem_cons_self, rfl⟩
  obtain ⟨v, member, name⟩ := last
  exact ⟨⟨tree, v, .inl rfl, member, name⟩, rooted_snapshot [1, 2], by decide +kernel⟩

end Reconcile
end HotReload
