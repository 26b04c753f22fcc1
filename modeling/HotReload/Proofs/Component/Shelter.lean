import HotReload.Proofs.Component.Ancestors
import HotReload.Proofs.Component.Places
import HotReload.Proofs.Component.Views

/-!
# Instances that are kept alive

An instance may be shown at several places, and shows the same below itself at each of them.  So if
a component of some name is shown below an instance, and the instance is shown below a keep-alive
wrapper at any place, then the wrapper guards a component of that name, and so does the instance if
it is a keep-alive wrapper itself.  If no parent of the name is guarded, neither is the case: the
instance is free (`Host.free_of_unguarded`).  This holds where the snapshot has not been cut.

The parents that are found in a snapshot show what they were found for directly below themselves
(`Host.shows_of_parent`).
-/

namespace HotReload
namespace Component

variable {σ ι ν δ : Type}

namespace Tree

/-- The instances of parents are those that were found before and those that are added. -/
theorem mem_handles_foldl [DecidableEq ι] {found ps : List (Parent ι)} {i : ι} :
    i ∈ (ps.foldl (fun found p => addParent p found) found).map Parent.handle ↔
      i ∈ found.map Parent.handle ∨ i ∈ ps.map Parent.handle := by
  induction ps generalizing found with
  | nil => simp
  | cons p ps ih =>
      rw [List.foldl_cons, ih, handles_addParent, List.map_cons, List.mem_cons, ← or_assoc]
      refine or_congr_left ?_
      split
      · rename_i there
        exact ⟨.inl, fun either => either.elim id fun same => same ▸ there⟩
      · rw [List.mem_append, List.mem_singleton]

/-- The instances of the parents are those that stand directly above a component that is looked
for. -/
theorem mem_handles_parents [DecidableEq ι] {t : Tree ι} {wanted : Tree ι → Bool} {i : ι} :
    i ∈ (t.parents wanted).map Parent.handle ↔
      ∃ v u above, (v, u :: above) ∈ t.visits [] ∧ wanted v = true ∧ u.handle = i := by
  rw [parents, mem_handles_foldl]
  simp only [List.map_nil, List.not_mem_nil, false_or, List.mem_map, List.mem_filterMap,
    List.mem_filter]
  constructor
  · rintro ⟨p, ⟨⟨v, chain⟩, ⟨visited, match_⟩, parent⟩, same⟩
    cases chain with
    | nil => cases parent
    | cons u above =>
        obtain rfl := Option.some.inj parent
        exact ⟨v, u, above, visited, match_, same⟩
  · rintro ⟨v, u, above, visited, match_, same⟩
    exact ⟨_, ⟨(v, u :: above), ⟨visited, match_⟩, rfl⟩, same⟩

end Tree

namespace Host

variable {h : Host σ ι ν δ} {s s' : σ}

/-- What can be seen of the tree of components is the same in two states. -/
structure SameView (h : Host σ ι ν δ) (s s' : σ) : Prop where
  nodes : h.nodes s = h.nodes s'
  nested : h.nested s = h.nested s'
  children : h.children s = h.children s'
  describe : h.describe s = h.describe s'

theorem SameView.sameTree (same : h.SameView s s') : h.SameTree s h s' :=
  ⟨same.nodes, same.nested, same.children, same.describe⟩

/-- States in which the same is seen have the same snapshots. -/
theorem SameView.snapshot (same : h.SameView s s') (i : ι) : h.snapshot s i = h.snapshot s' i :=
  same.sameTree.snapshot i

variable (h s)

/-- An instance is shown somewhere below another one. -/
def Shows (i j : ι) : Prop := ∃ q, q ≠ [] ∧ h.instanceAt s i q = some j

/-- An instance is shown below the root, or is the root. -/
def Mounted (root i : ι) : Prop := ∃ p, h.instanceAt s root p = some i

/-- An instance keeps nothing alive, and is shown below no instance that does. -/
def Free (root i : ι) : Prop :=
  (h.describe s i).wrapper ≠ .keepAlive ∧
    ∀ kept, h.Mounted s root kept → (h.describe s kept).wrapper = .keepAlive → ¬h.Shows s kept i

/-- No path of nodes below the root is so long that a snapshot would be cut. -/
def Shallow (root : ι) : Prop :=
  ∀ place node, h.nodeAt s root place = some node → place.length < depthLimit

variable {h s}

theorem Shows.trans {i j k : ι} (first : h.Shows s i j) (second : h.Shows s j k) :
    h.Shows s i k := by
  obtain ⟨p, ne, stands⟩ := first
  obtain ⟨q, _, on⟩ := second
  exact ⟨p ++ q, List.append_ne_nil_of_left_ne_nil ne q, by rw [instanceAt_append stands, on]⟩

/-- The place of an instance below the root is no longer than a snapshot goes. -/
theorem Shallow.length_le {root j : ι} (shallow : h.Shallow s root) {p : List Nat}
    (stands : h.instanceAt s root p = some j) : p.length ≤ depthLimit := by
  cases p with
  | nil => exact Nat.zero_le _
  | cons k p =>
      obtain ⟨node, reached, _⟩ := Option.bind_eq_some_iff.mp stands
      exact Nat.le_of_lt (shallow _ _ reached)

section Parents

variable [DecidableEq ι] {root : ι}

/-- A parent is mounted, and what it was found for is shown below it. -/
theorem shows_of_parent {wanted : Tree ι → Bool} {p : Parent ι}
    (found : p ∈ (h.snapshot s root).parents wanted) :
    h.Mounted s root p.handle ∧ ∃ v, wanted v = true ∧ h.Shows s p.handle v.handle ∧
      v.name = (h.describe s v.handle).displayName := by
  obtain ⟨v, u, above, visited, match_, same⟩ :=
    Tree.mem_handles_parents.mp (List.mem_map_of_mem found)
  rw [visits_snapshot] at visited
  obtain ⟨place, listed, pair⟩ := List.mem_map.mp visited
  obtain ⟨component, chain⟩ := Prod.mk.inj pair
  obtain ⟨outer, rest, enclosed, upper, _⟩ := List.map_eq_cons_iff.mp chain
  -- The parent stands at the longest place that encloses that of the component.
  obtain ⟨⟨⟨inner, whole⟩, ne⟩, stands⟩ :=
    mem_enclosing.mp (enclosed ▸ List.mem_cons_self : outer ∈ h.enclosing s root place)
  obtain ⟨i, here⟩ := Option.isSome_iff_exists.mp stands
  obtain ⟨j, there⟩ := Option.isSome_iff_exists.mp (mem_places.mp listed).2
  have handle : p.handle = i := by rw [← same, ← upper, handle_occurrence here]
  have below : v.handle = j := by rw [← component, handle_occurrence there]
  refine ⟨⟨outer, by rw [here, handle]⟩, v, match_, ⟨inner, ?_, ?_⟩, ?_⟩
  · rintro rfl
    exact ne (by rw [← whole, List.append_nil])
  · rw [handle, below, ← instanceAt_append here, whole, there]
  · rw [below, ← component, name_occurrence there]

/-- A keep-alive wrapper guards what is shown below it. -/
theorem guarded_of_shows (shallow : h.Shallow s root) {kept j : ι}
    (mounted : h.Mounted s root kept) (keeps : (h.describe s kept).wrapper = .keepAlive)
    (shows : h.Shows s kept j) :
    ((h.snapshot s root).parentsOfName (h.describe s j).displayName).any Parent.guarded = true := by
  obtain ⟨p, here⟩ := mounted
  obtain ⟨q, ne, on⟩ := shows
  have there : h.instanceAt s root (p ++ q) = some j := by rw [instanceAt_append here, on]
  have listed : p ++ q ∈ h.places s root :=
    mem_places.mpr ⟨shallow.length_le there, by rw [there]; rfl⟩
  have visited : h.visitAt s root (p ++ q) ∈ (h.snapshot s root).visits [] := by
    rw [visits_snapshot]
    exact List.mem_map_of_mem listed
  have encloses : p ∈ h.enclosing s root (p ++ q) := by
    refine mem_enclosing.mpr ⟨⟨List.prefix_append p q, fun same => ne ?_⟩, by rw [here]; rfl⟩
    exact List.self_eq_append_right.mp same
  refine Tree.guarded_of_visit visited ?_ (List.mem_map_of_mem encloses) ?_
  · rw [name_occurrence there, beq_self_eq_true]
  · rw [Tree.keepsAlive, wrapper_occurrence here, keeps]
    rfl

/-- If no parent of a name is guarded, then a mounted instance is free if a component of that name
is shown below it. -/
theorem free_of_unguarded (shallow : h.Shallow s root) {i j : ι}
    (unguarded : ((h.snapshot s root).parentsOfName (h.describe s j).displayName).any
      Parent.guarded = false)
    (mounted : h.Mounted s root i) (shows : h.Shows s i j) : h.Free s root i := by
  have spared {kept : ι} (mounted : h.Mounted s root kept)
      (keeps : (h.describe s kept).wrapper = .keepAlive) : ¬h.Shows s kept j := by
    intro below
    rw [guarded_of_shows shallow mounted keeps below] at unguarded
    cases unguarded
  exact ⟨fun keeps => spared mounted keeps shows,
    fun kept there keeps below => spared there keeps (below.trans shows)⟩

end Parents

end Host
end Component
end HotReload
