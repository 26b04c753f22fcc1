import HotReload.Component.Parent

/-!
# What stands above a component

A component stands below another one if it is a child of it or of a component below it (`Below`).
The walk that looks for parents meets every component of a tree, each time with the components above
it (`visit_of_below`), so a keep-alive wrapper above a component that is looked for guards one of
the parents that are found, in whatever order they are met and however often they are merged
(`guarded_of_below`).
-/

namespace HotReload
namespace Component
namespace Tree

variable {ι : Type}

/-- A component stands below another one. -/
inductive Below : Tree ι → Tree ι → Prop
  | child {t u : Tree ι} : u ∈ t.children → Below u t
  | deeper {t u v : Tree ι} : u ∈ t.children → Below v u → Below v t

/-- A component is the topmost one of a tree or stands below it. -/
def Within (u t : Tree ι) : Prop := u = t ∨ Below u t

/-- The topmost component is visited. -/
theorem visit_self (above : List (Tree ι)) (t : Tree ι) : (t, above) ∈ t.visits above := by
  cases t with
  | node name handle wrapper children =>
      rw [visits]
      exact List.mem_cons_self

/-- The topmost component of each of several trees is visited. -/
theorem visitAll_self (above : List (Tree ι)) {t : Tree ι} {ts : List (Tree ι)} (h : t ∈ ts) :
    (t, above) ∈ visitsAll above ts := by
  induction ts with
  | nil => simp at h
  | cons u ts ih =>
      rw [visitsAll, List.mem_append]
      rcases List.mem_cons.mp h with rfl | later
      · exact .inl (visit_self above t)
      · exact .inr (ih later)

mutual
/-- With a component its children are visited. -/
theorem visit_child (above : List (Tree ι)) (t : Tree ι) {u v : Tree ι} {chain : List (Tree ι)}
    (h : (u, chain) ∈ t.visits above) (child : v ∈ u.children) :
    (v, u :: chain) ∈ t.visits above := by
  cases t with
  | node name handle wrapper children =>
      rw [visits] at h ⊢
      refine List.mem_cons_of_mem _ ?_
      rcases List.mem_cons.mp h with here | deeper
      · obtain ⟨rfl, rfl⟩ := Prod.mk.inj here
        exact visitAll_self _ child
      · exact visitAll_child _ children deeper child

/-- With a component of several trees its children are visited. -/
theorem visitAll_child (above ts : List (Tree ι)) {u v : Tree ι} {chain : List (Tree ι)}
    (h : (u, chain) ∈ visitsAll above ts) (child : v ∈ u.children) :
    (v, u :: chain) ∈ visitsAll above ts := by
  cases ts with
  | nil => simp [visitsAll] at h
  | cons t ts =>
      rw [visitsAll, List.mem_append] at h ⊢
      rcases h with first | later
      · exact .inl (visit_child above t first child)
      · exact .inr (visitAll_child above ts later child)
end

/-- With a component all those below it are visited, and the component stands above them. -/
theorem visit_below {t u v : Tree ι} {above chain : List (Tree ι)} (below : Below v u)
    (h : (u, chain) ∈ t.visits above) :
    ∃ chain', (v, chain') ∈ t.visits above ∧ (u :: chain) <:+ chain' := by
  induction below generalizing chain with
  | child member => exact ⟨_, visit_child above t h member, List.suffix_refl _⟩
  | @deeper w x _ member _ ih =>
      obtain ⟨chain', visited, suffix⟩ := ih (visit_child above t h member)
      exact ⟨chain', visited, (List.suffix_cons x (w :: chain)).trans suffix⟩

/-- Every component of a tree is visited. -/
theorem visit_of_within {t u : Tree ι} (above : List (Tree ι)) (h : u.Within t) :
    ∃ chain, (u, chain) ∈ t.visits above := by
  rcases h with rfl | below
  · exact ⟨above, visit_self above u⟩
  · obtain ⟨chain, visited, _⟩ := visit_below below (visit_self above t)
    exact ⟨chain, visited⟩

/-- A component below another one is visited with that one above it. -/
theorem visit_of_below {t u v : Tree ι} (above : List (Tree ι)) (within : u.Within t)
    (below : v.Below u) : ∃ chain, (v, chain) ∈ t.visits above ∧ u ∈ chain := by
  obtain ⟨chain, visited⟩ := visit_of_within above within
  obtain ⟨chain', visited', suffix⟩ := visit_below below visited
  exact ⟨chain', visited', suffix.subset List.mem_cons_self⟩

/-- Adding a parent guards what it guards, whether it is new or merged. -/
theorem any_guarded_addParent [DecidableEq ι] (p : Parent ι) (ps : List (Parent ι)) :
    (addParent p ps).any Parent.guarded = (p.guarded || ps.any Parent.guarded) := by
  induction ps with
  | nil => simp [addParent]
  | cons q ps ih =>
      rw [addParent]
      split
      · cases p.guarded <;> simp
      · rw [List.any_cons, List.any_cons, ih, Bool.or_left_comm]

theorem any_guarded_foldl [DecidableEq ι] (found ps : List (Parent ι)) :
    (ps.foldl (fun found p => addParent p found) found).any Parent.guarded =
      (found.any Parent.guarded || ps.any Parent.guarded) := by
  induction ps generalizing found with
  | nil => simp
  | cons p ps ih =>
      rw [List.foldl_cons, ih, any_guarded_addParent, List.any_cons]
      cases p.guarded <;> simp

/-- One of the parents is guarded if a keep-alive wrapper stands above a component that is looked
for. -/
theorem guarded_of_visit [DecidableEq ι] {t v kept : Tree ι} {chain : List (Tree ι)}
    {wanted : Tree ι → Bool} (visited : (v, chain) ∈ t.visits []) (match_ : wanted v = true)
    (above : kept ∈ chain) (keeps : kept.keepsAlive = true) :
    (t.parents wanted).any Parent.guarded = true := by
  have any : chain.any keepsAlive = true := List.any_eq_true.mpr ⟨kept, above, keeps⟩
  rw [parents, any_guarded_foldl, List.any_nil, Bool.false_or, List.any_eq_true]
  cases chain with
  | nil => simp at above
  | cons u rest =>
      refine ⟨_, List.mem_filterMap.mpr ⟨(v, u :: rest), ?_, rfl⟩, any⟩
      exact List.mem_filter.mpr ⟨visited, match_⟩

/-- Wherever in a tree a keep-alive wrapper stands above a component that is looked for, one of the
parents is guarded. -/
theorem guarded_of_below [DecidableEq ι] {t kept v : Tree ι} {wanted : Tree ι → Bool}
    (within : kept.Within t) (keeps : kept.wrapper = .keepAlive) (below : v.Below kept)
    (match_ : wanted v = true) : (t.parents wanted).any Parent.guarded = true := by
  obtain ⟨chain, visited, above⟩ := visit_of_below [] within below
  exact guarded_of_visit visited match_ above (by rw [keepsAlive, keeps]; rfl)

end Tree
end Component
end HotReload
