import HotReload.Proofs.Component.Ancestors

/-!
# Chains of components

A component stands in a tree at the end of a chain: the components above it, each of which directly
contains the one before it in the list (`Stands`).  The walk that looks for parents meets every
component once for each of its chains and meets no other (`mem_visits`), so a parent is guarded
exactly if a keep-alive wrapper stands above a component that is looked for
(`any_guarded_parents`).

Several components may show one instance.  Its parent is then listed once, as it was when the first
of its children was met: if all parents are one instance, the walk ends with the parent of the first
component that it met (`parents_of_one_handle`), and only the guard may have come from a later one.
-/

namespace HotReload
namespace Component
namespace Tree

variable {ι : Type}

/-- A component stands in a tree below the given ones, the nearest first. -/
inductive Stands (t : Tree ι) : Tree ι → List (Tree ι) → Prop
  | top : Stands t t []
  | child {u v : Tree ι} {above : List (Tree ι)} :
      Stands t u above → v ∈ u.children → Stands t v (u :: above)

mutual
theorem stands_of_visit {t u v : Tree ι} {above chain : List (Tree ι)} (stands : t.Stands u above)
    (visited : (v, chain) ∈ u.visits above) : t.Stands v chain := by
  cases u with
  | node name handle wrapper children =>
      rw [visits] at visited
      rcases List.mem_cons.mp visited with here | deeper
      · obtain ⟨rfl, rfl⟩ := Prod.mk.inj here
        exact stands
      · exact stands_of_visitAll children (fun child member => .child stands member) deeper

theorem stands_of_visitAll {t v : Tree ι} {above chain : List (Tree ι)} (us : List (Tree ι))
    (stands : ∀ u ∈ us, t.Stands u above) (visited : (v, chain) ∈ visitsAll above us) :
    t.Stands v chain := by
  cases us with
  | nil => simp [visitsAll] at visited
  | cons u us =>
      rw [visitsAll, List.mem_append] at visited
      rcases visited with first | later
      · exact stands_of_visit (stands u List.mem_cons_self) first
      · exact stands_of_visitAll us (fun w member => stands w (List.mem_cons_of_mem u member)) later
end

/-- The walk meets every component of a tree with each chain at whose end it stands. -/
theorem mem_visits {t v : Tree ι} {chain : List (Tree ι)} :
    (v, chain) ∈ t.visits [] ↔ t.Stands v chain := by
  refine ⟨stands_of_visit .top, fun stands => ?_⟩
  induction stands with
  | top => exact visit_self [] t
  | child _ member ih => exact visit_child [] t ih member

/-- A component that is below another one is below it with its children. -/
theorem Below.child_below {u v t : Tree ι} (below : u.Below t) (member : v ∈ u.children) :
    v.Below t := by
  induction below with
  | child first => exact .deeper first (.child member)
  | deeper first _ ih => exact .deeper first (ih member)

theorem Within.child_below {u v t : Tree ι} (within : u.Within t) (member : v ∈ u.children) :
    v.Below t := by
  rcases within with rfl | below
  · exact .child member
  · exact below.child_below member

theorem Stands.within {t v : Tree ι} {chain : List (Tree ι)} (stands : t.Stands v chain) :
    v.Within t := by
  induction stands with
  | top => exact .inl rfl
  | child _ member ih => exact .inr (ih.child_below member)

/-- The components of a chain are components of the tree that stand above its end. -/
theorem Stands.above {t u v : Tree ι} {chain : List (Tree ι)} (stands : t.Stands v chain)
    (member : u ∈ chain) : u.Within t ∧ v.Below u := by
  induction stands with
  | top => simp at member
  | child upper child ih =>
      rcases List.mem_cons.mp member with rfl | higher
      · exact ⟨upper.within, .child child⟩
      · obtain ⟨within, below⟩ := ih higher
        exact ⟨within, below.child_below child⟩

theorem exists_stands {t u : Tree ι} (within : u.Within t) : ∃ chain, t.Stands u chain := by
  obtain ⟨chain, visited⟩ := visit_of_within [] within
  exact ⟨chain, mem_visits.mp visited⟩

/-- The first component with a property that the walk meets below another one, and its chain. -/
def firstMet? (t : Tree ι) (wanted : Tree ι → Bool) : Option (Tree ι × List (Tree ι)) :=
  (t.visits []).find? fun visit => wanted visit.1 && !visit.2.isEmpty

theorem firstMet?_eq_some {t v : Tree ι} {wanted : Tree ι → Bool} {chain : List (Tree ι)}
    (met : t.firstMet? wanted = some (v, chain)) :
    t.Stands v chain ∧ wanted v = true ∧ chain ≠ [] := by
  have visited := List.mem_of_find?_eq_some met
  have found := List.find?_some met
  rw [Bool.and_eq_true, Bool.not_eq_true', List.isEmpty_eq_false_iff] at found
  exact ⟨mem_visits.mp visited, found⟩

/-- If a component that is looked for stands below another one, then one is met first. -/
theorem exists_firstMet? {t u v : Tree ι} {wanted : Tree ι → Bool} (within : u.Within t)
    (member : v ∈ u.children) (match_ : wanted v = true) :
    ∃ v u above, t.firstMet? wanted = some (v, u :: above) := by
  obtain ⟨chain, stands⟩ := exists_stands within
  have some_ : (t.firstMet? wanted).isSome := by
    rw [firstMet?, List.find?_isSome]
    exact ⟨(v, u :: chain), mem_visits.mpr (.child stands member), by simp [match_]⟩
  obtain ⟨⟨w, chain⟩, met⟩ := Option.isSome_iff_exists.mp some_
  cases chain with
  | nil => exact absurd rfl (firstMet?_eq_some met).2.2
  | cons u above => exact ⟨w, u, above, met⟩

/-- The parents of all visits in which a component that is looked for is met. -/
def parentsMet (t : Tree ι) (wanted : Tree ι → Bool) : List (Parent ι) :=
  ((t.visits []).filter (wanted ·.1)).filterMap (parentOf? ·.2)

theorem mem_parentsMet {t : Tree ι} {wanted : Tree ι → Bool} {p : Parent ι} :
    p ∈ t.parentsMet wanted ↔ ∃ v u above, t.Stands v (u :: above) ∧ wanted v = true ∧
      p = ⟨u.name, u.handle, u.wrapper, above.isEmpty, (u :: above).any keepsAlive⟩ := by
  rw [parentsMet, List.mem_filterMap]
  constructor
  · rintro ⟨⟨v, chain⟩, visited, parent⟩
    obtain ⟨visited, match_⟩ := List.mem_filter.mp visited
    cases chain with
    | nil => cases parent
    | cons u above =>
        exact ⟨v, u, above, mem_visits.mp visited, match_, (Option.some.inj parent).symm⟩
  · rintro ⟨v, u, above, stands, match_, rfl⟩
    exact ⟨(v, u :: above), List.mem_filter.mpr ⟨mem_visits.mpr stands, match_⟩, rfl⟩

/-- The first parent is that of the component which is met first. -/
theorem parentsMet_of_firstMet? {t v u : Tree ι} {wanted : Tree ι → Bool} {above : List (Tree ι)}
    (met : t.firstMet? wanted = some (v, u :: above)) :
    ∃ guarded rest, t.parentsMet wanted =
      ⟨u.name, u.handle, u.wrapper, above.isEmpty, guarded⟩ :: rest := by
  rw [firstMet?, List.find?_eq_some_iff_append] at met
  obtain ⟨found, before, after, parts, earlier⟩ := met
  have none_ : (before.filter (wanted ·.1)).filterMap (parentOf? ·.2) = [] := by
    rw [List.filterMap_eq_nil_iff]
    rintro ⟨w, chain⟩ member
    obtain ⟨visited, match_⟩ := List.mem_filter.mp member
    have apart := earlier _ visited
    cases chain with
    | nil => rfl
    | cons x chain => simp_all
  have kept : ((v, u :: above) :: after).filter (wanted ·.1) =
      (v, u :: above) :: after.filter (wanted ·.1) :=
    List.filter_cons_of_pos (Bool.and_eq_true_iff.mp found).1
  refine ⟨(u :: above).any keepsAlive, (after.filter (wanted ·.1)).filterMap (parentOf? ·.2), ?_⟩
  rw [parentsMet, parts, List.filter_append, List.filterMap_append, none_, List.nil_append, kept]
  rfl

variable [DecidableEq ι]

/-- A parent is guarded exactly if a keep-alive wrapper stands above a component that is looked
for. -/
theorem any_guarded_parents {t : Tree ι} {wanted : Tree ι → Bool} :
    (t.parents wanted).any Parent.guarded = true ↔
      ∃ kept v : Tree ι, kept.Within t ∧ kept.wrapper = .keepAlive ∧ v.Below kept ∧
        wanted v = true := by
  refine ⟨fun guarded => ?_, fun ⟨kept, v, within, keeps, below, match_⟩ =>
    guarded_of_below within keeps below match_⟩
  rw [parents, any_guarded_foldl, List.any_nil, Bool.false_or, List.any_eq_true] at guarded
  obtain ⟨p, member, guards⟩ := guarded
  obtain ⟨v, u, above, stands, match_, rfl⟩ := mem_parentsMet.mp member
  obtain ⟨kept, there, keeps⟩ := List.any_eq_true.mp guards
  obtain ⟨within, below⟩ := stands.above there
  exact ⟨kept, v, within, eq_of_beq keeps, below, match_⟩

/-- Parents that are one instance are listed as the first of them. -/
theorem foldl_addParent_of_one {p : Parent ι} {ps : List (Parent ι)}
    (same : ∀ q ∈ ps, q.handle = p.handle) :
    ∃ guarded, ps.foldl (fun found q => addParent q found) [p] = [{ p with guarded }] := by
  induction ps generalizing p with
  | nil => exact ⟨p.guarded, rfl⟩
  | cons q ps ih =>
      have merged : addParent q [p] = [{ p with guarded := p.guarded || q.guarded }] := by
        rw [addParent, if_pos (same q List.mem_cons_self).symm]
      rw [List.foldl_cons, merged]
      exact ih fun r member => same r (List.mem_cons_of_mem q member)

/-- If all parents are one instance, then one parent is found: that of the component which is met
first. -/
theorem parents_of_one_handle {t v u : Tree ι} {wanted : Tree ι → Bool} {above : List (Tree ι)}
    {i : ι} (same : ∀ u v : Tree ι, u.Within t → v ∈ u.children → wanted v = true → u.handle = i)
    (met : t.firstMet? wanted = some (v, u :: above)) :
    ∃ guarded, t.parents wanted = [⟨u.name, u.handle, u.wrapper, above.isEmpty, guarded⟩] := by
  have handle (p : Parent ι) (member : p ∈ t.parentsMet wanted) : p.handle = i := by
    obtain ⟨w, x, chain, stands, match_, rfl⟩ := mem_parentsMet.mp member
    cases stands with
    | child upper child => exact same x w upper.within child match_
  obtain ⟨guarded, rest, listed⟩ := parentsMet_of_firstMet? met
  rw [listed] at handle
  have first : u.handle = i := handle _ List.mem_cons_self
  change ∃ guarded, (t.parentsMet wanted).foldl _ [] = _
  rw [listed]
  exact foldl_addParent_of_one fun q member =>
    (handle q (List.mem_cons_of_mem _ member)).trans first.symm

end Tree
end Component
end HotReload
