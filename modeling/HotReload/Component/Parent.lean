import HotReload.Component.Tree

/-!
# Parents in a tree

To change what is rendered for a component, its parents have to render again.  The parents of all
components with a property are found by visiting the tree from the top, each instance once, in the
order in which the first of its children is met.

A parent is guarded if a keep-alive wrapper stands above one of those children, at whatever height.
-/

namespace HotReload
namespace Component

/-- An instance that directly contains a component that was looked for. -/
structure Parent (ι : Type) where
  name : String
  handle : ι
  wrapper : Wrapper
  /-- The parent is the topmost component. -/
  isRoot : Bool
  /-- A keep-alive wrapper stands above a child that was looked for. -/
  guarded : Bool
  deriving DecidableEq, Repr

namespace Tree

variable {ι : Type}

mutual
/-- Every component of a tree with the components above it, the nearest first; those of `above`
stand above the tree. -/
def visits (above : List (Tree ι)) : Tree ι → List (Tree ι × List (Tree ι))
  | .node name handle wrapper children =>
    let t := .node name handle wrapper children
    (t, above) :: visitsAll (t :: above) children

/-- The visits of several trees, in order. -/
def visitsAll (above : List (Tree ι)) : List (Tree ι) → List (Tree ι × List (Tree ι))
  | [] => []
  | t :: ts => t.visits above ++ visitsAll above ts
end

mutual
/-- Every component is visited once. -/
theorem length_visits (above : List (Tree ι)) (t : Tree ι) :
    (t.visits above).length = t.count := by
  cases t with
  | node name handle wrapper children =>
    simp [visits, count, length_visitsAll, Nat.add_comm]

/-- Every component of several trees is visited once. -/
theorem length_visitsAll (above ts : List (Tree ι)) :
    (visitsAll above ts).length = countAll ts := by
  cases ts with
  | nil => rfl
  | cons t ts => simp [visitsAll, countAll, length_visits, length_visitsAll]
end

/-- Whether a component keeps its content alive. -/
def keepsAlive (t : Tree ι) : Bool := t.wrapper == .keepAlive

/-- The parent that a list of components above a child, the nearest first, begins with. -/
def parentOf? : List (Tree ι) → Option (Parent ι)
  | [] => none
  | t :: above =>
    some ⟨t.name, t.handle, t.wrapper, above.isEmpty, (t :: above).any keepsAlive⟩

/-- Parents with one more: an instance that is already there only becomes guarded. -/
def addParent [DecidableEq ι] (p : Parent ι) : List (Parent ι) → List (Parent ι)
  | [] => [p]
  | q :: qs =>
    if q.handle = p.handle then { q with guarded := q.guarded || p.guarded } :: qs
    else q :: addParent p qs

/-- A parent that is there is not added again, a new one comes last. -/
theorem handles_addParent [DecidableEq ι] (p : Parent ι) (ps : List (Parent ι)) :
    (addParent p ps).map Parent.handle =
      if p.handle ∈ ps.map Parent.handle then ps.map Parent.handle
      else ps.map Parent.handle ++ [p.handle] := by
  induction ps with
  | nil => simp [addParent]
  | cons q qs ih =>
    by_cases h : q.handle = p.handle
    · simp [addParent, h]
    · have h' : p.handle ≠ q.handle := fun e => h e.symm
      by_cases m : p.handle ∈ qs.map Parent.handle <;> simp_all [addParent]

/-- No instance is listed twice after a parent has been added. -/
theorem nodup_addParent [DecidableEq ι] {p : Parent ι} {ps : List (Parent ι)}
    (h : (ps.map Parent.handle).Nodup) : ((addParent p ps).map Parent.handle).Nodup := by
  rw [handles_addParent]
  by_cases m : p.handle ∈ ps.map Parent.handle
  · rw [if_pos m]
    exact h
  · rw [if_neg m, List.nodup_append]
    refine ⟨h, List.nodup_cons.2 ⟨by simp, List.nodup_nil⟩, ?_⟩
    intro a ha b hb e
    rw [List.mem_singleton] at hb
    exact m (hb ▸ e ▸ ha)

/-- The parents of the components with a property, each instance once. -/
def parents [DecidableEq ι] (t : Tree ι) (wanted : Tree ι → Bool) : List (Parent ι) :=
  (((t.visits []).filter (wanted ·.1)).filterMap (parentOf? ·.2)).foldl
    (fun found p => addParent p found) []

/-- No instance is listed twice. -/
theorem nodup_parents [DecidableEq ι] (t : Tree ι) (wanted : Tree ι → Bool) :
    ((t.parents wanted).map Parent.handle).Nodup := by
  have fold (found ps : List (Parent ι)) (h : (found.map Parent.handle).Nodup) :
      ((ps.foldl (fun found p => addParent p found) found).map Parent.handle).Nodup := by
    induction ps generalizing found with
    | nil => exact h
    | cons p ps ih => exact ih _ (nodup_addParent h)
  exact fold [] _ List.nodup_nil

/-- The parents of the components of a name. -/
def parentsOfName [DecidableEq ι] (t : Tree ι) (name : String) : List (Parent ι) :=
  t.parents (·.name == name)

/-- The parents of the components that are a given instance. -/
def parentsOfHandle [DecidableEq ι] (t : Tree ι) (handle : ι) : List (Parent ι) :=
  t.parents fun u => decide (u.handle = handle)

end Tree
end Component
end HotReload
