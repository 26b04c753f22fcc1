import HotReload.Component.Parent
import Mathlib.Data.List.Infix

/-!
# Places in the rendered output

A place is a path through the nodes that are rendered below an instance: its first number picks one
of the nodes that the instance rendered, and every further one picks a node one step below the last,
that is, a child of a plain node or a node rendered by the instance that the last node holds.  So
the length of a place is the number of nodes on the path.  The instance itself stands at the empty
place.

The snapshot of an instance has one component for each place of at most `depthLimit` numbers at
which an instance stands, and no other (`Host.snapshot_of_places`).  Its components are met in the
order of their places, and above each of them stand those at the shorter places on the way to it.
Nothing is assumed of the host: its graph may be cyclic.
-/

namespace HotReload
namespace Component
namespace Host

variable {σ ι ν δ : Type} (h : Host σ ι ν δ) (s : σ)

/-- The nodes one step below a node. -/
def below (node : ν) : List ν :=
  match h.nested s node with
  | some i => h.nodes s i
  | none => h.children s node

/-- The node that is reached from a node by picking one a step below for each number. -/
def nodeFrom : ν → List Nat → Option ν
  | node, [] => some node
  | node, k :: place => (h.below s node)[k]?.bind (nodeFrom · place)

/-- The node at a place below an instance. -/
def nodeAt (i : ι) : List Nat → Option ν
  | [] => none
  | k :: place => (h.nodes s i)[k]?.bind (h.nodeFrom s · place)

/-- The instance at a place below an instance. -/
def instanceAt (i : ι) : List Nat → Option ι
  | [] => some i
  | k :: place => (h.nodeAt s i (k :: place)).bind (h.nested s)

/-- The shorter places on the way to a place at which instances stand, the longest first. -/
def enclosing (root : ι) (place : List Nat) : List (List Nat) :=
  place.inits.reverse.tail.filter fun shorter => (h.instanceAt s root shorter).isSome

theorem nodeFrom_append (node : ν) (p q : List Nat) :
    h.nodeFrom s node (p ++ q) = (h.nodeFrom s node p).bind (h.nodeFrom s · q) := by
  induction p generalizing node with
  | nil => rfl
  | cons k p ih =>
      rw [List.cons_append, nodeFrom, nodeFrom, Option.bind_assoc]
      exact congrArg _ (funext fun next => ih next)

variable {h s}

theorem below_of_nested {node : ν} {i : ι} (nested : h.nested s node = some i) :
    h.below s node = h.nodes s i := by
  rw [below, nested]

theorem below_of_plain {node : ν} (plain : h.nested s node = none) :
    h.below s node = h.children s node := by
  rw [below, plain]

/-- One step on from a place. -/
theorem nodeAt_snoc {i : ι} {place : List Nat} {k : Nat} {node next : ν}
    (reached : h.nodeAt s i place = some node) (step : (h.below s node)[k]? = some next) :
    h.nodeAt s i (place ++ [k]) = some next := by
  cases place with
  | nil => cases reached
  | cons l place =>
      obtain ⟨first, picked, on⟩ := Option.bind_eq_some_iff.mp reached
      rw [List.cons_append, nodeAt, picked, Option.bind_some, nodeFrom_append, on, Option.bind_some,
        nodeFrom, step, Option.bind_some, nodeFrom]

theorem instanceAt_of_nodeAt {i : ι} {place : List Nat} {node : ν}
    (reached : h.nodeAt s i place = some node) :
    h.instanceAt s i place = h.nested s node := by
  cases place with
  | nil => cases reached
  | cons k place => rw [instanceAt, reached, Option.bind_some]

/-- The way on from an instance is the same wherever it stands. -/
theorem nodeAt_append {i j : ι} {p : List Nat} (stands : h.instanceAt s i p = some j) {q : List Nat}
    (ne : q ≠ []) : h.nodeAt s i (p ++ q) = h.nodeAt s j q := by
  cases p with
  | nil =>
      obtain rfl := Option.some.inj stands
      rfl
  | cons k p =>
      cases q with
      | nil => exact absurd rfl ne
      | cons l q =>
          obtain ⟨node, reached, nested⟩ := Option.bind_eq_some_iff.mp stands
          obtain ⟨first, picked, on⟩ := Option.bind_eq_some_iff.mp reached
          rw [List.cons_append, nodeAt, picked, Option.bind_some, nodeFrom_append, on,
            Option.bind_some, nodeFrom, below_of_nested nested, nodeAt]

theorem instanceAt_append {i j : ι} {p : List Nat} (stands : h.instanceAt s i p = some j)
    (q : List Nat) : h.instanceAt s i (p ++ q) = h.instanceAt s j q := by
  cases q with
  | nil =>
      rw [List.append_nil]
      exact stands
  | cons l q =>
      have on := nodeAt_append stands (List.cons_ne_nil l q)
      rw [instanceAt, ← on]
      cases p with
      | nil => rfl
      | cons k p => rfl

/-- The shorter places on the way to a place one step on. -/
theorem shorter_snoc (place : List Nat) (k : Nat) :
    (place ++ [k]).inits.reverse.tail = place.inits.reverse := by
  simp [List.inits_append]

/-- What encloses a place one step on: also the instance at the place, if there is one. -/
theorem enclosing_snoc (root : ι) (place : List Nat) (k : Nat) :
    h.enclosing s root (place ++ [k]) =
      if (h.instanceAt s root place).isSome then place :: h.enclosing s root place
      else h.enclosing s root place := by
  have longest : place.inits.reverse = place :: place.inits.reverse.tail := by
    cases place using List.reverseRecOn with
    | nil => rfl
    | append_singleton place l => simp [List.inits_append]
  rw [enclosing, shorter_snoc, longest, List.filter_cons]
  rfl

theorem mem_enclosing {root : ι} {p q : List Nat} :
    p ∈ h.enclosing s root q ↔ (p <+: q ∧ p ≠ q) ∧ (h.instanceAt s root p).isSome := by
  rw [enclosing, List.mem_filter]
  refine and_congr_left fun _ => ?_
  cases q using List.reverseRecOn with
  | nil =>
      simp only [List.inits, List.reverse_singleton, List.tail_cons, List.not_mem_nil, false_iff]
      rintro ⟨shorter, ne⟩
      exact ne (List.prefix_nil.mp shorter)
  | append_singleton q k =>
      rw [shorter_snoc, List.mem_reverse, List.mem_inits]
      constructor
      · intro early
        refine ⟨early.trans (List.prefix_append q [k]), ?_⟩
        rintro rfl
        have short := early.length_le
        rw [List.length_append, List.length_singleton] at short
        omega
      · rintro ⟨early, ne⟩
        rcases List.prefix_concat_iff.mp early with whole | early
        · exact absurd whole ne
        · exact early

/-- Depth-first order: a place comes before those that it leads to, and before those that turn off
to a later node. -/
abbrev Earlier (p q : List Nat) : Prop := List.Lex (· < ·) p q

/-- Places that start from each of several nodes, behind the number of the node. -/
def branches (places : ν → List (List Nat)) (nodes : List ν) : List (List Nat) :=
  nodes.zipIdx.flatMap fun (node, k) => (places node).map (k :: ·)

theorem mem_branches {places : ν → List (List Nat)} {nodes : List ν} {p : List Nat} :
    p ∈ branches places nodes ↔
      ∃ k node q, nodes[k]? = some node ∧ q ∈ places node ∧ k :: q = p := by
  simp only [branches, List.mem_flatMap, List.mem_map, Prod.exists, List.mem_zipIdx_iff_getElem?]
  constructor
  · rintro ⟨node, k, picked, q, listed, same⟩
    exact ⟨k, node, q, picked, listed, same⟩
  · rintro ⟨k, node, q, picked, listed, same⟩
    exact ⟨node, k, picked, q, listed, same⟩

theorem earlier_branches {places : ν → List (List Nat)} {nodes : List ν}
    (each : ∀ node, (places node).Pairwise Earlier) :
    (branches places nodes).Pairwise Earlier := by
  have numbered : nodes.zipIdx.Pairwise fun a b => a.2 < b.2 := by
    rw [← List.pairwise_map (f := Prod.snd), List.zipIdx_map_snd]
    exact List.pairwise_lt_range'
  rw [branches, List.pairwise_flatMap]
  refine ⟨fun a _ => ?_, numbered.imp fun before p hp q hq => ?_⟩
  · rw [List.pairwise_map]
    exact (each a.1).imp .cons
  · obtain ⟨p, _, rfl⟩ := List.mem_map.mp hp
    obtain ⟨q, _, rfl⟩ := List.mem_map.mp hq
    exact .rel before

variable (h s)

/-- The place of the node itself, if it holds an instance. -/
def ownPlace (node : ν) : List (List Nat) := if (h.nested s node).isSome then [[]] else []

/-- The places at or below a node, at most `n` numbers long, at which instances stand. -/
def placesFrom : Nat → ν → List (List Nat)
  | 0, node => h.ownPlace s node
  | n + 1, node => h.ownPlace s node ++ branches (placesFrom n) (h.below s node)

/-- The places below an instance at which a snapshot has components. -/
def places (root : ι) : List (List Nat) :=
  [] :: branches (h.placesFrom s (depthLimit - 1)) (h.nodes s root)

variable {h s}

theorem mem_ownPlace {node : ν} {p : List Nat} :
    p ∈ h.ownPlace s node ↔ p = [] ∧ (h.nested s node).isSome := by
  unfold ownPlace
  split
  · rename_i held
    simp [held]
  · rename_i held
    simp [held]

theorem mem_placesFrom {n : Nat} {node : ν} {p : List Nat} :
    p ∈ h.placesFrom s n node ↔
      p.length ≤ n ∧ ((h.nodeFrom s node p).bind (h.nested s)).isSome := by
  induction n generalizing node p with
  | zero =>
      rw [placesFrom, mem_ownPlace]
      cases p with
      | nil => simp [nodeFrom]
      | cons k p => simp
  | succ n ih =>
      rw [placesFrom, List.mem_append, mem_ownPlace, mem_branches]
      cases p with
      | nil => simp [nodeFrom]
      | cons k p =>
          rw [nodeFrom]
          cases picked : (h.below s node)[k]? with
          | none => simp [picked]
          | some next => simp [picked, ih]

theorem earlier_placesFrom (n : Nat) (node : ν) : (h.placesFrom s n node).Pairwise Earlier := by
  have own (node : ν) : (h.ownPlace s node).Pairwise Earlier := by
    unfold ownPlace
    split
    · exact List.pairwise_singleton _ _
    · exact .nil
  induction n generalizing node with
  | zero => exact own node
  | succ n ih =>
      rw [placesFrom, List.pairwise_append]
      refine ⟨own node, earlier_branches ih, fun p hp q hq => ?_⟩
      obtain ⟨rfl, _⟩ := mem_ownPlace.mp hp
      obtain ⟨k, next, rest, _, _, rfl⟩ := mem_branches.mp hq
      exact .nil

/-- Listed are the places of at most `depthLimit` numbers at which instances stand. -/
theorem mem_places {root : ι} {p : List Nat} :
    p ∈ h.places s root ↔ p.length ≤ depthLimit ∧ (h.instanceAt s root p).isSome := by
  rw [places, List.mem_cons, mem_branches]
  cases p with
  | nil => simp [instanceAt]
  | cons k p =>
      rw [instanceAt, nodeAt]
      cases picked : (h.nodes s root)[k]? with
      | none => simp [picked]
      | some node =>
          have bound : p.length ≤ depthLimit - 1 ↔ p.length + 1 ≤ depthLimit := by
            have limit : depthLimit = 256 := rfl
            omega
          simp [picked, mem_placesFrom, bound]

theorem earlier_places (root : ι) : (h.places s root).Pairwise Earlier := by
  rw [places, List.pairwise_cons]
  refine ⟨fun p hp => ?_, earlier_branches (earlier_placesFrom _)⟩
  obtain ⟨k, next, rest, _, _, rfl⟩ := mem_branches.mp hp
  exact .nil

variable (h s)

/-- The tree of an instance from where the walk goes at most `n` nodes deeper. -/
def grown : Nat → ι → Tree ι
  | 0, i => h.treeOf s i []
  | n + 1, i => h.treeOf s i ((h.nodes s i).flatMap (h.collect s n))

/-- The component that a snapshot has at a place. -/
def occurrence (root : ι) (place : List Nat) : Tree ι :=
  h.grown s (depthLimit - place.length) ((h.instanceAt s root place).getD root)

/-- A visit of the component at a place, with those that enclose it above it. -/
def visitAt (root : ι) (place : List Nat) : Tree ι × List (Tree ι) :=
  (h.occurrence s root place, (h.enclosing s root place).map (h.occurrence s root))

variable {h s}

section Described

variable {root i : ι} {place : List Nat} (stands : h.instanceAt s root place = some i)

include stands

theorem handle_occurrence : (h.occurrence s root place).handle = i := by
  rw [occurrence, stands, Option.getD_some]
  cases depthLimit - place.length <;> rfl

theorem name_occurrence :
    (h.occurrence s root place).name = (h.describe s i).displayName := by
  rw [occurrence, stands, Option.getD_some]
  cases depthLimit - place.length <;> rfl

theorem wrapper_occurrence :
    (h.occurrence s root place).wrapper = (h.describe s i).wrapper := by
  rw [occurrence, stands, Option.getD_some]
  cases depthLimit - place.length <;> rfl

end Described

theorem collect_of_nested {node : ν} {i : ι} (nested : h.nested s node = some i) (n : Nat) :
    h.collect s n node = [h.grown s n i] := by
  cases n with
  | zero => rw [collect, nested, grown]
  | succ n => rw [collect, nested, grown]

theorem collect_of_plain {node : ν} (plain : h.nested s node = none) (n : Nat) :
    h.collect s (n + 1) node = (h.children s node).flatMap (h.collect s n) := by
  rw [collect, plain]

theorem visits_grown_zero (i : ι) (above : List (Tree ι)) :
    (h.grown s 0 i).visits above = [(h.grown s 0 i, above)] := rfl

theorem visits_grown_succ (n : Nat) (i : ι) (above : List (Tree ι)) :
    (h.grown s (n + 1) i).visits above = (h.grown s (n + 1) i, above) ::
      Tree.visitsAll (h.grown s (n + 1) i :: above) ((h.nodes s i).flatMap (h.collect s n)) := rfl

theorem visitsAll_append (above ts us : List (Tree ι)) :
    Tree.visitsAll above (ts ++ us) = Tree.visitsAll above ts ++ Tree.visitsAll above us := by
  induction ts with
  | nil => rfl
  | cons t ts ih => rw [List.cons_append, Tree.visitsAll, ih, Tree.visitsAll, List.append_assoc]

theorem visitsAll_flatMap {α : Type} (above : List (Tree ι)) (f : α → List (Tree ι)) (xs : List α) :
    Tree.visitsAll above (xs.flatMap f) = xs.flatMap fun x => Tree.visitsAll above (f x) := by
  induction xs with
  | nil => rfl
  | cons x xs ih => rw [List.flatMap_cons, visitsAll_append, ih, List.flatMap_cons]

/-- If the components of each of several nodes are visited in the order of their places, then so are
those of all of them. -/
theorem visitsAll_branches {root : ι} {place : List Nat} {above : List (Tree ι)} {nodes : List ν}
    {trees : ν → List (Tree ι)} {places : ν → List (List Nat)}
    (each : ∀ k node, nodes[k]? = some node → Tree.visitsAll above (trees node) =
      (places node).map fun q => h.visitAt s root (place ++ [k] ++ q)) :
    Tree.visitsAll above (nodes.flatMap trees) =
      (branches places nodes).map fun q => h.visitAt s root (place ++ q) := by
  have numbered : nodes.flatMap trees = nodes.zipIdx.flatMap fun a => trees a.1 := by
    rw [← List.flatMap_map (f := Prod.fst), List.zipIdx_map_fst]
  rw [numbered, visitsAll_flatMap, branches, List.map_flatMap]
  refine List.flatMap_congr fun a ha => ?_
  rw [each a.2 a.1 (List.mem_zipIdx_iff_getElem?.mp ha), List.map_map]
  simp only [Function.comp_def, List.append_assoc, List.singleton_append]

/-- The components at or below a node are visited in the order of their places. -/
theorem visitsAll_collect {root : ι} {n : Nat} {node : ν} {place : List Nat}
    (left : place.length + n = depthLimit) (reached : h.nodeAt s root place = some node) :
    Tree.visitsAll ((h.enclosing s root place).map (h.occurrence s root)) (h.collect s n node) =
      (h.placesFrom s n node).map fun q => h.visitAt s root (place ++ q) := by
  -- The induction is on how much deeper the walk goes; the place grows by what it has gone.
  induction n generalizing node place with
  | zero =>
      rw [placesFrom, ownPlace]
      cases nested : h.nested s node with
      | none =>
          rw [collect, nested]
          rfl
      | some i =>
          have here : h.occurrence s root place = h.grown s 0 i := by
            rw [occurrence, instanceAt_of_nodeAt reached, nested, ← left, Nat.add_zero,
              Nat.sub_self, Option.getD_some]
          rw [collect_of_nested nested, ← here]
          simp [Tree.visitsAll, visitAt, here, visits_grown_zero]
  | succ n ih =>
      have deeper (k : Nat) (next : ν) (step : (h.below s node)[k]? = some next) :=
        ih (by rw [List.length_append, List.length_singleton]; omega) (nodeAt_snoc reached step)
      rw [placesFrom, ownPlace]
      cases nested : h.nested s node with
      | none =>
          rw [collect_of_plain nested, ← below_of_plain nested]
          simp only [enclosing_snoc, instanceAt_of_nodeAt reached, nested] at deeper
          exact visitsAll_branches deeper
      | some i =>
          have here : h.occurrence s root place = h.grown s (n + 1) i := by
            rw [occurrence, instanceAt_of_nodeAt reached, nested, ← left, Nat.add_sub_cancel_left,
              Option.getD_some]
          simp only [enclosing_snoc, instanceAt_of_nodeAt reached, nested, Option.isSome_some,
            if_true, List.map_cons, here] at deeper
          rw [below_of_nested nested] at deeper ⊢
          rw [collect_of_nested nested, Tree.visitsAll, visits_grown_succ,
            visitsAll_branches deeper]
          simp [Tree.visitsAll, visitAt, here]

/-- The components of a snapshot are visited in the order of their places. -/
theorem visits_snapshot (root : ι) :
    (h.snapshot s root).visits [] = (h.places s root).map (h.visitAt s root) := by
  have top : h.snapshot s root = h.occurrence s root [] := rfl
  have below (k : Nat) (node : ν) (picked : (h.nodes s root)[k]? = some node) :
      Tree.visitsAll [h.snapshot s root] (h.collect s (depthLimit - 1) node) =
        (h.placesFrom s (depthLimit - 1) node).map fun q => h.visitAt s root ([] ++ [k] ++ q) := by
    have reached : h.nodeAt s root ([] ++ [k]) = some node := by
      simp [nodeAt, picked, nodeFrom]
    have all := visitsAll_collect (n := depthLimit - 1) rfl reached
    rwa [enclosing_snoc] at all
  have rest := visitsAll_branches below
  rw [places, List.map_cons]
  exact congrArg (h.visitAt s root [] :: ·) rest

variable (h s)

/-- The snapshot of an instance, in whatever graph, has one component for each place of at most
`depthLimit` numbers at which an instance stands, with the name and the role of that instance.  The
components are visited in depth-first order of the places; above each of them stand those at the
places that enclose its own. -/
theorem snapshot_of_places (root : ι) :
    ∃ (places : List (List Nat)) (component : List Nat → Tree ι),
      places.Pairwise Earlier ∧
      (∀ p, p ∈ places ↔ p.length ≤ depthLimit ∧ (h.instanceAt s root p).isSome) ∧
      (h.snapshot s root).visits [] =
        places.map (fun p => (component p, (h.enclosing s root p).map component)) ∧
      ∀ p ∈ places, ∃ i, h.instanceAt s root p = some i ∧ (component p).handle = i ∧
        (component p).name = (h.describe s i).displayName ∧
        (component p).wrapper = (h.describe s i).wrapper := by
  refine ⟨h.places s root, h.occurrence s root, earlier_places root, fun p => mem_places,
    visits_snapshot root, fun p listed => ?_⟩
  obtain ⟨i, stands⟩ := Option.isSome_iff_exists.mp (mem_places.mp listed).2
  exact ⟨i, stands, handle_occurrence stands, name_occurrence stands, wrapper_occurrence stands⟩

end Host
end Component
end HotReload
