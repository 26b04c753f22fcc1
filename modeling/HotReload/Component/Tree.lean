import HotReload.Component.Host

/-!
# Snapshots of the component tree

A snapshot is a tree of component instances.  It is taken by following rendered nodes from an
instance down; plain nodes are passed through, so each component hangs under the nearest component
above it.

The host's graph may be cyclic.  The walk therefore stops after `depthLimit` nodes on a path: an
instance held by the last node is still recorded, but nothing below it.
-/

namespace HotReload
namespace Component

/-- A component instance with the components that it renders. -/
inductive Tree (ι : Type) where
  | node (name : String) (handle : ι) (wrapper : Wrapper) (children : List (Tree ι))

namespace Tree

variable {ι : Type}

/-- The name of the topmost component. -/
def name : Tree ι → String
  | .node name _ _ _ => name

/-- The instance of the topmost component. -/
def handle : Tree ι → ι
  | .node _ handle _ _ => handle

/-- The role of the topmost component. -/
def wrapper : Tree ι → Wrapper
  | .node _ _ wrapper _ => wrapper

/-- The trees below the topmost component. -/
def children : Tree ι → List (Tree ι)
  | .node _ _ _ children => children

mutual
/-- The number of components. -/
def count : Tree ι → Nat
  | .node _ _ _ children => 1 + countAll children

/-- The number of components of several trees. -/
def countAll : List (Tree ι) → Nat
  | [] => 0
  | t :: ts => t.count + countAll ts
end

end Tree

/-- The greatest number of nodes on a path of the walk. -/
def depthLimit : Nat := 256

/-- A place where the walk stopped. -/
inductive Cut where
  /-- At the component of the given name. -/
  | component (name : String)
  /-- At a plain node. -/
  | plain
  deriving DecidableEq, Repr

/-- The wording of a cut. -/
def Cut.message : Cut → String
  | .component name => "snapshot depth limit reached at " ++ name
  | .plain => "snapshot depth limit reached in rendered output"

namespace Host

variable {σ ι ν δ : Type} (h : Host σ ι ν δ) (s : σ)

/-- The tree of an instance over the given subtrees. -/
def treeOf (i : ι) (children : List (Tree ι)) : Tree ι :=
  let d := h.describe s i
  .node d.displayName i d.wrapper children

/-- The trees of the nearest components at or below a node, from where the walk goes at most `n`
nodes deeper. -/
def collect : Nat → ν → List (Tree ι)
  | 0, node =>
    match h.nested s node with
    | some i => [h.treeOf s i []]
    | none => []
  | n + 1, node =>
    match h.nested s node with
    | some i => [h.treeOf s i ((h.nodes s i).flatMap (collect n))]
    | none => (h.children s node).flatMap (collect n)

/-- The places where the walk stops at or below a node. -/
def cutsBelow : Nat → ν → List Cut
  | 0, node =>
    match h.nested s node with
    | some i => [.component (h.describe s i).displayName]
    | none => [.plain]
  | n + 1, node =>
    match h.nested s node with
    | some i => (h.nodes s i).flatMap (cutsBelow n)
    | none => (h.children s node).flatMap (cutsBelow n)

/-- The snapshot of the tree whose topmost component is the given instance. -/
def snapshot (i : ι) : Tree ι :=
  h.treeOf s i ((h.nodes s i).flatMap (h.collect s (depthLimit - 1)))

/-- The places where the walk of a snapshot stops, in order. -/
def cuts (i : ι) : List Cut := (h.nodes s i).flatMap (h.cutsBelow s (depthLimit - 1))

end Host
end Component
end HotReload
