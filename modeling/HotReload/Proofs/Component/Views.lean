import HotReload.Component.Tree

/-!
# What can be seen of a tree

Two hosts may show the same tree of components (`Host.SameTree`), as may one host in two of its
states.  They then have the same snapshots (`Host.SameTree.snapshot`), whatever else differs between
them.
-/

namespace HotReload
namespace Component
namespace Host

variable {σ σ' ι ν δ : Type} {h : Host σ ι ν δ} {h' : Host σ' ι ν δ} {s : σ} {s' : σ'}

/-- What can be seen of the tree of components is the same of two hosts, each in a state. -/
structure SameTree (h : Host σ ι ν δ) (s : σ) (h' : Host σ' ι ν δ) (s' : σ') : Prop where
  nodes : h.nodes s = h'.nodes s'
  nested : h.nested s = h'.nested s'
  children : h.children s = h'.children s'
  describe : h.describe s = h'.describe s'

theorem SameTree.treeOf (same : h.SameTree s h' s') : h.treeOf s = h'.treeOf s' := by
  funext i children
  unfold Host.treeOf
  rw [same.describe]

theorem SameTree.collect (same : h.SameTree s h' s') (n : Nat) :
    h.collect s n = h'.collect s' n := by
  induction n with
  | zero =>
      funext node
      rw [Host.collect, Host.collect, same.nested, same.treeOf]
  | succ n ih =>
      funext node
      rw [Host.collect, Host.collect, same.nested, same.treeOf, same.nodes, same.children, ih]

/-- Hosts that show the same tree have the same snapshots. -/
theorem SameTree.snapshot (same : h.SameTree s h' s') (i : ι) :
    h.snapshot s i = h'.snapshot s' i := by
  rw [Host.snapshot, Host.snapshot, same.treeOf, same.nodes, same.collect]

end Host
end Component
end HotReload
