import Mathlib.Data.List.Perm.Basic
import HotReload.Json.Canonical
import HotReload.Proofs.Json.Texts

/-!
# What canonical forms keep

The canonical form of an array of texts has the same items; only their order may differ.  Numbers
stay as they are, so a canonical form is written with finite numbers if the value is, and its text
tells it apart from other canonical forms.
-/

namespace HotReload
namespace Json
namespace Value

theorem finiteItems_iff {vs : List Value} : FiniteItems vs ↔ ∀ v ∈ vs, v.Finite := by
  induction vs with
  | nil => simp [FiniteItems]
  | cons v vs ih => simp [FiniteItems, ih]

theorem finiteMembers_iff {ms : List (String × Value)} :
    FiniteMembers ms ↔ ∀ m ∈ ms, m.2.Finite := by
  induction ms with
  | nil => simp [FiniteMembers]
  | cons m ms ih =>
      obtain ⟨k, v⟩ := m
      simp [FiniteMembers, ih]

mutual
/-- A canonical form has no other numbers than the value. -/
theorem finite_canonical (v : Value) (h : v.Finite) : v.canonical.Finite := by
  match v with
  | .null => exact h
  | .boolean _ => exact h
  | .number _ => exact h
  | .string _ => exact h
  | .array items =>
      rw [canonical]
      split
      · refine finiteItems_iff.mpr fun v hv => ?_
        exact finiteItems_iff.mp h v (List.mem_mergeSort.mp hv)
      · exact finite_canonicalItems items h
  | .object members =>
      rw [canonical]
      refine finiteMembers_iff.mpr fun m hm => ?_
      exact finiteMembers_iff.mp (finite_canonicalMembers members h) m (List.mem_mergeSort.mp hm)

/-- The canonical forms of items have no other numbers. -/
theorem finite_canonicalItems (vs : List Value) (h : FiniteItems vs) :
    FiniteItems (canonicalItems vs) := by
  match vs with
  | [] => exact h
  | v :: vs => exact ⟨finite_canonical v h.1, finite_canonicalItems vs h.2⟩

/-- The canonical forms of members have no other numbers. -/
theorem finite_canonicalMembers (ms : List (String × Value)) (h : FiniteMembers ms) :
    FiniteMembers (canonicalMembers ms) := by
  match ms with
  | [] => exact h
  | (k, v) :: ms => exact ⟨finite_canonical v h.1, finite_canonicalMembers ms h.2⟩
end

/-- Arrays of texts with one canonical form hold the same texts up to their order. -/
theorem texts_perm {xs ys : List String}
    (h : (Value.array (xs.map .string)).canonical = (Value.array (ys.map .string)).canonical) :
    xs.Perm ys := by
  have primitive (zs : List String) : (zs.map Value.string).all isPrimitive = true := by
    simp [isPrimitive]
  rw [canonical, canonical, if_pos (primitive xs), if_pos (primitive ys)] at h
  have sorted := Value.array.inj h
  have left := List.mergeSort_perm (xs.map Value.string) primitiveLe
  rw [sorted] at left
  have items := left.symm.trans (List.mergeSort_perm _ _)
  have injective : Function.Injective Value.string := fun _ _ equal => Value.string.inj equal
  exact (List.map_perm_map_iff injective).mp items

/-- Values with one canonical text have one canonical form. -/
theorem canonical_eq_of_text {v w : Value} (hv : v.Finite) (hw : w.Finite)
    (h : v.canonical.text = w.canonical.text) : v.canonical = w.canonical :=
  chars_injective (finite_canonical v hv) (finite_canonical w hw) (String.ofList_injective h)

end Value
end Json
end HotReload
