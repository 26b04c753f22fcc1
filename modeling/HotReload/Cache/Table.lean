/-!
# Finite maps

A finite map from texts: pairs of a key and a value, in which no key stands twice.  Each operation
is described by what it does to the value of a key and to the list of keys.
-/

namespace HotReload
namespace Cache

/-- A finite map from texts. -/
structure Table (α : Type) where
  pairs : List (String × α) := []
  distinct : (pairs.map Prod.fst).Nodup := by exact List.nodup_nil

namespace Table

variable {α : Type}

/-- The number of keys. -/
def size (t : Table α) : Nat := t.pairs.length

/-- The keys, in no particular order. -/
def keys (t : Table α) : List String := t.pairs.map Prod.fst

/-- The value of a key. -/
def find? (t : Table α) (key : String) : Option α := t.pairs.lookup key

/-- The map without a key. -/
def erase (t : Table α) (key : String) : Table α where
  pairs := t.pairs.filter (·.1 != key)
  distinct := t.distinct.sublist (List.filter_sublist.map Prod.fst)

theorem keys_erase (t : Table α) (key : String) :
    (t.erase key).keys = t.keys.filter (· != key) := by
  simp [erase, keys, List.filter_map, Function.comp_def]

/-- The map with a key set to a value. -/
def insert (t : Table α) (key : String) (a : α) : Table α where
  pairs := (key, a) :: (t.erase key).pairs
  distinct := by
    have gone : key ∉ (t.erase key).keys := by simp [keys_erase]
    exact List.nodup_cons.mpr ⟨gone, (t.erase key).distinct⟩

theorem length_keys (t : Table α) : t.keys.length = t.size := List.length_map _

theorem lookup_pair (pair : String × α) (pairs : List (String × α)) (key : String) :
    (pair :: pairs).lookup key = if key = pair.1 then some pair.2 else pairs.lookup key := by
  rw [List.lookup_cons]
  by_cases same : key = pair.1
  · simp [same]
  · rw [if_neg same, beq_false_of_ne same]

/-- The keys are those that have a value. -/
theorem mem_keys_iff (t : Table α) (key : String) : key ∈ t.keys ↔ (t.find? key).isSome := by
  unfold keys find?
  induction t.pairs with
  | nil => simp
  | cons pair pairs ih =>
      rw [List.map_cons, List.mem_cons, ih, lookup_pair]
      by_cases same : key = pair.1
      · simp [same]
      · simp [same]

/-- Erasing a key takes its value away and no other. -/
theorem find?_erase (t : Table α) (key other : String) :
    (t.erase key).find? other = if other = key then none else t.find? other := by
  unfold erase find?
  dsimp only
  induction t.pairs with
  | nil => simp
  | cons pair pairs ih =>
      rw [List.filter_cons, lookup_pair]
      by_cases gone : pair.1 = key
      · rw [if_neg (by simp [gone]), ih, gone]
        by_cases same : other = key
        · rw [if_pos same, if_pos same]
        · rw [if_neg same, if_neg same, if_neg same]
      · rw [if_pos (by simp [gone]), lookup_pair, ih]
        by_cases same : other = pair.1
        · rw [if_pos same, if_pos same, if_neg (same ▸ gone)]
        · rw [if_neg same, if_neg same]

/-- Setting a key gives it the value and leaves all others as they are. -/
theorem find?_insert (t : Table α) (key other : String) (a : α) :
    (t.insert key a).find? other = if other = key then some a else t.find? other := by
  change ((key, a) :: (t.erase key).pairs).lookup other = _
  have erased : (t.erase key).pairs.lookup other = _ := t.find?_erase key other
  rw [lookup_pair, erased]
  by_cases same : other = key
  · rw [if_pos same, if_pos same]
  · rw [if_neg same, if_neg same, if_neg same]

end Table
end Cache
end HotReload
