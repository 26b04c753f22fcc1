import HotReload.Cache.Basic
import Mathlib.Data.List.DropRight
import Mathlib.Data.List.Nodup
import Mathlib.Data.List.Perm.Basic

/-!
# The two parts of a store

The entries of a store and the queue of its keys are updated one after the other.  They agree
(`Store.Agrees`) if the queue lists exactly the keys of the entries, each once, and every entry
stands under its own rendered key.  Erasing, looking up, setting and evicting keep it so, each by a
lemma of its own; and then evicting stops because there is room again, and not because the queue has
run dry (`Agrees.size_insert_le`).

A store whose parts agree is one row of entries, the oldest first (`Store.row`).  Looking for a key
in the row finds its entry (`Agrees.mem_row_iff`); erasing a key filters the row
(`Agrees.row_erase`), and setting a key moves it to the end and keeps the newest entries
(`Agrees.row_insert`).
-/

namespace HotReload
namespace Cache

section Newest

variable {α β : Type}

/-- The last elements of a list, as many as the capacity; all of them if it is zero. -/
def newest (capacity : Nat) (xs : List α) : List α :=
  if capacity = 0 then xs else xs.rtake capacity

theorem newest_map (capacity : Nat) (f : α → β) (xs : List α) :
    newest capacity (xs.map f) = (newest capacity xs).map f := by
  unfold newest
  split
  · rfl
  · simp [List.rtake, List.map_drop]

theorem newest_suffix (capacity : Nat) (xs : List α) : newest capacity xs <:+ xs := by
  unfold newest
  split
  · exact List.suffix_refl xs
  · exact List.drop_suffix _ xs

theorem newest_eq_self {capacity : Nat} {xs : List α}
    (fits : capacity ≠ 0 → xs.length ≤ capacity) : newest capacity xs = xs := by
  unfold newest
  split
  · rfl
  · rename_i bounded
    rw [List.rtake, Nat.sub_eq_zero_of_le (fits bounded), List.drop_zero]

theorem length_newest_le {capacity : Nat} (h : capacity ≠ 0) (xs : List α) :
    (newest capacity xs).length ≤ capacity := by
  rw [newest, if_neg h, List.rtake, List.length_drop]
  omega

/-- The end of a long enough list does not depend on what stands before it. -/
theorem newest_append {capacity : Nat} (xs : List α) {ys : List α} (h : capacity ≠ 0)
    (long : capacity ≤ ys.length) : newest capacity (xs ++ ys) = newest capacity ys := by
  rw [newest, newest, if_neg h, if_neg h, List.rtake, List.rtake, List.drop_append,
    List.drop_eq_nil_of_le (by rw [List.length_append]; omega), List.nil_append, List.length_append]
  congr 1
  omega

/-- The last element is among the last ones. -/
theorem mem_newest_concat (capacity : Nat) (xs : List α) (x : α) :
    x ∈ newest capacity (xs ++ [x]) := by
  unfold newest
  split
  · simp
  · rw [List.rtake, List.drop_append_of_le_length (by simp; omega)]
    simp

end Newest

theorem filter_ne_of_notMem {keys : List String} {key : String} (missing : key ∉ keys) :
    keys.filter (· != key) = keys := by
  rw [List.filter_eq_self]
  intro other member
  rw [bne_iff_ne]
  rintro rfl
  exact missing member

namespace Store

/-- The entries of a store and the queue of its keys fit together. -/
structure Agrees (s : Store) : Prop where
  /-- No key stands twice in the queue. -/
  once : s.order.Nodup
  /-- The queue lists the keys that have an entry. -/
  listed : ∀ key, key ∈ s.order ↔ key ∈ s.entries.keys
  /-- Every entry stands under its own rendered key. -/
  own : ∀ key entry, s.find? key = some entry → entry.key.render = key

/-- The entries in the order of the queue, the oldest first. -/
def row (s : Store) : List Entry := s.order.filterMap s.find?

namespace Agrees

variable {s : Store} {limits : Limits} {now : Nat} {key oldest text : String} {k : Key}
variable {entries : Table Entry} {order : List String} {entry : Entry}

theorem empty : Agrees {} where
  once := List.nodup_nil
  listed := fun _ => Iff.rfl
  own := fun _ _ found => nomatch found

theorem mem_order_iff (h : s.Agrees) : key ∈ s.order ↔ (s.find? key).isSome :=
  (h.listed key).trans (s.entries.mem_keys_iff key)

/-- There are as many entries as keys in the queue. -/
theorem size_eq (h : s.Agrees) : s.size = s.order.length := by
  have same : s.order.Perm s.entries.keys :=
    (List.perm_ext_iff_of_nodup h.once s.entries.distinct).mpr h.listed
  rw [same.length_eq, Table.length_keys, size]

/-- A key without an entry is not in the queue, so nothing of it is left behind. -/
theorem order_erase (h : s.Agrees) (key : String) :
    (s.erase key).order = s.order.filter (· != key) := by
  unfold Store.erase
  cases found : s.find? key with
  | none =>
      have missing : key ∉ s.order := by simp [h.mem_order_iff, found]
      exact (filter_ne_of_notMem missing).symm
  | some entry => rfl

theorem erase (h : s.Agrees) (key : String) : (s.erase key).Agrees where
  once := by
    rw [h.order_erase]
    exact h.once.filter _
  listed := by
    intro other
    rw [h.order_erase, List.mem_filter, h.mem_order_iff, Table.mem_keys_iff, ← find?, s.find?_erase]
    by_cases same : other = key
    · simp [same]
    · simp [same]
  own := by
    intro other entry found
    rw [s.find?_erase] at found
    split at found
    · cases found
    · exact h.own other entry found

theorem lookup (h : s.Agrees) (limits : Limits) (now : Nat) (key : String) :
    (s.lookup limits now key).2.Agrees := by
  unfold Store.lookup
  split
  · exact h
  · split
    · exact h.erase key
    · exact h

/-- A new key goes to the end of the queue, and its entry to the entries. -/
theorem push (h : s.Agrees) (new : k.render ∉ s.order) (text : String) (now : Nat) :
    Agrees ⟨s.entries.insert k.render ⟨k, text, now⟩, s.order ++ [k.render]⟩ where
  once := List.nodup_append.mpr ⟨h.once, List.nodup_singleton _, by
    intro key member other last same
    rw [List.mem_singleton.mp last] at same
    exact new (same ▸ member)⟩
  listed := by
    intro key
    have listed := h.listed key
    rw [Table.mem_keys_iff] at listed
    rw [List.mem_append, List.mem_singleton, Table.mem_keys_iff, Table.find?_insert, listed]
    by_cases same : key = k.render
    · simp [same]
    · simp [same]
  own := by
    intro key entry found
    change (s.entries.insert k.render ⟨k, text, now⟩).find? key = some entry at found
    rw [Table.find?_insert] at found
    split at found
    · rename_i same
      rw [← Option.some.inj found, same]
    · exact h.own key entry found

/-- The first key of the queue leaves, and its entry with it. -/
theorem pop (h : Agrees ⟨entries, oldest :: order⟩) : Agrees ⟨entries.erase oldest, order⟩ where
  once := (List.nodup_cons.mp h.once).2
  listed := by
    intro key
    have listed := h.listed key
    rw [Table.mem_keys_iff, List.mem_cons] at listed
    rw [Table.mem_keys_iff, Table.find?_erase]
    by_cases first : key = oldest
    · rw [if_pos first, first]
      simp [(List.nodup_cons.mp h.once).1]
    · rw [if_neg first, ← listed]
      simp [first]
  own := by
    intro key entry found
    change (entries.erase oldest).find? key = some entry at found
    rw [Table.find?_erase] at found
    split at found
    · cases found
    · exact h.own key entry found

theorem evict (h : Agrees ⟨entries, order⟩) (limits : Limits) :
    (evict limits entries order).1.Agrees := by
  induction order generalizing entries with
  | nil => exact h
  | cons oldest order ih =>
      unfold Store.evict
      split
      · exact ih h.pop
      · exact h

/-- What is set goes to the end, after the key has been erased. -/
theorem pushed (h : s.Agrees) (k : Key) (text : String) (now : Nat) :
    Agrees ⟨(s.erase k.render).entries.insert k.render ⟨k, text, now⟩,
      (s.erase k.render).order ++ [k.render]⟩ :=
  (h.erase k.render).push (by simp [h.order_erase]) text now

theorem insert (h : s.Agrees) (limits : Limits) (now : Nat) (k : Key) (text : String) :
    (s.insert limits now k text).1.Agrees :=
  (h.pushed k text now).evict limits

/-- Where the parts agree, evicting goes on until there is room. -/
theorem size_evict_le (h : Agrees ⟨entries, order⟩) (bounded : limits.capacity ≠ 0) :
    (Store.evict limits entries order).1.size ≤ limits.capacity := by
  induction order generalizing entries with
  | nil =>
      have none_left : entries.size = 0 := h.size_eq
      exact none_left.trans_le (Nat.zero_le _)
  | cons oldest order ih =>
      unfold Store.evict
      split
      · exact ih h.pop
      · rename_i room
        exact not_lt.mp fun crowded => room ⟨Nat.pos_of_ne_zero bounded, crowded⟩

theorem size_insert_le (h : s.Agrees) (bounded : limits.capacity ≠ 0) :
    (s.insert limits now k text).1.size ≤ limits.capacity :=
  (h.pushed k text now).size_evict_le bounded

/-- The entries of the row stand under the keys of the queue. -/
theorem map_row (h : s.Agrees) : s.row.map (·.key.render) = s.order := by
  have each : ∀ keys : List String, (∀ key ∈ keys, (s.find? key).isSome) →
      (keys.filterMap s.find?).map (·.key.render) = keys := by
    intro keys
    induction keys with
    | nil => exact fun _ => rfl
    | cons key keys ih =>
        intro held
        obtain ⟨first, others⟩ := List.forall_mem_cons.mp held
        obtain ⟨entry, found⟩ := Option.isSome_iff_exists.mp first
        rw [List.filterMap_cons_some found, List.map_cons, ih others, h.own key entry found]
  exact each s.order fun key => h.mem_order_iff.mp

theorem length_row (h : s.Agrees) : s.row.length = s.size := by
  rw [h.size_eq, ← h.map_row, List.length_map]

/-- An entry is in the row if it is found under its key. -/
theorem mem_row_iff (h : s.Agrees) : entry ∈ s.row ↔ s.find? entry.key.render = some entry := by
  unfold row
  rw [List.mem_filterMap]
  constructor
  · rintro ⟨key, _, found⟩
    rwa [h.own key entry found]
  · intro found
    exact ⟨entry.key.render, h.mem_order_iff.mpr (by rw [found]; rfl), found⟩

/-- Erasing a key filters the row. -/
theorem row_erase (h : s.Agrees) (key : String) :
    (s.erase key).row = s.row.filter (·.key.render != key) := by
  unfold row
  rw [h.order_erase, List.filterMap_filter, List.filter_filterMap]
  congr 1
  funext other
  rw [s.find?_erase]
  cases found : s.find? other with
  | none => simp
  | some entry =>
      have own := h.own other entry found
      by_cases same : other = key
      · simp [Option.filter, own, same]
      · simp [Option.filter, own, same]

/-- A new key adds its entry at the end of the row. -/
theorem row_push (new : k.render ∉ s.order) :
    row ⟨s.entries.insert k.render ⟨k, text, now⟩, s.order ++ [k.render]⟩ =
      s.row ++ [⟨k, text, now⟩] := by
  have last : (s.entries.insert k.render ⟨k, text, now⟩).find? k.render = some ⟨k, text, now⟩ := by
    rw [Table.find?_insert, if_pos rfl]
  have others : ∀ key ∈ s.order,
      (s.entries.insert k.render ⟨k, text, now⟩).find? key = s.find? key := by
    intro key member
    rw [Table.find?_insert, if_neg (fun same : key = k.render => new (same ▸ member))]
    rfl
  change (s.order ++ [k.render]).filterMap (s.entries.insert k.render ⟨k, text, now⟩).find? = _
  rw [List.filterMap_append, List.filterMap_cons_some last, List.filterMap_nil,
    List.filterMap_congr others]
  rfl

/-- What leaves is the first entry of the row. -/
theorem row_pop (h : Agrees ⟨entries, oldest :: order⟩) :
    ∃ entry, row ⟨entries, oldest :: order⟩ = entry :: row ⟨entries.erase oldest, order⟩ := by
  obtain ⟨entry, found⟩ := Option.isSome_iff_exists.mp (h.mem_order_iff.mp List.mem_cons_self)
  change entries.find? oldest = some entry at found
  have others : ∀ key ∈ order, (entries.erase oldest).find? key = entries.find? key := by
    intro key member
    rw [Table.find?_erase, if_neg]
    rintro rfl
    exact (List.nodup_cons.mp h.once).1 member
  refine ⟨entry, ?_⟩
  change (oldest :: order).filterMap entries.find? = _
  rw [List.filterMap_cons_some found, ← List.filterMap_congr others]
  rfl

/-- Evicting keeps the newest entries. -/
theorem row_evict (h : Agrees ⟨entries, order⟩) (limits : Limits) :
    (Store.evict limits entries order).1.row = newest limits.capacity (row ⟨entries, order⟩) := by
  induction order generalizing entries with
  | nil => exact (newest_eq_self fun _ => Nat.zero_le _).symm
  | cons oldest order ih =>
      have rows : (row ⟨entries, oldest :: order⟩).length = entries.size := h.length_row
      unfold Store.evict
      split
      · rename_i crowded
        obtain ⟨entry, first⟩ := h.row_pop
        rw [first, List.length_cons] at rows
        rw [ih h.pop, first]
        exact (newest_append [entry] (Nat.pos_iff_ne_zero.mp crowded.1) (by omega)).symm
      · rename_i room
        refine (newest_eq_self fun bounded => ?_).symm
        rw [rows]
        exact not_lt.mp fun crowded => room ⟨Nat.pos_of_ne_zero bounded, crowded⟩

/-- Setting a key moves it to the end of the row, with its new entry, and keeps the newest
entries. -/
theorem row_insert (h : s.Agrees) (limits : Limits) (now : Nat) (k : Key) (text : String) :
    (s.insert limits now k text).1.row =
      newest limits.capacity (s.row.filter (·.key.render != k.render) ++ [⟨k, text, now⟩]) := by
  have gone : k.render ∉ (s.erase k.render).order := by simp [h.order_erase]
  rw [Store.insert, (h.pushed k text now).row_evict, row_push gone, h.row_erase]

/-- Setting a key moves it to the end of the queue, which keeps the newest keys. -/
theorem order_insert (h : s.Agrees) (limits : Limits) (now : Nat) (k : Key) (text : String) :
    (s.insert limits now k text).1.order =
      newest limits.capacity (s.order.filter (· != k.render) ++ [k.render]) := by
  rw [← (h.insert limits now k text).map_row, h.row_insert, ← newest_map, List.map_append,
    ← h.map_row, List.filter_map]
  rfl

/-- The keys that leave when a key is set, and those that stay, are the others and it. -/
theorem evicted_append_order (h : s.Agrees) (limits : Limits) (now : Nat) (k : Key)
    (text : String) :
    (s.insert limits now k text).2 ++ (s.insert limits now k text).1.order =
      s.order.filter (· != k.render) ++ [k.render] := by
  rw [Store.insert, evict_append_order, h.order_erase]

/-- A key that is set does not have to leave. -/
theorem notMem_evicted (h : s.Agrees) : k.render ∉ (s.insert limits now k text).2 := by
  have stays : k.render ∈ (s.insert limits now k text).1.order := by
    rw [h.order_insert]
    exact mem_newest_concat _ _ _
  have once : ((s.insert limits now k text).2 ++ (s.insert limits now k text).1.order).Nodup := by
    rw [Store.insert, evict_append_order]
    exact (h.pushed k text now).once
  exact fun leaves => (List.nodup_append.mp once).2.2 _ leaves _ stays rfl

end Agrees

/-- A lookup adds no entry. -/
theorem find?_of_lookup {s : Store} {limits : Limits} {now : Nat} {key other : String}
    {entry : Entry} (found : (s.lookup limits now key).2.find? other = some entry) :
    s.find? other = some entry := by
  unfold lookup at found
  split at found
  · exact found
  · split at found
    · rw [s.find?_erase] at found
      split at found
      · cases found
      · exact found
    · exact found

/-- Where any number of entries fits, no key has to leave. -/
theorem evicted_insert_of_unbounded {s : Store} {limits : Limits} (unbounded : limits.capacity = 0)
    {now : Nat} {key : Key} {text : String} : (s.insert limits now key text).2 = [] := by
  have none_leaves (entries : Table Entry) (order : List String) :
      (evict limits entries order).2 = [] := by
    cases order with
    | nil => rfl
    | cons oldest order => simp [evict, unbounded]
  exact none_leaves _ _

/-- An insertion adds one entry. -/
theorem find?_of_insert {s : Store} {limits : Limits} {now : Nat} {key : Key} {text other : String}
    {entry : Entry} (found : (s.insert limits now key text).1.find? other = some entry) :
    s.find? other = some entry ∨ other = key.render ∧ entry = ⟨key, text, now⟩ := by
  rw [s.find?_insert] at found
  split at found
  · cases found
  · split at found
    · rename_i same
      exact .inr ⟨same, (Option.some.inj found).symm⟩
    · exact .inl found

end Store

section

variable {c : Cache} {w : Surroundings} {name : String} {content : List UInt8}
variable {configuration : Configuration} {key : Key} {text : String}

theorem get_of_key (hk : c.key w name content configuration = .ok key) :
    (c.get w name content configuration).2.1 =
      { c with store := (c.store.lookup c.limits w.now key.render).2 } := by
  unfold get
  rw [hk]
  dsimp only
  split <;> rename_i looked <;> rw [looked]

theorem set_of_key (hk : c.key w name content configuration = .ok key) :
    (c.set w name content configuration text).1 =
      { c with store := (c.store.insert c.limits w.now key text).1 } := by
  unfold set
  rw [hk]

/-- Getting adds no entry. -/
theorem find?_of_get {other : String} {entry : Entry}
    (found : (c.get w name content configuration).2.1.store.find? other = some entry) :
    c.store.find? other = some entry := by
  cases hk : c.key w name content configuration with
  | error fault =>
      unfold get at found
      rwa [hk] at found
  | ok key =>
      rw [get_of_key hk] at found
      exact Store.find?_of_lookup found

/-- Setting adds one entry, under the key. -/
theorem find?_of_set {other : String} {entry : Entry}
    (hk : c.key w name content configuration = .ok key)
    (found : (c.set w name content configuration text).1.store.find? other = some entry) :
    c.store.find? other = some entry ∨ other = key.render ∧ entry = ⟨key, text, w.now⟩ := by
  rw [set_of_key hk] at found
  exact Store.find?_of_insert found

/-- Getting keeps the two parts of the store in agreement. -/
theorem agrees_get (h : c.store.Agrees) (w : Surroundings) (name : String)
    (content : List UInt8) (configuration : Configuration) :
    (c.get w name content configuration).2.1.store.Agrees := by
  cases hk : c.key w name content configuration with
  | error fault =>
      unfold get
      rwa [hk]
  | ok key =>
      rw [get_of_key hk]
      exact h.lookup c.limits w.now key.render

/-- So does setting, whatever has to leave. -/
theorem agrees_set (h : c.store.Agrees) (w : Surroundings) (name : String)
    (content : List UInt8) (configuration : Configuration) (text : String) :
    (c.set w name content configuration text).1.store.Agrees := by
  cases hk : c.key w name content configuration with
  | error fault =>
      unfold set
      rwa [hk]
  | ok key =>
      rw [set_of_key hk]
      exact h.insert c.limits w.now key text

end

end Cache
end HotReload
