import HotReload.Cache.Key
import HotReload.Cache.Table

/-!
# The store of a cache

A bounded map in order of insertion.  It is kept in two parts, which every operation updates one
after the other: the entries under their rendered keys, and a queue of the rendered keys.  Setting a
key anew counts as a fresh insertion; when there are more entries than the capacity allows, the keys
that were inserted first leave.  With a lifetime, an entry that is as old as the lifetime is removed
by the first lookup of its key.

Time is a number that the caller supplies, so an expiry can be stated and tested without a clock.
-/

namespace HotReload
namespace Cache

/-- A stored text, with the key that it was stored for. -/
structure Entry where
  key : Key
  text : String
  insertedAt : Nat
  deriving DecidableEq

/-- How many entries a store may hold, zero for any number, and how long they live. -/
structure Limits where
  capacity : Nat := 0
  lifetime : Option Nat := none
  deriving DecidableEq, Repr

/-- The entries of a cache under their rendered keys, and the rendered keys, the oldest insertion
first. -/
structure Store where
  entries : Table Entry := {}
  order : List String := []

namespace Store

/-- The number of entries. -/
def size (s : Store) : Nat := s.entries.size

/-- The entry of a key. -/
def find? (s : Store) (key : String) : Option Entry := s.entries.find? key

/-- The store without a key.  Where there is no entry, the queue is left alone. -/
def erase (s : Store) (key : String) : Store :=
  match s.find? key with
  | none => s
  | some _ => ⟨s.entries.erase key, s.order.filter (· != key)⟩

/-- Whether an entry has reached its lifetime. -/
def expired (limits : Limits) (now : Nat) (entry : Entry) : Bool :=
  match limits.lifetime with
  | some ttl => now - entry.insertedAt ≥ ttl
  | none => false

/-- What a lookup finds. -/
inductive Finding where
  | miss
  | hit (text : String)
  /-- The entry was too old and has been removed. -/
  | stale
  deriving DecidableEq, Repr

/-- The text of a key at a time, and the store after the lookup. -/
def lookup (s : Store) (limits : Limits) (now : Nat) (key : String) : Finding × Store :=
  match s.find? key with
  | none => (.miss, s)
  | some entry =>
    if expired limits now entry then (.stale, s.erase key) else (.hit entry.text, s)

/-- Takes keys from the front of the queue, and their entries with them, for as long as there are
more entries than the capacity allows; gives the keys that had to leave, in their order.  It gives
up when the queue has run dry. -/
def evict (limits : Limits) (entries : Table Entry) : List String → Store × List String
  | [] => (⟨entries, []⟩, [])
  | oldest :: order =>
    if limits.capacity > 0 ∧ entries.size > limits.capacity then
      let (s, evicted) := evict limits (entries.erase oldest) order
      (s, oldest :: evicted)
    else (⟨entries, oldest :: order⟩, [])

/-- The store with a key set, and the keys that had to leave, in their order. -/
def insert (s : Store) (limits : Limits) (now : Nat) (key : Key) (text : String) :
    Store × List String :=
  let s := s.erase key.render
  evict limits (s.entries.insert key.render ⟨key, text, now⟩) (s.order ++ [key.render])

/-- Erasing a key takes its entry away and no other. -/
theorem find?_erase (s : Store) (key other : String) :
    (s.erase key).find? other = if other = key then none else s.find? other := by
  unfold erase
  cases found : s.find? key with
  | none =>
      by_cases same : other = key
      · rw [if_pos same, same, found]
      · rw [if_neg same]
  | some entry => exact s.entries.find?_erase key other

/-- The keys that leave are the first ones of the queue. -/
theorem evict_append_order (limits : Limits) (entries : Table Entry) (order : List String) :
    (evict limits entries order).2 ++ (evict limits entries order).1.order = order := by
  induction order generalizing entries with
  | nil => rfl
  | cons oldest order ih =>
      unfold evict
      split
      · exact congrArg (oldest :: ·) (ih (entries.erase oldest))
      · rfl

/-- The entries of the keys that leave are taken away and no others. -/
theorem find?_evict (limits : Limits) (entries : Table Entry) (order : List String) (key : String) :
    (evict limits entries order).1.find? key =
      if key ∈ (evict limits entries order).2 then none else entries.find? key := by
  induction order generalizing entries with
  | nil => rfl
  | cons oldest order ih =>
      unfold evict
      split
      · have later := ih (entries.erase oldest)
        rw [entries.find?_erase] at later
        simp only [List.mem_cons]
        rw [later]
        by_cases first : key = oldest
        · simp [first]
        · simp [first]
      · simp [find?]

/-- Setting a key gives it a new entry, and takes away the entries of the keys that leave. -/
theorem find?_insert (s : Store) (limits : Limits) (now : Nat) (key : Key) (text : String)
    (other : String) :
    (s.insert limits now key text).1.find? other =
      if other ∈ (s.insert limits now key text).2 then none
      else if other = key.render then some ⟨key, text, now⟩ else s.find? other := by
  unfold insert
  dsimp only
  rw [find?_evict, Table.find?_insert]
  have erased : (s.erase key.render).entries.find? other = _ := s.find?_erase key.render other
  rw [erased]
  by_cases same : other = key.render
  · simp [same]
  · simp [same]

end Store
end Cache
end HotReload
