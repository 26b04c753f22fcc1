import HotReload.Proofs.Cache.Recency

/-!
# Age in a cache

A cache whose entries may expire is used by setting, getting and clearing, at times that never go
back.  Entries that have expired linger until somebody asks for them, and they count against the
capacity; still nothing old is given out, and nothing young leaves for the sake of something old.

The invariant of a run is `Orderly`: the two parts of the store agree, and its entries in the order
of the queue are a sublist of what has been written since the last clearing, each key once and with
what was written under it last.  As the times of the writes never go back, the order in which
entries have to leave is an order of age.  What one use does to an entry is said by `mem_after_iff`;
the run follows from it.
-/

namespace HotReload
namespace Cache

namespace Store

variable {s : Store} {limits : Limits} {now : Nat} {key : Key} {rendered text : String}
variable {entry : Entry}

/-- A lookup takes out the entry of its key if it has expired, and nothing else. -/
theorem mem_lookup_iff (h : s.Agrees) :
    entry ∈ (s.lookup limits now rendered).2.row ↔
      entry ∈ s.row ∧ ¬ (entry.key.render = rendered ∧ expired limits now entry = true) := by
  rw [(h.lookup limits now rendered).mem_row_iff, h.mem_row_iff]
  unfold lookup
  cases found : s.find? rendered with
  | none =>
      refine ⟨fun held => ⟨held, fun taken => ?_⟩, And.left⟩
      rw [taken.1, found] at held
      cases held
  | some first =>
      cases old : expired limits now first with
      | true =>
          simp only [old, if_true, s.find?_erase]
          by_cases same : entry.key.render = rendered
          · rw [if_pos same, same, found]
            refine ⟨fun held => (nomatch held), fun ⟨held, stays⟩ => absurd ⟨rfl, ?_⟩ stays⟩
            rwa [← Option.some.inj held]
          · simp [same]
      | false =>
          simp only [old, Bool.false_eq_true, if_false]
          refine ⟨fun held => ⟨held, fun taken => ?_⟩, And.left⟩
          rw [taken.1, found] at held
          rw [← Option.some.inj held, old] at taken
          exact Bool.false_ne_true taken.2

/-- The entry that has to leave when a key is set: the oldest one, if the key is new and there is no
more room. -/
def victim? (s : Store) (limits : Limits) (rendered : String) : Option Entry :=
  if rendered ∉ s.order ∧ s.size = limits.capacity then s.row.head? else none

/-- Taking a key out of a queue that does not exceed the capacity makes room for it, unless it is a
new key and the queue is full. -/
theorem length_order_erase_lt (h : s.Agrees)
    (bounded : limits.capacity ≠ 0 → s.size ≤ limits.capacity)
    (spacious : ¬ (rendered ∉ s.order ∧ s.size = limits.capacity))
    (positive : limits.capacity ≠ 0) :
    (s.order.filter (· != rendered)).length < limits.capacity := by
  have most := bounded positive
  by_cases held : rendered ∈ s.order
  · have shorter : (s.order.filter (· != rendered)).length < s.order.length :=
      List.length_filter_lt_length_iff_exists.mpr ⟨rendered, held, by simp⟩
    rw [← h.size_eq] at shorter
    exact shorter.trans_le most
  · have full : s.size ≠ limits.capacity := fun full => spacious ⟨held, full⟩
    have shorter := List.length_filter_le (· != rendered) s.order
    rw [← h.size_eq] at shorter
    omega

/-- At most one entry has to leave, and it is the oldest one. -/
theorem evicted_eq (h : s.Agrees) (bounded : limits.capacity ≠ 0 → s.size ≤ limits.capacity) :
    (s.insert limits now key text).2 =
      (s.victim? limits key.render).toList.map (·.key.render) := by
  have parts := h.evicted_append_order limits now key text
  rw [h.order_insert] at parts
  unfold victim?
  split
  · rename_i crowded
    obtain ⟨new, full⟩ := crowded
    rw [filter_ne_of_notMem new] at parts
    rw [h.size_eq, ← h.map_row] at full
    rw [← h.map_row] at parts
    cases entries : s.row with
    | nil =>
        rw [entries] at parts full
        rw [newest_eq_self (fun positive => absurd full.symm positive)] at parts
        exact List.append_left_eq_self.mp parts
    | cons first rest =>
        rw [entries, List.map_cons] at parts full
        have count : rest.length + 1 = limits.capacity := by simpa using full
        have long : (rest.map (·.key.render) ++ [key.render]).length = limits.capacity := by
          simpa using count
        have positive : limits.capacity ≠ 0 := by omega
        rw [List.cons_append, ← List.singleton_append, newest_append _ positive long.ge,
          newest_eq_self fun _ => long.le] at parts
        exact List.append_cancel_right parts
  · rename_i spacious
    rw [newest_eq_self] at parts
    · exact List.append_left_eq_self.mp parts
    · intro positive
      have room := length_order_erase_lt h bounded spacious positive
      rw [List.length_append, List.length_singleton]
      omega

theorem mem_row_of_victim {oldest : Entry} (leaving : s.victim? limits rendered = some oldest) :
    oldest ∈ s.row := by
  unfold victim? at leaving
  split at leaving
  · exact List.mem_of_mem_head? leaving
  · cases leaving

/-- Setting a key writes its entry, and takes out what was held under it and the entry that has to
leave. -/
theorem mem_insert_iff (h : s.Agrees) (bounded : limits.capacity ≠ 0 → s.size ≤ limits.capacity) :
    entry ∈ (s.insert limits now key text).1.row ↔
      entry = ⟨key, text, now⟩ ∨
        entry ∈ s.row ∧
          ¬ (entry.key.render = key.render ∨ s.victim? limits key.render = some entry) := by
  rw [(h.insert limits now key text).mem_row_iff, h.mem_row_iff, s.find?_insert]
  by_cases same : entry.key.render = key.render
  · rw [same, if_neg h.notMem_evicted, if_pos rfl]
    simp [eq_comm]
  · have other : entry ≠ ⟨key, text, now⟩ := by
      rintro rfl
      exact same rfl
    -- An entry of the store leaves with its key, as no other entry stands under that key.
    have leaves (held : s.find? entry.key.render = some entry) :
        entry.key.render ∈ (s.insert limits now key text).2 ↔
          s.victim? limits key.render = some entry := by
      rw [evicted_eq h bounded, List.mem_map]
      constructor
      · rintro ⟨oldest, leaving, under⟩
        have leaving := Option.mem_toList.mp leaving
        have found := h.mem_row_iff.mp (mem_row_of_victim leaving)
        rw [under, held] at found
        rw [leaving, ← Option.some.inj found]
      · intro leaving
        exact ⟨entry, Option.mem_toList.mpr leaving, rfl⟩
    rw [if_neg same]
    constructor
    · intro found
      split at found
      · cases found
      · rename_i stays
        exact .inr ⟨found, not_or.mpr ⟨same, (leaves found).not.mp stays⟩⟩
    · rintro (new | ⟨held, stays⟩)
      · exact absurd new other
      · rw [if_neg ((leaves held).not.mpr (not_or.mp stays).2), held]

end Store

/-- A store holds entries that have been written, in the order of the writes, each under its own key
and with what was written under it last; and there are no more of them than the capacity allows. -/
structure Orderly (capacity : Nat) (written : List Entry) (s : Store) : Prop where
  agrees : s.Agrees
  kept : s.row.Sublist written
  latest : ∀ entry ∈ s.row,
    written.reverse.find? (·.key.render == entry.key.render) = some entry
  bounded : capacity ≠ 0 → s.size ≤ capacity

namespace Orderly

variable {limits : Limits} {capacity : Nat} {written : List Entry} {s : Store}

theorem empty (capacity : Nat) : Orderly capacity [] {} where
  agrees := Store.Agrees.empty
  kept := List.Sublist.refl _
  latest := fun _ held => absurd held List.not_mem_nil
  bounded := fun _ => Nat.zero_le _

theorem lookup (h : Orderly capacity written s) (now : Nat) (rendered : String) :
    Orderly capacity written (s.lookup limits now rendered).2 := by
  have agrees := h.agrees.lookup limits now rendered
  have fewer : (s.lookup limits now rendered).2.row.Sublist s.row := by
    unfold Store.lookup
    split
    · exact List.Sublist.refl _
    · split
      · rw [h.agrees.row_erase]
        exact List.filter_sublist
      · exact List.Sublist.refl _
  refine ⟨agrees, fewer.trans h.kept, fun entry held => h.latest entry (fewer.subset held), ?_⟩
  intro positive
  rw [← agrees.length_row]
  exact fewer.length_le.trans (h.agrees.length_row.trans_le (h.bounded positive))

/-- Setting a key adds to what has been written. -/
theorem insert (h : Orderly limits.capacity written s) (now : Nat) (key : Key) (text : String) :
    Orderly limits.capacity (written ++ [⟨key, text, now⟩]) (s.insert limits now key text).1 where
  agrees := h.agrees.insert limits now key text
  kept := by
    rw [h.agrees.row_insert]
    have others := (List.filter_sublist (p := (·.key.render != key.render))).trans h.kept
    exact (newest_suffix _ _).sublist.trans (others.append (List.Sublist.refl _))
  latest := by
    intro entry held
    rw [List.reverse_append, List.reverse_singleton, List.singleton_append, List.find?_cons]
    rw [Store.mem_insert_iff h.agrees h.bounded] at held
    rcases held with rfl | ⟨before, stays⟩
    · simp
    · have apart : (key.render == entry.key.render) = false :=
        beq_false_of_ne fun same => stays (.inl same.symm)
      rw [apart]
      exact h.latest entry before
  bounded := h.agrees.size_insert_le

end Orderly

namespace Use

/-- The time of a use; clearing does not look at the clock. -/
def time? : Use → Option Nat
  | .set w _ _ _ _ => some w.now
  | .get w _ _ _ => some w.now
  | .clear => none

/-- The entry that a use writes; a configuration that cannot be encoded has no key. -/
def entry? (c : Cache) : Use → Option Entry
  | .set w name content configuration text =>
    (c.key w name content configuration).toOption.map fun key => ⟨key, text, w.now⟩
  | _ => none

/-- Whether a use takes an entry out of a cache: it clears the cache, gets the key of the entry when
the entry has expired, sets the key anew, or sets another key for which the entry has to leave. -/
def Removes (c : Cache) (entry : Entry) : Use → Prop
  | .clear => True
  | .get w name content configuration =>
    ∃ key, c.key w name content configuration = .ok key ∧
      entry.key.render = key.render ∧ Store.expired c.limits w.now entry = true
  | .set w name content configuration _ =>
    ∃ key, c.key w name content configuration = .ok key ∧
      (entry.key.render = key.render ∨ c.store.victim? c.limits key.render = some entry)

theorem insertedAt_of_entry {c : Cache} {u : Use} {entry : Entry} (h : u.entry? c = some entry) :
    u.time? = some entry.insertedAt := by
  cases u with
  | set w name content configuration text =>
      obtain ⟨key, _, rfl⟩ := Option.map_eq_some_iff.mp h
      rfl
  | get w name content configuration => cases h
  | clear => cases h

end Use

/-- The clock does not go back while a cache is used. -/
def Timely (uses : List Use) : Prop := (uses.filterMap Use.time?).Pairwise (· ≤ ·)

/-- The entries that have been written since the last time the cache was cleared, in order. -/
def written (c : Cache) (uses : List Use) : List Entry :=
  (uses.reverse.takeWhile (!·.isClear)).reverse.filterMap (Use.entry? c)

theorem written_snoc (c : Cache) (uses : List Use) (u : Use) :
    written c (uses ++ [u]) =
      if u.isClear then [] else written c uses ++ (u.entry? c).toList := by
  unfold written
  rw [List.reverse_append, List.reverse_singleton, List.singleton_append, List.takeWhile_cons]
  cases u.isClear with
  | true => simp
  | false =>
      simp only [Bool.not_false, if_true, List.reverse_cons, List.filterMap_append,
        Bool.false_eq_true, if_false]
      cases wrote : u.entry? c <;> simp [wrote]

/-- The times of the entries are times of uses. -/
theorem written_times (c : Cache) (uses : List Use) :
    ((written c uses).map Entry.insertedAt).Sublist (uses.filterMap Use.time?) := by
  have times (us : List Use) :
      ((us.filterMap (Use.entry? c)).map Entry.insertedAt).Sublist (us.filterMap Use.time?) := by
    induction us with
    | nil => exact List.Sublist.refl _
    | cons u us ih =>
        cases wrote : u.entry? c with
        | none =>
            rw [List.filterMap_cons_none wrote]
            exact ih.trans ((List.sublist_cons_self u us).filterMap Use.time?)
        | some entry =>
            rw [List.filterMap_cons_some wrote,
              List.filterMap_cons_some (Use.insertedAt_of_entry wrote)]
            exact ih.cons_cons entry.insertedAt
  have recent : (uses.reverse.takeWhile (!·.isClear)).reverse.Sublist uses := by
    have front := (List.takeWhile_sublist (l := uses.reverse) (!·.isClear)).reverse
    rwa [List.reverse_reverse] at front
  exact (times _).trans (recent.filterMap Use.time?)

theorem Timely.sorted {uses : List Use} (h : Timely uses) (c : Cache) :
    (written c uses).Pairwise (·.insertedAt ≤ ·.insertedAt) :=
  List.pairwise_map.mp (List.Pairwise.sublist (written_times c uses) h)

/-- What one use does to an entry of a store that is in order: it is there afterwards if the use has
written it, or if it was there before and the use does not take it out. -/
theorem mem_after_iff {c : Cache} {entries : List Entry}
    (h : Orderly c.limits.capacity entries c.store) (u : Use) (entry : Entry) :
    entry ∈ (u.after c).store.row ↔
      u.entry? c = some entry ∨ entry ∈ c.store.row ∧ ¬ u.Removes c entry := by
  cases u with
  | clear => simp [Use.after, Cache.clear, Use.entry?, Use.Removes, Store.row]
  | get w name content configuration =>
      change entry ∈ (c.get w name content configuration).2.1.store.row ↔ _
      cases hk : c.key w name content configuration with
      | error fault => simp [get, hk, Use.entry?, Use.Removes]
      | ok key =>
          rw [get_of_key hk, Store.mem_lookup_iff h.agrees]
          simp [hk, Use.entry?, Use.Removes]
  | set w name content configuration text =>
      change entry ∈ (c.set w name content configuration text).1.store.row ↔ _
      cases hk : c.key w name content configuration with
      | error fault => simp [set, hk, Use.entry?, Use.Removes, Except.toOption]
      | ok key =>
          rw [set_of_key hk, Store.mem_insert_iff h.agrees h.bounded]
          simp [hk, Use.entry?, Use.Removes, Except.toOption, eq_comm]

/-- A cache in the course of a run: it makes its keys as at the start, and its store is in order. -/
structure Kept (c : Cache) (uses : List Use) : Prop where
  making : SameMaking (used c uses) c
  orderly : Orderly c.limits.capacity (written c uses) (used c uses).store

/-- One more use keeps it so. -/
theorem Kept.snoc {c : Cache} {uses : List Use} (h : Kept c uses) (u : Use) :
    Kept c (uses ++ [u]) := by
  refine ⟨by rw [used_snoc]; exact h.making.after u, ?_⟩
  rw [used_snoc, written_snoc]
  have orderly := h.orderly
  cases u with
  | clear => exact Orderly.empty _
  | get w name content configuration =>
      simp only [Use.isClear, Use.entry?, Bool.false_eq_true, if_false, Option.toList_none,
        List.append_nil]
      change Orderly _ _ ((used c uses).get w name content configuration).2.1.store
      cases hk : (used c uses).key w name content configuration with
      | error fault =>
          unfold get
          rwa [hk]
      | ok key =>
          rw [get_of_key hk]
          exact orderly.lookup w.now key.render
  | set w name content configuration text =>
      simp only [Use.isClear, Use.entry?, Bool.false_eq_true, if_false]
      change Orderly _ _ ((used c uses).set w name content configuration text).1.store
      rw [← h.making.key]
      cases hk : (used c uses).key w name content configuration with
      | error fault =>
          unfold set
          rw [hk]
          simpa [Except.toOption] using orderly
      | ok key =>
          rw [← h.making.limits] at orderly ⊢
          rw [set_of_key hk]
          exact orderly.insert w.now key text

/-- However a cache is used, its store stays in order. -/
theorem kept_used {c : Cache} (empty : c.store = {}) (uses : List Use) : Kept c uses := by
  induction uses using List.reverseRecOn with
  | nil => exact ⟨⟨rfl, rfl, rfl, rfl⟩, empty ▸ Orderly.empty _⟩
  | append_singleton uses u ih => exact ih.snoc u

/-- The capacity is that of the cache as it is. -/
theorem Kept.store {c : Cache} {uses : List Use} (h : Kept c uses) :
    Orderly (used c uses).limits.capacity (written c uses) (used c uses).store := by
  rw [h.making.limits]
  exact h.orderly

/-- An entry stays for as long as no use takes it out. -/
theorem mem_used_of_spared {c : Cache} (empty : c.store = {}) (uses : List Use) {later : List Use}
    {entry : Entry} (held : entry ∈ (used c uses).store.row)
    (spared : ∀ earlier u, earlier ++ [u] <+: later →
      ¬ u.Removes (used c (uses ++ earlier)) entry) :
    entry ∈ (used c (uses ++ later)).store.row := by
  induction later using List.reverseRecOn with
  | nil => rwa [List.append_nil]
  | append_singleton later u ih =>
      have before := ih fun earlier v front =>
        spared earlier v (front.trans (List.prefix_append _ _))
      have orderly := (kept_used empty (uses ++ later)).store
      rw [← List.append_assoc, used_snoc, mem_after_iff orderly]
      exact .inr ⟨before, spared later u (List.prefix_refl _)⟩

/-- An entry has not expired as long as its age has not reached the lifetime. -/
theorem Store.expired_eq_false_iff {limits : Limits} {now : Nat} {entry : Entry} :
    expired limits now entry = false ↔
      ∀ lifetime, limits.lifetime = some lifetime → now - entry.insertedAt < lifetime := by
  unfold expired
  cases limits.lifetime <;> simp

/-- Of two entries the younger one has not expired if the older one has not. -/
theorem Store.expired_of_le {limits : Limits} {now : Nat} {a b : Entry}
    (le : now - b.insertedAt ≤ now - a.insertedAt) (young : expired limits now a = false) :
    expired limits now b = false := by
  rw [expired_eq_false_iff] at young ⊢
  exact fun lifetime limited => le.trans_lt (young lifetime limited)

/-- An entry that leaves when a key is set is the oldest one. -/
theorem Store.victim_le {s : Store} {limits : Limits} {rendered : String} {oldest : Entry}
    (sorted : s.row.Pairwise (·.insertedAt ≤ ·.insertedAt))
    (leaving : s.victim? limits rendered = some oldest) :
    oldest ∈ s.row ∧ ∀ entry ∈ s.row, oldest.insertedAt ≤ entry.insertedAt := by
  unfold victim? at leaving
  split at leaving
  · obtain ⟨rest, entries⟩ := List.head?_eq_some_iff.mp leaving
    rw [entries] at sorted ⊢
    refine ⟨List.mem_cons_self, fun entry held => ?_⟩
    rcases List.mem_cons.mp held with rfl | later
    · exact le_rfl
    · exact (List.pairwise_cons.mp sorted).1 entry later
  · cases leaving

section

variable {c : Cache} {w : Surroundings} {name : String} {content : List UInt8}
variable {configuration : Configuration} {text : String}

/-- A text that is given out is that of an entry under the key, which has not expired. -/
theorem young_of_get (h : (c.get w name content configuration).1 = some text) :
    ∃ key, c.key w name content configuration = .ok key ∧
      ∃ entry, c.store.find? key.render = some entry ∧ entry.text = text ∧
        Store.expired c.limits w.now entry = false := by
  unfold get at h
  cases hk : c.key w name content configuration with
  | error fault =>
      rw [hk] at h
      cases h
  | ok key =>
      rw [hk] at h
      refine ⟨key, rfl, ?_⟩
      dsimp only at h
      unfold Store.lookup at h
      cases found : c.store.find? key.render with
      | none =>
          rw [found] at h
          cases h
      | some entry =>
          rw [found] at h
          cases old : Store.expired c.limits w.now entry with
          | true => simp [old] at h
          | false =>
              simp only [old, Bool.false_eq_true, if_false, Option.some.injEq] at h
              exact ⟨entry, rfl, h, old⟩

/-- What is reported as evicted is the key of the entry that has to leave. -/
theorem victim_of_evicted (agrees : c.store.Agrees)
    (bounded : c.limits.capacity ≠ 0 → c.store.size ≤ c.limits.capacity) {k : String}
    (h : Event.evicted k ∈ (c.set w name content configuration text).2) :
    ∃ key oldest, c.key w name content configuration = .ok key ∧
      c.store.victim? c.limits key.render = some oldest ∧ oldest.key.render = k := by
  unfold set at h
  cases hk : c.key w name content configuration with
  | error fault =>
      rw [hk] at h
      simp at h
  | ok key =>
      rw [hk] at h
      dsimp only at h
      rw [Store.evicted_eq agrees bounded, List.map_map] at h
      obtain ⟨oldest, leaving, same⟩ := List.mem_map.mp h
      exact ⟨key, oldest, rfl, Option.mem_toList.mp leaving, Event.evicted.inj same⟩

end

/-- A cache that has been used respects the age of its entries. -/
structure RespectsAge (fresh : Cache) (uses : List Use) : Prop where
  /-- The two parts of the store agree, so that its row holds all its entries. -/
  agrees : (used fresh uses).store.Agrees
  /-- Insertion times do not decrease along the order in which entries leave. -/
  sorted : (used fresh uses).store.row.Pairwise (·.insertedAt ≤ ·.insertedAt)
  /-- What is given out under a key is what the key was set to last, and this was done less than the
  lifetime ago. -/
  young : ∀ w name content configuration text,
    ((used fresh uses).get w name content configuration).1 = some text →
      ∃ key entry, (used fresh uses).key w name content configuration = .ok key ∧
        (written fresh uses).reverse.find? (·.key.render == key.render) = some entry ∧
        entry.text = text ∧
        ∀ lifetime, fresh.limits.lifetime = some lifetime → w.now < entry.insertedAt + lifetime
  /-- Getting the key of an entry that has expired gives nothing and removes the entry. -/
  dropped : ∀ w name content configuration key, ∀ entry ∈ (used fresh uses).store.row,
    (used fresh uses).key w name content configuration = .ok key → entry.key.render = key.render →
      Store.expired fresh.limits w.now entry = true →
        ((used fresh uses).get w name content configuration).1 = none ∧
          ((used fresh uses).get w name content configuration).2.1.store.find? key.render = none
  /-- After any use those entries are there that it has written, and those that were there before
  and that it does not remove: by clearing, by getting the key of an entry that has expired, by
  setting the key anew, or by evicting. -/
  removed : ∀ (u : Use) (entry : Entry), entry ∈ (u.after (used fresh uses)).store.row ↔
    u.entry? (used fresh uses) = some entry ∨
      entry ∈ (used fresh uses).store.row ∧ ¬ u.Removes (used fresh uses) entry
  /-- However long the run goes on, an entry lingers until the first use that removes it. -/
  lingers : ∀ later, ∀ entry ∈ (used fresh uses).store.row,
    (∀ earlier u, earlier ++ [u] <+: later → ¬ u.Removes (used fresh (uses ++ earlier)) entry) →
      entry ∈ (used fresh (uses ++ later)).store.row
  /-- If an entry is evicted that has not expired, nothing that has expired is left. -/
  evicted : ∀ w name content configuration text, ∀ entry ∈ (used fresh uses).store.row,
    .evicted entry.key.render ∈ ((used fresh uses).set w name content configuration text).2 →
      Store.expired fresh.limits w.now entry = false →
        ∀ left ∈ ((used fresh uses).set w name content configuration text).1.store.row,
          Store.expired fresh.limits w.now left = false

/-- However a cache of any capacity and lifetime is used, at times that never go back, it respects
the age of its entries. -/
theorem used_respectsAge (limits : Limits) (allowed : List String) (source : VariableSource)
    (manifest : Option String) (uses : List Use) (timely : Timely uses) :
    RespectsAge { limits, allowed, source, manifest } uses := by
  generalize start : ({ limits, allowed, source, manifest } : Cache) = fresh
  have empty : fresh.store = {} := by rw [← start]
  have kept := kept_used empty uses
  have orderly := kept.store
  have sorted := (timely.sorted fresh).sublist orderly.kept
  refine ⟨orderly.agrees, sorted, ?_, ?_, mem_after_iff orderly,
    fun later entry held => mem_used_of_spared empty uses held, ?_⟩
  · intro w name content configuration text got
    obtain ⟨key, hk, entry, found, same, recent⟩ := young_of_get got
    have under := orderly.agrees.own key.render entry found
    refine ⟨key, entry, hk, ?_, same, fun lifetime limited => ?_⟩
    · rw [← under] at found ⊢
      exact orderly.latest entry (orderly.agrees.mem_row_iff.mpr found)
    · rw [kept.making.limits] at recent
      have age := Store.expired_eq_false_iff.mp recent lifetime limited
      omega
  · intro w name content configuration key entry held hk under old
    have found := orderly.agrees.mem_row_iff.mp held
    rw [← kept.making.limits] at old
    rw [under] at found
    refine ⟨by simp [get, hk, Store.lookup, found, old], ?_⟩
    rw [get_of_key hk]
    simp [Store.lookup, found, old, Store.find?_erase]
  · intro w name content configuration text entry held evicted young left later
    obtain ⟨key, oldest, hk, leaving, same⟩ :=
      victim_of_evicted orderly.agrees orderly.bounded evicted
    obtain ⟨member, least⟩ := Store.victim_le sorted leaving
    have found := orderly.agrees.mem_row_iff.mp held
    rw [← same, orderly.agrees.mem_row_iff.mp member] at found
    obtain rfl := Option.some.inj found
    rw [set_of_key hk, Store.mem_insert_iff orderly.agrees orderly.bounded] at later
    rcases later with rfl | ⟨older, _⟩
    · exact Store.expired_of_le (by simp) young
    · exact Store.expired_of_le (Nat.sub_le_sub_left (least left older) _) young

/-- A text that lives for five seconds is set and asked for a second before it expires; this leaves
it in the store.  Asked for at the end of its life, it is not given out. -/
theorem used_respectsAge_five_seconds :
    let fresh : Cache := { limits := ⟨2, some 5⟩ }
    let uses := [.set {} "a.js" [97] (.ok none) "A", .get { now := 4 } "a.js" [97] (.ok none)]
    Timely uses ∧ (used fresh uses).store.row.map Entry.text = ["A"] ∧
      ((used fresh uses).get { now := 5 } "a.js" [97] (.ok none)).1 = none := by
  intro fresh uses
  have timely : Timely uses := by simp [uses, Timely, Use.time?]
  have age : RespectsAge fresh uses := used_respectsAge ⟨2, some 5⟩ [] .process none uses timely
  obtain ⟨key, hk⟩ : ∃ key, ∀ now store,
      ({ fresh with store } : Cache).key { now } "a.js" [97] (.ok none) = .ok key :=
    ⟨.of "a.js" (Digest.of [97]) (configurationDigest none) (environmentDigest [] fun _ => none)
      Digest.empty, fun _ _ => rfl⟩
  let entry : Entry := ⟨key, "A", 0⟩
  let store : Store := ⟨({} : Table Entry).insert key.render entry, [key.render]⟩
  have found : store.find? key.render = some entry := by
    simp [store, Store.find?, Table.find?_insert]
  have inserted : Store.insert {} fresh.limits 0 key "A" = (store, []) := rfl
  have looked : store.lookup fresh.limits 4 key.render = (.hit "A", store) := by
    simp [Store.lookup, found, Store.expired, fresh, entry]
  have last : used fresh uses = { fresh with store } := by
    rw [used, List.foldl_cons, List.foldl_cons, List.foldl_nil, Use.after, Use.after,
      set_of_key (hk 0 {})]
    dsimp only
    rw [inserted, get_of_key (hk 4 store)]
    dsimp only
    rw [looked]
  have held : (used fresh uses).store.row = [entry] := by
    rw [last]
    simp [Store.row, found, store]
  refine ⟨timely, by rw [held]; rfl, ?_⟩
  exact (age.dropped { now := 5 } "a.js" [97] (.ok none) key entry
    (by rw [held]; exact List.mem_singleton_self _) (by rw [last]; exact hk 5 store) rfl rfl).1

end Cache
end HotReload
