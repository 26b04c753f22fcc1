import HotReload.Proofs.Cache.Agreement
import Mathlib.Data.List.Dedup

/-!
# What a cache keeps

A cache whose entries do not expire is used by setting, getting and clearing, in any order and in
any surroundings.  What it holds afterwards can be read off the list of what has been set since it
was last cleared (`stored`): the keys are the last ones of that list, each counted where it was set
last and no more of them than the capacity allows, and the text of a key is the one it was set to
last.

However a cache is used, the two parts of its store agree (`agrees_used`).  What they hold is the
invariant `Recent` of a run.  Setting a key preserves it (`Recent.insert`): the key moves to the end
of the queue, and whatever the earlier evictions have dropped would have been dropped now
(`newest_push`).  The main result is `used_holds_newest`.
-/

namespace HotReload
namespace Cache

section Distinct

variable {α : Type}

/-- Taking an element out of a list without repetitions takes out one at most. -/
theorem length_filter_ne_ge [DecidableEq α] {xs : List α} (distinct : xs.Nodup) (x : α) :
    xs.length - 1 ≤ (xs.filter (· != x)).length := by
  have removed := distinct.erase_eq_filter x
  rw [← removed]
  exact List.le_length_erase

/-- Dropping the oldest elements before one is moved to the end makes no difference. -/
theorem newest_push [DecidableEq α] (capacity : Nat) {xs : List α} (distinct : xs.Nodup) (x : α) :
    newest capacity ((newest capacity xs).filter (· != x) ++ [x]) =
      newest capacity (xs.filter (· != x) ++ [x]) := by
  by_cases h : capacity = 0
  · simp [newest, h]
  · obtain ⟨dropped, split_⟩ := newest_suffix capacity xs
    by_cases all : dropped = []
    · rw [all, List.nil_append] at split_
      rw [split_]
    · have full : (newest capacity xs).length = capacity := by
        have positive := List.length_pos_of_ne_nil all
        have lengths := congrArg List.length split_
        rw [List.length_append] at lengths
        rw [newest, if_neg h, List.rtake, List.length_drop] at lengths ⊢
        omega
      have kept : (newest capacity xs).Nodup := distinct.sublist (newest_suffix capacity xs).sublist
      have long := length_filter_ne_ge kept x
      have whole : xs.filter (· != x) =
          dropped.filter (· != x) ++ (newest capacity xs).filter (· != x) := by
        rw [← List.filter_append, split_]
      rw [whole, List.append_assoc]
      refine (newest_append _ h ?_).symm
      rw [List.length_append, List.length_singleton]
      omega

/-- One more element of a list of which the last occurrences are kept. -/
theorem dedup_snoc [DecidableEq α] (xs : List α) (x : α) :
    (xs ++ [x]).dedup = xs.dedup.filter (· != x) ++ [x] := by
  induction xs with
  | nil => rfl
  | cons y xs ih =>
      by_cases later : y ∈ xs
      · rw [List.cons_append, List.dedup_cons_of_mem (List.mem_append_left _ later),
          List.dedup_cons_of_mem later, ih]
      · rw [List.dedup_cons_of_notMem later, List.filter_cons]
        by_cases same : y = x
        · subst same
          rw [List.cons_append, List.dedup_cons_of_mem (by simp), ih]
          simp
        · rw [List.cons_append, List.dedup_cons_of_notMem (by simp [later, same]), ih]
          simp [same]

end Distinct

/-- A store holds the keys that were set last, in this order, each with the text it was set to
last. -/
structure Recent (capacity : Nat) (sets : List (String × String)) (s : Store) : Prop where
  order : s.order = newest capacity (sets.map Prod.fst).dedup
  texts : ∀ key entry, s.find? key = some entry → sets.reverse.lookup key = some entry.text

namespace Recent

variable {limits : Limits} {capacity : Nat} {sets : List (String × String)} {s : Store}

theorem empty (capacity : Nat) : Recent capacity [] {} where
  order := by simp [newest, List.rtake]
  texts := fun _ _ found => nomatch found

/-- Setting a key adds to what has been set. -/
theorem insert (h : Recent limits.capacity sets s) (agrees : s.Agrees) (now : Nat) (key : Key)
    (text : String) :
    Recent limits.capacity (sets ++ [(key.render, text)]) (s.insert limits now key text).1 where
  order :=
    calc (s.insert limits now key text).1.order
        = newest limits.capacity (s.order.filter (· != key.render) ++ [key.render]) :=
          agrees.order_insert limits now key text
      _ = newest limits.capacity ((newest limits.capacity (sets.map Prod.fst).dedup).filter
            (· != key.render) ++ [key.render]) := by
          rw [h.order]
      _ = newest limits.capacity (((sets ++ [(key.render, text)]).map Prod.fst).dedup) := by
          rw [newest_push limits.capacity (List.nodup_dedup _), List.map_append, List.map_singleton,
            dedup_snoc]
  texts := by
    intro other entry found
    rw [List.reverse_append, List.reverse_singleton, List.singleton_append, List.lookup_cons]
    rw [s.find?_insert] at found
    split at found
    · cases found
    · split at found
      · rename_i same
        rw [same, beq_self_eq_true, ← Option.some.inj found]
      · rename_i apart
        rw [beq_false_of_ne apart]
        exact h.texts other entry found

/-- A key is found if it is among those that are kept, with the text it was set to last. -/
theorem find_text (h : Recent capacity sets s) (agrees : s.Agrees) (key : String) :
    (s.find? key).map Entry.text =
      if key ∈ newest capacity (sets.map Prod.fst).dedup then sets.reverse.lookup key
      else none := by
  rw [← h.order]
  cases found : s.find? key with
  | none =>
      have missing : key ∉ s.order := by simp [agrees.mem_order_iff, found]
      rw [if_neg missing, Option.map_none]
  | some entry =>
      have listed : key ∈ s.order := by simp [agrees.mem_order_iff, found]
      rw [if_pos listed, Option.map_some, h.texts key entry found]

end Recent

/-- A use of a cache, in the surroundings of the moment. -/
inductive Use where
  | set (w : Surroundings) (name : String) (content : List UInt8) (configuration : Configuration)
    (text : String)
  | get (w : Surroundings) (name : String) (content : List UInt8) (configuration : Configuration)
  | clear

namespace Use

/-- The cache after a use. -/
def after (c : Cache) : Use → Cache
  | .set w name content configuration text => (c.set w name content configuration text).1
  | .get w name content configuration => (c.get w name content configuration).2.1
  | .clear => c.clear

/-- The rendered key and the text that a use stores; a configuration that cannot be encoded has no
key. -/
def stored? (c : Cache) : Use → Option (String × String)
  | .set w name content configuration text =>
    (c.key w name content configuration).toOption.map fun key => (key.render, text)
  | _ => none

/-- Whether a use clears the cache. -/
def isClear : Use → Bool
  | .clear => true
  | _ => false

end Use

/-- The cache after several uses. -/
def used (c : Cache) (uses : List Use) : Cache := uses.foldl Use.after c

/-- What has been stored since the last time the cache was cleared, in order. -/
def stored (c : Cache) (uses : List Use) : List (String × String) :=
  (uses.reverse.takeWhile (!·.isClear)).reverse.filterMap (Use.stored? c)

theorem used_snoc (c : Cache) (uses : List Use) (u : Use) :
    used c (uses ++ [u]) = u.after (used c uses) :=
  List.foldl_concat _ _ _ _

theorem stored_snoc (c : Cache) (uses : List Use) (u : Use) :
    stored c (uses ++ [u]) =
      if u.isClear then [] else stored c uses ++ (u.stored? c).toList := by
  unfold stored
  rw [List.reverse_append, List.reverse_singleton, List.singleton_append, List.takeWhile_cons]
  cases u.isClear with
  | true => simp
  | false =>
      simp only [Bool.not_false, if_true, List.reverse_cons, List.filterMap_append,
        Bool.false_eq_true, if_false]
      cases entry : u.stored? c <;> simp [entry]

/-- Every use keeps the two parts of the store in agreement. -/
theorem Use.agrees_after {c : Cache} (h : c.store.Agrees) (u : Use) :
    (u.after c).store.Agrees := by
  cases u with
  | set w name content configuration text => exact agrees_set h w name content configuration text
  | get w name content configuration => exact agrees_get h w name content configuration
  | clear => exact Store.Agrees.empty

/-- However a cache is used, with or without a lifetime, the two parts of its store agree. -/
theorem agrees_used {c : Cache} (h : c.store.Agrees) (uses : List Use) :
    (used c uses).store.Agrees := by
  induction uses using List.reverseRecOn with
  | nil => exact h
  | append_singleton uses u ih =>
      rw [used_snoc]
      exact u.agrees_after ih

/-- Caches that agree in all but their entries. -/
structure SameMaking (c d : Cache) : Prop where
  limits : c.limits = d.limits
  allowed : c.allowed = d.allowed
  source : c.source = d.source
  manifest : c.manifest = d.manifest

namespace SameMaking

variable {c d : Cache}

theorem key (h : SameMaking c d) : c.key = d.key := by
  funext w name content configuration
  unfold Cache.key
  rw [h.allowed, h.source, h.manifest]

theorem withStore (h : SameMaking c d) (store : Store) : SameMaking { c with store } d :=
  ⟨h.limits, h.allowed, h.source, h.manifest⟩

/-- A use touches the entries only. -/
theorem after (h : SameMaking c d) (u : Use) : SameMaking (u.after c) d := by
  cases u with
  | set w name content configuration text =>
      change SameMaking (c.set w name content configuration text).1 d
      unfold Cache.set
      split
      · exact h
      · exact h.withStore _
  | get w name content configuration =>
      change SameMaking (c.get w name content configuration).2.1 d
      unfold Cache.get
      split
      · exact h
      · split <;> exact h.withStore _
  | clear => exact h.withStore {}

end SameMaking

theorem making_used (c : Cache) (uses : List Use) : SameMaking (used c uses) c := by
  induction uses using List.reverseRecOn with
  | nil => exact ⟨rfl, rfl, rfl, rfl⟩
  | append_singleton uses u ih =>
      rw [used_snoc]
      exact ih.after u

/-- An entry that a use has not written was there before. -/
theorem Use.found_before {c : Cache} {u : Use} {rendered : String} {entry : Entry}
    (found : (u.after c).store.find? rendered = some entry) :
    c.store.find? rendered = some entry ∨ ∃ w name content configuration,
      u = .set w name content configuration entry.text ∧
        c.key w name content configuration = .ok entry.key := by
  cases u with
  | clear => cases found
  | get w name content configuration => exact .inl (find?_of_get found)
  | set w name content configuration text =>
      cases hk : c.key w name content configuration with
      | error fault =>
          change (c.set w name content configuration text).1.store.find? rendered = _ at found
          unfold Cache.set at found
          rw [hk] at found
          exact .inl found
      | ok key =>
          rcases find?_of_set hk found with before | ⟨_, rfl⟩
          · exact .inl before
          · exact .inr ⟨w, name, content, configuration, rfl, hk⟩

/-- Every entry has been written by setting, with the text and under the key of the call. -/
theorem set_of_found {c : Cache} (empty : c.store = {}) {uses : List Use} {rendered : String}
    {entry : Entry} (found : (used c uses).store.find? rendered = some entry) :
    ∃ w name content configuration, Use.set w name content configuration entry.text ∈ uses ∧
      c.key w name content configuration = .ok entry.key := by
  induction uses using List.reverseRecOn with
  | nil =>
      change c.store.find? rendered = some entry at found
      rw [empty] at found
      cases found
  | append_singleton uses u ih =>
      rw [used_snoc] at found
      rcases u.found_before found with before | ⟨w, name, content, configuration, rfl, hk⟩
      · obtain ⟨w, name, content, configuration, member, hk⟩ := ih before
        exact ⟨w, name, content, configuration, List.mem_append_left _ member, hk⟩
      · rw [(making_used c uses).key] at hk
        exact ⟨w, name, content, configuration, by simp, hk⟩

/-- Without a lifetime a lookup finds the entry of the key and leaves the store as it is. -/
theorem Store.lookup_lasting (s : Store) {limits : Limits} (lasting : limits.lifetime = none)
    (now : Nat) (key : String) :
    s.lookup limits now key = (((s.find? key).map Entry.text).elim .miss .hit, s) := by
  unfold lookup
  cases s.find? key with
  | none => rfl
  | some entry => simp [expired, lasting]

/-- Without a lifetime, getting gives out the text of the key's entry and changes nothing. -/
theorem get_lasting (c : Cache) (lasting : c.limits.lifetime = none) (w : Surroundings)
    (name : String) (content : List UInt8) (configuration : Configuration) :
    (c.get w name content configuration).1 =
        ((c.key w name content configuration).toOption.bind fun key =>
          (c.store.find? key.render).map Entry.text) ∧
      (c.get w name content configuration).2.1 = c := by
  unfold get
  cases c.key w name content configuration with
  | error fault => exact ⟨rfl, rfl⟩
  | ok key =>
      dsimp only
      rw [Store.lookup_lasting c.store lasting w.now key.render]
      cases found : (c.store.find? key.render).map Entry.text with
      | none => exact ⟨found.symm, rfl⟩
      | some text => exact ⟨found.symm, rfl⟩

/-- One more use keeps to what has been set last. -/
theorem Recent.after {c d : Cache} {sets : List (String × String)}
    (h : Recent c.limits.capacity sets c.store) (making : SameMaking c d) (agrees : c.store.Agrees)
    (lasting : c.limits.lifetime = none) (u : Use) :
    Recent c.limits.capacity (if u.isClear then [] else sets ++ (u.stored? d).toList)
      (u.after c).store := by
  cases u with
  | clear => exact Recent.empty _
  | get w name content configuration =>
      have same := (get_lasting c lasting w name content configuration).2
      rw [show (Use.get w name content configuration).after c = c from same]
      simpa [Use.isClear, Use.stored?] using h
  | set w name content configuration text =>
      change Recent _ (sets ++ Option.toList (Option.map _ _))
        (c.set w name content configuration text).1.store
      rw [← making.key]
      cases hk : c.key w name content configuration with
      | error fault =>
          unfold set
          rw [hk]
          simpa [Except.toOption] using h
      | ok key =>
          rw [set_of_key hk]
          exact h.insert agrees w.now key text

/-- However a cache is used, it holds what has been set last. -/
theorem recent_used {c : Cache} (lasting : c.limits.lifetime = none) (empty : c.store = {})
    (uses : List Use) : Recent c.limits.capacity (stored c uses) (used c uses).store := by
  induction uses using List.reverseRecOn with
  | nil => exact empty ▸ Recent.empty _
  | append_singleton uses u ih =>
      have making := making_used c uses
      have agrees : (used c uses).store.Agrees := agrees_used (empty ▸ Store.Agrees.empty) uses
      rw [used_snoc, stored_snoc]
      rw [← making.limits] at ih lasting ⊢
      exact ih.after making agrees lasting u

/-- A new cache whose entries do not expire. -/
def lasting (capacity : Nat) (allowed : List String) (source : VariableSource)
    (manifest : Option String) : Cache :=
  { limits := { capacity }, allowed, source, manifest }

/-- However a cache whose entries do not expire has been used, the two parts of its store agree: the
queue lists exactly the keys of the entries, each once, and every entry stands under its own
rendered key, which is that of a call.  These are the keys that were set last, in this order; the
cache gives out the text that each of them was set to last, and neither getting nor failing to set
changes it. -/
theorem used_holds_newest (capacity : Nat) (allowed : List String) (source : VariableSource)
    (manifest : Option String) (uses : List Use) :
    let fresh := lasting capacity allowed source manifest
    let sets := stored fresh uses
    let kept := newest capacity (sets.map Prod.fst).dedup
    let c := used fresh uses
    (c.store.Agrees ∧ c.store.order = kept ∧ (capacity ≠ 0 → c.store.size ≤ capacity) ∧
      ∀ rendered entry, c.store.find? rendered = some entry →
        sets.reverse.lookup rendered = some entry.text ∧
          ∃ w name content configuration,
            Use.set w name content configuration entry.text ∈ uses ∧
              c.key w name content configuration = .ok entry.key) ∧
    ∀ w name content configuration,
      ((c.get w name content configuration).1 =
          match c.key w name content configuration with
          | .ok key => if key.render ∈ kept then sets.reverse.lookup key.render else none
          | .error _ => none) ∧
        (c.get w name content configuration).2.1 = c ∧
        ∀ text fault, c.key w name content configuration = .error fault →
          (c.set w name content configuration text).1 = c := by
  intro fresh sets kept c
  have making : SameMaking c fresh := making_used fresh uses
  have agrees : c.store.Agrees := agrees_used Store.Agrees.empty uses
  have recent : Recent fresh.limits.capacity sets c.store := recent_used rfl rfl uses
  refine ⟨⟨agrees, recent.order, ?_, ?_⟩, ?_⟩
  · intro bounded
    rw [agrees.size_eq, recent.order]
    exact length_newest_le bounded _
  · intro rendered entry found
    rw [making.key]
    exact ⟨recent.texts rendered entry found, set_of_found rfl found⟩
  · intro w name content configuration
    have endless : c.limits.lifetime = none := by rw [making.limits]; rfl
    obtain ⟨got, same⟩ := get_lasting c endless w name content configuration
    refine ⟨?_, same, ?_⟩
    · rw [got]
      cases c.key w name content configuration with
      | error fault => rfl
      | ok key => exact recent.find_text agrees key.render
    · intro text fault failed
      unfold set
      rw [failed]

end Cache
end HotReload
