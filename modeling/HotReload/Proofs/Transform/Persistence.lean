import HotReload.Proofs.Cache.Environments
import HotReload.Proofs.Cache.Recency
import HotReload.Transform.Basic

/-!
# What a transformation leaves in the cache

A transformation that fails leaves the cache as it was, but for an entry of its own key that has
expired.  A transformation that succeeds leaves its code under its key, and where entries do not
expire, it stays there until it has to leave for another one or the cache is cleared: whatever else
is done with the cache, by this transformer or by others, whoever asks for the same source with the
same options gets this code, and no tool is used.

What one operation does to the entry of a key is `Operation.holds_after`: a transformation that
finds the key writes nothing, one that does not find its own key writes another one.  The run
follows from it (`holds_performed`).
-/

namespace HotReload
namespace Cache

variable {c : Cache} {w w' : Surroundings} {name : String} {content : List UInt8}
variable {configuration : Configuration} {k : Key} {key text : String}

/-- A cache holds a text under a key. -/
def Holds (c : Cache) (key text : String) : Prop := (c.store.find? key).map Entry.text = some text

/-- Nothing but the variables in the list and the manifest is seen by a key. -/
theorem key_congr (listed : ∀ name ∈ c.allowed, c.source.lookup w' name = c.source.lookup w name)
    (manifest : ∀ path ∈ c.manifest, w'.files.read path = w.files.read path) :
    c.key w' name content configuration = c.key w name content configuration := by
  have environment : environmentDigest c.allowed (c.source.lookup w') =
      environmentDigest c.allowed (c.source.lookup w) :=
    congrArg Digest.of (environmentBytes_eq_iff.mpr listed)
  unfold Cache.key
  cases configuration with
  | error fault => rfl
  | ok value =>
      dsimp only
      rw [environment]
      cases found : c.manifest with
      | none => rfl
      | some path =>
          dsimp only
          rw [fileDigest, fileDigest, manifest path found]

/-- What is held under a key is got. -/
theorem get_of_holds (lasting : c.limits.lifetime = none)
    (hk : c.key w name content configuration = .ok k) (held : c.Holds k.render text) :
    (c.get w name content configuration).1 = some text ∧
      (c.get w name content configuration).2.1 = c := by
  obtain ⟨got, same⟩ := get_lasting c lasting w name content configuration
  rw [hk] at got
  exact ⟨got.trans held, same⟩

/-- Setting writes the text under its key, unless that has to leave at once. -/
theorem holds_set (hk : c.key w name content configuration = .ok k)
    (stays : .evicted k.render ∉ (c.set w name content configuration text).2) :
    (c.set w name content configuration text).1.Holds k.render text := by
  rw [Cache.set, hk] at stays
  rw [set_of_key hk, Holds]
  dsimp only at stays ⊢
  rw [Store.find?_insert, if_neg fun gone => stays (List.mem_map_of_mem gone), if_pos rfl]
  rfl

/-- Setting another key takes nothing away, unless an entry has to leave. -/
theorem Holds.set {text' : String} (held : c.Holds key text)
    (other : ∀ k, c.key w name content configuration = .ok k → key ≠ k.render)
    (stays : .evicted key ∉ (c.set w name content configuration text').2) :
    (c.set w name content configuration text').1.Holds key text := by
  rw [Cache.set] at stays ⊢
  cases hk : c.key w name content configuration with
  | error fault => exact held
  | ok k =>
      rw [hk] at stays
      dsimp only at stays ⊢
      rw [Holds, Store.find?_insert, if_neg fun gone => stays (List.mem_map_of_mem gone),
        if_neg (other k hk)]
      exact held

/-- Setting evicts nothing where any number of entries fits. -/
theorem evicted_notMem_set (unbounded : c.limits.capacity = 0) :
    .evicted key ∉ (c.set w name content configuration text).2 := by
  unfold set
  split
  · simp
  · simp [Store.evicted_insert_of_unbounded unbounded]

/-- The key that is set does not have to leave where the two parts of the store agree. -/
theorem own_notMem_set (agrees : c.store.Agrees)
    (hk : c.key w name content configuration = .ok k) :
    .evicted k.render ∉ (c.set w name content configuration text).2 := by
  rw [Cache.set, hk]
  intro leaves
  obtain ⟨other, gone, same⟩ := List.mem_map.mp leaves
  rw [Event.evicted.inj same] at gone
  exact agrees.notMem_evicted gone

end Cache

namespace Transformer

variable (t : Transformer) (w : Surroundings) (c : Cache) (file source : String)

/-- What a transformer gets from a cache. -/
def cached : Option String × Cache × List Cache.Event :=
  c.get w file (Text.utf8 source) (.ok (some t.options))

/-- How a transformer stores its code. -/
def stored (text : String) : Cache × List Cache.Event :=
  (t.cached w c file source).2.1.set w file (Text.utf8 source) (.ok (some t.options)) text

/-- The key under which a transformer looks its code up and stores it. -/
def keyOf : Cache.Key :=
  .of file (Digest.of (Text.utf8 source)) (Cache.configurationDigest (some t.options))
    (Cache.environmentDigest c.allowed (c.source.lookup w))
    (match c.manifest with
      | some path => Cache.fileDigest w.files path
      | none => Digest.empty)

variable {t w c file source} {text : String}

theorem key_eq : c.key w file (Text.utf8 source) (.ok (some t.options)) =
    .ok (t.keyOf w c file source) := rfl

/-- Code that is in the cache is given out, and nothing else happens. -/
theorem transform_of_hit (h : (t.cached w c file source).1 = some text) :
    (t.transform w c file source).result = .ofCode text ∧
      (t.transform w c file source).cache = (t.cached w c file source).2.1 ∧
      (t.transform w c file source).notes =
        (t.cached w c file source).2.2.map Cache.Event.note ++ [detail "cache" ("hit " ++ file)] ∧
      (t.transform w c file source).work = [] := by
  unfold cached at h ⊢
  unfold transform
  dsimp only
  generalize c.get w file (Text.utf8 source) (.ok (some t.options)) = got at h ⊢
  obtain ⟨found, c', events⟩ := got
  obtain rfl : found = some text := h
  exact ⟨rfl, rfl, rfl, rfl⟩

/-- Code that is not in the cache is compiled and stored. -/
theorem transform_of_compiled {r : Compiled} (miss : (t.cached w c file source).1 = none)
    (h : t.compile file source = .ok r) :
    (t.transform w c file source).result = .ofCode r.code ∧
      (t.transform w c file source).cache = (t.stored w c file source r.code).1 ∧
      (t.transform w c file source).notes =
        (t.cached w c file source).2.2.map Cache.Event.note ++
          detail "transform" (file ++ " -> " ++ r.strategy.name) ::
            (t.stored w c file source r.code).2.map Cache.Event.note := by
  unfold stored
  unfold cached at miss ⊢
  unfold transform
  dsimp only
  generalize c.get w file (Text.utf8 source) (.ok (some t.options)) = got at miss ⊢
  obtain ⟨found, c', events⟩ := got
  obtain rfl : found = none := miss
  dsimp only
  rw [h]
  exact ⟨rfl, rfl, rfl⟩

/-- What fails to compile is not stored. -/
theorem transform_of_fault {fault : TransformFault} (miss : (t.cached w c file source).1 = none)
    (h : t.compile file source = .error fault) :
    (t.transform w c file source).result = .ofError fault.message ∧
      (t.transform w c file source).cache = (t.cached w c file source).2.1 ∧
      (t.transform w c file source).notes =
        (t.cached w c file source).2.2.map Cache.Event.note ++
          [detail "transform" fault.message] := by
  unfold cached at miss ⊢
  unfold transform
  dsimp only
  generalize c.get w file (Text.utf8 source) (.ok (some t.options)) = got at miss ⊢
  obtain ⟨found, c', events⟩ := got
  obtain rfl : found = none := miss
  dsimp only
  rw [h]
  exact ⟨rfl, rfl, rfl⟩

end Transformer

/-- What can be done with a cache, in the surroundings of the moment. -/
inductive Operation where
  /-- A transformer is asked for the code of a source. -/
  | transform (t : Transformer) (w : Surroundings) (file source : String)
  /-- A transformer is asked for the code of a file. -/
  | transformFile (t : Transformer) (w : Surroundings) (path : String)
  /-- The cache is used without a transformer. -/
  | use (u : Cache.Use)

namespace Operation

/-- The cache after an operation. -/
def after (c : Cache) : Operation → Cache
  | .transform t w file source => (t.transform w c file source).cache
  | .transformFile t w path => (t.transformFile w c path).cache
  | .use u => u.after c

/-- What an operation leaves in the log. -/
def notes (c : Cache) : Operation → List Terminal.Note
  | .transform t w file source => (t.transform w c file source).notes
  | .transformFile t w path => (t.transformFile w c path).notes
  | .use (.set w name content configuration text) =>
    (c.set w name content configuration text).2.map Cache.Event.note
  | .use (.get w name content configuration) =>
    (c.get w name content configuration).2.2.map Cache.Event.note
  | .use .clear => []

/-- An operation that does not clear the cache, and of which the log does not say that a key had to
leave. -/
structure Spares (c : Cache) (key : String) (o : Operation) : Prop where
  keeps : o ≠ .use .clear
  stays : (Cache.Event.evicted key).note ∉ o.notes c

/-- A use of the cache that sets a key, without a transformer. -/
def Sets (c : Cache) (key text : String) (o : Operation) : Prop :=
  ∃ w name content configuration k, o = .use (.set w name content configuration text) ∧
    c.key w name content configuration = .ok k ∧ k.render = key

variable {c d : Cache} {key text : String}

theorem Sets.congr (h : Cache.SameMaking c d) {o : Operation} (sets : o.Sets c key text) :
    o.Sets d key text := by
  rwa [Sets, h.key] at sets

theorem making_cached (t : Transformer) (w : Surroundings) (c : Cache) (file source : String) :
    Cache.SameMaking (t.cached w c file source).2.1 c := by
  have own : Cache.SameMaking c c := ⟨rfl, rfl, rfl, rfl⟩
  exact own.after (.get w file (Text.utf8 source) (.ok (some t.options)))

/-- A transformation touches the entries of a cache only. -/
theorem making_transform (t : Transformer) (w : Surroundings) (c : Cache) (file source : String) :
    Cache.SameMaking (t.transform w c file source).cache c := by
  have got := making_cached t w c file source
  cases found : (t.cached w c file source).1 with
  | some text => rwa [(Transformer.transform_of_hit found).2.1]
  | none =>
      cases compiled : t.compile file source with
      | ok r =>
          rw [(Transformer.transform_of_compiled found compiled).2.1]
          exact got.after (.set w file (Text.utf8 source) (.ok (some t.options)) r.code)
      | error fault => rwa [(Transformer.transform_of_fault found compiled).2.1]

theorem making_after (c : Cache) (o : Operation) : Cache.SameMaking (o.after c) c := by
  have own : Cache.SameMaking c c := ⟨rfl, rfl, rfl, rfl⟩
  cases o with
  | transform t w file source => exact making_transform t w c file source
  | transformFile t w path =>
      rw [after, Transformer.transformFile]
      split
      · exact making_transform t w c path _
      · exact own
  | use u => exact own.after u

/-- A transformation changes nothing under a key that does not have to leave. -/
theorem holds_transform (lasting : c.limits.lifetime = none) {t : Transformer} {w : Surroundings}
    {file source : String} (held : c.Holds key text)
    (stays : (Cache.Event.evicted key).note ∉ (t.transform w c file source).notes) :
    (t.transform w c file source).cache.Holds key text := by
  have same : (t.cached w c file source).2.1 = c := (Cache.get_lasting c lasting w file _ _).2
  cases found : (t.cached w c file source).1 with
  | some other => rwa [(Transformer.transform_of_hit found).2.1, same]
  | none =>
      cases compiled : t.compile file source with
      | error fault => rwa [(Transformer.transform_of_fault found compiled).2.1, same]
      | ok r =>
          obtain ⟨_, cache, noted⟩ := Transformer.transform_of_compiled found compiled
          rw [cache]
          rw [Transformer.stored, same] at noted ⊢
          rw [noted] at stays
          refine held.set (fun k hk equal => ?_) fun evicted => stays
            (List.mem_append_right _ (List.mem_cons_of_mem _ (List.mem_map_of_mem evicted)))
          -- The key of this transformation is not in the cache.
          rw [equal] at held
          have got := (Cache.get_of_holds lasting hk held).1
          rw [Transformer.cached, got] at found
          cases found

/-- An operation that spares a key leaves under it what it held, or sets it. -/
theorem holds_after (lasting : c.limits.lifetime = none) {o : Operation} (spared : o.Spares c key)
    (held : c.Holds key text) :
    ∃ text', (o.after c).Holds key text' ∧ (text' = text ∨ o.Sets c key text') := by
  obtain ⟨keeps, stays⟩ := spared
  cases o with
  | transform t w file source => exact ⟨text, holds_transform lasting held stays, .inl rfl⟩
  | transformFile t w path =>
      refine ⟨text, ?_, .inl rfl⟩
      rw [notes, Transformer.transformFile] at stays
      rw [after, Transformer.transformFile]
      split at stays
      next source read => exact holds_transform lasting held stays
      · exact held
  | use u =>
      cases u with
      | clear => exact absurd rfl keeps
      | get w name content configuration =>
          refine ⟨text, ?_, .inl rfl⟩
          have same := (Cache.get_lasting c lasting w name content configuration).2
          change (c.get w name content configuration).2.1.Holds key text
          rwa [same]
      | set w name content configuration text' =>
          change ∃ text', (c.set w name content configuration _).1.Holds key text' ∧ _
          cases hk : c.key w name content configuration with
          | error fault =>
              refine ⟨text, ?_, .inl rfl⟩
              rwa [Cache.set, hk]
          | ok k =>
              by_cases own : k.render = key
              · subst own
                exact ⟨text', Cache.holds_set hk fun evicted => stays (List.mem_map_of_mem evicted),
                  .inr ⟨w, name, content, configuration, k, rfl, hk, rfl⟩⟩
              · refine ⟨text, held.set (fun k' hk' equal => ?_) fun evicted => ?_, .inl rfl⟩
                · rw [hk] at hk'
                  cases hk'
                  exact own equal.symm
                · exact stays (List.mem_map_of_mem evicted)

/-- The note of an eviction is that of no other event. -/
theorem evicted_of_note {e : Cache.Event} (h : e.note = (Cache.Event.evicted key).note) :
    e = .evicted key := by
  have texts := congrArg (fun n : Terminal.Note => n.text.toList) h
  cases e with
  | evicted other =>
      have keys : other.toList = key.toList := by simpa [Cache.Event.note] using texts
      rw [String.toList_inj.mp keys]
  | expired other => simp [Cache.Event.note] at texts
  | missed fault => simp [Cache.Event.note] at texts
  | notStored fault => simp [Cache.Event.note] at texts

theorem evicted_notMem_map {events : List Cache.Event} (h : .evicted key ∉ events) :
    (Cache.Event.evicted key).note ∉ events.map Cache.Event.note := by
  intro member
  obtain ⟨e, he, same⟩ := List.mem_map.mp member
  exact h (evicted_of_note same ▸ he)

/-- Getting evicts nothing. -/
theorem evicted_notMem_get (w : Surroundings) (name : String) (content : List UInt8)
    (configuration : Cache.Configuration) :
    .evicted key ∉ (c.get w name content configuration).2.2 := by
  unfold Cache.get
  split
  · simp
  · split <;> simp

/-- A transformation evicts no key that stays when its code is stored. -/
theorem evicted_notMem_transform {t : Transformer} {w : Surroundings} {file source : String}
    (stays : ∀ text, .evicted key ∉ (t.stored w c file source text).2) :
    (Cache.Event.evicted key).note ∉ (t.transform w c file source).notes := by
  have got : (Cache.Event.evicted key).note ∉
      (t.cached w c file source).2.2.map Cache.Event.note :=
    evicted_notMem_map (evicted_notMem_get w file (Text.utf8 source) (.ok (some t.options)))
  have other (topic text : String) (h : topic = "transform" ∨ 'h' ∈ text.toList.head?) :
      (Cache.Event.evicted key).note ≠ Transformer.detail topic text := by
    intro same
    have topics := congrArg Terminal.Note.topic same
    have texts := congrArg (fun n : Terminal.Note => n.text.toList.head?) same
    rcases h with rfl | first
    · simp [Cache.Event.note, Transformer.detail] at topics
    · simp [Cache.Event.note, Transformer.detail] at texts
      simp [← texts] at first
  cases found : (t.cached w c file source).1 with
  | some text =>
      rw [(Transformer.transform_of_hit found).2.2.1, List.mem_append, List.mem_singleton]
      exact not_or.mpr ⟨got, other _ _ (.inr (by simp))⟩
  | none =>
      cases compiled : t.compile file source with
      | error fault =>
          rw [(Transformer.transform_of_fault found compiled).2.2, List.mem_append,
            List.mem_singleton]
          exact not_or.mpr ⟨got, other _ _ (.inl rfl)⟩
      | ok r =>
          rw [(Transformer.transform_of_compiled found compiled).2.2, List.mem_append,
            List.mem_cons]
          exact not_or.mpr ⟨got, not_or.mpr ⟨other _ _ (.inl rfl),
            evicted_notMem_map (stays r.code)⟩⟩

theorem evicted_notMem_transform_of_unbounded (unbounded : c.limits.capacity = 0)
    (t : Transformer) (w : Surroundings) (file source : String) :
    (Cache.Event.evicted key).note ∉ (t.transform w c file source).notes := by
  refine evicted_notMem_transform fun text => Cache.evicted_notMem_set ?_
  rw [(making_cached t w c file source).limits, unbounded]

/-- A transformation spares its own key where the two parts of the store agree. -/
theorem spares_own (agrees : c.store.Agrees) (t : Transformer) (w : Surroundings)
    (file source : String) :
    (Operation.transform t w file source).Spares c (t.keyOf w c file source).render := by
  refine ⟨by simp, evicted_notMem_transform fun text => Cache.own_notMem_set ?_ ?_⟩
  · exact Cache.agrees_get agrees w file (Text.utf8 source) (.ok (some t.options))
  · rw [(making_cached t w c file source).key]
    exact Transformer.key_eq

/-- Where any number of entries fits, an operation spares every key, unless it clears the cache. -/
theorem spares_of_unbounded (unbounded : c.limits.capacity = 0) {o : Operation}
    (keeps : o ≠ .use .clear) : o.Spares c key := by
  refine ⟨keeps, ?_⟩
  cases o with
  | transform t w file source =>
      exact evicted_notMem_transform_of_unbounded unbounded t w file source
  | transformFile t w path =>
      rw [notes, Transformer.transformFile]
      split
      · exact evicted_notMem_transform_of_unbounded unbounded t w path _
      · exact List.not_mem_nil
  | use u =>
      cases u with
      | set w name content configuration text =>
          exact evicted_notMem_map (Cache.evicted_notMem_set unbounded)
      | get w name content configuration =>
          exact evicted_notMem_map (evicted_notMem_get w name content configuration)
      | clear => exact List.not_mem_nil

end Operation

namespace Cache

/-- The cache after several operations. -/
def performed (c : Cache) (os : List Operation) : Cache := os.foldl Operation.after c

/-- Operations one after another that all spare a key. -/
def SparedBy (key : String) (c : Cache) : List Operation → Prop
  | [] => True
  | o :: os => o.Spares c key ∧ SparedBy key (o.after c) os

variable {c : Cache} {key text : String}

theorem making_performed (c : Cache) (os : List Operation) : SameMaking (c.performed os) c := by
  induction os generalizing c with
  | nil => exact ⟨rfl, rfl, rfl, rfl⟩
  | cons o os ih =>
      have first := Operation.making_after c o
      have later := ih (o.after c)
      exact ⟨later.limits.trans first.limits, later.allowed.trans first.allowed,
        later.source.trans first.source, later.manifest.trans first.manifest⟩

/-- Where any number of entries fits, operations that do not clear the cache spare every key. -/
theorem sparedBy_of_unbounded (unbounded : c.limits.capacity = 0) {os : List Operation}
    (keeps : ∀ o ∈ os, o ≠ .use .clear) : SparedBy key c os := by
  induction os generalizing c with
  | nil => trivial
  | cons o os ih =>
      obtain ⟨first, others⟩ := List.forall_mem_cons.mp keeps
      have later : (o.after c).limits.capacity = 0 := by
        rw [(Operation.making_after c o).limits, unbounded]
      exact ⟨Operation.spares_of_unbounded unbounded first, ih later others⟩

/-- Operations that spare a key leave under it what it held, or what one of them has set it to. -/
theorem holds_performed (lasting : c.limits.lifetime = none) {os : List Operation}
    (spared : SparedBy key c os) (held : c.Holds key text) :
    ∃ text', (c.performed os).Holds key text' ∧
      (text' = text ∨ ∃ o ∈ os, o.Sets c key text') := by
  induction os generalizing c text with
  | nil => exact ⟨text, held, .inl rfl⟩
  | cons o os ih =>
      have making := Operation.making_after c o
      obtain ⟨next, held', first⟩ := Operation.holds_after lasting spared.1 held
      obtain ⟨last, held'', others⟩ := ih (making.limits ▸ lasting) spared.2 held'
      refine ⟨last, held'', ?_⟩
      rcases others with rfl | ⟨o', member, sets⟩
      · rcases first with rfl | sets
        · exact .inl rfl
        · exact .inr ⟨o, List.mem_cons_self, sets⟩
      · exact .inr ⟨o', List.mem_cons_of_mem _ member, sets.congr making⟩

end Cache

namespace Transformer

variable {t : Transformer} {w : Surroundings} {c : Cache} {file source : String}

/-- A transformation that fails takes out of the cache the expired entry of its key, or nothing. -/
theorem cache_of_fault (failed : (t.transform w c file source).result.isOk = false) :
    (t.transform w c file source).cache = c ∨
      ∃ entry, c.store.find? (t.keyOf w c file source).render = some entry ∧
        Cache.Store.expired c.limits w.now entry = true ∧
        (t.transform w c file source).cache =
          { c with store := c.store.erase (t.keyOf w c file source).render } := by
  cases found : (t.cached w c file source).1 with
  | some text =>
      rw [(transform_of_hit found).1] at failed
      cases failed
  | none =>
      cases compiled : t.compile file source with
      | ok r =>
          rw [(transform_of_compiled found compiled).1] at failed
          cases failed
      | error fault =>
          rw [(transform_of_fault found compiled).2.1, cached, Cache.get, key_eq]
          dsimp only
          unfold Cache.Store.lookup
          cases held : c.store.find? (t.keyOf w c file source).render with
          | none => exact .inl rfl
          | some entry =>
              cases old : Cache.Store.expired c.limits w.now entry with
              | true => exact .inr ⟨entry, rfl, old, by simp [old]⟩
              | false => exact .inl (by simp [old])

/-- A transformation that succeeds leaves its code under its key, where entries do not expire and
the key does not have to leave at once. -/
theorem holds_of_success (lasting : c.limits.lifetime = none)
    (spared : (Operation.transform t w file source).Spares c (t.keyOf w c file source).render)
    (done : (t.transform w c file source).result.isOk = true) :
    ∃ text, (t.transform w c file source).result = .ofCode text ∧
      (t.transform w c file source).cache.Holds (t.keyOf w c file source).render text := by
  obtain ⟨got, same⟩ := Cache.get_lasting c lasting w file (Text.utf8 source)
    (.ok (some t.options))
  cases found : (t.cached w c file source).1 with
  | some text =>
      obtain ⟨result, cache, _, _⟩ := transform_of_hit found
      refine ⟨text, result, ?_⟩
      rw [cache, cached, same]
      exact got.symm.trans found
  | none =>
      cases compiled : t.compile file source with
      | error fault =>
          rw [(transform_of_fault found compiled).1] at done
          cases done
      | ok r =>
          obtain ⟨result, cache, noted⟩ := transform_of_compiled found compiled
          have stays : (Cache.Event.evicted (t.keyOf w c file source).render).note ∉
              (t.transform w c file source).notes := spared.stays
          refine ⟨r.code, result, ?_⟩
          rw [cache]
          rw [noted] at stays
          rw [stored, cached, same] at stays ⊢
          exact Cache.holds_set key_eq fun evicted => stays
            (List.mem_append_right _ (List.mem_cons_of_mem _ (List.mem_map_of_mem evicted)))

/-- A transformation that fails takes out of the cache the entry of its key, if that has expired,
and nothing else.  Where entries do not expire, a transformation that succeeds is not done again:
whatever has been done with the cache since, as long as it has not been cleared and the key has not
had to leave, a transformer with the same options that is asked for the same file and source, with
the listed variables and the manifest as they were, uses no tool, leaves the cache alone and gives
the same code, or what the key has been set to by hand.  The transformation itself never makes its
key leave a store whose two parts agree. -/
theorem transform_persists (t : Transformer) (w : Surroundings) (c : Cache) (file source : String) :
    let first := t.transform w c file source
    ∃ k, c.key w file (Text.utf8 source) (.ok (some t.options)) = .ok k ∧
      (first.result.isOk = false →
        first.cache = c ∨
          ∃ entry, c.store.find? k.render = some entry ∧
            Cache.Store.expired c.limits w.now entry = true ∧
            first.cache = { c with store := c.store.erase k.render }) ∧
      (c.store.Agrees → (Operation.transform t w file source).Spares c k.render) ∧
      (first.result.isOk = true → c.limits.lifetime = none →
        ∀ os : List Operation,
          Cache.SparedBy k.render c (.transform t w file source :: os) →
        ∀ (t' : Transformer) (w' : Surroundings), t'.options = t.options →
          (∀ name ∈ c.allowed, c.source.lookup w' name = c.source.lookup w name) →
          (∀ path ∈ c.manifest, w'.files.read path = w.files.read path) →
          let later := t'.transform w' (first.cache.performed os) file source
          later.work = [] ∧ later.cache = first.cache.performed os ∧
            (later.result = first.result ∨
              ∃ o ∈ os, ∃ text, o.Sets c k.render text ∧ later.result = .ofCode text)) := by
  intro first
  refine ⟨t.keyOf w c file source, key_eq, cache_of_fault,
    fun agrees => Operation.spares_own agrees t w file source, ?_⟩
  intro done lasting os ⟨own, spared⟩ t' w' options listed manifest later
  obtain ⟨text, result, held⟩ := holds_of_success lasting own done
  have written := Operation.making_transform t w c file source
  obtain ⟨text', held', last⟩ := Cache.holds_performed (written.limits ▸ lasting) spared held
  have making : Cache.SameMaking (first.cache.performed os) c := by
    have later := Cache.making_performed first.cache os
    exact ⟨later.limits.trans written.limits, later.allowed.trans written.allowed,
      later.source.trans written.source, later.manifest.trans written.manifest⟩
  have key : (first.cache.performed os).key w' file (Text.utf8 source) (.ok (some t'.options)) =
      .ok (t.keyOf w c file source) := by
    rw [making.key, options, Cache.key_congr listed manifest, key_eq]
  obtain ⟨got, same⟩ := Cache.get_of_holds (making.limits ▸ lasting) key held'
  obtain ⟨result', cache', _, work'⟩ := transform_of_hit got
  refine ⟨work', cache'.trans same, ?_⟩
  rcases last with rfl | ⟨o, member, sets⟩
  · exact .inl (result'.trans result.symm)
  · exact .inr ⟨o, member, text', sets.congr written, result'⟩

/-- A transformer whose transpiler refuses everything leaves a cache alone; and it is given the code
that another one has stored, after that one has been asked for the same source where the mode is
another one. -/
theorem transform_persists_two_modes :
    let t : Transformer := {}
    let refusing : Transformer := { transpiler := fun _ _ => .error "refused" }
    let dev : Surroundings := { environment := [("MODE", "dev")] }
    let prod : Surroundings := { environment := [("MODE", "prod")] }
    let c : Cache := { allowed := ["MODE"] }
    ((refusing.transform dev c "m.js" "f()").result.isOk = false ∧
        (refusing.transform dev c "m.js" "f()").cache = c) ∧
      ((t.transform dev c "m.js" "f()").result.isOk = true ∧ c.limits.lifetime = none ∧
        Cache.SparedBy (t.keyOf dev c "m.js" "f()").render c
          [.transform t dev "m.js" "f()", .transform t prod "m.js" "f()"] ∧
        refusing.options = t.options) ∧
      (refusing.transform dev ((t.transform dev c "m.js" "f()").cache.performed
          [.transform t prod "m.js" "f()"]) "m.js" "f()").work = [] ∧
      (refusing.transform dev ((t.transform dev c "m.js" "f()").cache.performed
          [.transform t prod "m.js" "f()"]) "m.js" "f()").result =
        (t.transform dev c "m.js" "f()").result := by
  intro t refusing dev prod c
  have refused : (refusing.transform dev c "m.js" "f()").result.isOk = false := by decide +kernel
  have done : (t.transform dev c "m.js" "f()").result.isOk = true := by decide +kernel
  have spared : Cache.SparedBy (t.keyOf dev c "m.js" "f()").render c
      [.transform t dev "m.js" "f()", .transform t prod "m.js" "f()"] :=
    Cache.sparedBy_of_unbounded rfl (by simp)
  obtain ⟨k, _, fault, _⟩ := transform_persists refusing dev c "m.js" "f()"
  obtain ⟨k', key, _, _, success⟩ := transform_persists t dev c "m.js" "f()"
  obtain rfl : t.keyOf dev c "m.js" "f()" = k' := Except.ok.inj (key_eq.symm.trans key)
  obtain ⟨work, _, result⟩ := success done rfl _ spared refusing dev rfl (fun _ _ => rfl)
    (fun _ _ => rfl)
  refine ⟨⟨refused, ?_⟩, ⟨done, rfl, spared, rfl⟩, work, ?_⟩
  · rcases fault refused with same | ⟨entry, found, _⟩
    · exact same
    · cases found
  · rcases result with same | ⟨o, member, text, sets, _⟩
    · exact same
    · obtain ⟨_, _, _, _, _, rfl, _⟩ := sets
      simp at member

end Transformer

end HotReload
