import HotReload.Proofs.Component.Chains
import HotReload.Proofs.Component.Places
import Mathlib.Data.List.Nodup

/-!
# Parents by address

A component has an address in its tree: the numbers of the children that lead to it from the top,
where it is `[]`.  The order of addresses is the order in which the walk meets the components, so
the result of the walk can be described without it.

An instance is a parent for each address at which a component that is looked for stands directly
below it (`Tree.Contains`).  The parents that are found are these instances, each once, ordered by
the first of their addresses; each of them is as it stands above that address, and guarded if a
keep-alive wrapper stands above any of its addresses (`Tree.Locates`).  The list of the parents is
the only one of which this is true, in every tree, however often an instance stands in it
(`Tree.parents_located`).
-/

namespace HotReload
namespace Component
namespace Tree

open Host (Earlier)

variable {ι : Type}

/-- The component at an address: every number picks a child. -/
def at? : Tree ι → List Nat → Option (Tree ι)
  | t, [] => some t
  | t, k :: place => t.children[k]?.bind fun u => at? u place

/-- The components above an address, the nearest first. -/
def enclosing : Tree ι → List Nat → List (Tree ι)
  | _, [] => []
  | t, k :: place => (t.children[k]?.map fun u => enclosing u place).getD [] ++ [t]

mutual
/-- The addresses of the components of a tree, in the order of the walk. -/
def addresses : Tree ι → List (List Nat)
  | .node _ _ _ children => [] :: addressesFrom 0 children

/-- The addresses of the components of several children, the first of which has the given number. -/
def addressesFrom (k : Nat) : List (Tree ι) → List (List Nat)
  | [] => []
  | t :: ts => t.addresses.map (k :: ·) ++ addressesFrom (k + 1) ts
end

theorem mem_addressesFrom {k : Nat} {ts : List (Tree ι)} {p : List Nat} :
    p ∈ addressesFrom k ts ↔ ∃ j u q, ts[j]? = some u ∧ q ∈ u.addresses ∧ p = (k + j) :: q := by
  induction ts generalizing k with
  | nil => simp [addressesFrom]
  | cons t ts ih =>
      rw [addressesFrom, List.mem_append, List.mem_map, ih]
      constructor
      · rintro (⟨q, listed, rfl⟩ | ⟨j, u, q, picked, listed, rfl⟩)
        · exact ⟨0, t, q, rfl, listed, rfl⟩
        · exact ⟨j + 1, u, q, picked, listed, by rw [Nat.add_assoc, Nat.add_comm 1]⟩
      · rintro ⟨j, u, q, picked, listed, rfl⟩
        cases j with
        | zero =>
            obtain rfl := Option.some.inj picked
            exact .inl ⟨q, listed, rfl⟩
        | succ j => exact .inr ⟨j, u, q, picked, listed, by rw [Nat.add_assoc, Nat.add_comm 1]⟩

/-- The addresses are those at which components stand. -/
theorem mem_addresses {t : Tree ι} {p : List Nat} : p ∈ t.addresses ↔ (t.at? p).isSome := by
  induction p generalizing t with
  | nil =>
      cases t
      simp [addresses, at?]
  | cons k p ih =>
      cases t with
      | node name handle wrapper children =>
          rw [addresses, List.mem_cons, mem_addressesFrom, at?, Tree.children]
          cases picked : children[k]? with
          | none => simp [picked]
          | some u => simp [picked, ih]

mutual
/-- The addresses are listed in depth-first order. -/
theorem earlier_addresses (t : Tree ι) : t.addresses.Pairwise Earlier := by
  cases t with
  | node name handle wrapper children =>
      rw [addresses, List.pairwise_cons]
      refine ⟨fun p listed => ?_, earlier_addressesFrom 0 children⟩
      obtain ⟨j, u, q, _, _, rfl⟩ := mem_addressesFrom.mp listed
      exact .nil

theorem earlier_addressesFrom (k : Nat) (ts : List (Tree ι)) :
    (addressesFrom k ts).Pairwise Earlier := by
  cases ts with
  | nil => exact .nil
  | cons t ts =>
      rw [addressesFrom, List.pairwise_append]
      refine ⟨?_, earlier_addressesFrom (k + 1) ts, fun p here q later => ?_⟩
      · rw [List.pairwise_map]
        exact (earlier_addresses t).imp .cons
      · obtain ⟨p, _, rfl⟩ := List.mem_map.mp here
        obtain ⟨j, u, q, _, _, rfl⟩ := mem_addressesFrom.mp later
        exact .rel (by omega)
end

/-- The visit of the component at an address of a tree, with `above` standing above the tree. -/
def visitAt (above : List (Tree ι)) (t : Tree ι) (place : List Nat) : Tree ι × List (Tree ι) :=
  ((t.at? place).getD t, t.enclosing place ++ above)

/-- The visit of a component below a child is a visit of the child. -/
theorem visitAt_child {t u : Tree ι} {k : Nat} {place : List Nat} (above : List (Tree ι))
    (picked : t.children[k]? = some u) (listed : place ∈ u.addresses) :
    t.visitAt above (k :: place) = u.visitAt (t :: above) place := by
  obtain ⟨v, found⟩ := Option.isSome_iff_exists.mp (mem_addresses.mp listed)
  simp [visitAt, at?, enclosing, picked, found]

mutual
/-- The walk meets the components in the order of their addresses. -/
theorem visits_eq (above : List (Tree ι)) (t : Tree ι) :
    t.visits above = t.addresses.map (t.visitAt above) := by
  cases t with
  | node name handle wrapper children =>
      rw [visits, addresses, List.map_cons]
      refine congrArg _ (visitsAll_eq _ 0 children fun j u place picked listed => ?_)
      rw [Nat.zero_add]
      exact visitAt_child above picked listed

theorem visitsAll_eq (above : List (Tree ι)) (k : Nat) (ts : List (Tree ι))
    {visit : List Nat → Tree ι × List (Tree ι)}
    (each : ∀ j u place, ts[j]? = some u → place ∈ u.addresses →
      visit ((k + j) :: place) = u.visitAt above place) :
    visitsAll above ts = (addressesFrom k ts).map visit := by
  cases ts with
  | nil => rfl
  | cons t ts =>
      rw [visitsAll, addressesFrom, List.map_append, List.map_map, visits_eq above t]
      congr 1
      · exact List.map_congr_left fun place listed => (each 0 t place rfl listed).symm
      · refine visitsAll_eq above (k + 1) ts fun j u place picked listed => ?_
        rw [Nat.add_assoc, Nat.add_comm 1]
        exact each (j + 1) u place picked listed
end

theorem at?_append (t : Tree ι) (p q : List Nat) :
    t.at? (p ++ q) = (t.at? p).bind fun u => u.at? q := by
  induction p generalizing t with
  | nil => rfl
  | cons k p ih =>
      rw [List.cons_append, at?, at?, Option.bind_assoc]
      exact congrArg _ (funext fun u => ih u)

/-- One step on, the component itself stands above. -/
theorem enclosing_snoc {t u : Tree ι} {place : List Nat} {k : Nat} (found : t.at? place = some u)
    (child : (u.children[k]?).isSome) : t.enclosing (place ++ [k]) = u :: t.enclosing place := by
  induction place generalizing t with
  | nil =>
      obtain rfl := Option.some.inj found
      obtain ⟨v, picked⟩ := Option.isSome_iff_exists.mp child
      simp [enclosing, picked]
  | cons l place ih =>
      obtain ⟨v, picked, on⟩ := Option.bind_eq_some_iff.mp found
      rw [List.cons_append, enclosing, enclosing, picked]
      simp [ih on]

theorem enclosing_isEmpty (t : Tree ι) (place : List Nat) :
    (t.enclosing place).isEmpty = place.isEmpty := by
  cases place <;> simp [enclosing]

/-- Above an address stand the components at its proper beginnings. -/
theorem mem_enclosing {t v : Tree ι} {place : List Nat} (stands : (t.at? place).isSome) :
    v ∈ t.enclosing place ↔ ∃ q, (q <+: place ∧ q ≠ place) ∧ t.at? q = some v := by
  induction place generalizing t with
  | nil => simp [enclosing]
  | cons k place ih =>
      rw [at?] at stands
      obtain ⟨w, found⟩ := Option.isSome_iff_exists.mp stands
      obtain ⟨u, picked, on⟩ := Option.bind_eq_some_iff.mp found
      rw [enclosing, picked, Option.map_some, Option.getD_some, List.mem_append,
        List.mem_singleton, ih (by rw [on]; rfl)]
      constructor
      · rintro (⟨q, ⟨early, ne⟩, there⟩ | rfl)
        · exact ⟨k :: q, ⟨List.cons_prefix_cons.mpr ⟨rfl, early⟩, by simpa using ne⟩,
            by rw [at?, picked]; exact there⟩
        · exact ⟨[], ⟨List.nil_prefix, by simp⟩, rfl⟩
      · rintro ⟨q, ⟨early, ne⟩, there⟩
        cases q with
        | nil => exact .inr (Option.some.inj there).symm
        | cons l q =>
            obtain ⟨rfl, shorter⟩ := List.cons_prefix_cons.mp early
            rw [at?, picked] at there
            exact .inl ⟨q, ⟨shorter, by simpa using ne⟩, there⟩

/-- Parents that have been merged from those of one meeting each, listed with the address of the
meeting. -/
structure Merged (met : List (List Nat × Parent ι)) (found : List (Parent ι)) : Prop where
  listed : ∀ i, i ∈ found.map Parent.handle ↔ ∃ m ∈ met, m.2.handle = i
  once : (found.map Parent.handle).Nodup
  ordered : (found.map Parent.handle).Pairwise fun i j =>
    ∃ m ∈ met, m.2.handle = i ∧ ∀ n ∈ met, n.2.handle = j → Earlier m.1 n.1
  first : ∀ p ∈ found, ∃ m ∈ met, (∀ n ∈ met, n.2.handle = p.handle → n.1 = m.1 ∨ Earlier m.1 n.1) ∧
    p = { m.2 with guarded := p.guarded }
  guarded : ∀ p ∈ found, p.guarded = true ↔
    ∃ m ∈ met, m.2.handle = p.handle ∧ m.2.guarded = true

theorem Merged.nil : Merged ([] : List (List Nat × Parent ι)) [] where
  listed := by simp
  once := .nil
  ordered := .nil
  first := by simp
  guarded := by simp

theorem exists_mem_snoc {α : Type} {q : α → Prop} {as : List α} {a : α} :
    (∃ b ∈ as ++ [a], q b) ↔ (∃ b ∈ as, q b) ∨ q a := by
  simp [or_and_right, exists_or]

theorem forall_mem_snoc {α : Type} {q : α → Prop} {as : List α} {a : α} :
    (∀ b ∈ as ++ [a], q b) ↔ (∀ b ∈ as, q b) ∧ q a := by
  simp [or_imp, forall_and]

variable [DecidableEq ι]

/-- What is listed after a parent has been added: what was listed for other instances, and the one
for its own instance, merged or new. -/
theorem mem_addParent {p r : Parent ι} {ps : List (Parent ι)} (once : (ps.map Parent.handle).Nodup)
    (member : r ∈ addParent p ps) :
    (r ∈ ps ∧ r.handle ≠ p.handle) ∨
      (∃ q ∈ ps, q.handle = p.handle ∧ r = { q with guarded := q.guarded || p.guarded }) ∨
      (p.handle ∉ ps.map Parent.handle ∧ r = p) := by
  induction ps with
  | nil =>
      rw [addParent, List.mem_singleton] at member
      exact .inr (.inr ⟨List.not_mem_nil, member⟩)
  | cons q ps ih =>
      rw [List.map_cons, List.nodup_cons] at once
      rw [addParent] at member
      split at member
      next same =>
        rcases List.mem_cons.mp member with rfl | later
        · exact .inr (.inl ⟨q, List.mem_cons_self, same, rfl⟩)
        · refine .inl ⟨List.mem_cons_of_mem q later, fun again => once.1 ?_⟩
          rw [same, ← again]
          exact List.mem_map_of_mem later
      next other =>
        rcases List.mem_cons.mp member with rfl | later
        · exact .inl ⟨List.mem_cons_self, other⟩
        · rcases ih once.2 later with ⟨kept, ne⟩ | ⟨s, there, merged⟩ | ⟨new, rfl⟩
          · exact .inl ⟨List.mem_cons_of_mem q kept, ne⟩
          · exact .inr (.inl ⟨s, List.mem_cons_of_mem q there, merged⟩)
          · refine .inr (.inr ⟨?_, rfl⟩)
            rw [List.map_cons, List.mem_cons, not_or]
            exact ⟨fun same => other same.symm, new⟩

namespace Merged

variable {met : List (List Nat × Parent ι)} {found : List (Parent ι)} {new : List Nat × Parent ι}

omit [DecidableEq ι] in
/-- An instance that is not listed has not been met. -/
theorem unmet (h : Merged met found) {i : ι} (unknown : i ∉ found.map Parent.handle) :
    ∀ m ∈ met, m.2.handle ≠ i :=
  fun m there same => unknown ((h.listed _).mpr ⟨m, there, same⟩)

/-- The parent of a later meeting comes last, if it is new. -/
theorem ordered_snoc (h : Merged met found) (later : ∀ m ∈ met, Earlier m.1 new.1) :
    ((addParent new.2 found).map Parent.handle).Pairwise fun i j => ∃ m ∈ met ++ [new],
      m.2.handle = i ∧ ∀ n ∈ met ++ [new], n.2.handle = j → Earlier m.1 n.1 := by
  have steady : (found.map Parent.handle).Pairwise fun i j => ∃ m ∈ met ++ [new],
      m.2.handle = i ∧ ∀ n ∈ met ++ [new], n.2.handle = j → Earlier m.1 n.1 := by
    refine h.ordered.imp ?_
    rintro i j ⟨m, there, same, before⟩
    exact ⟨m, List.mem_append_left _ there, same,
      forall_mem_snoc.mpr ⟨before, fun _ => later m there⟩⟩
  rw [handles_addParent]
  by_cases known : new.2.handle ∈ found.map Parent.handle
  · rw [if_pos known]
    exact steady
  · rw [if_neg known, List.pairwise_append]
    refine ⟨steady, List.pairwise_singleton _ _, fun i old j last => ?_⟩
    obtain rfl := List.mem_singleton.mp last
    obtain ⟨m, there, same⟩ := (h.listed i).mp old
    exact ⟨m, List.mem_append_left _ there, same, forall_mem_snoc.mpr
      ⟨fun n before other => absurd other (h.unmet known n before), fun _ => later m there⟩⟩

/-- The parent of a later meeting is merged. -/
theorem snoc (h : Merged met found) (later : ∀ m ∈ met, Earlier m.1 new.1) :
    Merged (met ++ [new]) (addParent new.2 found) := by
  constructor
  · intro i
    rw [handles_addParent, exists_mem_snoc]
    by_cases known : new.2.handle ∈ found.map Parent.handle
    · rw [if_pos known, h.listed]
      exact ⟨.inl, fun either => either.elim id fun same => same ▸ (h.listed _).mp known⟩
    · rw [if_neg known, List.mem_append, h.listed, List.mem_singleton]
      exact or_congr_right eq_comm
  · exact nodup_addParent h.once
  · exact h.ordered_snoc later
  · intro p member
    rcases mem_addParent h.once member with ⟨old, ne⟩ | ⟨q, old, same, rfl⟩ | ⟨unknown, rfl⟩
    · obtain ⟨m, there, before, eq⟩ := h.first p old
      exact ⟨m, List.mem_append_left _ there,
        forall_mem_snoc.mpr ⟨before, fun other => absurd other.symm ne⟩, eq⟩
    · obtain ⟨m, there, before, eq⟩ := h.first q old
      exact ⟨m, List.mem_append_left _ there,
        forall_mem_snoc.mpr ⟨before, fun _ => .inr (later m there)⟩, by rw [eq]⟩
    · exact ⟨new, by simp, forall_mem_snoc.mpr
        ⟨fun n early other => absurd other (h.unmet unknown n early), fun _ => .inl rfl⟩, rfl⟩
  · intro p member
    rw [exists_mem_snoc]
    rcases mem_addParent h.once member with ⟨old, ne⟩ | ⟨q, old, same, rfl⟩ | ⟨unknown, rfl⟩
    · rw [h.guarded p old]
      simp [Ne.symm ne]
    · rw [Bool.or_eq_true, h.guarded q old]
      simp [same]
    · have none_ : ¬∃ m ∈ met, m.2.handle = new.2.handle ∧ m.2.guarded = true :=
        fun ⟨m, there, same, _⟩ => h.unmet unknown m there same
      simp [none_]

end Merged

/-- Parents that are met one after the other are merged. -/
theorem merged_foldl {met : List (List Nat × Parent ι)}
    (ordered : met.Pairwise fun m n => Earlier m.1 n.1) :
    Merged met ((met.map Prod.snd).foldl (fun found p => addParent p found) []) := by
  induction met using List.reverseRecOn with
  | nil => exact .nil
  | append_singleton met new ih =>
      obtain ⟨before, _, later⟩ := List.pairwise_append.mp ordered
      rw [List.map_append, List.foldl_append]
      exact (ih before).snoc fun m there => later m there new List.mem_cons_self

section Met

omit [DecidableEq ι]

/-- At an address a component that is looked for stands directly below an instance. -/
def Contains (t : Tree ι) (wanted : Tree ι → Prop) (i : ι) (place : List Nat) : Prop :=
  ∃ q k u v, place = q ++ [k] ∧ t.at? q = some u ∧ u.handle = i ∧ t.at? place = some v ∧ wanted v

/-- Parents that are described by addresses. -/
structure Locates (t : Tree ι) (wanted : Tree ι → Prop) (found : List (Parent ι)) : Prop where
  /-- Listed are the instances that directly contain a component that is looked for. -/
  listed : ∀ i, i ∈ found.map Parent.handle ↔ ∃ place, t.Contains wanted i place
  once : (found.map Parent.handle).Nodup
  /-- An instance comes before another one if one of its addresses comes before all of the other. -/
  ordered : (found.map Parent.handle).Pairwise fun i j =>
    ∃ p, t.Contains wanted i p ∧ ∀ q, t.Contains wanted j q → Earlier p q
  /-- A parent is described as it stands above the first of its addresses. -/
  first : ∀ p ∈ found, ∃ q k u, t.Contains wanted p.handle (q ++ [k]) ∧
    (∀ place, t.Contains wanted p.handle place → place = q ++ [k] ∨ Earlier (q ++ [k]) place) ∧
    t.at? q = some u ∧ p = ⟨u.name, u.handle, u.wrapper, q.isEmpty, p.guarded⟩
  /-- A parent is guarded if a keep-alive wrapper stands above one of its addresses. -/
  guarded : ∀ p ∈ found, p.guarded = true ↔ ∃ place q kept, t.Contains wanted p.handle place ∧
    (q <+: place ∧ q ≠ place) ∧ t.at? q = some kept ∧ kept.wrapper = .keepAlive

/-- The parents of all components that are looked for, with their addresses. -/
def met (t : Tree ι) (wanted : Tree ι → Bool) : List (List Nat × Parent ι) :=
  (t.addresses.filter fun place => (t.at? place).any wanted).filterMap fun place =>
    (parentOf? (t.enclosing place)).map (place, ·)

theorem earlier_met (t : Tree ι) (wanted : Tree ι → Bool) :
    (t.met wanted).Pairwise fun m n => Earlier m.1 n.1 := by
  rw [met, List.pairwise_filterMap]
  refine ((earlier_addresses t).filter _).imp fun {p q} before m hm n hn => ?_
  obtain ⟨_, _, rfl⟩ := Option.map_eq_some_iff.mp hm
  obtain ⟨_, _, rfl⟩ := Option.map_eq_some_iff.mp hn
  exact before

/-- The walk meets the parents in the order of the addresses. -/
theorem map_snd_met (t : Tree ι) (wanted : Tree ι → Bool) :
    (t.met wanted).map Prod.snd = t.parentsMet wanted := by
  have looked : ∀ place ∈ t.addresses, (t.at? place).any wanted =
      wanted (t.visitAt [] place).1 := by
    intro place listed
    obtain ⟨u, found⟩ := Option.isSome_iff_exists.mp (mem_addresses.mp listed)
    simp [visitAt, found]
  rw [met, parentsMet, visits_eq, List.filter_map, List.filterMap_map, List.map_filterMap,
    List.filter_congr looked]
  refine List.filterMap_congr fun place _ => ?_
  simp [visitAt, Option.map_map, Function.comp_def]

theorem mem_met {t : Tree ι} {wanted : Tree ι → Bool} {m : List Nat × Parent ι} :
    m ∈ t.met wanted ↔ ∃ q k u v, m.1 = q ++ [k] ∧ t.at? q = some u ∧ t.at? m.1 = some v ∧
      wanted v = true ∧
      m.2 = ⟨u.name, u.handle, u.wrapper, q.isEmpty, (t.enclosing m.1).any keepsAlive⟩ := by
  obtain ⟨place, parent⟩ := m
  rw [met, List.mem_filterMap]
  constructor
  · rintro ⟨p, listed, above⟩
    obtain ⟨_, same⟩ := List.mem_filter.mp listed
    obtain ⟨v, found, match_⟩ := (Option.any_eq_true _ _).mp same
    obtain ⟨parent, nearest, pair⟩ := Option.map_eq_some_iff.mp above
    obtain ⟨rfl, rfl⟩ := Prod.mk.inj pair
    cases p using List.reverseRecOn with
    | nil => simp [enclosing, parentOf?] at nearest
    | append_singleton q k =>
        have on := found
        rw [at?_append] at on
        obtain ⟨u, upper, child⟩ := Option.bind_eq_some_iff.mp on
        obtain ⟨w, picked, _⟩ := Option.bind_eq_some_iff.mp child
        rw [enclosing_snoc upper (by rw [picked]; rfl)] at nearest
        refine ⟨q, k, u, v, rfl, upper, found, match_, ?_⟩
        rw [enclosing_snoc upper (by rw [picked]; rfl), ← enclosing_isEmpty t q]
        exact (Option.some.inj nearest).symm
  · rintro ⟨q, k, u, v, here, upper, found, match_, above⟩
    dsimp only at here found above
    subst here above
    refine ⟨q ++ [k], List.mem_filter.mpr ⟨mem_addresses.mpr (by rw [found]; rfl), ?_⟩, ?_⟩
    · rw [found]
      exact match_
    · have on := found
      rw [at?_append, upper, Option.bind_some, at?] at on
      obtain ⟨w, picked, _⟩ := Option.bind_eq_some_iff.mp on
      rw [enclosing_snoc upper (by rw [picked]; rfl), ← enclosing_isEmpty t q]
      rfl

theorem contains_iff_met {t : Tree ι} {wanted : Tree ι → Bool} {i : ι} {place : List Nat} :
    t.Contains (wanted · = true) i place ↔
      ∃ m ∈ t.met wanted, m.2.handle = i ∧ m.1 = place := by
  constructor
  · rintro ⟨q, k, u, v, rfl, upper, rfl, found, match_⟩
    refine ⟨(q ++ [k], ⟨u.name, u.handle, u.wrapper, q.isEmpty,
      (t.enclosing (q ++ [k])).any keepsAlive⟩), mem_met.mpr ?_, rfl, rfl⟩
    exact ⟨q, k, u, v, rfl, upper, found, match_, rfl⟩
  · rintro ⟨m, member, rfl, rfl⟩
    obtain ⟨q, k, u, v, place, upper, found, match_, parent⟩ := mem_met.mp member
    exact ⟨q, k, u, v, place, upper, by rw [parent], found, match_⟩

/-- The parent met at an address is guarded if a keep-alive wrapper stands above the address. -/
theorem guarded_of_met {t : Tree ι} {wanted : Tree ι → Bool} {m : List Nat × Parent ι}
    (member : m ∈ t.met wanted) : m.2.guarded = true ↔
      ∃ q kept, (q <+: m.1 ∧ q ≠ m.1) ∧ t.at? q = some kept ∧ kept.wrapper = .keepAlive := by
  obtain ⟨_, _, _, v, _, _, found, _, parent⟩ := mem_met.mp member
  have stands : (t.at? m.1).isSome := by rw [found]; rfl
  rw [parent, List.any_eq_true]
  constructor
  · rintro ⟨kept, above, keeps⟩
    obtain ⟨q, early, there⟩ := (mem_enclosing stands).mp above
    exact ⟨q, kept, early, there, eq_of_beq keeps⟩
  · rintro ⟨q, kept, early, there, keeps⟩
    exact ⟨kept, (mem_enclosing stands).mpr ⟨q, early, there⟩, by rw [keepsAlive, keeps]; rfl⟩

end Met

theorem locates_parents (t : Tree ι) (wanted : Tree ι → Bool) :
    t.Locates (wanted · = true) (t.parents wanted) := by
  have merged : Merged (t.met wanted) (t.parents wanted) := by
    have all := merged_foldl (t.earlier_met wanted)
    rw [map_snd_met] at all
    exact all
  constructor
  · intro i
    rw [merged.listed i]
    constructor
    · rintro ⟨m, member, same⟩
      exact ⟨m.1, contains_iff_met.mpr ⟨m, member, same, rfl⟩⟩
    · rintro ⟨place, here⟩
      obtain ⟨m, member, same, _⟩ := contains_iff_met.mp here
      exact ⟨m, member, same⟩
  · exact merged.once
  · refine merged.ordered.imp ?_
    rintro i j ⟨m, member, same, before⟩
    refine ⟨m.1, contains_iff_met.mpr ⟨m, member, same, rfl⟩, fun q here => ?_⟩
    obtain ⟨n, other, handle, rfl⟩ := contains_iff_met.mp here
    exact before n other handle
  · intro p listed
    obtain ⟨m, member, before, eq⟩ := merged.first p listed
    obtain ⟨q, k, u, v, place, upper, found, match_, parent⟩ := mem_met.mp member
    have handle : m.2.handle = p.handle := by rw [eq]
    refine ⟨q, k, u, ?_, fun other here => ?_, upper, by rw [eq, parent]⟩
    · exact contains_iff_met.mpr ⟨m, member, handle, place⟩
    · obtain ⟨n, there, same, rfl⟩ := contains_iff_met.mp here
      rw [← place]
      exact before n there same
  · intro p listed
    rw [merged.guarded p listed]
    constructor
    · rintro ⟨m, member, same, guards⟩
      obtain ⟨q, kept, above⟩ := (guarded_of_met member).mp guards
      exact ⟨m.1, q, kept, contains_iff_met.mpr ⟨m, member, same, rfl⟩, above⟩
    · rintro ⟨place, q, kept, here, above⟩
      obtain ⟨m, member, same, rfl⟩ := contains_iff_met.mp here
      exact ⟨m, member, same, (guarded_of_met member).mpr ⟨q, kept, above⟩⟩

section Unique

omit [DecidableEq ι]

variable {t : Tree ι} {wanted : Tree ι → Prop} {found others : List (Parent ι)}

/-- One instance is described in one way. -/
theorem Locates.eq_of_handle (h : t.Locates wanted found) (h' : t.Locates wanted others)
    {p q : Parent ι} (hp : p ∈ found) (hq : q ∈ others) (same : p.handle = q.handle) : p = q := by
  obtain ⟨a, k, u, here, before, upper, parent⟩ := h.first p hp
  obtain ⟨b, l, v, there, before', upper', parent'⟩ := h'.first q hq
  rw [same] at here before
  have place : a ++ [k] = b ++ [l] := by
    rcases before _ there with equal | less
    · exact equal.symm
    · rcases before' _ here with equal | greater
      · exact equal
      · exact absurd greater (List.lt_asymm less)
  obtain ⟨rfl, _⟩ := List.append_inj' place rfl
  obtain rfl := Option.some.inj (upper.symm.trans upper')
  have guard : p.guarded = q.guarded := by
    rw [Bool.eq_iff_iff, h.guarded p hp, h'.guarded q hq, same]
  rw [parent, parent', guard]

theorem Locates.subset (h : t.Locates wanted found) (h' : t.Locates wanted others) :
    found ⊆ others := by
  intro p hp
  have known := (h'.listed _).mpr ((h.listed _).mp (List.mem_map_of_mem hp))
  obtain ⟨q, hq, same⟩ := List.mem_map.mp known
  rw [h.eq_of_handle h' hp hq same.symm]
  exact hq

/-- The addresses leave no choice in the list of the parents. -/
theorem Locates.unique (h : t.Locates wanted found) (h' : t.Locates wanted others) :
    found = others := by
  have perm : found.Perm others :=
    (List.perm_ext_iff_of_nodup (List.Nodup.of_map _ h.once) (List.Nodup.of_map _ h'.once)).mpr
      fun p => ⟨fun hp => h.subset h' hp, fun hp => h'.subset h hp⟩
  refine List.Perm.eq_of_pairwise (fun p q _ _ first later => ?_) (List.pairwise_map.mp h.ordered)
    (List.pairwise_map.mp h'.ordered) perm
  obtain ⟨a, ha, before⟩ := first
  obtain ⟨b, hb, before'⟩ := later
  exact absurd (before' a ha) (List.lt_asymm (before b hb))

end Unique

/-- In every tree, the parents that are found for the components of a name, and for those that are a
given instance, are the instances that directly contain one of them, and no other list describes
these. -/
theorem parents_located (t : Tree ι) (found : List (Parent ι)) :
    (∀ name, t.Locates (·.name = name) found ↔ found = t.parentsOfName name) ∧
      ∀ handle, t.Locates (·.handle = handle) found ↔ found = t.parentsOfHandle handle := by
  constructor
  · intro name
    have located := t.locates_parents (·.name == name)
    simp only [beq_iff_eq] at located
    exact ⟨fun described => described.unique located, fun same => same ▸ located⟩
  · intro handle
    have located := t.locates_parents fun u => decide (u.handle = handle)
    simp only [decide_eq_true_eq] at located
    exact ⟨fun described => described.unique located, fun same => same ▸ located⟩

end Tree
end Component
end HotReload
