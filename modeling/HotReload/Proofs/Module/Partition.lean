import Mathlib.Data.List.Induction
import Mathlib.Data.List.Nodup
import HotReload.Module.Plan

/-!
# Where the bindings of imports go

A plan sends every binding of an import declaration to exactly one place: to the imports that stay,
or to the group of its source.  The draft of a plan keeps four lists and writes two kinds of indices
into them, while declarations of one source may stand apart, repeat names, or bind nothing.

The results are

* `Draft.holds_of`: the lists of a draft in closed form; the groups by the sources that have
  something to rebind, in order of their first declaration, and by the bindings of each source over
  all declarations;
* `Draft.edit_of`: the edit of each declaration, by the draft of what stands in front of it;
* `Plan.of_partitions`: where every declaration, binding, text and group of a module is found in
  its plan.
-/

namespace HotReload

/-- The import declarations among statements. -/
def declarations (statements : List Script.Statement) :
    List (Script.Statement × ImportDeclaration) :=
  statements.filterMap fun s =>
    match s.kind with
    | .importing d => some (s, d)
    | _ => none

theorem Module.imports_eq (m : Module) : m.imports = declarations m.statements := rfl

/-- A module that has been read has the statements of its source. -/
theorem Module.statements_of_parse {path source : String} {m : Module}
    (h : Module.parse path source = .ok m) : ∃ program,
      Script.Program.parse source = .ok program ∧ m = ⟨path, source, program.statements⟩ := by
  unfold Module.parse at h
  split at h
  next program read =>
    cases h
    exact ⟨program, read, rfl⟩
  · cases h

/-- An import declaration among statements is one of them. -/
theorem importing_of_mem_declarations {statements : List Script.Statement} {s : Script.Statement}
    {d : ImportDeclaration} (h : (s, d) ∈ declarations statements) :
    s ∈ statements ∧ s.kind = .importing d := by
  obtain ⟨t, ht, same⟩ := List.mem_filterMap.mp h
  cases kind : t.kind with
  | importing d' =>
      simp only [kind, Option.some.injEq, Prod.mk.injEq] at same
      obtain ⟨rfl, rfl⟩ := same
      exact ⟨ht, kind⟩
  | exporting => simp [kind] at same
  | other => simp [kind] at same

/-- The bytes that an edit replaces. -/
def ImportEdit.range (e : ImportEdit) : Nat × Nat := (e.start, e.stop)

/-- Two bindings of one local name. -/
def Binding.sameName (a b : Binding) : Bool := a.localName == b.localName

namespace ImportGroup

/-- Pushing bindings one by one keeps the first of each name. -/
theorem foldl_push_loop (source : String) (bs acc : List Binding) :
    bs.foldl push ⟨source, acc.reverse⟩ =
      ⟨source, List.eraseDupsBy.loop Binding.sameName bs acc⟩ := by
  induction bs generalizing acc with
  | nil => rfl
  | cons b bs ih =>
      have bound : binds ⟨source, acc.reverse⟩ b.localName = acc.any (Binding.sameName b) := by
        simp only [binds, List.any_reverse, Bool.beq_comm]
        rfl
      cases known : acc.any (Binding.sameName b) with
      | true =>
          rw [known] at bound
          rw [List.foldl_cons, push, bound, if_pos rfl, ih, List.eraseDupsBy.loop, known]
      | false =>
          rw [known] at bound
          have longer := ih (b :: acc)
          rw [List.reverse_cons] at longer
          rw [List.foldl_cons, push, bound, if_neg Bool.false_ne_true, longer,
            List.eraseDupsBy.loop, known]

theorem loop_append (r : Binding → Binding → Bool) (as bs acc : List Binding) :
    List.eraseDupsBy.loop r (as ++ bs) acc =
      List.eraseDupsBy.loop r bs (List.eraseDupsBy.loop r as acc).reverse := by
  induction as generalizing acc with
  | nil => simp [List.eraseDupsBy.loop]
  | cons a as ih =>
      rw [List.cons_append, List.eraseDupsBy.loop, List.eraseDupsBy.loop]
      cases acc.any (r a) with
      | true => exact ih acc
      | false => exact ih (a :: acc)

/-- Pushing more bindings to a group that holds the first ones of a list. -/
theorem foldl_push (source : String) (as bs : List Binding) :
    bs.foldl push ⟨source, as.eraseDupsBy Binding.sameName⟩ =
      ⟨source, (as ++ bs).eraseDupsBy Binding.sameName⟩ := by
  have run := foldl_push_loop source bs (as.eraseDupsBy Binding.sameName).reverse
  rw [List.reverse_reverse] at run
  rw [run, List.eraseDupsBy, List.eraseDupsBy, loop_append]

@[simp] theorem foldl_push_source (g : ImportGroup) (bs : List Binding) :
    (bs.foldl push g).source = g.source := by
  induction bs generalizing g with
  | nil => rfl
  | cons b bs ih =>
      rw [List.foldl_cons, ih, push]
      split <;> rfl

end ImportGroup

/-- One more element of a list whose repetitions are erased. -/
theorem eraseDups_snoc (ss : List String) (s : String) :
    (ss ++ [s]).eraseDups = if s ∈ ss then ss.eraseDups else ss.eraseDups ++ [s] := by
  rw [List.eraseDups_append]
  by_cases known : s ∈ ss
  · simp [known, List.removeAll]
  · simp [known, List.removeAll, List.eraseDups_cons]

theorem nodup_eraseDups (ss : List String) : ss.eraseDups.Nodup := by
  induction ss using List.reverseRecOn with
  | nil => simp
  | append_singleton ss s ih =>
      rw [eraseDups_snoc]
      by_cases known : s ∈ ss
      · rw [if_pos known]
        exact ih
      · rw [if_neg known, List.nodup_append]
        refine ⟨ih, by simp, ?_⟩
        intro a ha b hb
        rw [List.mem_eraseDups] at ha
        rw [List.mem_singleton] at hb
        rintro rfl
        exact known (hb ▸ ha)

theorem eraseDupsBy_ne_nil {bs : List Binding} (r : Binding → Binding → Bool) (h : bs ≠ []) :
    bs.eraseDupsBy r ≠ [] := by
  cases bs with
  | nil => exact absurd rfl h
  | cons b bs => simp [List.eraseDupsBy_cons]

theorem eraseDupsBy_sublist {α : Type} (r : α → α → Bool) (as : List α) :
    (as.eraseDupsBy r).Sublist as := by
  cases as with
  | nil => exact .slnil
  | cons a as =>
      rw [List.eraseDupsBy_cons]
      exact ((eraseDupsBy_sublist r _).trans List.filter_sublist).cons_cons a
termination_by as.length
decreasing_by
  rw [List.length_cons]
  exact Nat.lt_succ_of_le (List.length_filter_le _ _)

theorem pairwise_eraseDupsBy {α : Type} (r : α → α → Bool) (as : List α) :
    (as.eraseDupsBy r).Pairwise fun a b => r b a = false := by
  cases as with
  | nil => exact .nil
  | cons a as =>
      rw [List.eraseDupsBy_cons]
      refine .cons (fun b hb => ?_) (pairwise_eraseDupsBy r _)
      simpa using (List.mem_filter.mp ((eraseDupsBy_sublist r _).subset hb)).2
termination_by as.length
decreasing_by
  rw [List.length_cons]
  exact Nat.lt_succ_of_le (List.length_filter_le _ _)

/-- Whatever is in a list, a like of it is kept. -/
theorem exists_mem_eraseDupsBy {α : Type} {r : α → α → Bool} (refl : ∀ a, r a a) (as : List α) :
    ∀ a ∈ as, ∃ b ∈ as.eraseDupsBy r, r a b := by
  cases as with
  | nil => simp
  | cons c as =>
      intro a h
      rw [List.eraseDupsBy_cons]
      by_cases like : r a c
      · exact ⟨c, List.mem_cons_self, like⟩
      · have more : a ∈ as := (List.mem_cons.mp h).resolve_left fun same => like (same ▸ refl c)
        have kept : a ∈ as.filter fun b => r b c = false :=
          List.mem_filter.mpr ⟨more, by simpa using like⟩
        obtain ⟨b, hb, same⟩ := exists_mem_eraseDupsBy refl _ a kept
        exact ⟨b, List.mem_cons_of_mem c hb, same⟩
termination_by as.length
decreasing_by
  rw [List.length_cons]
  exact Nat.lt_succ_of_le (List.length_filter_le _ _)

namespace Plan

/-- Adding bindings of a source to groups with distinct sources. -/
theorem addTo_map (source : String) (bs : List Binding) (ss : List String)
    (f : String → ImportGroup) (hf : ∀ s, (f s).source = s) (distinct : ss.Nodup) :
    addTo source bs (ss.map f) =
      if source ∈ ss then
        (none, ss.map fun s => if s = source then bs.foldl ImportGroup.push (f s) else f s)
      else (some ss.length, ss.map f ++ [bs.foldl ImportGroup.push ⟨source, []⟩]) := by
  by_cases known : source ∈ ss
  · rw [if_pos known, addTo]
    cases place : (ss.map f).findIdx? (·.source == source) with
    | none =>
        rw [List.findIdx?_eq_none_iff] at place
        have here := place (f source) (List.mem_map_of_mem known)
        simp [hf] at here
    | some i =>
        rw [List.findIdx?_eq_some_iff_getElem] at place
        obtain ⟨bound, found, _⟩ := place
        rw [List.length_map] at bound
        simp only [List.getElem_map, hf, beq_iff_eq] at found
        refine Prod.ext rfl (List.ext_getElem (by simp) fun j _ hj => ?_)
        rw [List.length_map] at hj
        simp only [List.getElem_modify, List.getElem_map]
        by_cases same : i = j
        · subst same
          simp [found]
        · have other : ss[j] ≠ source := by
            intro equal
            exact same ((List.Nodup.getElem_inj_iff distinct).mp (found.trans equal.symm))
          rw [if_neg same, if_neg other]
  · rw [if_neg known, addTo]
    have missing : (ss.map f).findIdx? (·.source == source) = none := by
      rw [List.findIdx?_eq_none_iff]
      intro g hg
      obtain ⟨s, hs, rfl⟩ := List.mem_map.mp hg
      rw [hf, beq_eq_false_iff_ne]
      rintro rfl
      exact known hs
    rw [missing, List.length_map]

namespace Policy

/-- The sources of which something can be rebound, in order of their first such declaration. -/
def sources (p : Policy) (ds : List (Script.Statement × ImportDeclaration)) : List String :=
  ((ds.filter fun d => !(p.rebindable d.2).isEmpty).map (·.2.source)).eraseDups

/-- The bindings of a source that can be rebound, over all declarations in order. -/
def collected (p : Policy) (ds : List (Script.Statement × ImportDeclaration)) (source : String) :
    List Binding :=
  (ds.filter (·.2.source == source)).flatMap fun d => p.rebindable d.2

/-- The group of a source. -/
def groupOf (p : Policy) (ds : List (Script.Statement × ImportDeclaration)) (source : String) :
    ImportGroup :=
  ⟨source, (p.collected ds source).eraseDupsBy Binding.sameName⟩

theorem mem_sources {p : Policy} {ds : List (Script.Statement × ImportDeclaration)}
    {source : String} :
    source ∈ p.sources ds ↔ ∃ d ∈ ds, p.rebindable d.2 ≠ [] ∧ d.2.source = source := by
  simp [sources, List.mem_eraseDups, and_assoc]

theorem nodup_sources (p : Policy) (ds : List (Script.Statement × ImportDeclaration)) :
    (p.sources ds).Nodup := nodup_eraseDups _

theorem sources_snoc (p : Policy) (ds : List (Script.Statement × ImportDeclaration))
    (d : Script.Statement × ImportDeclaration) :
    p.sources (ds ++ [d]) =
      if p.rebindable d.2 = [] ∨ d.2.source ∈ p.sources ds then p.sources ds
      else p.sources ds ++ [d.2.source] := by
  by_cases idle : p.rebindable d.2 = []
  · simp [sources, idle]
  · have shown : (!(p.rebindable d.2).isEmpty) = true := by simp [idle]
    simp only [sources, List.filter_append, List.filter_cons, shown, List.filter_nil, if_pos,
      List.map_append, List.map_cons, List.map_nil, eraseDups_snoc, List.mem_eraseDups, idle,
      false_or]

theorem collected_snoc (p : Policy) (ds : List (Script.Statement × ImportDeclaration))
    (d : Script.Statement × ImportDeclaration) (source : String) :
    p.collected (ds ++ [d]) source =
      p.collected ds source ++ if d.2.source = source then p.rebindable d.2 else [] := by
  by_cases same : d.2.source = source <;> simp [collected, same]

theorem collected_eq_nil {p : Policy} {ds : List (Script.Statement × ImportDeclaration)}
    {source : String} : p.collected ds source = [] ↔ source ∉ p.sources ds := by
  rw [mem_sources, collected, List.flatMap_eq_nil_iff]
  simp only [List.mem_filter, beq_iff_eq, and_imp, not_exists, not_and]
  constructor
  · intro none d hd some same
    exact some (none d hd same)
  · intro none d hd same
    by_contra some
    exact none d hd some same

end Policy

namespace Draft

variable (policy : Policy) (textOf : Script.Statement → String)

/-- What a draft holds of the statements that it has been through. -/
structure Holds (done : List Script.Statement) (draft : Draft) : Prop where
  passthrough : draft.passthrough =
    (declarations done).filterMap fun d => fixedText policy (textOf d.1) d.2
  groups : draft.groups =
    (policy.sources (declarations done)).map (policy.groupOf (declarations done))
  others : draft.others = (done.filter fun s => s.kind == .other).map textOf
  exports : draft.exports = (done.filter fun s => s.kind == .exporting).map textOf
  ranges : draft.edits.map ImportEdit.range = (declarations done).map fun d => (d.1.start, d.1.stop)
  /-- The places of the imports that stay are given out one after the other. -/
  fixed : draft.edits.filterMap ImportEdit.fixed = List.range draft.passthrough.length
  /-- The places of the groups are given out one after the other. -/
  opened : draft.edits.filterMap ImportEdit.opened = List.range draft.groups.length

/-- What is in a draft stays where it is. -/
structure Extends (draft later : Draft) : Prop where
  passthrough : draft.passthrough <+: later.passthrough
  sources : draft.groups.map ImportGroup.source <+: later.groups.map ImportGroup.source
  edits : draft.edits <+: later.edits

variable {policy textOf}

theorem Extends.refl (draft : Draft) : Extends draft draft :=
  ⟨List.prefix_rfl, List.prefix_rfl, List.prefix_rfl⟩

theorem Extends.trans {a b c : Draft} (h : Extends a b) (h' : Extends b c) : Extends a c :=
  ⟨h.passthrough.trans h'.passthrough, h.sources.trans h'.sources, h.edits.trans h'.edits⟩

theorem declarations_snoc_importing (done : List Script.Statement) {s : Script.Statement}
    {d : ImportDeclaration} (h : s.kind = .importing d) :
    declarations (done ++ [s]) = declarations done ++ [(s, d)] := by
  simp [declarations, h]

theorem declarations_snoc_exporting (done : List Script.Statement) {s : Script.Statement}
    (h : s.kind = .exporting) : declarations (done ++ [s]) = declarations done := by
  simp [declarations, h]

theorem declarations_snoc_other (done : List Script.Statement) {s : Script.Statement}
    (h : s.kind = .other) : declarations (done ++ [s]) = declarations done := by
  simp [declarations, h]

/-- The groups after a declaration, and the place of the group that it opens. -/
theorem addTo_groups (ds : List (Script.Statement × ImportDeclaration))
    (s : Script.Statement) (d : ImportDeclaration) (busy : policy.rebindable d ≠ []) :
    addTo d.source (policy.rebindable d) ((policy.sources ds).map (policy.groupOf ds)) =
      (if d.source ∈ policy.sources ds then none else some (policy.sources ds).length,
        (policy.sources (ds ++ [(s, d)])).map (policy.groupOf (ds ++ [(s, d)]))) := by
  have groupOf_snoc (source : String) : policy.groupOf (ds ++ [(s, d)]) source =
      if source = d.source then
        (policy.rebindable d).foldl ImportGroup.push (policy.groupOf ds source)
      else policy.groupOf ds source := by
    by_cases same : source = d.source
    · subst same
      rw [if_pos rfl, Policy.groupOf, Policy.groupOf, ImportGroup.foldl_push,
        Policy.collected_snoc, if_pos rfl]
    · rw [if_neg same, Policy.groupOf, Policy.groupOf, Policy.collected_snoc,
        if_neg (Ne.symm same), List.append_nil]
  rw [addTo_map _ _ _ _ (fun _ => rfl) (policy.nodup_sources ds), Policy.sources_snoc]
  by_cases known : d.source ∈ policy.sources ds
  · rw [if_pos known, if_pos known, if_pos (Or.inr known)]
    exact Prod.ext rfl (List.map_congr_left fun source _ => (groupOf_snoc source).symm)
  · have nothing : policy.groupOf ds d.source = ⟨d.source, []⟩ := by
      rw [Policy.groupOf, Policy.collected_eq_nil.mpr known, List.eraseDupsBy_nil]
    rw [if_neg known, if_neg known, if_neg (not_or.mpr ⟨busy, known⟩), List.map_append,
      List.map_singleton, groupOf_snoc d.source, if_pos rfl, nothing]
    refine Prod.ext rfl (congrArg (· ++ _) (List.map_congr_left fun source hs => ?_))
    rw [groupOf_snoc, if_neg]
    rintro rfl
    exact known hs

/-- The edit of a declaration that comes after what is in a draft. -/
def editAfter (policy : Policy) (textOf : Script.Statement → String) (draft : Draft)
    (s : Script.Statement) (d : ImportDeclaration) : ImportEdit :=
  ⟨s.start, s.stop, (fixedText policy (textOf s) d).map fun _ => draft.passthrough.length,
    if policy.rebindable d = [] ∨ d.source ∈ draft.groups.map ImportGroup.source then none
    else some draft.groups.length⟩

theorem Holds.sources {done : List Script.Statement} {draft : Draft}
    (h : Holds policy textOf done draft) :
    draft.groups.map ImportGroup.source = policy.sources (declarations done) := by
  rw [h.groups, List.map_map]
  exact List.map_id' _

theorem Holds.edits {done : List Script.Statement} {draft : Draft}
    (h : Holds policy textOf done draft) : draft.edits.length = (declarations done).length := by
  have same := congrArg List.length h.ranges
  rwa [List.length_map, List.length_map] at same

theorem Holds.count {done : List Script.Statement} {draft : Draft}
    (h : Holds policy textOf done draft) :
    draft.groups.length = (policy.sources (declarations done)).length := by
  rw [h.groups, List.length_map]

/-- What a draft gains by an import declaration. -/
theorem addImport_of_holds {done : List Script.Statement} {draft : Draft}
    (h : Holds policy textOf done draft) (s : Script.Statement) (d : ImportDeclaration) :
    draft.addImport policy s (textOf s) d =
      { draft with
        passthrough := draft.passthrough ++ (fixedText policy (textOf s) d).toList
        groups := (policy.sources (declarations done ++ [(s, d)])).map
          (policy.groupOf (declarations done ++ [(s, d)]))
        edits := draft.edits ++ [editAfter policy textOf draft s d] } := by
  rw [addImport, editAfter, h.sources, h.count]
  by_cases idle : policy.rebindable d = []
  · have same : policy.groupOf (declarations done ++ [(s, d)]) =
        policy.groupOf (declarations done) := by
      funext source
      simp [Policy.groupOf, Policy.collected_snoc, idle]
    simp [idle, Policy.sources_snoc, same, h.groups]
  · have shown : (policy.rebindable d).isEmpty = false := by simp [idle]
    have added := addTo_groups (declarations done) s d idle
    rw [← h.groups] at added
    simp [shown, idle, added]

theorem holds_addImport {done : List Script.Statement} {draft : Draft}
    (h : Holds policy textOf done draft) {s : Script.Statement} {d : ImportDeclaration}
    (kind : s.kind = .importing d) :
    Holds policy textOf (done ++ [s]) (draft.addImport policy s (textOf s) d) := by
  rw [addImport_of_holds h]
  constructor <;> simp only [declarations_snoc_importing done kind]
  · rw [h.passthrough, List.filterMap_append]
    cases fixed : fixedText policy (textOf s) d with
    | none => simp [fixed]
    | some text => simp [fixed]
  · simp [h.others, kind]
  · simp [h.exports, kind]
  · rw [List.map_append, List.map_append, h.ranges]
    rfl
  · rw [List.filterMap_append, h.fixed]
    cases fixed : fixedText policy (textOf s) d with
    | none => simp [editAfter, fixed]
    | some text => simp [editAfter, fixed, List.range_succ]
  · rw [List.filterMap_append, h.opened, List.length_map, Policy.sources_snoc, editAfter,
      h.sources, h.count]
    split <;> simp [List.range_succ]

theorem holds_add {done : List Script.Statement} {draft : Draft}
    (h : Holds policy textOf done draft) (s : Script.Statement) :
    Holds policy textOf (done ++ [s]) (draft.add policy textOf s) := by
  unfold add
  split
  next d kind => exact holds_addImport h kind
  next kind =>
    have same := declarations_snoc_exporting done kind
    constructor
    · rw [same, h.passthrough]
    · rw [same, h.groups]
    · simp [h.others, kind]
    · simp [h.exports, kind]
    · rw [same, h.ranges]
    · exact h.fixed
    · exact h.opened
  next kind =>
    have same := declarations_snoc_other done kind
    constructor
    · rw [same, h.passthrough]
    · rw [same, h.groups]
    · simp [h.others, kind]
    · simp [h.exports, kind]
    · rw [same, h.ranges]
    · exact h.fixed
    · exact h.opened

theorem of_snoc (statements : List Script.Statement) (s : Script.Statement) :
    Draft.of policy textOf (statements ++ [s]) =
      (Draft.of policy textOf statements).add policy textOf s := by
  rw [Draft.of, List.foldl_append]
  rfl

/-- A draft holds all that it has been through. -/
theorem holds_of (policy : Policy) (textOf : Script.Statement → String)
    (statements : List Script.Statement) :
    Holds policy textOf statements (Draft.of policy textOf statements) := by
  induction statements using List.reverseRecOn with
  | nil => constructor <;> rfl
  | append_singleton done s ih =>
      rw [of_snoc]
      exact holds_add ih s

theorem extends_snoc (policy : Policy) (textOf : Script.Statement → String)
    (statements : List Script.Statement) (s : Script.Statement) :
    Extends (Draft.of policy textOf statements) (Draft.of policy textOf (statements ++ [s])) := by
  rw [of_snoc, add]
  split
  next d _ =>
    have before := holds_of policy textOf statements
    rw [addImport_of_holds before]
    refine ⟨List.prefix_append _ _, ?_, List.prefix_append _ _⟩
    rw [before.sources, List.map_map, Policy.sources_snoc]
    split
    · exact (List.map_id' _).symm ▸ List.prefix_rfl
    · exact (List.map_id' _).symm ▸ List.prefix_append _ _
  next => exact ⟨List.prefix_rfl, List.prefix_rfl, List.prefix_rfl⟩
  next => exact ⟨List.prefix_rfl, List.prefix_rfl, List.prefix_rfl⟩

theorem extends_append (policy : Policy) (textOf : Script.Statement → String)
    (statements more : List Script.Statement) :
    Extends (Draft.of policy textOf statements) (Draft.of policy textOf (statements ++ more)) := by
  induction more using List.reverseRecOn with
  | nil => exact (List.append_nil statements).symm ▸ Extends.refl _
  | append_singleton more s ih =>
      rw [← List.append_assoc]
      exact ih.trans (extends_snoc _ _ _ _)

/-- The edit of a declaration looks at what stands in front of it only. -/
theorem edit_of (policy : Policy) (textOf : Script.Statement → String)
    (xs ys : List Script.Statement) {s : Script.Statement} {d : ImportDeclaration}
    (kind : s.kind = .importing d) :
    (Draft.of policy textOf (xs ++ s :: ys)).edits[(declarations xs).length]? =
      some (editAfter policy textOf (Draft.of policy textOf xs) s d) := by
  have before := holds_of policy textOf xs
  have written : (Draft.of policy textOf (xs ++ [s])).edits =
      (Draft.of policy textOf xs).edits ++
        [editAfter policy textOf (Draft.of policy textOf xs) s d] := by
    rw [of_snoc, add, kind]
    exact congrArg Draft.edits (addImport_of_holds before s d)
  have kept := (extends_append policy textOf (xs ++ [s]) ys).edits
  rw [List.append_assoc, List.singleton_append, written] at kept
  obtain ⟨rest, rest_eq⟩ := kept
  rw [← rest_eq, ← before.edits, List.append_assoc, List.getElem?_append_right (Nat.le_refl _),
    Nat.sub_self]
  rfl

end Draft

/-- What a plan does with an import declaration that comes after others. -/
structure Places (p : Plan) (policy : Policy) (text : String)
    (before : List (Script.Statement × ImportDeclaration)) (s : Script.Statement)
    (d : ImportDeclaration) (e : ImportEdit) : Prop where
  range : e.start = s.start ∧ e.stop = s.stop
  /-- A declaration of which nothing can be rebound stays as it is written. -/
  kept : (∀ b ∈ d.bindings, ¬policy.isRebindable d b) → p.fixedBy e = some text
  /-- A mixed declaration leaves an import of the bindings that stay. -/
  mixed : (∃ b ∈ d.bindings, policy.isRebindable d b) →
    (∃ b ∈ d.bindings, ¬policy.isRebindable d b) →
    p.fixedBy e = some (renderImport d.source (d.bindings.filter (!policy.isRebindable d ·)))
  /-- A declaration that can be rebound as a whole leaves nothing. -/
  moved : d.bindings ≠ [] → (∀ b ∈ d.bindings, policy.isRebindable d b) → e.fixed = none
  /-- A group stands where the first declaration is that has something for it. -/
  first : e.opened.isSome ↔ (∃ b ∈ d.bindings, policy.isRebindable d b) ∧
    ∀ earlier ∈ before, earlier.2.source = d.source →
      ∀ b ∈ earlier.2.bindings, ¬policy.isRebindable earlier.2 b
  group : e.opened.isSome → ∃ g, p.openedBy e = some g ∧ g.source = d.source

/-- A plan in which every binding of the imports of a module has exactly one place. -/
structure Partitions (p : Plan) (policy : Policy) (m : Module) : Prop where
  /-- The bindings that stay and those that can be rebound are all bindings, each on one side. -/
  sides : ∀ s d, (s, d) ∈ m.imports →
    (policy.static d ++ policy.rebindable d).Perm d.bindings ∧
      (policy.static d).Disjoint (policy.rebindable d)
  edits : p.edits.length = m.imports.length
  places : ∀ before s d after, m.imports = before ++ (s, d) :: after →
    ∃ e, p.edits[before.length]? = some e ∧ p.Places policy (m.textOf s) before s d e
  /-- Every text that stays is that of one declaration, in the order of the declarations. -/
  texts : p.edits.filterMap ImportEdit.fixed = List.range p.passthrough.length
  /-- Every group is opened by one declaration, in the order of the declarations. -/
  heads : p.edits.filterMap ImportEdit.opened = List.range p.groups.length
  sources : p.groups.map ImportGroup.source =
    ((m.imports.filter fun (_, d) => d.bindings.any (policy.isRebindable d)).map
      fun (_, d) => d.source).eraseDups
  distinct : (p.groups.map ImportGroup.source).Nodup
  /-- A group has the first binding of each name among all that can be rebound of its source. -/
  bindings : ∀ g ∈ p.groups, g.bindings =
    ((m.imports.filter fun (_, d) => d.source == g.source).flatMap
      fun (_, d) => d.bindings.filter (policy.isRebindable d)).eraseDupsBy Binding.sameName
  nonempty : ∀ g ∈ p.groups, g.bindings ≠ []

theorem Policy.rebindable_eq_nil {policy : Policy} {d : ImportDeclaration} :
    policy.rebindable d = [] ↔ ∀ b ∈ d.bindings, ¬policy.isRebindable d b := by
  rw [Policy.rebindable, List.filter_eq_nil_iff]

theorem Policy.rebindable_ne_nil {policy : Policy} {d : ImportDeclaration} :
    policy.rebindable d ≠ [] ↔ ∃ b ∈ d.bindings, policy.isRebindable d b := by
  simp [Policy.rebindable_eq_nil]

theorem Policy.any_isRebindable (policy : Policy) (d : ImportDeclaration) :
    d.bindings.any (policy.isRebindable d) = !(policy.rebindable d).isEmpty := by
  rw [Bool.eq_iff_iff, List.any_eq_true, ← Policy.rebindable_ne_nil]
  simp

theorem Policy.static_eq_nil {policy : Policy} {d : ImportDeclaration} :
    policy.static d = [] ↔ ∀ b ∈ d.bindings, policy.isRebindable d b := by
  simp [Policy.static, List.filter_eq_nil_iff]

theorem fixedText_of_idle {policy : Policy} {d : ImportDeclaration} (text : String)
    (idle : policy.rebindable d = []) : fixedText policy text d = some text := by
  rw [fixedText, idle]

theorem fixedText_of_busy {policy : Policy} {d : ImportDeclaration} (text : String)
    (busy : policy.rebindable d ≠ []) :
    fixedText policy text d =
      if policy.static d = [] then none else some (renderImport d.source (policy.static d)) := by
  rw [fixedText]
  cases rebindable : policy.rebindable d with
  | nil => exact absurd rebindable busy
  | cons b bs =>
      cases static : policy.static d with
      | nil => rfl
      | cons c cs => rfl

/-- A declaration of a module stands among its statements. -/
theorem declarations_split {statements : List Script.Statement} {s : Script.Statement}
    {d : ImportDeclaration} {before after : List (Script.Statement × ImportDeclaration)}
    (h : declarations statements = before ++ (s, d) :: after) :
    ∃ xs ys, statements = xs ++ s :: ys ∧ declarations xs = before ∧ s.kind = .importing d := by
  obtain ⟨front, back, rfl, hfront, hback⟩ := List.filterMap_eq_append_iff.mp h
  obtain ⟨skipped, s', ys, rfl, none, some, _⟩ := List.filterMap_eq_cons_iff.mp hback
  cases kind : s'.kind with
  | importing d' =>
      simp only [kind, Option.some.injEq, Prod.mk.injEq] at some
      obtain ⟨rfl, rfl⟩ := some
      refine ⟨front ++ skipped, ys, (List.append_assoc _ _ _).symm, ?_, kind⟩
      rw [declarations, List.filterMap_append, hfront, List.filterMap_eq_nil_iff.mpr none,
        List.append_nil]
  | exporting => simp [kind] at some
  | other => simp [kind] at some

theorem getElem?_of_prefix {α : Type} {as bs : List α} {a : α} (h : as ++ [a] <+: bs) :
    bs[as.length]? = some a := by
  obtain ⟨rest, rfl⟩ := h
  simp

section Of

variable (m : Module) (settings : ClassifySettings) {xs ys : List Script.Statement}
  {s : Script.Statement} {d : ImportDeclaration}

/-- The draft in front of a declaration. -/
def draftOf (xs : List Script.Statement) : Draft := Draft.of (Policy.of m settings) m.textOf xs

theorem fixedBy_editAfter (split : m.statements = xs ++ s :: ys) (kind : s.kind = .importing d) :
    (Plan.of m settings).fixedBy
        (Draft.editAfter (Policy.of m settings) m.textOf (draftOf m settings xs) s d) =
      fixedText (Policy.of m settings) (m.textOf s) d := by
  cases fixed : fixedText (Policy.of m settings) (m.textOf s) d with
  | none => simp [fixedBy, Draft.editAfter, fixed]
  | some text =>
      have before := Draft.holds_of (Policy.of m settings) m.textOf xs
      have behind := Draft.holds_of (Policy.of m settings) m.textOf (xs ++ [s])
      have kept := (Draft.extends_append (Policy.of m settings) m.textOf
        (xs ++ [s]) ys).passthrough
      rw [behind.passthrough, Draft.declarations_snoc_importing xs kind, List.filterMap_append,
        ← before.passthrough, List.append_assoc, List.singleton_append, ← split] at kept
      have found := getElem?_of_prefix (a := text) (by simpa [fixed] using kept)
      rw [fixedBy, Draft.editAfter, fixed]
      exact found

/-- The group that a declaration opens has its source. -/
theorem openedBy_editAfter (split : m.statements = xs ++ s :: ys) (kind : s.kind = .importing d)
    (busy : (Policy.of m settings).rebindable d ≠ [])
    (new : d.source ∉ (draftOf m settings xs).groups.map ImportGroup.source) :
    ∃ g, (Plan.of m settings).openedBy
        (Draft.editAfter (Policy.of m settings) m.textOf (draftOf m settings xs) s d) = some g ∧
      g.source = d.source := by
  have kept := (Draft.extends_append (Policy.of m settings) m.textOf
    (xs ++ [s]) ys).sources
  have before := Draft.holds_of (Policy.of m settings) m.textOf xs
  have behind := Draft.holds_of (Policy.of m settings) m.textOf (xs ++ [s])
  have unlisted := new
  rw [draftOf, before.sources] at unlisted
  rw [behind.sources, Draft.declarations_snoc_importing xs kind, Policy.sources_snoc,
    if_neg (not_or.mpr ⟨busy, unlisted⟩), List.append_assoc, List.singleton_append,
    ← split] at kept
  have found := getElem?_of_prefix kept
  rw [← before.count, List.getElem?_map, Option.map_eq_some_iff] at found
  obtain ⟨g, place, same⟩ := found
  refine ⟨g, ?_, same⟩
  rw [openedBy, Draft.editAfter, if_neg (not_or.mpr ⟨busy, new⟩)]
  exact place

theorem places_editAfter (split : m.statements = xs ++ s :: ys) (kind : s.kind = .importing d) :
    (Plan.of m settings).Places (Policy.of m settings) (m.textOf s) (declarations xs) s d
      (Draft.editAfter (Policy.of m settings) m.textOf (draftOf m settings xs) s d) := by
  have fixed := fixedBy_editAfter m settings split kind
  have sources := (Draft.holds_of (Policy.of m settings) m.textOf xs).sources
  have head : (Draft.editAfter (Policy.of m settings) m.textOf
        (draftOf m settings xs) s d).opened.isSome ↔
      (Policy.of m settings).rebindable d ≠ [] ∧
        d.source ∉ (draftOf m settings xs).groups.map ImportGroup.source := by
    rw [Draft.editAfter]
    split
    next none => simpa using fun busy => none.resolve_left busy
    next some => simpa using not_or.mp some
  constructor
  · exact ⟨rfl, rfl⟩
  · intro idle
    rw [fixed, fixedText_of_idle _ (Policy.rebindable_eq_nil.mpr idle)]
  · intro some none
    obtain ⟨b, hb, stays⟩ := none
    have static : (Policy.of m settings).static d ≠ [] := fun nil =>
      stays (Policy.static_eq_nil.mp nil b hb)
    rw [fixed, fixedText_of_busy _ (Policy.rebindable_ne_nil.mpr some), if_neg static]
    rfl
  · intro some all
    obtain ⟨b, hb⟩ := List.exists_mem_of_ne_nil _ some
    have busy := Policy.rebindable_ne_nil.mpr ⟨b, hb, all b hb⟩
    rw [Draft.editAfter, fixedText_of_busy _ busy, if_pos (Policy.static_eq_nil.mpr all)]
    rfl
  · rw [head, draftOf, sources, Policy.mem_sources, Policy.rebindable_ne_nil]
    refine and_congr_right fun _ => ⟨fun new earlier he same b hb some => ?_, ?_⟩
    · exact new ⟨earlier, he, Policy.rebindable_ne_nil.mpr ⟨b, hb, some⟩, same⟩
    · rintro none ⟨earlier, he, busy, same⟩
      exact busy (Policy.rebindable_eq_nil.mpr (none earlier he same))
  · intro some
    exact openedBy_editAfter m settings split kind (head.mp some).1 (head.mp some).2

/-- The sources of the groups, in the order of the first declarations with something to rebind. -/
theorem sources_groups : (Plan.of m settings).groups.map ImportGroup.source =
    ((m.imports.filter fun (_, d) => d.bindings.any ((Policy.of m settings).isRebindable d)).map
      fun (_, d) => d.source).eraseDups := by
  refine (Draft.holds_of (Policy.of m settings) m.textOf m.statements).sources.trans ?_
  rw [Policy.sources, Module.imports_eq]
  congr 2
  exact List.filter_congr fun d _ => (Policy.any_isRebindable _ d.2).symm

theorem nodup_sources_groups : ((Plan.of m settings).groups.map ImportGroup.source).Nodup := by
  rw [sources_groups]
  exact nodup_eraseDups _

section Group

variable {g : ImportGroup} (hg : g ∈ (Plan.of m settings).groups)

include hg

/-- A group has all that can be rebound of a source, and there is something. -/
theorem group_of_mem : g.source ∈ (Policy.of m settings).sources m.imports ∧
    g = (Policy.of m settings).groupOf m.imports g.source := by
  have drafted : g ∈ (draftOf m settings m.statements).groups := hg
  rw [draftOf, (Draft.holds_of (Policy.of m settings) m.textOf m.statements).groups] at drafted
  obtain ⟨source, hs, rfl⟩ := List.mem_map.mp drafted
  exact ⟨hs, rfl⟩

theorem bindings_of_mem : g.bindings =
    ((m.imports.filter fun (_, d) => d.source == g.source).flatMap
      fun (_, d) => d.bindings.filter ((Policy.of m settings).isRebindable d)).eraseDupsBy
        Binding.sameName :=
  congrArg ImportGroup.bindings (group_of_mem m settings hg).2

theorem bindings_ne_nil : g.bindings ≠ [] := by
  obtain ⟨known, same⟩ := group_of_mem m settings hg
  rw [same]
  refine eraseDupsBy_ne_nil _ fun nil => ?_
  exact Policy.collected_eq_nil.mp nil known

end Group

/-- The plan of a module sends every binding of its imports to exactly one place. -/
theorem of_partitions :
    (Plan.of m settings).Partitions (Policy.of m settings) m := by
  have whole := Draft.holds_of (Policy.of m settings) m.textOf m.statements
  constructor
  · intro s d _
    refine ⟨?_, ?_⟩
    · have both := List.filter_append_perm (fun b => !(Policy.of m settings).isRebindable d b)
        d.bindings
      simpa [Policy.static, Policy.rebindable] using both
    · intro b hs hr
      have stays := (List.mem_filter.mp hs).2
      rw [(List.mem_filter.mp hr).2] at stays
      exact Bool.false_ne_true stays
  · exact whole.edits
  · intro before s d after h
    obtain ⟨xs, ys, split, rfl, kind⟩ := declarations_split h
    refine ⟨_, ?_, places_editAfter m settings split kind⟩
    have edit := Draft.edit_of (Policy.of m settings) m.textOf xs ys kind
    rw [← split] at edit
    exact edit
  · exact whole.fixed
  · exact whole.opened
  · exact sources_groups m settings
  · exact nodup_sources_groups m settings
  · exact fun _ => bindings_of_mem m settings
  · exact fun _ => bindings_ne_nil m settings

end Of

end Plan
end HotReload
