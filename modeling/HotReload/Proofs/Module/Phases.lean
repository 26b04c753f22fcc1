import HotReload.Proofs.Module.Layout
import HotReload.Proofs.Script.Names

/-!
# What becomes of the phase of an import

An import may ask for a phase: for a module that is evaluated on first use, or for the source of a
module.  Whether its binding can be rebound does not depend on that.  If not, the declaration is in
the code as it is written.  If so, nothing of it stays, and the code loads the group of its source,
which evaluates the module at once, and binds the name there (`code_phases`,
`code_evaluates_phased`).
-/

namespace HotReload

open Script Text

/-- An import with a phase has one binding. -/
theorem ImportDeclaration.Phased.single {d : ImportDeclaration} (h : d.Phased)
    (phase : d.phase ≠ .evaluation) : ∃ b, d.bindings = [b] := by
  unfold ImportDeclaration.Phased at h
  split at h
  next evaluation => exact absurd evaluation phase
  · obtain ⟨name, single⟩ := h
    exact ⟨_, single⟩
  · obtain ⟨name, single⟩ := h
    exact ⟨_, single⟩

namespace ImportGroup

theorem binds_foldl_push (g : ImportGroup) (bs : List Binding) (name : String) :
    (bs.foldl push g).binds name = (g.binds name || bs.any (·.localName == name)) := by
  induction bs generalizing g with
  | nil => simp
  | cons b bs ih =>
      have step : (g.push b).binds name = (g.binds name || b.localName == name) := by
        rw [push]
        split
        next bound =>
          by_cases same : b.localName = name
          · subst same
            simp [bound]
          · simp [same]
        · simp [binds]
      rw [List.foldl_cons, ih, step, List.any_cons, Bool.or_assoc]

end ImportGroup

namespace Plan

/-- The group of a source binds every name that can be rebound of it. -/
theorem Policy.binds_groupOf (policy : Policy) {ds : List (Script.Statement × ImportDeclaration)}
    {source : String} {b : Binding} (hb : b ∈ policy.collected ds source) :
    (policy.groupOf ds source).binds b.localName := by
  have pushed := ImportGroup.foldl_push source [] (policy.collected ds source)
  rw [List.nil_append, List.eraseDupsBy_nil] at pushed
  rw [groupOf, ← pushed, ImportGroup.binds_foldl_push, Bool.or_eq_true, List.any_eq_true]
  exact .inr ⟨b, hb, beq_self_eq_true _⟩

section

variable (m : Module) (settings : ClassifySettings)

/-- A binding that can be rebound is in the group of its source. -/
theorem group_of_rebindable {s : Script.Statement} {d : ImportDeclaration} (hd : (s, d) ∈ m.imports)
    {b : Binding} (hb : b ∈ (Policy.of m settings).rebindable d) :
    ∃ (index : Nat) (g : ImportGroup), (Plan.of m settings).groups[index]? = some g ∧
      g.source = d.source ∧ g.binds b.localName := by
  let policy := Policy.of m settings
  have listed : d.source ∈ policy.sources m.imports :=
    Policy.mem_sources.mpr ⟨(s, d), hd, List.ne_nil_of_mem hb, rfl⟩
  have grouped : policy.groupOf m.imports d.source ∈ (Plan.of m settings).groups := by
    change _ ∈ (Draft.of _ _ _).groups
    rw [(draft_holds m settings).groups]
    exact List.mem_map_of_mem listed
  obtain ⟨index, found⟩ := List.mem_iff_getElem?.mp grouped
  refine ⟨index, _, found, rfl, policy.binds_groupOf ?_⟩
  rw [Policy.collected, List.mem_flatMap]
  exact ⟨(s, d), List.mem_filter.mpr ⟨hd, beq_self_eq_true _⟩, hb⟩

theorem edit_of_group {index : Nat} {g : ImportGroup}
    (found : (Plan.of m settings).groups[index]? = some g) :
    ∃ e ∈ (Plan.of m settings).edits, (Plan.of m settings).openedBy e = some g := by
  obtain ⟨bound, _⟩ := List.getElem?_eq_some_iff.mp found
  have numbered : index ∈ (Plan.of m settings).edits.filterMap ImportEdit.opened :=
    (draft_holds m settings).opened ▸ List.mem_range.mpr bound
  obtain ⟨e, he, opened⟩ := List.mem_filterMap.mp numbered
  refine ⟨e, he, ?_⟩
  rw [openedBy, opened]
  exact found

end

theorem infix_of_inOrder {t cs : List Char} {ts : List (List Char)} (h : InOrder ts cs)
    (ht : t ∈ ts) : t <:+: cs := by
  obtain ⟨front, rest, text, _⟩ := h.sublist (List.singleton_sublist.mpr ht)
  exact ⟨front, rest, text.symm⟩

theorem infix_intercalate {parts : List String} {t : String} (ht : t ∈ parts) :
    t.toList <:+: (String.intercalate "\n" parts).toList := by
  have ordered := InOrder.intercalate parts []
  rw [List.append_nil] at ordered
  exact infix_of_inOrder ordered (List.mem_map_of_mem ht)

/-- Whatever replaces an import declaration stands among what stands in the places of the
statements. -/
theorem replaced_sublist_edited (replace : ImportEdit → List Char)
    (textOf : Script.Statement → List Char) {statements : List Script.Statement}
    {edits : List ImportEdit} (length : edits.length = (declarations statements).length) :
    (edits.map replace).Sublist (edited replace textOf statements edits) := by
  induction statements generalizing edits with
  | nil =>
      rw [List.length_eq_zero_iff.mp length]
      exact List.Sublist.refl _
  | cons s rest ih =>
      by_cases importing : ∃ decl, s.kind = .importing decl
      · obtain ⟨decl, kind⟩ := importing
        rw [declarations_cons_importing kind] at length
        cases edits with
        | nil => simp at length
        | cons edit edits =>
            rw [edited_importing _ _ _ _ kind, List.map_cons]
            exact (ih (by simpa using length)).cons_cons _
      · have other : ∀ decl, s.kind ≠ .importing decl := fun decl kind => importing ⟨decl, kind⟩
        rw [declarations_cons_of_ne other] at length
        rw [edited_of_ne _ _ _ _ other]
        exact (ih length).cons _

/-- The text that loads a group: an import in a component, else a block that awaits the module. -/
def loadingText (p : Plan) (parameter : String) (index : Nat) (g : ImportGroup) : String :=
  if p.flags.component then groupImport parameter g else initializer index g

/-- A text that loads a source, which evaluates it, and binds a name then. -/
def Evaluates (p : Plan) (parameter : String) (out : String) (source name : String) : Prop :=
  ∃ (index : Nat) (g : ImportGroup), p.groups[index]? = some g ∧ g.source = source ∧ g.binds name ∧
    (p.loadingText parameter index g).toList <:+: out.toList

section Parsed

variable {m : Module} {path source : String} (h : Module.parse path source = .ok m)

include h

/-- The code loads every group. -/
theorem loads_group (settings : ClassifySettings) (parameter : String) {index : Nat}
    {g : ImportGroup} (found : (Plan.of m settings).groups[index]? = some g) :
    ((Plan.of m settings).loadingText parameter index g).toList <:+:
      ((Plan.of m settings).code (Strategy.ofPlan (Plan.of m settings)) parameter).toList := by
  have lays := lays_of_parse h settings parameter _ rfl
  have some : (Plan.of m settings).groups.isEmpty = false := by
    rw [List.isEmpty_eq_false_iff]
    exact List.ne_nil_of_mem (List.mem_of_getElem? found)
  -- A module with a group is patchable; a component is so in place.
  cases component : (Plan.of m settings).flags.component with
  | true =>
      have chosen : Strategy.ofPlan (Plan.of m settings) = .componentPatchable := by
        rw [Strategy.ofPlan, component, some]
        rfl
      rw [chosen] at lays ⊢
      obtain ⟨gaps, rest, length, _, out⟩ := lays
      obtain ⟨e, he, opened⟩ := edit_of_group m settings found
      have replaced : groupImport parameter g ∈ ((Plan.of m settings).fixedBy e).toList ++
          (((Plan.of m settings).openedBy e).map (groupImport parameter)).toList := by
        simp [opened]
      have among := replaced_sublist_edited
        (fun e => ((Plan.of m settings).replacement parameter e).toList)
        (fun s => (m.textOf s).toList) (draft_holds m settings).edits
      rw [loadingText, component, if_pos rfl, out]
      refine (infix_intercalate replaced).trans (infix_of_inOrder (InOrder.weave _ ?_ rest)
        (among.subset (List.mem_map_of_mem he)))
      exact length.trans (length_edited _ _ _ _).symm
  | false =>
      have chosen : Strategy.ofPlan (Plan.of m settings) = .modulePatchable := by
        rw [Strategy.ofPlan, component, some]
        rfl
      rw [chosen] at lays ⊢
      have loaded : initializer index g ∈ (Plan.of m settings).loading := by
        rw [loading, some, if_neg Bool.false_ne_true]
        refine List.mem_cons_of_mem _ (List.mem_map.mpr ⟨(g, index), ?_, rfl⟩)
        exact List.mk_mem_zipIdx_iff_getElem?.mpr found
      change _ = _ at lays
      rw [loadingText, component, if_neg Bool.false_ne_true, lays, String.toList_append]
      refine (infix_intercalate ?_).trans (List.infix_append [] _ _)
      simp [loaded]

theorem phased_of_parse {s : Script.Statement} {d : ImportDeclaration} (hd : (s, d) ∈ m.imports) :
    d.Phased := by
  obtain ⟨program, read, rfl⟩ := Module.statements_of_parse h
  obtain ⟨member, kind⟩ := importing_of_mem_declarations hd
  exact Program.parse_phased read s member d kind

/-- An import with a phase has one binding.  If it cannot be rebound, the declaration is in the code
as it is written.  If it can, nothing of the declaration stays, and the code evaluates its source
and binds the name then. -/
theorem code_phases (settings : ClassifySettings) (parameter : String) :
    let p := Plan.of m settings
    let policy := Policy.of m settings
    let out := p.code (Strategy.ofPlan p) parameter
    (∀ s d, (s, d) ∈ m.imports → d.Phased ∧
      (d.phase ≠ .evaluation → ∀ b ∈ d.bindings, policy.isRebindable d b →
        fixedText policy (m.textOf s) d = none ∧
          Evaluates p parameter out d.source b.localName)) ∧
    InOrder ((m.imports.filter fun d => d.2.phase ≠ .evaluation ∧
      ∀ b ∈ d.2.bindings, ¬policy.isRebindable d.2 b).map fun d => (m.textOf d.1).toList)
      out.toList := by
  intro p policy out
  refine ⟨fun s d hd => ⟨phased_of_parse h hd, fun phase b hb rebindable => ?_⟩, ?_⟩
  · have among : b ∈ policy.rebindable d := List.mem_filter.mpr ⟨hb, rebindable⟩
    have all : policy.static d = [] := by
      obtain ⟨b', single⟩ := (phased_of_parse h hd).single phase
      rw [single, List.mem_singleton] at hb
      subst hb
      rw [Policy.static_eq_nil, single]
      simpa using rebindable
    refine ⟨?_, ?_⟩
    · rw [fixedText_of_busy _ (List.ne_nil_of_mem among), if_pos all]
    · obtain ⟨index, g, found, same, binds⟩ := group_of_rebindable m settings hd among
      exact ⟨index, g, found, same, binds, loads_group h settings parameter found⟩
  · refine (idle_inOrder h settings parameter).sublist (List.Sublist.map _ ?_)
    refine List.monotone_filter_right _ fun d idle => ?_
    rw [List.isEmpty_iff, Policy.rebindable_eq_nil]
    exact (of_decide_eq_true idle).2

end Parsed

/-- A component that defers one import and asks for the source of another. -/
theorem code_phases_component :
    ∃ m, Module.parse "m.js"
        "import defer * as f from './f';import source g from 'g';defineComponent(f)" = .ok m ∧
      let p := Plan.of m {}
      let policy := Policy.of m {}
      let out := p.code (Strategy.ofPlan p) "v"
      (∀ s d, (s, d) ∈ m.imports → d.Phased ∧
        (d.phase ≠ .evaluation → ∀ b ∈ d.bindings, policy.isRebindable d b →
          fixedText policy (m.textOf s) d = none ∧
            Evaluates p "v" out d.source b.localName)) ∧
      InOrder ((m.imports.filter fun d => d.2.phase ≠ .evaluation ∧
        ∀ b ∈ d.2.bindings, ¬policy.isRebindable d.2 b).map fun d => (m.textOf d.1).toList)
        out.toList := by
  have parsed : Module.parse "m.js"
      "import defer * as f from './f';import source g from 'g';defineComponent(f)" =
      .ok ⟨"m.js", "import defer * as f from './f';import source g from 'g';defineComponent(f)",
        [⟨0, 31, .importing ⟨"./f", [⟨"f", .namespaceObject⟩], .deferred, false⟩⟩,
          ⟨31, 56, .importing ⟨"g", [⟨"g", .defaultExport⟩], .source, false⟩⟩,
          ⟨56, 74, .other⟩]⟩ := by
    decide +kernel
  exact ⟨_, parsed, code_phases parsed {} "v"⟩

/-- A component that defers an import and asks for the source of a module is given a namespace and a
default export that are evaluated at once: its code holds the same bindings without their phases. -/
theorem code_evaluates_phased :
    ∃ m m', Module.parse "m.js"
        "import defer * as f from './f';import source g from './g';defineComponent(f)" = .ok m ∧
      Module.parse "m.js" ((Plan.of m {}).code (Strategy.ofPlan (Plan.of m {})) "v") = .ok m' ∧
      m'.source = "import * as f from \"./f?v=__relive_ef644418__\";" ++
        "import g from \"./g?v=__relive_f643622c__\";defineComponent(f)" ∧
      m.imports.map (·.2.phase) = [.deferred, .source] ∧
      m'.imports.map (·.2.phase) = [.evaluation, .evaluation] ∧
      m.imports.map (·.2.bindings) = m'.imports.map (·.2.bindings) := by
  have parsed : Module.parse "m.js"
      "import defer * as f from './f';import source g from './g';defineComponent(f)" =
      .ok ⟨"m.js", "import defer * as f from './f';import source g from './g';defineComponent(f)",
        [⟨0, 31, .importing ⟨"./f", [⟨"f", .namespaceObject⟩], .deferred, false⟩⟩,
          ⟨31, 58, .importing ⟨"./g", [⟨"g", .defaultExport⟩], .source, false⟩⟩,
          ⟨58, 76, .other⟩]⟩ := by
    decide +kernel
  have again : Module.parse "m.js" ("import * as f from \"./f?v=__relive_ef644418__\";" ++
        "import g from \"./g?v=__relive_f643622c__\";defineComponent(f)") =
      .ok ⟨"m.js", "import * as f from \"./f?v=__relive_ef644418__\";" ++
        "import g from \"./g?v=__relive_f643622c__\";defineComponent(f)",
        [⟨0, 47, .importing ⟨"./f?v=__relive_ef644418__", [⟨"f", .namespaceObject⟩], .evaluation,
            false⟩⟩,
          ⟨47, 89, .importing ⟨"./g?v=__relive_f643622c__", [⟨"g", .defaultExport⟩], .evaluation,
            false⟩⟩,
          ⟨89, 107, .other⟩]⟩ := by
    decide +kernel
  refine ⟨_, _, parsed, (congrArg (Module.parse "m.js") ?_).trans again, rfl, ?_, ?_, ?_⟩
  · decide +kernel
  · decide
  · decide
  · decide

end Plan
end HotReload
