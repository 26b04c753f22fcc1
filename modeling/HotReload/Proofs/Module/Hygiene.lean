import HotReload.Proofs.Module.Loading

/-!
# Hygiene of loaders

A block of a loader holds the namespace of its module in a constant that is named for the place of
the block.  A module may import something under that very name.  If the import belongs to the group
of the block, then the constant hides the variable where it is assigned.

A block is hygienic if none of its commands assigns its constant; just then every assignment of the
block reaches a variable, and the block runs.  Which blocks of the code are hygienic can be told
from the imports of the module (`Plan.code_hygienic_iff`), and not all of them are
(`Plan.code_assigns_constant`).
-/

namespace HotReload

open Script

namespace Loader

/-- No command of the block assigns the constant of the block. -/
def Block.Hygienic (b : Block) : Prop := ∀ c ∈ b.commands, b.constant ∉ c.targets

instance (b : Block) : Decidable b.Hygienic :=
  inferInstanceAs (Decidable (∀ c ∈ b.commands, b.constant ∉ c.targets))

section Runs

variable {ν : Type} {w : World ν} {declared : List String} {constant : String} {v : ν}

theorem isSome_mapM_iff {α β : Type} {f : α → Option β} {as : List α} :
    (as.mapM f).isSome ↔ ∀ a ∈ as, (f a).isSome := by
  induction as with
  | nil => simp
  | cons a as ih =>
      rw [List.forall_mem_cons, ← ih, List.mapM_cons]
      cases f a with
      | none => simp
      | some b => cases as.mapM f <;> simp

theorem assign_isSome_iff {target : String} {x : ν} :
    (assign declared constant target x).isSome ↔ target ≠ constant ∧ target ∈ declared := by
  rw [assign]
  split
  next reached => exact ⟨fun _ => reached, fun _ => rfl⟩
  next hidden => exact ⟨fun never => Bool.noConfusion never, fun reached => absurd reached hidden⟩

/-- A command runs only if it fits into its block. -/
theorem Command.run_isSome_iff {c : Command} :
    (c.run w declared constant v).isSome ↔ c.Fits declared constant := by
  refine ⟨fun runs => ?_, fun fits => by rw [Command.run_eq_some fits]; rfl⟩
  by_cases reads : c.source = constant
  · have value : value? constant v c.source = some v := if_pos reads
    rw [Command.run, value, Option.bind_eq_bind, Option.bind_some] at runs
    refine ⟨reads, ?_⟩
    cases c with
    | whole target source =>
        have reached : (assign declared constant target v).isSome := by
          simpa [Option.isSome_bind] using runs
        simpa [Command.targets] using assign_isSome_iff.mp reached
    | member target source key =>
        have reached : (assign declared constant target (w.property v key)).isSome := by
          simpa [Option.isSome_bind] using runs
        simpa [Command.targets] using assign_isSome_iff.mp reached
    | take fields source =>
        intro t ht
        obtain ⟨f, hf, rfl⟩ := List.mem_map.mp ht
        exact assign_isSome_iff.mp (isSome_mapM_iff.mp runs f hf)
  · have missing : value? constant v c.source = none := if_neg reads
    rw [Command.run, missing] at runs
    cases runs

theorem Block.run_isSome_iff {b : Block} :
    (b.run w declared).isSome ↔ ∀ c ∈ b.commands, c.Fits declared b.constant := by
  have each : (b.run w declared).isSome =
      (b.commands.mapM (Command.run w declared b.constant (w.load b.path))).isSome := by
    rw [Block.run]
    cases b.commands.mapM (Command.run w declared b.constant (w.load b.path)) <;> rfl
  rw [each, isSome_mapM_iff]
  exact forall₂_congr fun _ _ => Command.run_isSome_iff

/-- A block whose commands read its constant and assign declared names runs just if it is
hygienic. -/
theorem Block.run_isSome_iff_hygienic {b : Block}
    (h : ∀ c ∈ b.commands, c.source = b.constant ∧ ∀ t ∈ c.targets, t ∈ declared) :
    (b.run w declared).isSome ↔ b.Hygienic := by
  rw [Block.run_isSome_iff]
  constructor
  · intro fits c hc assigned
    exact ((fits c hc).assigns _ assigned).1 rfl
  · intro hygienic c hc
    obtain ⟨source, targets⟩ := h c hc
    refine ⟨source, fun t ht => ⟨?_, targets t ht⟩⟩
    rintro rfl
    exact hygienic c hc ht

end Runs

theorem Command.map_fst_assigned {ν : Type} (w : World ν) (v : ν) (c : Command) :
    (c.assigned w v).map Prod.fst = c.targets := by
  cases c with
  | whole target source => rfl
  | member target source key => rfl
  | take fields source => simp [Command.assigned, Command.targets]

/-- The commands of a group assign each of its names once. -/
theorem targets_commandsOf (constant : String) (bindings : List Binding) :
    ((commandsOf constant bindings false bindings).flatMap Command.targets).Perm
      (bindings.map Binding.localName) := by
  let w : World Unit := ⟨fun _ => (), fun _ _ => ()⟩
  have names := (assigned_block w () constant bindings).map Prod.fst
  rw [List.map_flatMap, List.map_map] at names
  simp only [Command.map_fst_assigned] at names
  exact names

/-- The block of a group is hygienic if the group does not bind the name of the block's constant. -/
theorem Block.hygienic_of_iff (g : ImportGroup) (index : Nat) :
    (Block.of g index).Hygienic ↔ Plan.constantName index ∉ g.localNames := by
  have assigned := (targets_commandsOf (Plan.constantName index) g.bindings).mem_iff
    (a := Plan.constantName index)
  rw [List.mem_flatMap] at assigned
  rw [ImportGroup.localNames, ← assigned]
  constructor
  · rintro hygienic ⟨c, hc, ht⟩
    exact hygienic c hc ht
  · intro unassigned c hc ht
    exact unassigned ⟨c, hc, ht⟩

end Loader

namespace Plan

/-- The block at a place is that of the group at this place. -/
theorem getElem?_blocks (p : Plan) (index : Nat) :
    p.loader.blocks[index]? = p.groups[index]?.map (Loader.Block.of · index) := by
  rw [loader, List.getElem?_map, List.getElem?_zipIdx, Option.map_map, Nat.zero_add]
  rfl

section Of

variable {m : Module} {settings : ClassifySettings}

/-- The commands of a block read its constant and assign names that the loader declares. -/
theorem command_of_mem {g : ImportGroup} (hg : g ∈ (Plan.of m settings).groups) (index : Nat) :
    ∀ c ∈ (Loader.Block.of g index).commands, c.source = constantName index ∧
      ∀ t ∈ c.targets, t ∈ (Plan.of m settings).loader.declared := by
  intro c hc
  obtain ⟨source, targets⟩ := Loader.of_mem_commandsOf (fun _ hb => hb) c hc
  exact ⟨source, fun t ht => List.mem_flatMap.mpr ⟨g, hg, targets t ht⟩⟩

/-- The code for a module that is no component starts, behind the imports that stay, with one
loader, that has a block for every group.  A block is hygienic unless the module imports its source
under the name of the block's constant, by a binding that can be rebound; and it runs, so that each
of its assignments reaches a variable that the loader declares, just if it is hygienic. -/
theorem code_hygienic_iff {path source : String} (parsed : Module.parse path source = .ok m)
    (patchable : Strategy.ofPlan (Plan.of m settings) = .modulePatchable) (parameter : String) :
    let p := Plan.of m settings
    (∃ here after, (p.code (Strategy.ofPlan p) parameter).toList =
      (String.join (p.passthrough.map (· ++ "\n"))).toList ++ here ∧
        p.loader.Reads here after ∧ ∀ other : Loader, other.Reads here after → other = p.loader) ∧
    p.loader.blocks.length = p.groups.length ∧
    ∀ (index : Nat) (b : Loader.Block), p.loader.blocks[index]? = some b →
      b.constant = constantName index ∧
      (b.Hygienic ↔ ¬∃ s d x, (s, d) ∈ m.imports ∧ d.source = b.path ∧ x ∈ d.bindings ∧
        (Policy.of m settings).isRebindable d x ∧ x.localName = b.constant) ∧
      ∀ {ν : Type} (w : World ν), (b.run w p.loader.declared).isSome ↔ b.Hygienic := by
  intro p
  refine ⟨reads_loader parsed patchable parameter, by simp [loader], fun index b found => ?_⟩
  rw [getElem?_blocks, Option.map_eq_some_iff] at found
  obtain ⟨g, place, rfl⟩ := found
  have hg : g ∈ p.groups := List.mem_of_getElem? place
  refine ⟨rfl, ?_, fun w => Loader.Block.run_isSome_iff_hygienic (command_of_mem hg index)⟩
  rw [Loader.Block.hygienic_of_iff, mem_localNames_iff m settings hg]
  rfl

/-- Two sources that are imported under the names of the constants of other blocks. -/
theorem code_hygienic_iff_shifted :
    ∃ m, Module.parse "m.js" ("import { __relive_m1 } from './a';" ++
        "import * as __relive_m2 from './b';f();g();export { __relive_m1 };") = .ok m ∧
      Strategy.ofPlan (Plan.of m {}) = .modulePatchable ∧
      (∀ b ∈ (Plan.of m {}).loader.blocks, b.Hygienic) ∧
      let p := Plan.of m {}
      (∃ here after, (p.code (Strategy.ofPlan p) "v").toList =
        (String.join (p.passthrough.map (· ++ "\n"))).toList ++ here ∧
          p.loader.Reads here after ∧
          ∀ other : Loader, other.Reads here after → other = p.loader) ∧
      p.loader.blocks.length = p.groups.length ∧
      ∀ (index : Nat) (b : Loader.Block), p.loader.blocks[index]? = some b →
        b.constant = constantName index ∧
        (b.Hygienic ↔ ¬∃ s d x, (s, d) ∈ m.imports ∧ d.source = b.path ∧ x ∈ d.bindings ∧
          (Policy.of m {}).isRebindable d x ∧ x.localName = b.constant) ∧
        ∀ {ν : Type} (w : World ν), (b.run w p.loader.declared).isSome ↔ b.Hygienic := by
  obtain ⟨m, parsed, patchable, hygienic⟩ : ∃ m,
      Module.parse "m.js" ("import { __relive_m1 } from './a';" ++
        "import * as __relive_m2 from './b';f();g();export { __relive_m1 };") = .ok m ∧
      Strategy.ofPlan (Plan.of m {}) = .modulePatchable ∧
      ∀ b ∈ (Plan.of m {}).loader.blocks, b.Hygienic :=
    ⟨⟨"m.js", "import { __relive_m1 } from './a';" ++
        "import * as __relive_m2 from './b';f();g();export { __relive_m1 };",
      [⟨0, 34, .importing ⟨"./a", [⟨"__relive_m1", .named "__relive_m1"⟩], .evaluation, false⟩⟩,
        ⟨34, 69, .importing ⟨"./b", [⟨"__relive_m2", .namespaceObject⟩], .evaluation, false⟩⟩,
        ⟨69, 73, .other⟩, ⟨73, 77, .other⟩, ⟨77, 100, .exporting⟩]⟩,
      by decide +kernel, by decide +kernel, by decide +kernel⟩
  exact ⟨m, parsed, patchable, hygienic, code_hygienic_iff parsed patchable "v"⟩

/-- A module imports something under the name of the first constant.  In its code the constant hides
the variable, and the only assignment of the block does not reach it. -/
theorem code_assigns_constant :
    ∃ m, Module.parse "m.js" "import { __relive_m0 } from './a';f();g();export { __relive_m0 };" =
        .ok m ∧
      (Plan.of m {}).code (Strategy.ofPlan (Plan.of m {})) "v" = "let __relive_m0;\n\x7b\n" ++
        "  const __relive_m0 = await import(\"./a\");\n" ++
        "  (\x7b __relive_m0 \x7d = __relive_m0);\n" ++
        "\x7d\nf();\ng();\nexport { __relive_m0 };\n" ∧
      (Plan.of m {}).loader.blocks = [⟨"__relive_m0", "./a",
        [.take [.short "__relive_m0"] "__relive_m0"]⟩] ∧
      ∀ b ∈ (Plan.of m {}).loader.blocks, ¬b.Hygienic ∧
        ∀ {ν : Type} (w : World ν), b.run w (Plan.of m {}).loader.declared = none := by
  have blocks : (Plan.of ⟨"m.js",
      "import { __relive_m0 } from './a';f();g();export { __relive_m0 };",
      [⟨0, 34, .importing ⟨"./a", [⟨"__relive_m0", .named "__relive_m0"⟩], .evaluation, false⟩⟩,
        ⟨34, 38, .other⟩, ⟨38, 42, .other⟩, ⟨42, 65, .exporting⟩]⟩ {}).loader.blocks =
      [⟨"__relive_m0", "./a", [.take [.short "__relive_m0"] "__relive_m0"]⟩] := by
    decide +kernel
  refine ⟨_, by decide +kernel, by decide +kernel, blocks, fun b hb => ?_⟩
  rw [blocks, List.mem_singleton] at hb
  subst hb
  exact ⟨by decide, fun w => rfl⟩

end Of

end Plan
end HotReload
