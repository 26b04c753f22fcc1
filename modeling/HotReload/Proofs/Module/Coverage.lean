import HotReload.Proofs.Module.Layout
import HotReload.Proofs.Script.Gaps

/-!
# What the code for a module leaves out

A module that is no component is written anew from its statements, and so whatever stands around
them is left out: the line that names the interpreter, white space, comments, and the decorators of
exported classes, which are code (`code_leaves_gaps`, `code_leaves_decorators`).  Nothing else
stands there.
-/

namespace HotReload
namespace Plan

open Script Text

/-- Around the statements of a module stand the line that names the interpreter, white space,
comments, and the decorators of exported classes; and the code for the module keeps its statements,
however it is written. -/
theorem code_leaves_gaps {m : Module} {path source : String} (h : Module.parse path source = .ok m)
    (settings : ClassifySettings) (parameter : String) :
    (∃ line text, source.toList = line ++ text ∧ InterpreterLine line text ∧
      Spaced (byteLength line) m.statements text) ∧
    Lays m (Plan.of m settings) parameter
      ((Plan.of m settings).code (Strategy.ofPlan (Plan.of m settings)) parameter)
      (Strategy.ofPlan (Plan.of m settings)) := by
  refine ⟨?_, lays_of_parse h settings parameter _ rfl⟩
  obtain ⟨program, read, rfl⟩ := Module.statements_of_parse h
  exact Program.parse_spaced read

/-- A module with an interpreter line, comments, and an exported class with a decorator. -/
theorem code_leaves_gaps_decorated :
    ∃ m, Module.parse "m.js" "#!node\n@dec export class A {}\n/* b */ run() // c" = .ok m ∧
      (∃ line text, "#!node\n@dec export class A {}\n/* b */ run() // c".toList = line ++ text ∧
        InterpreterLine line text ∧ Spaced (byteLength line) m.statements text) ∧
      Lays m (Plan.of m {}) "v" ((Plan.of m {}).code (Strategy.ofPlan (Plan.of m {})) "v")
        (Strategy.ofPlan (Plan.of m {})) := by
  have parsed : Module.parse "m.js" "#!node\n@dec export class A {}\n/* b */ run() // c" =
      .ok ⟨"m.js", "#!node\n@dec export class A {}\n/* b */ run() // c",
        [⟨12, 29, .exporting⟩, ⟨38, 43, .other⟩]⟩ := by
    decide +kernel
  exact ⟨_, parsed, code_leaves_gaps parsed {} "v"⟩

/-- The decorator of an exported class stands outside of all statements, is neither white space nor
a comment, and is not in the code. -/
theorem code_leaves_decorators :
    ∃ m, Module.parse "m.js" "@dec export class A {}" = .ok m ∧
      m.statements = [⟨5, 22, .exporting⟩] ∧ slice 0 5 m.source.toList = "@dec ".toList ∧
      ¬Trivia "@dec ".toList ∧
      (Plan.of m {}).code (Strategy.ofPlan (Plan.of m {})) "v" = "export class A {}\n" := by
  have parsed : Module.parse "m.js" "@dec export class A {}" =
      .ok ⟨"m.js", "@dec export class A {}", [⟨5, 22, .exporting⟩]⟩ := by
    decide +kernel
  refine ⟨_, parsed, rfl, by decide +kernel, fun trivia => ?_, by decide +kernel⟩
  cases trivia with
  | blank first _ => exact absurd first (by decide)

end Plan
end HotReload
