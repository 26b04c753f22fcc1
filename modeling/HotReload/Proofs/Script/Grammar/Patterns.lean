import HotReload.Proofs.Script.Composed

/-!
# Patterns, functions and classes are put together from steps

One lemma for each rule: it is put together from the steps of reading, reads at least the tokens
that the lemma says, and does not look beyond the next token.  Only the modifiers of class elements
look at one token more.
-/

namespace HotReload
namespace Script

open Script.Parser

section Rules

variable {r : Rules} (hr : Grounded r) (c : Context)

theorem bindingName_composed : Composed 1 0 (bindingName c) := by
  refine .look (fun _ => rfl) fun t => ?_
  split
  · refine .ite ?_ (.fail 1 _)
    refine .seq .advance fun _ => ?_
    exact .pure _
  · exact .unexpected 1

theorem separator_composed (close : Mark) : Composed 0 0 (separator close) := by
  refine .seq (.atMark close) fun _ => ?_
  exact .ite (.pure _) (.last (.expect _))

theorem operand_composed (s : Shape) : Composed 0 0 (operand s) := .ite (.pure _) (.fail 0 _)

include hr

theorem value_composed : Composed 1 0 (value r c) := by
  refine .seq (hr.assignment c) fun s => ?_
  exact operand_composed s

theorem expression_composed : Composed 1 0 (expression r c) := by
  refine .seq (hr.assignment c) fun first => ?_
  refine .seq (.atMark _) fun _ => ?_
  refine .ite ?_ (.pure _)
  refine .seq (.discard (operand_composed first)) fun _ => ?_
  refine .iterate (fun _ => ?_) _ _
  refine .eat_then ?_ (.pure _)
  refine .seq (.discard (value_composed hr c)) fun _ => ?_
  exact .pure _

theorem valueExpression_composed : Composed 1 0 (valueExpression r c) := by
  refine .seq (expression_composed hr c) fun s => ?_
  exact operand_composed s

theorem parenthesizedValue_composed : Composed 1 0 (parenthesizedValue r c) := by
  refine .seq (.expect _) fun _ => ?_
  refine .seq (.discard (valueExpression_composed hr _)) fun _ => ?_
  exact .last (.expect _)

theorem statement_composed (place : Place) :
    Composed 1 0 (Functor.discard (r.statement c place)) := by
  rw [← Composed.discard_map Prod.snd]
  exact .discard (hr.statement c place)

theorem statementsToBrace_composed : Composed 0 0 (statementsToBrace r c) := by
  refine .iterate (fun _ => ?_) _ _
  apply Composed.eat_then (.pure _)
  refine .seq (statement_composed hr c .list) fun _ => ?_
  exact .pure _

theorem block_composed : Composed 1 0 (block r c) := by
  refine .seq (.expect _) fun _ => ?_
  exact statementsToBrace_composed hr c

theorem initializer_composed : Composed 0 0 (initializer r c) := by
  refine .eat_then ?_ (.pure _)
  refine .seq (.discard (value_composed hr c)) fun _ => ?_
  exact .pure _

theorem computedKey_composed : Composed 1 0 (computedKey r c) := by
  refine .seq (.expect _) fun _ => ?_
  refine .seq (.discard (value_composed hr _)) fun _ => ?_
  exact .last (.expect _)

theorem bindingItem_composed : Composed 1 0 (bindingItem r c) := by
  refine .seq (hr.binding c) fun _ => ?_
  refine .seq (.discard (initializer_composed hr _)) fun _ => ?_
  exact .pure _

theorem arrayPattern_composed : Composed 1 0 (arrayPattern r c) := by
  refine .seq (.expect _) fun _ => ?_
  refine .iterate (fun names => ?_) _ _
  apply Composed.eat_then (.pure _)
  apply Composed.eat_then (.pure _)
  apply Composed.eat_then
  · refine .seq (hr.binding c) fun _ => ?_
    refine .seq (.expect _) fun _ => ?_
    exact .pure _
  · refine .seq (bindingItem_composed hr c) fun _ => ?_
    refine .seq (separator_composed _) fun _ => ?_
    exact .pure _

theorem patternMember_composed : Composed 1 0 (patternMember r c) := by
  have keyed : Composed 1 0 (do
      expect .colon
      bindingItem r c) :=
    .seq (.expect _) fun _ => (bindingItem_composed hr c).last
  refine .look (fun _ => rfl) fun t => ?_
  split
  · refine .second (fun _ => rfl) fun _ => ?_
    apply Composed.ite
    · refine .seq .advance fun _ => ?_
      exact keyed.last
    · refine .ite ?_ (.fail 1 _)
      refine .seq .advance fun _ => ?_
      refine .seq (.discard (initializer_composed hr _)) fun _ => ?_
      exact .pure _
  · refine .seq .advance fun _ => ?_
    exact keyed.last
  · refine .seq .advance fun _ => ?_
    exact keyed.last
  · refine .seq (computedKey_composed hr c) fun _ => ?_
    exact keyed.last
  · exact .unexpected 1

theorem objectPattern_composed : Composed 1 0 (objectPattern r c) := by
  refine .seq (.expect _) fun _ => ?_
  refine .iterate (fun names => ?_) _ _
  apply Composed.eat_then (.pure _)
  apply Composed.eat_then
  · refine .seq (bindingName_composed c) fun _ => ?_
    refine .seq (.expect _) fun _ => ?_
    exact .pure _
  · refine .seq (patternMember_composed hr c) fun _ => ?_
    refine .seq (separator_composed _) fun _ => ?_
    exact .pure _

theorem bindingRule_composed : Composed 1 0 (bindingRule r c) := by
  refine .look (fun _ => rfl) fun t => ?_
  apply Composed.ite (arrayPattern_composed hr c)
  apply Composed.ite (objectPattern_composed hr c)
  refine .seq (bindingName_composed c) fun _ => ?_
  exact .pure _

theorem parameters_composed : Composed 1 0 (parameters r c) := by
  refine .seq (.expect _) fun _ => ?_
  refine .iterate (fun n => ?_) _ _
  apply Composed.eat_then (.pure _)
  apply Composed.eat_then
  · refine .seq (.discard (hr.binding c)) fun _ => ?_
    refine .seq (.expect _) fun _ => ?_
    exact .pure _
  · refine .seq (.discard (bindingItem_composed hr c)) fun _ => ?_
    refine .seq (separator_composed _) fun _ => ?_
    exact .pure _

theorem functionTailRule_composed : Composed 1 0 (functionTailRule r c) := by
  refine .seq (parameters_composed hr c) fun _ => ?_
  refine .seq (block_composed hr c) fun _ => ?_
  exact .pure _

omit hr in
theorem functionName_composed (required : Bool) : Composed 0 0 (functionName c required) := by
  refine .look (fun _ => rfl) fun t => ?_
  apply Composed.ite
  · refine .seq (bindingName_composed c) fun _ => ?_
    exact .pure _
  · exact .ite (.unexpected 0) (.pure _)

theorem functionFrom_composed (async expressionName nameRequired : Bool) :
    Composed 1 0 (functionFrom r c async expressionName nameRequired) := by
  refine .seq (.expectWord _) fun _ => ?_
  refine .seq (.eat _) fun generator => ?_
  refine .seq (functionName_composed _ _) fun name => ?_
  refine .seq (.discard (hr.functionTail _)) fun _ => ?_
  exact .pure _

theorem decorators_composed : Composed 0 0 (decorators r c) := by
  refine .iterate (fun found => ?_) _ _
  refine .eat_then ?_ (.pure _)
  refine .seq (hr.leftHandSide _) fun s => ?_
  refine .seq (.discard (operand_composed s)) fun _ => ?_
  exact .pure _

section Modifiers

variable (w : String) (before : Token → Bool) (hb : ∀ t, before t = before t.bare)

include hb

omit hr in
/-- A modifier looks at the second token, and so has to be followed by a parser that reads one. -/
theorem modifier_composed : Composed 0 1 (modifier w before) := by
  refine .seq (.atWord w) fun _ => ?_
  apply Composed.ite
  · refine Composed.lookSecond (n := 0) (d := 0) (fun t => ?_) fun o => ?_
    · simp [← hb t]
    · split
      · refine .ite ?_ (.pure _)
        refine .seq .advance fun _ => ?_
        exact .pure _
      · exact .pure _
  · exact .weaken (Nat.le_refl 0) (by decide) (.pure _)

omit hr in
theorem modifierIf_composed (expected : Bool) : Composed 0 1 (modifierIf expected w before) := by
  apply Composed.ite (modifier_composed w before hb)
  exact .weaken (Nat.le_refl 0) (by decide) (.pure _)

end Modifiers

omit hr in
theorem starIf_composed (expected : Bool) : Composed 0 0 (starIf expected) := by
  exact .ite (.eat _) (.pure _)

theorem classKey_composed : Composed 1 0 (classKey r c) := by
  refine .look (fun _ => rfl) fun t => ?_
  split
  · refine .seq .advance fun _ => ?_
    exact .pure _
  · refine .seq .advance fun _ => ?_
    exact .pure _
  · refine .seq .advance fun _ => ?_
    exact .pure _
  · apply Composed.ite (.fail 1 _)
    refine .seq .advance fun _ => ?_
    exact .pure _
  · refine .seq (computedKey_composed hr c) fun _ => ?_
    exact .pure _
  · exact .unexpected 1

theorem classElement_composed : Composed 1 0 (classElement r c) := by
  refine .seq (.discard (decorators_composed hr c)) fun _ => ?_
  refine .ahead (modifier_composed _ _ fun _ => rfl) fun isStatic => ?_
  refine .seq (.atMark _) fun _ => ?_
  apply Composed.ite (block_composed hr _)
  refine .ahead (modifier_composed _ _ fun _ => rfl) fun stored => ?_
  refine .ahead (modifierIf_composed _ _ (fun _ => rfl) _) fun async => ?_
  refine .seq (starIf_composed _) fun generator => ?_
  refine .ahead (modifierIf_composed _ _ (fun _ => rfl) _) fun getter => ?_
  refine .ahead (modifierIf_composed _ _ (fun _ => rfl) _) fun setter => ?_
  refine .seq (classKey_composed hr c) fun key => ?_
  apply Composed.ite (.fail 0 _)
  refine .seq (.atMark _) fun _ => ?_
  apply Composed.ite
  · apply Composed.ite (.fail 0 _)
    refine .seq (hr.functionTail _) fun arity => ?_
    exact .ite (.fail 0 _) (.pure _)
  · apply Composed.ite (.unexpected 0)
    apply Composed.ite (.fail 0 _)
    refine .seq (.discard (initializer_composed hr _)) fun _ => ?_
    exact .semicolon

omit hr in
theorem className_composed : Composed 0 0 (className c) := by
  refine .look (fun _ => rfl) fun t => ?_
  refine .ite ?_ (.pure _)
  refine .seq (bindingName_composed c) fun _ => ?_
  exact .pure _

theorem classParent_composed : Composed 0 0 (classParent r c) := by
  refine .eatWord_then ?_ (.pure _)
  refine .seq (hr.leftHandSide c) fun s => ?_
  exact .discard (operand_composed s)

theorem classFrom_composed : Composed 1 0 (classFrom r c) := by
  refine .seq (.expectWord _) fun _ => ?_
  refine .seq (className_composed c) fun name => ?_
  refine .seq (classParent_composed hr c) fun _ => ?_
  refine .seq (.expect _) fun _ => ?_
  refine .seq (m := 0) ?_ fun _ => ?_
  · refine .iterate (n := 0) (fun _ => ?_) _ _
    apply Composed.eat_then (.pure _)
    apply Composed.eat_then (.pure _)
    refine .seq (classElement_composed hr c) fun _ => ?_
    exact .pure _
  · exact .pure _

end Rules

end Script
end HotReload
