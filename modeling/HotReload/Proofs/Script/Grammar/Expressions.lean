import HotReload.Proofs.Script.Grammar.Patterns

/-!
# Expressions are put together from steps

One lemma for each rule, from literals up to assignments.  An arrow function of a single name after
`async` is recognized by three tokens, of which the third one counts on the same line only.
-/

namespace HotReload
namespace Script

open Script.Parser

section Rules

variable {r : Rules} (hr : Grounded r) (c : Context)

include hr

theorem template_composed (tagged : Bool) : Composed 1 0 (template r c tagged) := by
  refine .iterate (fun _ => ?_) _ _
  refine .look (fun _ => rfl) fun t => ?_
  split
  · apply Composed.ite (.fail 1 _)
    apply Composed.ite
    · refine .seq .advance fun _ => ?_
      exact .pure _
    · refine .seq .advance fun _ => ?_
      refine .seq (.discard (valueExpression_composed hr _)) fun _ => ?_
      refine .seq (.atMark _) fun _ => ?_
      refine .ite ?_ (.unexpected 0)
      refine .seq .takeTemplate fun _ => ?_
      exact .pure _
  · exact .unexpected 1

omit hr in
theorem itemEnd_composed (close : Mark) : Composed 0 0 (itemEnd close) := by
  apply Composed.eat_then (.pure _)
  refine .seq (.atMark _) fun _ => ?_
  exact .ite (.pure _) (.unexpected 0)

theorem listItem_composed (close : Mark) : Composed 1 0 (listItem r c close) := by
  refine .seq (.eat _) fun spread => ?_
  refine .seq (hr.assignment _) fun s => ?_
  refine .seq (itemEnd_composed close) fun comma => ?_
  exact .pure _

theorem arrayLiteral_composed : Composed 1 0 (arrayLiteral r c) := by
  refine .seq (.expect _) fun _ => ?_
  refine .seq (m := 0) ?_ fun _ => ?_
  · refine .iterate (n := 0) (fun _ => ?_) _ _
    apply Composed.eat_then (.pure _)
    apply Composed.eat_then (.pure _)
    refine .seq (listItem_composed hr c _) fun _ => ?_
    exact .pure _
  · exact .pure _

theorem arguments_composed : Composed 1 0 (arguments r c) := by
  refine .seq (.expect _) fun _ => ?_
  refine .iterate (fun _ => ?_) _ _
  apply Composed.eat_then (.pure _)
  refine .seq (listItem_composed hr c _) fun _ => ?_
  exact .pure _

theorem valueArguments_composed : Composed 1 0 (valueArguments r c) := by
  refine .seq (arguments_composed hr c) fun _ => ?_
  exact .ite (.pure _) (.fail 0 _)

theorem afterKey_composed : Composed 1 0 (afterKey r c) := by
  refine .seq (.atMark _) fun _ => ?_
  apply Composed.ite
  · refine .seq (.discard (hr.functionTail _)) fun _ => ?_
    exact .pure _
  · refine .seq (.expect _) fun _ => ?_
    refine .seq (hr.assignment _) fun _ => ?_
    exact .pure _

theorem memberKey_composed : Composed 1 0 (memberKey r c) := by
  refine .look (fun _ => rfl) fun t => ?_
  split
  · exact .advance
  · exact .advance
  · exact .advance
  · exact computedKey_composed hr c
  · exact .unexpected 1

theorem wordMember_composed (w : String) : Composed 1 0 (wordMember r c w) := by
  refine .seq .advance fun _ => ?_
  refine .seq (.atMark _) fun _ => ?_
  refine .seq (.atMark _) fun _ => ?_
  apply Composed.ite
  · refine .seq (afterKey_composed hr c) fun _ => ?_
    exact .pure _
  · refine .ite ?_ (.fail 0 _)
    refine .seq (initializer_composed hr _) fun _ => ?_
    exact .pure _

theorem objectMember_composed : Composed 1 0 (objectMember r c) := by
  refine .look (fun _ => rfl) fun t => ?_
  apply Composed.eat_then
  · refine .seq (hr.assignment _) fun s => ?_
    refine .seq (.atMark _) fun _ => ?_
    exact .pure _
  · apply Composed.eat_then
    · refine .seq (memberKey_composed hr c) fun _ => ?_
      refine .seq (.discard (hr.functionTail _)) fun _ => ?_
      exact .pure _
    · refine .ahead (modifier_composed _ _ fun _ => rfl) fun async => ?_
      apply Composed.ite
      · refine .seq (.eat _) fun generator => ?_
        refine .seq (memberKey_composed hr c) fun _ => ?_
        refine .seq (.discard (hr.functionTail _)) fun _ => ?_
        exact .pure _
      · refine .ahead (modifier_composed _ _ fun _ => rfl) fun getter => ?_
        refine .ahead (modifierIf_composed _ _ (fun _ => rfl) _) fun setter => ?_
        apply Composed.ite
        · refine .seq (memberKey_composed hr c) fun _ => ?_
          refine .seq (hr.functionTail _) fun arity => ?_
          exact .ite (.pure _) (.fail 0 _)
        · split
          · exact wordMember_composed hr c _
          · refine .seq (memberKey_composed hr c) fun _ => ?_
            refine .seq (afterKey_composed hr c) fun _ => ?_
            exact .pure _

theorem objectLiteral_composed : Composed 1 0 (objectLiteral r c) := by
  refine .seq (.expect _) fun _ => ?_
  refine .seq (m := 0) ?_ fun _ => ?_
  · refine .iterate (n := 0) (fun state => ?_) _ _
    apply Composed.eat_then (.pure _)
    refine .seq (objectMember_composed hr c) fun _ => ?_
    refine .seq (separator_composed _) fun _ => ?_
    exact .pure _
  · exact .pure _

theorem parenthesized_composed : Composed 1 0 (parenthesized r c) := by
  refine .seq (.expect _) fun _ => ?_
  refine .seq (m := 0) ?_ fun found => ?_
  · refine .iterate (n := 0) (fun state => ?_) _ _
    apply Composed.eat_then (.pure _)
    apply Composed.eat_then
    · refine .seq (.discard (hr.binding _)) fun _ => ?_
      refine .seq (.expect _) fun _ => ?_
      exact .pure _
    · refine .seq (hr.assignment _) fun s => ?_
      apply Composed.eat_then (.pure _)
      refine .seq (.expect _) fun _ => ?_
      exact .pure _
  · refine .look (fun _ => rfl) fun t => ?_
    apply Composed.ite
    · exact .ite (.pure _) (.fail 0 _)
    · apply Composed.ite (.unexpected 0)
      split
      · refine .seq (operand_composed _) fun _ => ?_
        exact .pure _
      · exact .ite (.pure _) (.fail 0 _)

omit hr in
theorem propertyName_composed : Composed 1 0 propertyName := by
  refine .look (fun _ => rfl) fun t => ?_
  split
  · exact .advance
  · exact .advance
  · exact .unexpected 1

theorem importOptions_composed : Composed 0 0 (importOptions r c) := by
  refine .eat_then ?_ (.pure _)
  refine .seq (.atMark _) fun _ => ?_
  apply Composed.ite (.pure _)
  refine .seq (.discard (value_composed hr _)) fun _ => ?_
  exact .discard (.eat _)

theorem importArguments_composed : Composed 1 0 (importArguments r c) := by
  refine .seq (.expect _) fun _ => ?_
  refine .seq (.discard (value_composed hr _)) fun _ => ?_
  refine .seq (importOptions_composed hr c) fun _ => ?_
  exact .last (.expect _)

theorem importExpression_composed : Composed 1 0 (importExpression r c) := by
  refine .seq (.expectWord _) fun _ => ?_
  apply Composed.eat_then
  · apply Composed.eatWord_then (.pure _)
    refine .seq (.atWord _) fun _ => ?_
    refine .seq (.atWord _) fun _ => ?_
    refine .ite ?_ (.unexpected 0)
    refine .seq .advance fun _ => ?_
    refine .seq (importArguments_composed hr c) fun _ => ?_
    exact .pure _
  · refine .seq (importArguments_composed hr c) fun _ => ?_
    exact .pure _

theorem optionalArguments_composed : Composed 0 0 (optionalArguments r c) := by
  refine .seq (.atMark _) fun _ => ?_
  exact .ite (.last (valueArguments_composed hr c)) (.pure _)

theorem constructorLink_composed (s : Shape) : Composed 0 0 (constructorLink r c s) := by
  refine .look (fun _ => rfl) fun t => ?_
  split
  · refine .seq .advance fun _ => ?_
    refine .seq propertyName_composed fun _ => ?_
    exact .pure _
  · exact .unexpected 0
  · apply Composed.ite (.pure _)
    refine .seq .advance fun _ => ?_
    refine .seq (.discard (valueExpression_composed hr _)) fun _ => ?_
    refine .seq (.expect _) fun _ => ?_
    exact .pure _
  · refine .seq (template_composed hr c true) fun _ => ?_
    exact .pure _
  · exact .pure _

theorem newExpression_composed : Composed 1 0 (newExpression r c) := by
  refine .seq (.expectWord _) fun _ => ?_
  apply Composed.eat_then
  · refine .seq (.expectWord _) fun _ => ?_
    exact .pure _
  · refine .seq (hr.primary c) fun s => ?_
    refine .seq (operand_composed s) fun first => ?_
    refine .seq (m := 0) ?_ fun callee => ?_
    · refine .iterate (fun s => ?_) _ _
      exact constructorLink_composed hr c s
    · split
      · exact .unexpected 0
      · refine .seq (optionalArguments_composed hr c) fun _ => ?_
        exact .pure _

omit hr in
theorem superExpression_composed : Composed 1 0 superExpression := by
  refine .seq (.expectWord _) fun _ => ?_
  refine .seq (.atMark _) fun _ => ?_
  refine .seq (.atMark _) fun _ => ?_
  refine .seq (.atMark _) fun _ => ?_
  exact .ite (.pure _) (.unexpected 0)

omit hr in
theorem named_composed : Composed 1 0 (do return Shape.name (← bindingName c)) := by
  refine .seq (bindingName_composed c) fun _ => ?_
  exact .pure _

theorem wordExpression_composed (w : String) : Composed 1 0 (wordExpression r c w) := by
  unfold wordExpression
  split
  · refine .seq .advance fun _ => ?_
    exact .pure _
  · refine .seq .advance fun _ => ?_
    exact .pure _
  · refine .seq .advance fun _ => ?_
    exact .pure _
  · refine .seq .advance fun _ => ?_
    exact .pure _
  · refine .seq (.discard (functionFrom_composed hr c _ _ _)) fun _ => ?_
    exact .pure _
  · refine .seq (.discard (classFrom_composed hr c)) fun _ => ?_
    exact .pure _
  · exact newExpression_composed hr c
  · exact superExpression_composed
  · exact importExpression_composed hr c
  · refine .second (fun _ => rfl) fun second => ?_
    refine .ite ?_ (named_composed c)
    refine .seq .advance fun _ => ?_
    refine .seq (.discard (functionFrom_composed hr c _ _ _)) fun _ => ?_
    exact .pure _
  · exact named_composed c

theorem primaryRule_composed : Composed 1 0 (primaryRule r c) := by
  refine .look (fun _ => rfl) fun t => ?_
  split
  · exact wordExpression_composed hr c _
  · exact named_composed c
  · refine .seq .advance fun _ => ?_
    exact .pure _
  · refine .seq .advance fun _ => ?_
    exact .pure _
  · refine .seq (template_composed hr c false) fun _ => ?_
    exact .pure _
  · exact arrayLiteral_composed hr c
  · exact objectLiteral_composed hr c
  · exact parenthesized_composed hr c
  · refine .seq .takePattern fun _ => ?_
    refine .seq .advance fun _ => ?_
    exact .pure _
  · refine .seq .takePattern fun _ => ?_
    refine .seq .advance fun _ => ?_
    exact .pure _
  · refine .seq (.discard (decorators_composed hr c)) fun _ => ?_
    refine .seq (.discard (classFrom_composed hr c)) fun _ => ?_
    exact .pure _
  · exact .unexpected 1

theorem optionalLink_composed : Composed 1 0 (optionalLink r c) := by
  refine .look (fun _ => rfl) fun t => ?_
  split
  · refine .seq .advance fun _ => ?_
    refine .seq (.discard (valueExpression_composed hr _)) fun _ => ?_
    exact .last (.expect _)
  · exact valueArguments_composed hr c
  · exact propertyName_composed

theorem chainLink_composed (s : Chain) : Composed 0 0 (chainLink r c s) := by
  refine .look (fun _ => rfl) fun t => ?_
  dsimp only
  split
  · refine .seq (.discard (operand_composed _)) fun _ => ?_
    refine .seq .advance fun _ => ?_
    refine .seq propertyName_composed fun _ => ?_
    exact .pure _
  · refine .seq (.discard (operand_composed _)) fun _ => ?_
    refine .seq .advance fun _ => ?_
    refine .seq (optionalLink_composed hr c) fun _ => ?_
    exact .pure _
  · apply Composed.ite (.pure _)
    refine .seq (.discard (operand_composed _)) fun _ => ?_
    refine .seq .advance fun _ => ?_
    refine .seq (.discard (valueExpression_composed hr _)) fun _ => ?_
    refine .seq (.expect _) fun _ => ?_
    exact .pure _
  · refine .seq (.discard (operand_composed _)) fun _ => ?_
    apply Composed.ite (.unexpected 0)
    refine .seq (template_composed hr c true) fun _ => ?_
    exact .pure _
  · refine .seq (.discard (operand_composed _)) fun _ => ?_
    refine .seq (arguments_composed hr c) fun items => ?_
    refine .look (fun _ => rfl) fun u => ?_
    apply Composed.ite
    · exact .ite (.pure _) (.fail 0 _)
    · exact .ite (.pure _) (.fail 0 _)
  · exact .pure _

theorem leftHandSideRule_composed : Composed 1 0 (leftHandSideRule r c) := by
  refine .look (fun _ => rfl) fun t => ?_
  refine .seq (primaryRule_composed hr c) fun s => ?_
  refine .iterate (fun s => ?_) _ _
  exact chainLink_composed hr c s

theorem updateExpression_composed : Composed 1 0 (updateExpression r c) := by
  refine .seq (.atMark _) fun _ => ?_
  refine .seq (.atMark _) fun _ => ?_
  apply Composed.ite
  · refine .seq .advance fun _ => ?_
    refine .seq (hr.unary c) fun s => ?_
    exact .ite (.pure _) (.fail 0 _)
  · refine .seq (leftHandSideRule_composed hr c) fun s => ?_
    refine .look (fun _ => rfl) fun t => ?_
    refine .ite ?_ (.pure _)
    refine .ite ?_ (.fail 0 _)
    refine .seq .advance fun _ => ?_
    exact .pure _

theorem prefixed_composed : Composed 1 0 (prefixed r c) := by
  refine .seq .advance fun _ => ?_
  refine .seq (hr.unary c) fun s => ?_
  refine .seq (.discard (operand_composed s)) fun _ => ?_
  exact .pure _

theorem unaryRule_composed : Composed 1 0 (unaryRule r c) := by
  refine .look (fun _ => rfl) fun t => ?_
  split
  case h_8 =>
    refine .ite (prefixed_composed hr c) (.second (fun _ => rfl) fun second => ?_)
    exact .ite (.unexpected 1) (updateExpression_composed hr c)
  case h_9 => exact updateExpression_composed hr c
  all_goals exact prefixed_composed hr c

theorem firstOperand_composed (level : Nat) : Composed 1 0 (firstOperand r c level) := by
  refine .look (fun _ => rfl) fun t => ?_
  split
  · refine .ite ?_ (.unexpected 1)
    refine .seq .advance fun _ => ?_
    refine .seq (.expectWord _) fun _ => ?_
    refine .seq (hr.operands c _) fun s => ?_
    refine .seq (.discard (operand_composed s)) fun _ => ?_
    exact .pure _
  · exact unaryRule_composed hr c

omit hr in
theorem joined_composed (op : Operator) (left right : Shape) :
    Composed 0 0 (joined op left right) := by
  unfold joined
  split
  · split
    · exact .fail 0 _
    · exact .fail 0 _
    · exact .pure _
  · exact .pure _
  · exact .pure _
  · exact .pure _

theorem operandsRule_composed (level : Nat) : Composed 1 0 (operandsRule r c level) := by
  refine .seq (firstOperand_composed hr c level) fun first => ?_
  refine .iterate (fun left => ?_) _ _
  refine .look (fun _ => rfl) fun t => ?_
  split
  · refine .ite ?_ (.pure _)
    refine .seq (.discard (operand_composed left)) fun _ => ?_
    apply Composed.ite (.fail 0 _)
    refine .seq .advance fun _ => ?_
    refine .seq (hr.operands c _) fun s => ?_
    refine .seq (operand_composed s) fun right => ?_
    refine .seq (joined_composed _ _ _) fun _ => ?_
    exact .pure _
  · exact .pure _

theorem arrowBody_composed (async : Bool) : Composed 1 0 (arrowBody r c async) := by
  refine .seq (.expect _) fun _ => ?_
  refine .seq (.atMark _) fun _ => ?_
  apply Composed.ite
  · refine .seq (block_composed hr _) fun _ => ?_
    exact .pure _
  · refine .seq (.discard (value_composed hr _)) fun _ => ?_
    exact .pure _

theorem yieldExpression_composed : Composed 1 0 (yieldExpression r c) := by
  refine .seq .advance fun _ => ?_
  refine .look (fun _ => rfl) fun t => ?_
  apply Composed.ite (.pure _)
  refine .seq (.eat _) fun delegates => ?_
  refine .look (fun _ => rfl) fun u => ?_
  refine .ite ?_ (.pure _)
  refine .seq (.discard (value_composed hr c)) fun _ => ?_
  exact .pure _

theorem afterOperands_composed (left : Shape) : Composed 0 0 (afterOperands r c left) := by
  refine .look (fun _ => rfl) fun t => ?_
  split
  · exact .ite (.unexpected 0) (.last (arrowBody_composed hr c _))
  · exact .last (arrowBody_composed hr c _)
  · refine .ite ?_ (.fail 0 _)
    refine .seq .advance fun _ => ?_
    refine .seq (.discard (value_composed hr c)) fun _ => ?_
    exact .pure _
  · refine .ite ?_ (.fail 0 _)
    refine .seq .advance fun _ => ?_
    refine .seq (.discard (value_composed hr c)) fun _ => ?_
    exact .pure _
  · refine .seq (.discard (operand_composed _)) fun _ => ?_
    refine .seq .advance fun _ => ?_
    refine .seq (.discard (value_composed hr _)) fun _ => ?_
    refine .seq (.expect _) fun _ => ?_
    refine .seq (.discard (value_composed hr c)) fun _ => ?_
    exact .pure _
  · exact .pure _

omit hr in
theorem atAsyncArrow_composed : Composed 0 1 atAsyncArrow := by
  refine .seq (.atWord _) fun _ => ?_
  apply Composed.ite
  · refine Composed.lookThirdOnLine (n := 0) (d := 0) (fun _ _ => rfl) (fun t u line => ?_)
      fun o => ?_
    · simp [line]
    · split
      · exact .pure _
      · exact .pure _
  · exact .weaken (Nat.le_refl 0) (by decide) (.pure _)

theorem assignmentRule_composed : Composed 1 0 (assignmentRule r c) := by
  have plain : Composed 1 0 (do afterOperands r c (← operandsRule r c 0)) :=
    .seq (operandsRule_composed hr c 0) fun left => afterOperands_composed hr c left
  refine .seq (.atWord _) fun _ => ?_
  apply Composed.ite
  · apply Composed.ite (yieldExpression_composed hr c)
    refine .second (fun _ => rfl) fun second => ?_
    exact .ite (.unexpected 1) plain
  · refine .ahead atAsyncArrow_composed fun _ => ?_
    refine .ite ?_ plain
    refine .seq .advance fun _ => ?_
    refine .seq (.discard (bindingName_composed _)) fun _ => ?_
    exact .last (arrowBody_composed hr c true)

end Rules

end Script
end HotReload
