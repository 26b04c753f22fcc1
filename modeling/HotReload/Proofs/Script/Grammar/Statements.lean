import HotReload.Proofs.Script.Grammar.Expressions

/-!
# Statements are put together from steps

One lemma for each rule of imports, exports, variables and statements.  The phase of an import is
told by up to three tokens, all of which belong to the import.  A statement gives the place where it
starts besides its kind; what the other rules see of it is the kind.

In the end the rules are tied together (`grounded_rules`).
-/

namespace HotReload
namespace Script

open Script.Parser

section Rules

variable {r : Rules} (hr : Grounded r) (c : Context)

theorem textLiteral_composed : Composed 1 0 textLiteral := by
  refine .look (fun _ => rfl) fun t => ?_
  split
  · refine .seq .advance fun _ => ?_
    exact .pure _
  · exact .unexpected 1

theorem exportedName_composed : Composed 1 0 exportedName := by
  refine .look (fun _ => rfl) fun t => ?_
  split
  · refine .seq .advance fun _ => ?_
    exact .pure _
  · apply Composed.ite (.fail 1 _)
    refine .seq .advance fun _ => ?_
    exact .pure _
  · exact .unexpected 1

theorem importAttribute_composed (keys : List String) : Composed 1 0 (importAttribute keys) := by
  have valued (key : String) : Composed 1 0 (do
      advance
      expect .colon
      discard textLiteral
      if keys.contains key then fail .duplicateAttribute else return key) := by
    refine .seq .advance fun _ => .seq (.expect _) fun _ => ?_
    exact .seq (.discard textLiteral_composed) fun _ => .ite (.fail 0 _) (.pure _)
  refine .look (fun _ => rfl) fun t => ?_
  split
  · exact valued _
  · exact valued _
  · exact .unexpected 1

theorem importAttributes_composed : Composed 0 0 (importAttributes r) := by
  refine .look (fun _ => rfl) fun t => ?_
  refine .ite ?_ (.pure _)
  refine .seq .advance fun _ => ?_
  refine .seq (.expect _) fun _ => ?_
  refine .iterate (fun keys => ?_) _ _
  apply Composed.eat_then (.pure _)
  refine .seq (importAttribute_composed keys) fun key => ?_
  refine .seq (separator_composed _) fun _ => ?_
  exact .pure _

theorem importItem_composed : Composed 1 0 (importItem c) := by
  refine .look (fun _ => rfl) fun t => ?_
  split
  · apply Composed.ite (.fail 1 _)
    refine .seq .advance fun _ => ?_
    refine .seq (.expectWord _) fun _ => ?_
    refine .seq (bindingName_composed c) fun _ => ?_
    exact .pure _
  · refine .second (fun _ => rfl) fun second => ?_
    apply Composed.ite
    · refine .seq .advance fun _ => ?_
      refine .seq (.expectWord _) fun _ => ?_
      refine .seq (bindingName_composed c) fun _ => ?_
      exact .pure _
    · refine .seq (bindingName_composed c) fun _ => ?_
      exact .pure _
  · exact .unexpected 1

theorem importItems_composed : Composed 1 0 (importItems r c) := by
  refine .seq (.expect _) fun _ => ?_
  refine .iterate (fun items => ?_) _ _
  apply Composed.eat_then (.pure _)
  refine .seq (importItem_composed c) fun _ => ?_
  refine .seq (separator_composed _) fun _ => ?_
  exact .pure _

theorem importNamespace_composed : Composed 1 0 (importNamespace c) := by
  refine .seq (.expect _) fun _ => ?_
  refine .seq (.expectWord _) fun _ => ?_
  refine .seq (bindingName_composed c) fun _ => ?_
  exact .pure _

theorem importClause_composed : Composed 1 0 (importClause r c) := by
  refine .look (fun _ => rfl) fun t => ?_
  apply Composed.ite (importItems_composed c)
  apply Composed.ite
  · refine .seq (importNamespace_composed c) fun _ => ?_
    exact .pure _
  · refine .seq (bindingName_composed c) fun first => ?_
    refine .eat_then ?_ (.pure _)
    refine .seq (.atMark _) fun _ => ?_
    apply Composed.ite
    · refine .seq (importItems_composed c) fun _ => ?_
      exact .pure _
    · refine .seq (importNamespace_composed c) fun _ => ?_
      exact .pure _

/-- The phase may be told by the second and third token. -/
theorem importPhase_composed : Composed 0 2 importPhase := by
  have evaluation : Composed 0 2 (pure Phase.evaluation) :=
    .weaken (Nat.le_refl 0) (by decide) (.pure _)
  refine .look (fun _ => rfl) fun t => ?_
  apply Composed.ite
  · refine .weaken (d := 1) (Nat.le_refl 0) (by decide) ?_
    refine .lookSecond (n := 0) (d := 0) (fun _ => rfl) fun second => ?_
    refine .ite ?_ (.pure _)
    refine .seq .advance fun _ => ?_
    exact .pure _
  · refine .ite ?_ evaluation
    refine .lookThird (n := 0) (d := 0) (fun _ _ => rfl) fun o => ?_
    split
    · refine .ite ?_ (.pure _)
      refine .seq .advance fun _ => ?_
      exact .pure _
    · exact .pure _

theorem importDeclaration_composed : Composed 1 0 (importDeclaration r c) := by
  refine .seq (.expectWord _) fun _ => ?_
  refine .look (fun _ => rfl) fun t => ?_
  split
  · refine .seq .advance fun _ => ?_
    refine .seq importAttributes_composed fun attributed => ?_
    refine .seq .semicolon fun _ => ?_
    exact .pure _
  · refine .weaken (m := 2) (by decide) (Nat.le_refl 0) ?_
    refine .ahead (n := 0) importPhase_composed fun phase => ?_
    refine .seq (importClause_composed c) fun bindings => ?_
    apply Composed.ite (.unexpected 1)
    refine .seq (.expectWord _) fun _ => ?_
    refine .seq textLiteral_composed fun source => ?_
    refine .seq importAttributes_composed fun attributed => ?_
    refine .seq .semicolon fun _ => ?_
    exact .pure _

include hr

theorem variableList_composed (isConstant namesOnly : Bool) :
    Composed 1 0 (variableList r c isConstant namesOnly) := by
  refine .iterate (fun v => ?_) _ _
  refine .look (fun _ => rfl) fun t => ?_
  apply Composed.ite (.unexpected 1)
  refine .seq (hr.binding c) fun names => ?_
  refine .seq (initializer_composed hr c) fun initialized => ?_
  refine .seq (.eat _) fun _ => ?_
  exact .ite (.pure _) (.pure _)

theorem variableStatement_composed (isConstant namesOnly : Bool) :
    Composed 1 0 (variableStatement r c isConstant namesOnly) := by
  refine .seq .advance fun _ => ?_
  refine .seq (variableList_composed hr c _ _) fun v => ?_
  refine .seq .semicolon fun _ => ?_
  exact .ite (.fail 0 _) (.pure _)

omit hr in
theorem outerName_composed (name : String) : Composed 0 0 (outerName name) := by
  refine .eatWord_then ?_ (.pure _)
  refine .seq exportedName_composed fun _ => ?_
  exact .pure _

omit hr in
theorem exportItems_composed : Composed 1 0 (exportItems r) := by
  refine .seq (.expect _) fun _ => ?_
  refine .iterate (fun items => ?_) _ _
  apply Composed.eat_then (.pure _)
  refine .seq exportedName_composed fun loc => ?_
  refine .seq (outerName_composed _) fun outer => ?_
  refine .seq (separator_composed _) fun _ => ?_
  exact .pure _

omit hr in
theorem exportNames_composed (names : List String) : Composed 0 0 (exportNames names) := by
  unfold exportNames
  induction names with
  | nil => exact .pure _
  | cons name names ih => exact .seq (.exportName name) fun _ => ih

omit hr in
theorem exportSource_composed (items : List ((String × Bool) × String)) :
    Composed 0 0 (exportSource r items) := by
  apply Composed.eatWord_then
  · refine .seq (.discard textLiteral_composed) fun _ => ?_
    exact .discard importAttributes_composed
  · exact .ite (.fail 0 _) (.pure _)

omit hr in
theorem exportList_composed : Composed 1 0 (exportList r) := by
  refine .seq exportItems_composed fun items => ?_
  refine .seq (exportSource_composed items) fun _ => ?_
  refine .seq (exportNames_composed _) fun _ => ?_
  exact .semicolon

omit hr in
theorem exportAlias_composed : Composed 0 0 exportAlias := by
  refine .eatWord_then ?_ (.pure _)
  refine .seq exportedName_composed fun name => ?_
  exact .exportName _

omit hr in
theorem exportAll_composed : Composed 1 0 (exportAll r) := by
  refine .seq (.expect _) fun _ => ?_
  refine .seq exportAlias_composed fun _ => ?_
  refine .seq (.expectWord _) fun _ => ?_
  refine .seq (.discard textLiteral_composed) fun _ => ?_
  refine .seq (.discard importAttributes_composed) fun _ => ?_
  exact .semicolon

omit hr in
theorem atAsyncFunction_composed : Composed 0 1 atAsyncFunction := by
  refine .seq (.atWord _) fun _ => ?_
  apply Composed.ite
  · refine .lookSecond (n := 0) (d := 0) (fun _ => rfl) fun second => ?_
    exact .pure _
  · exact .weaken (Nat.le_refl 0) (by decide) (.pure _)

theorem exportDefault_composed (decorated : Bool) : Composed 1 0 (exportDefault r c decorated) := by
  refine .seq (.expectWord _) fun _ => ?_
  refine .seq (.exportName _) fun _ => ?_
  refine .seq (decorators_composed hr c) fun inside => ?_
  apply Composed.ite (.unexpected 0)
  refine .weaken (m := 1) (by decide) (Nat.le_refl 0) ?_
  refine .seq (.atWord _) fun _ => ?_
  apply Composed.ite (.discard (classFrom_composed hr c))
  apply Composed.ite (.unexpected 1)
  refine .seq (.atWord _) fun _ => ?_
  apply Composed.ite
  · exact .discard (functionFrom_composed hr c _ _ _)
  · refine .ahead (n := 0) atAsyncFunction_composed fun _ => ?_
    apply Composed.ite
    · refine .seq .advance fun _ => ?_
      exact .last (.discard (functionFrom_composed hr c _ _ _))
    · refine .seq (.discard (value_composed hr c)) fun _ => ?_
      exact .semicolon

theorem exportedDeclaration_composed (decorated : Bool) :
    Composed 1 0 (exportedDeclaration r c decorated) := by
  refine .seq (decorators_composed hr c) fun inside => ?_
  refine .look (fun _ => rfl) fun t => ?_
  apply Composed.ite (.unexpected 1)
  apply Composed.ite
  · refine .seq (classFrom_composed hr c) fun name => ?_
    exact exportNames_composed _
  · apply Composed.ite (.unexpected 1)
    apply Composed.ite
    · refine .seq (variableStatement_composed hr c _ _) fun names => ?_
      exact exportNames_composed _
    · apply Composed.ite
      · refine .seq (variableStatement_composed hr c _ _) fun names => ?_
        exact exportNames_composed _
      · apply Composed.ite
        · refine .seq (functionFrom_composed hr c _ _ _) fun _ => ?_
          exact exportNames_composed _
        · refine .ahead atAsyncFunction_composed fun _ => ?_
          refine .ite ?_ (.unexpected 1)
          refine .seq .advance fun _ => ?_
          refine .seq (functionFrom_composed hr c _ _ _) fun _ => ?_
          exact exportNames_composed _

theorem exportDeclaration_composed (decorated : Bool) :
    Composed 1 0 (exportDeclaration r c decorated) := by
  refine .seq (.expectWord _) fun _ => ?_
  refine .look (fun _ => rfl) fun t => ?_
  apply Composed.ite (.last (exportDefault_composed hr c _))
  apply Composed.ite (.last exportList_composed)
  exact .ite (.last exportAll_composed) (.last (exportedDeclaration_composed hr c _))

theorem body_composed : Composed 1 0 (body r c) := statement_composed hr c .single

theorem ifStatement_composed : Composed 1 0 (ifStatement r c) := by
  refine .seq .advance fun _ => ?_
  refine .seq (parenthesizedValue_composed hr c) fun _ => ?_
  refine .seq (body_composed hr c) fun _ => ?_
  exact .eatWord_then (.last (body_composed hr c)) (.pure _)

theorem doStatement_composed : Composed 1 0 (doStatement r c) := by
  refine .seq .advance fun _ => ?_
  refine .seq (body_composed hr c) fun _ => ?_
  refine .seq (.expectWord _) fun _ => ?_
  refine .seq (parenthesizedValue_composed hr c) fun _ => ?_
  refine .seq .endStatement fun _ => ?_
  exact .discard (.eat _)

theorem ledStatement_composed : Composed 1 0 (ledStatement r c) := by
  refine .seq .advance fun _ => ?_
  refine .seq (parenthesizedValue_composed hr c) fun _ => ?_
  exact .last (body_composed hr c)

theorem optionalValue_composed (close : Mark) : Composed 0 0 (optionalValue r c close) := by
  refine .seq (.atMark _) fun _ => ?_
  exact .ite (.pure _) (.last (.discard (valueExpression_composed hr _)))

theorem countingLoop_composed : Composed 1 0 (countingLoop r c) := by
  refine .seq (.expect _) fun _ => ?_
  refine .seq (optionalValue_composed hr c _) fun _ => ?_
  refine .seq (.expect _) fun _ => ?_
  refine .seq (optionalValue_composed hr c _) fun _ => ?_
  refine .seq (.expect _) fun _ => ?_
  exact .last (body_composed hr c)

theorem collection_composed (awaited : Bool) : Composed 0 0 (collection r c awaited) := by
  apply Composed.eatWord_then
  · apply Composed.ite (.unexpected 0)
    exact .last (.discard (valueExpression_composed hr _))
  · refine .seq (.expectWord _) fun _ => ?_
    exact .last (.discard (value_composed hr _))

theorem collectionLoop_composed (awaited : Bool) : Composed 1 0 (collectionLoop r c awaited) := by
  refine .seq (collection_composed hr c awaited) fun _ => ?_
  refine .seq (.expect _) fun _ => ?_
  exact .last (body_composed hr c)

omit hr in
theorem atCollection_composed : Composed 0 0 atCollection := by
  refine .seq (.atWord _) fun _ => ?_
  refine .seq (.atWord _) fun _ => ?_
  exact .pure _

theorem declaringLoop_composed (awaited isConstant namesOnly : Bool) :
    Composed 1 0 (declaringLoop r c awaited isConstant namesOnly) := by
  refine .seq (variableList_composed hr _ _ _) fun v => ?_
  refine .seq atCollection_composed fun _ => ?_
  apply Composed.ite (.last (collectionLoop_composed hr c awaited))
  apply Composed.ite (.fail 0 _)
  exact .ite (.unexpected 0) (.last (countingLoop_composed hr c))

theorem expressionLoop_composed (awaited : Bool) : Composed 1 0 (expressionLoop r c awaited) := by
  refine .look (fun _ => rfl) fun t => ?_
  refine .second (fun _ => rfl) fun second => ?_
  refine .seq (expression_composed hr _) fun s => ?_
  refine .seq atCollection_composed fun _ => ?_
  apply Composed.ite
  · apply Composed.ite (.fail 0 _)
    apply Composed.ite (.unexpected 0)
    exact .last (collectionLoop_composed hr c awaited)
  · refine .seq (.discard (operand_composed s)) fun _ => ?_
    apply Composed.ite (.unexpected 0)
    exact .last (countingLoop_composed hr c)

omit hr in
theorem atAwaitUsing_composed : Composed 0 1 forStatement.atAwaitUsing := by
  refine Composed.lookThirdOnLine (n := 0) (d := 0) (fun _ _ => rfl) (fun t u line => ?_)
    fun o => ?_
  · simp [followsUsing, line]
  · split
    · exact .pure _
    · exact .pure _

theorem forStatement_composed : Composed 1 0 (forStatement r c) := by
  have loop (awaited isConstant namesOnly : Bool) : Composed 1 0 (do
      advance
      declaringLoop r c awaited isConstant namesOnly) :=
    .seq .advance fun _ => .last (declaringLoop_composed hr c _ _ _)
  refine .seq .advance fun _ => ?_
  refine .seq (.eatWord _) fun awaited => ?_
  apply Composed.ite (.unexpected 0)
  refine .seq (.expect _) fun _ => ?_
  refine .last (m := 1) ?_
  refine .look (fun _ => rfl) fun t => ?_
  refine .second (fun _ => rfl) fun second => ?_
  apply Composed.ite
  · exact .ite (.unexpected 1) (countingLoop_composed hr c)
  · apply Composed.ite (loop _ _ _)
    apply Composed.ite (loop _ _ _)
    apply Composed.ite (loop _ _ _)
    apply Composed.ite (loop _ _ _)
    refine .ahead atAwaitUsing_composed fun _ => ?_
    refine .ite ?_ (expressionLoop_composed hr c awaited)
    refine .seq .advance fun _ => ?_
    exact .last (loop _ _ _)

omit hr in
theorem sameLine_composed {p : Parser Unit} (h : Composed 0 0 p) : Composed 0 0 (sameLine p) := by
  refine .seq .atStatementEnd fun _ => ?_
  exact .ite (.pure _) h

omit hr in
theorem jumpStatement_composed : Composed 1 0 (jumpStatement c) := by
  have label : Composed 0 0 (Functor.discard (bindingName c)) :=
    .last (.discard (bindingName_composed c))
  refine .seq .advance fun _ => ?_
  refine .seq (sameLine_composed label) fun _ => ?_
  exact .semicolon

theorem returnStatement_composed : Composed 1 0 (returnStatement r c) := by
  have value : Composed 0 0 (Functor.discard (valueExpression r c.inner)) :=
    .last (.discard (valueExpression_composed hr _))
  apply Composed.ite (.fail 1 _)
  refine .seq .advance fun _ => ?_
  refine .seq (sameLine_composed value) fun _ => ?_
  exact .semicolon

theorem throwStatement_composed : Composed 1 0 (throwStatement r c) := by
  refine .seq .advance fun _ => ?_
  refine .look (fun _ => rfl) fun t => ?_
  apply Composed.ite (.fail 0 _)
  refine .seq (.discard (valueExpression_composed hr _)) fun _ => ?_
  exact .semicolon

theorem caseStatements_composed : Composed 0 0 (caseStatements r c) := by
  refine .iterate (fun _ => ?_) _ _
  refine .seq (.atMark _) fun _ => ?_
  refine .seq (.atWord _) fun _ => ?_
  refine .seq (.atWord _) fun _ => ?_
  apply Composed.ite (.pure _)
  refine .seq (statement_composed hr c .list) fun _ => ?_
  exact .pure _

theorem caseLabel_composed : Composed 0 0 (caseLabel r c) := by
  apply Composed.eatWord_then (.pure _)
  refine .seq (.expectWord _) fun _ => ?_
  exact .last (.discard (valueExpression_composed hr _))

theorem switchStatement_composed : Composed 1 0 (switchStatement r c) := by
  refine .seq .advance fun _ => ?_
  refine .seq (parenthesizedValue_composed hr c) fun _ => ?_
  refine .seq (.expect _) fun _ => ?_
  refine .iterate (fun _ => ?_) _ _
  apply Composed.eat_then (.pure _)
  refine .seq (caseLabel_composed hr c) fun _ => ?_
  refine .seq (.expect _) fun _ => ?_
  refine .seq (caseStatements_composed hr c) fun _ => ?_
  exact .pure _

theorem caughtBinding_composed : Composed 0 0 (caughtBinding r c) := by
  refine .eat_then ?_ (.pure _)
  refine .seq (.discard (hr.binding c)) fun _ => ?_
  exact .last (.expect _)

theorem catchClause_composed : Composed 0 0 (catchClause r c) := by
  refine .eatWord_then ?_ (.pure _)
  refine .seq (caughtBinding_composed hr c) fun _ => ?_
  refine .seq (block_composed hr c) fun _ => ?_
  exact .pure _

theorem tryStatement_composed : Composed 1 0 (tryStatement r c) := by
  refine .seq .advance fun _ => ?_
  refine .seq (block_composed hr c) fun _ => ?_
  refine .seq (catchClause_composed hr c) fun caught => ?_
  apply Composed.eatWord_then
  · exact .last (block_composed hr c)
  · exact .ite (.pure _) (.unexpected 0)

theorem expressionStatement_composed : Composed 1 0 (expressionStatement r c) := by
  refine .seq (valueExpression_composed hr c) fun s => ?_
  refine .seq (.atMark _) fun _ => ?_
  refine .ite ?_ .semicolon
  refine .seq .advance fun _ => ?_
  exact .last (body_composed hr c)

omit hr in
theorem listOnly_composed (place : Place) {p : Parser Unit} (h : Composed 1 0 p) :
    Composed 1 0 (listOnly place p) := .ite h (.fail 1 _)

theorem letStatement_composed (place : Place) : Composed 1 0 (letStatement r c place) := by
  refine .second (fun _ => rfl) fun second => ?_
  apply Composed.ite
  · refine .seq (.discard (value_composed hr c)) fun _ => ?_
    exact .semicolon
  · apply Composed.ite
    · refine .seq (.discard (valueExpression_composed hr c)) fun _ => ?_
      exact .endStatement
    · apply Composed.ite
      · refine .seq (.discard (bindingName_composed c)) fun _ => ?_
        exact .semicolon
      · exact listOnly_composed place (.discard (variableStatement_composed hr c _ _))

theorem functionStatement_composed (async : Bool) (place : Place) :
    Composed 1 0 (functionStatement r c async place) := by
  refine .seq (functionFrom_composed hr c _ _ _) fun _ => ?_
  exact .ite (.fail 0 _) (.pure _)

theorem wordStatement_composed (place : Place) (w : String) :
    Composed 1 0 (wordStatement r c place w) := by
  have declared (isConstant namesOnly : Bool) :
      Composed 1 0 (Functor.discard (variableStatement r c isConstant namesOnly)) :=
    .discard (variableStatement_composed hr c _ _)
  have expression := expressionStatement_composed hr c
  unfold wordStatement
  split
  · exact ifStatement_composed hr c
  · exact doStatement_composed hr c
  · exact ledStatement_composed hr c
  · exact ledStatement_composed hr c
  · exact forStatement_composed hr c
  · exact jumpStatement_composed c
  · exact jumpStatement_composed c
  · exact returnStatement_composed hr c
  · exact throwStatement_composed hr c
  · exact switchStatement_composed hr c
  · exact tryStatement_composed hr c
  · refine .seq .advance fun _ => ?_
    exact .semicolon
  · exact listOnly_composed place (.discard (classFrom_composed hr c))
  · exact functionStatement_composed hr c _ _
  · exact declared _ _
  · exact listOnly_composed place (declared _ _)
  · exact letStatement_composed hr c place
  · refine .ahead atAsyncFunction_composed fun _ => ?_
    refine .ite ?_ expression
    refine .seq .advance fun _ => ?_
    exact .last (functionStatement_composed hr c _ _)
  · refine .second (fun _ => rfl) fun second => ?_
    refine .ite ?_ expression
    exact listOnly_composed place (declared _ _)
  · refine .ahead atAwaitUsing_composed fun _ => ?_
    refine .ite ?_ expression
    refine .seq .advance fun _ => ?_
    exact .last (listOnly_composed place (declared _ _))
  · exact expression

/-- The kind of a statement that decorators lead. -/
theorem decoratedStatement_composed (place : Place) :
    Composed 1 0 (Prod.snd <$> decoratedStatement r c place) := by
  rw [decoratedStatement, map_bind]
  refine .seq (.discard (decorators_composed hr c)) fun _ => ?_
  rw [map_bind]
  refine .look (fun t => ?_) fun t => ?_
  · simp only [apply_ite (Prod.snd <$> ·), map_bind, map_pure]
    rfl
  · split
    · rw [map_bind]
      refine .seq (exportDeclaration_composed hr c true) fun _ => ?_
      exact .pure _
    · split
      · rw [map_bind]
        refine .seq (listOnly_composed place (.discard (classFrom_composed hr c))) fun _ => ?_
        exact .pure _
      · exact .unexpected 1

theorem statementRule_composed (place : Place) :
    Composed 1 0 (Prod.snd <$> statementRule r c place) := by
  rw [statementRule, map_bind]
  refine .look (fun t => ?_) fun t => ?_
  · -- Where the statement starts is forgotten in every branch.
    dsimp only [Token.bare]
    split <;> simp only [map_bind, map_pure, apply_ite (Prod.snd <$> ·)]
  · split
    · rw [map_bind]
      refine .seq (block_composed hr c) fun _ => ?_
      exact .pure _
    · rw [map_bind]
      refine .seq .advance fun _ => ?_
      exact .pure _
    · have kind := decoratedStatement_composed hr c place
      rw [map_eq_pure_bind] at kind
      rw [map_bind]
      simpa only [map_pure] using kind
    · rw [map_bind]
      refine .second (fun _ => rfl) fun second => ?_
      split
      · rw [map_bind]
        refine .seq (expressionStatement_composed hr c) fun _ => ?_
        exact .pure _
      · rw [map_bind]
        refine .seq (importDeclaration_composed c) fun _ => ?_
        exact .pure _
    · rw [map_bind]
      refine .seq (exportDeclaration_composed hr c false) fun _ => ?_
      exact .pure _
    · rw [map_bind]
      refine .seq (wordStatement_composed hr c place _) fun _ => ?_
      exact .pure _
    · rw [map_bind]
      refine .seq (expressionStatement_composed hr c) fun _ => ?_
      exact .pure _

end Rules

/-- The rules of the grammar are put together from steps, however deep they are followed. -/
theorem grounded_rules (n : Nat) : Grounded (rules n) := by
  induction n with
  | zero =>
      constructor <;> intros
      case statement => exact .fail 1 _
      all_goals exact .fail 1 _
  | succ n ih =>
      constructor <;> intros
      · exact assignmentRule_composed ih _
      · exact operandsRule_composed ih _ _
      · exact unaryRule_composed ih _
      · exact leftHandSideRule_composed ih _
      · exact primaryRule_composed ih _
      · exact statementRule_composed ih _ _
      · exact bindingRule_composed ih _
      · exact functionTailRule_composed ih _

end Script
end HotReload
