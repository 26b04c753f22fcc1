import HotReload.Script.Statement

/-!
# Programs

The rules of the grammar tied together, and the reading of a whole script into its top-level
statements with their byte ranges.

Following a rule that is nested in itself reads at least one character for every four levels, and no
text reaches the limit, so the number of levels is never what stops the reading.
-/

namespace HotReload
namespace Script

open Script.Parser

/-- The rules, followed at most `n` levels deep. -/
def rules : Nat → Rules
  | 0 =>
    { steps := 0
      assignment := fun _ => fail .nestedTooDeeply
      operands := fun _ _ => fail .nestedTooDeeply
      unary := fun _ => fail .nestedTooDeeply
      leftHandSide := fun _ => fail .nestedTooDeeply
      primary := fun _ => fail .nestedTooDeeply
      statement := fun _ _ => fail .nestedTooDeeply
      binding := fun _ => fail .nestedTooDeeply
      functionTail := fun _ => fail .nestedTooDeeply }
  | n + 1 =>
    { steps := n
      assignment := fun c => assignmentRule (rules n) c
      operands := fun c level => operandsRule (rules n) c level
      unary := fun c => unaryRule (rules n) c
      leftHandSide := fun c => leftHandSideRule (rules n) c
      primary := fun c => primaryRule (rules n) c
      statement := fun c place => statementRule (rules n) c place
      binding := fun c => bindingRule (rules n) c
      functionTail := fun c => functionTailRule (rules n) c }

/-- A top-level statement: its kind, and the bytes from its start up to its end. -/
structure Statement where
  start : Nat
  stop : Nat
  kind : StatementKind
  deriving DecidableEq, Repr

/-- A script that has been read. -/
structure Program where
  statements : List Statement
  /-- The tokens, with the ends of statements between them. -/
  pieces : List Piece

/-- One more statement, unless the text is over; the latest one comes first. -/
def topStatement (r : Rules) (read : List Statement) :
    Parser (Progress (List Statement) (List Statement)) := do
  if (← peek).kind == .finish then return .done read.reverse
  else
    let (start, kind) ← r.statement Context.top .list
    return .more (⟨start, ← lastStop, kind⟩ :: read)

/-- The statements up to the end of the text. -/
def topStatements (r : Rules) : Parser (List Statement) := iterate (topStatement r) r.steps []

/-- Reads a script. -/
def Program.parse (source : String) : Except Fault Program :=
  match Reader.start source with
  | .error fault => .error fault
  | .ok reader =>
    match topStatements (rules (4 * limit + 16)) reader with
    | .error fault => .error fault
    | .ok (statements, reader) => .ok ⟨statements, reader.pieces.reverse⟩

end Script
end HotReload
