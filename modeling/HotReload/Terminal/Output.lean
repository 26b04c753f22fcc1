import HotReload.Terminal.Note
import HotReload.Terminal.Status

/-!
# Terminal output

Log notes and status messages in the order in which they are written to one terminal.
-/

namespace HotReload
namespace Terminal

/-- Something written to the terminal. -/
inductive Output where
  | note (n : Note)
  | status (m : Message)
  deriving DecidableEq, Repr

namespace Output

/-- The text of one output, and the status block after it. -/
def render (verbose : Bool) (time : String) (s : Status) : Output → String × Status
  | .note n => (if n.visible verbose then n.render else "", s)
  | .status m => s.display time m

/-- The text of a run of outputs, and the status block after it. -/
def renderAll (verbose : Bool) (time : String) (s : Status) : List Output → String × Status
  | [] => ("", s)
  | o :: rest =>
    let (text, s) := o.render verbose time s
    let (texts, s) := renderAll verbose time s rest
    (text ++ texts, s)

end Output
end Terminal
end HotReload
