import HotReload.Terminal.Style

/-!
# The status block

A single block of lines that shows the outcome of the latest event.  Each message erases the block
before it: the cursor moves up by that block's number of lines, and everything below is cleared.
-/

namespace HotReload
namespace Terminal

/-- What kind of outcome a status message reports. -/
inductive Mood where
  | success
  | failure
  | warning
  deriving DecidableEq, Repr

/-- The coloured symbol in front of a message. -/
def Mood.symbol : Mood → List Char
  | .success => coloured .green ['✓']
  | .failure => coloured .red ['✗']
  | .warning => coloured .yellow ['⚠']

/-- A message for the status block. -/
structure Message where
  mood : Mood
  text : String
  deriving DecidableEq, Repr

namespace Message

/-- A failure with a summary and, below it, the detail if there is any. -/
def failure (summary detail : String) : Message :=
  ⟨.failure, if detail.isEmpty then summary else summary ++ "\n" ++ detail⟩

/-- The number of lines of a message. -/
def lineCount (m : Message) : Nat := m.text.toList.count '\n' + 1

end Message

/-- The number of lines that the block shown last takes; none has been shown while it is zero. -/
structure Status where
  lines : Nat := 0
  deriving DecidableEq, Repr

namespace Status

/-- The greatest number of lines that one cursor movement can go up, plus one. -/
def movementLimit : Nat := Nat.pow 2 16

/-- The text that erases the block shown last. -/
def erase (s : Status) : List Char :=
  if s.lines = 0 then [] else moveUp (s.lines % movementLimit) ++ clearBelow

/-- The text that shows a message at the given time, and the block after it. -/
def display (s : Status) (time : String) (m : Message) : String × Status :=
  let stamp := dimmed ('[' :: time.toList ++ [']'])
  let text := s.erase ++ stamp ++ ' ' :: m.mood.symbol ++ ' ' :: m.text.toList ++ ['\n']
  (String.ofList text, ⟨m.lineCount⟩)

end Status
end Terminal
end HotReload
