import HotReload.Terminal.Style
import HotReload.Text.Bytes

/-!
# Log notes

One line of log output: the topic it belongs to, in brackets and in the topic's colour, and the
text.  A detail is shown only to those who ask for debug output.
-/

namespace HotReload
namespace Terminal

/-- A line for the log. -/
structure Note where
  topic : String
  text : String
  /-- Shown with debug output only. -/
  detail : Bool := false
  deriving DecidableEq, Repr

namespace Note

/-- The colour of a topic, whatever the case of its letters. -/
def colour (topic : String) : Colour :=
  match String.ofList (topic.toList.map Text.lower) with
  | "reload" => .brightBlue
  | "transform" => .brightGreen
  | "cache" => .brightMagenta
  | "error" => .brightRed
  | _ => .brightYellow

/-- The line as written, its line feed included. -/
def render (n : Note) : String :=
  let label := '[' :: n.topic.toList ++ [']']
  String.ofList
    (clearLine ++ bold (coloured (colour n.topic) label) ++ ' ' :: n.text.toList ++ ['\n'])

/-- Whether the note is shown. -/
def visible (verbose : Bool) (n : Note) : Bool := verbose || !n.detail

end Note

/-- The log output of a run of notes. -/
def renderNotes (verbose : Bool) (notes : List Note) : String :=
  String.join ((notes.filter (Note.visible verbose)).map Note.render)

end Terminal
end HotReload
