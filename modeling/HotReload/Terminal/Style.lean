/-!
# Terminal styles

Texts wrapped in the escape sequences that switch a colour or an emphasis on and off again.
-/

namespace HotReload
namespace Terminal

/-- The character that opens an escape sequence. -/
def escape : Char := '\x1b'

/-- A sequence that sets a graphic rendition. -/
def rendition (code : Nat) : List Char := escape :: '[' :: Nat.toDigits 10 code ++ ['m']

/-- The foreground colours in use. -/
inductive Colour where
  | red
  | green
  | yellow
  | cyan
  | brightRed
  | brightGreen
  | brightYellow
  | brightBlue
  | brightMagenta
  deriving DecidableEq, Repr

/-- The code that sets a colour. -/
def Colour.code : Colour → Nat
  | .red => 31
  | .green => 32
  | .yellow => 33
  | .cyan => 36
  | .brightRed => 91
  | .brightGreen => 92
  | .brightYellow => 93
  | .brightBlue => 94
  | .brightMagenta => 95

/-- A coloured text, followed by the default colour. -/
def coloured (c : Colour) (text : List Char) : List Char :=
  rendition c.code ++ text ++ rendition 39

/-- A bold text, followed by a reset. -/
def bold (text : List Char) : List Char := rendition 1 ++ text ++ rendition 0

/-- A dimmed text, followed by a reset. -/
def dimmed (text : List Char) : List Char := rendition 2 ++ text ++ rendition 0

/-- Clears from the cursor to the end of its line. -/
def clearLine : List Char := [escape, '[', 'K']

/-- Clears from the cursor to the end of the screen. -/
def clearBelow : List Char := [escape, '[', 'J']

/-- Moves the cursor up. -/
def moveUp (n : Nat) : List Char := escape :: '[' :: Nat.toDigits 10 n ++ ['A']

end Terminal
end HotReload
