import HotReload.Text.Bytes

/-!
# Names resolved by calls

A framework may look components up by name when it renders.  The names so looked up are found in the
text of a module: a call, perhaps with underscores in front, whose first argument is a string
literal without escapes.  The call has to start at a word boundary.

The search goes from the left, and a call that has been found is not searched again.
-/

namespace HotReload
namespace Resolution

/-- A character of a word, for word boundaries. -/
def isWordChar (c : Char) : Bool := Text.isAlphanumeric c || c = '_'

/-- A blank inside a call. -/
def isBlank (c : Char) : Bool := c = ' ' || c = '\t' || c = '\r' || c = '\n'

/-- Whether a word starts or ends between two characters. -/
def isBoundary (before after : Option Char) : Bool :=
  before.any isWordChar != after.any isWordChar

/-- The content of a literal up to its closing mark, and what follows. -/
def literalTo (mark : Char) (cs : List Char) : Option (List Char × List Char) :=
  let inside (c : Char) : Bool := c ≠ mark && c ≠ '\\' && (mark ≠ '`' || c ≠ '$')
  match cs.dropWhile inside with
  | c :: rest => if c = mark then some (cs.takeWhile inside, rest) else none
  | [] => none

/-- A literal without escapes: its content, its closing mark, and what follows. -/
def literal? : List Char → Option (List Char × Char × List Char)
  | c :: cs =>
    if c = '"' || c = '\'' || c = '`' then
      (literalTo c cs).map fun (content, rest) => (content, c, rest)
    else none
  | [] => none

/-- What follows the name of a call: an opening parenthesis and a literal. -/
def argument? (cs : List Char) : Option (List Char × Char × List Char) :=
  match cs.dropWhile isBlank with
  | '(' :: rest => literal? (rest.dropWhile isBlank)
  | _ => none

/-- The argument of a call that stands after `n` characters. -/
def callAfter (call : List Char) (cs : List Char) (n : Nat) :
    Option (List Char × Char × List Char) :=
  let here := cs.drop n
  if call.isPrefixOf here then argument? (here.drop call.length) else none

/-- A call after at most the given number of underscores, of which as many as possible do not belong
to its name. -/
def afterUnderscores (call : List Char) (cs : List Char) : Nat →
    Option (List Char × Char × List Char)
  | 0 => callAfter call cs 0
  | n + 1 =>
    match callAfter call cs (n + 1) with
    | some r => some r
    | none => afterUnderscores call cs n

/-- A call at the front of a text: the literal, its closing mark, and what follows. -/
def call? (call : List Char) (before : Option Char) (cs : List Char) :
    Option (List Char × Char × List Char) :=
  if isBoundary before cs.head? then
    afterUnderscores call cs (cs.takeWhile (· = '_')).length
  else none

/-- The names in calls, from the left. -/
def search (call : List Char) : Nat → Option Char → List Char → List (List Char)
  | 0, _, _ => []
  | n + 1, before, cs =>
    match call? call before cs with
    | some (name, mark, rest) => name :: search call n (some mark) rest
    | none =>
      match cs with
      | [] => []
      | c :: cs => search call n (some c) cs

/-- The names that calls in a source text look up, each once, in order of their first call. -/
def names (source call : String) : List String :=
  let cs := source.toList
  ((search call.toList (cs.length + 1) none cs).map String.ofList).eraseDups

end Resolution
end HotReload
