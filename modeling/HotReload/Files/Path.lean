import HotReload.Text.Bytes

/-!
# Paths

A path is a text; `/` separates its components, and a leading `/` makes it absolute.  Empty
components, and components `.` other than a leading one, do not count.
-/

namespace HotReload
namespace Path

/-- A path that starts at the root. -/
def isAbsolute (p : String) : Bool := p.toList.head? == some '/'

/-- `p` taken relative to `base`; an absolute `p` stands for itself. -/
def join (base p : String) : String :=
  if isAbsolute p || base.isEmpty then p
  else if base.toList.getLast? == some '/' then base ++ p
  else base ++ "/" ++ p

/-- A reversed path without trailing separators and components `.`. -/
def trimReversed : List Char → List Char
  | '/' :: c :: rest => trimReversed (c :: rest)
  | '.' :: '/' :: rest =>
    match trimReversed ('/' :: rest) with
    | [] => ['/']
    | r => r
  | r => r
termination_by r => r.length

/-- A path without trailing separators and components `.`, its root or leading `.` kept. -/
def trim (p : List Char) : List Char := (trimReversed p.reverse).reverse

/-- The path without its last component; none of a root and of the empty path. -/
def parent? (p : String) : Option String :=
  let cs := trim p.toList
  if cs.isEmpty || cs == ['/'] then none
  else some (String.ofList (trim (cs.reverse.dropWhile (· ≠ '/')).reverse))

/-- The last component, if it is the name of an entry. -/
def name? (p : String) : Option String :=
  let cs := trim p.toList
  let last := String.ofList (cs.reverse.takeWhile (· ≠ '/')).reverse
  if last = "" || last = "." || last = ".." then none else some last

/-- The texts between the separators, empty ones included. -/
def steps (p : String) : List String := (Text.splitWhere (· == '/') p.toList).map String.ofList

/-- The absolute path with the given components. -/
def ofComponents (components : List String) : String :=
  if components.isEmpty then "/" else String.join (components.map ("/" ++ ·))

end Path
end HotReload
