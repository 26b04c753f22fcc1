import HotReload.Json.Reader

/-!
# Fields of JSON objects

A record is read from an object by the names of its fields.  Members of other names do not count,
and a field that stands twice is an error, as is a name that cannot be read.
-/

namespace HotReload
namespace Json

/-- The members of an object with their names read. -/
def named? : List (List Char × Raw) → Option (List (String × Raw))
  | [] => some []
  | (key, v) :: rest =>
    match cook key, named? rest with
    | some name, some members => some ((name, v) :: members)
    | _, _ => none

/-- Whether none of the names stands twice among the members. -/
def onceEach (names : List String) (members : List (String × Raw)) : Bool :=
  names.all fun name => (members.filter (·.1 == name)).length ≤ 1

/-- The members of an object in which none of the given fields stands twice. -/
def fields? (names : List String) (members : List (List Char × Raw)) :
    Option (List (String × Raw)) :=
  match named? members with
  | some members => if onceEach names members then some members else none
  | none => none

namespace Raw

/-- The text of a string. -/
def text? : Raw → Option String
  | .string lexeme => cook lexeme
  | _ => none

/-- The texts of an array of strings. -/
def texts? : Raw → Option (List String)
  | .array items => items.mapM text?
  | _ => none

/-- A number of 64 bits without sign. -/
def word? : Raw → Option UInt64
  | .number lexeme =>
    match integer? lexeme with
    | some n => if 0 ≤ n then some (UInt64.ofNat n.toNat) else none
    | none => none
  | _ => none

end Raw
end Json
end HotReload
