/-!
# JSON values

A value keeps the members of its objects in order.  `Value.WellFormed` says that no object holds a
key twice, which is what reading a document and the library's own encoders produce.

A number is an integer of at most 64 bits or a float; the two are told apart, `1` is not `1.0`.
-/

namespace HotReload
namespace Json

/-- A number as JSON text distinguishes them. -/
inductive Number where
  | integer (n : Int)
  | decimal (x : Float)
  deriving Inhabited

/-- A JSON value. -/
inductive Value where
  | null
  | boolean (b : Bool)
  | number (n : Number)
  | string (s : String)
  | array (items : List Value)
  | object (members : List (String × Value))
  deriving Inhabited

namespace Value

/-- Neither an array nor an object. -/
def isPrimitive : Value → Bool
  | .array _ => false
  | .object _ => false
  | _ => true

mutual
/-- No object of the value holds a key twice. -/
def WellFormed : Value → Prop
  | .array items => WellFormedItems items
  | .object members => (members.map Prod.fst).Nodup ∧ WellFormedMembers members
  | _ => True

/-- Every item is well formed. -/
def WellFormedItems : List Value → Prop
  | [] => True
  | v :: vs => v.WellFormed ∧ WellFormedItems vs

/-- Every member's value is well formed. -/
def WellFormedMembers : List (String × Value) → Prop
  | [] => True
  | (_, v) :: ms => v.WellFormed ∧ WellFormedMembers ms
end

/-- The value of a member of an object. -/
def get? (key : String) : Value → Option Value
  | .object members => (members.find? (·.1 == key)).map Prod.snd
  | _ => none

/-- Members with one more: a key that is already there keeps its place and takes the new value. -/
def put (key : String) (v : Value) : List (String × Value) → List (String × Value)
  | [] => [(key, v)]
  | (k, w) :: ms => if k = key then (k, v) :: ms else (k, w) :: put key v ms

end Value
end Json
end HotReload
