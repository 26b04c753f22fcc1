import HotReload.Json.Printer

/-!
# Canonical JSON

Two configurations that differ only in an irrelevant order should have one text.  The canonical form
sorts the members of every object by key and the items of every array that holds primitives only;
an array that holds an array or an object keeps its order.
-/

namespace HotReload
namespace Json

/-- Texts in the order of their code points, which is the order of their UTF-8 bytes. -/
def textLe : List Char → List Char → Bool
  | [], _ => true
  | _ :: _, [] => false
  | a :: as, b :: bs => if a = b then textLe as bs else a.toNat < b.toNat

namespace Value

/-- The text by which primitives are sorted: of a string its characters, of others the JSON text. -/
def sortText : Value → List Char
  | .string s => s.toList
  | v => v.chars

/-- The order of primitives: by their sort text, and where that agrees by their JSON text. -/
def primitiveLe (v w : Value) : Bool :=
  if v.sortText = w.sortText then textLe v.chars w.chars else textLe v.sortText w.sortText

/-- The order of members, by key. -/
def memberLe (m n : String × Value) : Bool := textLe m.1.toList n.1.toList

mutual
/-- The canonical form of a value. -/
def canonical : Value → Value
  | .object members => .object ((canonicalMembers members).mergeSort memberLe)
  | .array items =>
    if items.all isPrimitive then .array (items.mergeSort primitiveLe)
    else .array (canonicalItems items)
  | v => v

/-- The canonical forms of items, in their order. -/
def canonicalItems : List Value → List Value
  | [] => []
  | v :: vs => v.canonical :: canonicalItems vs

/-- The members with canonical values, in their order. -/
def canonicalMembers : List (String × Value) → List (String × Value)
  | [] => []
  | (k, v) :: ms => (k, v.canonical) :: canonicalMembers ms
end

end Value
end Json
end HotReload
