import HotReload.Toml.Value

/-!
# Tables under construction

While a document is read, a table remembers how it came to be: by its own header, by a header or a
key that passes through it, or by a dotted key.  On that depends what may still be added to it.

* A key adds to the table of the header above it, through tables that dotted keys made.
* A header opens a new table, or one that so far was only passed through by headers.
* A header in double brackets adds an element to a list of tables.
-/

namespace HotReload
namespace Toml

/-- An entry of a table under construction. -/
inductive Item where
  | value (v : Value)
  /-- A table; `implicit` if it has no header of its own, `dotted` if a dotted key made it. -/
  | table (implicit dotted : Bool) (entries : List (String × Item))
  /-- The elements of a list of tables. -/
  | tables (elements : List (List (String × Item)))
  deriving Inhabited

/-- The entries of a table under construction. -/
abbrev Entries := List (String × Item)

namespace Entries

/-- Entries with the one of a key replaced. -/
def replace (key : String) (i : Item) : Entries → Entries
  | [] => []
  | (k, j) :: rest => if k = key then (k, i) :: rest else (k, j) :: replace key i rest

/-- Entries without a key. -/
def erase (key : String) (es : Entries) : Entries := es.filter (·.1 ≠ key)

/-- Entries with one more at the end; none if the key is taken. -/
def add? (key : String) (i : Item) (es : Entries) : Option Entries :=
  match es.lookup key with
  | some _ => none
  | none => some (es ++ [(key, i)])

/-- A change of the last element of a list of tables. -/
def changeLast? (f : Entries → Option Entries) (elements : List Entries) : Option (List Entries) :=
  match elements.getLast? with
  | some last => (f last).map fun last => elements.dropLast ++ [last]
  | none => none

/-- Entries with a value under a dotted key: the parts before the last one, and that. -/
def put? (key : String) (v : Value) : List String → Entries → Option Entries
  | [], es => add? key (.value v) es
  | p :: rest, es =>
    match es.lookup p with
    | none => (put? key v rest []).bind fun inner => add? p (.table true true inner) es
    | some (.table true dotted inner) =>
      if rest.isEmpty && !dotted then none
      else (put? key v rest inner).map fun inner => replace p (.table true dotted inner) es
    | some (.tables elements) =>
      if rest.isEmpty then none
      else (changeLast? (put? key v rest) elements).map fun elements =>
        replace p (.tables elements) es
    | some _ => none

/-- A change of the table to which a header's parts lead, tables made on the way. -/
def change? (f : Entries → Option Entries) : List String → Entries → Option Entries
  | [], es => f es
  | p :: rest, es =>
    match es.lookup p with
    | none => (change? f rest []).bind fun inner => add? p (.table true false inner) es
    | some (.table implicit dotted inner) =>
      (change? f rest inner).map fun inner => replace p (.table implicit dotted inner) es
    | some (.tables elements) =>
      (changeLast? (change? f rest) elements).map fun elements => replace p (.tables elements) es
    | some (.value _) => none

/-- Opens the table of a key, at the end. -/
def openHere? (key : String) (es : Entries) : Option Entries :=
  match es.lookup key with
  | none => add? key (.table false false []) es
  | some (.table true false inner) => add? key (.table false false inner) (erase key es)
  | some _ => none

/-- Adds an element to the list of tables of a key. -/
def extendHere? (key : String) (es : Entries) : Option Entries :=
  match es.lookup key with
  | none => add? key (.tables [[]]) es
  | some (.tables elements) => some (replace key (.tables (elements ++ [[]])) es)
  | some _ => none

mutual
/-- The value of an item. -/
def valueOf : Item → Value
  | .value v => v
  | .table _ _ entries => .table (valuesOf entries)
  | .tables elements => .array (tablesOf elements)

/-- The values of entries. -/
def valuesOf : List (String × Item) → List (String × Value)
  | [] => []
  | (key, i) :: rest => (key, valueOf i) :: valuesOf rest

/-- The values of the elements of a list of tables. -/
def tablesOf : List (List (String × Item)) → List Value
  | [] => []
  | entries :: rest => .table (valuesOf entries) :: tablesOf rest
end

end Entries
end Toml
end HotReload
