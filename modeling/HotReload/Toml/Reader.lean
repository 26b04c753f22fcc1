import HotReload.Toml.Lexeme
import HotReload.Toml.Quoted
import HotReload.Toml.Table

/-!
# Reading TOML documents

A document is read line by line: keys with their values, headers of tables, comments.  A document
with a mistake has no value; which mistake it is does not matter to a reader of settings.
-/

namespace HotReload
namespace Toml

/-- What follows a comment, if one is next; the line end is kept. -/
def skipComment : List Char → List Char
  | '#' :: rest => rest.dropWhile isPlain
  | cs => cs

/-- The text after blanks, comments and line ends. -/
def skipFiller : Nat → List Char → List Char
  | 0, cs => cs
  | n + 1, cs =>
    let rest := cs.dropWhile isBlank
    match afterLineEnd? (skipComment rest) with
    | some rest => skipFiller n rest
    | none => rest

/-- The text after the end of a line, blanks and a comment before it; the end of the document ends a
line. -/
def afterLine? (cs : List Char) : Option (List Char) :=
  match skipComment (cs.dropWhile isBlank) with
  | [] => some []
  | cs => afterLineEnd? cs

mutual
/-- A value, and what follows; `depth` counts the brackets around it, `n` bounds the steps. -/
def value? : Nat → Nat → List Char → Option (Value × List Char)
  | 0, _, _ => none
  | n + 1, depth, cs =>
    match cs with
    | '[' :: rest =>
      if depth + 1 < depthLimit then
        (items? n (depth + 1) rest).map fun (items, rest) => (.array items, rest)
      else none
    | '\x7b' :: rest =>
      if depth + 1 < depthLimit then
        match rest.dropWhile isBlank with
        | '\x7d' :: rest => some (.table [], rest)
        | rest => (pairs? n (depth + 1) [] rest).map fun (entries, rest) =>
          (.table (Entries.valuesOf entries), rest)
      else none
    | '"' :: _ => (quoted? cs).map fun (s, rest) => (.string (String.ofList s), rest)
    | '\'' :: _ => (quoted? cs).map fun (s, rest) => (.string (String.ofList s), rest)
    | _ =>
      let (lexeme, rest) := bare cs
      (bareValue? lexeme).map fun v => (v, rest)

/-- The items of an array up to its closing bracket. -/
def items? : Nat → Nat → List Char → Option (List Value × List Char)
  | 0, _, _ => none
  | n + 1, depth, cs =>
    match skipFiller cs.length cs with
    | ']' :: rest => some ([], rest)
    | cs =>
      match value? n depth cs with
      | none => none
      | some (v, rest) =>
        match skipFiller rest.length rest with
        | ']' :: rest => some ([v], rest)
        | ',' :: rest => (items? n depth rest).map fun (vs, rest) => (v :: vs, rest)
        | _ => none

/-- The pairs of a table in braces up to its closing brace, after those read so far. -/
def pairs? : Nat → Nat → Entries → List Char → Option (Entries × List Char)
  | 0, _, _, _ => none
  | n + 1, depth, read, cs =>
    match key? cs with
    | some ((path, key), '=' :: rest) =>
      match value? n depth (rest.dropWhile isBlank) with
      | none => none
      | some (v, rest) =>
        match Entries.put? key v path read with
        | none => none
        | some read =>
          match rest.dropWhile isBlank with
          | '\x7d' :: rest => some (read, rest)
          | ',' :: rest => pairs? n depth read rest
          | _ => none
    | _ => none
end

/-- A document that has been read in part: its entries, and the table of the latest header. -/
structure Draft where
  entries : Entries := []
  path : List String := []

/-- The draft after a header. -/
def Draft.enter? (d : Draft) (step : String → Entries → Option Entries) (path : List String)
    (key : String) : Option Draft :=
  (Entries.change? (step key) path d.entries).map fun entries => ⟨entries, path ++ [key]⟩

/-- The draft after a key with its value. -/
def Draft.put? (d : Draft) (path : List String) (key : String) (v : Value) : Option Draft :=
  (Entries.change? (Entries.put? key v path) d.path d.entries).map fun entries =>
    { d with entries }

/-- The draft after the line at the front of a text, which is neither blank nor a comment, and what
follows on the line. -/
def line? (d : Draft) : List Char → Option (Draft × List Char)
  | '[' :: '[' :: rest =>
    match key? rest with
    | some ((path, key), ']' :: ']' :: rest) =>
      (d.enter? Entries.extendHere? path key).map fun d => (d, rest)
    | _ => none
  | '[' :: rest =>
    match key? rest with
    | some ((path, key), ']' :: rest) =>
      (d.enter? Entries.openHere? path key).map fun d => (d, rest)
    | _ => none
  | cs =>
    match key? cs with
    | some ((path, key), '=' :: rest) =>
      match value? (rest.length + 1) 0 (rest.dropWhile isBlank) with
      | some (v, rest) => (d.put? path key v).map fun d => (d, rest)
      | none => none
    | _ => none

/-- The draft after all lines. -/
def lines? : Nat → Draft → List Char → Option Draft
  | 0, _, _ => none
  | n + 1, d, cs =>
    match cs.dropWhile isBlank with
    | [] => some d
    | c :: rest =>
      if c = '#' || (afterLineEnd? (c :: rest)).isSome then
        (afterLine? (c :: rest)).bind (lines? n d)
      else
        match line? d (c :: rest) with
        | some (d, rest) => (afterLine? rest).bind (lines? n d)
        | none => none

/-- The text after a byte order mark. -/
def afterMark : List Char → List Char
  | '\uFEFF' :: rest => rest
  | cs => cs

/-- The entries of the document that a text writes. -/
def parse? (s : String) : Option (List (String × Value)) :=
  let cs := afterMark s.toList
  (lines? (cs.length + 1) {} cs).map fun d => Entries.valuesOf d.entries

end Toml
end HotReload
