/-!
# Text and its bytes

Source text is addressed by byte offsets of its UTF-8 form, as editors and servers exchange them,
while the library works on lists of characters.  This module holds the passage between the two:
the bytes of a text, the cut of a text at a byte offset, and the splitting of a list into pieces.

`takeBytes` and `dropBytes` cut at the first character boundary at or after the offset, so on an
offset that is a boundary they split the text exactly, and always
`takeBytes n cs ++ dropBytes n cs = cs`.  Joining parts with a separator that none of them holds is
undone by splitting at it (`splitWhere_join`).
-/

namespace HotReload
namespace Text

/-- The UTF-8 bytes of a text. -/
def utf8 (s : String) : List UInt8 := s.toUTF8.data.toList

/-- The text whose UTF-8 bytes these are, if there is one. -/
def ofUtf8? (bytes : List UInt8) : Option String := String.fromUTF8? ⟨bytes.toArray⟩

/-- The number of bytes that the characters take in UTF-8. -/
def byteLength : List Char → Nat
  | [] => 0
  | c :: cs => c.utf8Size + byteLength cs

/-- The characters that start before byte `n`. -/
def takeBytes : Nat → List Char → List Char
  | _, [] => []
  | n, c :: cs => if n = 0 then [] else c :: takeBytes (n - c.utf8Size) cs

/-- The characters that start at byte `n` or later. -/
def dropBytes : Nat → List Char → List Char
  | _, [] => []
  | n, c :: cs => if n = 0 then c :: cs else dropBytes (n - c.utf8Size) cs

/-- The characters that start at byte `lo` or later and before byte `hi`. -/
def slice (lo hi : Nat) (cs : List Char) : List Char :=
  takeBytes (hi - lo) (dropBytes lo cs)

@[simp] theorem takeBytes_append_dropBytes (n : Nat) (cs : List Char) :
    takeBytes n cs ++ dropBytes n cs = cs := by
  induction cs generalizing n with
  | nil => simp [takeBytes, dropBytes]
  | cons c cs ih => by_cases h : n = 0 <;> simp [takeBytes, dropBytes, h, ih]

/-- Bytes are counted part by part. -/
@[simp] theorem byteLength_append (a b : List Char) :
    byteLength (a ++ b) = byteLength a + byteLength b := by
  induction a with
  | nil => simp [byteLength]
  | cons c cs ih => simp [byteLength, ih, Nat.add_assoc]

/-- A cut at the end of the first part gives the first part. -/
theorem takeBytes_byteLength_append (a b : List Char) :
    takeBytes (byteLength a) (a ++ b) = a := by
  induction a with
  | nil => cases b <;> simp [byteLength, takeBytes]
  | cons c cs ih =>
    have positive : 0 < c.utf8Size := Char.utf8Size_pos c
    have h : c.utf8Size + byteLength cs ≠ 0 := by omega
    rw [byteLength, List.cons_append, takeBytes, if_neg h, Nat.add_sub_cancel_left, ih]

/-- After a cut at the end of the first part the second part is left. -/
theorem dropBytes_byteLength_append (a b : List Char) :
    dropBytes (byteLength a) (a ++ b) = b := by
  have h := takeBytes_append_dropBytes (byteLength a) (a ++ b)
  rw [takeBytes_byteLength_append] at h
  exact List.append_cancel_left h

/-- The slice between the ends of two parts is the part between them. -/
theorem slice_append (a b c : List Char) :
    slice (byteLength a) (byteLength a + byteLength b) (a ++ b ++ c) = b := by
  rw [slice, List.append_assoc, dropBytes_byteLength_append, Nat.add_sub_cancel_left,
    takeBytes_byteLength_append]

/-- Whether `needle` stands somewhere in the text. -/
def occursIn (needle : List Char) : List Char → Bool
  | [] => needle.isEmpty
  | c :: cs => needle.isPrefixOf (c :: cs) || occursIn needle cs

/-- Every occurrence of `old` replaced, from the left, by `new`; an empty `old` occurs nowhere. -/
def replaceAll (old new : List Char) (text : List Char) : List Char :=
  go text.length text
where
  /-- One step per character or occurrence; the text's length bounds the steps. -/
  go : Nat → List Char → List Char
    | 0, cs => cs
    | _, [] => []
    | n + 1, c :: cs =>
      if !old.isEmpty && old.isPrefixOf (c :: cs) then new ++ go n ((c :: cs).drop old.length)
      else c :: go n cs

/-- Consecutive pieces of `n` elements, the last one possibly shorter; none of an empty list. -/
def pieces {α : Type} (n : Nat) (xs : List α) : List (List α) :=
  go xs.length xs
where
  /-- The list's length bounds the number of pieces. -/
  go : Nat → List α → List (List α)
    | 0, _ => []
    | _, [] => []
    | k + 1, x :: xs => (x :: xs.take (n - 1)) :: go k (xs.drop (n - 1))

/-- The parts of a list between the elements that satisfy `p`; always at least one part. -/
def splitWhere {α : Type} (p : α → Bool) : List α → List (List α)
  | [] => [[]]
  | x :: xs =>
    if p x then [] :: splitWhere p xs
    else
      match splitWhere p xs with
      | [] => [[x]]
      | part :: rest => (x :: part) :: rest

/-- Splitting leaves at least one part. -/
theorem splitWhere_ne_nil {α : Type} (p : α → Bool) (xs : List α) : splitWhere p xs ≠ [] := by
  induction xs with
  | nil => simp [splitWhere]
  | cons x xs ih =>
    rw [splitWhere]
    split
    · simp
    · split <;> simp

/-- A text without separators is one part. -/
theorem splitWhere_of_all {α : Type} {p : α → Bool} {xs : List α} (h : ∀ x ∈ xs, p x = false) :
    splitWhere p xs = [xs] := by
  induction xs with
  | nil => rfl
  | cons x xs ih =>
    simp [splitWhere, h x (by simp), ih fun y hy => h y (by simp [hy])]

/-- A separator closes the part before it. -/
theorem splitWhere_append {α : Type} {p : α → Bool} {xs : List α} {s : α} (rest : List α)
    (h : ∀ x ∈ xs, p x = false) (hs : p s = true) :
    splitWhere p (xs ++ s :: rest) = xs :: splitWhere p rest := by
  induction xs with
  | nil => simp [splitWhere, hs]
  | cons x xs ih =>
    simp [splitWhere, h x (by simp), ih fun y hy => h y (by simp [hy])]

/-- The lines of a text, without the line feeds that end them; a last empty line is no line. -/
def lines (s : String) : List String :=
  let parts := splitWhere (· == '\n') s.toList
  let parts := if parts.getLast? == some [] then parts.dropLast else parts
  parts.map String.ofList

/-- The texts with `separator` between neighbours. -/
def join (separator : List Char) : List (List Char) → List Char
  | [] => []
  | [t] => t
  | t :: rest => t ++ separator ++ join separator rest

/-- Splitting undoes joining, if no part holds the separator. -/
theorem splitWhere_join {separator : Char} {parts : List (List Char)} (nonempty : parts ≠ [])
    (h : ∀ part ∈ parts, separator ∉ part) :
    splitWhere (· == separator) (join [separator] parts) = parts := by
  have free (part : List Char) (hp : separator ∉ part) :
      ∀ c ∈ part, (c == separator) = false := by
    intro c hc
    rw [beq_eq_false_iff_ne]
    rintro rfl
    exact hp hc
  induction parts with
  | nil => exact absurd rfl nonempty
  | cons part rest ih =>
    have first := free part (h part (by simp))
    cases rest with
    | nil => exact splitWhere_of_all first
    | cons next rest =>
      rw [join, List.append_assoc, List.singleton_append]
      · rw [splitWhere_append _ first (by simp),
          ih (by simp) fun p hp => h p (List.mem_cons_of_mem _ hp)]
      · simp

/-- Decimal digits of a natural number. -/
def decimal (n : Nat) : List Char := Nat.toDigits 10 n

/-- An ASCII letter. -/
def isLetter (c : Char) : Bool := ('a' ≤ c && c ≤ 'z') || ('A' ≤ c && c ≤ 'Z')

/-- An ASCII decimal digit. -/
def isDigit (c : Char) : Bool := '0' ≤ c && c ≤ '9'

/-- An ASCII letter or digit. -/
def isAlphanumeric (c : Char) : Bool := isLetter c || isDigit c

/-- An ASCII text in lower case; other characters are kept. -/
def lower (c : Char) : Char :=
  if 'A' ≤ c && c ≤ 'Z' then Char.ofNat (c.toNat + 32) else c

/-- The value of a decimal digit. -/
def digitValue (c : Char) : Nat := c.toNat - '0'.toNat

/-- The value of a hexadecimal digit of either case. -/
def hexValue? (c : Char) : Option Nat :=
  if isDigit c then some (c.toNat - '0'.toNat)
  else if 'a' ≤ c && c ≤ 'f' then some (c.toNat - 'a'.toNat + 10)
  else if 'A' ≤ c && c ≤ 'F' then some (c.toNat - 'A'.toNat + 10)
  else none

/-- The number that digits of the given base write, most significant first. -/
def ofDigits (base : Nat) (digits : List Nat) : Nat :=
  digits.foldl (fun n d => n * base + d) 0

end Text
end HotReload
