import HotReload.Json.Fields
import HotReload.Proofs.Json.Texts

/-!
# Documents are read back

The text of a value is read as the document with the same parts, in which strings and numbers stand
as they are written (`Value.parse?_text`), and this document means the value again
(`Value.value?_raw`).  The numbers in the value are integers of at most 64 bits here; strings may
hold any characters.

The reader counts its steps down.  Every step of the grammar passes a character, so the length of
the text bounds them (`Value.scanValue_chars`).
-/

namespace HotReload
namespace Json

/-- A number with more than one digit does not begin with zero. -/
theorem head_toDigits {n : Nat} (h : 10 ≤ n) : (Nat.toDigits 10 n).head? ≠ some '0' := by
  induction n using Nat.strongRecOn with
  | ind n ih =>
      rw [Nat.toDigits_of_base_le (by omega) h]
      have front : Nat.toDigits 10 (n / 10) ≠ [] := Nat.toDigits_ne_nil
      rw [List.head?_append_of_ne_nil _ front]
      by_cases more : 10 ≤ n / 10
      · exact ih (n / 10) (by omega) more
      · have digit : ∀ d : Fin 10, d.val ≠ 0 → Nat.digitChar d ≠ '0' := by decide
        rw [Nat.toDigits_of_lt_base (by omega), List.head?_cons]
        intro zero
        exact digit ⟨n / 10, by omega⟩ (by dsimp only; omega) (Option.some.inj zero)

/-- Digits are read back as the number. -/
theorem ofDigits_toDigits (n : Nat) : Text.ofDigits 10 (digitsOf (Nat.toDigits 10 n)) = n := by
  have read := Nat.ofDigitChars_ten_toDigits (n := n)
  unfold Nat.ofDigitChars at read
  rw [Text.ofDigits, digitsOf, List.foldl_map]
  calc
    _ = (Nat.toDigits 10 n).foldl (fun sofar c => 10 * sofar + (c.toNat - '0'.toNat)) 0 := by
        congr 1
        funext m c
        rw [Text.digitValue, Nat.mul_comm]
    _ = n := read

theorem scanDigits_toDigits (n : Nat) {r : List Char} (stop : ∀ c ∈ r.head?, c.isDigit = false) :
    scanDigits (Nat.toDigits 10 n ++ r) = (Nat.toDigits 10 n, r) := by
  obtain ⟨take, drop⟩ := Decimal.cut_append (p := Char.isDigit)
    (fun c hc => Decimal.isDigit_of_mem hc) stop
  exact Prod.ext take drop

/-- What may follow a value does not continue a number. -/
theorem Ends.stop {r : List Char} (h : Ends r) : ∀ c ∈ r.head?, c.isDigit = false := by
  intro c hc
  rcases h c hc with rfl | rfl | rfl <;> rfl

theorem Ends.scanFraction {r : List Char} (h : Ends r) : scanFraction r = some ([], r) := by
  cases r with
  | nil => rfl
  | cons c r => rcases h c rfl with rfl | rfl | rfl <;> rfl

theorem Ends.scanExponent {r : List Char} (h : Ends r) : scanExponent r = some ([], r) := by
  cases r with
  | nil => rfl
  | cons c r => rcases h c rfl with rfl | rfl | rfl <;> rfl

/-- The digits of a whole number have no needless zero in front. -/
theorem proper_toDigits (n : Nat) :
    ((Nat.toDigits 10 n).isEmpty ||
      (Nat.toDigits 10 n).length > 1 && (Nat.toDigits 10 n).head? == some '0') = false := by
  by_cases more : 10 ≤ n
  · simp [head_toDigits more, Nat.toDigits_ne_nil]
  · simp [Nat.toDigits_of_lt_base (Nat.lt_of_not_le more)]

/-- Digits are no sign. -/
theorem toDigits_append_ne_minus (n : Nat) (r s : List Char) :
    Nat.toDigits 10 n ++ r ≠ '-' :: s := by
  intro equal
  cases written : Nat.toDigits 10 n with
  | nil => exact Nat.toDigits_ne_nil written
  | cons c cs =>
      have digit : c.isDigit := Decimal.isDigit_of_mem (n := n) (by simp [written])
      rw [written] at equal
      obtain rfl := List.head_eq_of_cons_eq equal
      simp at digit

/-- The reader takes an integer as it is written. -/
theorem scanNumber_integer (i : Int) {r : List Char} (hr : Ends r) :
    scanNumber (integerChars i ++ r) = some (integerChars i, r) := by
  have digits := scanDigits_toDigits i.natAbs hr.stop
  have proper := proper_toDigits i.natAbs
  unfold integerChars scanNumber
  by_cases negative : i < 0
  · simp only [negative, if_true, List.cons_append, digits, proper, Bool.false_eq_true, if_false,
      hr.scanFraction, hr.scanExponent]
    simp
  · have unsigned := toDigits_append_ne_minus i.natAbs r
    simp only [negative, if_false, digits, proper, Bool.false_eq_true, hr.scanFraction,
      hr.scanExponent]
    simp

namespace Number

/-- An integer of at most 64 bits. -/
def Integral : Number → Prop
  | .integer i => -2 ^ 63 ≤ i ∧ i < 2 ^ 64
  | .decimal _ => False

theorem Integral.finite {n : Number} (h : n.Integral) : n.Finite := by
  cases n with
  | integer i => trivial
  | decimal x => exact h.elim

end Number

/-- The digits of an integer of at most 64 bits mean the integer. -/
theorem integer?_integerChars {i : Int} (low : -2 ^ 63 ≤ i) (high : i < 2 ^ 64) :
    integer? (integerChars i) = some i := by
  have all : (Nat.toDigits 10 i.natAbs).all Text.isDigit = true := by
    rw [List.all_eq_true]
    exact fun c hc => Decimal.isDigit_of_mem hc
  unfold integerChars integer?
  by_cases negative : i < 0
  · have range : i.natAbs ≠ 0 ∧ i.natAbs ≤ 9223372036854775808 := by omega
    simp only [negative, if_true, ofDigits_toDigits, all]
    rw [if_pos (by simp [range])]
    exact congrArg some (by omega)
  · have unsigned := toDigits_append_ne_minus i.natAbs []
    rw [List.append_nil] at unsigned
    have range : i.natAbs < 18446744073709551616 := by omega
    simp only [negative, if_false, ofDigits_toDigits, all]
    rw [if_pos (by simp [range])]
    exact congrArg some (by omega)

theorem number?_integral {n : Number} (h : n.Integral) : number? n.chars = some n := by
  cases n with
  | decimal x => exact h.elim
  | integer i => rw [number?, Number.chars, integer?_integerChars h.1 h.2]

/-- Among members of different names no field stands twice. -/
theorem onceEach_of_nodup {names : List String} {members : List (String × Raw)}
    (apart : (members.map Prod.fst).Nodup) : onceEach names members = true := by
  rw [onceEach, List.all_eq_true]
  intro name _
  rw [decide_eq_true_eq, ← List.countP_eq_length_filter]
  calc
    _ = (members.map Prod.fst).count name := by rw [List.count, List.countP_map]; rfl
    _ ≤ 1 := List.nodup_iff_count_le_one.mp apart name

namespace Value

mutual
/-- Every number of the value is an integer of at most 64 bits. -/
def Integral : Value → Prop
  | .number n => n.Integral
  | .array items => IntegralItems items
  | .object members => IntegralMembers members
  | _ => True

/-- Every number of the items is an integer of at most 64 bits. -/
def IntegralItems : List Value → Prop
  | [] => True
  | v :: vs => v.Integral ∧ IntegralItems vs

/-- Every number of the members is an integer of at most 64 bits. -/
def IntegralMembers : List (String × Value) → Prop
  | [] => True
  | (_, v) :: ms => v.Integral ∧ IntegralMembers ms
end

mutual
/-- The document of a value: its strings and numbers as they are written. -/
def raw : Value → Raw
  | .null => .null
  | .boolean b => .boolean b
  | .number n => .number n.chars
  | .string s => .string (s.toList.flatMap escape)
  | .array items => .array (rawItems items)
  | .object members => .object (rawMembers members)

/-- The documents of items. -/
def rawItems : List Value → List Raw
  | [] => []
  | v :: vs => v.raw :: rawItems vs

/-- The documents of members. -/
def rawMembers : List (String × Value) → List (List Char × Raw)
  | [] => []
  | (k, v) :: ms => (k.toList.flatMap escape, v.raw) :: rawMembers ms
end

theorem skipBlanks_of_not {c : Char} (h : isBlank c = false) (cs : List Char) :
    skipBlanks (c :: cs) = c :: cs := by
  rw [skipBlanks, List.dropWhile_cons, h]
  rfl

/-- A number begins with no other character than a digit or a sign. -/
theorem head_number {n : Number} (h : n.Integral) :
    ∃ c rest, n.chars = c :: rest ∧ ∀ d, d.isDigit = false → d ≠ '-' → c ≠ d := by
  obtain ⟨c, rest, text, first⟩ := Number.head h.finite
  refine ⟨c, rest, text, ?_⟩
  rintro d hd hd' rfl
  rcases first with digit | minus
  · simp [hd] at digit
  · exact hd' minus

/-- A value begins with a character that is no blank and closes no array. -/
theorem head_chars {v : Value} (h : v.Integral) :
    ∃ c rest, v.chars = c :: rest ∧ isBlank c = false ∧ c ≠ ']' := by
  cases v with
  | null => exact ⟨'n', _, rfl, rfl, by decide⟩
  | boolean b =>
      cases b with
      | true => exact ⟨'t', _, rfl, rfl, by decide⟩
      | false => exact ⟨'f', _, rfl, rfl, by decide⟩
  | number n =>
      obtain ⟨c, rest, text, apart⟩ := head_number h
      refine ⟨c, rest, text, ?_, apart _ rfl (by decide)⟩
      simp [isBlank, apart ' ' rfl (by decide), apart '\n' rfl (by decide),
        apart '\t' rfl (by decide), apart '\r' rfl (by decide)]
  | string s => exact ⟨'"', _, rfl, rfl, by decide⟩
  | array items => exact ⟨'[', _, rfl, rfl, by decide⟩
  | object members => exact ⟨'\x7b', _, rfl, rfl, by decide⟩

/-- A number is read where nothing else can stand. -/
theorem scanValue_number {n : Number} (h : n.Integral) {r : List Char} (hr : Ends r) (fuel : Nat) :
    scanValue (fuel + 1) (n.chars ++ r) = some (.number n.chars, r) := by
  cases n with
  | decimal x => exact h.elim
  | integer i =>
      obtain ⟨c, rest, text, apart⟩ := head_number h
      obtain ⟨d, rest', text', blank, _⟩ := head_chars (v := .number (.integer i)) h
      obtain rfl : c = d := List.head_eq_of_cons_eq (text.symm.trans text')
      have scanned := scanNumber_integer i hr
      rw [Number.chars] at text ⊢
      rw [text, List.cons_append] at scanned ⊢
      rw [scanValue, skipBlanks_of_not blank]
      split
      case h_7 =>
        rw [scanned]
        rfl
      all_goals
        rename_i equal
        exact absurd (List.head_eq_of_cons_eq equal) (apart _ rfl (by decide))

theorem quoteChars_append (cs r : List Char) :
    quoteChars cs ++ r = '"' :: (cs.flatMap escape ++ '"' :: r) := by
  simp [quoteChars]

/-- What follows an item is a comma and more items, or the closing bracket. -/
theorem scanItems_afterItem {n : Nat} {v : Value} {vs : List Value} {cs r : List Char}
    (first : scanValue n cs = some (v.raw, afterItem vs r))
    (later : vs ≠ [] → scanItems n (itemChars vs ++ ']' :: r) = some (rawItems vs, r)) :
    scanItems (n + 1) cs = some (rawItems (v :: vs), r) := by
  cases vs with
  | nil => simp [scanItems, first, afterItem, skipBlanks, isBlank, rawItems]
  | cons w ws => simp [scanItems, first, afterItem, skipBlanks, isBlank, later, rawItems]

/-- What follows a member is a comma and more members, or the closing brace. -/
theorem scanMembers_afterMember {n : Nat} {k : String} {v : Value} {ms : List (String × Value)}
    {cs r : List Char} (first : scanValue n cs = some (v.raw, afterMember ms r))
    (later : ms ≠ [] → scanMembers n (memberChars ms ++ '\x7d' :: r) = some (rawMembers ms, r)) :
    scanMembers (n + 1) (quoteChars k.toList ++ ':' :: cs) =
      some (rawMembers ((k, v) :: ms), r) := by
  rw [quoteChars_append]
  cases ms with
  | nil =>
      simp [scanMembers, skipBlanks, isBlank, scanString_quoted, first, afterMember, rawMembers]
  | cons m ms =>
      simp [scanMembers, skipBlanks, isBlank, scanString_quoted, first, afterMember, later,
        rawMembers]

/-- After an opening bracket and no closing one, items are read. -/
theorem scanValue_bracket {n : Nat} {c : Char} {cs : List Char} (blank : isBlank c = false)
    (opens : c ≠ ']') :
    scanValue (n + 1) ('[' :: c :: cs) =
      (scanItems n (c :: cs)).map fun read => (.array read.1, read.2) := by
  rw [scanValue, skipBlanks_of_not rfl]
  split
  case h_5 rest equal =>
    obtain rfl := List.tail_eq_of_cons_eq equal
    rw [skipBlanks_of_not blank]
    split
    · rename_i equal
      exact absurd (List.head_eq_of_cons_eq equal) opens
    · rfl
  case h_7 other _ => exact absurd rfl (other _)
  all_goals
    rename_i equal
    exact absurd (List.head_eq_of_cons_eq equal) (by decide)

/-- An array is read by its items. -/
theorem scanValue_array {n : Nat} {items : List Value} {r : List Char}
    (integral : IntegralItems items) (more : items ≠ [])
    (scanned : scanItems n (itemChars items ++ ']' :: r) = some (rawItems items, r)) :
    scanValue (n + 1) ((array items).chars ++ r) = some ((array items).raw, r) := by
  obtain ⟨v, vs, rfl⟩ := List.exists_cons_of_ne_nil more
  obtain ⟨c, rest, text, blank, opens⟩ := head_chars integral.1
  have whole : (array (v :: vs)).chars ++ r = '[' :: (itemChars (v :: vs) ++ ']' :: r) := by
    simp [chars]
  rw [itemChars_cons, text, List.cons_append] at scanned
  rw [whole, itemChars_cons, text, List.cons_append, scanValue_bracket blank opens, scanned]
  rfl

/-- An object is read by its members. -/
theorem scanValue_object {n : Nat} {members : List (String × Value)} {r : List Char}
    (more : members ≠ [])
    (scanned : scanMembers n (memberChars members ++ '\x7d' :: r) = some (rawMembers members, r)) :
    scanValue (n + 1) ((object members).chars ++ r) = some ((object members).raw, r) := by
  obtain ⟨⟨k, v⟩, ms, rfl⟩ := List.exists_cons_of_ne_nil more
  have whole : (object ((k, v) :: ms)).chars ++ r =
      '\x7b' :: (memberChars ((k, v) :: ms) ++ '\x7d' :: r) := by
    simp [chars]
  -- the first member begins with a mark, so it is no closing brace
  have inside (cs : List Char) : scanValue (n + 1) ('\x7b' :: '"' :: cs) =
      (scanMembers n ('"' :: cs)).map fun read => (.object read.1, read.2) := rfl
  rw [memberChars_cons, quoteChars_append] at scanned
  rw [whole, memberChars_cons, quoteChars_append, inside, scanned]
  rfl

/-- Items are as long as the first and what follows a comma. -/
theorem length_itemChars_cons (v : Value) (vs : List Value) :
    v.chars.length ≤ (itemChars (v :: vs)).length ∧
      (vs ≠ [] → (itemChars vs).length + 1 ≤ (itemChars (v :: vs)).length) := by
  cases vs with
  | nil => simp [itemChars]
  | cons w ws => simp [itemChars]

/-- Members are longer than the value of the first and what follows a comma. -/
theorem length_memberChars_cons (k : String) (v : Value) (ms : List (String × Value)) :
    v.chars.length + 1 ≤ (memberChars ((k, v) :: ms)).length ∧
      (ms ≠ [] → (memberChars ms).length + 1 ≤ (memberChars ((k, v) :: ms)).length) := by
  cases ms with
  | nil => simp [memberChars]
  | cons m ms =>
      simp [memberChars]
      omega

mutual
/-- The reader takes a value as it is written, if it may take a step for each character. -/
theorem scanValue_chars (v : Value) {n : Nat} {r : List Char} (integral : v.Integral) (hr : Ends r)
    (fuel : v.chars.length ≤ n) : scanValue n (v.chars ++ r) = some (v.raw, r) := by
  obtain ⟨n, rfl⟩ : ∃ m, n = m + 1 := by
    obtain ⟨c, rest, text, _⟩ := head_chars integral
    rw [text, List.length_cons] at fuel
    exact ⟨n - 1, by omega⟩
  -- A bracket or a brace takes a step, and so leaves one for each character inside.
  match v with
  | .null => rfl
  | .boolean true => rfl
  | .boolean false => rfl
  | .number m => exact scanValue_number integral hr n
  | .string s =>
      have inside (cs : List Char) : scanValue (n + 1) ('"' :: cs) =
          (scanString [] cs).map fun read => (.string read.1, read.2) := rfl
      rw [chars, quoteChars_append, inside, scanString_quoted]
      rfl
  | .array [] => rfl
  | .array (v :: vs) =>
      simp only [chars, List.length_cons, List.length_append, List.length_nil] at fuel
      exact scanValue_array integral (List.cons_ne_nil _ _)
        (scanItems_chars (v :: vs) (List.cons_ne_nil _ _) integral (by omega))
  | .object [] => rfl
  | .object (m :: ms) =>
      simp only [chars, List.length_cons, List.length_append, List.length_nil] at fuel
      exact scanValue_object (List.cons_ne_nil _ _)
        (scanMembers_chars (m :: ms) (List.cons_ne_nil _ _) integral (by omega))

/-- The reader takes items as they are written. -/
theorem scanItems_chars (items : List Value) {n : Nat} {r : List Char} (more : items ≠ [])
    (integral : IntegralItems items) (fuel : (itemChars items).length + 1 ≤ n) :
    scanItems n (itemChars items ++ ']' :: r) = some (rawItems items, r) := by
  obtain ⟨n, rfl⟩ : ∃ m, n = m + 1 := ⟨n - 1, by omega⟩
  match items with
  | [] => exact absurd rfl more
  | v :: vs =>
      obtain ⟨first, later⟩ := length_itemChars_cons v vs
      rw [itemChars_cons]
      refine scanItems_afterItem
        (scanValue_chars v integral.1 (ends_afterItem vs r) (by omega)) fun more => ?_
      have := later more
      exact scanItems_chars vs more integral.2 (by omega)

/-- The reader takes members as they are written. -/
theorem scanMembers_chars (members : List (String × Value)) {n : Nat} {r : List Char}
    (more : members ≠ []) (integral : IntegralMembers members)
    (fuel : (memberChars members).length + 1 ≤ n) :
    scanMembers n (memberChars members ++ '\x7d' :: r) = some (rawMembers members, r) := by
  obtain ⟨n, rfl⟩ : ∃ m, n = m + 1 := ⟨n - 1, by omega⟩
  match members with
  | [] => exact absurd rfl more
  | (k, v) :: ms =>
      obtain ⟨first, later⟩ := length_memberChars_cons k v ms
      rw [memberChars_cons]
      refine scanMembers_afterMember
        (scanValue_chars v integral.1 (ends_afterMember ms r) (by omega)) fun more => ?_
      have := later more
      exact scanMembers_chars ms more integral.2 (by omega)
end

/-- The text of a value is read as its document. -/
theorem parse?_text {v : Value} (integral : v.Integral) : Raw.parse? v.text = some v.raw := by
  have scanned := scanValue_chars v (n := 2 * v.chars.length + 2) integral ends_nil (by omega)
  rw [List.append_nil] at scanned
  rw [Raw.parse?, text, String.toList_ofList, scanned]
  rfl

/-- Escaped characters mean the text again. -/
theorem cook_escaped (s : String) : cook (s.toList.flatMap escape) = some s := by
  rw [cook, unescape_escaped, Option.map_some, String.ofList_toList]

/-- A new key goes to the end. -/
theorem put_of_notMem {key : String} {v : Value} {ms : List (String × Value)}
    (fresh : key ∉ ms.map Prod.fst) : put key v ms = ms ++ [(key, v)] := by
  induction ms with
  | nil => rfl
  | cons m ms ih =>
      simp only [List.map_cons, List.mem_cons, not_or] at fresh
      obtain ⟨other, later⟩ := fresh
      rw [put, if_neg (Ne.symm other), ih later, List.cons_append]

mutual
/-- The document of a value means the value. -/
theorem value?_raw (v : Value) (integral : v.Integral) (formed : v.WellFormed) :
    v.raw.value? = some v := by
  match v with
  | .null => rfl
  | .boolean b => rfl
  | .number n => rw [raw, Raw.value?, number?_integral integral, Option.map_some]
  | .string s => rw [raw, Raw.value?, cook_escaped, Option.map_some]
  | .array items => rw [raw, Raw.value?, items?_raw items integral formed, Option.map_some]
  | .object members =>
      rw [raw, Raw.value?, members?_raw [] members integral formed.2 (by simpa using formed.1),
        Option.map_some, List.nil_append]

/-- The documents of items mean the items. -/
theorem items?_raw (items : List Value) (integral : IntegralItems items)
    (formed : WellFormedItems items) : Raw.items? (rawItems items) = some items := by
  match items with
  | [] => rfl
  | v :: vs =>
      rw [rawItems, Raw.items?, value?_raw v integral.1 formed.1,
        items?_raw vs integral.2 formed.2]

/-- The documents of members of different names mean the members. -/
theorem members?_raw (read members : List (String × Value)) (integral : IntegralMembers members)
    (formed : WellFormedMembers members) (apart : ((read ++ members).map Prod.fst).Nodup) :
    Raw.members? read (rawMembers members) = some (read ++ members) := by
  match members with
  | [] => rw [rawMembers, Raw.members?, List.append_nil]
  | (k, v) :: ms =>
      have fresh : k ∉ read.map Prod.fst := by
        rw [List.map_append, List.nodup_append] at apart
        exact fun held => apart.2.2 k held k (by simp) rfl
      rw [rawMembers, Raw.members?, cook_escaped, value?_raw v integral.1 formed.1]
      dsimp only
      rw [put_of_notMem fresh, members?_raw (read ++ [(k, v)]) ms integral.2 formed.2
        (by simpa using apart), List.append_assoc, List.singleton_append]
end

/-- The names of members are read back. -/
theorem named?_raw (members : List (String × Value)) :
    named? (rawMembers members) = some (members.map fun (k, v) => (k, v.raw)) := by
  induction members with
  | nil => rfl
  | cons m ms ih =>
      obtain ⟨k, v⟩ := m
      rw [rawMembers, named?, cook_escaped, ih, List.map_cons]

/-- Members of different names are read as fields. -/
theorem fields?_raw (names : List String) {members : List (String × Value)}
    (apart : (members.map Prod.fst).Nodup) :
    fields? names (rawMembers members) = some (members.map fun (k, v) => (k, v.raw)) := by
  have once : onceEach names (members.map fun (k, v) => (k, v.raw)) = true :=
    onceEach_of_nodup (by simpa [Function.comp_def] using apart)
  rw [fields?, named?_raw]
  dsimp only
  rw [if_pos once]

theorem text?_raw (s : String) : (string s).raw.text? = some s := cook_escaped s

theorem texts?_raw (ss : List String) : (array (ss.map string)).raw.texts? = some ss := by
  rw [raw, Raw.texts?]
  induction ss with
  | nil => rfl
  | cons s ss ih => simp [rawItems, text?_raw, ih]

theorem word?_raw (t : UInt64) :
    (number (.integer t.toNat)).raw.word? = some t := by
  have small := t.toNat_lt
  rw [raw, Raw.word?, Number.chars, integer?_integerChars (by omega) (by omega)]
  simp

theorem integralItems_strings (ss : List String) : IntegralItems (ss.map string) := by
  induction ss with
  | nil => trivial
  | cons s ss ih => exact ⟨trivial, ih⟩

theorem wellFormedItems_strings (ss : List String) : WellFormedItems (ss.map string) := by
  induction ss with
  | nil => trivial
  | cons s ss ih => exact ⟨trivial, ih⟩

/-- Strings are nested in nothing but their array. -/
theorem nestingItems_strings (ss : List String) :
    Raw.nestingItems (rawItems (ss.map string)) = 0 := by
  induction ss with
  | nil => rfl
  | cons s ss ih => simp [rawItems, Raw.nestingItems, raw, Raw.nesting, ih]

end Value
end Json
end HotReload
