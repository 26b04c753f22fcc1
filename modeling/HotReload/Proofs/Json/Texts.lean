import HotReload.Proofs.Decimal.Numerals
import HotReload.Proofs.Json.Strings

/-!
# Values are told apart by their JSON text

No text of a value begins another one, once it is followed by what can follow a value: a comma, a
closing bracket or brace, or the end (`Value.chars_append_inj`).  So two values with one text are
the same value (`Value.chars_injective`).  The numbers in them have to be finite, as the words for
numbers that are not finite say nothing about them.
-/

namespace HotReload
namespace Json

/-- What may follow a value. -/
def Ends (r : List Char) : Prop := ∀ c ∈ r.head?, c = ',' ∨ c = ']' ∨ c = '\x7d'

theorem ends_nil : Ends [] := by simp [Ends]

theorem ends_comma (r : List Char) : Ends (',' :: r) := by simp [Ends]

theorem ends_bracket (r : List Char) : Ends (']' :: r) := by simp [Ends]

theorem ends_brace (r : List Char) : Ends ('\x7d' :: r) := by simp [Ends]

/-- An integer, or a float that is finite. -/
def Number.Finite : Number → Prop
  | .integer _ => True
  | .decimal x => Decimal.IsFinite x

/-- A character of a number. -/
def isNumeric (c : Char) : Bool := c.isDigit || c = '.' || c = 'e' || c = '+' || c = '-'

/-- Every integer is told apart from others. -/
theorem integerChars_injective {m n : Int} (h : integerChars m = integerChars n) : m = n := by
  have sign (a b : Nat) (rest : List Char) : Nat.toDigits 10 a ≠ '-' :: rest := by
    intro equal
    have digit : '-'.isDigit = true := Decimal.isDigit_of_mem (n := a) (by simp [equal])
    simp at digit
  have digits {a b : Nat} (equal : Nat.toDigits 10 a = Nat.toDigits 10 b) : a = b := by
    have read := congrArg (Nat.ofDigitChars 10 · 0) equal
    simpa using read
  unfold integerChars at h
  split at h <;> split at h
  · have same := digits (List.tail_eq_of_cons_eq h)
    omega
  · exact absurd h.symm (sign _ 0 _)
  · exact absurd h (sign _ 0 _)
  · have same := digits h
    omega

/-- An integer has neither a point nor an exponent. -/
theorem integerChars_digits {n : Int} {c : Char} (hc : c ∈ integerChars n) :
    c.isDigit ∨ c = '-' := by
  unfold integerChars at hc
  split at hc
  · rcases List.mem_cons.mp hc with rfl | hc
    · exact .inr rfl
    · exact .inl (Decimal.isDigit_of_mem hc)
  · exact .inl (Decimal.isDigit_of_mem hc)

/-- A finite float in JSON text has a point or an exponent. -/
theorem decimal_pointed {x : Float} (h : Decimal.IsFinite x) :
    '.' ∈ Decimal.Layout.json.text x ∨ 'e' ∈ Decimal.Layout.json.text x := by
  have positive (d : Decimal) :
      '.' ∈ Decimal.Layout.json.positive d ∨ 'e' ∈ Decimal.Layout.json.positive d := by
    unfold Decimal.Layout.positive
    dsimp only
    split
    · refine .inl ?_
      unfold Decimal.placePoint
      dsimp only
      split
      · simp
      · split
        · simp [Decimal.Layout.json]
        · simp
    · refine .inr ?_
      simp [Decimal.exponentText]
  have unsigned (n : Nat) :
      '.' ∈ Decimal.Layout.json.unsigned n ∨ 'e' ∈ Decimal.Layout.json.unsigned n := by
    unfold Decimal.Layout.unsigned
    by_cases zero : n = 0
    · rw [if_pos zero]
      refine .inl ?_
      simp [Decimal.Layout.json]
    · rw [if_neg zero]
      exact positive _
  rw [Decimal.Layout.text_eq _ h]
  rcases unsigned (Decimal.index x) with point | exponent
  · exact .inl (List.mem_append_right _ point)
  · exact .inr (List.mem_append_right _ exponent)

namespace Number

variable {m n : Number}

/-- The characters of numbers. -/
theorem numeric (h : n.Finite) {c : Char} (hc : c ∈ n.chars) : isNumeric c = true := by
  cases n with
  | integer n =>
      rcases integerChars_digits hc with digit | rfl
      · simp [isNumeric, digit]
      · rfl
  | decimal x =>
      rw [Number.chars, Decimal.Layout.text_eq _ h] at hc
      obtain ⟨_, _, _, numeral, _⟩ := Decimal.Layout.json.numeral_unsigned (Decimal.index x)
      rcases List.mem_append.mp hc with hc | hc
      · split at hc
        · obtain rfl := List.mem_singleton.mp hc
          rfl
        · simp at hc
      · rcases numeral.chars hc with digit | rfl | rfl | rfl | rfl
        · simp [isNumeric, digit]
        all_goals rfl

/-- A number is written with a digit or a sign in front. -/
theorem head (h : n.Finite) : ∃ c rest, n.chars = c :: rest ∧ (c.isDigit ∨ c = '-') := by
  cases n with
  | integer n =>
      cases shape : integerChars n with
      | nil =>
          unfold integerChars at shape
          split at shape <;> simp at shape
      | cons c rest =>
          have first : c ∈ integerChars n := by simp [shape]
          exact ⟨c, rest, shape, integerChars_digits first⟩
  | decimal x =>
      obtain ⟨_, _, _, numeral, _⟩ := Decimal.Layout.json.numeral_unsigned (Decimal.index x)
      obtain ⟨c, rest, shape, digit⟩ := numeral.head
      rw [Number.chars, Decimal.Layout.text_eq _ h, shape]
      split
      · exact ⟨'-', _, rfl, .inr rfl⟩
      · exact ⟨c, rest, rfl, .inl digit⟩

/-- Finite numbers are told apart by their texts. -/
theorem chars_injective (hm : m.Finite) (hn : n.Finite) (h : m.chars = n.chars) : m = n := by
  have apart (i : Int) (x : Float) (finite : Decimal.IsFinite x) :
      integerChars i ≠ Decimal.Layout.json.text x := by
    intro equal
    rcases decimal_pointed finite with point | exponent
    · rw [← equal] at point
      rcases integerChars_digits point with digit | minus
      · simp at digit
      · simp at minus
    · rw [← equal] at exponent
      rcases integerChars_digits exponent with digit | minus
      · simp at digit
      · simp at minus
  cases m with
  | integer i =>
      cases n with
      | integer j => rw [integerChars_injective h]
      | decimal y => exact absurd h (apart i y hn)
  | decimal x =>
      cases n with
      | integer j => exact absurd h.symm (apart j x hm)
      | decimal y => rw [Decimal.Layout.json.text_injective hm hn h]

/-- A number is told apart from others and from what follows it. -/
theorem chars_append_inj {r s : List Char} (hm : m.Finite) (hn : n.Finite) (hr : Ends r)
    (hs : Ends s) (h : m.chars ++ r = n.chars ++ s) : m = n ∧ r = s := by
  have stop {t : List Char} (ht : Ends t) : ∀ c ∈ t.head?, isNumeric c = false := by
    intro c hc
    rcases ht c hc with rfl | rfl | rfl <;> rfl
  obtain ⟨takem, dropm⟩ := Decimal.cut_append (fun c hc => numeric hm hc) (stop hr)
  obtain ⟨taken, dropn⟩ := Decimal.cut_append (fun c hc => numeric hn hc) (stop hs)
  rw [h] at takem dropm
  exact ⟨chars_injective hm hn (takem.symm.trans taken), dropm.symm.trans dropn⟩

end Number

namespace Value

mutual
/-- Every float of the value is finite. -/
def Finite : Value → Prop
  | .number n => n.Finite
  | .array items => FiniteItems items
  | .object members => FiniteMembers members
  | _ => True

/-- Every item is finite. -/
def FiniteItems : List Value → Prop
  | [] => True
  | v :: vs => v.Finite ∧ FiniteItems vs

/-- Every member's value is finite. -/
def FiniteMembers : List (String × Value) → Prop
  | [] => True
  | (_, v) :: ms => v.Finite ∧ FiniteMembers ms
end

/-- The kinds of values. -/
inductive Shape where
  | null | boolean | number | string | array | object
  deriving DecidableEq

/-- The kind of a value. -/
def shape : Value → Shape
  | .null => .null
  | .boolean _ => .boolean
  | .number _ => .number
  | .string _ => .string
  | .array _ => .array
  | .object _ => .object

/-- The kind of value that a character begins. -/
def shapeOf (c : Char) : Shape :=
  if c = 'n' then .null
  else if c = 't' || c = 'f' then .boolean
  else if c = '"' then .string
  else if c = '[' then .array
  else if c = '\x7b' then .object
  else .number

/-- The first character of a value gives its kind away, and ends no other value. -/
theorem chars_head {v : Value} (h : v.Finite) :
    ∃ c rest, v.chars = c :: rest ∧ shapeOf c = v.shape ∧ c ≠ ']' := by
  cases v with
  | null => exact ⟨'n', _, rfl, rfl, by decide⟩
  | boolean b =>
      cases b with
      | true => exact ⟨'t', _, rfl, rfl, by decide⟩
      | false => exact ⟨'f', _, rfl, rfl, by decide⟩
  | number n =>
      obtain ⟨c, rest, text, digit⟩ := Number.head h
      have other {d : Char} (hd : d.isDigit = false) (hd' : d ≠ '-') : c ≠ d := by
        rintro rfl
        rcases digit with digit | minus
        · simp [hd] at digit
        · exact hd' minus
      refine ⟨c, rest, text, ?_, other rfl (by decide)⟩
      simp [shapeOf, shape, other (d := 'n') rfl, other (d := 't') rfl, other (d := 'f') rfl,
        other (d := '"') rfl, other (d := '[') rfl, other (d := '\x7b') rfl]
  | string s => exact ⟨'"', _, rfl, rfl, by decide⟩
  | array items => exact ⟨'[', _, rfl, rfl, by decide⟩
  | object members => exact ⟨'\x7b', _, rfl, rfl, by decide⟩

/-- Values with one text are of one kind. -/
theorem shape_eq {v w : Value} {r s : List Char} (hv : v.Finite) (hw : w.Finite)
    (h : v.chars ++ r = w.chars ++ s) : v.shape = w.shape := by
  obtain ⟨c, restv, textv, shapev, _⟩ := chars_head hv
  obtain ⟨d, restw, textw, shapew, _⟩ := chars_head hw
  rw [textv, textw] at h
  rw [← shapev, ← shapew, List.head_eq_of_cons_eq h]

/-- What follows the first item up to the closing bracket. -/
def afterItem : List Value → List Char → List Char
  | [], r => ']' :: r
  | v :: vs, r => ',' :: (itemChars (v :: vs) ++ ']' :: r)

theorem itemChars_cons (v : Value) (vs : List Value) (r : List Char) :
    itemChars (v :: vs) ++ ']' :: r = v.chars ++ afterItem vs r := by
  cases vs with
  | nil => rw [itemChars, afterItem]
  | cons w vs =>
      rw [itemChars, afterItem, List.append_assoc, List.cons_append]
      simp

theorem ends_afterItem (vs : List Value) (r : List Char) : Ends (afterItem vs r) := by
  cases vs with
  | nil => exact ends_bracket r
  | cons v vs => exact ends_comma _

/-- What follows the first member up to the closing brace. -/
def afterMember : List (String × Value) → List Char → List Char
  | [], r => '\x7d' :: r
  | m :: ms, r => ',' :: (memberChars (m :: ms) ++ '\x7d' :: r)

theorem memberChars_cons (k : String) (v : Value) (ms : List (String × Value)) (r : List Char) :
    memberChars ((k, v) :: ms) ++ '\x7d' :: r =
      quoteChars k.toList ++ (':' :: (v.chars ++ afterMember ms r)) := by
  cases ms with
  | nil =>
      rw [memberChars, afterMember]
      simp
  | cons m ms =>
      rw [memberChars, afterMember]
      · simp
      · simp

theorem ends_afterMember (ms : List (String × Value)) (r : List Char) :
    Ends (afterMember ms r) := by
  cases ms with
  | nil => exact ends_brace r
  | cons m ms => exact ends_comma _

mutual
/-- A value is told apart from others and from what follows it. -/
theorem chars_append_inj (v w : Value) {r s : List Char} (hv : v.Finite) (hw : w.Finite)
    (hr : Ends r) (hs : Ends s) (h : v.chars ++ r = w.chars ++ s) : v = w ∧ r = s := by
  have same := shape_eq hv hw h
  match v, w, same with
  | .null, .null, _ => exact ⟨rfl, List.append_cancel_left h⟩
  | .boolean true, .boolean true, _ => exact ⟨rfl, List.append_cancel_left h⟩
  | .boolean false, .boolean false, _ => exact ⟨rfl, List.append_cancel_left h⟩
  | .boolean true, .boolean false, _ => exact absurd (List.head_eq_of_cons_eq h) (by decide)
  | .boolean false, .boolean true, _ => exact absurd (List.head_eq_of_cons_eq h) (by decide)
  | .number m, .number n, _ =>
      obtain ⟨rfl, rest⟩ := Number.chars_append_inj hv hw hr hs h
      exact ⟨rfl, rest⟩
  | .string a, .string b, _ =>
      obtain ⟨equal, rest⟩ := quoteChars_append_inj h
      rw [String.toList_inj.mp equal]
      exact ⟨rfl, rest⟩
  | .array items, .array others, _ =>
      have inside : itemChars items ++ ']' :: r = itemChars others ++ ']' :: s := by
        simpa [chars] using h
      obtain ⟨rfl, rest⟩ := items_append_inj items others hv hw inside
      exact ⟨rfl, rest⟩
  | .object members, .object others, _ =>
      have inside : memberChars members ++ '\x7d' :: r = memberChars others ++ '\x7d' :: s := by
        simpa [chars] using h
      obtain ⟨rfl, rest⟩ := members_append_inj members others hv hw inside
      exact ⟨rfl, rest⟩

/-- The items of an array are told apart from others. -/
theorem items_append_inj (vs ws : List Value) {r s : List Char} (hv : FiniteItems vs)
    (hw : FiniteItems ws) (h : itemChars vs ++ ']' :: r = itemChars ws ++ ']' :: s) :
    vs = ws ∧ r = s := by
  match vs, ws with
  | [], [] => exact ⟨rfl, List.tail_eq_of_cons_eq h⟩
  | [], w :: ws =>
      obtain ⟨c, rest, text, _, other⟩ := chars_head hw.1
      rw [itemChars_cons, text] at h
      exact absurd (List.head_eq_of_cons_eq h).symm other
  | v :: vs, [] =>
      obtain ⟨c, rest, text, _, other⟩ := chars_head hv.1
      rw [itemChars_cons, text] at h
      exact absurd (List.head_eq_of_cons_eq h) other
  | v :: vs, w :: ws =>
      rw [itemChars_cons, itemChars_cons] at h
      obtain ⟨rfl, rest⟩ := chars_append_inj v w hv.1 hw.1 (ends_afterItem _ _)
        (ends_afterItem _ _) h
      match vs, ws with
      | [], [] => exact ⟨rfl, List.tail_eq_of_cons_eq rest⟩
      | [], _ :: _ => exact absurd (List.head_eq_of_cons_eq rest) (by decide)
      | _ :: _, [] => exact absurd (List.head_eq_of_cons_eq rest) (by decide)
      | v' :: vs, w' :: ws =>
          obtain ⟨equal, after⟩ := items_append_inj (v' :: vs) (w' :: ws) hv.2 hw.2
            (List.tail_eq_of_cons_eq rest)
          rw [equal]
          exact ⟨rfl, after⟩

/-- The members of an object are told apart from others. -/
theorem members_append_inj (ms ns : List (String × Value)) {r s : List Char}
    (hm : FiniteMembers ms) (hn : FiniteMembers ns)
    (h : memberChars ms ++ '\x7d' :: r = memberChars ns ++ '\x7d' :: s) : ms = ns ∧ r = s := by
  match ms, ns with
  | [], [] => exact ⟨rfl, List.tail_eq_of_cons_eq h⟩
  | [], (k, v) :: ns =>
      rw [memberChars_cons] at h
      exact absurd (List.head_eq_of_cons_eq h) (by decide)
  | (k, v) :: ms, [] =>
      rw [memberChars_cons] at h
      exact absurd (List.head_eq_of_cons_eq h) (by decide)
  | (k, v) :: ms, (l, w) :: ns =>
      rw [memberChars_cons, memberChars_cons] at h
      obtain ⟨key, value⟩ := quoteChars_append_inj h
      obtain rfl := String.toList_inj.mp key
      obtain ⟨rfl, rest⟩ := chars_append_inj v w hm.1 hn.1 (ends_afterMember _ _)
        (ends_afterMember _ _) (List.tail_eq_of_cons_eq value)
      match ms, ns with
      | [], [] => exact ⟨rfl, List.tail_eq_of_cons_eq rest⟩
      | [], _ :: _ => exact absurd (List.head_eq_of_cons_eq rest) (by decide)
      | _ :: _, [] => exact absurd (List.head_eq_of_cons_eq rest) (by decide)
      | m' :: ms, n' :: ns =>
          obtain ⟨equal, after⟩ := members_append_inj (m' :: ms) (n' :: ns) hm.2 hn.2
            (List.tail_eq_of_cons_eq rest)
          rw [equal]
          exact ⟨rfl, after⟩
end

/-- Values with finite numbers are told apart by their texts. -/
theorem chars_injective {v w : Value} (hv : v.Finite) (hw : w.Finite) (h : v.chars = w.chars) :
    v = w :=
  (chars_append_inj v w hv hw ends_nil ends_nil (by rw [h])).1

end Value
end Json
end HotReload
