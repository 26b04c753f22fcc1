import Mathlib.Data.List.Basic
import HotReload.Module.Placeholder
import HotReload.Proofs.Json.Strings

/-!
# Placeholders in a text

A text is read placeholder by placeholder (`Placeholder.byPlaceholders`).  Neither an equals sign
nor a quotation mark can stand inside of a placeholder, so at such a character a text can be cut:
the placeholders on both sides add up (`Placeholder.occurrences_append`), and both sides are filled
on their own (`Placeholder.fillWith_append`).  A token is one placeholder, and is written in JSON
text as it stands.
-/

namespace HotReload

theorem Hex.mem_fixed {width n : Nat} {c : Char} (h : c ∈ fixed width n) :
    ∃ d < 16, c = digit d := by
  induction width generalizing n with
  | zero => simp [fixed] at h
  | succ width ih =>
      rcases List.mem_append.mp h with h | h
      · exact ih h
      · exact ⟨n % 16, Nat.mod_lt n (by decide), List.mem_singleton.mp h⟩

namespace Fingerprint

/-- The fingerprint of each of the texts is the fingerprint of no other one. -/
def Distinguishes (texts : List String) : Prop :=
  ∀ a ∈ texts, ∀ b ∈ texts, ofText a = ofText b → a = b

instance (texts : List String) : Decidable (Distinguishes texts) :=
  inferInstanceAs (Decidable (∀ a ∈ texts, ∀ b ∈ texts, ofText a = ofText b → a = b))

theorem Distinguishes.subset {ss ts : List String} (h : Distinguishes ts)
    (among : ∀ s ∈ ss, s ∈ ts) : Distinguishes ss :=
  fun a ha b hb => h a (among a ha) b (among b hb)

theorem mem_ofText {s : String} {c : Char} (h : c ∈ ofText s) : ∃ d < 16, c = Hex.digit d :=
  Hex.mem_fixed (List.mem_of_mem_take h)

end Fingerprint

namespace Placeholder

/-- A placeholder is recognised exactly where one stands. -/
theorem match?_eq_some_iff {cs fingerprint rest : List Char} :
    match? cs = some (fingerprint, rest) ↔
      cs = opening ++ fingerprint ++ closing ++ rest ∧ fingerprint.length = digits ∧
        fingerprint.all isDigit = true := by
  constructor
  · intro found
    unfold match? at found
    split at found
    · rename_i opened
      obtain ⟨after, rfl⟩ := List.isPrefixOf_iff_prefix.mp opened
      dsimp only at found
      rw [List.drop_left' rfl] at found
      split at found
      · rename_i shape
        simp only [Bool.and_eq_true, decide_eq_true_eq] at shape
        obtain ⟨⟨length, all⟩, closed⟩ := shape
        obtain ⟨last, ends⟩ := List.isPrefixOf_iff_prefix.mp closed
        rw [Option.some.injEq, Prod.mk.injEq, ← ends, List.drop_left' rfl] at found
        obtain ⟨rfl, rfl⟩ := found
        refine ⟨?_, length, all⟩
        rw [List.append_assoc, List.append_assoc, ends, List.take_append_drop]
      · cases found
    · cases found
  · rintro ⟨rfl, length, all⟩
    exact match?_append rest length all

theorem length_of_match {cs fingerprint rest : List Char}
    (h : match? cs = some (fingerprint, rest)) : cs.length = rest.length + 19 := by
  obtain ⟨rfl, length, _⟩ := match?_eq_some_iff.mp h
  have opens : opening.length = 9 := rfl
  have closes : closing.length = 2 := rfl
  rw [List.length_append, List.length_append, List.length_append, opens, closes, length, digits]
  omega

/-- What holds of a text if it holds of what follows its first character or placeholder holds of
every text. -/
theorem byPlaceholders {P : List Char → Prop} (nil : P [])
    (found : ∀ cs fingerprint rest, match? cs = some (fingerprint, rest) → P rest → P cs)
    (skip : ∀ c cs, match? (c :: cs) = none → P cs → P (c :: cs)) (cs : List Char) : P cs :=
  match cs with
  | [] => nil
  | c :: cs =>
    match here : match? (c :: cs) with
    | some (fingerprint, rest) =>
        have _shorter : cs.length + 1 = rest.length + 19 := length_of_match here
        found (c :: cs) fingerprint rest here (byPlaceholders nil found skip rest)
    | none => skip c cs here (byPlaceholders nil found skip cs)
termination_by cs.length

section Filling

variable {stampOf : List Char → List Char}

/-- The bound on the steps does not show. -/
theorem fillWith_go {n m : Nat} {cs : List Char} (hn : cs.length ≤ n) (hm : cs.length ≤ m) :
    fillWith.go stampOf n cs = fillWith.go stampOf m cs := by
  induction n generalizing m cs with
  | zero =>
      obtain rfl := List.length_eq_zero_iff.mp (Nat.le_zero.mp hn)
      cases m <;> rfl
  | succ n ih =>
      cases m with
      | zero =>
          obtain rfl := List.length_eq_zero_iff.mp (Nat.le_zero.mp hm)
          rfl
      | succ m =>
          cases cs with
          | nil => rfl
          | cons c cs =>
              rw [List.length_cons] at hn hm
              rw [fillWith.go, fillWith.go]
              cases found : match? (c :: cs) with
              | none => exact congrArg (c :: ·) (ih (by omega) (by omega))
              | some here =>
                  have shorter := length_of_match found
                  rw [List.length_cons] at shorter
                  exact congrArg (stampOf here.1 ++ ·) (ih (by omega) (by omega))

/-- A placeholder at the front is filled. -/
theorem fillWith_of_match {cs fingerprint rest : List Char}
    (h : match? cs = some (fingerprint, rest)) :
    fillWith stampOf cs = stampOf fingerprint ++ fillWith stampOf rest := by
  have shorter := length_of_match h
  cases cs with
  | nil => simp at shorter
  | cons c cs =>
      rw [List.length_cons] at shorter
      rw [fillWith, List.length_cons, fillWith.go, h]
      exact congrArg (stampOf fingerprint ++ ·) (fillWith_go (by omega) (by omega))

/-- Another character stays. -/
theorem fillWith_cons {c : Char} {cs : List Char} (h : match? (c :: cs) = none) :
    fillWith stampOf (c :: cs) = c :: fillWith stampOf cs := by
  rw [fillWith, List.length_cons, fillWith.go, h]
  rfl

end Filling

/-- The number of places of a text where a placeholder stands. -/
def occurrences : List Char → Nat
  | [] => 0
  | c :: cs => (if (match? (c :: cs)).isSome then 1 else 0) + occurrences cs

theorem match?_eq_none_of_short {cs : List Char} (h : cs.length < 19) : match? cs = none := by
  cases found : match? cs with
  | none => rfl
  | some here =>
      have longer := length_of_match found
      omega

/-- A text shorter than a placeholder holds none. -/
theorem occurrences_of_short {cs : List Char} (h : cs.length < 19) : occurrences cs = 0 := by
  induction cs with
  | nil => rfl
  | cons c cs ih =>
      rw [occurrences, match?_eq_none_of_short h, ih (by rw [List.length_cons] at h; omega)]
      rfl

/-- A text without placeholders stays as it is. -/
theorem fillWith_of_occurrences {stampOf : List Char → List Char} {cs : List Char}
    (h : occurrences cs = 0) : fillWith stampOf cs = cs := by
  induction cs with
  | nil => rfl
  | cons c cs ih =>
      rw [occurrences, Nat.add_eq_zero_iff] at h
      have absent : match? (c :: cs) = none := by
        cases found : match? (c :: cs) with
        | none => rfl
        | some here => simp [found] at h
      rw [fillWith_cons absent, ih h.2]

/-- A character that no placeholder holds. -/
def Foreign (c : Char) : Prop := c ∉ opening ∧ isDigit c = false ∧ c ∉ closing

instance (c : Char) : Decidable (Foreign c) := inferInstanceAs (Decidable (_ ∧ _))

theorem foreign_equals : Foreign '=' := by decide

theorem foreign_mark : Foreign '"' := by decide

section Cutting

variable {x : Char} (h : Foreign x) (cs rest : List Char)

include h

/-- A placeholder does not reach over a foreign character. -/
theorem match?_append_foreign :
    match? (cs ++ x :: rest) = (match? cs).map fun here => (here.1, here.2 ++ x :: rest) := by
  cases found : match? cs with
  | some here =>
      obtain ⟨rfl, length, all⟩ := match?_eq_some_iff.mp found
      rw [List.append_assoc]
      exact match?_append _ length all
  | none =>
      cases found' : match? (cs ++ x :: rest) with
      | none => rfl
      | some here =>
          obtain ⟨text, length, all⟩ := match?_eq_some_iff.mp found'
          have inside : x ∉ opening ++ here.1 ++ closing := by
            intro hx
            rw [List.mem_append, List.mem_append] at hx
            rcases hx with (opened | digit) | closed
            · exact h.1 opened
            · have is := List.all_eq_true.mp all x digit
              rw [h.2.1] at is
              exact Bool.noConfusion is
            · exact h.2.2 closed
          rcases List.append_eq_append_iff.mp text with ⟨between, token, ends⟩ | ⟨between, whole, _⟩
          · cases between with
            | nil =>
                rw [List.append_nil] at token
                have alone := match?_append [] length all
                rw [List.append_nil, token, found] at alone
                cases alone
            | cons y between =>
                refine absurd ?_ inside
                rw [token, List.head_eq_of_cons_eq ends]
                simp
          · rw [whole, match?_append between length all] at found
            cases found

theorem occurrences_append : occurrences (cs ++ x :: rest) = occurrences cs + occurrences rest := by
  induction cs with
  | nil =>
      have absent : match? (x :: rest) = none := match?_append_foreign h [] rest
      simp [occurrences, absent]
  | cons c cs ih =>
      have here := match?_append_foreign h (c :: cs) rest
      rw [List.cons_append] at here ⊢
      rw [occurrences, here, ih, occurrences, Option.isSome_map, Nat.add_assoc]

theorem fillWith_append (stampOf : List Char → List Char) :
    fillWith stampOf (cs ++ x :: rest) = fillWith stampOf cs ++ x :: fillWith stampOf rest := by
  induction cs using byPlaceholders with
  | nil =>
      exact fillWith_cons (match?_append_foreign h [] rest)
  | found cs fingerprint after found ih =>
      have here := match?_append_foreign h cs rest
      rw [found] at here
      rw [fillWith_of_match here, fillWith_of_match found, ih, List.append_assoc]
  | skip c cs absent ih =>
      have absent' : match? (c :: (cs ++ x :: rest)) = none := by
        rw [← List.cons_append, match?_append_foreign h, absent]
        rfl
      rw [List.cons_append, fillWith_cons absent', ih, fillWith_cons absent, List.cons_append]

end Cutting

section Tokens

variable (source : String)

theorem match?_token : match? (token source) = some (Fingerprint.ofText source, []) := by
  refine match?_eq_some_iff.mpr ⟨(List.append_nil _).symm, Fingerprint.length_ofBytes _, ?_⟩
  refine List.all_eq_true.mpr fun c hc => ?_
  obtain ⟨d, small, rfl⟩ := Fingerprint.mem_ofText hc
  have all : ∀ d : Fin 16, isDigit (Hex.digit d) = true := by decide
  exact all ⟨d, small⟩

/-- A token is filled with the stamp of its fingerprint. -/
theorem fillWith_token (stampOf : List Char → List Char) :
    fillWith stampOf (token source) = stampOf (Fingerprint.ofText source) := by
  rw [fillWith_of_match (match?_token source), fillWith_nil, List.append_nil]

/-- A token is one placeholder. -/
theorem occurrences_token : occurrences (token source) = 1 := by
  have length := length_token source
  have found := match?_token source
  cases shape : token source with
  | nil => simp [shape] at length
  | cons c cs =>
      rw [shape] at length found
      rw [List.length_cons] at length
      rw [occurrences, found, occurrences_of_short (by omega)]
      rfl

/-- A token stands in JSON text as it is. -/
theorem escape_token : (token source).flatMap Json.escape = token source := by
  have each : ∀ c ∈ token source, Json.escape c = [c] := by
    intro c hc
    rw [token, List.mem_append, List.mem_append] at hc
    rcases hc with (opened | digit) | closed
    · have all : opening.all (fun c => Json.escape c = [c]) = true := by decide
      exact of_decide_eq_true (List.all_eq_true.mp all c opened)
    · obtain ⟨d, small, rfl⟩ := Fingerprint.mem_ofText digit
      have all : ∀ d : Fin 16, Json.escape (Hex.digit d) = [Hex.digit d] := by decide
      exact all ⟨d, small⟩
    · have all : closing.all (fun c => Json.escape c = [c]) = true := by decide
      exact of_decide_eq_true (List.all_eq_true.mp all c closed)
  calc (token source).flatMap Json.escape
      = (token source).flatMap fun c => [c] := List.flatMap_congr each
    _ = token source := List.flatMap_singleton' _

end Tokens

end Placeholder
end HotReload
