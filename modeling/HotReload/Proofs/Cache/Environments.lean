import HotReload.Proofs.Cache.Keys

/-!
# What the digest of the environment tells

The listed variables are hashed one after another: the name, whether the variable is set, the length
and the bytes of its value, and a closing byte.  A value may hold the bytes of any of these; but the
closing byte is among the bytes of no text, so that the end of a value is where it occurs first
(`variableBytes_append_inj`).  Hence what is hashed tells the values of the listed variables, and
nothing else (`environment_identified`).
-/

namespace HotReload

namespace Text

/-- The bytes of a text are those of its characters, one after the other. -/
theorem utf8_eq_flatMap (s : String) : utf8 s = s.toList.flatMap String.utf8EncodeChar := by
  rw [utf8, String.toUTF8_eq_toByteArray, ← String.utf8Encode_toList]
  simp [List.utf8Encode]

/-- No character has a byte as high as the closing one. -/
theorem closing_notMem_utf8EncodeChar (c : Char) : (0xFF : UInt8) ∉ String.utf8EncodeChar c := by
  have below {n : Nat} (h : n < 0xFF) : (0xFF : UInt8) ≠ UInt8.ofNat n := by
    intro equal
    have same := congrArg UInt8.toNat equal
    rw [UInt8.toNat_ofNat'] at same
    change 255 = n % 256 at same
    omega
  rw [String.utf8EncodeChar]
  split
  · rw [List.mem_singleton]
    exact below (by omega)
  · split
    · simp only [List.mem_cons, List.not_mem_nil, or_false, not_or]
      exact ⟨below (by omega), below (by omega)⟩
    · split
      · simp only [List.mem_cons, List.not_mem_nil, or_false, not_or]
        exact ⟨below (by omega), below (by omega), below (by omega)⟩
      · simp only [List.mem_cons, List.not_mem_nil, or_false, not_or]
        exact ⟨below (by omega), below (by omega), below (by omega), below (by omega)⟩

theorem closing_notMem_utf8 (s : String) : (0xFF : UInt8) ∉ utf8 s := by
  rw [utf8_eq_flatMap]
  intro h
  obtain ⟨c, _, hc⟩ := List.mem_flatMap.mp h
  exact closing_notMem_utf8EncodeChar c hc

/-- The closing byte says where a text ends. -/
theorem utf8_append_closing_inj {s t : String} {rest rest' : List UInt8}
    (h : utf8 s ++ 0xFF :: rest = utf8 t ++ 0xFF :: rest') : s = t ∧ rest = rest' := by
  have free (s : String) : ∀ b ∈ utf8 s, (b == (0xFF : UInt8)) = false := by
    intro b hb
    rw [beq_eq_false_iff_ne]
    rintro rfl
    exact closing_notMem_utf8 s hb
  have parts := congrArg (splitWhere (· == (0xFF : UInt8))) h
  rw [splitWhere_append rest (free s) rfl, splitWhere_append rest' (free t) rfl] at parts
  obtain rfl : s = t := utf8_injective (List.cons.inj parts).1
  exact ⟨rfl, (List.cons.inj (List.append_cancel_left h)).2⟩

end Text

namespace Cache

/-- The bytes of a variable tell its value, and where they end. -/
theorem variableBytes_append_inj {name : String} {value value' : Option String}
    {rest rest' : List UInt8}
    (h : variableBytes name value ++ rest = variableBytes name value' ++ rest') :
    value = value' ∧ rest = rest' := by
  simp only [variableBytes, List.append_assoc, List.append_cancel_left_eq] at h
  cases value with
  | none =>
      cases value' with
      | none => exact ⟨rfl, by simpa using h⟩
      | some v' => simp at h
  | some v =>
      cases value' with
      | none => simp at h
      | some v' =>
          simp only [List.cons_append, List.append_assoc, List.nil_append, List.cons.injEq,
            true_and] at h
          -- The lengths take eight bytes each, whatever they are.
          obtain ⟨_, values⟩ := List.append_inj h (by rw [length_littleEndian, length_littleEndian])
          obtain ⟨same, others⟩ := Text.utf8_append_closing_inj values
          exact ⟨congrArg some same, others⟩

variable {allowed : List String} {lookup lookup' : String → Option String}

/-- What is hashed for the listed variables tells their values, and nothing else. -/
theorem environmentBytes_eq_iff :
    environmentBytes allowed lookup = environmentBytes allowed lookup' ↔
      ∀ name ∈ allowed, lookup name = lookup' name := by
  induction allowed with
  | nil => simp [environmentBytes]
  | cons name allowed ih =>
      rw [environmentBytes, environmentBytes] at ih ⊢
      rw [List.flatMap_cons, List.flatMap_cons, List.forall_mem_cons, ← ih]
      constructor
      · exact variableBytes_append_inj
      · rintro ⟨first, others⟩
        rw [first, others]

/-- What is hashed of two environments is the same exactly if they agree on every listed variable;
and so are the digests, if they tell apart what is hashed. -/
theorem environment_identified (allowed : List String) (lookup lookup' : String → Option String) :
    (environmentBytes allowed lookup = environmentBytes allowed lookup' ↔
      ∀ name ∈ allowed, lookup name = lookup' name) ∧
    (Digest.Distinguishes [environmentBytes allowed lookup, environmentBytes allowed lookup'] →
      (environmentDigest allowed lookup = environmentDigest allowed lookup' ↔
        ∀ name ∈ allowed, lookup name = lookup' name)) := by
  refine ⟨environmentBytes_eq_iff, fun apart => ?_⟩
  rw [← environmentBytes_eq_iff]
  constructor
  · exact apart _ (by simp) _ (by simp)
  · exact congrArg Digest.of

/-- A variable that is set to nothing is told from one that is not set. -/
theorem environment_identified_empty :
    let empty : String → Option String := fun name => if name = "MODE" then some "" else none
    let unset : String → Option String := fun _ => none
    Digest.Distinguishes [environmentBytes ["MODE"] empty, environmentBytes ["MODE"] unset] ∧
      environmentDigest ["MODE"] empty ≠ environmentDigest ["MODE"] unset := by
  intro empty unset
  have apart : Digest.Distinguishes
      [environmentBytes ["MODE"] empty, environmentBytes ["MODE"] unset] := by
    unfold Digest.Distinguishes
    decide +kernel
  refine ⟨apart, fun same => ?_⟩
  have agree := ((environment_identified ["MODE"] empty unset).2 apart).mp same
  exact absurd (agree "MODE" List.mem_cons_self) (by decide)

end Cache
end HotReload
