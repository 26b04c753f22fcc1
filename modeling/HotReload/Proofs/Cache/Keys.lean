import HotReload.Cache.Key
import HotReload.Proofs.Json.Strings

/-!
# Rendered keys say everything

A file name is read back from its percent-encoding up to the direction of its slashes, and a digest
from its digits; neither holds the bar that separates the fields.  So a rendered key splits at its
bars into the five fields, and determines the name with forward slashes and the four digests
(`Key.render_of_inj`, `Key.render_faithful`).
-/

namespace HotReload

namespace Hex

/-- No digit is a bar. -/
theorem digit_ne_bar {n : Nat} (h : n < 16) : digit n ≠ Cache.bar := by
  have all : ∀ n : Fin 16, digit n ≠ Cache.bar := by decide
  exact all ⟨n, h⟩

theorem halves_lt (b : UInt8) : b.toNat / 16 < 16 ∧ b.toNat % 16 < 16 := by
  have bound := b.toNat_lt
  omega

/-- The byte that two digits of either case write. -/
def byte? (high low : Char) : Option UInt8 := do
  let h ← Text.hexValue? high
  let l ← Text.hexValue? low
  return UInt8.ofNat (16 * h + l)

/-- The bytes that a text of digits writes, two for each. -/
def bytes? : List Char → Option (List UInt8)
  | [] => some []
  | [_] => none
  | high :: low :: rest => do return (← byte? high low) :: (← bytes? rest)

/-- Two digits that have the values of the halves of a byte write it. -/
theorem byte?_of_halves {b : UInt8} {high low : Char}
    (hh : Text.hexValue? high = some (b.toNat / 16))
    (hl : Text.hexValue? low = some (b.toNat % 16)) : byte? high low = some b := by
  rw [byte?, hh, hl]
  change some (UInt8.ofNat (16 * (b.toNat / 16) + b.toNat % 16)) = some b
  rw [Nat.div_add_mod, UInt8.ofNat_toNat]

/-- Bytes are read back from their digits. -/
theorem bytes?_ofBytes (bs : List UInt8) : bytes? (ofBytes bs) = some bs := by
  induction bs with
  | nil => rfl
  | cons b bs ih =>
      have first := byte?_of_halves (Json.hexValue_digit (halves_lt b).1)
        (Json.hexValue_digit (halves_lt b).2)
      rw [ofBytes] at ih ⊢
      rw [List.flatMap_cons, ofByte, List.cons_append, List.cons_append, List.nil_append, bytes?,
        first, ih]
      rfl

theorem ofBytes_injective {as bs : List UInt8} (h : ofBytes as = ofBytes bs) : as = bs := by
  have read := bytes?_ofBytes as
  rw [h, bytes?_ofBytes] at read
  exact (Option.some.inj read).symm

theorem bar_notMem_ofBytes (bs : List UInt8) : Cache.bar ∉ ofBytes bs := by
  intro h
  obtain ⟨b, _, hb⟩ := List.mem_flatMap.mp h
  rcases List.mem_cons.mp hb with equal | hb
  · exact digit_ne_bar (halves_lt b).1 equal.symm
  · exact digit_ne_bar (halves_lt b).2 (List.mem_singleton.mp hb).symm

end Hex

/-- A digest is read back from its digits. -/
theorem Digest.hex_injective {d e : Digest} (h : d.hex = e.hex) : d = e := by
  have bytes := Hex.ofBytes_injective h
  cases d
  cases e
  simp_all

/-- The digest of each of the inputs is the digest of no other one. -/
def Digest.Distinguishes (inputs : List (List UInt8)) : Prop :=
  ∀ a ∈ inputs, ∀ b ∈ inputs, Digest.of a = Digest.of b → a = b

theorem Digest.Distinguishes.subset {xs ys : List (List UInt8)} (h : Digest.Distinguishes ys)
    (among : ∀ a ∈ xs, a ∈ ys) : Digest.Distinguishes xs :=
  fun a ha b hb => h a (among a ha) b (among b hb)

/-- A text is told apart by its bytes. -/
theorem Text.utf8_injective {s t : String} (h : Text.utf8 s = Text.utf8 t) : s = t := by
  unfold Text.utf8 at h
  rw [String.toUTF8_eq_toByteArray, String.toUTF8_eq_toByteArray] at h
  exact String.toByteArray_inj.mp (ByteArray.ext (Array.toList_inj.mp h))

/-- A text is read back from its bytes. -/
theorem Text.ofUtf8?_utf8 (s : String) : Text.ofUtf8? (Text.utf8 s) = some s := by
  have bytes : (⟨(Text.utf8 s).toArray⟩ : ByteArray) = s.toByteArray := by
    rw [Text.utf8, String.toUTF8_eq_toByteArray, Array.toArray_toList]
  rw [Text.ofUtf8?, bytes, String.fromUTF8?, dif_pos s.isValidUTF8]
  rfl

/-- A text is the lower-case hexadecimal form of a digest: 64 digits, which write its bytes. -/
structure Digest.WrittenAs (d : Digest) (digits : List Char) : Prop where
  length : digits.length = 64
  lower : ∀ c ∈ digits, c ∈ "0123456789abcdef".toList
  bytes : Hex.bytes? digits = some d.bytes

theorem Digest.writtenAs_hex (d : Digest) : d.WrittenAs d.hex where
  length := d.length_hex
  lower := by
    intro c hc
    have digit {n : Nat} (hn : n < 16) : Hex.digit n ∈ "0123456789abcdef".toList := by
      have all : ∀ n : Fin 16, Hex.digit n ∈ "0123456789abcdef".toList := by decide
      exact all ⟨n, hn⟩
    obtain ⟨b, _, hb⟩ := List.mem_flatMap.mp hc
    rcases List.mem_cons.mp hb with rfl | hb
    · exact digit (Hex.halves_lt b).1
    · rw [List.mem_singleton.mp hb]
      exact digit (Hex.halves_lt b).2
  bytes := Hex.bytes?_ofBytes d.bytes

namespace Cache

/-- The bytes of a percent-encoded text.  A percent sign that no two digits follow stands for
itself, as every other character does. -/
def percentDecoded : List Char → List UInt8
  | '%' :: high :: low :: rest =>
    match Hex.byte? high low with
    | some b => b :: percentDecoded rest
    | none => Text.utf8 "%" ++ percentDecoded (high :: low :: rest)
  | c :: rest => Text.utf8 (String.singleton c) ++ percentDecoded rest
  | [] => []

theorem hexValue_upperDigit {n : Nat} (h : n < 16) :
    Text.hexValue? (Hex.upperDigit n) = some n := by
  have all : ∀ n : Fin 16, Text.hexValue? (Hex.upperDigit n) = some n.val := by decide
  exact all ⟨n, h⟩

/-- A byte that stands for itself is that of a character of ASCII, and neither a percent sign nor a
bar. -/
theorem utf8_of_not_isEscaped {b : UInt8} (h : isEscaped b = false) :
    Text.utf8 (String.singleton (Char.ofNat b.toNat)) = [b] ∧ Char.ofNat b.toNat ≠ '%' ∧
      Char.ofNat b.toNat ≠ bar := by
  simp only [isEscaped, Bool.or_eq_false_iff, decide_eq_false_iff_not] at h
  have small : b.toNat < 127 := by omega
  have all : ∀ n : Fin 127, Text.utf8 (String.singleton (Char.ofNat n)) = [UInt8.ofNat n] ∧
      (Char.ofNat n).toNat = n := by decide +kernel
  obtain ⟨bytes, same⟩ := all ⟨b.toNat, small⟩
  dsimp only at bytes same
  rw [UInt8.ofNat_toNat] at bytes
  refine ⟨bytes, fun percent => h.2 ?_, fun equal => h.1.2 ?_⟩
  · rw [← same, percent]
  · rw [← same, equal]
    rfl

/-- Bytes are read back from their percent-encoding. -/
theorem percentDecoded_escaped (bs : List UInt8) :
    percentDecoded (bs.flatMap escapeByte) = bs := by
  induction bs with
  | nil => rfl
  | cons b bs ih =>
      rw [List.flatMap_cons, escapeByte]
      cases h : isEscaped b with
      | true =>
          have digits := Hex.byte?_of_halves (hexValue_upperDigit (Hex.halves_lt b).1)
            (hexValue_upperDigit (Hex.halves_lt b).2)
          rw [if_pos rfl, List.cons_append, List.cons_append, List.singleton_append, percentDecoded,
            digits]
          exact congrArg _ ih
      | false =>
          obtain ⟨bytes, percent, _⟩ := utf8_of_not_isEscaped h
          rw [if_neg Bool.false_ne_true, List.singleton_append, percentDecoded, ih, bytes]
          · rfl
          · exact fun _ _ _ equal => absurd equal percent

/-- An encoded name holds no bar. -/
theorem bar_notMem_normalizeName (name : String) : bar ∉ (normalizeName name).toList := by
  rw [normalizeName, String.toList_ofList]
  intro h
  obtain ⟨b, _, hb⟩ := List.mem_flatMap.mp h
  rw [escapeByte] at hb
  cases escaped : isEscaped b with
  | true =>
      have digit {n : Nat} (hn : n < 16) : Hex.upperDigit n ≠ bar := by
        have all : ∀ n : Fin 16, Hex.upperDigit n ≠ bar := by decide
        exact all ⟨n, hn⟩
      rw [escaped, if_pos rfl] at hb
      simp only [List.mem_cons, List.not_mem_nil, or_false] at hb
      rcases hb with percent | high | low
      · exact absurd percent (by decide)
      · exact digit (Hex.halves_lt b).1 high.symm
      · exact digit (Hex.halves_lt b).2 low.symm
  | false =>
      obtain ⟨_, _, other⟩ := utf8_of_not_isEscaped escaped
      rw [escaped, if_neg Bool.false_ne_true] at hb
      exact other (List.mem_singleton.mp hb).symm

/-- A name is read back up to the direction of its slashes. -/
theorem ofUtf8?_normalizeName (name : String) :
    Text.ofUtf8? (percentDecoded (normalizeName name).toList) =
      some (String.ofList (slashed name.toList)) := by
  rw [normalizeName, String.toList_ofList, percentDecoded_escaped, Text.ofUtf8?_utf8]

theorem slashed_eq_of_normalizeName {a b : String} (h : normalizeName a = normalizeName b) :
    slashed a.toList = slashed b.toList := by
  have read := ofUtf8?_normalizeName a
  rw [h, ofUtf8?_normalizeName] at read
  exact (String.ofList_injective (Option.some.inj read)).symm

theorem normalizeName_eq_of_slashed {a b : String} (h : slashed a.toList = slashed b.toList) :
    normalizeName a = normalizeName b := by
  rw [normalizeName, normalizeName, h]

namespace Key

/-- No field of a key holds the bar. -/
theorem bar_notMem_fields (name : String)
    (content configuration environment dependencies : Digest) :
    ∀ part ∈ (Key.of name content configuration environment dependencies).fields, bar ∉ part := by
  intro part hp
  simp only [fields, Key.of, List.mem_cons, List.not_mem_nil, or_false] at hp
  rcases hp with field | field | field | field | field
  all_goals rw [field]
  · exact bar_notMem_normalizeName name
  all_goals exact Hex.bar_notMem_ofBytes _

variable {name name' : String}
variable {content configuration environment dependencies : Digest}
variable {content' configuration' environment' dependencies' : Digest}

/-- A rendered key splits at its bars into the fields. -/
theorem splitWhere_render :
    Text.splitWhere (· == bar)
        (Key.of name content configuration environment dependencies).render.toList =
      (Key.of name content configuration environment dependencies).fields := by
  rw [render, String.toList_ofList]
  exact Text.splitWhere_join (by simp [fields]) (bar_notMem_fields _ _ _ _ _)

/-- A rendered key determines the name with forward slashes and the digests. -/
theorem render_of_inj
    (h : (Key.of name content configuration environment dependencies).render =
      (Key.of name' content' configuration' environment' dependencies').render) :
    slashed name.toList = slashed name'.toList ∧ content = content' ∧
      configuration = configuration' ∧ environment = environment' ∧
      dependencies = dependencies' := by
  have joined := congrArg (fun key : String => Text.splitWhere (· == bar) key.toList) h
  rw [splitWhere_render, splitWhere_render] at joined
  simp only [fields, Key.of, List.cons.injEq, and_true] at joined
  obtain ⟨names, contents, configurations, environments, manifests⟩ := joined
  exact ⟨slashed_eq_of_normalizeName (String.toList_inj.mp names), Digest.hex_injective contents,
    Digest.hex_injective configurations, Digest.hex_injective environments,
    Digest.hex_injective manifests⟩

/-- A rendered key splits at its bars into five fields: the percent-encoded name with forward
slashes, and four digests in hexadecimal digits.  Two keys are rendered alike exactly if the names
with forward slashes and the digests are the same. -/
theorem render_faithful (name : String) (content configuration environment dependencies : Digest) :
    (∃ first second third fourth fifth,
      Text.splitWhere (· == bar)
          (Key.of name content configuration environment dependencies).render.toList =
        [first, second, third, fourth, fifth] ∧
      Text.ofUtf8? (percentDecoded first) = some (String.ofList (slashed name.toList)) ∧
      content.WrittenAs second ∧ configuration.WrittenAs third ∧ environment.WrittenAs fourth ∧
      dependencies.WrittenAs fifth) ∧
    ∀ (name' : String) (content' configuration' environment' dependencies' : Digest),
      (Key.of name content configuration environment dependencies).render =
          (Key.of name' content' configuration' environment' dependencies').render ↔
        slashed name.toList = slashed name'.toList ∧ content = content' ∧
          configuration = configuration' ∧ environment = environment' ∧
          dependencies = dependencies' := by
  refine ⟨⟨_, _, _, _, _, splitWhere_render, ofUtf8?_normalizeName name, content.writtenAs_hex,
    configuration.writtenAs_hex, environment.writtenAs_hex, dependencies.writtenAs_hex⟩, ?_⟩
  intro name' content' configuration' environment' dependencies'
  constructor
  · exact render_of_inj
  · rintro ⟨names, rfl, rfl, rfl, rfl⟩
    rw [Key.of, Key.of, normalizeName_eq_of_slashed names]

/-- The bar and the percent sign of a name do not confuse it with another one. -/
example : normalizeName "a|b%7C\\c" = "a%7Cb%257C/c" := by decide +kernel

end Key
end Cache
end HotReload
