import HotReload.Digest.Fingerprint
import HotReload.Module.Specifier

/-!
# Placeholders

A rebindable import of a component carries a placeholder in its query, made of the fingerprint of
its source path.  Filling the placeholders of a text gives those of the changed sources a fresh
stamp and all others the stable one, so that a module that did not change keeps its identity.
-/

namespace HotReload
namespace Placeholder

/-- What opens a placeholder. -/
def opening : List Char := "__relive_".toList

/-- What closes a placeholder. -/
def closing : List Char := "__".toList

/-- The number of digits of a fingerprint. -/
def digits : Nat := 8

/-- The placeholder of a source path. -/
def token (source : String) : List Char := opening ++ Fingerprint.ofText source ++ closing

/-- All placeholders are of one length. -/
theorem length_token (source : String) : (token source).length = 19 := by
  rw [token, List.length_append, List.length_append, Fingerprint.ofText,
    Fingerprint.length_ofBytes]
  rfl

/-- A source path with its placeholder as a query parameter. -/
def url (source parameter : String) : String :=
  String.ofList (Specifier.withParameter source.toList parameter.toList (token source))

/-- The stamp of sources that did not change. -/
def stableStamp : List Char := ['0']

/-- A lower-case hexadecimal digit. -/
def isDigit (c : Char) : Bool := Text.isDigit c || ('a' ≤ c && c ≤ 'f')

/-- The fingerprint of a placeholder at the front of a text, and what follows the placeholder. -/
def match? (cs : List Char) : Option (List Char × List Char) :=
  if opening.isPrefixOf cs then
    let rest := cs.drop opening.length
    let fingerprint := rest.take digits
    let rest := rest.drop digits
    if fingerprint.length = digits && fingerprint.all isDigit && closing.isPrefixOf rest then
      some (fingerprint, rest.drop closing.length)
    else none
  else none

/-- A placeholder is recognised wherever it stands. -/
theorem match?_append {fingerprint : List Char} (rest : List Char)
    (length : fingerprint.length = digits) (all : fingerprint.all isDigit = true) :
    match? (opening ++ fingerprint ++ closing ++ rest) = some (fingerprint, rest) := by
  have h : (opening ++ (fingerprint ++ (closing ++ rest))).drop opening.length =
      fingerprint ++ (closing ++ rest) := List.drop_left' rfl
  simp only [match?, List.append_assoc, List.isPrefixOf_iff_prefix, List.prefix_append, if_true, h]
  simp [← length, all, List.isPrefixOf_iff_prefix]

/-- A text with every placeholder, from the left, replaced by the stamp of its fingerprint. -/
def fillWith (stampOf : List Char → List Char) (text : List Char) : List Char :=
  go text.length text
where
  /-- One step per character or placeholder; the text's length bounds the steps. -/
  go : Nat → List Char → List Char
    | 0, cs => cs
    | _, [] => []
    | n + 1, c :: cs =>
      match match? (c :: cs) with
      | some (fingerprint, rest) => stampOf fingerprint ++ go n rest
      | none => c :: go n cs

/-- The empty text has no placeholder. -/
@[simp] theorem fillWith_nil (stampOf : List Char → List Char) : fillWith stampOf [] = [] := rfl

/-- A text in which no placeholder starts stays as it is. -/
theorem fillWith_of_no_match {stampOf : List Char → List Char} {text : List Char}
    (h : ∀ rest, rest <:+ text → match? rest = none) : fillWith stampOf text = text := by
  have go (n : Nat) : ∀ cs : List Char, (∀ rest, rest <:+ cs → match? rest = none) →
      fillWith.go stampOf n cs = cs := by
    induction n with
    | zero => intro cs _; rfl
    | succ n ih =>
      intro cs h
      cases cs with
      | nil => rfl
      | cons c cs =>
        simp only [fillWith.go, h (c :: cs) (List.suffix_refl _)]
        rw [ih cs fun rest hrest => h rest (hrest.trans (List.suffix_cons c cs))]
  exact go text.length text h

/-- The stamp of a fingerprint: the fresh one if a changed source has it. -/
def stampFor (changed : List String) (stamp : String) (fingerprint : List Char) : List Char :=
  if (changed.map Fingerprint.ofText).contains fingerprint then stamp.toList else stableStamp

/-- A text with its placeholders filled. -/
def fill (code : String) (changed : List String) (stamp : String) : String :=
  String.ofList (fillWith (stampFor changed stamp) code.toList)

end Placeholder
end HotReload
