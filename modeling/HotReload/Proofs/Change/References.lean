import Mathlib.Data.List.TakeWhile
import HotReload.Change.Url
import HotReload.Proofs.Decimal.Numerals
import HotReload.Proofs.Module.Specifiers

/-!
# URLs as references

A URL reference has a path, perhaps a query, and perhaps a fragment, which begins at the first
number sign and is not sent to a server.  The query stands between the first question mark in front
of the fragment and the fragment; it holds parameters with ampersands between them.

A placeholder and a time stamp are put at the end of a path.  That is the end of the query if there
is no fragment, and so the query gains just this parameter.  If there is a fragment, then it is the
fragment that grows, and a server is asked for what it was asked for before
(`Reference.gains_withParameter_iff`, `Reference.requested_withParameter`).  Hence the URLs that the
library makes gain their parameter just if the path holds no number sign
(`Change.urls_gain_parameter_iff`, `Change.urls_lose_parameter`).
-/

namespace HotReload

namespace Text

/-- What stands in front of the first occurrence of a character, and what follows it if there is
one. -/
def cutAt (c : Char) (s : List Char) : List Char × Option (List Char) :=
  (s.takeWhile (· ≠ c),
    match s.dropWhile (· ≠ c) with
    | [] => none
    | _ :: rest => some rest)

theorem cutAt_append {c : Char} {front : List Char} (rest : List Char) (h : c ∉ front) :
    cutAt c (front ++ c :: rest) = (front, some rest) := by
  have other : ∀ d ∈ front, decide (d ≠ c) = true := fun d hd =>
    decide_eq_true (ne_of_mem_of_not_mem hd h)
  rw [cutAt, List.takeWhile_append_of_pos other, List.dropWhile_append_of_pos other]
  simp

theorem cutAt_of_notMem {c : Char} {s : List Char} (h : c ∉ s) : cutAt c s = (s, none) := by
  have other : ∀ d ∈ s, decide (d ≠ c) = true := fun d hd =>
    decide_eq_true (ne_of_mem_of_not_mem hd h)
  rw [cutAt, List.takeWhile_eq_self_iff.mpr other, List.dropWhile_eq_nil_iff.mpr other]

/-- The parts on both sides of a separator add up. -/
theorem splitWhere_append_cons {α : Type} {p : α → Bool} {s : α} (hs : p s = true)
    (xs rest : List α) : splitWhere p (xs ++ s :: rest) = splitWhere p xs ++ splitWhere p rest := by
  induction xs with
  | nil => simp [splitWhere, hs]
  | cons x xs ih =>
      obtain ⟨part, parts, shape⟩ := List.exists_cons_of_ne_nil (splitWhere_ne_nil p xs)
      rw [List.cons_append, splitWhere, splitWhere, ih, shape]
      split
      · rfl
      · rfl

end Text

/-- A URL reference in its parts. -/
structure Reference where
  path : List Char
  query : Option (List Char)
  fragment : Option (List Char)
  deriving DecidableEq, Repr

namespace Reference

open Text

/-- The reference that a text is. -/
def of (s : List Char) : Reference :=
  let (front, fragment) := cutAt '#' s
  let (path, query) := cutAt '?' front
  ⟨path, query, fragment⟩

/-- The parameters of the query. -/
def parameters (r : Reference) : List (List Char) :=
  match r.query with
  | none => []
  | some query => (splitWhere (· == '&') query).filter (!·.isEmpty)

/-- What a server is asked for. -/
def requested (r : Reference) : Reference := { r with fragment := none }

/-- A reference has one parameter more than another one, at the end of its query, and nothing else
is different. -/
structure Gains (r : Reference) (parameter : List Char) (r' : Reference) : Prop where
  path : r'.path = r.path
  parameters : r'.parameters = r.parameters ++ [parameter]
  fragment : r'.fragment = r.fragment

theorem of_of_notMem {s : List Char} (h : '#' ∉ s) :
    of s = ⟨(cutAt '?' s).1, (cutAt '?' s).2, none⟩ := by
  rw [of, cutAt_of_notMem h]

theorem of_append {front : List Char} (rest : List Char) (h : '#' ∉ front) :
    of (front ++ '#' :: rest) = { of front with fragment := some rest } := by
  rw [of_of_notMem h, of, cutAt_append rest h]

/-- What is behind a number sign is not sent. -/
theorem requested_append {s : List Char} (h : '#' ∈ s) (rest : List Char) :
    (of (s ++ rest)).requested = (of s).requested := by
  obtain ⟨front, fragment, rfl, first⟩ := List.eq_append_cons_of_mem h
  rw [List.append_assoc, List.cons_append, of_append _ first, of_append _ first]
  rfl

theorem parameters_of_requested {r r' : Reference} (h : r.requested = r'.requested) :
    r.parameters = r'.parameters := by
  have query : r.requested.query = r'.requested.query := by rw [h]
  change r.query = r'.query at query
  rw [parameters, parameters, query]

section Parameter

variable {s name value : List Char}

/-- A parameter is added to the query if there is no fragment. -/
theorem gains_withParameter (named : ∀ d ∈ name, Settings.isParameterChar d)
    (given : ∀ d ∈ value, Settings.isParameterChar d) (h : '#' ∉ s) :
    (of s).Gains (name ++ '=' :: value) (of (Specifier.withParameter s name value)) := by
  have plain : '#' ∉ name ++ '=' :: value :=
    Specifier.notMem_parameter named given (by decide) (by decide)
  have single : '&' ∉ name ++ '=' :: value :=
    Specifier.notMem_parameter named given (by decide) (by decide)
  have alone : (splitWhere (· == '&') (name ++ '=' :: value)).filter (!·.isEmpty) =
      [name ++ '=' :: value] := by
    rw [splitWhere_of_all fun c hc => beq_false_of_ne (ne_of_mem_of_not_mem hc single)]
    simp
  rw [Specifier.withParameter_eq]
  by_cases query : '?' ∈ s
  · rw [if_pos query]
    obtain ⟨path, more, rfl, first⟩ := List.eq_append_cons_of_mem query
    have clear : '#' ∉ path ++ '?' :: (more ++ '&' :: (name ++ '=' :: value)) := by
      simp_all
    rw [of_of_notMem h, List.append_assoc, List.cons_append, of_of_notMem clear,
      cutAt_append _ first, cutAt_append _ first]
    refine ⟨rfl, ?_, rfl⟩
    have both := splitWhere_append_cons (p := (· == '&')) (s := '&') rfl more
      (name ++ '=' :: value)
    change (splitWhere _ _).filter _ = (splitWhere _ more).filter _ ++ _
    rw [both, List.filter_append, alone]
  · rw [if_neg query]
    have clear : '#' ∉ s ++ '?' :: (name ++ '=' :: value) := by
      simp_all
    rw [of_of_notMem h, of_of_notMem clear, cutAt_append _ query, cutAt_of_notMem query]
    exact ⟨rfl, alone, rfl⟩

theorem requested_withParameter (h : '#' ∈ s) :
    (of (Specifier.withParameter s name value)).requested = (of s).requested := by
  rw [Specifier.withParameter_eq]
  exact requested_append h _

/-- A parameter is added to the query just if there is no fragment. -/
theorem gains_withParameter_iff (named : ∀ d ∈ name, Settings.isParameterChar d)
    (given : ∀ d ∈ value, Settings.isParameterChar d) :
    (of s).Gains (name ++ '=' :: value) (of (Specifier.withParameter s name value)) ↔ '#' ∉ s := by
  refine ⟨fun gains sign => ?_, gains_withParameter named given⟩
  have same := gains.parameters
  rw [parameters_of_requested (requested_withParameter sign)] at same
  simp at same

end Parameter

end Reference

namespace Change

open Specifier (withParameter)

/-- A time stamp is a parameter with the name `t`. -/
theorem toList_stampedUrl (path : String) (timestamp : UInt64) :
    (stampedUrl path timestamp).toList =
      withParameter path.toList ['t'] (Text.decimal timestamp.toNat) := by
  rw [stampedUrl, String.toList_ofList, withParameter]
  simp

/-- Numbers, as tokens, could name a parameter. -/
theorem isParameterChar_of_mem_decimal {n : Nat} {c : Char} (h : c ∈ Text.decimal n) :
    Settings.isParameterChar c := by
  have digit : Text.isDigit c := Decimal.isDigit_of_mem h
  simp [Settings.isParameterChar, Text.isAlphanumeric, digit]

/-- A URL with a placeholder and one with a time stamp are what their paths are with one more
parameter at the end of the query if these hold no number sign, and only then.  Otherwise a server
is asked for the path and the query that it was asked for before. -/
theorem urls_gain_parameter_iff (source parameter : String) (timestamp : UInt64)
    (valid : Settings.checkParameter parameter = []) :
    let plain := Reference.of source.toList
    let marked := Reference.of (Placeholder.url source parameter).toList
    let stamped := Reference.of (stampedUrl source timestamp).toList
    (plain.Gains (parameter.toList ++ '=' :: Placeholder.token source) marked ↔
      '#' ∉ source.toList) ∧
    (plain.Gains ('t' :: '=' :: Text.decimal timestamp.toNat) stamped ↔ '#' ∉ source.toList) ∧
    ('#' ∈ source.toList →
      marked.requested = plain.requested ∧ stamped.requested = plain.requested) := by
  have named : ∀ d ∈ parameter.toList, Settings.isParameterChar d := fun d hd =>
    Settings.isParameterChar_of_mem valid hd
  have token : ∀ d ∈ Placeholder.token source, Settings.isParameterChar d := fun d hd =>
    Placeholder.isParameterChar_of_mem_token hd
  have t : ∀ d ∈ ['t'], Settings.isParameterChar d := List.forall_mem_singleton.mpr (by decide)
  have time : ∀ d ∈ Text.decimal timestamp.toNat, Settings.isParameterChar d := fun d hd =>
    isParameterChar_of_mem_decimal hd
  intro plain marked stamped
  have markedForm : marked = Reference.of (withParameter source.toList parameter.toList
      (Placeholder.token source)) := congrArg Reference.of (Placeholder.toList_url source parameter)
  have stampedForm : stamped = Reference.of (withParameter source.toList ['t']
      (Text.decimal timestamp.toNat)) := congrArg Reference.of (toList_stampedUrl source timestamp)
  rw [markedForm, stampedForm]
  exact ⟨Reference.gains_withParameter_iff named token, Reference.gains_withParameter_iff t time,
    fun sign => ⟨Reference.requested_withParameter sign, Reference.requested_withParameter sign⟩⟩

/-- A path with a query that is not empty and looks like a stamped one. -/
theorem urls_gain_parameter_iff_stamped :
    let source := "/src/Card.vue?vue&t=4"
    Settings.checkParameter "hmr" = [] ∧
    let plain := Reference.of source.toList
    let marked := Reference.of (Placeholder.url source "hmr").toList
    let stamped := Reference.of (stampedUrl source 42).toList
    (plain.Gains ("hmr".toList ++ '=' :: Placeholder.token source) marked ↔
      '#' ∉ source.toList) ∧
    (plain.Gains ('t' :: '=' :: Text.decimal (42 : UInt64).toNat) stamped ↔ '#' ∉ source.toList) ∧
    ('#' ∈ source.toList →
      marked.requested = plain.requested ∧ stamped.requested = plain.requested) := by
  intro source
  have valid : Settings.checkParameter "hmr" = [] := by decide
  exact ⟨valid, urls_gain_parameter_iff source "hmr" 42 valid⟩

/-- A path with a fragment, in which a question mark stands: the fragment gets the time stamp, and
behind an ampersand, although the path has no query.  A fragment without one gets the whole query.
-/
theorem urls_lose_parameter :
    (Specifier.kind "./a.js#x?y".toList = .internal ∧
      stampedUrl "./a.js#x?y" 7 = "./a.js#x?y&t=7" ∧
      let plain := Reference.of "./a.js#x?y".toList
      let stamped := Reference.of (stampedUrl "./a.js#x?y" 7).toList
      stamped.parameters = [] ∧ stamped.fragment = some "x?y&t=7".toList ∧
      ¬ plain.Gains "t=7".toList stamped) ∧
    (Specifier.kind "./a.js#top".toList = .internal ∧ Settings.checkParameter "hmr" = [] ∧
      Placeholder.url "./a.js#top" "hmr" = "./a.js#top?hmr=__relive_f5c3c5e4__" ∧
      let plain := Reference.of "./a.js#top".toList
      let marked := Reference.of (Placeholder.url "./a.js#top" "hmr").toList
      ¬ plain.Gains ("hmr".toList ++ '=' :: Placeholder.token "./a.js#top") marked) := by
  refine ⟨⟨by decide, by decide, by decide, by decide, fun gains => ?_⟩,
    ⟨by decide, by decide, by decide +kernel, fun gains => ?_⟩⟩
  · exact absurd gains.fragment (by decide)
  · have path : (Reference.of "./a.js#top".toList).fragment = some "top".toList := by decide
    have longer := gains.fragment
    rw [path] at longer
    exact absurd longer (by decide +kernel)

end Change
end HotReload
