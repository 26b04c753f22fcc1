import HotReload.Proofs.Module.Placeholders
import HotReload.Settings.Validation

/-!
# Specifiers with a placeholder

What a specifier is can be told from its front: whether it has a scheme, by what stands before its
first colon; whether it is a path, by its first characters; its extension, by what stands before its
first question mark.  A query parameter at the end of a specifier whose name and value are plain
leaves all of this as it is (`Specifier.hasScheme_append`, `Specifier.isPath_append`,
`Specifier.splitQuery_withParameter`), except that `.` and `..` are paths only if nothing follows
them.

So a source with its placeholder is what the source is (`Placeholder.url_keeps_specifier`), unless
it is one of these two (`Placeholder.url_leaves_project`).
-/

namespace HotReload

namespace Settings

theorem checkParameter_eq_nil_iff {name : String} :
    checkParameter name = [] ↔ isParameter name := by
  rw [checkParameter]
  split
  next valid => simp [valid]
  next invalid => simp [invalid]

/-- The characters of a parameter that makes sense. -/
theorem isParameterChar_of_mem {name : String} (h : checkParameter name = []) {c : Char}
    (hc : c ∈ name.toList) : isParameterChar c := by
  have valid := checkParameter_eq_nil_iff.mp h
  rw [isParameter, Bool.and_eq_true, List.all_eq_true] at valid
  exact valid.2 c hc

end Settings

/-- A token could name a parameter. -/
theorem Placeholder.isParameterChar_of_mem_token {source : String} {c : Char}
    (h : c ∈ token source) : Settings.isParameterChar c := by
  rw [token, List.mem_append, List.mem_append] at h
  rcases h with (opened | digit) | closed
  · have all : opening.all Settings.isParameterChar = true := by decide
    exact List.all_eq_true.mp all c opened
  · obtain ⟨d, small, rfl⟩ := Fingerprint.mem_ofText digit
    have all : ∀ d : Fin 16, Settings.isParameterChar (Hex.digit d) = true := by decide
    exact all ⟨d, small⟩
  · have all : closing.all Settings.isParameterChar = true := by decide
    exact List.all_eq_true.mp all c closed

namespace Specifier

section Appended

variable {s rest : List Char}

theorem hasScheme_append (h : ':' ∉ rest) : hasScheme (s ++ rest) = hasScheme s := by
  by_cases colon : ':' ∈ s
  · obtain ⟨front, back, rfl, first⟩ := List.eq_append_cons_of_mem colon
    have stops (more : List Char) : (front ++ ':' :: more).takeWhile (· ≠ ':') = front := by
      rw [List.takeWhile_append_of_pos fun c hc => decide_eq_true (ne_of_mem_of_not_mem hc first)]
      simp
    rw [hasScheme, hasScheme, List.append_assoc, List.cons_append, stops, stops]
    simp
  · simp [hasScheme, colon, h]

theorem isPath_iff : isPath s ↔ (∃ t, s = '.' :: '/' :: t) ∨ (∃ t, s = '.' :: '.' :: '/' :: t) ∨
    (∃ t, s = '/' :: t) ∨ s = ['.'] ∨ s = ['.', '.'] := by
  unfold isPath
  split <;> simp_all

/-- What follows a path does not matter, unless the path is `.` or `..`. -/
theorem isPath_append {c : Char} (slash : c ≠ '/') (dot : c ≠ '.') :
    isPath (s ++ c :: rest) ↔ isPath s ∧ s ≠ ['.'] ∧ s ≠ ['.', '.'] := by
  rw [isPath_iff, isPath_iff]
  -- Three characters decide; the cases are the numbers of those that stand in front.
  rcases s with _ | ⟨a, _ | ⟨b, _ | ⟨d, s⟩⟩⟩ <;> grind

theorem kind_eq_internal_iff : kind s = .internal ↔ hasScheme s = false ∧ isPath s := by
  rw [kind]
  cases hasScheme s <;> cases isPath s <;> simp

theorem kind_append {c : Char} (slash : c ≠ '/') (dot : c ≠ '.') (colon : ':' ∉ c :: rest) :
    kind (s ++ c :: rest) = .internal ↔ kind s = .internal ∧ s ≠ ['.'] ∧ s ≠ ['.', '.'] := by
  rw [kind_eq_internal_iff, kind_eq_internal_iff, hasScheme_append colon, isPath_append slash dot,
    and_assoc]

end Appended

section Parameter

variable (s name value : List Char)

/-- The characters with a meaning in a URL are not in a parameter. -/
theorem notMem_parameter {name value : List Char} {c : Char}
    (named : ∀ d ∈ name, Settings.isParameterChar d)
    (given : ∀ d ∈ value, Settings.isParameterChar d) (equals : c ≠ '=')
    (other : Settings.isParameterChar c = false) : c ∉ name ++ '=' :: value := by
  intro h
  rcases List.mem_append.mp h with h | h
  · simp [named c h] at other
  · rcases List.mem_cons.mp h with h | h
    · exact equals h
    · simp [given c h] at other

/-- A parameter is put in behind a question mark, or an ampersand if there is a query. -/
theorem withParameter_eq : withParameter s name value =
    s ++ (if '?' ∈ s then '&' else '?') :: (name ++ '=' :: value) := by
  simp [withParameter]

theorem splitQuery_withParameter : splitQuery (withParameter s name value) =
    ((splitQuery s).1, if '?' ∈ s then (splitQuery s).2 ++ '&' :: (name ++ '=' :: value)
      else name ++ '=' :: value) := by
  rw [withParameter_eq]
  by_cases query : '?' ∈ s
  · rw [if_pos query, if_pos query]
    obtain ⟨path, more, rfl, first⟩ := List.eq_append_cons_of_mem query
    rw [List.append_assoc, List.cons_append, splitQuery_append _ first, splitQuery_append _ first]
  · rw [if_neg query, if_neg query, splitQuery_append _ query, splitQuery_of_notMem query]

theorem extension?_withParameter : extension? (withParameter s name value) = extension? s := by
  rw [extension?, splitQuery_withParameter, extension?]

end Parameter

end Specifier

namespace Placeholder

theorem toList_url (source parameter : String) : (url source parameter).toList =
    Specifier.withParameter source.toList parameter.toList (token source) := String.toList_ofList

/-- A source inside the project, with its placeholder as a query parameter, is inside the project
again, unless it is `.` or `..`.  Its path and extension are those of the source, and its query is
that of the source with the parameter as the last one. -/
theorem url_keeps_specifier {source parameter : String}
    (inside : Specifier.kind source.toList = .internal)
    (valid : Settings.checkParameter parameter = []) :
    let url := (url source parameter).toList
    (Specifier.kind url = .internal ↔ source ≠ "." ∧ source ≠ "..") ∧
    (Specifier.splitQuery url).1 = (Specifier.splitQuery source.toList).1 ∧
    Specifier.extension? url = Specifier.extension? source.toList ∧
    (Specifier.splitQuery url).2 =
      if '?' ∈ source.toList then (Specifier.splitQuery source.toList).2 ++
        '&' :: (parameter.toList ++ '=' :: token source)
      else parameter.toList ++ '=' :: token source := by
  intro url
  have whole : url = Specifier.withParameter source.toList parameter.toList (token source) :=
    toList_url source parameter
  have query := Specifier.splitQuery_withParameter source.toList parameter.toList (token source)
  rw [← whole] at query
  refine ⟨?_, by rw [query], by rw [whole, Specifier.extension?_withParameter], by rw [query]⟩
  have named (w : String) : source.toList ≠ w.toList ↔ source ≠ w := String.toList_inj.not
  have colon : ':' ∉ parameter.toList ++ '=' :: token source :=
    Specifier.notMem_parameter (fun _ hc => Settings.isParameterChar_of_mem valid hc)
      (fun _ hc => isParameterChar_of_mem_token hc) (by decide) (by decide)
  rw [whole, Specifier.withParameter_eq, ← named, ← named]
  split
  · rw [Specifier.kind_append (by decide) (by decide) (by simpa using colon)]
    exact and_iff_right inside
  · rw [Specifier.kind_append (by decide) (by decide) (by simpa using colon)]
    exact and_iff_right inside

/-- A path with a query, in which a colon, dots and another question mark stand. -/
theorem url_keeps_specifier_query :
    let source := "../é.d/Card.vue?raw&at=a:b.c?d"
    Specifier.kind source.toList = .internal ∧ Settings.checkParameter "h-m_r" = [] ∧
    let url := (url source "h-m_r").toList
    (Specifier.kind url = .internal ↔ source ≠ "." ∧ source ≠ "..") ∧
    (Specifier.splitQuery url).1 = (Specifier.splitQuery source.toList).1 ∧
    Specifier.extension? url = Specifier.extension? source.toList ∧
    (Specifier.splitQuery url).2 =
      if '?' ∈ source.toList then (Specifier.splitQuery source.toList).2 ++
        '&' :: ("h-m_r".toList ++ '=' :: token source)
      else "h-m_r".toList ++ '=' :: token source := by
  intro source
  have inside : Specifier.kind source.toList = .internal := by decide
  have valid : Settings.checkParameter "h-m_r" = [] := by decide
  exact ⟨inside, valid, url_keeps_specifier inside valid⟩

/-- The directory of a module and the one above it are inside the project.  With a placeholder they
are no paths any more, so that they count as packages. -/
theorem url_leaves_project :
    Settings.checkParameter "hmr" = [] ∧
    Specifier.kind ".".toList = .internal ∧
    url "." "hmr" = ".?hmr=__relive_0c4ae0bd__" ∧
    Specifier.kind (url "." "hmr").toList = .external ∧
    Specifier.kind "..".toList = .internal ∧
    url ".." "hmr" = "..?hmr=__relive_121e40c8__" ∧
    Specifier.kind (url ".." "hmr").toList = .external := by
  decide +kernel

end Placeholder
end HotReload
