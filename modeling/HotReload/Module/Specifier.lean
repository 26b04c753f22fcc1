import HotReload.Text.Bytes

/-!
# Module specifiers

The text by which an import names a module.  A specifier with a scheme, or one that is no path,
names something outside of the project; a path may carry a query after its first question mark.
-/

namespace HotReload
namespace Specifier

/-- Where a specifier points. -/
inductive Kind where
  /-- A package or a URL, resolved outside of the project. -/
  | external
  /-- A path inside the project. -/
  | internal
  deriving DecidableEq, Repr

/-- A character of a scheme. -/
def isSchemeChar (c : Char) : Bool := Text.isAlphanumeric c || c = '+' || c = '-' || c = '.'

/-- Whether a specifier has a scheme: at least two characters before its first colon, the first of
them a letter. -/
def hasScheme (s : List Char) : Bool :=
  let scheme := s.takeWhile (· ≠ ':')
  s.contains ':' && scheme.length > 1 && (scheme.head?.any Text.isLetter) &&
    scheme.all isSchemeChar

/-- Whether a specifier is written as a path. -/
def isPath : List Char → Bool
  | '.' :: '/' :: _ => true
  | '.' :: '.' :: '/' :: _ => true
  | '/' :: _ => true
  | ['.'] => true
  | ['.', '.'] => true
  | _ => false

/-- Where a specifier points. -/
def kind (s : List Char) : Kind := if hasScheme s || !isPath s then .external else .internal

/-- The path and the query of a specifier; the query is empty if there is no question mark. -/
def splitQuery (s : List Char) : List Char × List Char :=
  (s.takeWhile (· ≠ '?'), (s.dropWhile (· ≠ '?')).tail)

/-- The path and the query together are the specifier. -/
theorem splitQuery_append {path : List Char} (query : List Char) (h : '?' ∉ path) :
    splitQuery (path ++ '?' :: query) = (path, query) := by
  have no : ∀ c ∈ path, decide (c ≠ '?') = true := by
    intro c hc
    simp only [decide_eq_true_eq]
    rintro rfl
    exact h hc
  simp only [splitQuery]
  rw [List.takeWhile_append_of_pos no, List.dropWhile_append_of_pos no]
  simp

/-- A specifier without a question mark is all path. -/
theorem splitQuery_of_notMem {path : List Char} (h : '?' ∉ path) :
    splitQuery path = (path, []) := by
  induction path with
  | nil => rfl
  | cons c cs ih =>
    rw [List.mem_cons, not_or] at h
    have rest := ih h.2
    have other : c ≠ '?' := fun e => h.1 e.symm
    simp_all [splitQuery]

/-- The last segment of a path. -/
def fileName (path : List Char) : List Char := (path.reverse.takeWhile (· ≠ '/')).reverse

/-- The extension of a file name: what follows its last dot, if something stands on both sides. -/
def extensionOf (file : List Char) : Option (List Char) :=
  let extension := (file.reverse.takeWhile (· ≠ '.')).reverse
  let stem := (file.reverse.dropWhile (· ≠ '.')).tail
  if file.contains '.' && !stem.isEmpty && !extension.isEmpty then some extension else none

/-- The extension of a specifier's path, without the dot. -/
def extension? (s : List Char) : Option (List Char) := extensionOf (fileName (splitQuery s).1)

/-- A specifier with one more query parameter at its end. -/
def withParameter (s name value : List Char) : List Char :=
  s ++ (if s.contains '?' then '&' else '?') :: name ++ '=' :: value

/-- A text without the dots at its front. -/
def withoutDots (extension : List Char) : List Char := extension.dropWhile (· = '.')

/-- Two ASCII texts that differ in the case of letters only. -/
def sameLetters (a b : List Char) : Bool := a.map Text.lower == b.map Text.lower

/-- Whether an extension is one of the listed ones, in whatever case; leading dots do not count. -/
def isListed (extensions : List String) (extension : List Char) : Bool :=
  extensions.any fun e => sameLetters e.toList (withoutDots extension)

end Specifier
end HotReload
