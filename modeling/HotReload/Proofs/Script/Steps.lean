import Mathlib.Logic.Relation
import HotReload.Proofs.Script.Results
import HotReload.Proofs.Script.Trivia

/-!
# Reading as a run of steps

What a parser does to a reader is a run of single steps (`Composed.run`), whatever it decides in
between.  So what every step keeps holds after a whole parser:

* the reader stays in its text (`Step.within`);
* the next token is what is scanned in front of the reader, unless it was taken a second time, as a
  regular expression or as more of a template (`Step.fresh`);
* between the last token read and the next one stand white space and comments
  (`Run.follows`).
-/

namespace HotReload
namespace Script

open Script.Parser Cursor

/-- A step of reading. -/
inductive Step : Reader → Reader → Prop
  | advance {r r' : Reader} : advance r = .ok ((), r') → Step r r'
  | takePattern {r r' : Reader} : takePattern r = .ok ((), r') → Step r r'
  | takeTemplate {r r' : Reader} : takeTemplate r = .ok ((), r') → Step r r'
  | endStatement {r r' : Reader} : endStatement r = .ok ((), r') → Step r r'
  | exportName {r r' : Reader} (name : String) : exportName name r = .ok ((), r') → Step r r'

/-- Several steps of reading. -/
abbrev Run : Reader → Reader → Prop := Relation.ReflTransGen Step

/-- Whatever is put together from steps takes a reader along a run of steps. -/
theorem Parser.Composed.run {α : Type} {n d : Nat} {p : Parser α} (hp : Composed n d p) {a : α}
    {r r' : Reader} (h : p r = .ok (a, r')) : Run r r' := by
  induction hp generalizing r r' with
  | pure a =>
      cases h
      exact .refl
  | fail n cause => cases h
  | advance => exact .single (.advance h)
  | takePattern => exact .single (.takePattern h)
  | takeTemplate => exact .single (.takeTemplate h)
  | endStatement => exact .single (.endStatement h)
  | exportName name => exact .single (.exportName name h)
  | bind _ _ ihp ihf =>
      obtain ⟨b, mid, first, second⟩ := bind_ok h
      exact (ihp first).trans (ihf b second)
  | look _ _ ih => exact ih r.token h
  | lookSecond _ _ ih => exact ih r.second? h
  | lookThird _ _ ih => exact ih r.third? h
  | lookThirdOnLine _ _ _ ih => exact ih r.third? h
  | weaken _ _ _ ih => exact ih h

variable {c : Cursor} {r r' : Reader}

theorem Step.within (h : Step r r') (hr : r.Within c) : r'.Within c := by
  cases h with
  | advance read => exact (advance_sound hr read).1
  | takePattern read => exact (takePattern_sound hr read).1
  | takeTemplate read => exact (takeTemplate_sound hr read).1
  | endStatement read =>
      cases read
      exact ⟨hr.last, hr.spans⟩
  | exportName name read => exact (exportName_sound hr read).1

theorem Run.within (h : Run r r') (hr : r.Within c) : r'.Within c := by
  induction h with
  | refl => exact hr
  | tail _ step ih => exact step.within ih

/-- A token that may have been scanned in another way first. -/
def Kind.isRetaken : Kind → Bool
  | .pattern | .template _ _ => true
  | _ => false

/-- The next token is the one that is scanned in front of the reader. -/
def Reader.Scanned (r : Reader) : Prop :=
  ∃ line, scanToken limit line r.here = .ok (r.token, r.rest)

/-- The next token has been scanned once, as far as that can be seen. -/
def Reader.Fresh (r : Reader) : Prop := r.token.kind.isRetaken = false → r.Scanned

/-- What has been read of a reader that exports a name. -/
theorem exportName_ok {name : String} (h : exportName name r = .ok ((), r')) :
    r' = { r with exported := name :: r.exported } := by
  unfold exportName at h
  split at h
  · cases h
  · cases h
    rfl

/-- A pattern or a template is a token of another kind, at the same place. -/
theorem retaken_of_takePattern (h : takePattern r = .ok ((), r')) :
    r'.token.kind.isRetaken = true ∧ r'.here = r.here ∧ r'.last = r.last := by
  unfold takePattern at h
  split at h
  · split at h
    · cases h
    · cases h
      exact ⟨rfl, rfl, rfl⟩
  · cases h

theorem retaken_of_takeTemplate (h : takeTemplate r = .ok ((), r')) :
    r'.token.kind.isRetaken = true ∧ r'.here = r.here ∧ r'.last = r.last := by
  unfold takeTemplate at h
  split at h
  · split at h
    · cases h
    · cases h
      exact ⟨rfl, rfl, rfl⟩
  · cases h

theorem Step.fresh (h : Step r r') (hr : r.Fresh) : r'.Fresh := by
  cases h with
  | advance read =>
      obtain ⟨line, _, scanned, _⟩ := advance_scans read
      exact fun _ => ⟨line, scanned⟩
  | takePattern read => exact fun once => absurd once (by simp [(retaken_of_takePattern read).1])
  | takeTemplate read => exact fun once => absurd once (by simp [(retaken_of_takeTemplate read).1])
  | endStatement read =>
      cases read
      exact hr
  | exportName name read =>
      cases exportName_ok read
      exact hr

theorem Run.fresh (h : Run r r') (hr : r.Fresh) : r'.Fresh := by
  induction h with
  | refl => exact hr
  | tail _ step ih => exact step.fresh ih

/-- White space and comments are all that stands between a cursor and the next token. -/
def Reader.Follows (r : Reader) (d : Cursor) : Prop :=
  ∃ line, skipTrivia .code false d.offset d.text = .ok (line, r.here)

/-- A step either leaves the reader in front of the same token, or reads this token. -/
theorem Step.follows (h : Step r r') :
    (r'.here = r.here ∧ r'.last = r.last) ∨ (r'.Follows r.rest ∧ r'.last = r.token.stop) := by
  cases h with
  | advance read =>
      obtain ⟨line, skipped, _, last⟩ := advance_scans read
      exact .inr ⟨⟨line, skipped⟩, last⟩
  | takePattern read => exact .inl (retaken_of_takePattern read).2
  | takeTemplate read => exact .inl (retaken_of_takeTemplate read).2
  | endStatement read =>
      cases read
      exact .inl ⟨rfl, rfl⟩
  | exportName name read =>
      cases exportName_ok read
      exact .inl ⟨rfl, rfl⟩

/-- After a run that has read a token, white space and comments stand between the last token and
the next one. -/
theorem Run.follows (h : Run r r') (hr : r.Within c) (forward : r.last < r'.last) :
    ∃ d, c.Reaches d ∧ d.offset = r'.last ∧ r'.Follows d := by
  induction h with
  | refl => exact absurd forward (Nat.lt_irrefl _)
  | @tail mid r' run step ih =>
      have hmid := Run.within run hr
      rcases step.follows with ⟨here, last⟩ | ⟨follows, last⟩
      · obtain ⟨d, cd, offset, line, skipped⟩ := ih (last ▸ forward)
        exact ⟨d, cd, offset.trans last.symm, line, by rw [here, skipped]⟩
      · have stop := hmid.spans.stop
        exact ⟨mid.rest, hmid.here.trans hmid.spans.reaches, by rw [last, stop], follows⟩

end Script
end HotReload
