import HotReload.Change.Notification
import HotReload.Module.Plan
import HotReload.Settings.Validation

/-!
# Two tests for component files

Whether a file is one of a component is asked twice: the planner of a module asks it about the
sources of imports, and disregards the case of ASCII letters; the route of a notification is decided
by the exact spelling.  Leading dots count for neither.

So whatever goes to the component tree is a component file to the planner as well, and the converse
fails for just those extensions that are listed in another case only
(`route_component_iff_listed`).
-/

namespace HotReload
namespace Change

open Specifier

/-- The extension of a notification without leading dots. -/
def Notification.bareExtension (n : Notification) : String :=
  String.ofList (withoutDots n.extension.toList)

theorem head?_withoutDots (extension : List Char) : (withoutDots extension).head? ≠ some '.' := by
  intro dot
  have stops := List.head?_dropWhile_not (fun c => decide (c = '.')) extension
  rw [withoutDots] at dot
  rw [dot] at stops
  simp at stops

theorem withoutDots_of_head? {extension : List Char} (h : extension.head? ≠ some '.') :
    withoutDots extension = extension := by
  cases extension with
  | nil => rfl
  | cons c cs =>
      have other : ¬decide (c = '.') = true := by simpa using h
      exact List.dropWhile_cons_of_neg other

theorem sameLetters_self (cs : List Char) : sameLetters cs cs = true := by
  rw [sameLetters, beq_iff_eq]

theorem route_eq_component_iff (n : Notification) (extensions : List String) :
    n.route extensions = .component ↔ n.bareExtension ∈ extensions := by
  change (if extensions.contains n.bareExtension = true then Route.component else .plain) = _ ↔ _
  rw [← List.contains_iff_mem]
  split
  next listed => exact ⟨fun _ => listed, fun _ => rfl⟩
  next unlisted =>
    exact ⟨fun never => Route.noConfusion never, fun listed => absurd listed unlisted⟩

theorem route_eq_plain_iff (n : Notification) (extensions : List String) :
    n.route extensions = .plain ↔ n.bareExtension ∉ extensions := by
  rw [← route_eq_component_iff]
  cases n.route extensions <;> simp

theorem isComponentExtension_iff (s : ClassifySettings) (n : Notification) :
    s.isComponentExtension n.extension.toList = true ↔
      ∃ e ∈ s.componentExtensions, sameLetters e.toList n.bareExtension.toList = true := by
  rw [ClassifySettings.isComponentExtension, isListed, List.any_eq_true,
    Notification.bareExtension, String.toList_ofList]

/-- An exact spelling is one of the spellings that differ in case at most. -/
theorem isComponentExtension_of_route {s : ClassifySettings} {n : Notification}
    (h : n.route s.componentExtensions = .component) :
    s.isComponentExtension n.extension.toList = true :=
  (isComponentExtension_iff s n).mpr
    ⟨n.bareExtension, (route_eq_component_iff n _).mp h, sameLetters_self _⟩

/-- A notification that goes to the component tree is about a component file.  A component file is
sent past the tree just if its extension is listed in another case only.  So the two tests agree on
all notifications if and only if the list holds, with an extension, all its spellings that differ in
the case of letters. -/
theorem route_component_iff_listed (s : ClassifySettings) :
    (∀ n : Notification, n.route s.componentExtensions = .component →
      s.isComponentExtension n.extension.toList = true) ∧
    (∀ n : Notification,
      (s.isComponentExtension n.extension.toList = true ∧
        n.route s.componentExtensions = .plain) ↔
      (n.bareExtension ∉ s.componentExtensions ∧
        ∃ e ∈ s.componentExtensions, sameLetters e.toList n.bareExtension.toList = true)) ∧
    ((∀ n : Notification, n.route s.componentExtensions = .component ↔
        s.isComponentExtension n.extension.toList = true) ↔
      ∀ e ∈ s.componentExtensions, ∀ spelling : String, spelling.toList.head? ≠ some '.' →
        sameLetters e.toList spelling.toList = true → spelling ∈ s.componentExtensions) := by
  refine ⟨fun n => isComponentExtension_of_route, fun n => ?_, ?_, ?_⟩
  · rw [isComponentExtension_iff, route_eq_plain_iff, and_comm]
  · intro agree e he spelling dotless same
    have bare : (Notification.mk "" "" spelling "" 0).bareExtension = spelling := by
      rw [Notification.bareExtension, withoutDots_of_head? dotless, String.ofList_toList]
    have listed := (isComponentExtension_iff s ⟨"", "", spelling, "", 0⟩).mpr
      ⟨e, he, by rw [bare]; exact same⟩
    have routed := (route_eq_component_iff _ _).mp ((agree _).mpr listed)
    rwa [bare] at routed
  · intro closed n
    refine ⟨isComponentExtension_of_route, fun listed => ?_⟩
    obtain ⟨e, he, same⟩ := (isComponentExtension_iff s n).mp listed
    refine (route_eq_component_iff n _).mpr (closed e he _ ?_ same)
    rw [Notification.bareExtension, String.toList_ofList]
    exact head?_withoutDots _

/-- With the default settings, which make sense, a file is one of a component to the planner and is
sent past the tree, since its extension is written in capitals. -/
theorem route_misses_capitals :
    let s : ClassifySettings := {}
    Settings.checkClassify s = [] ∧
      s.isComponentExtension ".VUE".toList = true ∧
      (Plan.Policy.mk { component := true } true [] s).isComponentFile "./Card.VUE" = true ∧
      (Notification.mk "Card" "/src/Card.VUE" ".VUE" "change" 1).route s.componentExtensions =
        .plain := by
  decide +kernel

end Change
end HotReload
