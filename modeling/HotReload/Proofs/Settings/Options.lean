import HotReload.Cache.Key
import HotReload.Proofs.Json.Orders
import HotReload.Settings.Validation

/-!
# What the options of settings tell

The options are hashed in canonical form, which forgets the order of the listed extensions, and of
the share that makes a core module whether it is infinite or no number.  If it is finite, as it is
in settings that pass their check, the text of the options determines every setting that shapes the
code (`sameCode_of_text`).
-/

namespace HotReload
namespace Settings

/-- Settings that agree in all that shapes the code, the extensions in any order. -/
structure SameCode (s s' : Settings) : Prop where
  componentMarker : s.classify.componentMarker = s'.classify.componentMarker
  appMarker : s.classify.appMarker = s'.classify.appMarker
  mountMarker : s.classify.mountMarker = s'.classify.mountMarker
  resolveCall : s.classify.resolveCall = s'.classify.resolveCall
  componentExtensions : s.classify.componentExtensions.Perm s'.classify.componentExtensions
  coreRatio : s.classify.coreRatio = s'.classify.coreRatio
  transform : s.transform = s'.transform

open Float.Model in
/-- A share above zero and up to one is finite. -/
theorem isFinite_of_ratio {x : Float} (low : 0 < x) (high : x ≤ 1) : Decimal.IsFinite x := by
  have zero : (0 : Float).toModel.unpack = .zero .positive := rfl
  obtain ⟨m, e, positive, one⟩ :
      ∃ m e positive, (1 : Float).toModel.unpack = .finite .positive m e positive :=
    ⟨_, _, _, rfl⟩
  have below : UnpackedFloat.lt (0 : Float).toModel.unpack x.toModel.unpack = true :=
    of_decide_eq_true low
  have above : UnpackedFloat.le x.toModel.unpack (1 : Float).toModel.unpack = true :=
    of_decide_eq_true high
  rw [zero] at below
  rw [one] at above
  change UnpackedFloat.isNaN x.toModel.unpack = false ∧
    UnpackedFloat.isInf x.toModel.unpack = false
  cases kind : x.toModel.unpack with
  | notANumber =>
      rw [kind] at below
      exact absurd below Bool.false_ne_true
  | infinity sign =>
      rw [kind] at below above
      cases sign with
      | positive => exact absurd above Bool.false_ne_true
      | negative => exact absurd below Bool.false_ne_true
  | zero sign => exact ⟨rfl, rfl⟩
  | finite sign m e positive => exact ⟨rfl, rfl⟩

/-- Settings that pass their check have a finite share. -/
theorem finite_of_diagnostics {s : Settings} (h : s.diagnostics = []) :
    Decimal.IsFinite s.classify.coreRatio := by
  simp only [diagnostics, checkClassify, List.append_eq_nil_iff] at h
  have ratio := h.1.1.1.1.2
  unfold checkRatio at ratio
  split at ratio
  · rename_i range
    rw [Bool.and_eq_true, decide_eq_true_eq, decide_eq_true_eq] at range
    exact isFinite_of_ratio range.1 range.2
  · simp at ratio

theorem floatValue_of_finite {x : Float} (h : Decimal.IsFinite x) :
    floatValue x = .number (.decimal x) := by
  rw [floatValue, h.1, h.2]
  rfl

theorem floatValue_of_not_finite {x : Float} (h : ¬ Decimal.IsFinite x) : floatValue x = .null := by
  rw [floatValue, if_pos]
  unfold Decimal.IsFinite at h
  cases nan : x.isNaN with
  | true => rfl
  | false => simp_all

/-- Of two floats that are both finite or alike, JSON tells one from the other. -/
theorem eq_of_floatValue {x y : Float} (apart : ¬ Decimal.IsFinite x → ¬ Decimal.IsFinite y → x = y)
    (h : floatValue x = floatValue y) : x = y := by
  by_cases first : Decimal.IsFinite x <;> by_cases second : Decimal.IsFinite y
  · rw [floatValue_of_finite first, floatValue_of_finite second] at h
    exact Json.Number.decimal.inj (Json.Value.number.inj h)
  · rw [floatValue_of_finite first, floatValue_of_not_finite second] at h
    cases h
  · rw [floatValue_of_not_finite first, floatValue_of_finite second] at h
    cases h
  · exact apart first second

theorem finite_floatValue (x : Float) : (floatValue x).Finite := by
  by_cases finite : Decimal.IsFinite x
  · rw [floatValue_of_finite finite]
    exact finite
  · rw [floatValue_of_not_finite finite]
    trivial

/-- The options are written with finite numbers. -/
theorem finite_options (s : Settings) : s.options.Finite := by
  have texts : Json.Value.FiniteItems (s.classify.componentExtensions.map .string) := by
    refine Json.Value.finiteItems_iff.mpr fun v hv => ?_
    obtain ⟨x, _, rfl⟩ := List.mem_map.mp hv
    trivial
  exact ⟨⟨trivial, trivial, trivial, trivial, texts, finite_floatValue _, trivial⟩,
    ⟨trivial, trivial, trivial, trivial⟩, trivial⟩

theorem name_injective {m n : MinifyMode} (h : m.name = n.name) : m = n := by
  cases m <;> cases n <;> first | rfl | exact absurd h (by decide)

theorem canonical_floatValue (x : Float) : (floatValue x).canonical = floatValue x := by
  unfold floatValue
  split <;> rfl

open Json.Value in
/-- The canonical form of the options: each section has its members in the order of their names. -/
theorem canonical_options (s : Settings) : s.options.canonical = .object [
    ("classify", .object [
      ("app_marker", .string s.classify.appMarker),
      ("component_extensions",
        (Json.Value.array (s.classify.componentExtensions.map .string)).canonical),
      ("component_marker", .string s.classify.componentMarker),
      ("core_ratio", floatValue s.classify.coreRatio),
      ("mount_marker", .string s.classify.mountMarker),
      ("resolve_call", .string s.classify.resolveCall)]),
    ("transform", .object [
      ("minify", .boolean s.transform.minify),
      ("minify_mode", .string s.transform.minifyMode.name),
      ("placeholder_param", .string s.transform.placeholderParameter)])] := by
  -- The array keeps its form while the members around it are sorted.
  generalize extensions : Json.Value.array (s.classify.componentExtensions.map .string) = listed
  rw [options, extensions]
  simp [canonical, canonicalMembers, canonical_floatValue, List.mergeSort,
    List.MergeSort.Internal.splitInTwo, memberLe, Json.textLe]

/-- The text that is hashed for the options determines the settings that shape the code, as long as
the shares are finite or one. -/
theorem sameCode_of_text {s s' : Settings}
    (ratios : ¬ Decimal.IsFinite s.classify.coreRatio → ¬ Decimal.IsFinite s'.classify.coreRatio →
      s.classify.coreRatio = s'.classify.coreRatio)
    (h : Cache.configurationText (some s.options) = Cache.configurationText (some s'.options)) :
    SameCode s s' := by
  have whole : s.options.canonical = s'.options.canonical :=
    Json.Value.canonical_eq_of_text (finite_options s) (finite_options s') h
  rw [canonical_options, canonical_options] at whole
  simp only [Json.Value.object.injEq, List.cons.injEq, Prod.mk.injEq, Json.Value.string.injEq,
    Json.Value.boolean.injEq, true_and, and_true] at whole
  obtain ⟨⟨app, extensions, component, ratio, mount, resolve⟩, minify, mode, parameter⟩ := whole
  refine ⟨component, app, mount, resolve, Json.Value.texts_perm extensions,
    eq_of_floatValue ratios ratio, ?_⟩
  have name := name_injective mode
  cases transform : s.transform
  cases transform' : s'.transform
  rw [transform] at minify name parameter
  rw [transform'] at minify name parameter
  simp_all

end Settings
end HotReload
