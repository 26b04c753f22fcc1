import HotReload.Proofs.Cache.Configurations
import HotReload.Proofs.Transform.Transparency
import HotReload.Settings.Reading

/-!
# Settings that compile differently have different keys

Settings reach a cache key by the digest of their options only.  What a module compiles to depends
on the settings that shape the code (`Transformer.compile_of_sameCode`), and the text of the options
determines these (`Settings.sameCode_of_text`), so transformers that compile some module differently
never share an entry.

Nothing keeps a share from being infinite, or no number at all, unless the settings are checked.  In
the options every such share is `null`, so two of them that are not the same are told apart by what
they do to a module but not by the key.
-/

namespace HotReload

namespace Transformer

variable {x : Tools} {s s' : Settings}

/-- Settings that agree in all that shapes the code plan every module alike. -/
theorem plan_of_sameCode (h : s.SameCode s') (file source : String) :
    (equipped s x).plan file source = (equipped s' x).plan file source := by
  have split (m : Module) : Plan.of m s.classify = Plan.of m s'.classify :=
    Plan.of_alike h m.path m.path m.source m.statements
  simp only [plan, equipped, ofSettings, split]

/-- Settings that agree in all that shapes the code compile every module alike. -/
theorem compile_of_sameCode (h : s.SameCode s') (file source : String) :
    (equipped s x).compile file source = (equipped s' x).compile file source := by
  have written (p : Plan) : (equipped s x).code p = (equipped s' x).code p := by
    simp only [code, equipped, ofSettings, h.transform]
  have finished (text : String) :
      (equipped s x).finish file text = (equipped s' x).finish file text := by
    simp only [finish, equipped, ofSettings, h.transform]
  simp only [compile, plan_of_sameCode h, written, finished]

end Transformer

namespace Settings

/-- The text of options with one listed extension. -/
theorem text_of_extension (s : Settings) {extension : String}
    (listed : s.classify.componentExtensions = [extension]) :
    Cache.configurationText (some s.options) = Json.Value.text (.object [
      ("classify", .object [
        ("app_marker", .string s.classify.appMarker),
        ("component_extensions", .array [.string extension]),
        ("component_marker", .string s.classify.componentMarker),
        ("core_ratio", floatValue s.classify.coreRatio),
        ("mount_marker", .string s.classify.mountMarker),
        ("resolve_call", .string s.classify.resolveCall)]),
      ("transform", .object [
        ("minify", .boolean s.transform.minify),
        ("minify_mode", .string s.transform.minifyMode.name),
        ("placeholder_param", .string s.transform.placeholderParameter)])]) := by
  have sorted : (Json.Value.array [.string extension]).canonical = .array [.string extension] := by
    simp [Json.Value.canonical, Json.Value.isPrimitive]
  change Json.Value.text (s.options.canonical) = _
  rw [canonical_options, listed, List.map_singleton, sorted]

/-- Settings whose transformers compile some module differently, by the same tools, have options of
different digests, and so have no cache key in common, if the digest tells the options apart.  At
least one of their shares is finite, or they are the same. -/
theorem options_separate (x : Tools) (s s' : Settings)
    (ratios : ¬ Decimal.IsFinite s.classify.coreRatio → ¬ Decimal.IsFinite s'.classify.coreRatio →
      s.classify.coreRatio = s'.classify.coreRatio)
    (apart : Digest.Distinguishes [Text.utf8 (Cache.configurationText (some s.options)),
      Text.utf8 (Cache.configurationText (some s'.options))])
    (differ : ∃ file source, (Transformer.equipped s x).compile file source ≠
      (Transformer.equipped s' x).compile file source) :
    Cache.configurationDigest (some s.options) ≠ Cache.configurationDigest (some s'.options) ∧
      ∀ (c c' : Cache) (w w' : Surroundings) (name name' : String) (content content' : List UInt8)
        (key key' : Cache.Key), c.key w name content (.ok (some s.options)) = .ok key →
          c'.key w' name' content' (.ok (some s'.options)) = .ok key' →
            key.render ≠ key'.render := by
  have digests :
      Cache.configurationDigest (some s.options) ≠ Cache.configurationDigest (some s'.options) := by
    intro same
    obtain ⟨file, source, differ⟩ := differ
    have texts := (Cache.configurationDigest_eq_iff apart).mp same
    exact differ (Transformer.compile_of_sameCode (sameCode_of_text ratios texts) file source)
  refine ⟨digests, ?_⟩
  intro c c' w w' name name' content content' key key' made made' same
  obtain rfl := Except.ok.inj made
  obtain rfl := Except.ok.inj made'
  obtain ⟨_, _, configuration, _, _⟩ := Cache.Key.render_of_inj same
  exact digests configuration

/-- Default settings, and settings with a share that no module reaches, so that none is a core
module. -/
theorem options_separate_unreached :
    let s : Settings := {}
    let s' : Settings := { classify := { coreRatio := 1 / 0 } }
    (Decimal.IsFinite s.classify.coreRatio ∧ ¬ Decimal.IsFinite s'.classify.coreRatio) ∧
      Digest.Distinguishes [Text.utf8 (Cache.configurationText (some s.options)),
        Text.utf8 (Cache.configurationText (some s'.options))] ∧
      Cache.configurationDigest (some s.options) ≠ Cache.configurationDigest (some s'.options) := by
  intro s s'
  have finite : Decimal.IsFinite s.classify.coreRatio := by
    unfold Decimal.IsFinite
    decide
  have infinite : ¬ Decimal.IsFinite s'.classify.coreRatio := by
    unfold Decimal.IsFinite
    decide +kernel
  have other : Digest.of (Text.utf8 (Cache.configurationText (some s.options))) ≠
      Digest.of (Text.utf8 (Cache.configurationText (some s'.options))) := by
    rw [text_of_extension s rfl, text_of_extension s' rfl]
    decide +kernel
  have apart : Digest.Distinguishes [Text.utf8 (Cache.configurationText (some s.options)),
      Text.utf8 (Cache.configurationText (some s'.options))] := by
    intro a ha b hb same
    simp only [List.mem_cons, List.not_mem_nil, or_false] at ha hb
    rcases ha with rfl | rfl <;> rcases hb with rfl | rfl
    · rfl
    · exact absurd same other
    · exact absurd same.symm other
    · rfl
  have differ : ∃ file source, (Transformer.equipped s {}).compile file source ≠
      (Transformer.equipped s' {}).compile file source := by
    refine ⟨"m.js", "import a from './a.js';\nexport \x7b a \x7d;", fun same => ?_⟩
    have codes := congrArg (fun result => result.toOption.map Compiled.code) same
    revert codes
    decide +kernel
  exact ⟨⟨finite, infinite⟩, apart,
    (options_separate {} s s' (absurd finite) apart differ).1⟩

/-- Settings that are read but not checked may have an infinite share of either sign.  No module
reaches the one and every module reaches the other, and their options are the same. -/
theorem options_hide_sign : ∃ s s' : Settings,
    parse? "[classify]\ncore_ratio = inf" = some s ∧
      parse? "[classify]\ncore_ratio = -inf" = some s' ∧
      Cache.configurationDigest (some s.options) = Cache.configurationDigest (some s'.options) ∧
      ((Transformer.equipped s {}).compile "m.js"
        "import a from './a.js';\nexport \x7b a \x7d;").toOption.map Compiled.code =
          some ("let a;\n\x7b\n  const __relive_m0 = await import(\"./a.js\");\n" ++
            "  a = __relive_m0.default;\n\x7d\nexport \x7b a \x7d;\n") ∧
      ((Transformer.equipped s' {}).compile "m.js"
        "import a from './a.js';\nexport \x7b a \x7d;").toOption.map Compiled.code =
          some "import a from './a.js';\nexport \x7b a \x7d;\n" := by
  let code (s : Settings) := ((Transformer.equipped s {}).compile "m.js"
    "import a from './a.js';\nexport \x7b a \x7d;").toOption.map Compiled.code
  have redirected : (parse? "[classify]\ncore_ratio = inf").map code =
      some (some ("let a;\n\x7b\n  const __relive_m0 = await import(\"./a.js\");\n" ++
        "  a = __relive_m0.default;\n\x7d\nexport \x7b a \x7d;\n")) := by decide +kernel
  have kept : (parse? "[classify]\ncore_ratio = -inf").map code =
      some (some "import a from './a.js';\nexport \x7b a \x7d;\n") := by decide +kernel
  have texts : (parse? "[classify]\ncore_ratio = inf").map (·.options.chars) =
      (parse? "[classify]\ncore_ratio = -inf").map (·.options.chars) := by decide +kernel
  obtain ⟨s, read, redirected⟩ := Option.map_eq_some_iff.mp redirected
  obtain ⟨s', read', kept⟩ := Option.map_eq_some_iff.mp kept
  have same : s.options = s'.options := by
    rw [read, read'] at texts
    exact Json.Value.chars_injective (finite_options s) (finite_options s') (Option.some.inj texts)
  exact ⟨s, s', read, read', by rw [same], redirected, kept⟩

end Settings
end HotReload
