import HotReload.Proofs.Cache.Agreement
import HotReload.Proofs.Cache.Keys
import HotReload.Proofs.Settings.Options
import HotReload.Transform.Basic

/-!
# The cache does not show

Several transformers share a cache, each with settings of its own.  Whatever has been asked of them
before, whatever the cache has dropped, and however the environment and the files have changed, a
transformer answers what it would answer without the cache.

The invariant of a run is that every entry was written for a request of the run: its key is the key
of the request, at some environment, and its text is what compiling the request gives (`Sound`).  An
entry serves another request only if both have one key.  Then their sources are the same, their
names differ in the direction of slashes only, and their settings in the order of extensions only
(`Request.alike_of_key`), none of which reaches the code (`Request.code_of_alike`).
-/

namespace HotReload

/-- A listed extension is listed in any order. -/
theorem Specifier.isListed_of_perm {xs ys : List String} (h : xs.Perm ys) (extension : List Char) :
    Specifier.isListed xs extension = Specifier.isListed ys extension := by
  unfold Specifier.isListed
  rw [Bool.eq_iff_iff, List.any_eq_true, List.any_eq_true]
  exact ⟨fun ⟨x, hx, same⟩ => ⟨x, h.mem_iff.mp hx, same⟩,
    fun ⟨x, hx, same⟩ => ⟨x, h.mem_iff.mpr hx, same⟩⟩

namespace Plan

/-- A draft depends on its policy only by what can be rebound. -/
theorem Draft.of_congr {p q : Policy} (h : p.isRebindable = q.isRebindable) :
    Draft.of p = Draft.of q := by
  have rebindable : p.rebindable = q.rebindable := by
    funext d
    simp only [Policy.rebindable, h]
  have static : p.static = q.static := by
    funext d
    simp only [Policy.static, h]
  have fixed : fixedText p = fixedText q := by
    funext text d
    simp only [fixedText, rebindable, static]
  have addImport : Draft.addImport p = Draft.addImport q := by
    funext draft s text d
    simp only [Draft.addImport, fixed, rebindable]
  funext textOf statements
  unfold Draft.of
  congr 1
  funext draft s
  simp only [Draft.add, addImport]

/-- Neither the path of a module nor the order of extensions reaches its plan. -/
theorem of_alike {s s' : Settings} (h : s.SameCode s') (path path' source : String)
    (statements : List Script.Statement) :
    Plan.of ⟨path, source, statements⟩ s.classify =
      Plan.of ⟨path', source, statements⟩ s'.classify := by
  have flags : Module.flags ⟨path, source, statements⟩ s.classify =
      Module.flags ⟨path', source, statements⟩ s'.classify := by
    unfold Module.flags
    rw [h.componentMarker, h.appMarker, h.mountMarker, h.coreRatio]
    rfl
  have listed : s.classify.isComponentExtension = s'.classify.isComponentExtension := by
    funext extension
    exact Specifier.isListed_of_perm h.componentExtensions extension
  have rebindable : (Policy.of ⟨path, source, statements⟩ s.classify).isRebindable =
      (Policy.of ⟨path', source, statements⟩ s'.classify).isRebindable := by
    funext d b
    simp only [Policy.isRebindable, Policy.of, Policy.isComponentFile, flags, listed, h.resolveCall]
    rfl
  unfold Plan.of
  dsimp only
  rw [Draft.of_congr rebindable]
  simp only [Policy.of, flags]
  rfl

end Plan

theorem Module.parse_toOption (path source : String) :
    (Module.parse path source).toOption =
      (Script.Program.parse source).toOption.map fun program =>
        ⟨path, source, program.statements⟩ := by
  unfold Module.parse
  cases Script.Program.parse source <;> rfl

namespace Transformer

theorem plan_toOption (t : Transformer) (file source : String) :
    (t.plan file source).toOption =
      (t.transpiler source file).toOption.bind fun text =>
        (Module.parse file text).toOption.map (Plan.of · t.classify) := by
  unfold plan
  cases t.transpiler source file with
  | error reason => rfl
  | ok text =>
      dsimp only
      change _ = (Module.parse file text).toOption.map _
      cases Module.parse file text <;> rfl

theorem finish_toOption (t : Transformer) (file code : String) :
    (t.finish file code).toOption =
      match t.minify with
      | none => some code
      | some mode => (t.minifier code file mode).toOption := by
  unfold finish
  cases t.minify with
  | none => rfl
  | some mode =>
      dsimp only
      cases t.minifier code file mode <;> rfl

theorem compile_toOption (t : Transformer) (file source : String) :
    (t.compile file source).toOption.map Compiled.code =
      (t.plan file source).toOption.bind fun p => (t.finish file (t.code p)).toOption := by
  unfold compile
  cases t.plan file source with
  | error fault => rfl
  | ok p =>
      dsimp only
      change _ = (t.finish file (t.code p)).toOption
      cases t.finish file (t.code p) <;> rfl

end Transformer

/-- The tools that transformers use besides their settings. -/
structure Tools where
  transpiler : Transpiler := fun source _ => .ok source
  minifier : Minifier := compactMinifier

/-- Tools whose output is determined by the text and by the file name with forward slashes. -/
structure Tools.Steady (x : Tools) : Prop where
  transpiled : ∀ (source : String) {f g : String}, Cache.slashed f.toList = Cache.slashed g.toList →
    (x.transpiler source f).toOption = (x.transpiler source g).toOption
  minified : ∀ (code : String) (mode : MinifyMode) {f g : String},
    Cache.slashed f.toList = Cache.slashed g.toList →
    (x.minifier code f mode).toOption = (x.minifier code g mode).toOption

/-- The transformer that settings ask for, with other tools. -/
def Transformer.equipped (s : Settings) (x : Tools) : Transformer :=
  { Transformer.ofSettings s with transpiler := x.transpiler, minifier := x.minifier }

/-- A source to transform: the settings of the transformer, the name of the file and its text. -/
structure Request where
  settings : Settings
  file : String
  source : String

namespace Request

variable (x : Tools) (r : Request)

/-- The transformer of a request. -/
def transformer : Transformer := Transformer.equipped r.settings x

/-- The answer without the cache. -/
def uncached : TransformResult :=
  match (r.transformer x).compile r.file r.source with
  | .ok compiled => .ofCode compiled.code
  | .error fault => .ofError fault.message

/-- The code of a request, if it has one. -/
def code : Option String := ((r.transformer x).compile r.file r.source).toOption.map Compiled.code

/-- The bytes of the text, as they are hashed. -/
def content : List UInt8 := Text.utf8 r.source

/-- The bytes of the options, as they are hashed. -/
def options : List UInt8 := Text.utf8 (Cache.configurationText (some r.settings.options))

/-- The key of a request with the digests of surroundings. -/
def key (environment dependencies : Digest) : Cache.Key :=
  .of r.file (Digest.of (Text.utf8 r.source)) (Cache.configurationDigest (some r.settings.options))
    environment dependencies

/-- Requests that differ in nothing that reaches the code. -/
structure Alike (r r' : Request) : Prop where
  settings : r.settings.SameCode r'.settings
  file : Cache.slashed r.file.toList = Cache.slashed r'.file.toList
  source : r.source = r'.source

variable {x r} {r' : Request}

/-- The plans of requests that are alike. -/
theorem plan_of_alike (steady : x.Steady) (h : r.Alike r') :
    ((r.transformer x).plan r.file r.source).toOption =
      ((r'.transformer x).plan r'.file r'.source).toOption := by
  have transpiled : ((r.transformer x).transpiler r.source r.file).toOption =
      ((r'.transformer x).transpiler r.source r'.file).toOption := steady.transpiled r.source h.file
  rw [Transformer.plan_toOption, Transformer.plan_toOption, ← h.source, transpiled]
  congr 1
  funext text
  rw [Module.parse_toOption, Module.parse_toOption, Option.map_map, Option.map_map]
  congr 1
  funext program
  exact Plan.of_alike h.settings r.file r'.file text program.statements

/-- The codes of requests that are alike are the same. -/
theorem code_of_alike (steady : x.Steady) (h : r.Alike r') : r.code x = r'.code x := by
  have minify : (r.transformer x).minify = (r'.transformer x).minify := by
    change (if r.settings.transform.minify then some r.settings.transform.minifyMode else none) =
      if r'.settings.transform.minify then some r'.settings.transform.minifyMode else none
    rw [h.settings.transform]
  have written (p : Plan) : (r.transformer x).code p = (r'.transformer x).code p :=
    congrArg (fun t : TransformSettings => p.code (.ofPlan p) t.placeholderParameter)
      h.settings.transform
  rw [code, code, Transformer.compile_toOption, Transformer.compile_toOption,
    plan_of_alike steady h]
  congr 1
  funext p
  rw [Transformer.finish_toOption, Transformer.finish_toOption, minify, written]
  cases (r'.transformer x).minify with
  | none => rfl
  | some mode => exact steady.minified _ mode h.file

/-- Two requests with one key are alike, if the digest tells their texts and options apart. -/
theorem alike_of_key {environment dependencies environment' dependencies' : Digest}
    (valid : r.settings.diagnostics = [])
    (contents : Digest.Distinguishes [r.content, r'.content])
    (options : Digest.Distinguishes [r.options, r'.options])
    (h : (r.key environment dependencies).render = (r'.key environment' dependencies').render) :
    r.Alike r' := by
  obtain ⟨file, content, configuration, _, _⟩ := Cache.Key.render_of_inj h
  have source : r.content = r'.content := contents _ (by simp) _ (by simp) content
  have settings : r.options = r'.options := options _ (by simp) _ (by simp) configuration
  have finite := Settings.finite_of_diagnostics valid
  exact ⟨Settings.sameCode_of_text (absurd finite) (Text.utf8_injective settings), file,
    Text.utf8_injective source⟩

/-- A request with code answers with it. -/
theorem uncached_of_code {text : String} (h : r.code x = some text) :
    r.uncached x = .ofCode text := by
  unfold code at h
  unfold uncached
  cases compiled : (r.transformer x).compile r.file r.source with
  | error fault =>
      rw [compiled] at h
      simp [Except.toOption] at h
  | ok result =>
      rw [compiled] at h
      exact congrArg TransformResult.ofCode (Option.some.inj h)

end Request

/-- What is given out is the text of the entry under the key. -/
theorem Cache.found_of_get {c : Cache} {w : Surroundings} {name : String} {content : List UInt8}
    {configuration : Cache.Configuration} {key : Cache.Key} {text : String}
    (hk : c.key w name content configuration = .ok key)
    (h : (c.get w name content configuration).1 = some text) :
    ∃ entry, c.store.find? key.render = some entry ∧ entry.text = text := by
  unfold get at h
  rw [hk] at h
  dsimp only at h
  unfold Store.lookup at h
  cases found : c.store.find? key.render with
  | none =>
      rw [found] at h
      cases h
  | some entry =>
      rw [found] at h
      cases old : Store.expired c.limits w.now entry with
      | true => simp [old] at h
      | false => exact ⟨entry, rfl, by simpa [old] using h⟩

/-- What transformers share: the cache, and what they can see. -/
structure Shared where
  cache : Cache
  around : Surroundings

/-- What can happen in a run. -/
inductive Step where
  /-- One of the transformers is asked. -/
  | transform (r : Request)
  /-- The cache is cleared. -/
  | clear
  /-- The environment, the files or the time are other ones. -/
  | change (around : Surroundings)

/-- What asking a transformer leaves behind. -/
def Request.trace (x : Tools) (r : Request) (σ : Shared) : Transformer.Trace :=
  (r.transformer x).transform σ.around σ.cache r.file r.source

/-- What is shared after a step. -/
def Step.after (x : Tools) (σ : Shared) : Step → Shared
  | .transform r => { σ with cache := (r.trace x σ).cache }
  | .clear => { σ with cache := σ.cache.clear }
  | .change around => { σ with around }

/-- What is shared after a run. -/
def reached (x : Tools) (σ : Shared) (steps : List Step) : Shared := steps.foldl (Step.after x) σ

/-- The requests of a run. -/
def requests (steps : List Step) : List Request :=
  steps.filterMap fun
    | .transform r => some r
    | _ => none

/-- Every entry of the cache was written for one of the requests. -/
def Sound (x : Tools) (rs : List Request) (c : Cache) : Prop :=
  ∀ rendered entry, c.store.find? rendered = some entry → ∃ r ∈ rs,
    (∃ environment dependencies, rendered = (r.key environment dependencies).render) ∧
      r.code x = some entry.text

namespace Sound

variable {x : Tools} {rs : List Request} {r : Request} {σ : Shared}

/-- The key of a request in some cache. -/
theorem key_eq (c : Cache) (w : Surroundings) (r : Request) :
    ∃ environment dependencies, c.key w r.file (Text.utf8 r.source)
      (.ok (some r.settings.options)) = .ok (r.key environment dependencies) :=
  ⟨_, _, rfl⟩

/-- A transformer that is asked for a request of the run keeps the cache sound. -/
theorem trace (h : Sound x rs σ.cache) (member : r ∈ rs) : Sound x rs (r.trace x σ).cache := by
  unfold Request.trace Transformer.transform
  dsimp only
  split
  · rename_i got
    exact fun rendered entry found =>
      h rendered entry (Cache.find?_of_get (by rw [got]; exact found))
  · rename_i c' events got
    have kept : Sound x rs c' := fun rendered entry found =>
      h rendered entry (Cache.find?_of_get (by rw [got]; exact found))
    cases compiled : (r.transformer x).compile r.file r.source with
    | error fault => exact kept
    | ok result =>
        intro rendered entry found
        obtain ⟨environment, dependencies, key⟩ := key_eq c' σ.around r
        rcases Cache.find?_of_set key found with old | ⟨under, rfl⟩
        · exact kept rendered entry old
        · refine ⟨r, member, ⟨environment, dependencies, under⟩, ?_⟩
          rw [Request.code, compiled]
          rfl

/-- Every step whose request belongs to the run keeps the cache sound. -/
theorem after (h : Sound x rs σ.cache) (step : Step) (member : ∀ r, step = .transform r → r ∈ rs) :
    Sound x rs (step.after x σ).cache := by
  cases step with
  | transform r => exact h.trace (member r rfl)
  | clear => exact fun _ _ found => nomatch found
  | change around => exact h

/-- A run keeps the cache sound. -/
theorem reached (h : Sound x rs σ.cache) (steps : List Step)
    (members : ∀ r ∈ requests steps, r ∈ rs) : Sound x rs (reached x σ steps).cache := by
  induction steps generalizing σ with
  | nil => exact h
  | cons step steps ih =>
      refine ih (h.after step fun r first => members r ?_) fun r hr => members r ?_
      · rw [first]
        exact List.mem_cons_self
      · unfold requests
        rw [List.filterMap_cons]
        split
        · exact hr
        · exact List.mem_cons_of_mem _ hr

/-- What a sound cache holds under the key of a request is its code, if the digest tells the texts
and options of all requests apart. -/
theorem code_eq {c : Cache} (h : Sound x rs c) (steady : x.Steady)
    (valid : ∀ q ∈ r :: rs, q.settings.diagnostics = [])
    (contents : Digest.Distinguishes ((r :: rs).map Request.content))
    (options : Digest.Distinguishes ((r :: rs).map Request.options))
    {environment dependencies : Digest} {entry : Cache.Entry}
    (found : c.store.find? (r.key environment dependencies).render = some entry) :
    ∃ q ∈ rs, q.code x = some entry.text ∧ r.code x = some entry.text := by
  obtain ⟨q, member, ⟨environment', dependencies', key⟩, code⟩ := h _ entry found
  have among (f : Request → List UInt8) : ∀ a ∈ [f q, f r], a ∈ (r :: rs).map f := by
    intro a ha
    simp only [List.mem_cons, List.not_mem_nil, or_false] at ha
    rcases ha with rfl | rfl
    · exact List.mem_map_of_mem (List.mem_cons_of_mem _ member)
    · exact List.mem_map_of_mem List.mem_cons_self
  have alike : q.Alike r := Request.alike_of_key (valid q (List.mem_cons_of_mem _ member))
    (contents.subset (among Request.content)) (options.subset (among Request.options))
    key.symm
  exact ⟨q, member, code, (Request.code_of_alike steady alike).symm.trans code⟩

end Sound

/-- Whatever has happened before, a transformer answers what it would answer without the cache; and
an entry that is under the key of its request, in whatever surroundings, was written for a request
of the run that has the same code. -/
theorem Request.trace_eq_uncached (x : Tools) (steady : x.Steady) (c : Cache) (w : Surroundings)
    (before : List Step) (r : Request)
    (valid : ∀ q ∈ r :: requests before, q.settings.diagnostics = [])
    (contents : Digest.Distinguishes ((r :: requests before).map Request.content))
    (options : Digest.Distinguishes ((r :: requests before).map Request.options)) :
    (r.trace x (reached x ⟨c.clear, w⟩ before)).result = r.uncached x ∧
      ∀ environment dependencies entry, (reached x ⟨c.clear, w⟩ before).cache.store.find?
          (r.key environment dependencies).render = some entry →
        ∃ q ∈ requests before, q.code x = some entry.text ∧ r.code x = some entry.text := by
  have start : Sound x (requests before) (Shared.mk c.clear w).cache :=
    fun _ _ found => nomatch found
  have sound := start.reached before fun q hq => hq
  refine ⟨?_, fun environment dependencies entry found =>
    sound.code_eq steady valid contents options found⟩
  obtain ⟨environment, dependencies, key⟩ :=
    Sound.key_eq (reached x ⟨c.clear, w⟩ before).cache (reached x ⟨c.clear, w⟩ before).around r
  unfold Request.trace Transformer.transform
  dsimp only
  split
  · rename_i text c' events got
    obtain ⟨entry, found, same⟩ := Cache.found_of_get key (congrArg Prod.fst got)
    obtain ⟨q, _, _, code⟩ := sound.code_eq steady valid contents options found
    rw [Request.uncached_of_code code, same]
  · unfold Request.uncached
    cases (r.transformer x).compile r.file r.source <;> rfl

/-- Tools that look at a file name only to name the file in an error are steady. -/
theorem Tools.steady_default : ({} : Tools).Steady where
  transpiled := fun _ _ _ _ => rfl
  minified := by
    intro code mode f g _
    change (compactMinifier code f mode).toOption = (compactMinifier code g mode).toOption
    unfold compactMinifier
    cases Script.Program.parse code <;> rfl

/-- A transformer is asked for a file that another one has stored, with the extensions in another
order and the slashes in the other direction. -/
theorem Request.trace_eq_uncached_reordered :
    let first : Request := ⟨{ classify := { componentExtensions := ["vue", "svelte"] } },
      "src\\a.js", "export const a = 1"⟩
    let second : Request := ⟨{ classify := { componentExtensions := ["svelte", "vue"] } },
      "src/a.js", "export const a = 1"⟩
    let before := [Step.transform first, .change { environment := [("MODE", "test")] }, .change {}]
    (∀ q ∈ second :: requests before, q.settings.diagnostics = []) ∧
      Digest.Distinguishes ((second :: requests before).map Request.content) ∧
      Digest.Distinguishes ((second :: requests before).map Request.options) ∧
      (second.trace {} (reached {} ⟨({} : Cache).clear, {}⟩ before)).result =
        .ofCode "export const a = 1\n" := by
  intro first second before
  have valid : ∀ q ∈ second :: requests before, q.settings.diagnostics = [] := by decide +kernel
  have same : second.options = first.options := by
    have canonical : second.settings.options.canonical = first.settings.options.canonical := by
      rw [Settings.canonical_options, Settings.canonical_options]
      simp [first, second, Json.Value.canonical, Json.Value.isPrimitive, List.mergeSort,
        List.MergeSort.Internal.splitInTwo, Json.Value.primitiveLe, Json.Value.sortText,
        Json.textLe]
    exact congrArg (fun v : Json.Value => Text.utf8 v.text) canonical
  have alone {a b : List UInt8} (equal : a = b) : Digest.Distinguishes [a, b] := by
    intro x hx y hy _
    simp_all
  have contents : Digest.Distinguishes ((second :: requests before).map Request.content) :=
    alone rfl
  have options : Digest.Distinguishes ((second :: requests before).map Request.options) :=
    alone same
  have answer := (trace_eq_uncached {} Tools.steady_default {} {} before second valid contents
    options).1
  have code : second.uncached {} = .ofCode "export const a = 1\n" := by decide +kernel
  exact ⟨valid, contents, options, answer.trans code⟩

end HotReload
