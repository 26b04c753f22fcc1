import Mathlib.Algebra.GroupWithZero.Nat
import HotReload.Proofs.Module.Layout
import HotReload.Proofs.Module.Placeholders

/-!
# Stamps in the code of a component

The code of a component is woven from gaps and slots: a slot is the value of the last parameter of a
redirected import, up to the mark that closes the import's source (`Plan.slotted_stampedSource`).
The gaps do not depend on the values.  With tokens as values it is the code of the component; if it
holds no other placeholders, filling them gives the same gaps with stamps in the slots
(`Plan.fill_code`).

A stamp goes into its slot as it stands, whereas the writer of imports quotes it.  So the filled
code is what the writer would have written with stamps for tokens as long as quoting keeps the
stamp.
-/

namespace HotReload

namespace Json

/-- Quoting keeps a text if nothing of it is escaped. -/
theorem quote_eq_iff (s : String) :
    quote s = "\"" ++ s ++ "\"" ↔ s.toList.flatMap escape = s.toList := by
  rw [← String.toList_inj, quote, String.toList_ofList, quoteChars]
  simp

end Json

section Weave

/-- Lists of one length are taken apart together. -/
theorem together {α β : Type} {P : (as : List α) → (bs : List β) → as.length = bs.length → Prop}
    (nil : P [] [] rfl)
    (cons : ∀ a b as bs (h : as.length = bs.length), P as bs h →
      P (a :: as) (b :: bs) (congrArg (· + 1) h)) : ∀ as bs h, P as bs h
  | [], [], _ => nil
  | a :: as, b :: bs, h =>
      cons a b as bs (Nat.succ.inj h) (together nil cons as bs (Nat.succ.inj h))

variable {gaps : List (List Char)} {pieces : List (List Char)}

theorem weave_append (gaps pieces : List (List Char)) (rest tail : List Char) :
    weave gaps pieces rest ++ tail = weave gaps pieces (rest ++ tail) := by
  induction gaps generalizing pieces with
  | nil => rfl
  | cons gap gaps ih =>
      cases pieces with
      | nil => rfl
      | cons piece pieces =>
          rw [weave, weave, ← ih]
          simp only [List.append_assoc]

/-- A woven text behind another one: the gap between them grows. -/
theorem weave_weave (h : gaps.length = pieces.length) (middle gap piece rest : List Char)
    (gaps' pieces' : List (List Char)) :
    weave gaps pieces (middle ++ weave (gap :: gaps') (piece :: pieces') rest) =
      weave (gaps ++ (middle ++ gap) :: gaps') (pieces ++ piece :: pieces') rest := by
  induction gaps, pieces, h using together with
  | nil => simp [weave]
  | cons first second gaps pieces h ih =>
      rw [weave, ih, List.cons_append, List.cons_append, weave]

theorem length_weave_le {sources : List String} {f g : String → List Char}
    (h : gaps.length = sources.length) (le : ∀ s ∈ sources, (f s).length ≤ (g s).length)
    (rest : List Char) :
    (weave gaps (sources.map f) rest).length ≤ (weave gaps (sources.map g) rest).length := by
  induction gaps, sources, h using together with
  | nil => exact Nat.le_refl _
  | cons gap source gaps sources h ih =>
      have here := le source (by simp)
      have later := ih fun s hs => le s (by simp [hs])
      simp only [List.map_cons, weave, List.length_append]
      omega

/-- Texts woven with the same gaps have the same pieces, if those of one are not shorter. -/
theorem weave_inj {sources : List String} {f g : String → List Char}
    (h : gaps.length = sources.length) (le : ∀ s ∈ sources, (f s).length ≤ (g s).length)
    {rest : List Char}
    (same : weave gaps (sources.map f) rest = weave gaps (sources.map g) rest) :
    ∀ s ∈ sources, f s = g s := by
  induction gaps, sources, h using together with
  | nil => simp
  | cons gap source gaps sources h ih =>
      have here := le source (by simp)
      have le' : ∀ s ∈ sources, (f s).length ≤ (g s).length := fun s hs => le s (by simp [hs])
      have later := length_weave_le h le' rest
      simp only [List.map_cons, weave, List.append_assoc] at same
      have behind := List.append_cancel_left same
      have lengths := congrArg List.length behind
      rw [List.length_append, List.length_append] at lengths
      obtain ⟨first, others⟩ := List.append_inj behind (by omega)
      intro s hs
      rcases List.mem_cons.mp hs with rfl | hs
      · exact first
      · exact ih le' others s hs

end Weave

/-- The end of a source in quotes: the value of its last parameter, and the closing mark. -/
def slot (value : String → List Char) (source : String) : List Char := '=' :: value source ++ ['"']

theorem slot_inj {f g : String → List Char} {source : String} :
    slot f source = slot g source ↔ f source = g source := by
  simp [slot]

/-- Quoting changes nothing in the slots of a text exactly if it keeps each value. -/
theorem weave_escaped_iff {gaps : List (List Char)} {sources : List String} {rest : List Char}
    (h : gaps.length = sources.length) (value : String → List Char) :
    weave gaps (sources.map (slot value)) rest =
        weave gaps (sources.map (slot fun s => (value s).flatMap Json.escape)) rest ↔
      ∀ s ∈ sources, (value s).flatMap Json.escape = value s := by
  constructor
  · intro same s listed
    have le : ∀ s ∈ sources, (slot value s).length ≤
        (slot (fun s => (value s).flatMap Json.escape) s).length := by
      intro s _
      have longer := Json.length_le_escaped (value s)
      simpa [slot] using longer
    exact (slot_inj.mp (weave_inj h le same s listed)).symm
  · intro kept
    refine congrArg (weave gaps · rest) (List.map_congr_left fun s listed => ?_)
    exact slot_inj.mpr (kept s listed).symm

namespace Placeholder

section Slots

variable {gaps : List (List Char)} {sources : List String} {rest : List Char}

theorem slot_append (gap : List Char) (value : String → List Char) (source : String)
    (rest : List Char) :
    gap ++ slot value source ++ rest = gap ++ '=' :: (value source ++ '"' :: rest) := by
  simp [slot]

/-- The placeholders of a woven text are those of its gaps and those of its values. -/
theorem occurrences_weave (value : String → List Char) (h : gaps.length = sources.length)
    (rest : List Char) :
    occurrences (weave gaps (sources.map (slot value)) rest) =
      (gaps.map occurrences).sum + (sources.map fun s => occurrences (value s)).sum +
        occurrences rest := by
  induction gaps, sources, h using together with
  | nil => simp [weave]
  | cons gap source gaps sources h ih =>
      rw [List.map_cons, weave, slot_append, occurrences_append foreign_equals,
        occurrences_append foreign_mark, ih]
      simp only [List.map_cons, List.sum_cons]
      omega

/-- A woven text is filled gap by gap and value by value. -/
theorem fillWith_weave (stampOf : List Char → List Char) (value : String → List Char)
    (h : gaps.length = sources.length) (rest : List Char) :
    fillWith stampOf (weave gaps (sources.map (slot value)) rest) =
      weave (gaps.map (fillWith stampOf)) (sources.map (slot fun s => fillWith stampOf (value s)))
        (fillWith stampOf rest) := by
  induction gaps, sources, h using together with
  | nil => simp [weave]
  | cons gap source gaps sources h ih =>
      rw [List.map_cons, List.map_cons, List.map_cons, weave, weave, slot_append, slot_append,
        fillWith_append foreign_equals, fillWith_append foreign_mark, ih]

theorem sum_occurrences_token (sources : List String) :
    (sources.map fun s => occurrences (token s)).sum = sources.length := by
  simp [occurrences_token]

/-- A text with tokens in its slots holds at least those placeholders. -/
theorem length_le_occurrences (h : gaps.length = sources.length) :
    sources.length ≤ occurrences (weave gaps (sources.map (slot token)) rest) := by
  rw [occurrences_weave token h, sum_occurrences_token]
  omega

/-- If it holds no others, there are none in its gaps. -/
theorem gaps_of_occurrences (h : gaps.length = sources.length)
    (only : occurrences (weave gaps (sources.map (slot token)) rest) = sources.length) :
    (∀ gap ∈ gaps, occurrences gap = 0) ∧ occurrences rest = 0 := by
  rw [occurrences_weave token h, sum_occurrences_token] at only
  have none : (gaps.map occurrences).sum = 0 := by omega
  refine ⟨fun gap among => ?_, by omega⟩
  exact List.sum_eq_zero_iff_forall_eq_nat.mp none _ (List.mem_map_of_mem among)

end Slots

/-- Texts filled in their slots only, if there are no other placeholders. -/
theorem fillWith_slots {gaps : List (List Char)} {sources : List String} {rest : List Char}
    (h : gaps.length = sources.length)
    (only : occurrences (weave gaps (sources.map (slot token)) rest) = sources.length)
    (stampOf : List Char → List Char) :
    fillWith stampOf (weave gaps (sources.map (slot token)) rest) =
      weave gaps (sources.map (slot fun s => stampOf (Fingerprint.ofText s))) rest := by
  obtain ⟨clear, ends⟩ := gaps_of_occurrences h only
  have kept : gaps.map (fillWith stampOf) = gaps := by
    calc gaps.map (fillWith stampOf)
        = gaps.map id := List.map_congr_left fun gap among =>
          fillWith_of_occurrences (clear gap among)
      _ = gaps := List.map_id gaps
  rw [fillWith_weave stampOf token h, kept, fillWith_of_occurrences ends]
  simp only [fillWith_token]

/-- If the values hold no placeholders either, there are none. -/
theorem occurrences_slots {gaps : List (List Char)} {sources : List String} {rest : List Char}
    (h : gaps.length = sources.length)
    (only : occurrences (weave gaps (sources.map (slot token)) rest) = sources.length)
    {value : String → List Char} (clear : ∀ s ∈ sources, occurrences (value s) = 0) :
    occurrences (weave gaps (sources.map (slot value)) rest) = 0 := by
  obtain ⟨inGaps, ends⟩ := gaps_of_occurrences h only
  have gapSum : (gaps.map occurrences).sum = 0 :=
    List.sum_eq_zero_iff_forall_eq_nat.mpr (List.forall_mem_map.mpr inGaps)
  have valueSum : (sources.map fun s => occurrences (value s)).sum = 0 :=
    List.sum_eq_zero_iff_forall_eq_nat.mpr (List.forall_mem_map.mpr clear)
  rw [occurrences_weave value h, gapSum, valueSum, ends]

/-- The stamp of a source: the fresh one if the source changed. -/
def stampOf (changed : List String) (stamp : String) (source : String) : List Char :=
  if source ∈ changed then stamp.toList else stableStamp

theorem occurrences_stampOf {stamp : String} (clear : occurrences stamp.toList = 0)
    (changed : List String) (source : String) : occurrences (stampOf changed stamp source) = 0 := by
  unfold stampOf
  split
  · exact clear
  · exact occurrences_of_short (by decide)

/-- Quoting keeps the stamps of some sources exactly if it keeps the fresh stamp, or none of them
changed. -/
theorem escape_stampOf_iff {changed sources : List String} {stamp : String} :
    (∀ s ∈ sources, (stampOf changed stamp s).flatMap Json.escape = stampOf changed stamp s) ↔
      stamp.toList.flatMap Json.escape = stamp.toList ∨ ∀ s ∈ sources, s ∉ changed := by
  constructor
  · intro kept
    by_cases fresh : ∃ s ∈ sources, s ∈ changed
    · obtain ⟨s, listed, among⟩ := fresh
      have here := kept s listed
      rw [stampOf, if_pos among] at here
      exact .inl here
    · exact .inr fun s listed among => fresh ⟨s, listed, among⟩
  · intro either s listed
    unfold stampOf
    split
    · rename_i among
      exact either.resolve_right fun stable => stable s listed among
    · rfl

/-- Stamps by fingerprint are stamps by source if fingerprints tell the sources apart. -/
theorem stampFor_ofText {changed : List String} {source : String}
    (distinct : Fingerprint.Distinguishes (source :: changed)) (stamp : String) :
    stampFor changed stamp (Fingerprint.ofText source) = stampOf changed stamp source := by
  have same : (changed.map Fingerprint.ofText).contains (Fingerprint.ofText source) = true ↔
      source ∈ changed := by
    rw [List.contains_iff_mem, List.mem_map]
    constructor
    · rintro ⟨other, among, equal⟩
      exact distinct other (by simp [among]) source (by simp) equal ▸ among
    · intro among
      exact ⟨source, among, rfl⟩
  rw [stampFor, stampOf]
  exact if_congr same rfl rfl

/-- A text with tokens in its slots and no other placeholders is filled by putting the stamps of the
sources into the slots. -/
theorem fillWith_stamps {gaps : List (List Char)} {changed sources : List String}
    {rest : List Char} (h : gaps.length = sources.length)
    (only : occurrences (weave gaps (sources.map (slot token)) rest) = sources.length)
    (distinct : Fingerprint.Distinguishes (sources ++ changed)) (stamp : String) :
    fillWith (stampFor changed stamp) (weave gaps (sources.map (slot token)) rest) =
      weave gaps (sources.map (slot (stampOf changed stamp))) rest := by
  rw [fillWith_slots h only]
  refine congrArg (weave gaps · rest) (List.map_congr_left fun s listed => ?_)
  have among : ∀ t ∈ s :: changed, t ∈ sources ++ changed :=
    List.forall_mem_cons.mpr
      ⟨List.mem_append_left _ listed, fun t ht => List.mem_append_right _ ht⟩
  rw [slot, slot, stampFor_ofText (distinct.subset among)]

end Placeholder

/-- The text that is written for values is woven from gaps that do not depend on them, and from a
slot for each of the sources. -/
def Slotted (sources : List String) (text : (String → List Char) → List Char) : Prop :=
  ∃ gaps rest, gaps.length = sources.length ∧ ∀ value, text value =
    weave gaps (sources.map (slot fun s => (value s).flatMap Json.escape)) rest

namespace Slotted

theorem const (cs : List Char) : Slotted [] fun _ => cs := ⟨[], cs, rfl, fun _ => rfl⟩

variable {ss ss' : List String} {a b : (String → List Char) → List Char}

theorem append (ha : Slotted ss a) (hb : Slotted ss' b) :
    Slotted (ss ++ ss') fun value => a value ++ b value := by
  obtain ⟨gaps, rest, length, first⟩ := ha
  obtain ⟨gaps', rest', length', second⟩ := hb
  cases ss' with
  | nil =>
      obtain rfl := List.length_eq_zero_iff.mp length'
      refine ⟨gaps, rest ++ rest', by simp [length], fun value => ?_⟩
      simp only [first, second, weave_append, List.append_nil, weave]
  | cons s ss' =>
      cases gaps' with
      | nil => simp at length'
      | cons gap gaps' =>
          refine ⟨gaps ++ (rest ++ gap) :: gaps', rest', ?_, fun value => ?_⟩
          · rw [List.length_append, List.length_cons, List.length_append, ← length']
            simp [length]
          · simp only [first, second, weave_append, List.map_cons, List.map_append]
            exact weave_weave (by simp [length]) _ _ _ _ _ _

theorem before (cs : List Char) (h : Slotted ss a) : Slotted ss fun value => cs ++ a value :=
  (const cs).append h

theorem behind (h : Slotted ss a) (cs : List Char) : Slotted ss fun value => a value ++ cs := by
  have whole := h.append (const cs)
  rwa [List.append_nil] at whole

/-- Texts one below the other. -/
theorem lines {α : Type} {sources : α → List String} {text : (String → List Char) → α → String}
    (items : List α) (each : ∀ i ∈ items, Slotted (sources i) fun value => (text value i).toList) :
    Slotted (items.flatMap sources) fun value =>
      (String.intercalate "\n" (items.map (text value))).toList := by
  induction items with
  | nil => exact const []
  | cons i items ih =>
      have first := each i (by simp)
      cases items with
      | nil => simpa using first
      | cons j items =>
          have others := ih fun k hk => each k (by simp [hk])
          have whole := (first.behind "\n".toList).append others
          simpa only [List.flatMap_cons, List.map_cons, String.intercalate_cons_cons,
            String.toList_append, List.append_assoc] using whole

end Slotted

/-- What the statements that bind the given bindings say before the source. -/
def importHeads (bindings : List Binding) : List String :=
  let items := namedItems bindings
  let defaults := (defaultNames bindings).map ("import " ++ ·)
  let namespaces := (namespaceNames bindings).map ("import * as " ++ ·)
  if items.isEmpty then defaults ++ namespaces
  else
    ("import " ++ (match (defaultNames bindings).head? with
      | some name => name ++ ", "
      | none => "") ++ inBraces items) :: defaults.tail ++ namespaces

/-- The source stands at the end of each statement. -/
theorem importStatements_eq (source : String) (bindings : List Binding) :
    importStatements source bindings =
      (importHeads bindings).map fun head => head ++ " from " ++ Json.quote source ++ ";" := by
  unfold importStatements importHeads
  dsimp only
  split
  · rw [List.map_append, List.map_map, List.map_map]
    rfl
  · rw [List.map_append, List.map_cons, ← List.map_tail, List.map_map, List.map_map]
    rfl

namespace Plan

variable (p : Plan) (parameter : String)

/-- A source path with a value for the parameter. -/
def stampedUrl (value : String → List Char) (source : String) : String :=
  String.ofList (Specifier.withParameter source.toList parameter.toList (value source))

/-- What stands in the place of an import declaration, with the given values for the parameter. -/
def stampedReplacement (value : String → List Char) (e : ImportEdit) : String :=
  String.intercalate "\n" ((p.fixedBy e).toList ++ ((p.openedBy e).map fun g =>
    renderImport (stampedUrl parameter value g.source) g.bindings).toList)

/-- The code of a component, written with the given values for the parameter instead of tokens. -/
def stampedSource (value : String → List Char) : String :=
  String.ofList
    (splice (fun e => (p.stampedReplacement parameter value e).toList) 0 p.source.toList p.edits)

/-- The code of a component is written with tokens. -/
theorem stampedSource_token :
    p.stampedSource parameter Placeholder.token = p.patchedSource parameter := rfl

/-- The sources of the import statements that stand for a group. -/
def groupSources (g : ImportGroup) : List String :=
  (importStatements g.source g.bindings).map fun _ => g.source

/-- The sources of the redirected import statements, in order. -/
def redirected : List String :=
  p.edits.flatMap fun e => (p.openedBy e).toList.flatMap groupSources

/-- A redirected source is the source of a group. -/
theorem mem_sources_of_redirected {p : Plan} {source : String} (h : source ∈ p.redirected) :
    source ∈ p.groups.map ImportGroup.source := by
  obtain ⟨e, _, inside⟩ := List.mem_flatMap.mp h
  obtain ⟨g, opened, statement⟩ := List.mem_flatMap.mp inside
  obtain ⟨_, _, rfl⟩ := List.mem_map.mp statement
  rw [Option.mem_toList, openedBy] at opened
  obtain ⟨i, _, found⟩ := Option.bind_eq_some_iff.mp opened
  exact List.mem_map_of_mem (List.mem_of_getElem? found)

/-- A quoted source ends in its slot. -/
theorem slotted_quote (source : String) :
    Slotted [source] fun value => (Json.quote (stampedUrl parameter value source)).toList := by
  refine ⟨['"' :: (source.toList ++ (if source.toList.contains '?' then '&' else '?') ::
    parameter.toList).flatMap Json.escape], [], rfl, fun value => ?_⟩
  have equals : Json.escape '=' = ['='] := by decide
  dsimp only
  rw [Json.quote, String.toList_ofList, Json.quoteChars, stampedUrl, String.toList_ofList,
    Specifier.withParameter, List.flatMap_append, List.flatMap_cons, equals]
  simp [weave, slot]

theorem slotted_import (g : ImportGroup) :
    Slotted (groupSources g) fun value =>
      (renderImport (stampedUrl parameter value g.source) g.bindings).toList := by
  have statement (head : String) : Slotted [g.source] fun value =>
      (head ++ " from " ++ Json.quote (stampedUrl parameter value g.source) ++ ";").toList := by
    simp only [String.toList_append]
    exact ((slotted_quote parameter g.source).before _).behind _
  have whole := Slotted.lines (importHeads g.bindings) fun head _ => statement head
  have sources : (importHeads g.bindings).flatMap (fun _ => [g.source]) = groupSources g := by
    rw [groupSources, importStatements_eq, List.map_map]
    exact List.map_eq_flatMap.symm
  rw [sources] at whole
  simpa only [renderImport, importStatements_eq] using whole

theorem slotted_replacement (e : ImportEdit) :
    Slotted ((p.openedBy e).toList.flatMap groupSources) fun value =>
      (p.stampedReplacement parameter value e).toList := by
  unfold stampedReplacement
  cases p.openedBy e with
  | none =>
      simp only [Option.map_none, Option.toList_none, List.append_nil]
      exact Slotted.const _
  | some g =>
      have group := slotted_import parameter g
      cases p.fixedBy e with
      | none => simpa using group
      | some text => simpa using group.before (text.toList ++ "\n".toList)

theorem slotted_splice {sources : ImportEdit → List String}
    {replace : (String → List Char) → ImportEdit → List Char}
    (each : ∀ e, Slotted (sources e) fun value => replace value e) (edits : List ImportEdit)
    (offset : Nat) (text : List Char) :
    Slotted (edits.flatMap sources) fun value => splice (replace value) offset text edits := by
  induction edits generalizing offset text with
  | nil => exact Slotted.const text
  | cons e edits ih => exact ((each e).before _).append (ih _ _)

/-- The code of a component is woven from gaps and from a slot for each redirected import. -/
theorem slotted_stampedSource :
    Slotted p.redirected fun value => (p.stampedSource parameter value).toList := by
  simp only [stampedSource, String.toList_ofList]
  exact slotted_splice (p.slotted_replacement parameter) p.edits 0 p.source.toList

/-- The code of a component is that text with tokens in its slots. -/
theorem code_slots : ∃ gaps rest, gaps.length = p.redirected.length ∧
    (p.code .componentPatchable parameter).toList =
      weave gaps (p.redirected.map (slot Placeholder.token)) rest ∧
    ∀ value, (p.stampedSource parameter value).toList =
      weave gaps (p.redirected.map (slot fun s => (value s).flatMap Json.escape)) rest := by
  obtain ⟨gaps, rest, length, written⟩ := p.slotted_stampedSource parameter
  refine ⟨gaps, rest, length, ?_, written⟩
  have tokens := written Placeholder.token
  simp only [stampedSource_token, Placeholder.escape_token] at tokens
  exact tokens

/-- The code holds a placeholder for each redirected import, so if there are no more than those,
there are no others. -/
theorem length_redirected_le : p.redirected.length ≤
    Placeholder.occurrences (p.code .componentPatchable parameter).toList := by
  obtain ⟨gaps, rest, length, text, _⟩ := p.code_slots parameter
  rw [text]
  exact Placeholder.length_le_occurrences length

/-- Filling the placeholders of a component puts stamps into its slots, and nothing else changes.
That is what the writer would have written with stamps for tokens exactly if quoting keeps the
stamp, or no redirected source changed.  If the stamp holds no placeholder, none is left. -/
theorem fill_code (changed : List String) (stamp : String)
    (only : Placeholder.occurrences (p.code .componentPatchable parameter).toList =
      p.redirected.length)
    (distinct : Fingerprint.Distinguishes (p.groups.map ImportGroup.source ++ changed)) :
    (∃ gaps rest, gaps.length = p.redirected.length ∧
      (p.code .componentPatchable parameter).toList =
        weave gaps (p.redirected.map (slot Placeholder.token)) rest ∧
      (Placeholder.fill (p.code .componentPatchable parameter) changed stamp).toList =
        weave gaps (p.redirected.map (slot (Placeholder.stampOf changed stamp))) rest) ∧
    (Placeholder.fill (p.code .componentPatchable parameter) changed stamp =
        p.stampedSource parameter (Placeholder.stampOf changed stamp) ↔
      Json.quote stamp = "\"" ++ stamp ++ "\"" ∨ ∀ s ∈ p.redirected, s ∉ changed) ∧
    (Placeholder.occurrences stamp.toList = 0 → Placeholder.occurrences
      (Placeholder.fill (p.code .componentPatchable parameter) changed stamp).toList = 0) := by
  obtain ⟨gaps, rest, length, text, written⟩ := p.code_slots parameter
  rw [text] at only
  have apart : Fingerprint.Distinguishes (p.redirected ++ changed) := by
    refine distinct.subset fun s listed => ?_
    rcases List.mem_append.mp listed with redirected | among
    · exact List.mem_append_left _ (mem_sources_of_redirected redirected)
    · exact List.mem_append_right _ among
  have filled : (Placeholder.fill (p.code .componentPatchable parameter) changed stamp).toList =
      weave gaps (p.redirected.map (slot (Placeholder.stampOf changed stamp))) rest := by
    rw [Placeholder.fill, String.toList_ofList, text,
      Placeholder.fillWith_stamps length only apart]
  refine ⟨⟨gaps, rest, length, text, filled⟩, ?_, ?_⟩
  · rw [← String.toList_inj, filled, written, weave_escaped_iff length, Json.quote_eq_iff]
    exact Placeholder.escape_stampOf_iff
  · intro clear
    rw [filled]
    exact Placeholder.occurrences_slots length only fun s _ =>
      Placeholder.occurrences_stampOf clear changed s

/-- A component with two redirected sources, of which one changed. -/
theorem fill_code_two_sources :
    ∃ m, Module.parse "card.js" "import f from './f';import g from './g?x';defineComponent(f)" =
        .ok m ∧
      let p := Plan.of m {}
      let code := p.code .componentPatchable "hmr"
      Strategy.ofPlan p = .componentPatchable ∧
        Placeholder.occurrences code.toList = p.redirected.length ∧
        Fingerprint.Distinguishes (p.groups.map ImportGroup.source ++ ["./f"]) ∧
        Placeholder.fill code ["./f"] "1700" =
          p.stampedSource "hmr" (Placeholder.stampOf ["./f"] "1700") ∧
        Placeholder.occurrences (Placeholder.fill code ["./f"] "1700").toList = 0 := by
  have parsed : Module.parse "card.js"
      "import f from './f';import g from './g?x';defineComponent(f)" =
      .ok ⟨"card.js", "import f from './f';import g from './g?x';defineComponent(f)",
        [⟨0, 20, .importing ⟨"./f", [⟨"f", .defaultExport⟩], .evaluation, false⟩⟩,
          ⟨20, 42, .importing ⟨"./g?x", [⟨"g", .defaultExport⟩], .evaluation, false⟩⟩,
          ⟨42, 60, .other⟩]⟩ := by
    decide +kernel
  refine ⟨_, parsed, ?_⟩
  intro p code
  have strategy : Strategy.ofPlan p = .componentPatchable := by decide +kernel
  have only : Placeholder.occurrences code.toList = p.redirected.length := by
    have text : code.toList =
        splice (fun e => (p.replacement "hmr" e).toList) 0 p.source.toList p.edits :=
      String.toList_ofList
    rw [text]
    decide +kernel
  have distinct : Fingerprint.Distinguishes (p.groups.map ImportGroup.source ++ ["./f"]) := by
    decide +kernel
  obtain ⟨_, same, clear⟩ := fill_code p "hmr" ["./f"] "1700" only distinct
  exact ⟨strategy, only, distinct, same.mpr (.inl (by decide +kernel)), clear (by decide +kernel)⟩

/-- A stamp that quoting would escape goes into the source of the import as it stands. -/
theorem fill_code_of_mark :
    ∃ m, Module.parse "card.js" "import f from './f';defineComponent(f)" = .ok m ∧
      let p := Plan.of m {}
      let code := p.code .componentPatchable "hmr"
      Strategy.ofPlan p = .componentPatchable ∧
        Placeholder.occurrences code.toList = p.redirected.length ∧
        Fingerprint.Distinguishes (p.groups.map ImportGroup.source ++ ["./f"]) ∧
        Placeholder.fill code ["./f"] "\"" =
          "import f from \"./f?hmr=\"\";defineComponent(f)" ∧
        p.stampedSource "hmr" (Placeholder.stampOf ["./f"] "\"") =
          "import f from \"./f?hmr=\\\"\";defineComponent(f)" ∧
        Placeholder.fill code ["./f"] "\"" ≠
          p.stampedSource "hmr" (Placeholder.stampOf ["./f"] "\"") := by
  have parsed : Module.parse "card.js" "import f from './f';defineComponent(f)" =
      .ok ⟨"card.js", "import f from './f';defineComponent(f)",
        [⟨0, 20, .importing ⟨"./f", [⟨"f", .defaultExport⟩], .evaluation, false⟩⟩,
          ⟨20, 38, .other⟩]⟩ := by
    decide +kernel
  refine ⟨_, parsed, ?_⟩
  decide +kernel

end Plan
end HotReload
