import HotReload.Proofs.Module.Layout

/-!
# Imports replaced in place

A component is rewritten by replacing the ranges of its import declarations.  The statements of a
module may have any ranges that lie on character boundaries and come one after the other (`Ranged`);
those of a module that has been read do (`ranged_of_parse`).

The writer walks along the source with byte offsets and looks up texts and groups by their places.
`Plan.patchedSource?` is the same walk, but fails where an offset or a place is out of range.  It
never fails, and what it gives is the source with each range of an import replaced
(`Plan.patchedSource_replaces`): by the declaration itself if nothing of it can be rebound, and
otherwise by what stays of it and, in the first declaration of a group, the import of the whole
group (`Plan.inPlace`).  Where there is no group, nothing changes.
-/

namespace HotReload

open Script Text

/-- A byte offset at which a character starts or the text ends. -/
def Boundary (text : List Char) (n : Nat) : Prop :=
  ∃ front rest, text = front ++ rest ∧ byteLength front = n

/-- Statements with ranges in a text, one after the other. -/
structure Ranged (text : List Char) (statements : List Statement) : Prop where
  bounds : ∀ s ∈ statements, s.start ≤ s.stop ∧ Boundary text s.start ∧ Boundary text s.stop
  ordered : statements.Pairwise fun s t => s.stop ≤ t.start

/-- A text, of which the byte offset is given, with ranges replaced.  What stands between the ranges
and behind them stays as it is. -/
inductive Replaces : Nat → List Char → List ((Nat × Nat) × List Char) → List Char → Prop
  | rest (offset : Nat) (text : List Char) : Replaces offset text [] text
  | range {offset start stop : Nat} {gap piece text new out : List Char}
      {ranges : List ((Nat × Nat) × List Char)} :
      start = offset + byteLength gap → stop = start + byteLength piece →
      Replaces stop text ranges out →
      Replaces offset (gap ++ piece ++ text) (((start, stop), new) :: ranges) (gap ++ new ++ out)

theorem Boundary.reaches {text : List Char} {n : Nat} (h : Boundary text n) :
    ∃ rest, Cursor.Reaches ⟨0, text⟩ ⟨n, rest⟩ := by
  obtain ⟨front, rest, whole, rfl⟩ := h
  exact ⟨rest, front, whole, (Nat.zero_add _).symm⟩

/-- Behind some part of a text, two boundaries cut what follows into three parts. -/
theorem Boundary.parts {source front text : List Char} {m n : Nat} (hm : Boundary source m)
    (hn : Boundary source n) (whole : source = front ++ text) (behind : byteLength front ≤ m)
    (le : m ≤ n) : ∃ gap piece rest, text = gap ++ piece ++ rest ∧
      m = byteLength front + byteLength gap ∧ n = m + byteLength piece := by
  obtain ⟨more, start⟩ := hm.reaches
  obtain ⟨rest, stop⟩ := hn.reaches
  have here : Cursor.Reaches ⟨0, source⟩ ⟨byteLength front, text⟩ :=
    ⟨front, whole, (Nat.zero_add _).symm⟩
  obtain ⟨gap, before, first⟩ := here.of_le start behind
  obtain ⟨piece, between, second⟩ := start.of_le stop le
  dsimp only at before between first second
  exact ⟨gap, piece, rest, by rw [before, between, List.append_assoc], first, second⟩

theorem ranged_of_laid {source : String} {c e : Cursor} {statements : List Statement}
    (hc : (Cursor.ofText source).Reaches c) (h : Laid c statements e) :
    Ranged source.toList statements ∧ ∀ s ∈ statements, c.offset ≤ s.start := by
  induction statements generalizing c with
  | nil => exact ⟨⟨by simp, .nil⟩, by simp⟩
  | cons s rest ih =>
      obtain ⟨d, d', cd, dd, start, stop, nonempty, later⟩ := h
      have hd := hc.trans cd
      obtain ⟨ranged, after⟩ := ih (hd.trans dd) later
      have boundary {f : Cursor} (hf : (Cursor.ofText source).Reaches f) :
          Boundary source.toList f.offset := by
        obtain ⟨front, text, offset⟩ := hf
        exact ⟨front, f.text, text, by rw [offset]; exact (Nat.zero_add _).symm⟩
      refine ⟨⟨fun t ht => ?_, .cons (fun t ht => stop ▸ after t ht) ranged.ordered⟩,
        fun t ht => ?_⟩
      · rcases List.mem_cons.mp ht with rfl | ht
        · exact ⟨Nat.le_of_lt nonempty, start ▸ boundary hd, stop ▸ boundary (hd.trans dd)⟩
        · exact ranged.bounds t ht
      · rcases List.mem_cons.mp ht with rfl | ht
        · exact start ▸ cd.offset_le
        · exact Nat.le_trans (cd.trans dd).offset_le (after t ht)

/-- The statements of a module that has been read have ranges in its source. -/
theorem ranged_of_parse {m : Module} {path source : String}
    (h : Module.parse path source = .ok m) : Ranged m.source.toList m.statements := by
  obtain ⟨same, e, laid⟩ := Plan.laid_of_parse h
  rw [same]
  exact (ranged_of_laid (Cursor.Reaches.refl _) laid).1

/-- Replacing every range by what stands there changes nothing. -/
theorem Replaces.eq_self {source front text out : List Char} {offset : Nat}
    {ranges : List ((Nat × Nat) × List Char)} (h : Replaces offset text ranges out)
    (whole : source = front ++ text) (place : byteLength front = offset)
    (same : ∀ r ∈ ranges, r.2 = slice r.1.1 r.1.2 source) : out = text := by
  induction h generalizing front with
  | rest offset text => rfl
  | @range offset start stop gap piece text new out ranges at_ upto _ ih =>
      have here : new = piece := by
        have text_ := same _ List.mem_cons_self
        dsimp only at text_
        rw [text_, whole, upto, at_, ← place, ← byteLength_append, ← List.append_assoc,
          ← List.append_assoc, slice_append]
      have onward : source = front ++ gap ++ piece ++ text := by
        rw [whole]
        simp only [List.append_assoc]
      have later := ih onward (by rw [byteLength_append, byteLength_append]; omega)
        fun r hr => same r (List.mem_cons_of_mem _ hr)
      rw [here, later]

namespace Text

/-- A text cut at a byte offset, if that is a boundary. -/
def cut? : Nat → List Char → Option (List Char × List Char)
  | 0, cs => some ([], cs)
  | _ + 1, [] => none
  | n + 1, c :: cs =>
    if c.utf8Size ≤ n + 1 then
      (cut? (n + 1 - c.utf8Size) cs).map fun (front, rest) => (c :: front, rest)
    else none

/-- The part of a text between two byte offsets, if they are boundaries in this order. -/
def slice? (lo hi : Nat) (text : List Char) : Option (List Char) :=
  if lo ≤ hi then (cut? hi text).bind fun (front, _) => (cut? lo front).map Prod.snd else none

theorem cut?_append (a b : List Char) : cut? (byteLength a) (a ++ b) = some (a, b) := by
  induction a with
  | nil => cases b <;> rfl
  | cons c cs ih =>
      have positive := Char.utf8Size_pos c
      obtain ⟨n, size⟩ : ∃ n, byteLength (c :: cs) = n + 1 :=
        ⟨_, (Nat.succ_pred_eq_of_pos (by rw [byteLength]; omega)).symm⟩
      have rest : n + 1 - c.utf8Size = byteLength cs := by
        rw [← size, byteLength, Nat.add_sub_cancel_left]
      have fits : c.utf8Size ≤ n + 1 := by
        rw [← size, byteLength]
        omega
      rw [size, List.cons_append, cut?, if_pos fits, rest, ih]
      rfl

theorem slice?_append (a b c : List Char) :
    slice? (byteLength a) (byteLength a + byteLength b) (a ++ b ++ c) = some b := by
  rw [slice?, if_pos (Nat.le_add_right _ _), ← byteLength_append, cut?_append, Option.bind_some]
  dsimp only
  rw [cut?_append]
  rfl

end Text

namespace Plan

/-- What stands at a place that may be given, if there is such a place. -/
def pick? {α : Type} (items : List α) : Option Nat → Option (List α)
  | none => some []
  | some place => items[place]?.map ([·])

/-- What stands in the place of an import declaration, if the places of the edit are in range. -/
def replacement? (p : Plan) (parameter : String) (e : ImportEdit) : Option String := do
  let fixed ← pick? p.passthrough e.fixed
  let opened ← pick? p.groups e.opened
  return String.intercalate "\n" (fixed ++ opened.map (groupImport parameter))

/-- The text behind a byte offset with the edits made, if all of them are in range. -/
def splice? (p : Plan) (parameter : String) (text : List Char) (offset : Nat) :
    List ImportEdit → Option (List Char)
  | [] => slice? offset (byteLength text) text
  | e :: rest => do
    let gap ← slice? offset e.start text
    let new ← p.replacement? parameter e
    let out ← p.splice? parameter text e.stop rest
    return gap ++ new.toList ++ out

/-- The source with the imports of the groups redirected in place, if all edits are in range. -/
def patchedSource? (p : Plan) (parameter : String) : Option String :=
  (p.splice? parameter p.source.toList 0 p.edits).map String.ofList

/-- An edit in range has its replacement. -/
theorem replacement?_eq {p : Plan} (parameter : String) {e : ImportEdit}
    (fixed : ∀ i, e.fixed = some i → i < p.passthrough.length)
    (opened : ∀ i, e.opened = some i → i < p.groups.length) :
    p.replacement? parameter e = some (p.replacement parameter e) := by
  have found {α : Type} {items : List α} {place : Option Nat}
      (bound : ∀ i, place = some i → i < items.length) :
      pick? items place = some (place.bind (items[·]?)).toList := by
    cases place with
    | none => rfl
    | some i =>
        have there := List.getElem?_eq_getElem (bound i rfl)
        simp [pick?, there]
  rw [replacement?, found fixed, found opened, replacement, Option.toList_map]
  rfl

/-- Edits with ranges in a text, one after the other, can be made, and replace these ranges. -/
theorem splice_replaces {p : Plan} {parameter : String} {source : List Char}
    {edits : List ImportEdit} {front text : List Char}
    (bounds : ∀ e ∈ edits, e.start ≤ e.stop ∧ Boundary source e.start ∧ Boundary source e.stop)
    (ordered : edits.Pairwise fun e f => e.stop ≤ f.start)
    (found : ∀ e ∈ edits, p.replacement? parameter e = some (p.replacement parameter e))
    (whole : source = front ++ text) (behind : ∀ e ∈ edits, byteLength front ≤ e.start) :
    let out := splice (fun e => (p.replacement parameter e).toList) (byteLength front) text edits
    p.splice? parameter source (byteLength front) edits = some out ∧
      Replaces (byteLength front) text
        (edits.map fun e => (e.range, (p.replacement parameter e).toList)) out := by
  induction edits generalizing front text with
  | nil =>
      refine ⟨?_, .rest _ text⟩
      have last := slice?_append front text []
      rw [List.append_nil, ← byteLength_append, ← whole] at last
      exact last
  | cons e edits ih =>
      obtain ⟨le, start, stop⟩ := bounds e List.mem_cons_self
      obtain ⟨gap, piece, rest, rfl, first, second⟩ :=
        start.parts stop whole (behind e List.mem_cons_self) le
      rw [List.pairwise_cons] at ordered
      have reached : byteLength (front ++ gap ++ piece) = e.stop := by
        rw [byteLength_append, byteLength_append]
        omega
      have onward : source = front ++ gap ++ piece ++ rest := by
        rw [whole]
        simp only [List.append_assoc]
      obtain ⟨made, replaced⟩ := ih (fun f hf => bounds f (List.mem_cons_of_mem e hf)) ordered.2
        (fun f hf => found f (List.mem_cons_of_mem e hf)) onward
        fun f hf => reached ▸ ordered.1 f hf
      rw [reached] at made replaced
      have between : slice? (byteLength front) e.start source = some gap := by
        rw [first, onward, List.append_assoc (front ++ gap), slice?_append]
      have spliced :=
        splice_edit (fun e => (p.replacement parameter e).toList) rest edits first second
      dsimp only
      rw [spliced]
      refine ⟨?_, .range first second replaced⟩
      rw [splice?, between, found e List.mem_cons_self, made]
      rfl

variable (m : Module) (settings : ClassifySettings) (parameter : String)

/-- The edits of a plan look at places that exist. -/
theorem replacement?_of {e : ImportEdit} (he : e ∈ (Plan.of m settings).edits) :
    (Plan.of m settings).replacement? parameter e =
      some ((Plan.of m settings).replacement parameter e) := by
  have holds := draft_holds m settings
  refine replacement?_eq parameter (fun i fixed => ?_) fun i opened => ?_
  · exact List.mem_range.mp (holds.fixed ▸ List.mem_filterMap.mpr ⟨e, he, fixed⟩)
  · exact List.mem_range.mp (holds.opened ▸ List.mem_filterMap.mpr ⟨e, he, opened⟩)

/-- What stands in the place of an import declaration that comes behind others: the declaration as
it is written if nothing of it can be rebound; otherwise the import of what stays, if there is any,
and the import of the whole group of its source, if nothing of that source could be rebound
before. -/
def inPlace (before : List (Statement × ImportDeclaration)) (s : Statement)
    (d : ImportDeclaration) : String :=
  let policy := Policy.of m settings
  if policy.rebindable d = [] then m.textOf s
  else
    String.intercalate "\n"
      ((if policy.static d = [] then [] else [renderImport d.source (policy.static d)]) ++
        if d.source ∈ policy.sources before then []
        else [groupImport parameter (policy.groupOf m.imports d.source)])

/-- The ranges of import declarations that come behind others, with what stands in their places. -/
def replacements (before : List (Statement × ImportDeclaration)) :
    List (Statement × ImportDeclaration) → List ((Nat × Nat) × List Char)
  | [] => []
  | d :: rest =>
    ((d.1.start, d.1.stop), (inPlace m settings parameter before d.1 d.2).toList) ::
      replacements (before ++ [d]) rest

theorem eq_groupOf {g : ImportGroup} (hg : g ∈ (Plan.of m settings).groups) :
    g = (Policy.of m settings).groupOf m.imports g.source := by
  have drafted : g ∈ (Draft.of (Policy.of m settings) m.textOf m.statements).groups := hg
  rw [(draft_holds m settings).groups] at drafted
  obtain ⟨source, _, rfl⟩ := List.mem_map.mp drafted
  rfl

/-- The edit of a declaration puts in its place what should stand there. -/
theorem replacement_eq_inPlace {before after : List (Statement × ImportDeclaration)}
    {s : Statement} {d : ImportDeclaration} (split_ : m.imports = before ++ (s, d) :: after) :
    ∃ e, (Plan.of m settings).edits[before.length]? = some e ∧ e.range = (s.start, s.stop) ∧
      (Plan.of m settings).replacement parameter e = inPlace m settings parameter before s d := by
  obtain ⟨xs, ys, statements, rfl, kind⟩ := declarations_split split_
  have edit := Draft.edit_of (Policy.of m settings) m.textOf xs ys kind
  rw [← statements] at edit
  refine ⟨_, edit, rfl, ?_⟩
  have fixed := fixedBy_editAfter m settings statements kind
  have sources := (Draft.holds_of (Policy.of m settings) m.textOf xs).sources
  unfold draftOf at fixed
  have closed (known : (Policy.of m settings).rebindable d = [] ∨
      d.source ∈ (Policy.of m settings).sources (declarations xs)) :
      (Plan.of m settings).openedBy (Draft.editAfter (Policy.of m settings) m.textOf
        (Draft.of (Policy.of m settings) m.textOf xs) s d) = none := by
    rw [openedBy, Draft.editAfter, sources, if_pos known]
    rfl
  rw [replacement, inPlace, fixed]
  by_cases idle : (Policy.of m settings).rebindable d = []
  · rw [closed (.inl idle), fixedText_of_idle _ idle, if_pos idle]
    simp
  · rw [fixedText_of_busy _ idle, if_neg idle]
    have kept : (if (Policy.of m settings).static d = [] then none
        else some (renderImport d.source ((Policy.of m settings).static d))).toList =
        if (Policy.of m settings).static d = [] then []
        else [renderImport d.source ((Policy.of m settings).static d)] := by
      split <;> rfl
    rw [kept]
    by_cases known : d.source ∈ (Policy.of m settings).sources (declarations xs)
    · rw [closed (.inr known), if_pos known]
      rfl
    · obtain ⟨g, opened, source⟩ := openedBy_editAfter m settings statements kind idle
        (by rw [draftOf, sources]; exact known)
      unfold draftOf at opened
      obtain ⟨place, _, there⟩ := Option.bind_eq_some_iff.mp opened
      rw [opened, if_neg known, ← source, ← eq_groupOf m settings (List.mem_of_getElem? there)]
      rfl

/-- The edits of a plan put in the places of the declarations what should stand there. -/
theorem map_edits_eq {before after : List (Statement × ImportDeclaration)}
    (split_ : m.imports = before ++ after) :
    ((Plan.of m settings).edits.drop before.length).map
        (fun e => (e.range, ((Plan.of m settings).replacement parameter e).toList)) =
      replacements m settings parameter before after := by
  induction after generalizing before with
  | nil =>
      rw [List.append_nil] at split_
      have none_ : (Plan.of m settings).edits.drop before.length = [] := by
        rw [List.drop_eq_nil_iff, ← split_]
        exact Nat.le_of_eq (draft_holds m settings).edits
      rw [none_]
      rfl
  | cons d after ih =>
      obtain ⟨e, found, range, text⟩ := replacement_eq_inPlace m settings parameter split_
      have later := ih (split_.trans (List.append_cons before d after))
      rw [List.length_append, List.length_singleton] at later
      rw [List.drop_eq_getElem?_toList_append, found, Option.toList_some, List.singleton_append,
        List.map_cons, range, text, later, replacements]

theorem mem_replacements {before ds : List (Statement × ImportDeclaration)}
    {r : (Nat × Nat) × List Char} (hr : r ∈ replacements m settings parameter before ds) :
    ∃ earlier, ∃ d ∈ ds, r = ((d.1.start, d.1.stop),
      (inPlace m settings parameter earlier d.1 d.2).toList) := by
  induction ds generalizing before with
  | nil => simp [replacements] at hr
  | cons d ds ih =>
      rw [replacements] at hr
      rcases List.mem_cons.mp hr with rfl | later
      · exact ⟨before, d, List.mem_cons_self, rfl⟩
      · obtain ⟨earlier, d', member, same⟩ := ih later
        exact ⟨earlier, d', List.mem_cons_of_mem d member, same⟩

/-- Where there is no group, nothing of any declaration can be rebound. -/
theorem rebindable_of_no_groups (none_ : (Plan.of m settings).groups = [])
    {d : Statement × ImportDeclaration} (hd : d ∈ m.imports) :
    (Policy.of m settings).rebindable d.2 = [] := by
  have groups := (draft_holds m settings).groups.symm.trans none_
  by_contra busy
  have listed := Policy.mem_sources.mpr ⟨d, hd, busy, rfl⟩
  exact List.ne_nil_of_mem listed (List.map_eq_nil_iff.mp groups)

theorem ranges_of : (Plan.of m settings).edits.map ImportEdit.range =
    (declarations m.statements).map fun d => (d.1.start, d.1.stop) :=
  (draft_holds m settings).ranges

section Ranged

variable {m} (ranged : Ranged m.source.toList m.statements)

include ranged

theorem bounds_of_ranged : ∀ e ∈ (Plan.of m settings).edits,
    e.start ≤ e.stop ∧ Boundary m.source.toList e.start ∧ Boundary m.source.toList e.stop := by
  intro e he
  have range := List.mem_map_of_mem (f := ImportEdit.range) he
  rw [ranges_of] at range
  obtain ⟨d, hd, same⟩ := List.mem_map.mp range
  obtain ⟨start, stop⟩ := Prod.mk.inj same
  have member : d.1 ∈ m.statements := (importing_of_mem_declarations hd).1
  rw [← start, ← stop]
  exact ranged.bounds d.1 member

theorem ordered_of_ranged :
    (Plan.of m settings).edits.Pairwise fun e f => e.stop ≤ f.start := by
  have pairs : ((Plan.of m settings).edits.map ImportEdit.range).Pairwise
      fun a b : Nat × Nat => a.2 ≤ b.1 := by
    rw [ranges_of, List.pairwise_map, declarations, List.pairwise_filterMap]
    refine ranged.ordered.imp fun {s t} le d hd d' hd' => ?_
    split at hd
    · split at hd'
      · cases hd
        cases hd'
        exact le
      · cases hd'
    · cases hd
  exact List.pairwise_map.mp pairs

/-- The code for a component is its source with the range of each import declaration replaced, and
nothing else changed: the walk along the source never leaves it.  Where no group can be rebound, the
code is the source itself. -/
theorem patchedSource_replaces :
    (Plan.of m settings).patchedSource? parameter =
        some ((Plan.of m settings).code .componentPatchable parameter) ∧
      Replaces 0 m.source.toList (replacements m settings parameter [] m.imports)
        ((Plan.of m settings).code .componentPatchable parameter).toList ∧
      ((Plan.of m settings).groups = [] →
        (Plan.of m settings).code .componentPatchable parameter = m.source ∧
          (Plan.of m settings).code .componentStatic parameter = m.source) := by
  obtain ⟨made, replaced⟩ := splice_replaces (bounds_of_ranged settings ranged)
    (ordered_of_ranged settings ranged) (fun e he => replacement?_of m settings parameter he)
    (List.nil_append m.source.toList).symm fun e _ => Nat.zero_le _
  have edits := map_edits_eq m settings parameter (List.nil_append m.imports).symm
  rw [List.length_nil, List.drop_zero] at edits
  rw [edits] at replaced
  have text : ((Plan.of m settings).code .componentPatchable parameter).toList = _ :=
    String.toList_ofList
  refine ⟨?_, text ▸ replaced, fun none_ => ⟨?_, rfl⟩⟩
  · rw [patchedSource?]
    exact congrArg (Option.map String.ofList) made
  · rw [← String.toList_inj, text]
    refine replaced.eq_self (List.nil_append m.source.toList).symm rfl fun r hr => ?_
    obtain ⟨earlier, d, hd, rfl⟩ := mem_replacements m settings parameter hr
    dsimp only
    rw [inPlace, if_pos (rebindable_of_no_groups m settings none_ hd), Module.textOf,
      String.toList_ofList]

end Ranged

/-- A component with two declarations of one source, a comment between them, and a name that is
looked up: the first declaration keeps the import of that name and takes the group, the second one
leaves nothing. -/
theorem patchedSource_replaces_comment :
    ∃ m, Module.parse "é.js"
        ("import é, { b } from './ü.js';/* ü */import { c } from './ü.js';\n" ++
        "defineComponent(resolveComponent('b'), é, c)") = .ok m ∧
      Ranged m.source.toList m.statements ∧
      ((Plan.of m {}).patchedSource? "v" = some ((Plan.of m {}).code .componentPatchable "v") ∧
        Replaces 0 m.source.toList (replacements m {} "v" [] m.imports)
          ((Plan.of m {}).code .componentPatchable "v").toList ∧
        ((Plan.of m {}).groups = [] → (Plan.of m {}).code .componentPatchable "v" = m.source ∧
          (Plan.of m {}).code .componentStatic "v" = m.source)) ∧
      (Plan.of m {}).code .componentPatchable "v" =
        "import { b } from \"./ü.js\";\nimport é, { c } from \"./ü.js?v=__relive_d3bb062b__\";" ++
          "/* ü */\ndefineComponent(resolveComponent('b'), é, c)" := by
  have parsed : Module.parse "é.js"
      ("import é, { b } from './ü.js';/* ü */import { c } from './ü.js';\n" ++
        "defineComponent(resolveComponent('b'), é, c)") =
      .ok ⟨"é.js", "import é, { b } from './ü.js';/* ü */import { c } from './ü.js';\n" ++
        "defineComponent(resolveComponent('b'), é, c)",
        [⟨0, 32, .importing ⟨"./ü.js", [⟨"é", .defaultExport⟩, ⟨"b", .named "b"⟩], .evaluation,
          false⟩⟩, ⟨40, 68, .importing ⟨"./ü.js", [⟨"c", .named "c"⟩], .evaluation, false⟩⟩,
          ⟨69, 114, .other⟩]⟩ := by
    decide +kernel
  have ranged := ranged_of_parse parsed
  exact ⟨_, parsed, ranged, patchedSource_replaces {} "v" ranged, by decide +kernel⟩

end Plan
end HotReload
