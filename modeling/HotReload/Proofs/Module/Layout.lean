import HotReload.Module.Code
import HotReload.Proofs.Module.Partition
import HotReload.Proofs.Script.Readers

/-!
# Where the statements of a module stand in its code

The code for a module keeps the text of every statement that is no import, exactly once.  A
component is copied around its imports; another module is written anew, statement kind by statement
kind; and the writer that drops exports and groups is chosen only if there are none.  An import
declaration of which nothing can be rebound is kept as well, and such declarations keep their order.

The copying relies on where the statements stand in the source (`Program.parse_laid`): the source is
woven from gaps and statements (`weave`), and so is the code of a component, with the same gaps.
-/

namespace HotReload

open Script Text

/-- Pieces between gaps, and what follows the last one. -/
def weave : List (List Char) → List (List Char) → List Char → List Char
  | gap :: gaps, piece :: pieces, rest => gap ++ piece ++ weave gaps pieces rest
  | _, _, rest => rest

/-- Texts that occur in another one, each behind the one before it. -/
def InOrder : List (List Char) → List Char → Prop
  | [], _ => True
  | t :: ts, cs => ∃ front rest, cs = front ++ t ++ rest ∧ InOrder ts rest

theorem InOrder.behind {ts : List (List Char)} {cs : List Char} (front : List Char)
    (h : InOrder ts cs) : InOrder ts (front ++ cs) := by
  cases ts with
  | nil => trivial
  | cons t ts =>
      obtain ⟨before, rest, rfl, later⟩ := h
      exact ⟨front ++ before, rest, by simp only [List.append_assoc], later⟩

theorem InOrder.sublist {ts ts' : List (List Char)} {cs : List Char} (h : InOrder ts cs)
    (hs : ts'.Sublist ts) : InOrder ts' cs := by
  induction hs generalizing cs with
  | slnil => exact h
  | cons t _ ih =>
      obtain ⟨front, rest, rfl, later⟩ := h
      exact (ih later).behind (front ++ t)
  | cons_cons t _ ih =>
      obtain ⟨front, rest, rfl, later⟩ := h
      exact ⟨front, rest, rfl, ih later⟩

theorem InOrder.weave {gaps : List (List Char)} (pieces : List (List Char))
    (h : gaps.length = pieces.length) (rest : List Char) :
    InOrder pieces (weave gaps pieces rest) := by
  induction pieces generalizing gaps with
  | nil => trivial
  | cons piece pieces ih =>
      cases gaps with
      | nil => simp at h
      | cons gap gaps => exact ⟨gap, _, rfl, ih (by simpa using h)⟩

theorem InOrder.intercalate (parts : List String) (rest : List Char) :
    InOrder (parts.map String.toList) ((String.intercalate "\n" parts).toList ++ rest) := by
  induction parts with
  | nil => trivial
  | cons part parts ih =>
      cases parts with
      | nil => exact ⟨[], rest, by simp, trivial⟩
      | cons next parts =>
          rw [String.intercalate_cons_cons, String.toList_append, String.toList_append]
          refine ⟨[], "\n".toList ++ ((String.intercalate "\n" (next :: parts)).toList ++ rest),
            ?_, ?_⟩
          · simp only [List.append_assoc, List.nil_append]
          · exact ih.behind _

theorem InOrder.lines (parts : List String) (rest : List Char) :
    InOrder (parts.map String.toList) ((String.join (parts.map (· ++ "\n"))).toList ++ rest) := by
  induction parts with
  | nil => trivial
  | cons part parts ih =>
      simp only [List.map_cons, String.join_cons, String.toList_append]
      refine ⟨[], "\n".toList ++ ((String.join (parts.map (· ++ "\n"))).toList ++ rest), ?_, ?_⟩
      · simp only [List.append_assoc, List.nil_append]
      · exact ih.behind _

/-- A list of parts may be joined before it becomes a part itself. -/
theorem intercalate_joined (xs ys zs : List String) (hy : ys ≠ []) :
    String.intercalate "\n" (xs ++ String.intercalate "\n" ys :: zs) =
      String.intercalate "\n" (xs ++ ys ++ zs) := by
  induction xs with
  | nil =>
      cases zs with
      | nil => simp
      | cons z zs =>
          rw [List.nil_append, List.nil_append, String.intercalate_cons_of_ne_nil (by simp),
            String.intercalate_append_of_ne_nil hy (by simp)]
  | cons x xs ih =>
      rw [List.cons_append, List.cons_append, List.cons_append,
        String.intercalate_cons_of_ne_nil (by simp), ih,
        String.intercalate_cons_of_ne_nil (by simp [hy])]

theorem isEmpty_intercalate {part : String} (parts : List String) (h : part ≠ "") :
    (String.intercalate "\n" (part :: parts)).isEmpty = false := by
  rw [← Bool.not_eq_true, String.isEmpty_iff]
  intro nothing
  cases parts with
  | nil => exact h (by simpa using nothing)
  | cons next parts =>
      rw [String.intercalate_cons_cons, String.append_assoc, String.append_eq_empty_iff] at nothing
      exact h nothing.1

/-- Parts joined by line ends, with one more at the end, are lines. -/
theorem intercalate_append_newline {parts : List String} (h : parts ≠ []) :
    String.intercalate "\n" parts ++ "\n" = String.join (parts.map (· ++ "\n")) := by
  induction parts with
  | nil => exact absurd rfl h
  | cons part parts ih =>
      cases parts with
      | nil => simp
      | cons next parts =>
          rw [String.intercalate_cons_cons, String.append_assoc, ih (by simp)]
          simp only [List.map_cons, String.join_cons]

/-- The text between two places of a source. -/
theorem slice_of_reaches {source : String} {d e : Cursor} {piece : List Char}
    (hd : (Cursor.ofText source).Reaches d) (text : d.text = piece ++ e.text)
    (offset : e.offset = d.offset + byteLength piece) :
    slice d.offset e.offset source.toList = piece := by
  obtain ⟨front, whole, start⟩ := hd
  change source.toList = front ++ d.text at whole
  rw [show (Cursor.ofText source).offset = 0 from rfl, Nat.zero_add] at start
  rw [whole, text, offset, start, ← List.append_assoc, slice_append]

/-- What stands in the place of each statement after the imports have been replaced, edit by
edit. -/
def edited (replace : ImportEdit → List Char) (textOf : Statement → List Char) :
    List Statement → List ImportEdit → List (List Char)
  | [], _ => []
  | s :: rest, edits =>
    match s.kind, edits with
    | .importing _, e :: more => replace e :: edited replace textOf rest more
    | _, edits => textOf s :: edited replace textOf rest edits

section Edited

variable (replace : ImportEdit → List Char) (textOf : Statement → List Char) {s : Statement}
  (rest : List Statement) (edits : List ImportEdit)

theorem edited_importing {d : ImportDeclaration} (h : s.kind = .importing d) (e : ImportEdit) :
    edited replace textOf (s :: rest) (e :: edits) =
      replace e :: edited replace textOf rest edits := by
  simp [edited, h]

theorem edited_of_ne (h : ∀ d, s.kind ≠ .importing d) :
    edited replace textOf (s :: rest) edits = textOf s :: edited replace textOf rest edits := by
  cases kind : s.kind with
  | importing d => exact absurd kind (h d)
  | exporting => simp [edited, kind]
  | other => simp [edited, kind]

end Edited

theorem length_edited (replace : ImportEdit → List Char) (textOf : Statement → List Char)
    (statements : List Statement) (edits : List ImportEdit) :
    (edited replace textOf statements edits).length = statements.length := by
  induction statements generalizing edits with
  | nil => rfl
  | cons s rest ih =>
      unfold edited
      split
      · rw [List.length_cons, ih, List.length_cons]
      · rw [List.length_cons, ih, List.length_cons]

theorem declarations_cons_importing {s : Statement} {d : ImportDeclaration}
    (h : s.kind = .importing d) (rest : List Statement) :
    declarations (s :: rest) = (s, d) :: declarations rest := by
  simp [declarations, h]

theorem declarations_cons_of_ne {s : Statement} (h : ∀ d, s.kind ≠ .importing d)
    (rest : List Statement) : declarations (s :: rest) = declarations rest := by
  cases kind : s.kind with
  | importing d => exact absurd kind (h d)
  | exporting => simp [declarations, kind]
  | other => simp [declarations, kind]

/-- The texts of the import declarations are among those of the statements, in order. -/
theorem declarations_sublist (textOf : Statement → List Char) (statements : List Statement) :
    ((declarations statements).map fun d => textOf d.1).Sublist (statements.map textOf) := by
  induction statements with
  | nil => exact List.Sublist.refl _
  | cons s rest ih =>
      by_cases importing : ∃ decl, s.kind = .importing decl
      · obtain ⟨decl, kind⟩ := importing
        rw [declarations_cons_importing kind]
        exact ih.cons_cons _
      · rw [declarations_cons_of_ne fun decl kind => importing ⟨decl, kind⟩]
        exact ih.cons _

/-- An edit replaces the piece that stands in its range. -/
theorem splice_edit (replace : ImportEdit → List Char) {offset : Nat} {front piece : List Char}
    (rest : List Char) {e : ImportEdit} (edits : List ImportEdit)
    (start : e.start = offset + byteLength front) (stop : e.stop = e.start + byteLength piece) :
    Plan.splice replace offset (front ++ piece ++ rest) (e :: edits) =
      front ++ replace e ++ Plan.splice replace e.stop rest edits := by
  have cut : e.start - offset = byteLength front := by omega
  have cut' : e.stop - offset = byteLength (front ++ piece) := by
    rw [byteLength_append]
    omega
  rw [Plan.splice, cut, cut', dropBytes_byteLength_append, List.append_assoc front,
    takeBytes_byteLength_append]

/-- A source is woven from its statements, and replacing the ranges of the edits gives the same gaps
between what stands in their places. -/
theorem splice_laid {source : String} {c e : Cursor} {statements : List Statement}
    (replace : ImportEdit → List Char) (hc : (Cursor.ofText source).Reaches c)
    (h : Laid c statements e) {edits : List ImportEdit}
    (ranges : edits.map ImportEdit.range =
      (declarations statements).map fun d => (d.1.start, d.1.stop)) :
    ∃ gaps rest, gaps.length = statements.length ∧
      c.text = weave gaps (statements.map fun s => slice s.start s.stop source.toList) rest ∧
      ∀ offset taken, c.offset = offset + byteLength taken →
        Plan.splice replace offset (taken ++ c.text) edits = taken ++ weave gaps
          (edited replace (fun s => slice s.start s.stop source.toList) statements edits) rest := by
  induction statements generalizing c edits with
  | nil =>
      have none : edits = [] := by simpa [declarations] using ranges
      subst none
      exact ⟨[], c.text, rfl, rfl, fun offset taken _ => rfl⟩
  | cons s statements ih =>
      obtain ⟨d, d', ⟨gap, gapText, gapStop⟩, ⟨piece, pieceText, pieceStop⟩, start, stop, _,
        later⟩ := h
      have hd : (Cursor.ofText source).Reaches d := hc.trans ⟨gap, gapText, gapStop⟩
      have hd' : (Cursor.ofText source).Reaches d' := hd.trans ⟨piece, pieceText, pieceStop⟩
      have here := slice_of_reaches hd pieceText pieceStop
      rw [start, stop] at here
      by_cases importing : ∃ decl, s.kind = .importing decl
      · obtain ⟨decl, kind⟩ := importing
        rw [declarations_cons_importing kind, List.map_cons] at ranges
        cases edits with
        | nil => simp at ranges
        | cons edit edits =>
            rw [List.map_cons, List.cons.injEq] at ranges
            obtain ⟨gaps, rest, length, text, spliced⟩ := ih hd' later ranges.2
            have range := ranges.1
            simp only [ImportEdit.range, Prod.mk.injEq] at range
            refine ⟨gap :: gaps, rest, by simp [length], ?_, fun offset taken place => ?_⟩
            · rw [List.map_cons, weave, here, gapText, pieceText, text, List.append_assoc]
            · have again := spliced d'.offset [] rfl
              rw [List.nil_append, List.nil_append, stop, ← range.2] at again
              rw [gapText, pieceText, ← List.append_assoc, ← List.append_assoc,
                splice_edit replace d'.text edits (by rw [byteLength_append]; omega) (by omega),
                again, edited_importing _ _ _ _ kind, weave]
              simp only [List.append_assoc]
      · have other : ∀ decl, s.kind ≠ .importing decl := fun decl kind => importing ⟨decl, kind⟩
        rw [declarations_cons_of_ne other] at ranges
        obtain ⟨gaps, rest, length, text, spliced⟩ := ih hd' later ranges
        refine ⟨gap :: gaps, rest, by simp [length], ?_, fun offset taken place => ?_⟩
        · rw [List.map_cons, weave, here, gapText, pieceText, text, List.append_assoc]
        · have longer := spliced offset (taken ++ gap ++ piece) (by
            rw [byteLength_append, byteLength_append]
            omega)
          rw [edited_of_ne _ _ _ _ other, weave, here, gapText, pieceText]
          simpa only [List.append_assoc] using longer

theorem Script.Laid.text_ne_nil {source : String} {c e : Cursor} {statements : List Statement}
    (hc : (Cursor.ofText source).Reaches c) (h : Laid c statements e) {s : Statement}
    (hs : s ∈ statements) : slice s.start s.stop source.toList ≠ [] := by
  induction statements generalizing c with
  | nil => simp at hs
  | cons first rest ih =>
      obtain ⟨d, d', cd, ⟨piece, text, offset⟩, start, stop, nonempty, later⟩ := h
      have hd : (Cursor.ofText source).Reaches d := hc.trans cd
      rcases List.mem_cons.mp hs with rfl | there
      · rw [← start, ← stop, slice_of_reaches hd text offset]
        rintro rfl
        rw [byteLength] at offset
        omega
      · exact ih (hd.trans ⟨piece, text, offset⟩) later there

theorem map_filter_sublist_filterMap {α β : Type} {p : α → Bool} {f : α → β} {g : α → Option β}
    (h : ∀ a, p a → g a = some (f a)) (as : List α) :
    ((as.filter p).map f).Sublist (as.filterMap g) := by
  induction as with
  | nil => exact List.Sublist.refl _
  | cons a as ih =>
      cases hp : p a with
      | true =>
          rw [List.filter_cons_of_pos hp, List.map_cons, List.filterMap_cons_some (h a hp)]
          exact ih.cons_cons _
      | false =>
          rw [List.filter_cons_of_neg (by simp [hp])]
          cases hg : g a with
          | none =>
              rw [List.filterMap_cons_none hg]
              exact ih
          | some b =>
              rw [List.filterMap_cons_some hg]
              exact ih.cons b

namespace Plan

variable (m : Module) (settings : ClassifySettings)

theorem draft_holds : Draft.Holds (Policy.of m settings) m.textOf m.statements
    (Draft.of (Policy.of m settings) m.textOf m.statements) := Draft.holds_of _ _ _

theorem passthrough_of : (Plan.of m settings).passthrough =
    m.imports.filterMap fun d => fixedText (Policy.of m settings) (m.textOf d.1) d.2 :=
  (draft_holds m settings).passthrough

theorem exports_of : (Plan.of m settings).exports = m.exports.map m.textOf :=
  (draft_holds m settings).exports

theorem body_of : (Plan.of m settings).body = String.intercalate "\n" (m.others.map m.textOf) :=
  congrArg (String.intercalate "\n") (draft_holds m settings).others

/-- The declarations of which nothing can be rebound. -/
def idleImports : List (Statement × ImportDeclaration) :=
  m.imports.filter fun d => ((Policy.of m settings).rebindable d.2).isEmpty

/-- They are among the imports that stay, in order. -/
theorem idleImports_sublist :
    ((idleImports m settings).map fun d => m.textOf d.1).Sublist
      (Plan.of m settings).passthrough := by
  rw [passthrough_of]
  refine map_filter_sublist_filterMap (fun d idle => ?_) m.imports
  exact fixedText_of_idle _ (List.isEmpty_iff.mp idle)

/-- Where nothing can be rebound, there is no group. -/
theorem groups_of_idle (h : ∀ d ∈ m.imports, (Policy.of m settings).rebindable d.2 = []) :
    (Plan.of m settings).groups = [] := by
  have groups := (draft_holds m settings).groups
  have none : (Policy.of m settings).sources m.imports = [] := by
    refine List.eq_nil_iff_forall_not_mem.mpr fun source listed => ?_
    obtain ⟨d, hd, busy, _⟩ := Policy.mem_sources.mp listed
    exact busy (h d hd)
  exact groups.trans (by rw [← Module.imports_eq, none, List.map_nil])

/-- Where nothing can be rebound, all imports stay. -/
theorem passthrough_of_idle (h : ∀ d ∈ m.imports, (Policy.of m settings).rebindable d.2 = []) :
    (Plan.of m settings).passthrough = m.imports.map fun d => m.textOf d.1 := by
  rw [passthrough_of, ← List.filterMap_eq_map]
  exact List.filterMap_congr fun d hd => fixedText_of_idle _ (h d hd)

/-- Nothing of an entry point or a core module can be rebound. -/
theorem rebindable_of_forcesStatic (h : (m.flags settings).forcesStatic) (d : ImportDeclaration) :
    (Policy.of m settings).rebindable d = [] := by
  rw [Policy.rebindable_eq_nil]
  intro b _
  have forced : (Policy.of m settings).flags.forcesStatic = true := h
  simp [Policy.isRebindable, forced]

/-- The code of a module that is written anew, with the other statements one by one. -/
theorem reconstructed_of (hne : ∀ s ∈ m.others, m.textOf s ≠ "") :
    (Plan.of m settings).reconstructed =
      String.intercalate "\n" ((Plan.of m settings).passthrough ++ (Plan.of m settings).loading ++
        m.others.map m.textOf ++ m.exports.map m.textOf) ++ "\n" := by
  rw [reconstructed, body_of, exports_of]
  congr 1
  cases others : m.others with
  | nil => simp
  | cons s rest =>
      have first : m.textOf s ≠ "" := hne s (others ▸ List.mem_cons_self)
      have written := isEmpty_intercalate (rest.map m.textOf) first
      rw [List.map_cons, written, if_neg Bool.false_ne_true, List.append_assoc,
        List.singleton_append, intercalate_joined _ _ _ (by simp)]

/-- The code of a module that is wrapped, with the other statements one by one. -/
theorem wrapped_of (hne : ∀ s ∈ m.others, m.textOf s ≠ "") :
    (Plan.of m settings).wrapped =
      String.join ((Plan.of m settings).passthrough.map (· ++ "\n")) ++ "(async () => \x7b\n" ++
        String.join ((m.others.map m.textOf).map (· ++ "\n")) ++ "\x7d)();\n" := by
  rw [wrapped, body_of]
  cases others : m.others with
  | nil => simp
  | cons s rest =>
      have first : m.textOf s ≠ "" := hne s (others ▸ List.mem_cons_self)
      have written := isEmpty_intercalate (rest.map m.textOf) first
      rw [List.map_cons, written, if_neg Bool.false_ne_true, intercalate_append_newline (by simp)]

/-- The code that a strategy gives for a plan of a module, statement by statement. -/
def Lays (m : Module) (p : Plan) (parameter : String) (out : String) : Strategy → Prop
  | .componentStatic => out = m.source
  | .componentPatchable => ∃ gaps rest, gaps.length = m.statements.length ∧
      m.source.toList = weave gaps (m.statements.map fun s => (m.textOf s).toList) rest ∧
      out.toList = weave gaps (edited (fun e => (p.replacement parameter e).toList)
        (fun s => (m.textOf s).toList) m.statements p.edits) rest
  | .modulePatchable | .moduleFallback =>
      out = String.intercalate "\n" (p.passthrough ++ p.loading ++ m.others.map m.textOf ++
        m.exports.map m.textOf) ++ "\n"
  | .moduleStaticWrapped => m.exports = [] ∧ p.groups = [] ∧
      out = String.join (p.passthrough.map (· ++ "\n")) ++ "(async () => \x7b\n" ++
        String.join ((m.others.map m.textOf).map (· ++ "\n")) ++ "\x7d)();\n"

/-- What the code for a module keeps of it. -/
structure Keeps (m : Module) (settings : ClassifySettings) (p : Plan) (parameter : String)
    (out : String) : Prop where
  lays : Lays m p parameter out (Strategy.ofPlan p)
  /-- The variables are declared once, and every group is loaded once. -/
  loading : (p.groups = [] ∧ p.loading = []) ∨ (p.groups ≠ [] ∧
    p.loading = ("let " ++ String.intercalate ", " p.names ++ ";") ::
      p.groups.zipIdx.map fun (g, index) => initializer index g)
  /-- An import of which nothing can be rebound is there as it is written. -/
  idle : InOrder ((idleImports m settings).map fun d => (m.textOf d.1).toList) out.toList
  /-- All imports of an entry point or a core module are such imports, and there is nothing else. -/
  forced : (m.flags settings).forcesStatic → idleImports m settings = m.imports ∧
    p.groups = [] ∧ p.passthrough = m.imports.map fun d => m.textOf d.1

/-- The edit of a declaration of which nothing can be rebound puts the same text in its place. -/
theorem replacement_of_idle (parameter : String) {i : Nat} {s : Statement} {d : ImportDeclaration}
    (found : m.imports[i]? = some (s, d)) (idle : (Policy.of m settings).rebindable d = []) :
    ∃ e, (Plan.of m settings).edits[i]? = some e ∧
      (Plan.of m settings).replacement parameter e = m.textOf s := by
  obtain ⟨hi, found⟩ := List.getElem?_eq_some_iff.mp found
  have split_ : declarations m.statements =
      m.imports.take i ++ (s, d) :: m.imports.drop (i + 1) := by
    rw [← Module.imports_eq, ← found, List.getElem_cons_drop, List.take_append_drop]
  obtain ⟨xs, ys, split_, before, kind⟩ := declarations_split split_
  have edit := Draft.edit_of (Policy.of m settings) m.textOf xs ys kind
  rw [← split_, before, List.length_take_of_le (Nat.le_of_lt hi)] at edit
  refine ⟨_, edit, ?_⟩
  have fixed := fixedBy_editAfter m settings split_ kind
  rw [fixedText_of_idle _ idle] at fixed
  have closed : (Plan.of m settings).openedBy
      (Draft.editAfter (Policy.of m settings) m.textOf (draftOf m settings xs) s d) = none := by
    rw [openedBy, Draft.editAfter, if_pos (.inl idle)]
    rfl
  rw [replacement]
  change String.intercalate "\n" ((Plan.fixedBy _ (Draft.editAfter (Policy.of m settings) m.textOf
    (draftOf m settings xs) s d)).toList ++ _) = _
  rw [fixed]
  change String.intercalate "\n" (_ ++ ((Plan.openedBy _ (Draft.editAfter (Policy.of m settings)
    m.textOf (draftOf m settings xs) s d)).map _).toList) = _
  rw [closed]
  simp

/-- The declarations of which nothing can be rebound are among what stands in the places of the
statements. -/
theorem idle_sublist_edited (p : ImportDeclaration → Bool) (replace : ImportEdit → List Char)
    (textOf : Statement → List Char) {statements : List Statement} {edits : List ImportEdit}
    (length : edits.length = (declarations statements).length)
    (h : ∀ (i : Nat) s d, (declarations statements)[i]? = some (s, d) → p d →
      ∃ e, edits[i]? = some e ∧ replace e = textOf s) :
    (((declarations statements).filter fun d => p d.2).map fun d => textOf d.1).Sublist
      (edited replace textOf statements edits) := by
  induction statements generalizing edits with
  | nil => exact List.nil_sublist _
  | cons s rest ih =>
      by_cases importing : ∃ decl, s.kind = .importing decl
      · obtain ⟨decl, kind⟩ := importing
        rw [declarations_cons_importing kind] at length h ⊢
        cases edits with
        | nil => simp at length
        | cons edit edits =>
            rw [edited_importing _ _ _ _ kind]
            have later := ih (by simpa using length) fun i s d found hp => h (i + 1) s d found hp
            cases hp : p decl with
            | true =>
                obtain ⟨e, first, same⟩ := h 0 s decl rfl hp
                simp only [List.getElem?_cons_zero, Option.some.injEq] at first
                subst first
                rw [List.filter_cons_of_pos (by exact hp), List.map_cons, ← same]
                exact later.cons_cons _
            | false =>
                rw [List.filter_cons_of_neg (by simp [hp])]
                exact later.cons _
      · have other : ∀ decl, s.kind ≠ .importing decl := fun decl kind => importing ⟨decl, kind⟩
        rw [declarations_cons_of_ne other] at length h ⊢
        rw [edited_of_ne _ _ _ _ other]
        exact (ih length h).cons _

/-- Wrapping is chosen only if there is nothing that it would drop. -/
theorem select_wrapped {component groups exports entry : Bool}
    (h : Strategy.select component groups exports entry = .moduleStaticWrapped) :
    groups = false ∧ exports = false := by
  revert component groups exports entry
  decide

section Parsed

variable {m : Module} {path source : String} (h : Module.parse path source = .ok m)

include h

theorem laid_of_parse : m.source = source ∧ ∃ e, Laid (Cursor.ofText source) m.statements e := by
  obtain ⟨program, read, rfl⟩ := Module.statements_of_parse h
  exact ⟨rfl, Program.parse_laid read⟩

theorem textOf_ne_empty {s : Statement} (hs : s ∈ m.statements) : m.textOf s ≠ "" := by
  obtain ⟨same, e, laid⟩ := laid_of_parse h
  have text := laid.text_ne_nil (Cursor.Reaches.refl _) hs
  intro nothing
  rw [Module.textOf, same, String.ofList_eq_empty_iff] at nothing
  exact text nothing

/-- A module is woven from its statements, and so is what the replacement of its imports gives. -/
theorem woven_of_parse (settings : ClassifySettings) (replace : ImportEdit → List Char) :
    ∃ gaps rest, gaps.length = m.statements.length ∧
      m.source.toList = weave gaps (m.statements.map fun s => (m.textOf s).toList) rest ∧
      splice replace 0 m.source.toList (Plan.of m settings).edits = weave gaps
        (edited replace (fun s => (m.textOf s).toList) m.statements (Plan.of m settings).edits)
        rest := by
  obtain ⟨same, e, laid⟩ := laid_of_parse h
  obtain ⟨gaps, rest, length, text, spliced⟩ := splice_laid replace (Cursor.Reaches.refl _) laid
    (draft_holds m settings).ranges
  have texts : (fun s : Statement => (m.textOf s).toList) =
      fun s => slice s.start s.stop source.toList := by
    funext s
    rw [Module.textOf, same, String.toList_ofList]
  have whole := spliced 0 [] rfl
  rw [texts, same]
  exact ⟨gaps, rest, length, text, whole⟩

theorem lays_of_parse (settings : ClassifySettings) (parameter : String) (strategy : Strategy)
    (chosen : Strategy.ofPlan (Plan.of m settings) = strategy) :
    Lays m (Plan.of m settings) parameter ((Plan.of m settings).code strategy parameter)
      strategy := by
  have hne : ∀ s ∈ m.others, m.textOf s ≠ "" := fun s hs =>
    textOf_ne_empty h (List.mem_of_mem_filter hs)
  cases strategy with
  | componentStatic => rfl
  | componentPatchable =>
      obtain ⟨gaps, rest, length, text, spliced⟩ := woven_of_parse h settings
        fun e => ((Plan.of m settings).replacement parameter e).toList
      refine ⟨gaps, rest, length, text, ?_⟩
      rw [code, patchedSource, String.toList_ofList]
      exact spliced
  | modulePatchable => exact reconstructed_of m settings hne
  | moduleFallback => exact reconstructed_of m settings hne
  | moduleStaticWrapped =>
      obtain ⟨groups, exports⟩ := select_wrapped chosen
      rw [Bool.not_eq_false', List.isEmpty_iff] at groups exports
      rw [exports_of] at exports
      exact ⟨List.map_eq_nil_iff.mp exports, groups, wrapped_of m settings hne⟩

theorem idle_inOrder (settings : ClassifySettings) (parameter : String) :
    InOrder ((idleImports m settings).map fun d => (m.textOf d.1).toList)
      ((Plan.of m settings).code (Strategy.ofPlan (Plan.of m settings)) parameter).toList := by
  have staying : ((idleImports m settings).map fun d => (m.textOf d.1).toList).Sublist
      ((Plan.of m settings).passthrough.map String.toList) := by
    have texts := (idleImports_sublist m settings).map String.toList
    rwa [List.map_map] at texts
  have lays := lays_of_parse h settings parameter _ rfl
  generalize Strategy.ofPlan (Plan.of m settings) = strategy at lays
  cases strategy with
  | componentStatic =>
      obtain ⟨gaps, rest, length, text, _⟩ := woven_of_parse h settings fun _ => []
      have all := InOrder.weave (m.statements.map fun s => (m.textOf s).toList)
        (by rw [length, List.length_map]) rest
      change _ = m.source at lays
      rw [lays, text]
      refine all.sublist (List.Sublist.trans ?_ (declarations_sublist _ m.statements))
      exact List.Sublist.map _ List.filter_sublist
  | componentPatchable =>
      obtain ⟨gaps, rest, length, _, out⟩ := lays
      rw [out]
      have among := idle_sublist_edited (fun d => ((Policy.of m settings).rebindable d).isEmpty)
        (fun e => ((Plan.of m settings).replacement parameter e).toList)
        (fun s => (m.textOf s).toList) (draft_holds m settings).edits (fun i s d found idle => by
          obtain ⟨e, edit, text⟩ := replacement_of_idle m settings parameter found
            (List.isEmpty_iff.mp idle)
          exact ⟨e, edit, congrArg String.toList text⟩)
      exact (InOrder.weave _ (length.trans (length_edited _ _ _ _).symm) rest).sublist among
  | modulePatchable =>
      change _ = _ at lays
      rw [lays, String.toList_append]
      refine (InOrder.intercalate _ _).sublist ?_
      simp only [List.append_assoc, List.map_append]
      exact staying.trans (List.sublist_append_left _ _)
  | moduleFallback =>
      change _ = _ at lays
      rw [lays, String.toList_append]
      refine (InOrder.intercalate _ _).sublist ?_
      simp only [List.append_assoc, List.map_append]
      exact staying.trans (List.sublist_append_left _ _)
  | moduleStaticWrapped =>
      obtain ⟨_, _, out⟩ := lays
      rw [out]
      simp only [String.toList_append, List.append_assoc]
      exact (InOrder.lines _ _).sublist staying

/-- The code for a module keeps all of its statements. -/
theorem code_keeps (settings : ClassifySettings) (parameter : String) :
    Keeps m settings (Plan.of m settings) parameter
      ((Plan.of m settings).code (Strategy.ofPlan (Plan.of m settings)) parameter) := by
  constructor
  · exact lays_of_parse h settings parameter _ rfl
  · rw [loading]
    by_cases none : (Plan.of m settings).groups = []
    · exact .inl ⟨none, by simp [none]⟩
    · exact .inr ⟨none, by simp [none]⟩
  · exact idle_inOrder h settings parameter
  · intro forced
    have idle := rebindable_of_forcesStatic m settings forced
    refine ⟨?_, groups_of_idle m settings fun d _ => idle d.2,
      passthrough_of_idle m settings fun d _ => idle d.2⟩
    exact List.filter_eq_self.mpr fun d _ => List.isEmpty_iff.mpr (idle d.2)

end Parsed

/-- A module with an import that is rebound, one that stays, and an export. -/
theorem code_keeps_two_imports :
    ∃ m, Module.parse "app.js" "import { a } from './a.js';\nimport './b.css';\nexport default a" =
        .ok m ∧
      Keeps m {} (Plan.of m {}) "v" ((Plan.of m {}).code (Strategy.ofPlan (Plan.of m {})) "v") := by
  have parsed : Module.parse "app.js"
      "import { a } from './a.js';\nimport './b.css';\nexport default a" =
      .ok ⟨"app.js", "import { a } from './a.js';\nimport './b.css';\nexport default a",
        [⟨0, 27, .importing ⟨"./a.js", [⟨"a", .named "a"⟩], .evaluation, false⟩⟩,
          ⟨28, 45, .importing ⟨"./b.css", [], .evaluation, false⟩⟩, ⟨46, 62, .exporting⟩]⟩ := by
    decide +kernel
  exact ⟨_, parsed, code_keeps parsed {} "v"⟩

/-- Two statements with an export between them stand next to each other in the code.  If the first
one ended in an inserted semicolon, the second one may go on with it. -/
theorem code_joins_statements :
    ∃ m m', Module.parse "m.js" "let f = g\nexport { f }\n(async () => { h() })()" = .ok m ∧
      Module.parse "m.js" ((Plan.of m {}).code (Strategy.ofPlan (Plan.of m {})) "v") = .ok m' ∧
      m.others.map m.textOf = ["let f = g", "(async () => { h() })()"] ∧
      m'.others.map m'.textOf = ["let f = g\n(async () => { h() })()"] := by
  have parsed : Module.parse "m.js" "let f = g\nexport { f }\n(async () => { h() })()" =
      .ok ⟨"m.js", "let f = g\nexport { f }\n(async () => { h() })()",
        [⟨0, 9, .other⟩, ⟨10, 22, .exporting⟩, ⟨23, 46, .other⟩]⟩ := by
    decide +kernel
  have again : Module.parse "m.js" "let f = g\n(async () => { h() })()\nexport { f }\n" =
      .ok ⟨"m.js", "let f = g\n(async () => { h() })()\nexport { f }\n",
        [⟨0, 33, .other⟩, ⟨34, 46, .exporting⟩]⟩ := by
    decide +kernel
  refine ⟨_, ⟨_, _, _⟩, parsed, (congrArg (Module.parse "m.js") ?_).trans again, ?_, ?_⟩
  · decide +kernel
  · decide +kernel
  · decide +kernel

end Plan

end HotReload
