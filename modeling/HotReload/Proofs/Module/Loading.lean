import HotReload.Proofs.Module.Layout
import HotReload.Proofs.Module.Loaders
import HotReload.Proofs.Script.Names
import Mathlib.Data.List.Perm.Basic

/-!
# Loading before the body

A module that is no component, and has groups of imports that can be rebound, is given variables for
them, which a loader declares and assigns in front of the body.

A piece of text that `Writes` a row of tokens has these tokens wherever the character behind it ends
a word; such pieces are put together with what `Separates` them.  So the text in front of the body
is a loader, that of the plan (`Plan.writes_loading`).  Its commands assign the bindings of a group
in another order than the group has them, since all the named ones are assigned by one destructuring
where the first of them stands (`Loader.assigned_block`).  What the loader does is what the static
imports would have done (`Plan.code_initializes`).
-/

namespace HotReload

open Script

/-- A piece of text has the given tokens wherever a character follows that ends a word. -/
structure Writes (text : List Char) (kinds : List Kind) : Prop where
  nonempty : kinds ≠ []
  lexes : ∀ c rest, endsWord c → Lexemes (text ++ c :: rest) kinds (c :: rest)

/-- What stands between two pieces of text ends a word, and has the given tokens. -/
structure Separates (text : List Char) (kinds : List Kind) : Prop where
  ends : ∃ c cs, text = c :: cs ∧ endsWord c
  lexes : ∀ cs more rest, more ≠ [] → Lexemes cs more rest →
    Lexemes (text ++ cs) (kinds ++ more) rest

theorem separates_blank {text : List Char} (some : text ≠ []) (h : ∀ c ∈ text, c = ' ' ∨ c = '\n') :
    Separates text [] := by
  constructor
  · obtain ⟨c, cs, rfl⟩ := List.exists_cons_of_ne_nil some
    refine ⟨c, cs, rfl, ?_⟩
    rcases h c List.mem_cons_self with rfl | rfl
    · decide
    · decide
  · intro cs more rest nonempty tokens
    clear some
    induction text with
    | nil => exact tokens
    | cons c text ih =>
        have later := ih fun d hd => h d (List.mem_cons_of_mem c hd)
        rcases h c List.mem_cons_self with rfl | rfl
        · exact later.blank nonempty
        · exact later.lineEnd nonempty

theorem separates_comma : Separates ", ".toList [.mark .comma] := by
  refine ⟨⟨',', [' '], rfl, by decide⟩, fun cs more rest nonempty tokens => ?_⟩
  exact .cons (lexeme_delimiter (by decide) _) (tokens.blank nonempty)

theorem Writes.append {text text' sep : List Char} {kinds kinds' between : List Kind}
    (h : Writes text kinds) (hs : Separates sep between) (h' : Writes text' kinds') :
    Writes (text ++ (sep ++ text')) (kinds ++ (between ++ kinds')) := by
  refine ⟨by simp [h.nonempty], fun c rest ends => ?_⟩
  obtain ⟨d, cs, rfl, ends'⟩ := hs.ends
  have later := hs.lexes _ _ _ h'.nonempty (h'.lexes c rest ends)
  have first := h.lexes d (cs ++ (text' ++ c :: rest)) ends'
  have whole : text ++ (d :: cs ++ text') ++ c :: rest =
      text ++ d :: (cs ++ (text' ++ c :: rest)) := by simp
  rw [whole]
  exact first.append later

/-- Pieces with separators between them. -/
theorem Writes.intercalate {sep : List Char} {between : List Kind} (hs : Separates sep between)
    {texts : List (List Char)} {parts : List (List Kind)} (some : texts ≠ [])
    (h : List.Forall₂ Writes texts parts) :
    Writes (sep.intercalate texts) (between.intercalate parts) := by
  induction h with
  | nil => exact absurd rfl some
  | @cons text part texts parts first others ih =>
      cases others with
      | nil => simpa using first
      | cons second others =>
          rw [List.intercalate_cons_cons, List.intercalate_cons_cons, List.append_assoc,
            List.append_assoc]
          exact first.append hs (ih (by simp))

namespace Loader

/-- The name of a property as it is written in a destructuring. -/
def Key.of (name : String) : Key :=
  if isAsciiIdentifier name.toList then .bare name else .quoted name

/-- A named binding as it is written in a destructuring. -/
def Field.of (name localName : String) : Field :=
  if name = localName then .short localName else .keyed (.of name) localName

/-- The fields of the named bindings. -/
def fieldsOf (bindings : List Binding) : List Field :=
  bindings.filterMap fun b =>
    match b.imported with
    | .named name => some (.of name b.localName)
    | _ => none

/-- The commands that assign bindings from a constant. -/
def commandsOf (constant : String) (all : List Binding) (done : Bool) : List Binding → List Command
  | [] => []
  | b :: rest =>
    match b.imported with
    | .defaultExport =>
      .member b.localName constant "default" :: commandsOf constant all done rest
    | .namespaceObject => .whole b.localName constant :: commandsOf constant all done rest
    | .named _ =>
      if done then commandsOf constant all done rest
      else .take (fieldsOf all) constant :: commandsOf constant all true rest

/-- The block of a group. -/
def Block.of (g : ImportGroup) (index : Nat) : Block :=
  ⟨Plan.constantName index, g.source,
    commandsOf (Plan.constantName index) g.bindings false g.bindings⟩

theorem writes_word {name : String} (h : isIdentifier name.toList) :
    Writes name.toList [word name] :=
  ⟨List.cons_ne_nil _ _, fun _ rest ends => (lexeme_word _ h ends rest).single⟩

/-- An identifier of ASCII characters is an identifier. -/
theorem isIdentifier_of_isAsciiIdentifier {cs : List Char} (h : isAsciiIdentifier cs) :
    isIdentifier cs := by
  have start {c : Char} (h : isAsciiStart c) : isIdentifierStart c := by
    simp only [isAsciiStart, Bool.or_eq_true] at h
    rcases h with (letter | score) | dollar
    · simp [isIdentifierStart, letter]
    · simp [isIdentifierStart, score]
    · simp [isIdentifierStart, dollar]
  have part {c : Char} (h : isAsciiStart c || Text.isDigit c) : isIdentifierPart c := by
    simp only [isAsciiStart, Bool.or_eq_true] at h
    rcases h with ((letter | score) | dollar) | digit
    · simp [isIdentifierPart, Text.isAlphanumeric, letter]
    · simp [isIdentifierPart, score]
    · simp [isIdentifierPart, dollar]
    · simp [isIdentifierPart, Text.isAlphanumeric, digit]
  cases cs with
  | nil => cases h
  | cons c cs =>
      rw [isAsciiIdentifier, Bool.and_eq_true, List.all_eq_true] at h
      rw [isIdentifier, Bool.and_eq_true, List.all_eq_true]
      exact ⟨start h.1, fun d hd => part (h.2 d hd)⟩

theorem writes_key (name : String) : Writes (keyText name).toList [(Key.of name).kind] := by
  rw [keyText, Key.of]
  split
  next ascii => exact writes_word (isIdentifier_of_isAsciiIdentifier ascii)
  next other => exact ⟨List.cons_ne_nil _ _, fun c rest _ => (lexeme_text name (c :: rest)).single⟩

theorem writes_field (name : String) {localName : String} (h : isIdentifier localName.toList) :
    Writes (Plan.fieldText name localName).toList (Field.of name localName).kinds := by
  rw [Plan.fieldText, Field.of]
  split
  next same => exact writes_word h
  next other =>
    refine ⟨List.cons_ne_nil _ _, fun c rest ends => ?_⟩
    have text : (keyText name ++ ": " ++ localName).toList ++ c :: rest =
        (keyText name).toList ++ ':' :: ' ' :: (localName.toList ++ c :: rest) := by simp
    rw [text]
    refine ((writes_key name).lexes ':' _ (by decide)).append ?_
    exact .cons (lexeme_delimiter (by decide) _) (.cons (lexeme_word _ h ends rest).blank (.nil _))

/-- A text writes a field. -/
abbrev FieldText (text : String) (field : Field) : Prop := Writes text.toList field.kinds

/-- A text writes a command. -/
abbrev CommandText (text : String) (command : Command) : Prop := Writes text.toList command.kinds

theorem writes_fields {bindings : List Binding}
    (h : ∀ b ∈ bindings, isIdentifier b.localName.toList) :
    List.Forall₂ FieldText (Plan.fields bindings) (fieldsOf bindings) := by
  induction bindings with
  | nil => exact .nil
  | cons b bindings ih =>
      obtain ⟨first, others⟩ := List.forall_mem_cons.mp h
      have later := ih others
      rw [Plan.fields, fieldsOf] at later ⊢
      cases imported : b.imported with
      | defaultExport => simpa [List.filterMap_cons, imported] using later
      | namespaceObject => simpa [List.filterMap_cons, imported] using later
      | named name => simpa [List.filterMap_cons, imported] using ⟨writes_field name first, later⟩

section Commands

variable {constant : String} (hc : isIdentifier constant.toList)

include hc

theorem writes_whole {target : String} (h : isIdentifier target.toList) :
    Writes (target ++ " = " ++ constant ++ ";").toList (Command.whole target constant).kinds := by
  refine ⟨List.cons_ne_nil _ _, fun c rest _ => ?_⟩
  have text : (target ++ " = " ++ constant ++ ";").toList ++ c :: rest =
      target.toList ++ ' ' :: '=' :: ' ' :: (constant.toList ++ ';' :: c :: rest) := by simp
  rw [text]
  refine .cons (lexeme_word _ h (by decide) _) (.cons (lexeme_assign _).blank ?_)
  refine .cons (lexeme_word _ hc (by decide) _).blank ?_
  exact .cons (lexeme_delimiter (by decide) _) (.nil _)

theorem writes_default {target : String} (h : isIdentifier target.toList) :
    Writes (target ++ " = " ++ constant ++ ".default;").toList
      (Command.member target constant "default").kinds := by
  refine ⟨List.cons_ne_nil _ _, fun c rest _ => ?_⟩
  have text : (target ++ " = " ++ constant ++ ".default;").toList ++ c :: rest =
      target.toList ++ ' ' :: '=' :: ' ' ::
        (constant.toList ++ '.' :: ("default".toList ++ ';' :: c :: rest)) := by simp
  rw [text]
  refine .cons (lexeme_word _ h (by decide) _) (.cons (lexeme_assign _).blank ?_)
  refine .cons (lexeme_word _ hc (by decide) _).blank (.cons (lexeme_dot _) ?_)
  refine .cons (lexeme_word "default" (by decide) (by decide) _) ?_
  exact .cons (lexeme_delimiter (by decide) _) (.nil _)

theorem writes_take {bindings : List Binding}
    (h : ∀ b ∈ bindings, isIdentifier b.localName.toList) (some : Plan.fields bindings ≠ []) :
    Writes ("(" ++ inBraces (Plan.fields bindings) ++ " = " ++ constant ++ ");").toList
      (Command.take (fieldsOf bindings) constant).kinds := by
  refine ⟨by simp [Command.kinds], fun c rest _ => ?_⟩
  have text : ("(" ++ inBraces (Plan.fields bindings) ++ " = " ++ constant ++ ");").toList ++
      c :: rest = '(' :: '\x7b' :: ' ' ::
        (", ".toList.intercalate ((Plan.fields bindings).map String.toList) ++ ' ' :: '\x7d' ::
          ' ' :: '=' :: ' ' :: (constant.toList ++ ')' :: ';' :: c :: rest)) := by
    simp [inBraces, String.toList_intercalate]
  have items : Writes (", ".toList.intercalate ((Plan.fields bindings).map String.toList))
      (separated ((fieldsOf bindings).map Field.kinds)) :=
    Writes.intercalate separates_comma (by simpa using some) (by simpa using writes_fields h)
  rw [text, Command.kinds, List.append_assoc]
  refine .cons (lexeme_delimiter (by decide) _) (.cons (lexeme_delimiter (by decide) _) ?_)
  refine .blank ((items.lexes ' ' _ (by decide)).append ?_) (by simp)
  refine .cons (lexeme_delimiter (by decide) _).blank (.cons (lexeme_assign _).blank ?_)
  refine .cons (lexeme_word _ hc (by decide) _).blank ?_
  exact .cons (lexeme_delimiter (by decide) _) (.cons (lexeme_delimiter (by decide) _) (.nil _))

theorem writes_load (path : String) :
    Writes ("const " ++ constant ++ " = await import(" ++ Json.quote path ++ ");").toList
      (loadKinds constant path) := by
  refine ⟨List.cons_ne_nil _ _, fun c rest _ => ?_⟩
  have text : ("const " ++ constant ++ " = await import(" ++ Json.quote path ++ ");").toList ++
      c :: rest = "const".toList ++ ' ' :: (constant.toList ++ ' ' :: '=' :: ' ' ::
        ("await".toList ++ ' ' :: ("import".toList ++ '(' :: ((Json.quote path).toList ++
          ')' :: ';' :: c :: rest)))) := by simp
  rw [text]
  refine .cons (lexeme_word "const" (by decide) (by decide) _) ?_
  refine .cons (lexeme_word _ hc (by decide) _).blank (.cons (lexeme_assign _).blank ?_)
  refine .cons (lexeme_word "await" (by decide) (by decide) _).blank ?_
  refine .cons (lexeme_word "import" (by decide) (by decide) _).blank ?_
  refine .cons (lexeme_delimiter (by decide) _) (.cons (lexeme_text path _) ?_)
  exact .cons (lexeme_delimiter (by decide) _) (.cons (lexeme_delimiter (by decide) _) (.nil _))

theorem writes_assignments {all bindings : List Binding}
    (h : ∀ b ∈ all, isIdentifier b.localName.toList) (among : ∀ b ∈ bindings, b ∈ all)
    (done : Bool) : List.Forall₂ CommandText (Plan.assignments constant all done bindings)
      (commandsOf constant all done bindings) := by
  induction bindings generalizing done with
  | nil => exact .nil
  | cons b bindings ih =>
      obtain ⟨hb, among⟩ := List.forall_mem_cons.mp among
      rw [Plan.assignments, commandsOf]
      cases imported : b.imported with
      | defaultExport => exact .cons (writes_default hc (h b hb)) (ih among done)
      | namespaceObject => exact .cons (writes_whole hc (h b hb)) (ih among done)
      | named name =>
          dsimp only
          split
          · exact ih among done
          · refine .cons (writes_take hc h ?_) (ih among true)
            refine List.ne_nil_of_mem (a := Plan.fieldText name b.localName) ?_
            exact List.mem_filterMap.mpr ⟨b, hb, by rw [imported]⟩

end Commands

theorem isIdentifier_constantName (index : Nat) :
    isIdentifier (Plan.constantName index).toList := by
  have digit {c : Char} (h : Text.isDigit c) : isIdentifierPart c := by
    simp [isIdentifierPart, Text.isAlphanumeric, h]
  have digits : (Text.decimal index).all isIdentifierPart := List.all_eq_true.mpr fun c hc =>
    digit (Nat.isDigit_of_mem_toDigits (by decide) (by decide) hc)
  have text : (Plan.constantName index).toList =
      '_' :: ("_relive_m".toList ++ Text.decimal index) := by
    simp [Plan.constantName, Plan.constantStem]
  have stem : isIdentifierStart '_' ∧ "_relive_m".toList.all isIdentifierPart := by decide
  rw [text, isIdentifier, List.all_append, stem.1, stem.2, digits]
  rfl

theorem intercalate_nil {α : Type} (parts : List (List α)) :
    [].intercalate parts = parts.flatten := by
  induction parts with
  | nil => rfl
  | cons part parts ih =>
      cases parts with
      | nil => simp
      | cons next parts =>
          rw [List.intercalate_cons_cons, ih, List.append_nil]
          rfl

/-- Pieces with nothing but blanks between them. -/
theorem Writes.lines (sep : List Char) (some : sep ≠ []) (blank : ∀ c ∈ sep, c = ' ' ∨ c = '\n')
    {texts : List (List Char)} {parts : List (List Kind)} (nonempty : texts ≠ [])
    (h : List.Forall₂ Writes texts parts) : Writes (sep.intercalate texts) parts.flatten := by
  have joined := Writes.intercalate (separates_blank some blank) nonempty h
  rwa [intercalate_nil] at joined

theorem writes_block (g : ImportGroup) (index : Nat)
    (h : ∀ b ∈ g.bindings, isIdentifier b.localName.toList) :
    Writes (Plan.initializer index g).toList (Block.of g index).kinds := by
  have hc := isIdentifier_constantName index
  have lines := Writes.lines "\n  ".toList (by decide) (by simp) (List.cons_ne_nil _ _)
    (List.Forall₂.cons (writes_load hc g.source)
      (List.forall₂_map_left_iff.mpr (List.forall₂_map_right_iff.mpr
        (writes_assignments hc h (fun _ hb => hb) false))))
  refine ⟨by simp [Block.kinds], fun c rest _ => ?_⟩
  have text (lines : List String) :
      ("\x7b\n  " ++ String.intercalate "\n  " lines ++ "\n\x7d").toList ++ c :: rest =
        '\x7b' :: '\n' :: ' ' :: ' ' ::
          ("\n  ".toList.intercalate (lines.map String.toList) ++ '\n' :: '\x7d' :: c :: rest) := by
    simp [String.toList_intercalate]
  have tokens : (Block.of g index).kinds = .mark .openBrace ::
      ((loadKinds (Plan.constantName index) g.source ::
        (commandsOf (Plan.constantName index) g.bindings false g.bindings).map
          Command.kinds).flatten ++ [.mark .closeBrace]) := by
    simp [Block.kinds, Block.of, List.flatMap]
  rw [Plan.initializer, text, tokens]
  refine .cons (lexeme_delimiter (by decide) _) (.lineEnd (.blank (.blank ?_ ?_) ?_) ?_)
  · exact (lines.lexes '\n' _ (by decide)).append (lexeme_delimiter (by decide) _).lineEnd.single
  all_goals simp

theorem writes_declaration {names : List String} (some : names ≠ [])
    (h : ∀ w ∈ names, isIdentifier w.toList) :
    Writes ("let " ++ String.intercalate ", " names ++ ";").toList (declarationKinds names) := by
  have each : List.Forall₂ Writes (names.map String.toList) (names.map ([word ·])) :=
    List.forall₂_map_left_iff.mpr (List.forall₂_map_right_iff.mpr
      (List.forall₂_same.mpr fun w hw => writes_word (h w hw)))
  have listed := Writes.intercalate separates_comma (by simpa using some) each
  refine ⟨by simp [declarationKinds], fun c rest _ => ?_⟩
  have text : ("let " ++ String.intercalate ", " names ++ ";").toList ++ c :: rest =
      "let".toList ++ ' ' :: (", ".toList.intercalate (names.map String.toList) ++
        ';' :: c :: rest) := by
    simp [String.toList_intercalate]
  rw [text, declarationKinds, List.append_assoc]
  refine .cons (lexeme_word "let" (by decide) (by decide) _) (.blank ?_ (by simp))
  exact (listed.lexes ';' _ (by decide)).append (.cons (lexeme_delimiter (by decide) _) (.nil _))

/-- Whether a binding is that of a name that is exported. -/
def isNamed (b : Binding) : Bool :=
  match b.imported with
  | .named _ => true
  | _ => false

/-- What a binding is assigned from the namespace of its module. -/
def valueOf {ν : Type} (w : World ν) (namespace_ : ν) (b : Binding) : String × ν :=
  (b.localName, w.imported namespace_ b.imported)

theorem Key.name_of (name : String) : (Key.of name).name = name := by
  rw [Key.of]
  split
  · rfl
  · rfl

theorem Field.target_of (name localName : String) :
    (Field.of name localName).target = localName := by
  rw [Field.of]
  split
  · rfl
  · rfl

theorem Field.name_of (name localName : String) : (Field.of name localName).name = name := by
  rw [Field.of]
  split
  next same => exact same.symm
  · exact Key.name_of name

section Assignments

variable {ν : Type} (w : World ν) (v : ν) (constant : String)

/-- A destructuring assigns what the named bindings are. -/
theorem assigned_take (bindings : List Binding) :
    (Command.take (fieldsOf bindings) constant).assigned w v =
      (bindings.filter isNamed).map (valueOf w v) := by
  rw [Command.assigned]
  induction bindings with
  | nil => rfl
  | cons b bindings ih =>
      rw [fieldsOf] at ih ⊢
      cases imported : b.imported with
      | defaultExport => simpa [isNamed, imported] using ih
      | namespaceObject => simpa [isNamed, imported] using ih
      | named name =>
          simpa [isNamed, imported, valueOf, World.imported, Field.target_of, Field.name_of]
            using ih

/-- Behind the destructuring only the other bindings are assigned. -/
theorem assigned_done (all bindings : List Binding) :
    (commandsOf constant all true bindings).flatMap (Command.assigned w v) =
      (bindings.filter (!isNamed ·)).map (valueOf w v) := by
  induction bindings with
  | nil => rfl
  | cons b bindings ih =>
      rw [commandsOf]
      cases imported : b.imported with
      | defaultExport =>
          simpa [isNamed, imported, valueOf, World.imported, Command.assigned] using ih
      | namespaceObject =>
          simpa [isNamed, imported, valueOf, World.imported, Command.assigned] using ih
      | named name => simpa [isNamed, imported] using ih

/-- The bindings that are not named are assigned where they stand, and the named ones together where
the first of them stands. -/
theorem assigned_commandsOf (all bindings : List Binding) :
    ((commandsOf constant all false bindings).flatMap (Command.assigned w v)).Perm
      ((if bindings.any isNamed then (all.filter isNamed).map (valueOf w v) else []) ++
        (bindings.filter (!isNamed ·)).map (valueOf w v)) := by
  -- A binding that is not named is assigned by the first command, in front of all others.
  have first {b : Binding} {bindings : List Binding} {c : Command} (plain : isNamed b = false)
      (assigned : c.assigned w v = [valueOf w v b])
      (ih : ((commandsOf constant all false bindings).flatMap (Command.assigned w v)).Perm
        ((if bindings.any isNamed then (all.filter isNamed).map (valueOf w v) else []) ++
          (bindings.filter (!isNamed ·)).map (valueOf w v))) :
      ((c :: commandsOf constant all false bindings).flatMap (Command.assigned w v)).Perm
        ((if (b :: bindings).any isNamed then (all.filter isNamed).map (valueOf w v) else []) ++
          ((b :: bindings).filter (!isNamed ·)).map (valueOf w v)) := by
    rw [List.flatMap_cons, assigned, List.any_cons, plain, Bool.false_or,
      List.filter_cons_of_pos (by simp [plain]), List.map_cons]
    exact (ih.cons _).trans List.perm_middle.symm
  induction bindings with
  | nil => exact .refl _
  | cons b bindings ih =>
      rw [commandsOf]
      cases imported : b.imported with
      | defaultExport =>
          refine first (by rw [isNamed, imported]) ?_ ih
          rw [Command.assigned, valueOf, imported, World.imported]
      | namespaceObject =>
          refine first (by rw [isNamed, imported]) ?_ ih
          rw [Command.assigned, valueOf, imported, World.imported]
      | named name =>
          have named_ : isNamed b = true := by rw [isNamed, imported]
          simp only [Bool.false_eq_true, if_false, List.flatMap_cons, assigned_take, assigned_done]
          rw [List.any_cons, named_, Bool.true_or, if_pos rfl,
            List.filter_cons_of_neg (by simp [named_])]

/-- The commands of a group assign each of its bindings once, and nothing else. -/
theorem assigned_block (bindings : List Binding) :
    ((commandsOf constant bindings false bindings).flatMap (Command.assigned w v)).Perm
      (bindings.map (valueOf w v)) := by
  have both := (List.filter_append_perm isNamed bindings).map (valueOf w v)
  rw [List.map_append] at both
  refine (assigned_commandsOf w v constant bindings bindings).trans ?_
  split
  · exact both
  next none_ =>
    have nil : bindings.filter isNamed = [] := by
      rw [List.filter_eq_nil_iff]
      exact fun b hb some => none_ (List.any_eq_true.mpr ⟨b, hb, some⟩)
    rwa [nil] at both

end Assignments

/-- The commands of a group read its constant and assign its names. -/
theorem of_mem_commandsOf {constant : String} {all bindings : List Binding}
    (among : ∀ b ∈ bindings, b ∈ all) {done : Bool} :
    ∀ c ∈ commandsOf constant all done bindings,
      c.source = constant ∧ ∀ t ∈ c.targets, t ∈ all.map Binding.localName := by
  induction bindings generalizing done with
  | nil => simp [commandsOf]
  | cons b bindings ih =>
      obtain ⟨hb, among⟩ := List.forall_mem_cons.mp among
      have own : ∀ t ∈ [b.localName], t ∈ all.map Binding.localName := by
        intro t ht
        rw [List.mem_singleton.mp ht]
        exact List.mem_map_of_mem hb
      rw [commandsOf]
      cases imported : b.imported with
      | defaultExport => exact List.forall_mem_cons.mpr ⟨⟨rfl, own⟩, ih among⟩
      | namespaceObject => exact List.forall_mem_cons.mpr ⟨⟨rfl, own⟩, ih among⟩
      | named name =>
          dsimp only
          split
          · exact ih among
          · refine List.forall_mem_cons.mpr ⟨⟨rfl, fun t ht => ?_⟩, ih among⟩
            obtain ⟨field, hf, rfl⟩ := List.mem_map.mp ht
            obtain ⟨b', hb', some⟩ := List.mem_filterMap.mp hf
            split at some
            · cases some
              rw [Field.target_of]
              exact List.mem_map_of_mem hb'
            · cases some

end Loader

namespace Plan

open Loader

/-- The loader that is written in front of a body. -/
def loader (p : Plan) : Loader := ⟨p.names, p.groups.zipIdx.map fun (g, index) => .of g index⟩

variable {p : Plan} (hn : ∀ g ∈ p.groups, ∀ b ∈ g.bindings, IsName Context.top b.localName)

include hn

/-- The text in front of a body writes the loader. -/
theorem writes_loading (some : p.names ≠ []) :
    Writes (String.intercalate "\n" p.loading).toList p.loader.kinds := by
  have identifiers : ∀ w ∈ p.names, isIdentifier w.toList := by
    intro w hw
    obtain ⟨g, hg, bound⟩ := List.mem_flatMap.mp hw
    obtain ⟨b, hb, rfl⟩ := List.mem_map.mp bound
    exact (hn g hg b hb).1
  have groups : p.groups.isEmpty = false := by
    rw [List.isEmpty_eq_false_iff]
    rintro none_
    exact some (by rw [names, none_, List.flatMap_nil])
  have blocks : List.Forall₂ Writes
      ((p.groups.zipIdx.map fun (g, index) => initializer index g).map String.toList)
      (p.loader.blocks.map Block.kinds) := by
    rw [loader, List.map_map, List.map_map]
    refine List.forall₂_map_left_iff.mpr (List.forall₂_map_right_iff.mpr
      (List.forall₂_same.mpr fun (g, index) hg => writes_block g index fun b hb => ?_))
    exact (hn g (List.fst_mem_of_mem_zipIdx hg) b hb).1
  have lines := Writes.lines "\n".toList (by decide) (by simp) (List.cons_ne_nil _ _)
    (List.Forall₂.cons (writes_declaration some identifiers) blocks)
  rw [loading, groups, if_neg Bool.false_ne_true, String.toList_intercalate, List.map_cons]
  rw [List.flatten_cons] at lines
  exact lines

omit hn in
/-- The constant of a block may be named so. -/
theorem isNameIn_constantName (index : Nat) : isNameIn Context.top (constantName index) := by
  have text : (constantName index).toList = '_' :: ("_relive_m".toList ++ Text.decimal index) := by
    simp [constantName, constantStem]
  have other {w : String} (first : w.toList.head? ≠ some '_') : constantName index ≠ w := by
    rintro rfl
    rw [text] at first
    exact first rfl
  have reserved : isReserved (constantName index) = false := by
    have none_ : ∀ w, isReserved w → w.toList.head? ≠ some '_' := by
      intro w h
      rw [isReserved, List.contains_iff_mem] at h
      revert w
      decide
    exact Bool.eq_false_iff.mpr fun h => other (none_ _ h) rfl
  have await : (constantName index == "await") = false := by
    rw [beq_eq_false_iff_ne]
    exact other (by decide)
  rw [isNameIn, reserved, await]
  rfl

/-- The loader names what may be named at the top of a module. -/
theorem isNameIn_of_mem_loader {w : String} (hw : w ∈ p.loader.names) : isNameIn Context.top w := by
  have declared {g : ImportGroup} (hg : g ∈ p.groups) {t : String}
      (ht : t ∈ g.bindings.map Binding.localName) : isNameIn Context.top t := by
    obtain ⟨b, hb, rfl⟩ := List.mem_map.mp ht
    exact (hn g hg b hb).2
  rw [Loader.names, loader] at hw
  rcases List.mem_append.mp hw with hw | hw
  · obtain ⟨g, hg, bound⟩ := List.mem_flatMap.mp hw
    exact declared hg bound
  · obtain ⟨block, hblock, hw⟩ := List.mem_flatMap.mp hw
    obtain ⟨⟨g, index⟩, hg, rfl⟩ := List.mem_map.mp hblock
    rcases List.mem_cons.mp hw with rfl | hw
    · exact isNameIn_constantName index
    · obtain ⟨c, hc, hw⟩ := List.mem_flatMap.mp hw
      obtain ⟨source, targets⟩ := of_mem_commandsOf (fun _ hb => hb) c hc
      rcases List.mem_cons.mp hw with rfl | hw
      · rw [source]
        exact isNameIn_constantName index
      · exact declared (List.fst_mem_of_mem_zipIdx hg) (targets w hw)

end Plan

/-- What a module that has been read imports has names. -/
theorem Module.isName_of_parse {path source : String} {m : Module}
    (parsed : Module.parse path source = .ok m) {s : Statement} {d : ImportDeclaration}
    (hd : (s, d) ∈ m.imports) : ∀ b ∈ d.bindings, IsName Context.top b.localName := by
  obtain ⟨program, read, rfl⟩ := Module.statements_of_parse parsed
  obtain ⟨member, kind⟩ := importing_of_mem_declarations hd
  exact Program.parse_named read s member d kind

namespace Plan

section Of

variable (m : Module) (settings : ClassifySettings)

/-- A binding of a group can be rebound. -/
theorem exists_of_mem_group {g : ImportGroup} (hg : g ∈ (Plan.of m settings).groups) {b : Binding}
    (hb : b ∈ g.bindings) : ∃ s d, (s, d) ∈ m.imports ∧ b ∈ d.bindings ∧
      (Policy.of m settings).isRebindable d b := by
  rw [bindings_of_mem m settings hg] at hb
  obtain ⟨⟨s, d⟩, hd, kept⟩ := List.mem_flatMap.mp ((eraseDupsBy_sublist _ _).subset hb)
  obtain ⟨hb, rebindable⟩ := List.mem_filter.mp kept
  exact ⟨s, d, (List.mem_filter.mp hd).1, hb, rebindable⟩

/-- A group binds the names under which its source is imported, as far as they can be rebound. -/
theorem mem_localNames_iff {g : ImportGroup} (hg : g ∈ (Plan.of m settings).groups)
    {name : String} : name ∈ g.localNames ↔
      ∃ s d b, (s, d) ∈ m.imports ∧ d.source = g.source ∧ b ∈ d.bindings ∧
        (Policy.of m settings).isRebindable d b ∧ b.localName = name := by
  constructor
  · intro bound
    obtain ⟨b, hb, rfl⟩ := List.mem_map.mp bound
    rw [bindings_of_mem m settings hg] at hb
    obtain ⟨⟨s, d⟩, hd, kept⟩ := List.mem_flatMap.mp ((eraseDupsBy_sublist _ _).subset hb)
    obtain ⟨hd, same⟩ := List.mem_filter.mp hd
    obtain ⟨hb, rebindable⟩ := List.mem_filter.mp kept
    exact ⟨s, d, b, hd, beq_iff_eq.mp same, hb, rebindable, rfl⟩
  · rintro ⟨s, d, b, hd, same, hb, rebindable, rfl⟩
    obtain ⟨b', hb', like⟩ : ∃ b' ∈ g.bindings, Binding.sameName b b' := by
      rw [bindings_of_mem m settings hg]
      refine exists_mem_eraseDupsBy (fun b => by simp [Binding.sameName]) _ b ?_
      exact List.mem_flatMap.mpr ⟨(s, d), List.mem_filter.mpr ⟨hd, beq_iff_eq.mpr same⟩,
        List.mem_filter.mpr ⟨hb, rebindable⟩⟩
    exact List.mem_map.mpr ⟨b', hb', (beq_iff_eq.mp like).symm⟩

/-- The names of the groups are those that can be rebound. -/
theorem mem_names_iff {name : String} : name ∈ (Plan.of m settings).names ↔
    ∃ s d b, (s, d) ∈ m.imports ∧ b ∈ d.bindings ∧ (Policy.of m settings).isRebindable d b ∧
      b.localName = name := by
  constructor
  · intro listed
    obtain ⟨g, hg, bound⟩ := List.mem_flatMap.mp listed
    obtain ⟨s, d, b, hd, _, rest⟩ := (mem_localNames_iff m settings hg).mp bound
    exact ⟨s, d, b, hd, rest⟩
  · rintro ⟨s, d, b, hd, hb, rebindable, rfl⟩
    have source : d.source ∈ (Plan.of m settings).groups.map ImportGroup.source := by
      rw [sources_groups, List.mem_eraseDups]
      refine List.mem_map.mpr ⟨(s, d), List.mem_filter.mpr ⟨hd, ?_⟩, rfl⟩
      exact List.any_eq_true.mpr ⟨b, hb, rebindable⟩
    obtain ⟨g, hg, same⟩ := List.mem_map.mp source
    exact List.mem_flatMap.mpr ⟨g, hg,
      (mem_localNames_iff m settings hg).mpr ⟨s, d, b, hd, same.symm, hb, rebindable, rfl⟩⟩

/-- A group binds no name twice. -/
theorem nodup_localNames {g : ImportGroup} (hg : g ∈ (Plan.of m settings).groups) :
    g.localNames.Nodup := by
  rw [ImportGroup.localNames, bindings_of_mem m settings hg]
  refine List.Pairwise.map _ (fun a b other same => ?_) (pairwise_eraseDupsBy Binding.sameName _)
  rw [Binding.sameName, beq_eq_false_iff_ne] at other
  exact other same.symm

end Of

/-- The text in front of a body stands behind the imports that stay. -/
theorem reconstructed_around {p : Plan} (some : p.loading ≠ []) : ∃ after,
    p.reconstructed.toList = (String.join (p.passthrough.map (· ++ "\n"))).toList ++
      ((String.intercalate "\n" p.loading).toList ++ '\n' :: after) := by
  let later := (if p.body.isEmpty then [] else [p.body]) ++ p.exports
  refine ⟨(String.join (later.map (· ++ "\n"))).toList, ?_⟩
  have lines : p.reconstructed = String.intercalate "\n" (p.passthrough ++ p.loading ++ later) ++
      "\n" := by
    rw [reconstructed, List.append_assoc (p.passthrough ++ p.loading)]
  have block : (String.intercalate "\n" p.loading).toList ++ ['\n'] =
      (String.join (p.loading.map (· ++ "\n"))).toList := by
    rw [← intercalate_append_newline some, String.toList_append]
    rfl
  rw [lines, intercalate_append_newline (by simp [some])]
  simp only [List.map_append, String.join_append, String.toList_append, ← block, List.append_assoc,
    List.singleton_append]

/-- A module is given variables for its groups only if it has some. -/
theorem groups_ne_nil_of_modulePatchable {p : Plan} (h : Strategy.ofPlan p = .modulePatchable) :
    p.groups ≠ [] := by
  intro none_
  have other : ∀ component exports entry,
      Strategy.select component false exports entry ≠ .modulePatchable := by decide
  rw [Strategy.ofPlan, none_] at h
  exact other _ _ _ h

end Plan

/-- A loader runs, whatever the modules are.  It loads the source of every group once, in order, and
assigns every binding of the groups once, what its import would give, and nothing else. -/
def Loader.Initializes (l : Loader) (groups : List ImportGroup) : Prop :=
  ∀ {ν : Type} (w : World ν), ∃ journal, l.run w = some journal ∧
    journal.map Prod.fst = groups.map ImportGroup.source ∧ (journal.map Prod.fst).Nodup ∧
    (journal.flatMap Prod.snd).Perm
      (groups.flatMap fun g => g.bindings.map (Loader.valueOf w (w.load g.source))) ∧
    ((journal.flatMap Prod.snd).map Prod.fst).Perm l.declared

namespace Plan

section Of

variable {m : Module} {settings : ClassifySettings}

/-- The loader of a plan, if no group binds the constant of its block or a name of another one. -/
theorem loader_initializes
    (own : ∀ g ∈ (Plan.of m settings).groups.zipIdx, constantName g.2 ∉ g.1.localNames)
    (distinct : (Plan.of m settings).names.Nodup) :
    (Plan.of m settings).loader.Initializes (Plan.of m settings).groups := by
  intro ν w
  have fits : ∀ b ∈ (Plan.of m settings).loader.blocks, ∀ c ∈ b.commands,
      c.Fits (Plan.of m settings).loader.declared b.constant := by
    intro b hb c hc
    obtain ⟨⟨g, index⟩, hg, rfl⟩ := List.mem_map.mp hb
    obtain ⟨source, targets⟩ := Loader.of_mem_commandsOf (fun _ hb => hb) c hc
    refine ⟨source, fun t ht => ⟨?_, ?_⟩⟩
    · rintro rfl
      exact own (g, index) hg (targets _ ht)
    · exact List.mem_flatMap.mpr ⟨g, List.fst_mem_of_mem_zipIdx hg, targets t ht⟩
  have run := Loader.run_eq_some (w := w) distinct fits
  generalize journal_ : ((Plan.of m settings).loader.blocks.map fun b =>
    (b.path, b.commands.flatMap (Loader.Command.assigned w (w.load b.path)))) = journal at run
  have indexed : (Plan.of m settings).groups.zipIdx.map Prod.fst = (Plan.of m settings).groups :=
    List.zipIdx_map_fst 0 _
  have loads : journal.map Prod.fst = (Plan.of m settings).groups.map ImportGroup.source := by
    rw [← journal_, List.map_map, loader, List.map_map]
    conv_rhs => rw [← indexed, List.map_map]
    rfl
  have assigns : (journal.flatMap Prod.snd).Perm ((Plan.of m settings).groups.flatMap fun g =>
      g.bindings.map (Loader.valueOf w (w.load g.source))) := by
    rw [← journal_, List.flatMap_map, loader, List.flatMap_map]
    conv_rhs => rw [← indexed, List.flatMap_map]
    exact List.Perm.flatMap_left _ fun (g, index) _ => Loader.assigned_block w _ _ g.bindings
  refine ⟨journal, run, loads, loads ▸ nodup_sources_groups m settings, assigns, ?_⟩
  refine (assigns.map Prod.fst).trans (.of_eq ?_)
  rw [List.map_flatMap]
  refine congrArg (List.flatMap · _) (funext fun g => ?_)
  rw [List.map_map]
  rfl

/-- The code for a module that is no component starts, behind the imports that stay, with the loader
of its plan, and with no other one. -/
theorem reads_loader {path source : String} (parsed : Module.parse path source = .ok m)
    (patchable : Strategy.ofPlan (Plan.of m settings) = .modulePatchable) (parameter : String) :
    let p := Plan.of m settings
    ∃ here after, (p.code (Strategy.ofPlan p) parameter).toList =
      (String.join (p.passthrough.map (· ++ "\n"))).toList ++ here ∧ p.loader.Reads here after ∧
      ∀ other : Loader, other.Reads here after → other = p.loader := by
  intro p
  have names : ∀ g ∈ p.groups, ∀ b ∈ g.bindings, IsName Context.top b.localName := by
    intro g hg b hb
    obtain ⟨s, d, hd, hb, _⟩ := exists_of_mem_group m settings hg hb
    exact Module.isName_of_parse parsed hd b hb
  have some := groups_ne_nil_of_modulePatchable patchable
  have nonempty : p.names ≠ [] := by
    obtain ⟨g, hg⟩ := List.exists_mem_of_ne_nil _ some
    obtain ⟨b, hb⟩ := List.exists_mem_of_ne_nil _ (bindings_ne_nil m settings hg)
    exact List.ne_nil_of_mem (List.mem_flatMap.mpr ⟨g, hg, List.mem_map_of_mem hb⟩)
  have lines : p.loading ≠ [] := by
    simp [p, loading, some]
  obtain ⟨after, whole⟩ := reconstructed_around lines
  have written := writes_loading names nonempty
  have reads : p.loader.Reads ((String.intercalate "\n" p.loading).toList ++ '\n' :: after)
      ('\n' :: after) :=
    ⟨written.lexes '\n' after (by decide), fun w hw => isNameIn_of_mem_loader names hw⟩
  refine ⟨_, '\n' :: after, ?_, reads, fun other read => read.unique reads⟩
  rw [patchable]
  exact whole

/-- The code for a module that is no component starts, behind the imports that stay, with a loader,
and with one only.  It declares every name that can be rebound once, group by group, and initializes
the groups, if no group binds the constant of its block and no two groups bind a name. -/
theorem code_initializes {path source : String} (parsed : Module.parse path source = .ok m)
    (patchable : Strategy.ofPlan (Plan.of m settings) = .modulePatchable)
    (own : ∀ g ∈ (Plan.of m settings).groups.zipIdx, constantName g.2 ∉ g.1.localNames)
    (apart : (Plan.of m settings).groups.Pairwise fun g h => g.localNames.Disjoint h.localNames)
    (parameter : String) :
    let p := Plan.of m settings
    ∃ l here after,
      (p.code (Strategy.ofPlan p) parameter).toList =
        (String.join (p.passthrough.map (· ++ "\n"))).toList ++ here ∧
      Loader.Reads l here after ∧ (∀ other : Loader, other.Reads here after → other = l) ∧
      l.declared = p.groups.flatMap ImportGroup.localNames ∧ l.declared.Nodup ∧
      (∀ name, name ∈ l.declared ↔ ∃ s d b, (s, d) ∈ m.imports ∧ b ∈ d.bindings ∧
        (Policy.of m settings).isRebindable d b ∧ b.localName = name) ∧
      l.Initializes p.groups := by
  intro p
  have distinct : p.names.Nodup :=
    List.nodup_flatMap.mpr ⟨fun g hg => nodup_localNames m settings hg, apart⟩
  obtain ⟨here, after, whole, reads, only⟩ := reads_loader parsed patchable parameter
  exact ⟨p.loader, here, after, whole, reads, only, rfl, distinct,
    fun name => mem_names_iff m settings, loader_initializes own distinct⟩

/-- A default binding, two named ones and a namespace from one source, and a default binding by name
from another one. -/
theorem code_initializes_two_sources :
    ∃ m, Module.parse "m.js" ("import a, \x7b b, \"x-y\" as x \x7d from './a';" ++
        "import * as n from './a';import { default as d } from './é';" ++
        "f(a, b);g(n, x);export { d };") = .ok m ∧
      Strategy.ofPlan (Plan.of m {}) = .modulePatchable ∧
      (∀ g ∈ (Plan.of m {}).groups.zipIdx, constantName g.2 ∉ g.1.localNames) ∧
      (Plan.of m {}).groups.Pairwise (fun g h => g.localNames.Disjoint h.localNames) ∧
      let p := Plan.of m {}
      ∃ l here after,
        (p.code (Strategy.ofPlan p) "v").toList =
          (String.join (p.passthrough.map (· ++ "\n"))).toList ++ here ∧
        Loader.Reads l here after ∧ (∀ other : Loader, other.Reads here after → other = l) ∧
        l.declared = p.groups.flatMap ImportGroup.localNames ∧ l.declared.Nodup ∧
        (∀ name, name ∈ l.declared ↔ ∃ s d b, (s, d) ∈ m.imports ∧ b ∈ d.bindings ∧
          (Policy.of m {}).isRebindable d b ∧ b.localName = name) ∧
        l.Initializes p.groups := by
  obtain ⟨m, parsed, patchable, groups⟩ : ∃ m,
      Module.parse "m.js" ("import a, \x7b b, \"x-y\" as x \x7d from './a';" ++
        "import * as n from './a';import { default as d } from './é';" ++
        "f(a, b);g(n, x);export { d };") = .ok m ∧
      Strategy.ofPlan (Plan.of m {}) = .modulePatchable ∧
      (Plan.of m {}).groups = [⟨"./a", [⟨"a", .defaultExport⟩, ⟨"b", .named "b"⟩,
        ⟨"x", .named "x-y"⟩, ⟨"n", .namespaceObject⟩]⟩, ⟨"./é", [⟨"d", .named "default"⟩]⟩] :=
    ⟨⟨"m.js", "import a, \x7b b, \"x-y\" as x \x7d from './a';" ++
        "import * as n from './a';import { default as d } from './é';" ++
        "f(a, b);g(n, x);export { d };",
      [⟨0, 39, .importing ⟨"./a", [⟨"a", .defaultExport⟩, ⟨"b", .named "b"⟩, ⟨"x", .named "x-y"⟩],
        .evaluation, false⟩⟩, ⟨39, 64, .importing ⟨"./a", [⟨"n", .namespaceObject⟩], .evaluation,
        false⟩⟩, ⟨64, 100, .importing ⟨"./é", [⟨"d", .named "default"⟩], .evaluation, false⟩⟩,
        ⟨100, 108, .other⟩, ⟨108, 116, .other⟩, ⟨116, 129, .exporting⟩]⟩,
      by decide +kernel, by decide +kernel, by decide +kernel⟩
  have own : ∀ g ∈ (Plan.of m {}).groups.zipIdx, constantName g.2 ∉ g.1.localNames := by
    rw [groups]
    decide +kernel
  have apart : (Plan.of m {}).groups.Pairwise fun g h => g.localNames.Disjoint h.localNames := by
    rw [groups]
    simp [ImportGroup.localNames]
  exact ⟨m, parsed, patchable, own, apart, code_initializes parsed patchable own apart "v"⟩

end Of

end Plan
end HotReload
