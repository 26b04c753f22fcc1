import HotReload.Proofs.Script.Rows
import HotReload.Script.Rules

/-!
# Loaders

A loader declares variables and assigns them block by block: a block loads a module, whose namespace
it holds in a constant, and assigns variables from that constant.  Here is how a loader is written,
as a row of tokens (`Loader.Reads`), and what running it does (`Loader.run`).  No row of tokens is
that of two loaders (`Loader.kinds_injective`), and so no text reads as two (`Loader.Reads.unique`).

A run can fail: a variable may be declared twice, a command may assign what is no variable where it
stands, or read a constant of another block.  It does not, if every command reads the constant of
its block and assigns variables that this constant does not hide (`Loader.run_eq_some`).
-/

namespace HotReload

open Script

/-- What modules are: the namespace that loading a path gives, and the properties of a value. -/
structure World (ν : Type) where
  load : String → ν
  property : ν → String → ν

/-- What an import of a module with the given namespace gives. -/
def World.imported {ν : Type} (w : World ν) (namespace_ : ν) : Imported → ν
  | .defaultExport => w.property namespace_ "default"
  | .namespaceObject => namespace_
  | .named name => w.property namespace_ name

namespace Loader

/-- The name of a property, as it is written. -/
inductive Key where
  | bare (name : String)
  | quoted (name : String)
  deriving DecidableEq, Repr

/-- A field of a destructuring: the property that is read, and the variable that is assigned. -/
inductive Field where
  /-- The property has the name of the variable. -/
  | short (name : String)
  | keyed (key : Key) (target : String)
  deriving DecidableEq, Repr

inductive Command where
  /-- `target = source;` -/
  | whole (target source : String)
  /-- `target = source.key;` -/
  | member (target source key : String)
  /-- `({ fields } = source);` -/
  | take (fields : List Field) (source : String)
  deriving DecidableEq, Repr

/-- A block: `{ const constant = await import("path"); commands }` -/
structure Block where
  constant : String
  path : String
  commands : List Command
  deriving DecidableEq, Repr

end Loader

/-- A loader: `let declared; blocks` -/
structure Loader where
  declared : List String
  blocks : List Loader.Block
  deriving DecidableEq, Repr

namespace Loader

def Key.name : Key → String
  | .bare name => name
  | .quoted name => name

/-- The property that a field reads. -/
def Field.name : Field → String
  | .short name => name
  | .keyed key _ => key.name

def Field.target : Field → String
  | .short name => name
  | .keyed _ target => target

def Command.source : Command → String
  | .whole _ source => source
  | .member _ source _ => source
  | .take _ source => source

def Command.targets : Command → List String
  | .whole target _ => [target]
  | .member target _ _ => [target]
  | .take fields _ => fields.map Field.target

/-- All names that are declared, read or assigned. -/
def names (l : Loader) : List String :=
  l.declared ++ l.blocks.flatMap fun b =>
    b.constant :: b.commands.flatMap fun c => c.source :: c.targets

/-- A word without escapes. -/
def word (w : String) : Kind := .word w false

def Key.kind : Key → Kind
  | .bare name => word name
  | .quoted name => .text name false

def Field.kinds : Field → List Kind
  | .short name => [word name]
  | .keyed key target => [key.kind, .mark .colon, word target]

/-- Parts with commas between them. -/
def separated (parts : List (List Kind)) : List Kind := [Kind.mark .comma].intercalate parts

def Command.kinds : Command → List Kind
  | .whole target source => [word target, .mark .assign, word source, .mark .semicolon]
  | .member target source key =>
    [word target, .mark .assign, word source, .mark .dot, word key, .mark .semicolon]
  | .take fields source =>
    [.mark .openParen, .mark .openBrace] ++ separated (fields.map Field.kinds) ++
      [.mark .closeBrace, .mark .assign, word source, .mark .closeParen, .mark .semicolon]

/-- The tokens of the declaration of a constant that holds the namespace of a path. -/
def loadKinds (constant path : String) : List Kind :=
  [word "const", word constant, .mark .assign, word "await", word "import", .mark .openParen,
    .text path false, .mark .closeParen, .mark .semicolon]

def Block.kinds (b : Block) : List Kind :=
  [.mark .openBrace] ++ loadKinds b.constant b.path ++ b.commands.flatMap Command.kinds ++
    [.mark .closeBrace]

def declarationKinds (names : List String) : List Kind :=
  [word "let"] ++ separated (names.map ([word ·])) ++ [.mark .semicolon]

def kinds (l : Loader) : List Kind :=
  declarationKinds l.declared ++ l.blocks.flatMap Block.kinds

/-- A loader stands at the front of a text, and `rest` follows it: its tokens do, and what they name
may be named at the top of a module. -/
structure Reads (l : Loader) (cs rest : List Char) : Prop where
  tokens : Lexemes cs l.kinds rest
  names : ∀ w ∈ l.names, isNameIn Context.top w

/-- A list of parts is told by its row of tokens if each part is, and what follows is no part. -/
theorem flatMap_append_inj {α : Type} {f : α → List Kind}
    (part : ∀ a b r s, f a ++ r = f b ++ s → a = b ∧ r = s) {r s : List Kind}
    (hr : ∀ a t, f a ++ t ≠ r) (hs : ∀ a t, f a ++ t ≠ s) {as bs : List α}
    (h : as.flatMap f ++ r = bs.flatMap f ++ s) : as = bs ∧ r = s := by
  induction as generalizing bs with
  | nil =>
      cases bs with
      | nil => exact ⟨rfl, h⟩
      | cons b bs =>
          rw [List.flatMap_cons, List.append_assoc] at h
          exact absurd h.symm (hr b _)
  | cons a as ih =>
      rw [List.flatMap_cons, List.append_assoc] at h
      cases bs with
      | nil => exact absurd h (hs a _)
      | cons b bs =>
          rw [List.flatMap_cons, List.append_assoc] at h
          obtain ⟨rfl, rest⟩ := part _ _ _ _ h
          obtain ⟨rfl, same⟩ := ih rest
          exact ⟨rfl, same⟩

/-- The first of several parts ends with a comma, or with the mark that closes the list. -/
theorem separated_cons (part : List Kind) (parts : List (List Kind)) (close : Mark)
    (rest : List Kind) :
    separated (part :: parts) ++ .mark close :: rest = part ++
      match parts with
      | [] => .mark close :: rest
      | _ :: _ => .mark .comma :: (separated parts ++ .mark close :: rest) := by
  cases parts with
  | nil => simp [separated]
  | cons next parts =>
      rw [separated, List.intercalate_cons_cons, List.append_assoc, List.append_assoc]
      rfl

/-- Parts with commas between them, up to a mark that closes the list. -/
theorem separated_append_inj {α : Type} {f : α → List Kind} {close : Mark} (other : close ≠ .comma)
    (part : ∀ a b (d e : Mark) r s, (d = .comma ∨ d = close) → (e = .comma ∨ e = close) →
      f a ++ .mark d :: r = f b ++ .mark e :: s → a = b ∧ d = e ∧ r = s)
    (starts : ∀ a r s, f a ++ r ≠ .mark close :: s) {r s : List Kind} {as bs : List α}
    (h : separated (as.map f) ++ .mark close :: r = separated (bs.map f) ++ .mark close :: s) :
    as = bs ∧ r = s := by
  induction as generalizing bs with
  | nil =>
      cases bs with
      | nil => exact ⟨rfl, by simpa using h⟩
      | cons b bs =>
          rw [List.map_cons, separated_cons] at h
          exact absurd h.symm (starts b _ r)
  | cons a as ih =>
      rw [List.map_cons, separated_cons] at h
      cases bs with
      | nil => exact absurd h (starts a _ s)
      | cons b bs =>
          rw [List.map_cons, separated_cons] at h
          cases as with
          | nil =>
              cases bs with
              | nil =>
                  obtain ⟨rfl, _, same⟩ := part _ _ _ _ _ _ (.inr rfl) (.inr rfl) h
                  exact ⟨rfl, same⟩
              | cons b' bs =>
                  obtain ⟨_, same, _⟩ := part _ _ _ _ _ _ (.inr rfl) (.inl rfl) h
                  exact absurd same other
          | cons a' as =>
              cases bs with
              | nil =>
                  obtain ⟨_, same, _⟩ := part _ _ _ _ _ _ (.inl rfl) (.inr rfl) h
                  exact absurd same.symm other
              | cons b' bs =>
                  obtain ⟨rfl, _, rest⟩ := part _ _ _ _ _ _ (.inl rfl) (.inl rfl) h
                  obtain ⟨same, rest⟩ := ih rest
                  exact ⟨congrArg _ same, rest⟩

theorem Key.kind_inj {a b : Key} (h : a.kind = b.kind) : a = b := by
  cases a <;> cases b <;> simp_all [Key.kind, word]

theorem Field.kinds_append_inj {a b : Field} {d e : Mark} {r s : List Kind}
    (hd : d = .comma ∨ d = .closeBrace) (he : e = .comma ∨ e = .closeBrace)
    (h : a.kinds ++ .mark d :: r = b.kinds ++ .mark e :: s) : a = b ∧ d = e ∧ r = s := by
  have noColon {m : Mark} (hm : m = .comma ∨ m = .closeBrace) : m ≠ .colon := by
    rintro rfl
    simp at hm
  cases a with
  | short name =>
      cases b with
      | short name' => simp_all [Field.kinds, word]
      | keyed key target =>
          simp only [Field.kinds, List.cons_append, List.nil_append, List.cons.injEq] at h
          exact absurd (Kind.mark.inj h.2.1) (noColon hd)
  | keyed key target =>
      cases b with
      | short name =>
          simp only [Field.kinds, List.cons_append, List.nil_append, List.cons.injEq] at h
          exact absurd (Kind.mark.inj h.2.1).symm (noColon he)
      | keyed key' target' =>
          simp only [Field.kinds, List.cons_append, List.nil_append, List.cons.injEq] at h
          obtain ⟨key_, _, target_, mark, rest⟩ := h
          cases Key.kind_inj key_
          cases target_
          exact ⟨rfl, Kind.mark.inj mark, rest⟩

theorem Command.kinds_append_inj {a b : Command} {r s : List Kind}
    (h : a.kinds ++ r = b.kinds ++ s) : a = b ∧ r = s := by
  have starts (f : Field) (r s : List Kind) : f.kinds ++ r ≠ .mark .closeBrace :: s := by
    cases f with
    | short name => simp [Field.kinds, word]
    | keyed key target => cases key <;> simp [Field.kinds, Key.kind, word]
  cases a with
  | whole target source => cases b <;> simp_all [Command.kinds, word]
  | member target source key => cases b <;> simp_all [Command.kinds, word]
  | take fields source =>
      cases b with
      | whole => simp [Command.kinds, word] at h
      | member => simp [Command.kinds, word] at h
      | take fields' source' =>
          simp only [Command.kinds, List.append_assoc, List.cons_append, List.nil_append,
            List.cons.injEq, true_and] at h
          obtain ⟨rfl, rest⟩ := separated_append_inj (by decide)
            (fun _ _ _ _ _ _ hd he => Field.kinds_append_inj hd he) starts h
          simp_all [word]

theorem Block.kinds_append_inj {a b : Block} {r s : List Kind}
    (h : a.kinds ++ r = b.kinds ++ s) : a = b ∧ r = s := by
  obtain ⟨constant, path, commands⟩ := a
  obtain ⟨constant', path', commands'⟩ := b
  have starts (c : Command) (t rest : List Kind) : c.kinds ++ t ≠ .mark .closeBrace :: rest := by
    cases c <;> simp [Command.kinds, word]
  simp only [Block.kinds, loadKinds, List.append_assoc, List.cons_append, List.nil_append,
    List.cons.injEq, true_and] at h
  obtain ⟨constant_, path_, rest⟩ := h
  obtain ⟨same, rest⟩ := flatMap_append_inj (fun _ _ _ _ => Command.kinds_append_inj)
    (fun c t => starts c t _) (fun c t => starts c t _) rest
  simp_all [word]

/-- No row of tokens is that of two loaders. -/
theorem kinds_injective : Function.Injective kinds := by
  rintro ⟨declared, blocks⟩ ⟨declared', blocks'⟩ h
  simp only [kinds, declarationKinds, List.append_assoc, List.cons_append, List.nil_append,
    List.cons.injEq, true_and] at h
  obtain ⟨same, rest⟩ := separated_append_inj (f := ([word ·])) (by decide)
    (by simp [word]) (by simp [word]) h
  have starts (b : Block) (t : List Kind) : b.kinds ++ t ≠ [] := by simp [Block.kinds]
  obtain ⟨same', _⟩ := flatMap_append_inj (r := []) (s := [])
    (fun _ _ _ _ => Block.kinds_append_inj) starts starts (by simpa using rest)
  rw [same, same']

theorem Field.finish_notMem (f : Field) : .finish ∉ f.kinds := by
  cases f with
  | short name => simp [Field.kinds, word]
  | keyed key target => cases key <;> simp [Field.kinds, Key.kind, word]

theorem finish_notMem_separated {parts : List (List Kind)} (h : ∀ part ∈ parts, .finish ∉ part) :
    .finish ∉ separated parts := by
  induction parts with
  | nil => simp [separated]
  | cons part parts ih =>
      obtain ⟨first, others⟩ := List.forall_mem_cons.mp h
      have later := ih others
      cases parts with
      | nil => simpa [separated] using first
      | cons next parts =>
          rw [separated, List.intercalate_cons_cons, List.append_assoc]
          rw [separated] at later
          simp [first, later]

theorem Command.finish_notMem (c : Command) : .finish ∉ c.kinds := by
  cases c with
  | whole target source => simp [Command.kinds, word]
  | member target source key => simp [Command.kinds, word]
  | take fields source =>
      have taken : .finish ∉ separated (fields.map Field.kinds) :=
        finish_notMem_separated (by simpa using fun f _ => f.finish_notMem)
      simp [Command.kinds, word, taken]

theorem Block.finish_notMem (b : Block) : .finish ∉ b.kinds := by
  have commands : .finish ∉ b.commands.flatMap Command.kinds := by
    simpa using fun c _ => c.finish_notMem
  simp [Block.kinds, loadKinds, word, commands]

/-- No token of a loader says that the text is over. -/
theorem finish_notMem_kinds (l : Loader) : .finish ∉ l.kinds := by
  have declared : .finish ∉ separated (l.declared.map ([word ·])) :=
    finish_notMem_separated (by simp [word])
  have blocks : .finish ∉ l.blocks.flatMap Block.kinds := by simpa using fun b _ => b.finish_notMem
  rw [kinds, declarationKinds, List.mem_append, List.mem_append, List.mem_append]
  simpa [word, blocks] using declared

/-- Up to a place behind it, no text reads as two loaders. -/
theorem Reads.unique {l l' : Loader} {cs rest : List Char} (h : l.Reads cs rest)
    (h' : l'.Reads cs rest) : l = l' :=
  kinds_injective (h.tokens.unique h'.tokens l.finish_notMem_kinds l'.finish_notMem_kinds)

section Runs

variable {ν : Type} (w : World ν) (declared : List String) (constant : String) (v : ν)

/-- The value of a name in a block; only that of the block's constant is known. -/
def value? (name : String) : Option ν := if name = constant then some v else none

/-- An assignment in a block: to a variable that is declared, and that the constant of the block
does not hide. -/
def assign (target : String) (value : ν) : Option (String × ν) :=
  if target ≠ constant ∧ target ∈ declared then some (target, value) else none

def Command.run (c : Command) : Option (List (String × ν)) := do
  let x ← value? constant v c.source
  match c with
  | .whole target _ => return [← assign declared constant target x]
  | .member target _ key => return [← assign declared constant target (w.property x key)]
  | .take fields _ => fields.mapM fun f => assign declared constant f.target (w.property x f.name)

/-- What a block loads, and what it assigns then, in order. -/
def Block.run (b : Block) : Option (String × List (String × ν)) := do
  let assigned ← b.commands.mapM (Command.run w declared b.constant (w.load b.path))
  return (b.path, assigned.flatten)

/-- What a loader does, block by block: the path that is loaded, and the assignments after it. -/
def run (l : Loader) : Option (List (String × List (String × ν))) :=
  if l.declared.Nodup then l.blocks.mapM (Block.run w l.declared) else none

/-- What a command assigns if it can be run. -/
def Command.assigned : Command → List (String × ν)
  | .whole target _ => [(target, v)]
  | .member target _ key => [(target, w.property v key)]
  | .take fields _ => fields.map fun f => (f.target, w.property v f.name)

/-- A command reads the constant of its block, and assigns variables that it does not hide. -/
structure Command.Fits (declared : List String) (constant : String) (c : Command) : Prop where
  reads : c.source = constant
  assigns : ∀ t ∈ c.targets, t ≠ constant ∧ t ∈ declared

variable {w declared constant v}

theorem mapM_eq_some {α β : Type} {f : α → Option β} {g : α → β} {as : List α}
    (h : ∀ a ∈ as, f a = some (g a)) : as.mapM f = some (as.map g) := by
  induction as with
  | nil => rfl
  | cons a as ih =>
      obtain ⟨first, others⟩ := List.forall_mem_cons.mp h
      simp [List.mapM_cons, first, ih others]

theorem assign_eq_some {target : String} (h : target ≠ constant ∧ target ∈ declared) (x : ν) :
    assign declared constant target x = some (target, x) := if_pos h

theorem Command.run_eq_some {c : Command} (h : c.Fits declared constant) :
    c.run w declared constant v = some (c.assigned w v) := by
  have value : value? constant v c.source = some v := if_pos h.reads
  rw [Command.run, value, Option.bind_eq_bind, Option.bind_some]
  cases c with
  | whole target source =>
      dsimp only
      rw [assign_eq_some (h.assigns target List.mem_cons_self)]
      rfl
  | member target source key =>
      dsimp only
      rw [assign_eq_some (h.assigns target List.mem_cons_self)]
      rfl
  | take fields source =>
      exact mapM_eq_some fun f hf => assign_eq_some (h.assigns _ (List.mem_map_of_mem hf)) _

theorem Block.run_eq_some {b : Block} (h : ∀ c ∈ b.commands, c.Fits declared b.constant) :
    b.run w declared =
      some (b.path, b.commands.flatMap (Command.assigned w (w.load b.path))) := by
  rw [Block.run, mapM_eq_some fun c hc => Command.run_eq_some (h c hc)]
  rfl

/-- A loader runs if its variables are distinct and all of its commands fit into their blocks. -/
theorem run_eq_some {l : Loader} (distinct : l.declared.Nodup)
    (h : ∀ b ∈ l.blocks, ∀ c ∈ b.commands, c.Fits l.declared b.constant) :
    l.run w = some (l.blocks.map fun b =>
      (b.path, b.commands.flatMap (Command.assigned w (w.load b.path)))) := by
  rw [run, if_pos distinct]
  exact mapM_eq_some fun b hb => Block.run_eq_some (h b hb)

end Runs

end Loader
end HotReload
