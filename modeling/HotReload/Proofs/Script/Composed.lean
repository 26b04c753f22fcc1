import HotReload.Script.Program

/-!
# Parsers put together from steps

Every rule of the grammar is put together from a few steps: reading a token, taking the next one for
a regular expression or for more of a template, marking the end of a statement, exporting a name,
failing, and looking at tokens.  `Composed n d p` says that `p` is such a parser, that it reads at
least `n` tokens if it succeeds, and that it looks at no token more than `d` places after the one
that is next in the end.

What holds of the steps and is kept by putting parsers together then holds of the whole grammar, by
an induction on `Composed`.  A parser that looks at a token may use what the token is, but not where
it stands.
-/

namespace HotReload
namespace Script

open Script.Parser

/-- A token without its place. -/
def Token.bare (t : Token) : Token := { t with start := 0, stop := 0, text := [] }

namespace Parser

/-- Parsers put together from steps, with the number of tokens that they read at least, and the
number of tokens that they look at beyond the next one. -/
inductive Composed : Nat → Nat → {α : Type} → Parser α → Prop
  | pure {α : Type} (a : α) : Composed 0 0 (pure a : Parser α)
  | fail {α : Type} (n : Nat) (cause : Cause) : Composed n 0 (fail cause : Parser α)
  | advance : Composed 1 0 advance
  | takePattern : Composed 0 0 takePattern
  | takeTemplate : Composed 0 0 takeTemplate
  | endStatement : Composed 0 0 endStatement
  | exportName (name : String) : Composed 0 0 (exportName name)
  | bind {α β : Type} {m n d e : Nat} {p : Parser α} {f : α → Parser β} :
      Composed m d p → (∀ a, Composed n e (f a)) → Composed (m + n) (max (d - n) e) (p >>= f)
  | look {β : Type} {n d : Nat} {f : Token → Parser β} :
      (∀ t, f t = f t.bare) → (∀ t, Composed n d (f t)) → Composed n d (peek >>= f)
  | lookSecond {β : Type} {n d : Nat} {f : Option Token → Parser β} :
      (∀ t : Token, f (some t) = f (some t.bare)) → (∀ o, Composed n d (f o)) →
      Composed n (max (1 - n) d) (peekSecond >>= f)
  | lookThird {β : Type} {n d : Nat} {f : Option (Token × Token) → Parser β} :
      (∀ t u : Token, f (some (t, u)) = f (some (t.bare, u.bare))) → (∀ o, Composed n d (f o)) →
      Composed n (max (2 - n) d) (peekThird >>= f)
  /-- A third token after a line end is as good as none. -/
  | lookThirdOnLine {β : Type} {n d : Nat} {f : Option (Token × Token) → Parser β} :
      (∀ t u : Token, f (some (t, u)) = f (some (t.bare, u.bare))) →
      (∀ t u : Token, u.afterLine → f (some (t, u)) = f none) → (∀ o, Composed n d (f o)) →
      Composed n (max (1 - n) d) (peekThird >>= f)
  | weaken {α : Type} {m n d e : Nat} {p : Parser α} :
      n ≤ m → d ≤ e → Composed m d p → Composed n e p

namespace Composed

variable {α β : Type} {m n d : Nat}

/-- A parser that reads more than is asked for. -/
theorem last {p : Parser α} (h : Composed (m + n) d p) : Composed n d p :=
  weaken (Nat.le_add_left n m) (Nat.le_refl d) h

/-- A parser that reads some of the tokens, and one for the rest. -/
theorem seq {p : Parser α} {f : α → Parser β} (h : Composed m 0 p)
    (hf : ∀ a, Composed (n - m) d (f a)) : Composed n d (p >>= f) := by
  refine weaken (by omega) ?_ (bind h hf)
  omega

/-- A parser that looks ahead, before one that reads as many tokens. -/
theorem ahead {e : Nat} {p : Parser α} {f : α → Parser β} (h : Composed 0 e p)
    (hf : ∀ a, Composed (n + e) d (f a)) : Composed (n + e) d (p >>= f) := by
  refine weaken (by omega) ?_ (bind h hf)
  omega

/-- A look at the second token, before a parser that reads the first one. -/
theorem second {f : Option Token → Parser β} (place : ∀ t : Token, f (some t) = f (some t.bare))
    (hf : ∀ o, Composed (n + 1) d (f o)) : Composed (n + 1) d (peekSecond >>= f) :=
  weaken (Nat.le_refl _) (by omega) (lookSecond place hf)

theorem unexpected (n : Nat) : Composed n 0 (unexpected : Parser α) := fail n _

theorem ite {c : Prop} [Decidable c] {p q : Parser α} (hp : Composed n d p)
    (hq : Composed n d q) : Composed n d (if c then p else q) := by
  split
  · exact hp
  · exact hq

theorem discard {p : Parser α} (h : Composed n d p) : Composed n d (discard p) := by
  have whole := bind h fun _ => pure ()
  rw [Nat.add_zero, Nat.sub_zero, Nat.max_zero] at whole
  exact whole

theorem atMark (m : Mark) : Composed 0 0 (atMark m) := look (fun _ => rfl) fun _ => pure _

theorem atWord (w : String) : Composed 0 0 (atWord w) := look (fun _ => rfl) fun _ => pure _

theorem expect (m : Mark) : Composed 1 0 (expect m) :=
  seq (atMark m) fun _ => ite advance (unexpected 1)

theorem expectWord (w : String) : Composed 1 0 (expectWord w) :=
  seq (atWord w) fun _ => ite advance (unexpected 1)

theorem eat (m : Mark) : Composed 0 0 (eat m) :=
  seq (atMark m) fun _ => ite (seq advance fun _ => pure _) (pure _)

theorem eatWord (w : String) : Composed 0 0 (eatWord w) :=
  seq (atWord w) fun _ => ite (seq advance fun _ => pure _) (pure _)

/-- A token that is read if a check of it succeeds leaves fewer tokens to be read. -/
theorem checked_then {check : Parser Bool} {p q : Parser β} (h : Composed 0 0 check)
    (yes : Composed (n - 1) d p) (no : Composed n d q) :
    Composed n d ((do
      if ← check then
        Parser.advance
        return true
      else return false) >>= fun b => if b then p else q) := by
  have spread : ((do
      if ← check then
        Parser.advance
        return true
      else return false) >>= fun b => if b then p else q) =
      check >>= fun b => if b then Parser.advance >>= fun _ => p else q := by
    rw [bind_assoc]
    refine congrArg _ (funext fun b => ?_)
    cases b with
    | true => simp
    | false => simp
  rw [spread]
  exact seq h fun _ => ite (seq advance fun _ => yes) no

theorem eat_then {m : Mark} {p q : Parser β} (yes : Composed (n - 1) d p)
    (no : Composed n d q) : Composed n d (Parser.eat m >>= fun b => if b then p else q) :=
  checked_then (atMark m) yes no

theorem eatWord_then {w : String} {p q : Parser β} (yes : Composed (n - 1) d p)
    (no : Composed n d q) : Composed n d (Parser.eatWord w >>= fun b => if b then p else q) :=
  checked_then (atWord w) yes no

theorem atStatementEnd : Composed 0 0 atStatementEnd := look (fun _ => rfl) fun _ => pure _

theorem semicolon : Composed 0 0 semicolon :=
  look (fun _ => rfl) fun _ => ite (seq endStatement fun _ => advance.last)
    (ite endStatement (fail 0 _))

theorem iterate {σ : Type} {step : σ → Parser (Progress σ α)} (h : ∀ s, Composed n 0 (step s))
    (k : Nat) (s : σ) : Composed n 0 (iterate step k s) := by
  induction k generalizing s with
  | zero => exact fail n _
  | succ k ih =>
      refine seq (h s) fun progress => ?_
      cases progress with
      | more s => exact weaken (Nat.sub_le n n) (Nat.le_refl 0) (ih s)
      | done a => exact weaken (Nat.le_of_eq (Nat.sub_self n)) (Nat.le_refl 0) (pure a)

/-- A result that is forgotten may as well be changed first. -/
theorem discard_map (f : α → β) (p : Parser α) : Functor.discard (f <$> p) = Functor.discard p := by
  funext r
  change StateT.map _ (StateT.map f p) r = StateT.map _ p r
  simp only [StateT.map, Pure.pure, Except.pure]
  cases p r with
  | error fault => rfl
  | ok result => rfl

end Composed

/-- The parsers that the rules of a grammar refer back to are put together from steps. -/
structure Grounded (r : Rules) : Prop where
  assignment : ∀ c, Composed 1 0 (r.assignment c)
  operands : ∀ c level, Composed 1 0 (r.operands c level)
  unary : ∀ c, Composed 1 0 (r.unary c)
  leftHandSide : ∀ c, Composed 1 0 (r.leftHandSide c)
  primary : ∀ c, Composed 1 0 (r.primary c)
  /-- The kind of a statement; the place where it starts is no business of the other rules. -/
  statement : ∀ c place, Composed 1 0 (Prod.snd <$> r.statement c place)
  binding : ∀ c, Composed 1 0 (r.binding c)
  functionTail : ∀ c, Composed 1 0 (r.functionTail c)

end Parser
end Script
end HotReload
