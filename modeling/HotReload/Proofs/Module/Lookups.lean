import HotReload.Proofs.Module.Partition
import HotReload.Settings.Validation
import Mathlib.Data.List.TakeWhile

/-!
# Which calls are found

A call that looks up a name is written as underscores, the name of the call, and a literal in
parentheses (`Resolution.Written`).  The search takes the first call that starts at a word boundary,
goes on behind it, and takes as many underscores as there are.

* It finds every call that starts at a word boundary, unless another call that starts before it ends
  behind its start (`Resolution.mem_names_of_standing`).  A call whose first character is one of a
  word starts at such a boundary wherever no identifier goes on.  A name that is found is never
  rebound (`Plan.looked_up_stays`).
* Nothing keeps a literal from running on over the end of its line, up to the first mark of a later
  call, and a call whose name starts with a dollar sign starts at no word boundary after a blank.
  Such calls are not found, and the names that they look up are rebound
  (`Plan.looked_up_is_rebound`).
-/

namespace HotReload
namespace Resolution

/-- A character that may open a literal. -/
def IsMark (c : Char) : Prop := c = '"' ∨ c = '\'' ∨ c = '`'

/-- A character inside a literal between the given marks. -/
def isInside (mark c : Char) : Bool := c ≠ mark && c ≠ '\\' && (mark ≠ '`' || c ≠ '$')

/-- A literal in parentheses, with blanks around what opens them, and the name that it holds. -/
inductive Argument : List Char → List Char → Char → Prop
  | literal {blanks inner name : List Char} {mark : Char} :
      (∀ c ∈ blanks, isBlank c) → (∀ c ∈ inner, isBlank c) → IsMark mark →
      (∀ c ∈ name, isInside mark c) →
      Argument (blanks ++ '(' :: (inner ++ mark :: (name ++ [mark]))) name mark

/-- A call, perhaps with underscores in front, and the name that it looks up. -/
def Written (call text name : List Char) : Prop :=
  ∃ underscores rest mark, text = underscores ++ call ++ rest ∧ (∀ c ∈ underscores, c = '_') ∧
    Argument rest name mark

/-- A call stands in a text between two parts of it, at a word boundary; `before` is the character
in front of the text. -/
structure Standing (call : List Char) (before : Option Char) (cs front text rest : List Char)
    (name : List Char) : Prop where
  whole : cs = front ++ text ++ rest
  written : Written call text name
  boundary : isBoundary (front.getLast?.or before) text.head? = true

theorem literalTo_eq_some {mark : Char} {cs name rest : List Char} :
    literalTo mark cs = some (name, rest) ↔
      cs = name ++ mark :: rest ∧ ∀ c ∈ name, isInside mark c := by
  have closing : isInside mark mark = false := by simp [isInside]
  unfold literalTo
  extract_lets inside
  have same : inside = isInside mark := rfl
  clear_value inside
  subst same
  constructor
  · intro found
    split at found
    next c more after =>
      split at found
      next closes =>
        subst closes
        cases found
        refine ⟨?_, fun d hd => List.mem_takeWhile_imp hd⟩
        rw [← after, List.takeWhile_append_dropWhile]
      · cases found
    · cases found
  · rintro ⟨rfl, inside⟩
    rw [List.dropWhile_append_of_pos inside, List.takeWhile_append_of_pos inside,
      List.dropWhile_cons_of_neg (by simp [closing]),
      List.takeWhile_cons_of_neg (by simp [closing])]
    simp

theorem literal?_eq_some {cs name rest : List Char} {mark : Char} :
    literal? cs = some (name, mark, rest) ↔
      IsMark mark ∧ (∀ c ∈ name, isInside mark c) ∧ cs = mark :: (name ++ mark :: rest) := by
  cases cs with
  | nil => simp [literal?]
  | cons c cs =>
      rw [literal?]
      split
      next opens =>
        rw [Option.map_eq_some_iff]
        constructor
        · rintro ⟨⟨content, more⟩, found, same⟩
          cases same
          obtain ⟨rfl, inside⟩ := literalTo_eq_some.mp found
          exact ⟨by simpa [IsMark, or_assoc] using opens, inside, rfl⟩
        · rintro ⟨_, inside, same⟩
          obtain ⟨rfl, rfl⟩ := List.cons.inj same
          exact ⟨(name, rest), literalTo_eq_some.mpr ⟨rfl, inside⟩, rfl⟩
      next other =>
        simp only [reduceCtorEq, false_iff]
        rintro ⟨opens, _, same⟩
        obtain ⟨rfl, _⟩ := List.cons.inj same
        exact other (by simpa [IsMark, or_assoc] using opens)

/-- Where blanks end with a character that is none. -/
theorem dropWhile_isBlank {blanks : List Char} {c : Char} (rest : List Char)
    (all : ∀ c ∈ blanks, isBlank c) (ends : isBlank c = false) :
    (blanks ++ c :: rest).dropWhile isBlank = c :: rest := by
  rw [List.dropWhile_append_of_pos all, List.dropWhile_cons_of_neg (by simp [ends])]

theorem not_isBlank_of_isMark {c : Char} (h : IsMark c) : isBlank c = false := by
  rcases h with rfl | rfl | rfl <;> decide

theorem argument?_eq_some {cs name rest : List Char} {mark : Char} :
    argument? cs = some (name, mark, rest) ↔
      ∃ text, cs = text ++ rest ∧ Argument text name mark := by
  rw [argument?]
  constructor
  · intro found
    split at found
    next more after =>
      obtain ⟨mark_, inside, literal⟩ := literal?_eq_some.mp found
      refine ⟨_, ?_, @Argument.literal (cs.takeWhile isBlank) (more.takeWhile isBlank) name mark
        (fun c hc => List.mem_takeWhile_imp hc) (fun c hc => List.mem_takeWhile_imp hc) mark_
        inside⟩
      have split_ := (List.takeWhile_append_dropWhile (p := isBlank) (l := more)).symm
      rw [literal] at split_
      calc cs = cs.takeWhile isBlank ++ '(' :: more := by
            rw [← after, List.takeWhile_append_dropWhile]
        _ = _ := by
            conv_lhs => rw [split_]
            simp
    · cases found
  · rintro ⟨text, rfl, argument⟩
    cases argument with
    | @literal blanks inner name mark outer inner_ mark_ inside =>
        have paren : isBlank '(' = false := by decide
        have first := dropWhile_isBlank (inner ++ mark :: (name ++ mark :: rest)) outer paren
        have second := dropWhile_isBlank (name ++ mark :: rest) inner_ (not_isBlank_of_isMark mark_)
        have text : blanks ++ '(' :: (inner ++ mark :: (name ++ [mark])) ++ rest =
            blanks ++ '(' :: (inner ++ mark :: (name ++ mark :: rest)) := by simp
        rw [text, first]
        simp only [second]
        exact literal?_eq_some.mpr ⟨mark_, inside, rfl⟩

/-- The number of underscores at the front of a text. -/
def lead (cs : List Char) : Nat := (cs.takeWhile (· = '_')).length

theorem lead_drop {cs : List Char} {n : Nat} (le : n ≤ lead cs) :
    lead (cs.drop n) = lead cs - n := by
  induction cs generalizing n with
  | nil => simp [lead]
  | cons c cs ih =>
      cases n with
      | zero => rfl
      | succ n =>
          by_cases under : c = '_'
          · have more : lead (c :: cs) = lead cs + 1 := by simp [lead, under]
            rw [more] at le ⊢
            rw [List.drop_succ_cons, ih (by omega)]
            omega
          · have none_ : lead (c :: cs) = 0 := by simp [lead, under]
            omega

/-- What follows the name of a call is no underscore. -/
theorem Argument.head_ne {text name : List Char} {mark : Char} (h : Argument text name mark)
    (rest : List Char) : ∃ c cs, text ++ rest = c :: cs ∧ c ≠ '_' := by
  cases h with
  | @literal blanks inner name mark outer _ _ _ =>
      cases blanks with
      | nil => exact ⟨_, _, rfl, by decide⟩
      | cons c blanks =>
          refine ⟨c, _, rfl, ?_⟩
          rintro rfl
          exact absurd (outer _ List.mem_cons_self) (by decide)

theorem lead_append {call cs : List Char} {c : Char} (other : c ≠ '_') :
    lead (call ++ c :: cs) = lead call := by
  induction call with
  | nil => simp [lead, other]
  | cons d call ih =>
      by_cases under : d = '_'
      · simpa [lead, under] using ih
      · simp [lead, under]

theorem callAfter_eq_some {call cs name rest : List Char} {n : Nat} {mark : Char} :
    callAfter call cs n = some (name, mark, rest) ↔
      ∃ text, cs.drop n = call ++ (text ++ rest) ∧ Argument text name mark := by
  rw [callAfter]
  constructor
  · intro found
    split at found
    next front =>
      obtain ⟨more, same⟩ := List.isPrefixOf_iff_prefix.mp front
      rw [← same, List.drop_left] at found
      obtain ⟨text, rfl, argument⟩ := argument?_eq_some.mp found
      exact ⟨text, same.symm, argument⟩
    · cases found
  · rintro ⟨text, same, argument⟩
    rw [same, if_pos (List.isPrefixOf_iff_prefix.mpr (List.prefix_append _ _)), List.drop_left]
    exact argument?_eq_some.mpr ⟨text, rfl, argument⟩

/-- How many underscores do not belong to the name of a call is determined by the text. -/
theorem callAfter_unique {call cs : List Char} {m n : Nat} {r r' : List Char × Char × List Char}
    (hm : callAfter call cs m = some r) (hn : callAfter call cs n = some r')
    (lem : m ≤ lead cs) (len : n ≤ lead cs) : m = n := by
  have count {k : Nat} {r : List Char × Char × List Char} (found : callAfter call cs k = some r)
      (le : k ≤ lead cs) : lead cs - k = lead call := by
    obtain ⟨text, same, argument⟩ := callAfter_eq_some.mp found
    obtain ⟨c, more, first, other⟩ := argument.head_ne r.2.2
    rw [← lead_drop le, same, first, lead_append other]
  have first := count hm lem
  have second := count hn len
  omega

theorem afterUnderscores_eq_some {call cs : List Char} {n : Nat} {r : List Char × Char × List Char}
    (found : afterUnderscores call cs n = some r) : ∃ k ≤ n, callAfter call cs k = some r := by
  induction n with
  | zero => exact ⟨0, Nat.le_refl 0, found⟩
  | succ n ih =>
      rw [afterUnderscores] at found
      split at found
      next r' here =>
        cases found
        exact ⟨n + 1, Nat.le_refl _, here⟩
      next none_ =>
        obtain ⟨k, le, here⟩ := ih found
        exact ⟨k, Nat.le_succ_of_le le, here⟩

/-- A call that stands behind some of the underscores is found. -/
theorem afterUnderscores_of_callAfter {call cs : List Char} {k n : Nat}
    {r : List Char × Char × List Char} (here : callAfter call cs k = some r) (le : k ≤ n)
    (bound : n ≤ lead cs) : afterUnderscores call cs n = some r := by
  induction n with
  | zero =>
      obtain rfl := Nat.le_zero.mp le
      exact here
  | succ n ih =>
      rw [afterUnderscores]
      cases more : callAfter call cs (n + 1) with
      | some r' =>
          obtain rfl := callAfter_unique here more (Nat.le_trans le bound) bound
          exact more.symm.trans here
      | none =>
          have less : k ≠ n + 1 := by
            rintro rfl
            rw [here] at more
            cases more
          exact ih (by omega) (by omega)

theorem Written.ne_nil {call text name : List Char} (h : Written call text name) : text ≠ [] := by
  obtain ⟨underscores, rest, mark, rfl, _, argument⟩ := h
  cases argument
  simp

/-- The last character of a call closes its literal. -/
theorem Argument.getLast? {text name : List Char} {mark : Char} (h : Argument text name mark) :
    text.getLast? = some mark := by
  cases h with
  | @literal blanks inner _ _ _ _ _ _ =>
      have last : blanks ++ '(' :: (inner ++ mark :: (name ++ [mark])) =
          blanks ++ '(' :: (inner ++ mark :: name) ++ [mark] := by simp
      rw [last, List.getLast?_concat]

/-- A call at the front of a text is found. -/
theorem call?_of_written {call text name : List Char} {before : Option Char} (rest : List Char)
    (written : Written call text name) (boundary : isBoundary before text.head? = true) :
    ∃ mark, call? call before (text ++ rest) = some (name, mark, rest) := by
  have head : (text ++ rest).head? = text.head? := by
    obtain ⟨c, cs, rfl⟩ := List.exists_cons_of_ne_nil written.ne_nil
    rfl
  obtain ⟨underscores, argument_, mark, rfl, all, argument⟩ := written
  refine ⟨mark, ?_⟩
  rw [call?, head, if_pos boundary]
  have here : callAfter call (underscores ++ call ++ argument_ ++ rest) underscores.length =
      some (name, mark, rest) := by
    refine callAfter_eq_some.mpr ⟨argument_, ?_, argument⟩
    rw [List.append_assoc, List.append_assoc, List.drop_left]
  refine afterUnderscores_of_callAfter here ?_ (Nat.le_refl _)
  have under : ∀ c ∈ underscores, decide (c = '_') = true := by simpa using all
  rw [List.append_assoc, List.append_assoc, List.takeWhile_append_of_pos under, List.length_append]
  exact Nat.le_add_right _ _

/-- What is found at the front of a text is a call at a word boundary. -/
theorem written_of_call? {call cs name rest : List Char} {before : Option Char} {mark : Char}
    (found : call? call before cs = some (name, mark, rest)) :
    ∃ text, cs = text ++ rest ∧ Written call text name ∧ text.getLast? = some mark ∧
      isBoundary before text.head? = true := by
  rw [call?] at found
  split at found
  next boundary =>
    obtain ⟨k, le, here⟩ := afterUnderscores_eq_some found
    obtain ⟨argument_, same, argument⟩ := callAfter_eq_some.mp here
    have whole : cs = cs.take k ++ call ++ argument_ ++ rest := by
      rw [List.append_assoc, List.append_assoc, ← same, List.take_append_drop]
    have all : ∀ c ∈ cs.take k, c = '_' := by
      intro c hc
      have early : cs.take k <+: cs.takeWhile (· = '_') :=
        List.prefix_of_prefix_length_le (List.take_prefix _ _) (List.takeWhile_prefix _)
          (by rw [List.length_take]; omega)
      exact of_decide_eq_true (List.mem_takeWhile_imp (p := (· = '_')) (early.subset hc))
    have written : Written call (cs.take k ++ call ++ argument_) name :=
      ⟨cs.take k, argument_, mark, rfl, all, argument⟩
    refine ⟨_, whole, written, ?_, ?_⟩
    · rw [List.getLast?_append, argument.getLast?]
      rfl
    · rw [whole] at boundary
      obtain ⟨c, more, first⟩ := List.exists_cons_of_ne_nil written.ne_nil
      rw [first] at boundary ⊢
      exact boundary
  · cases found

/-- A call at the front of a text is found there. -/
theorem Standing.found {call cs text rest name : List Char} {before : Option Char}
    (h : Standing call before cs [] text rest name) :
    ∃ mark, call? call before cs = some (name, mark, rest) := by
  rw [h.whole]
  exact call?_of_written rest h.written h.boundary

/-- What is found behind a call is found from where the search goes on. -/
theorem Standing.behind {call cs text more front' text' rest' name' : List Char}
    {before : Option Char} {mark : Char} (whole : cs = text ++ more)
    (last : text.getLast? = some mark)
    (h : Standing call (some mark) more front' text' rest' name') :
    Standing call before cs (text ++ front') text' rest' name' where
  whole := by rw [whole, h.whole]; simp only [List.append_assoc]
  written := h.written
  boundary := by
    have same : ((text ++ front').getLast?).or before = front'.getLast?.or (some mark) := by
      rw [List.getLast?_append, last, Option.or_assoc, Option.some_or]
    rw [same]
    exact h.boundary

/-- What stands behind a part that is passed over stands at the same place of the rest. -/
theorem Standing.onward {call cs skipped more gap text rest name : List Char}
    {before : Option Char} {mark : Char} (whole : cs = skipped ++ more)
    (last : skipped.getLast? = some mark)
    (h : Standing call before cs (skipped ++ gap) text rest name) :
    Standing call (some mark) more gap text rest name where
  whole := by
    have both := whole.symm.trans h.whole
    simpa only [List.append_assoc, List.append_cancel_left_eq] using both
  written := h.written
  boundary := by
    have boundary := h.boundary
    rwa [List.getLast?_append, last, Option.or_assoc, Option.some_or] at boundary

/-- If no call runs into a place, none behind a part that is passed over does. -/
theorem clear_onward {call cs skipped more gap : List Char} {before : Option Char} {mark : Char}
    (whole : cs = skipped ++ more) (last : skipped.getLast? = some mark)
    (clear : ∀ front' text' rest' name', Standing call before cs front' text' rest' name' →
      front'.length < (skipped ++ gap).length → (front' ++ text').length ≤ (skipped ++ gap).length)
    (front' text' rest' name' : List Char)
    (other : Standing call (some mark) more front' text' rest' name')
    (early : front'.length < gap.length) : (front' ++ text').length ≤ gap.length := by
  have ends := clear _ _ _ _ (other.behind whole last) (by
    simp only [List.length_append]
    omega)
  simp only [List.length_append] at ends ⊢
  omega

theorem search_of_call? {call cs name rest : List Char} {before : Option Char} {mark : Char}
    (found : call? call before cs = some (name, mark, rest)) (n : Nat) :
    search call (n + 1) before cs = name :: search call n (some mark) rest := by
  simp [search, found]

theorem search_of_none {call cs : List Char} {before : Option Char} {c : Char}
    (none_ : call? call before (c :: cs) = none) (n : Nat) :
    search call (n + 1) before (c :: cs) = search call n (some c) cs := by
  simp [search, none_]

/-- A call that stands at a word boundary is found, unless a call that starts before it ends behind
its start. -/
theorem mem_search {call cs front text rest name : List Char} {before : Option Char} {n : Nat}
    (fuel : cs.length < n) (standing : Standing call before cs front text rest name)
    (clear : ∀ front' text' rest' name', Standing call before cs front' text' rest' name' →
      front'.length < front.length → (front' ++ text').length ≤ front.length) :
    name ∈ search call n before cs := by
  induction n generalizing before cs front with
  | zero => exact absurd fuel (Nat.not_lt_zero _)
  | succ n ih =>
      -- What is found at the front of the text is the call itself or ends in front of it.
      have onward {skipped more : List Char} {mark : Char} (whole : cs = skipped ++ more)
          (last : skipped.getLast? = some mark) (front_ : skipped <+: front) :
          name ∈ search call n (some mark) more := by
        obtain ⟨gap, rfl⟩ := front_
        have shorter : more.length < cs.length := by
          rw [whole, List.length_append]
          cases skipped with
          | nil => cases last
          | cons c skipped => simp
        exact ih (by omega) (standing.onward whole last) (clear_onward whole last clear)
      cases found : call? call before cs with
      | some r =>
          obtain ⟨name', mark, more⟩ := r
          rw [search_of_call? found]
          obtain ⟨text', whole, written, last, boundary⟩ := written_of_call? found
          cases front with
          | nil =>
              obtain ⟨mark', again⟩ := standing.found
              rw [found] at again
              cases again
              exact List.mem_cons_self
          | cons c front =>
              have ends := clear [] text' more name' ⟨whole, written, boundary⟩ (by simp)
              have front_ : text' <+: c :: front := by
                refine List.prefix_of_prefix_length_le (whole ▸ List.prefix_append _ _) ?_ ends
                rw [standing.whole, List.append_assoc]
                exact List.prefix_append _ _
              exact List.mem_cons_of_mem _ (onward whole last front_)
      | none =>
          cases front with
          | nil =>
              obtain ⟨mark, again⟩ := standing.found
              rw [found] at again
              cases again
          | cons c front =>
              have whole := standing.whole
              rw [List.append_assoc, List.cons_append, ← List.append_assoc] at whole
              subst whole
              rw [search_of_none found]
              exact onward (List.singleton_append).symm rfl ⟨front, rfl⟩

/-- A call in a source that stands at a word boundary is found, unless a call that starts before it
ends behind its start. -/
theorem mem_names_of_standing {source call : String} {front text rest name : List Char}
    (standing : Standing call.toList none source.toList front text rest name)
    (clear : ∀ front' text' rest' name',
      Standing call.toList none source.toList front' text' rest' name' →
        front'.length < front.length → (front' ++ text').length ≤ front.length) :
    String.ofList name ∈ names source call := by
  rw [names, List.mem_eraseDups]
  exact List.mem_map_of_mem (mem_search (Nat.lt_succ_self _) standing clear)

/-- Before the first place at which the name of a call stands, no call starts but with underscores
in front of it. -/
theorem clear_of_first {call cs front text rest : List Char} (whole : cs = front ++ text ++ rest)
    (last : front.getLast? ≠ some '_') (first : ∀ k < front.length, ¬call <+: cs.drop k) :
    ∀ front' text' rest' name', Standing call none cs front' text' rest' name' →
      front'.length < front.length → (front' ++ text').length ≤ front.length := by
  intro front' text' rest' name' standing early
  obtain ⟨underscores, argument, mark, rfl, all, _⟩ := standing.written
  have parts : cs = (front' ++ underscores) ++ (call ++ (argument ++ rest')) := by
    rw [standing.whole]
    simp only [List.append_assoc]
  by_cases inside : (front' ++ underscores).length < front.length
  · refine absurd ?_ (first _ inside)
    rw [parts, List.drop_left]
    exact List.prefix_append _ _
  · -- The underscores go on to the end of the part in front.
    have within : front <+: front' ++ underscores := by
      refine List.prefix_of_prefix_length_le ?_ (parts ▸ List.prefix_append _ _) (by omega)
      rw [whole, List.append_assoc]
      exact List.prefix_append _ _
    obtain ⟨more, longer⟩ := within
    obtain ⟨skipped, rfl⟩ : front' <+: front :=
      List.prefix_of_prefix_length_le (longer ▸ List.prefix_append _ _)
        (List.prefix_append front more) (Nat.le_of_lt early)
    rw [List.append_assoc, List.append_cancel_left_eq] at longer
    cases skipped using List.reverseRecOn with
    | nil => simp at early
    | append_singleton skipped c =>
        have under : c = '_' := all c (longer ▸ by simp)
        rw [← List.append_assoc, List.getLast?_concat, under] at last
        exact absurd rfl last

end Resolution

namespace Plan

open Resolution

variable {m : Module} {settings : ClassifySettings}

/-- A name that is looked up is never rebound. -/
theorem not_mem_names_of_resolved {name : String}
    (resolved : name ∈ Resolution.names m.source settings.resolveCall) :
    (∀ d b, (Policy.of m settings).isRebindable d b → b.localName ≠ name) ∧
      name ∉ (Plan.of m settings).names := by
  have fixed : ∀ d b, (Policy.of m settings).isRebindable d b → b.localName ≠ name := by
    rintro d b rebindable rfl
    have known : b.localName ∈ (Policy.of m settings).resolved := resolved
    simp [Policy.isRebindable, known] at rebindable
  refine ⟨fixed, fun listed => ?_⟩
  obtain ⟨g, hg, bound⟩ := List.mem_flatMap.mp listed
  obtain ⟨b, hb, same⟩ := List.mem_map.mp bound
  rw [bindings_of_mem m settings hg] at hb
  have among := (eraseDupsBy_sublist _ _).subset hb
  obtain ⟨d, _, kept⟩ := List.mem_flatMap.mp among
  exact fixed _ _ (List.mem_filter.mp kept).2 same

/-- The name in a call is looked up, and stays, if the call starts with a character of a word,
behind a character that cannot be part of an identifier, and no call that starts before it ends
behind its start. -/
theorem looked_up_stays {front text rest name : List Char}
    (whole : m.source.toList = front ++ text ++ rest)
    (written : Written settings.resolveCall.toList text name)
    (word : text.head?.any isWordChar = true)
    (apart : ∀ c, front.getLast? = some c → Script.isIdentifierPart c = false)
    (clear : ∀ front' text' rest' name',
      Standing settings.resolveCall.toList none m.source.toList front' text' rest' name' →
        front'.length < front.length → (front' ++ text').length ≤ front.length) :
    String.ofList name ∈ Resolution.names m.source settings.resolveCall ∧
      (∀ d b, (Policy.of m settings).isRebindable d b → b.localName ≠ String.ofList name) ∧
      String.ofList name ∉ (Plan.of m settings).names := by
  have boundary : isBoundary (front.getLast?.or none) text.head? = true := by
    have before : (front.getLast?.or none).any isWordChar = false := by
      rw [Option.or_none]
      cases last : front.getLast? with
      | none => rfl
      | some c =>
          have outside := apart c last
          simp only [Script.isIdentifierPart, Bool.or_eq_false_iff] at outside
          simp [isWordChar, outside]
    rw [isBoundary, before, word]
    rfl
  have resolved := mem_names_of_standing ⟨whole, written, boundary⟩ clear
  exact ⟨resolved, not_mem_names_of_resolved resolved⟩

/-- A call in backticks, with an underscore in front of it and blanks around the opening
parenthesis. -/
theorem looked_up_stays_card :
    ∃ m front text rest,
      Module.parse "a.js"
        "import { Card, a } from './u';\ndefineComponent(_resolveComponent ( `Card`), a)" = .ok m ∧
      m.source.toList = front ++ text ++ rest ∧
      Written "resolveComponent".toList text "Card".toList ∧
      text.head?.any isWordChar = true ∧
      (∀ c, front.getLast? = some c → Script.isIdentifierPart c = false) ∧
      (∀ front' text' rest' name',
        Standing "resolveComponent".toList none m.source.toList front' text' rest' name' →
          front'.length < front.length → (front' ++ text').length ≤ front.length) ∧
      (String.ofList "Card".toList ∈ Resolution.names m.source "resolveComponent" ∧
        (∀ d b, (Policy.of m {}).isRebindable d b → b.localName ≠ String.ofList "Card".toList) ∧
        String.ofList "Card".toList ∉ (Plan.of m {}).names) ∧
      (Plan.of m {}).names = ["a"] := by
  obtain ⟨m, parsed, source, names⟩ : ∃ m, Module.parse "a.js"
      "import { Card, a } from './u';\ndefineComponent(_resolveComponent ( `Card`), a)" = .ok m ∧
      m.source = "import { Card, a } from './u';\ndefineComponent(_resolveComponent ( `Card`), a)" ∧
      (Plan.of m {}).names = ["a"] :=
    ⟨⟨"a.js", _, [⟨0, 30, .importing ⟨"./u", [⟨"Card", .named "Card"⟩, ⟨"a", .named "a"⟩],
      .evaluation, false⟩⟩, ⟨31, 78, .other⟩]⟩, by decide +kernel, rfl, by decide +kernel⟩
  have whole : m.source.toList = "import { Card, a } from './u';\ndefineComponent(".toList ++
      "_resolveComponent ( `Card`".toList ++ "), a)".toList := by
    rw [source]
    decide +kernel
  have written : Written "resolveComponent".toList "_resolveComponent ( `Card`".toList
      "Card".toList := by
    have blank : ∀ c ∈ " ".toList, isBlank c := List.all_eq_true.mp (by decide +kernel)
    have inside : ∀ c ∈ "Card".toList, isInside '`' c := List.all_eq_true.mp (by decide +kernel)
    exact ⟨['_'], " ".toList ++ '(' :: (" ".toList ++ '`' :: ("Card".toList ++ ['`'])), '`',
      by decide +kernel, by simp, .literal blank blank (.inr (.inr rfl)) inside⟩
  have word : "_resolveComponent ( `Card`".toList.head?.any isWordChar = true := by
    decide +kernel
  have last : "import { Card, a } from './u';\ndefineComponent(".toList.getLast? = some '(' := by
    decide +kernel
  have apart : ∀ c, "import { Card, a } from './u';\ndefineComponent(".toList.getLast? = some c →
      Script.isIdentifierPart c = false := by
    intro c same
    rw [last] at same
    cases same
    decide +kernel
  have first : ∀ k < "import { Card, a } from './u';\ndefineComponent(".toList.length,
      ¬"resolveComponent".toList <+: m.source.toList.drop k := by
    rw [source]
    decide +kernel
  have clear := clear_of_first whole (by rw [last]; decide) first
  have stays := @looked_up_stays m {} _ _ _ _ whole written word apart clear
  exact ⟨m, _, _, _, parsed, whole, written, word, apart, clear, stays, names⟩

/-- A call that stands where no identifier goes on, and looks up a name that is rebound. -/
structure Misses (m : Module) (settings : ClassifySettings) (name : String) : Prop where
  valid : Settings.checkClassify settings = []
  call : ∃ front text rest, m.source.toList = front ++ text ++ rest ∧
    Written settings.resolveCall.toList text name.toList ∧
    ∀ c, front.getLast? = some c → Script.isIdentifierPart c = false
  missed : name ∉ Resolution.names m.source settings.resolveCall
  rebound : name ∈ (Plan.of m settings).names

/-- A call with nothing between its name and a literal in double quotes. -/
theorem written_double {call name : String} (inside : ∀ c ∈ name.toList, isInside '"' c) :
    Written call.toList (call.toList ++ '(' :: '"' :: (name.toList ++ ['"'])) name.toList := by
  refine ⟨[], '(' :: '"' :: (name.toList ++ ['"']), '"', rfl, by simp, ?_⟩
  have none_ : ∀ c ∈ ([] : List Char), isBlank c := by simp
  exact .literal none_ none_ (.inl rfl) inside

/-- A literal in a comment that runs on up to the opening mark of a call hides the call, and a call
whose name starts with a dollar sign starts at no word boundary. -/
theorem looked_up_is_rebound :
    (∃ m, Module.parse "a.js" ("import { Badge } from './ui.js'; // resolveComponent(\"\n" ++
        "defineComponent(() => resolveComponent(\"Badge\"))") = .ok m ∧ Misses m {} "Badge") ∧
      ∃ m, Module.parse "b.js" ("import { Badge } from './ui.js';\n" ++
        "defineComponent(() => $resolve(\"Badge\"))") = .ok m ∧
        Misses m { resolveCall := "$resolve" } "Badge" := by
  have last {front : List Char} (ends : front.getLast? = some ' ') :
      ∀ c, front.getLast? = some c → Script.isIdentifierPart c = false := by
    intro c same
    rw [ends] at same
    cases same
    decide +kernel
  have inside : ∀ c ∈ "Badge".toList, isInside '"' c := List.all_eq_true.mp (by decide +kernel)
  constructor
  · refine ⟨⟨"a.js", "import { Badge } from './ui.js'; // resolveComponent(\"\n" ++
        "defineComponent(() => resolveComponent(\"Badge\"))",
      [⟨0, 32, .importing ⟨"./ui.js", [⟨"Badge", .named "Badge"⟩], .evaluation, false⟩⟩,
        ⟨55, 103, .other⟩]⟩,
      by decide +kernel, by decide +kernel, ?_, by decide +kernel, by decide +kernel⟩
    refine ⟨("import { Badge } from './ui.js'; // resolveComponent(\"\n" ++
      "defineComponent(() => ").toList, _, "))".toList, ?_, written_double inside, last ?_⟩
    · decide +kernel
    · decide +kernel
  · refine ⟨⟨"b.js", "import { Badge } from './ui.js';\n" ++
        "defineComponent(() => $resolve(\"Badge\"))",
      [⟨0, 32, .importing ⟨"./ui.js", [⟨"Badge", .named "Badge"⟩], .evaluation, false⟩⟩,
        ⟨33, 73, .other⟩]⟩,
      by decide +kernel, by decide +kernel, ?_, by decide +kernel, by decide +kernel⟩
    refine ⟨"import { Badge } from './ui.js';\ndefineComponent(() => ".toList, _, "))".toList, ?_,
      written_double inside, last ?_⟩
    · decide +kernel
    · decide +kernel

end Plan
end HotReload
