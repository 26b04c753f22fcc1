import HotReload.Proofs.Change.References
import HotReload.Proofs.Session.Registries

/-!
# The URLs that a session loads

Whatever question marks, ampersands, digits or time stamps a path holds, its last equals sign stands
in front of the time stamp that was put at its end, so that a stamped URL tells its path and its
time stamp (`Change.stampedUrl_inj`).

A change loads no module but its own, and this by its stamped URL (`Reconcile.url_of_load`).  Hence
over several changes of a session no URL is loaded for two different files, or for one file at two
different times (`Session.loads_apart`).
-/

namespace HotReload

namespace Text

/-- What stands on both sides of the last occurrence of a character. -/
theorem append_cons_inj_of_notMem {c : Char} {front front' rest rest' : List Char} (h : c ∉ rest)
    (h' : c ∉ rest') :
    front ++ c :: rest = front' ++ c :: rest' ↔ front = front' ∧ rest = rest' := by
  refine ⟨fun same => ?_, fun parts => by rw [parts.1, parts.2]⟩
  -- Read backwards, it is the first occurrence.
  have backwards (front rest : List Char) :
      (front ++ c :: rest).reverse = rest.reverse ++ c :: front.reverse := by
    simp
  have cut := congrArg (fun text => cutAt c text.reverse) same
  simp only [backwards] at cut
  rw [cutAt_append _ (by simpa using h), cutAt_append _ (by simpa using h')] at cut
  simp only [Prod.mk.injEq, Option.some.injEq, List.reverse_inj] at cut
  exact cut.symm

theorem decimal_injective : Function.Injective decimal := by
  intro m n same
  calc
    m = Nat.ofDigitChars 10 (decimal m) 0 := Nat.ofDigitChars_ten_toDigits.symm
    _ = Nat.ofDigitChars 10 (decimal n) 0 := by rw [same]
    _ = n := Nat.ofDigitChars_ten_toDigits

end Text

/-- A specifier with a parameter tells the specifier and the value. -/
theorem Specifier.withParameter_inj {s s' name value value' : List Char} (h : '=' ∉ value)
    (h' : '=' ∉ value') :
    withParameter s name value = withParameter s' name value' ↔ s = s' ∧ value = value' := by
  refine ⟨fun same => ?_, fun parts => by rw [parts.1, parts.2]⟩
  have parts (s value : List Char) (separator : Char) :
      s ++ separator :: (name ++ '=' :: value) = (s ++ separator :: name) ++ '=' :: value := by
    simp
  rw [withParameter_eq, withParameter_eq, parts, parts, Text.append_cons_inj_of_notMem h h'] at same
  obtain ⟨front, values⟩ := same
  exact ⟨(List.append_inj' front rfl).1, values⟩

/-- Stamped URLs are the same only for the same path and the same time stamp. -/
theorem Change.stampedUrl_inj {path path' : String} {timestamp timestamp' : UInt64} :
    stampedUrl path timestamp = stampedUrl path' timestamp' ↔
      path = path' ∧ timestamp = timestamp' := by
  have plain (n : Nat) : '=' ∉ Text.decimal n := fun sign =>
    absurd (isParameterChar_of_mem_decimal sign) (by decide)
  rw [← String.toList_inj, toList_stampedUrl, toList_stampedUrl,
    Specifier.withParameter_inj (plain _) (plain _), String.toList_inj,
    Text.decimal_injective.eq_iff, UInt64.toNat_inj]

namespace Reconcile

open Component

variable {σ ι ν δ : Type} {h : Host σ ι ν δ} {e : Change.Event} {p : Parent ι} {s s' : σ}
variable {cs : List (Call ι δ)} {url : String} {answer : Except HostFault δ}

/-- Renders load nothing. -/
theorem not_load_of_isRender (renders : ∀ call ∈ cs, isRender call = true) :
    Call.load url answer ∉ cs := fun member => Bool.false_ne_true (renders _ member)

theorem Prepares.url_of_load {result : Except HostFault (Bool × Option (List String))}
    (prepared : Prepares h e p s cs result s') (member : Call.load url answer ∈ cs) :
    url = e.url := by
  cases prepared with
  | notLoaded _ => exact (Call.load.inj (List.mem_singleton.mp member)).1
  | notHeld _ _ => exact (Call.load.inj (List.mem_singleton.mp member)).1
  | notRebound _ _ _ =>
      simp at member
      exact member.1
  | rebound _ _ _ =>
      simp at member
      exact member.1

variable [DecidableEq ι] {root : ι}

theorem Patches.url_of_load {patch : ParentPatch} (turn : Patches h root e p s cs patch s')
    (member : Call.load url answer ∈ cs) : url = e.url := by
  cases turn with
  | wrapper _ renders => exact absurd member (not_load_of_isRender renders.isRender)
  | staleWrapper _ renders => exact absurd member (not_load_of_isRender renders.isRender)
  | unprepared _ prepared => exact prepared.url_of_load member
  | stale _ prepared renders =>
      rcases List.mem_append.mp member with first | later
      · exact prepared.url_of_load first
      · exact absurd later (not_load_of_isRender renders.isRender)
  | rendered _ prepared renders _ =>
      rcases List.mem_append.mp member with first | later
      · exact prepared.url_of_load first
      · exact absurd later (not_load_of_isRender renders.isRender)
  | propagated _ prepared renders _ all =>
      rcases List.mem_append.mp member with first | later
      · exact prepared.url_of_load first
      · refine absurd later (not_load_of_isRender fun call rendering => ?_)
        exact (List.mem_append.mp rendering).elim (renders.isRender call) (all.isRender call)

theorem PatchesAll.url_of_load {ps : List (Parent ι)} {turns : List (List (Call ι δ))}
    {patches : List ParentPatch} (all : PatchesAll h root e ps s turns patches s')
    (member : Call.load url answer ∈ turns.flatten) : url = e.url := by
  induction all with
  | none => simp at member
  | turn first _ ih =>
      rw [List.flatten_cons] at member
      exact (List.mem_append.mp member).elim first.url_of_load ih

/-- Reconciling a change loads its own module only. -/
theorem url_of_load {c : Context ι}
    (member : Call.load url answer ∈ callsOf (reconcile h c e s).journal) : url = e.url := by
  cases route : e.route with
  | plain =>
      obtain ⟨_, _, _, _, runs⟩ := reconcile_plain (h := h) (c := c) (s := s) route
      rw [runs.calls] at member
      exact (Call.load.inj (List.mem_singleton.mp member)).1
  | component =>
      rcases reconcile_component (h := h) (c := c) (s := s) route with
        ⟨_, _, runs⟩ | ⟨_, _, _, _, all, runs⟩
      · rw [runs.calls] at member
        exact absurd member List.not_mem_nil
      · rw [runs.calls] at member
        exact all.url_of_load member

end Reconcile

namespace Session

open Component Reconcile

variable {σ ι ν δ : Type}

/-- The URL that a call loads. -/
def loadedUrl? : Call ι δ → Option String
  | .load url _ => some url
  | _ => none

theorem mem_loadedUrls {calls : List (Call ι δ)} {url : String} :
    url ∈ calls.filterMap loadedUrl? ↔ ∃ answer, Call.load url answer ∈ calls := by
  rw [List.mem_filterMap]
  constructor
  · rintro ⟨call, member, loaded⟩
    cases call with
    | load url' answer =>
        obtain rfl : url' = url := Option.some.inj loaded
        exact ⟨answer, member⟩
    | _ => cases loaded
  · rintro ⟨answer, member⟩
    exact ⟨_, member, rfl⟩

section

variable [DecidableEq ι] (h : Host σ ι ν δ)

/-- The URLs that each of several changes loads, where each comes with the state in which it finds
the host. -/
def loads (s : Session ι) : List (Change.Event × σ) → List (Change.Event × List String)
  | [] => []
  | (e, state) :: changes =>
    let t := s.dispatch h e state
    (e, (callsOf t.steps).filterMap loadedUrl?) :: loads t.session changes

/-- In a session too, a change loads its own module only. -/
theorem url_of_mem_loads {s : Session ι} {changes : List (Change.Event × σ)} {e : Change.Event}
    {urls : List String} (change : (e, urls) ∈ loads h s changes) {url : String}
    (loaded : url ∈ urls) : url = e.url := by
  induction changes generalizing s with
  | nil => exact absurd change List.not_mem_nil
  | cons first changes ih =>
      rcases List.mem_cons.mp change with own | later
      · obtain ⟨rfl, rfl⟩ := Prod.mk.inj own
        obtain ⟨answer, member⟩ := mem_loadedUrls.mp loaded
        rw [callsOf_dispatch] at member
        exact url_of_load member
      · exact ih later

end

/-- Stamped URLs are the same only for the same path and the same time stamp.  So whatever the host
does and whatever happens between them, two changes of a session that are of different files or of
different times load no URL both. -/
theorem loads_apart [DecidableEq ι] (h : Host σ ι ν δ) :
    Function.Injective2 Change.stampedUrl ∧
    ∀ (s : Session ι) (changes : List (Change.Event × σ)),
      (loads h s changes).Pairwise fun a b =>
        (a.1.path ≠ b.1.path ∨ a.1.timestamp ≠ b.1.timestamp) → a.2.Disjoint b.2 := by
  refine ⟨fun path path' timestamp timestamp' same => Change.stampedUrl_inj.mp same,
    fun s changes => List.pairwise_of_forall_mem_list ?_⟩
  rintro ⟨e, urls⟩ first ⟨e', urls'⟩ second different url loaded loaded'
  have own := url_of_mem_loads h first loaded
  have other := url_of_mem_loads h second loaded'
  obtain ⟨path, timestamp⟩ := Change.stampedUrl_inj.mp (own.symm.trans other)
  exact different.elim (fun apart => apart path) (fun apart => apart timestamp)

/-- Two changes of the card and one of a module whose path looks like the URL of the first. -/
theorem loads_apart_page :
    let first := Change.Event.ofComponent "Card" "/src/Card.vue" 1
    let second := Change.Event.ofComponent "Card" "/src/Card.vue" 11
    let third := Change.Event.ofPlain "/src/Card.vue?t=1" 1
    let found := loads registering (start 0 ["vue"])
      [(first, fun _ => "old"), (second, fun _ => "old"), (third, fun _ => "old")]
    found = [(first, ["/src/Card.vue?t=1"]), (second, ["/src/Card.vue?t=11"]),
      (third, ["/src/Card.vue?t=1&t=1"])] ∧
    found.Pairwise fun a b =>
      (a.1.path ≠ b.1.path ∨ a.1.timestamp ≠ b.1.timestamp) → a.2.Disjoint b.2 :=
  ⟨by decide +kernel, (loads_apart registering).2 _ _⟩

end Session
end HotReload
