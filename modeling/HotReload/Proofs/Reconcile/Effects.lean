import HotReload.Reconcile.Basic

/-!
# What reconciling a change does to the host

The calls that an activity makes, its result and the state that it leaves are described by relations
that follow the host's answers: one for a forced render (`Renders`), for the renders of several
instances (`RendersAll`), for loading and rebinding (`Prepares`), for the turn of one parent
(`Patches`) and for the turns of all of them (`PatchesAll`).  Every activity does what its relation
says (`forceRender_renders`, `renderAll_renders`, `attemptParent_patches`, `patchAll_patches`), so
what follows about a change can be read off the relations, with a case for each way a call can fail.
-/

namespace HotReload
namespace Reconcile

open Component

variable {σ ι ν δ α β : Type}

/-- An activity that is started in a state makes these calls, gives this result and ends in this
state. -/
structure Runs (x : Activity σ ι δ α) (s : σ) (calls : List (Call ι δ)) (a : α) (s' : σ) :
    Prop where
  calls : callsOf (x s).journal = calls
  result : (x s).result = a
  state : (x s).state = s'

namespace Runs

variable {x : Activity σ ι δ α} {f : α → Activity σ ι δ β} {s s₁ s₂ : σ} {a : α} {b : β}
variable {cs ds : List (Call ι δ)}

theorem bind (first : Runs x s cs a s₁) (second : Runs (f a) s₁ ds b s₂) :
    Runs (x >>= f) s (cs ++ ds) b s₂ := by
  obtain ⟨rfl, rfl, rfl⟩ := first
  obtain ⟨rfl, rfl, rfl⟩ := second
  exact ⟨callsOf_append _ _, rfl, rfl⟩

theorem pure (a : α) (s : σ) : Runs (Pure.pure a : Activity σ ι δ α) s [] a s := ⟨rfl, rfl, rfl⟩

/-- After an activity without calls. -/
theorem quiet (first : Runs x s [] a s₁) (second : Runs (f a) s₁ ds b s₂) :
    Runs (x >>= f) s ds b s₂ := first.bind second

/-- Before an activity without calls. -/
theorem still (first : Runs x s cs a s₁) (second : Runs (f a) s₁ [] b s₂) :
    Runs (x >>= f) s cs b s₂ := by
  have both := first.bind second
  rwa [List.append_nil] at both

end Runs

/-- Notes are no calls. -/
theorem callsOf_notes (notes : List Terminal.Note) :
    callsOf (ι := ι) (δ := δ) (notes.map .note) = [] := by
  induction notes with
  | nil => rfl
  | cons n notes ih => exact ih

theorem runs_log (notes : List Terminal.Note) (s : σ) :
    Runs (Activity.log notes : Activity σ ι δ Unit) s [] () s := ⟨callsOf_notes notes, rfl, rfl⟩

theorem runs_look (f : σ → α) (s : σ) : Runs (Activity.look f : Activity σ ι δ α) s [] (f s) s :=
  ⟨rfl, rfl, rfl⟩

theorem runs_takeSnapshot (h : Host σ ι ν δ) (root : ι) (s : σ) :
    Runs (takeSnapshot h root) s [] (h.snapshot s root) s := by
  refine ⟨?_, rfl, rfl⟩
  have notes := callsOf_notes (ι := ι) (δ := δ) ((h.cuts s root).map fun c => detail c.message)
  rwa [List.map_map] at notes

theorem runs_perform {call : σ → Except HostFault α × σ} (entry : Except HostFault α → Call ι δ)
    {s s' : σ} {answer : Except HostFault α} (h : call s = (answer, s')) :
    Runs (Activity.perform call entry) s [entry answer] answer s' := by
  unfold Activity.perform
  constructor
  all_goals rw [h]
  rfl

/-- A forced render of an instance: through its public entry point, or through the internal one if
there is no public one. -/
inductive Renders (h : Host σ ι ν δ) (i : ι) (s : σ) :
    List (Call ι δ) → Except HostFault Unit → σ → Prop
  | viaPublic {answer : Except HostFault Unit} {s' : σ} :
      h.forceUpdate i s = (answer, s') → (∀ entry, answer ≠ .error (.unavailable entry)) →
      Renders h i s [.force i answer] answer s'
  | viaInternal {entry : String} {answer : Except HostFault Unit} {s₁ s' : σ} :
      h.forceUpdate i s = (.error (.unavailable entry), s₁) →
      h.internalUpdate i s₁ = (answer, s') →
      Renders h i s [.force i (.error (.unavailable entry)), .internal i answer] answer s'

/-- Forced renders of the instances of several parents, in order, and how many succeed. -/
inductive RendersAll (h : Host σ ι ν δ) :
    List (Parent ι) → σ → List (Call ι δ) → Nat → σ → Prop
  | none {s : σ} : RendersAll h [] s [] 0 s
  | rendered {p : Parent ι} {ps : List (Parent ι)} {s s₁ s₂ : σ} {cs ds : List (Call ι δ)}
      {n : Nat} :
      Renders h p.handle s cs (.ok ()) s₁ → RendersAll h ps s₁ ds n s₂ →
      RendersAll h (p :: ps) s (cs ++ ds) (n + 1) s₂
  | failed {p : Parent ι} {ps : List (Parent ι)} {s s₁ s₂ : σ} {cs ds : List (Call ι δ)} {n : Nat}
      {fault : HostFault} :
      Renders h p.handle s cs (.error fault) s₁ → RendersAll h ps s₁ ds n s₂ →
      RendersAll h (p :: ps) s (cs ++ ds) n s₂

theorem forceRender_renders (h : Host σ ι ν δ) (i : ι) (s : σ) :
    ∃ cs answer s', Renders h i s cs answer s' ∧ Runs (forceRender h i) s cs answer s' := by
  rcases first : h.forceUpdate i s with ⟨answer, s₁⟩
  have performed := runs_perform (ι := ι) (δ := δ) (Call.force i) first
  by_cases missing : ∃ entry, answer = .error (.unavailable entry)
  · obtain ⟨entry, rfl⟩ := missing
    rcases second : h.internalUpdate i s₁ with ⟨answer, s₂⟩
    exact ⟨_, _, _, .viaInternal first second,
      performed.bind (runs_perform (Call.internal i) second)⟩
  · have there : ∀ entry, answer ≠ .error (.unavailable entry) :=
      fun entry same => missing ⟨entry, same⟩
    refine ⟨_, _, _, .viaPublic first there, performed.still ?_⟩
    split
    · rename_i entry
      exact absurd rfl (there entry)
    · exact .pure _ _

theorem renderAll_renders (h : Host σ ι ν δ) (ps : List (Parent ι)) (s : σ) :
    ∃ cs n s', RendersAll h ps s cs n s' ∧ Runs (renderAll h ps) s cs n s' := by
  induction ps generalizing s with
  | nil => exact ⟨_, _, _, .none, .pure 0 s⟩
  | cons p ps ih =>
      obtain ⟨cs, answer, s₁, renders, runs⟩ := forceRender_renders h p.handle s
      obtain ⟨ds, n, s₂, rest, later⟩ := ih s₁
      cases answer with
      | ok _ => exact ⟨_, _, _, .rendered renders rest, runs.bind (later.still (.pure (n + 1) s₂))⟩
      | error fault =>
          exact ⟨_, _, _, .failed renders rest, runs.bind ((runs_log _ s₁).quiet later)⟩

/-- The changed module is loaded, and rebound in the registry that the parent then has if that holds
its name; the result says whether it was rebound, and in which registry. -/
inductive Prepares (h : Host σ ι ν δ) (e : Change.Event) (p : Parent ι) (s : σ) :
    List (Call ι δ) → Except HostFault (Bool × Option (List String)) → σ → Prop
  | notLoaded {fault : HostFault} {s' : σ} :
      h.load e.url s = (.error fault, s') →
      Prepares h e p s [.load e.url (.error fault)] (.error fault) s'
  | notHeld {d : δ} {s' : σ} :
      h.load e.url s = (.ok d, s') → holds (h.registered s' p.handle) e.component = false →
      Prepares h e p s [.load e.url (.ok d)] (.ok (false, h.registered s' p.handle)) s'
  | notRebound {d : δ} {fault : HostFault} {s₁ s' : σ} :
      h.load e.url s = (.ok d, s₁) → holds (h.registered s₁ p.handle) e.component = true →
      h.rebind p.handle e.component d s₁ = (.error fault, s') →
      Prepares h e p s
        [.load e.url (.ok d), .rebind p.handle e.component d (.error fault)] (.error fault) s'
  | rebound {d : δ} {s₁ s' : σ} :
      h.load e.url s = (.ok d, s₁) → holds (h.registered s₁ p.handle) e.component = true →
      h.rebind p.handle e.component d s₁ = (.ok (), s') →
      Prepares h e p s [.load e.url (.ok d), .rebind p.handle e.component d (.ok ())]
        (.ok (true, h.registered s₁ p.handle)) s'

/-- The turn of one parent. -/
inductive Patches [DecidableEq ι] (h : Host σ ι ν δ) (root : ι) (e : Change.Event) (p : Parent ι)
    (s : σ) : List (Call ι δ) → ParentPatch → σ → Prop
  | wrapper {cs : List (Call ι δ)} {s' : σ} :
      p.wrapper.rendersOnly = true → Renders h p.handle s cs (.ok ()) s' →
      Patches h root e p s cs { name := p.name, rendered := true } s'
  | staleWrapper {cs : List (Call ι δ)} {fault : HostFault} {s' : σ} :
      p.wrapper.rendersOnly = true → Renders h p.handle s cs (.error fault) s' →
      Patches h root e p s cs { name := p.name } s'
  | unprepared {cs : List (Call ι δ)} {fault : HostFault} {s' : σ} :
      p.wrapper.rendersOnly = false → Prepares h e p s cs (.error fault) s' →
      Patches h root e p s cs { name := p.name } s'
  | stale {cs ds : List (Call ι δ)} {rebound : Bool} {registry : Option (List String)}
      {fault : HostFault} {s₁ s' : σ} :
      p.wrapper.rendersOnly = false → Prepares h e p s cs (.ok (rebound, registry)) s₁ →
      Renders h p.handle s₁ ds (.error fault) s' →
      Patches h root e p s (cs ++ ds) { name := p.name } s'
  | rendered {cs ds : List (Call ι δ)} {rebound : Bool} {registry : Option (List String)}
      {s₁ s' : σ} :
      p.wrapper.rendersOnly = false → Prepares h e p s cs (.ok (rebound, registry)) s₁ →
      Renders h p.handle s₁ ds (.ok ()) s' → isThin registry = false →
      Patches h root e p s (cs ++ ds) { name := p.name, rebound, rendered := true } s'
  | propagated {cs ds es : List (Call ι δ)} {rebound : Bool} {registry : Option (List String)}
      {n : Nat} {s₁ s₂ s' : σ} :
      p.wrapper.rendersOnly = false → Prepares h e p s cs (.ok (rebound, registry)) s₁ →
      Renders h p.handle s₁ ds (.ok ()) s₂ → isThin registry = true →
      RendersAll h ((h.snapshot s₂ root).parentsOfHandle p.handle) s₂ es n s' →
      Patches h root e p s (cs ++ (ds ++ es))
        { name := p.name, rebound, rendered := true, propagated := n } s'

/-- The turns of several parents, one after another. -/
inductive PatchesAll [DecidableEq ι] (h : Host σ ι ν δ) (root : ι) (e : Change.Event) :
    List (Parent ι) → σ → List (List (Call ι δ)) → List ParentPatch → σ → Prop
  | none {s : σ} : PatchesAll h root e [] s [] [] s
  | turn {p : Parent ι} {ps : List (Parent ι)} {s s₁ s₂ : σ} {cs : List (Call ι δ)}
      {turns : List (List (Call ι δ))} {patch : ParentPatch} {patches : List ParentPatch} :
      Patches h root e p s cs patch s₁ → PatchesAll h root e ps s₁ turns patches s₂ →
      PatchesAll h root e (p :: ps) s (cs :: turns) (patch :: patches) s₂

/-- The first part of a turn: the module is loaded, and rebound if the registry holds its name. -/
def prepare (h : Host σ ι ν δ) (e : Change.Event) (p : Parent ι) :
    Activity σ ι δ (Except HostFault (Bool × Option (List String))) := do
  match ← loadModule h e.url with
  | .error fault => return .error fault
  | .ok definition =>
    let registry ← Activity.look (h.registered · p.handle)
    match ← rebindIfHeld h registry p.handle e.component definition with
    | .error fault => return .error fault
    | .ok rebound => return .ok (rebound, registry)

section Rebinding

variable (h : Host σ ι ν δ) (i : ι) (name : String) (d : δ) {registry : Option (List String)}

theorem runs_rebindIfHeld_of_not (held : holds registry name = false) (s : σ) :
    Runs (rebindIfHeld h registry i name d) s [] (.ok false) s := by
  unfold rebindIfHeld
  rw [if_neg (by rw [held]; exact Bool.false_ne_true)]
  exact .pure _ s

theorem runs_rebindIfHeld {s s' : σ} {answer : Except HostFault Unit}
    (held : holds registry name = true) (bound : h.rebind i name d s = (answer, s')) :
    Runs (rebindIfHeld h registry i name d) s [.rebind i name d answer]
      (answer.map fun _ => true) s' := by
  unfold rebindIfHeld
  rw [if_pos held]
  have performed := runs_perform (Call.rebind i name d) bound
  cases answer with
  | error fault => exact performed.still (.pure _ s')
  | ok _ => exact performed.still (.pure _ s')

end Rebinding

theorem prepare_prepares (h : Host σ ι ν δ) (e : Change.Event) (p : Parent ι) (s : σ) :
    ∃ cs answer s', Prepares h e p s cs answer s' ∧ Runs (prepare h e p) s cs answer s' := by
  rcases loaded : h.load e.url s with ⟨answer, s₁⟩
  have loading := runs_perform (Call.load (ι := ι) e.url) loaded
  cases answer with
  | error fault => exact ⟨_, _, _, .notLoaded loaded, loading.still (.pure _ s₁)⟩
  | ok d =>
      have looking := runs_look (ι := ι) (δ := δ) (h.registered · p.handle) s₁
      cases held : holds (h.registered s₁ p.handle) e.component with
      | false =>
          have skipping := runs_rebindIfHeld_of_not h p.handle e.component d held s₁
          exact ⟨_, _, _, .notHeld loaded held,
            loading.still (looking.quiet (skipping.quiet (.pure _ s₁)))⟩
      | true =>
          rcases bound : h.rebind p.handle e.component d s₁ with ⟨answer, s₂⟩
          have rebinding := runs_rebindIfHeld h p.handle e.component d held bound
          cases answer with
          | error fault =>
              exact ⟨_, _, _, .notRebound loaded held bound,
                loading.bind (looking.quiet (rebinding.still (.pure _ s₂)))⟩
          | ok _ =>
              exact ⟨_, _, _, .rebound loaded held bound,
                loading.bind (looking.quiet (rebinding.still (.pure _ s₂)))⟩

section Turns

variable [DecidableEq ι] (h : Host σ ι ν δ) (root : ι) (e : Change.Event)

theorem propagate_renders (thin : ι) (s : σ) :
    ∃ cs n s', RendersAll h ((h.snapshot s root).parentsOfHandle thin) s cs n s' ∧
      Runs (propagate h root thin) s cs n s' := by
  obtain ⟨cs, n, s', renders, runs⟩ :=
    renderAll_renders h ((h.snapshot s root).parentsOfHandle thin) s
  exact ⟨cs, n, s', renders, (runs_takeSnapshot h root s).quiet runs⟩

/-- The patch of a parent whose turn ended in a patch or in a fault. -/
def settled (p : Parent ι) : Except HostFault ParentPatch → ParentPatch
  | .ok patch => patch
  | .error _ => { name := p.name }

/-- A fault of a parent is only logged. -/
theorem runs_attempt {p : Parent ι} {s s' : σ} {cs : List (Call ι δ)}
    {answer : Except HostFault ParentPatch} (runs : Runs (patchParent h root e p) s cs answer s') :
    Runs (attemptParent h root e p) s cs (settled p answer) s' := by
  cases answer with
  | ok patch => exact runs.still (.pure patch s')
  | error fault => exact runs.still ((runs_log _ s').quiet (.pure _ s'))

/-- What remains of a turn once the module is prepared: the parent renders, and if its registry is
thin, so do its own parents. -/
def present (p : Parent ι) (registry : Option (List String)) (rebound : Bool) :
    Activity σ ι δ (Except HostFault ParentPatch) := do
  match ← forceRender h p.handle with
  | .error fault => return .error fault
  | .ok () =>
    let propagated ← if isThin registry then propagate h root p.handle else pure 0
    return .ok { name := p.name, rebound, rendered := true, propagated }

/-- A turn that has been prepared ends as a patch. -/
theorem patches_of_prepared {p : Parent ι} {s s₁ : σ} {cs : List (Call ι δ)} {rebound : Bool}
    {registry : Option (List String)} (loads : p.wrapper.rendersOnly = false)
    (prepared : Prepares h e p s cs (.ok (rebound, registry)) s₁) :
    ∃ ds answer s', Runs (present h root p registry rebound) s₁ ds answer s' ∧
      Patches h root e p s (cs ++ ds) (settled p answer) s' := by
  obtain ⟨ds, answer, s₂, renders, runs⟩ := forceRender_renders h p.handle s₁
  cases answer with
  | error fault =>
      exact ⟨ds, .error fault, s₂, runs.still (.pure _ s₂), .stale loads prepared renders⟩
  | ok _ =>
      cases thin : isThin registry with
      | false =>
          refine ⟨ds, .ok { name := p.name, rebound, rendered := true }, s₂, runs.still ?_,
            .rendered loads prepared renders thin⟩
          dsimp only
          rw [thin]
          exact (Runs.pure 0 s₂).quiet (.pure _ s₂)
      | true =>
          obtain ⟨es, n, s', all, later⟩ := propagate_renders h root p.handle s₂
          refine ⟨ds ++ es, .ok { name := p.name, rebound, rendered := true, propagated := n }, s',
            runs.bind ?_, .propagated loads prepared renders thin all⟩
          dsimp only
          rw [thin]
          exact later.still (.pure _ s')

/-- The turn of a parent that is no mere wrapper has two parts. -/
theorem patchParent_of_loads {p : Parent ι} (loads : p.wrapper.rendersOnly = false) :
    patchParent h root e p = (do
      match ← prepare h e p with
      | .error fault => return .error fault
      | .ok (rebound, registry) => present h root p registry rebound) := by
  unfold patchParent prepare
  rw [if_neg (by rw [loads]; exact Bool.false_ne_true), bind_assoc]
  congr 1
  funext answer
  cases answer with
  | error fault => rfl
  | ok d =>
      dsimp only
      rw [bind_assoc]
      congr 1
      funext registry
      rw [bind_assoc]
      congr 1
      funext answer
      cases answer with
      | error fault => rfl
      | ok rebound => rfl

theorem attemptParent_patches (p : Parent ι) (s : σ) :
    ∃ cs patch s', Patches h root e p s cs patch s' ∧
      Runs (attemptParent h root e p) s cs patch s' := by
  cases loads : p.wrapper.rendersOnly with
  | true =>
      obtain ⟨cs, answer, s₁, renders, runs⟩ := forceRender_renders h p.handle s
      have turn : Runs (patchParent h root e p) s cs
          (match answer with
            | .error fault => .error fault
            | .ok () => .ok { name := p.name, rendered := true }) s₁ := by
        unfold patchParent
        rw [if_pos loads]
        cases answer with
        | error fault => exact runs.still (.pure _ s₁)
        | ok _ => exact runs.still (.pure _ s₁)
      cases answer with
      | error fault =>
          exact ⟨cs, _, s₁, .staleWrapper loads renders, runs_attempt h root e turn⟩
      | ok _ => exact ⟨cs, _, s₁, .wrapper loads renders, runs_attempt h root e turn⟩
  | false =>
      obtain ⟨cs, answer, s₁, prepared, runs⟩ := prepare_prepares h e p s
      have whole := patchParent_of_loads h root e loads
      cases answer with
      | error fault =>
          have turn : Runs (patchParent h root e p) s cs (.error fault) s₁ := by
            rw [whole]
            exact runs.still (.pure _ s₁)
          exact ⟨cs, _, s₁, .unprepared loads prepared, runs_attempt h root e turn⟩
      | ok pair =>
          obtain ⟨ds, answer, s₂, later, patches⟩ := patches_of_prepared h root e loads prepared
          have turn : Runs (patchParent h root e p) s (cs ++ ds) answer s₂ := by
            rw [whole]
            exact runs.bind later
          exact ⟨cs ++ ds, _, s₂, patches, runs_attempt h root e turn⟩

theorem patchAll_patches (ps : List (Parent ι)) (s : σ) :
    ∃ turns patches s', PatchesAll h root e ps s turns patches s' ∧
      Runs (patchAll h root e ps) s turns.flatten patches s' := by
  induction ps generalizing s with
  | nil => exact ⟨[], [], s, .none, .pure [] s⟩
  | cons p ps ih =>
      obtain ⟨cs, patch, s₁, turn, runs⟩ := attemptParent_patches h root e p s
      obtain ⟨turns, patches, s₂, all, later⟩ := ih s₁
      exact ⟨cs :: turns, patch :: patches, s₂, .turn turn all,
        runs.bind (later.still (.pure (patch :: patches) s₂))⟩

variable {h root e}

theorem Patches.name_eq {p : Parent ι} {s s' : σ} {cs : List (Call ι δ)} {patch : ParentPatch}
    (turn : Patches h root e p s cs patch s') : patch.name = p.name := by
  cases turn <;> rfl

theorem PatchesAll.names_eq {ps : List (Parent ι)} {s s' : σ} {turns : List (List (Call ι δ))}
    {patches : List ParentPatch} (all : PatchesAll h root e ps s turns patches s') :
    patches.map ParentPatch.name = ps.map Parent.name := by
  induction all with
  | none => rfl
  | turn first _ ih => rw [List.map_cons, List.map_cons, first.name_eq, ih]

end Turns

end Reconcile
end HotReload
