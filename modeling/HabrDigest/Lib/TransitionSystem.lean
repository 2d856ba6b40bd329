import Mathlib.Data.List.Basic
import Mathlib.Logic.Relation

/-!
# Runs of a labelled transition system

Everything the development says about "every run" or "every reachable state" is
a statement about one relation `step s e t` --- in state `s` the event `e` may
happen and leads to `t` --- and the finite sequences of moves it allows.  A
`Move` keeps the state before, the event and the state after, so that a
condition on a run ("no failure arrives while a tick is queued") and a count
along a run ("failures since the last success") are plain functions of the list
of moves.

## The two rules

`Reachable.invariant` is the invariant rule: what the initial states have and
every step preserves holds of every reachable state.  `Run.invariant_of_moves`
is the same rule under a guard: the step only has to preserve the invariant when
the move meets the guard, and the conclusion is about the runs all of whose
moves do.  `Run.forall_post_iff` is for a guard that is exact.  All are inductions
over the run, done here once.

`exists_leads_of_variant` is the rule for what can still be reached: a variant that some step makes
smaller runs out.  `Leads.invariant` and `Leads.map` say what a way keeps, and how a way in one
system becomes one in another.

`Run.exists_reachable_of_mem` reads a move of a run back as a step out of a
reachable state, which is how an invariant of states becomes a statement about
every move.
-/

namespace HabrDigest

/-- A transition system: its initial states, and which state an event may lead
to. -/
structure TransitionSystem (σ : Type*) (ε : Type*) where
  /-- The states a run may start in. -/
  init : σ → Prop
  /-- `step s e t`: in state `s` the event `e` may happen, and leads to `t`. -/
  step : σ → ε → σ → Prop

/-- One step of a run, with the states around it. -/
structure Move (σ : Type*) (ε : Type*) where
  /-- The state before the event. -/
  pre : σ
  /-- The event. -/
  event : ε
  /-- The state after the event. -/
  post : σ

namespace TransitionSystem

variable {σ ε : Type*} (T : TransitionSystem σ ε)

/-- The finite runs, from an initial state, with their moves in order. -/
inductive Run : List (Move σ ε) → σ → Prop where
  | start {s : σ} : T.init s → Run [] s
  | snoc {tr : List (Move σ ε)} {s t : σ} {e : ε} :
      Run tr s → T.step s e t → Run (tr ++ [⟨s, e, t⟩]) t

/-- The states some run ends in. -/
def Reachable (s : σ) : Prop := ∃ tr, T.Run tr s

variable {T}

theorem Run.reachable {tr : List (Move σ ε)} {s : σ} (h : T.Run tr s) :
    T.Reachable s :=
  ⟨tr, h⟩

theorem Reachable.init {s : σ} (h : T.init s) : T.Reachable s :=
  ⟨[], Run.start h⟩

theorem Reachable.step {s t : σ} {e : ε} (hs : T.Reachable s) (h : T.step s e t) :
    T.Reachable t := by
  obtain ⟨tr, hr⟩ := hs
  exact ⟨_, hr.snoc h⟩

/-- **The invariant rule under a guard.**  If the step preserves `P` whenever the
move meets `G`, then `P` holds at the end of every run whose moves all meet
`G`. -/
theorem Run.invariant_of_moves {P : σ → Prop} {G : Move σ ε → Prop}
    (hinit : ∀ s, T.init s → P s)
    (hstep : ∀ s e t, P s → T.step s e t → G ⟨s, e, t⟩ → P t)
    {tr : List (Move σ ε)} {s : σ} (h : T.Run tr s) (hG : ∀ m ∈ tr, G m) : P s := by
  induction h with
  | start hs => exact hinit _ hs
  | snoc _ hst ih =>
    have hpre := ih fun m hm => hG m (List.mem_append_left _ hm)
    exact hstep _ _ _ hpre hst (hG _ (List.mem_append_right _ (List.mem_singleton_self _)))

/-- **The exact rule.**  If a step out of a state with `P` leads to one exactly when the move
meets `G`, then a run stays in `P` exactly when all its moves meet `G`. -/
theorem Run.forall_post_iff {P : σ → Prop} {G : Move σ ε → Prop}
    (hinit : ∀ s, T.init s → P s)
    (hstep : ∀ s e t, P s → T.step s e t → (P t ↔ G ⟨s, e, t⟩))
    {tr : List (Move σ ε)} {s : σ} (h : T.Run tr s) :
    (∀ m ∈ tr, P m.post) ↔ ∀ m ∈ tr, G m := by
  -- a run whose states have `P` ends in one, also when it has no moves
  suffices hend : ((∀ m ∈ tr, P m.post) ↔ ∀ m ∈ tr, G m) ∧ ((∀ m ∈ tr, P m.post) → P s) from
    hend.1
  induction h with
  | start hs => exact ⟨by simp, fun _ => hinit _ hs⟩
  | snoc _ hst ih =>
    simp only [List.forall_mem_append, List.forall_mem_singleton]
    refine ⟨⟨fun h => ?_, fun h => ?_⟩, fun h => h.2⟩
    · exact ⟨ih.1.mp h.1, (hstep _ _ _ (ih.2 h.1) hst).mp h.2⟩
    · have hposts := ih.1.mpr h.1
      exact ⟨hposts, (hstep _ _ _ (ih.2 hposts) hst).mpr h.2⟩

/-- **The invariant rule.** -/
theorem Reachable.invariant {P : σ → Prop} (hinit : ∀ s, T.init s → P s)
    (hstep : ∀ s e t, P s → T.step s e t → P t) {s : σ} (h : T.Reachable s) : P s := by
  obtain ⟨tr, hr⟩ := h
  exact hr.invariant_of_moves (G := fun _ => True) hinit
    (fun s e t hP hst _ => hstep s e t hP hst) (fun _ _ => trivial)

/-- The moves of a run are steps out of states that runs end in, and the run up to
such a state is an initial segment of the whole. -/
theorem Run.exists_run_of_mem {tr : List (Move σ ε)} {s : σ} (h : T.Run tr s)
    {m : Move σ ε} (hm : m ∈ tr) :
    ∃ tr₁ tr₂, tr = tr₁ ++ m :: tr₂ ∧ T.Run tr₁ m.pre ∧ T.step m.pre m.event m.post := by
  induction h with
  | start _ => exact absurd hm (by simp)
  | @snoc tr s t e hr hst ih =>
    rw [List.mem_append, List.mem_singleton] at hm
    rcases hm with hm | rfl
    · obtain ⟨tr₁, tr₂, htr, hrun, hstep⟩ := ih hm
      exact ⟨tr₁, tr₂ ++ [⟨s, e, t⟩], by rw [htr]; simp, hrun, hstep⟩
    · exact ⟨tr, [], rfl, hr, hst⟩

/-- **The rule for two states.**  What holds of every state and itself and is preserved in the
second state by every step holds of each state of a run and its last one. -/
theorem Run.relates {R : σ → σ → Prop} (hrefl : ∀ s, R s s)
    (hstep : ∀ a s e t, T.Reachable s → R a s → T.step s e t → R a t)
    {tr : List (Move σ ε)} {s : σ} (h : T.Run tr s) {m : Move σ ε} (hm : m ∈ tr) : R m.post s := by
  induction h with
  | start _ => exact absurd hm List.not_mem_nil
  | @snoc tr s t e hr hst ih =>
    rcases List.mem_append.mp hm with hold | hnew
    · exact hstep _ _ _ _ hr.reachable (ih hold) hst
    · rw [List.mem_singleton.mp hnew]
      exact hrefl t

/-- A run cut at one of its moves: the first part is a run to the state before the
move, and the move is a step. -/
theorem Run.of_append {tr₁ tr₂ : List (Move σ ε)} {m : Move σ ε} {s : σ}
    (h : T.Run (tr₁ ++ m :: tr₂) s) :
    T.Run tr₁ m.pre ∧ T.step m.pre m.event m.post := by
  generalize htr : tr₁ ++ m :: tr₂ = tr at h
  induction h generalizing tr₂ with
  | start _ => exact absurd htr (by simp)
  | @snoc tr s t e hr hst ih =>
    rcases List.eq_nil_or_concat tr₂ with rfl | ⟨tr₂', m', rfl⟩
    · obtain ⟨h1, h2⟩ := List.append_inj' htr rfl
      rw [List.cons.injEq] at h2
      rw [h1, h2.1]
      exact ⟨hr, hst⟩
    · rw [List.concat_eq_append, ← List.cons_append, ← List.append_assoc] at htr
      exact ih (List.append_inj' htr rfl).1

/-- Every move of a run leaves a reachable state. -/
theorem Run.exists_reachable_of_mem {tr : List (Move σ ε)} {s : σ} (h : T.Run tr s)
    {m : Move σ ε} (hm : m ∈ tr) :
    T.Reachable m.pre ∧ T.step m.pre m.event m.post := by
  obtain ⟨tr₁, _, _, hrun, hstep⟩ := h.exists_run_of_mem hm
  exact ⟨hrun.reachable, hstep⟩

/-! ## Given events

Where the events decide what happens, a list of them makes a run. -/

/-- The moves of events that follow each other. -/
def moves (after : σ → ε → σ) : σ → List ε → List (Move σ ε)
  | _, [] => []
  | s, e :: es => ⟨s, e, after s e⟩ :: moves after (after s e) es

/-- The moves have these events. -/
theorem event_mem_of_mem_moves {after : σ → ε → σ} {s : σ} {es : List ε} {m : Move σ ε}
    (hm : m ∈ moves after s es) : m.event ∈ es := by
  induction es generalizing s with
  | nil => exact absurd hm List.not_mem_nil
  | cons e es ih =>
    rcases List.mem_cons.mp hm with rfl | hrest
    · exact List.mem_cons_self
    · exact List.mem_cons_of_mem _ (ih hrest)

/-- Every one of the events can happen when it comes. -/
def EnabledAll (enabled : σ → ε → Prop) (after : σ → ε → σ) : σ → List ε → Prop
  | _, [] => True
  | s, e :: es => enabled s e ∧ EnabledAll enabled after (after s e) es

instance decidableEnabledAll (enabled : σ → ε → Prop) [∀ s e, Decidable (enabled s e)]
    (after : σ → ε → σ) : ∀ (s : σ) (es : List ε), Decidable (EnabledAll enabled after s es)
  | _, [] => inferInstanceAs (Decidable True)
  | s, e :: es =>
    have := decidableEnabledAll enabled after (after s e) es
    inferInstanceAs (Decidable (_ ∧ _))

/-- Events that can always happen can happen one after the other. -/
theorem EnabledAll.of_forall {enabled : σ → ε → Prop} {after : σ → ε → σ} {es : List ε}
    (h : ∀ e ∈ es, ∀ s, enabled s e) (s : σ) : EnabledAll enabled after s es := by
  induction es generalizing s with
  | nil => exact trivial
  | cons e es ih =>
    obtain ⟨he, hes⟩ := List.forall_mem_cons.mp h
    exact ⟨he s, ih hes _⟩

/-- Events that can happen continue a run. -/
theorem Run.append_moves {enabled : σ → ε → Prop} {after : σ → ε → σ}
    (hstep : ∀ s e, enabled s e → T.step s e (after s e)) (es : List ε)
    {tr : List (Move σ ε)} {s : σ} (h : T.Run tr s) (henabled : EnabledAll enabled after s es) :
    T.Run (tr ++ moves after s es) (es.foldl after s) := by
  induction es generalizing tr s with
  | nil => rwa [moves, List.append_nil]
  | cons e es ih =>
    have hnext := ih (h.snoc (hstep s e henabled.1)) henabled.2
    rwa [List.append_assoc] at hnext

/-! ## Guarded moves -/

/-- Only the moves that meet a guard. -/
def guarded (T : TransitionSystem σ ε) (G : Move σ ε → Prop) : TransitionSystem σ ε where
  init := T.init
  step s e t := T.step s e t ∧ G ⟨s, e, t⟩

/-- A run whose moves meet the guard is a run of them only. -/
theorem Run.guarded {G : Move σ ε → Prop} {tr : List (Move σ ε)} {s : σ} (h : T.Run tr s)
    (hG : ∀ m ∈ tr, G m) : (T.guarded G).Run tr s := by
  induction h with
  | start hs => exact .start hs
  | snoc _ hst ih =>
    obtain ⟨hold, hlast⟩ := List.forall_mem_append.mp hG
    exact (ih hold).snoc ⟨hst, hlast _ (List.mem_singleton_self _)⟩

/-- A run of guarded moves is a run, and its moves meet the guard. -/
theorem Run.of_guarded {G : Move σ ε → Prop} {tr : List (Move σ ε)} {s : σ}
    (h : (T.guarded G).Run tr s) : T.Run tr s ∧ ∀ m ∈ tr, G m := by
  induction h with
  | start hs => exact ⟨.start hs, fun m hm => absurd hm List.not_mem_nil⟩
  | snoc _ hst ih =>
    refine ⟨ih.1.snoc hst.1, fun m hm => ?_⟩
    rcases List.mem_append.mp hm with hold | hlast
    · exact ih.2 m hold
    · exact List.mem_singleton.mp hlast ▸ hst.2

/-! ## What can still happen

A statement that something can always be put right is about the states that a reachable one leads
to, by events of a kind. -/

/-- A state leads to another one by events that are allowed. -/
def Leads (T : TransitionSystem σ ε) (allowed : ε → Prop) : σ → σ → Prop :=
  Relation.ReflTransGen fun s t => ∃ e, allowed e ∧ T.step s e t

variable {allowed : ε → Prop}

theorem Leads.refl (s : σ) : T.Leads allowed s s := Relation.ReflTransGen.refl

theorem Leads.trans {s t u : σ} (h : T.Leads allowed s t) (h' : T.Leads allowed t u) :
    T.Leads allowed s u := Relation.ReflTransGen.trans h h'

theorem Leads.step {s t : σ} {e : ε} (hallowed : allowed e) (h : T.step s e t) :
    T.Leads allowed s t := Relation.ReflTransGen.single ⟨e, hallowed, h⟩

theorem Reachable.leads {s t : σ} (hs : T.Reachable s) (h : T.Leads allowed s t) :
    T.Reachable t := by
  induction h with
  | refl => exact hs
  | tail _ hstep ih =>
    obtain ⟨e, -, hstep⟩ := hstep
    exact ih.step hstep

/-- **The invariant rule for what is led to.** -/
theorem Leads.invariant {P : σ → Prop} (hstep : ∀ s e t, P s → allowed e → T.step s e t → P t)
    {s t : σ} (h : T.Leads allowed s t) (hs : P s) : P t := by
  induction h with
  | refl => exact hs
  | tail _ hlast ih =>
    obtain ⟨e, hallowed, hlast⟩ := hlast
    exact hstep _ e _ ih hallowed hlast

/-- **The rule of the simulation**: a map that takes every step to a way in another system takes
every way to one. -/
theorem Leads.map {σ' ε' : Type*} {T' : TransitionSystem σ' ε'} {allowed' : ε' → Prop} (f : σ → σ')
    (hstep : ∀ s e t, allowed e → T.step s e t → T'.Leads allowed' (f s) (f t)) {s t : σ}
    (h : T.Leads allowed s t) : T'.Leads allowed' (f s) (f t) := by
  induction h with
  | refl => exact .refl _
  | tail _ hlast ih =>
    obtain ⟨e, hallowed, hlast⟩ := hlast
    exact ih.trans (hstep _ e _ hallowed hlast)

/-- What is allowed by one kind may be allowed by another one. -/
theorem Leads.mono {allowed' : ε → Prop} (hallowed : ∀ e, allowed e → allowed' e) {s t : σ}
    (h : T.Leads allowed s t) : T.Leads allowed' s t :=
  h.map id fun _ e _ he hstep => .step (hallowed e he) hstep

/-- **The rule of the variant**: if a state that is not done leads to one with a smaller variant,
then every state leads to one that is done. -/
theorem exists_leads_of_variant {P done : σ → Prop} (variant : σ → ℕ)
    (hstep : ∀ s, P s → ¬ done s → ∃ t, T.Leads allowed s t ∧ P t ∧ variant t < variant s)
    {s : σ} (h : P s) : ∃ t, T.Leads allowed s t ∧ P t ∧ done t := by
  induction hv : variant s using Nat.strongRecOn generalizing s with
  | ind n ih =>
    by_cases hdone : done s
    · exact ⟨s, .refl s, h, hdone⟩
    · obtain ⟨t, hleads, ht, hlt⟩ := hstep s h hdone
      obtain ⟨u, hrest, hu⟩ := ih (variant t) (hv ▸ hlt) ht rfl
      exact ⟨u, hleads.trans hrest, hu⟩

end TransitionSystem
end HabrDigest
