import HabrDigest.Messaging.Reconnect
import Mathlib.Algebra.Order.Ring.Nat

/-!
# The retry budget

`ScheduleReconnect` increments `reconnect_attempts_` before it compares it with
the limit, `HandleConnectionReady` resets it, and `reconnect_scheduled_` keeps
the second report of one failure from counting twice.  This file says what that
arithmetic amounts to over a whole run.

The `Ledger` is the statement's side: it is kept by an observer who sees only the
callbacks and the queue of the event loop.  A failure is *counted* when it is
reported while no reconnect is queued (`countsFailure`), and a reconnect is
*tried* when its one-shot fires (`triesReconnect`); a ready callback clears both
pages.  `Budget` is what ties the ledger to the fields: the counter of the class
is the ledger's count, and each phase fixes how the two pages differ --- a queued
reconnect is a counted failure whose reconnect has not been tried yet.

Counting is in `UInt32`; a limit of `2 ^ 32 - 1` would let the counter wrap
before the comparison, which is why the limit is assumed to be below it.
-/

namespace HabrDigest
namespace Messaging

/-! ## The ledger -/

/-- What an observer has counted since the last ready callback. -/
structure Ledger where
  /-- Failures counted. -/
  counted : ℕ
  /-- Reconnects tried. -/
  tried : ℕ
  deriving DecidableEq, Repr

/-- A call of `Stop`. -/
def Event.isStop : Event → Bool
  | .signal | .stop _ => true
  | _ => false

/-- A callback that neither opens nor loses a connection. -/
def Event.isQuiet : Event → Bool
  | .closed | .detached | .timerFires | .immediateTickFires | .signal | .stop _
  | .forcedExitFires => true
  | _ => false

/-- The move reports a failure that is not a further report of one already known: no
reconnect is queued, or the one that was is the one that has just failed. -/
def countsFailure (m : Move State Event) : Bool :=
  !m.pre.shuttingDown &&
    match m.event with
    | .run opens => !opens
    | .reconnectFires opens => !opens
    | e => e.reportsFailure && m.pre.loop.reconnects == 0

/-- The move tries a reconnect. -/
def triesReconnect (m : Move State Event) : Bool :=
  !m.pre.shuttingDown &&
    match m.event with
    | .reconnectFires _ => true
    | _ => false

/-- One move, entered into the ledger. -/
def Ledger.enter (l : Ledger) (m : Move State Event) : Ledger :=
  if m.event = .channelReady then ⟨0, 0⟩
  else
    ⟨l.counted + (if countsFailure m then 1 else 0), l.tried + (if triesReconnect m then 1 else 0)⟩

/-- The ledger of a run. -/
def ledger (tr : List (Move State Event)) : Ledger := tr.foldl Ledger.enter ⟨0, 0⟩

theorem ledger_snoc (tr : List (Move State Event)) (m : Move State Event) :
    ledger (tr ++ [m]) = (ledger tr).enter m := by
  rw [ledger, List.foldl_append]
  rfl

/-- The service gives up in this move: it starts shutting down, and not because `Stop`
was called. -/
def GivesUp (m : Move State Event) : Prop :=
  m.pre.shuttingDown = false ∧ m.post.shuttingDown = true ∧ m.event.isStop = false

/-! ## What a failure does to the counter -/

namespace State

/-- The four things a reported failure can do. -/
inductive FailureOutcome (policy : ReconnectPolicy) (s t : State) : Prop where
  /-- Nothing, during shutdown. -/
  | ignored : s.shuttingDown = true → t.shuttingDown = true →
      t.reconnectAttempts = s.reconnectAttempts → FailureOutcome policy s t
  /-- A reconnect is queued already. -/
  | pending : s.shuttingDown = false → s.reconnectScheduled = true → t.shuttingDown = false →
      t.reconnectAttempts = s.reconnectAttempts → t.loop.reconnects = s.loop.reconnects →
      FailureOutcome policy s t
  /-- The failure is counted, and a reconnect is queued. -/
  | scheduled : s.shuttingDown = false → s.reconnectScheduled = false →
      ¬ policy.maxReconnectAttempts < s.reconnectAttempts + 1 → t.shuttingDown = false →
      t.reconnectAttempts = s.reconnectAttempts + 1 →
      t.loop.reconnects = s.loop.reconnects + 1 → FailureOutcome policy s t
  /-- The failure is counted, and the budget is spent. -/
  | gaveUp : s.shuttingDown = false → s.reconnectScheduled = false →
      policy.maxReconnectAttempts < s.reconnectAttempts + 1 → t.shuttingDown = true →
      t.reconnectAttempts = s.reconnectAttempts + 1 →
      t.exitCode = 1 → t.loop.exitRequested = true → FailureOutcome policy s t

theorem handleConnectionFailure_outcome (policy : ReconnectPolicy) {s : State} (h : Flags s) :
    FailureOutcome policy s (handleConnectionFailure policy s) := by
  unfold handleConnectionFailure
  cases hshut : s.shuttingDown with
  | true => exact .ignored hshut hshut rfl
  | false =>
    rw [if_neg (by simp)]
    have hlose := loseChannel_eq h
    rcases scheduleReconnect_cases policy (loseChannel s) with
      ⟨hs, he⟩ | ⟨hs, hb, he⟩ | ⟨hs, hb, he⟩ <;> rw [he]
    · rw [hlose] at hs ⊢
      exact .pending hshut hs hshut rfl rfl
    · rw [hlose] at hs hb ⊢
      exact .scheduled hshut hs hb hshut rfl rfl
    · rw [hlose] at hs hb ⊢
      rw [giveUp_eq rfl]
      exact .gaveUp hshut hs hb rfl rfl rfl rfl

/-- The outcome only reads four fields of the state before. -/
theorem FailureOutcome.congr {policy : ReconnectPolicy} {s s' t : State}
    (h : FailureOutcome policy s t) (hshut : s.shuttingDown = s'.shuttingDown)
    (hscheduled : s.reconnectScheduled = s'.reconnectScheduled)
    (hattempts : s.reconnectAttempts = s'.reconnectAttempts)
    (hreconnects : s.loop.reconnects = s'.loop.reconnects) : FailureOutcome policy s' t := by
  cases h with
  | ignored h1 h2 h3 => exact .ignored (hshut ▸ h1) h2 (hattempts ▸ h3)
  | pending h1 h2 h3 h4 h5 =>
    exact .pending (hshut ▸ h1) (hscheduled ▸ h2) h3 (hattempts ▸ h4) (hreconnects ▸ h5)
  | scheduled h1 h2 h3 h4 h5 h6 =>
    exact .scheduled (hshut ▸ h1) (hscheduled ▸ h2) (hattempts ▸ h3) h4 (hattempts ▸ h5)
      (hreconnects ▸ h6)
  | gaveUp h1 h2 h3 h4 h5 h6 h7 =>
    exact .gaveUp (hshut ▸ h1) (hscheduled ▸ h2) (hattempts ▸ h3) h4 (hattempts ▸ h5) h6 h7

/-- `Connect` that throws is a failure reported on a channel that is not ready. -/
theorem connect_outcome (policy : ReconnectPolicy) {s : State} (h : Flags s)
    (hready : s.channelReady = false) :
    FailureOutcome policy s (connect policy false s) := by
  have hflags : Flags (note .connect { s with channelReady := false }) :=
    ⟨h.scheduled, by simp [note, h.timerArmed_eq_false hready], h.added⟩
  exact (handleConnectionFailure_outcome policy hflags).congr rfl rfl rfl rfl

end State

/-! ## The ledger and the fields agree -/

open State

/-- What ties the ledger to the fields, for a limit of `M`. -/
structure Budget (M : ℕ) (s : State) (l : Ledger) : Prop where
  /-- The counter is the ledger's count. -/
  attempts : s.reconnectAttempts.toNat = l.counted
  /-- Until the service shuts down the count is within the budget. -/
  within : s.shuttingDown = false → l.counted ≤ M
  /-- A counted failure either has had its reconnect tried, or has it queued. -/
  queued : s.shuttingDown = false → l.counted = l.tried + s.loop.reconnects

theorem budget_constructed (M : ℕ) : Budget M constructed ⟨0, 0⟩ :=
  ⟨rfl, fun _ => Nat.zero_le _, fun _ => rfl⟩

/-- A state that differs in nothing the budget reads has the same ledger. -/
theorem Budget.congr {M : ℕ} {s t : State} {l : Ledger} (h : Budget M s l)
    (hattempts : t.reconnectAttempts = s.reconnectAttempts)
    (hshut : t.shuttingDown = false → s.shuttingDown = false)
    (hreconnects : t.loop.reconnects = s.loop.reconnects) : Budget M t l :=
  ⟨hattempts ▸ h.attempts, fun hs => h.within (hshut hs), fun hs => by
    rw [hreconnects]; exact h.queued (hshut hs)⟩

/-- The counter does not wrap: below the limit, adding one adds one. -/
theorem toNat_succ_attempts {M : ℕ} {s : State} {l : Ledger} (h : Budget M s l)
    (hM : M < 2 ^ 32 - 1) (hshut : s.shuttingDown = false) :
    (s.reconnectAttempts + 1).toNat = l.counted + 1 := by
  have hw := h.within hshut
  rw [UInt32.toNat_add, h.attempts]
  exact Nat.mod_eq_of_lt (by simp only [UInt32.reduceToNat]; omega)

/-- **One failure, entered into the ledger.**  If the failure finds no reconnect queued
it is counted, and it spends the budget exactly when the count was `M`; otherwise
nothing moves. -/
theorem Budget.failure {policy : ReconnectPolicy} {s t : State} {l : Ledger}
    (h : Budget policy.maxReconnectAttempts.toNat s l)
    (hM : policy.maxReconnectAttempts.toNat < 2 ^ 32 - 1) (hf : Flags s)
    (ho : FailureOutcome policy s t) :
    Budget policy.maxReconnectAttempts.toNat t
      ⟨l.counted + (if !s.shuttingDown && s.loop.reconnects == 0 then 1 else 0), l.tried⟩ ∧
    ((s.shuttingDown = false ∧ s.loop.reconnects = 0 ∧
        l.counted = policy.maxReconnectAttempts.toNat) ↔
      (s.shuttingDown = false ∧ t.shuttingDown = true)) ∧
    (s.shuttingDown = false → t.shuttingDown = true →
      t.exitCode = 1 ∧ t.loop.exitRequested = true) := by
  cases ho with
  | ignored hs ht hattempts =>
    refine ⟨⟨?_, by simp [ht], by simp [ht]⟩, by simp [hs], by simp [hs]⟩
    simpa [hs, hattempts] using h.attempts
  | pending hs hscheduled ht hattempts hreconnects =>
    have hone : s.loop.reconnects = 1 := by rw [hf.scheduled, hscheduled]; rfl
    refine ⟨?_, by simp [hone, ht], by simp [ht]⟩
    simpa [hone] using h.congr hattempts (fun _ => hs) hreconnects
  | scheduled hs hscheduled hbudget ht hattempts hreconnects =>
    have hzero : s.loop.reconnects = 0 := by rw [hf.scheduled, hscheduled]; rfl
    have hsucc := toNat_succ_attempts h hM hs
    rw [UInt32.lt_iff_toNat_lt, hsucc] at hbudget
    have hq := h.queued hs
    refine ⟨⟨?_, fun _ => ?_, fun _ => ?_⟩, ?_, by simp [ht]⟩
    · simpa [hs, hzero, hattempts] using hsucc
    · simp only [hs, hzero, Bool.not_false, beq_self_eq_true, Bool.and_self, if_true]
      omega
    · simp only [hs, hzero, hreconnects, Bool.not_false, beq_self_eq_true, Bool.and_self, if_true]
      omega
    · simp only [hs, ht, hzero, true_and, Bool.false_eq_true, iff_false]
      omega
  | gaveUp hs hscheduled hbudget ht hattempts hexit hloop =>
    have hzero : s.loop.reconnects = 0 := by rw [hf.scheduled, hscheduled]; rfl
    have hsucc := toNat_succ_attempts h hM hs
    rw [UInt32.lt_iff_toNat_lt, hsucc] at hbudget
    have hw := h.within hs
    refine ⟨⟨?_, by simp [ht], by simp [ht]⟩, ?_, fun _ _ => ⟨hexit, hloop⟩⟩
    · simpa [hs, hzero, hattempts] using hsucc
    · simp only [hs, ht, hzero, true_and, iff_true]
      omega

/-! ## One move -/

/-- What is true of one move out of a state whose ledger is `l`, for a limit of `M`. -/
structure MoveSpec (M : ℕ) (l : Ledger) (m : Move State Event) : Prop where
  /-- The ledger after the move is the ledger of the state after it. -/
  budget : Budget M m.post (l.enter m)
  /-- A further report while a reconnect is queued changes nothing the budget depends on. -/
  further : m.event.reportsFailure = true → 0 < m.pre.loop.reconnects →
    m.post.reconnectAttempts = m.pre.reconnectAttempts ∧ m.post.shuttingDown = m.pre.shuttingDown
  /-- The service gives up exactly at the failure that finds the budget spent. -/
  givesUp_iff : GivesUp m ↔ countsFailure m = true ∧ l.counted = M
  /-- Giving up sets the exit code and requests the exit, after `M` reconnects tried. -/
  givesUp : GivesUp m →
    m.post.exitCode = 1 ∧ m.post.loop.exitRequested = true ∧ (l.enter m).tried = M

section Moves

variable {service : Service} {s : State} {l : Ledger}

/-- A callback that neither opens nor loses a connection leaves the ledger alone. -/
theorem moveSpec_of_quiet {M : ℕ} {e : Event} {t : State} (h : Budget M s l)
    (hquiet : e.isQuiet = true) (hattempts : t.reconnectAttempts = s.reconnectAttempts)
    (hshut : t.shuttingDown = true → s.shuttingDown = true ∨ e.isStop = true)
    (hkeeps : t.shuttingDown = false → s.shuttingDown = false)
    (hreconnects : t.loop.reconnects = s.loop.reconnects) : MoveSpec M l ⟨s, e, t⟩ := by
  have hcounts : countsFailure ⟨s, e, t⟩ = false := by
    cases e <;> simp_all [countsFailure, Event.isQuiet, Event.reportsFailure]
  have htries : triesReconnect ⟨s, e, t⟩ = false := by
    cases e <;> simp_all [triesReconnect, Event.isQuiet]
  have hnot : ¬ GivesUp ⟨s, e, t⟩ := by
    rintro ⟨hpre, hpost, hstop⟩
    rcases hshut hpost with h1 | h1
    · exact absurd h1 (by simpa using hpre)
    · exact absurd h1 (by simpa using hstop)
  have hentry : l.enter ⟨s, e, t⟩ = l := by
    unfold Ledger.enter
    rw [if_neg (by rintro rfl; exact absurd hquiet (by simp [Event.isQuiet])), hcounts, htries]
    rfl
  refine ⟨?_, fun hr => ?_, ?_, fun hg => absurd hg hnot⟩
  · rw [hentry]
    exact h.congr hattempts hkeeps hreconnects
  · cases e <;> simp_all [Event.isQuiet, Event.reportsFailure]
  · simp [hnot, hcounts]

/-- A callback that opens a connection or finds the service shutting down: nothing is
counted, and a reconnect may have been tried. -/
theorem moveSpec_of_opened {M : ℕ} {e : Event} {t : State} (hready : e ≠ .channelReady)
    (hreports : e.reportsFailure = false) (hcounts : countsFailure ⟨s, e, t⟩ = false)
    (hshut : t.shuttingDown = s.shuttingDown)
    (hbudget : Budget M t
      ⟨l.counted, l.tried + (if triesReconnect ⟨s, e, t⟩ then 1 else 0)⟩) :
    MoveSpec M l ⟨s, e, t⟩ := by
  have hnot : ¬ GivesUp ⟨s, e, t⟩ := by
    rintro ⟨hpre, hpost, -⟩
    exact absurd (hshut.symm.trans hpost) (by simpa using hpre)
  have hentry : l.enter ⟨s, e, t⟩ =
      ⟨l.counted, l.tried + (if triesReconnect ⟨s, e, t⟩ then 1 else 0)⟩ := by
    unfold Ledger.enter
    rw [if_neg hready, hcounts]
    rfl
  refine ⟨?_, fun hr => absurd hr (by simp [hreports]), ?_, fun hg => absurd hg hnot⟩
  · rw [hentry]
    exact hbudget
  · simp [hnot, hcounts]

/-- A callback in which a failure is reported: `u` is the state that
`HandleConnectionFailure` finds, and `k` the ledger with the reconnect that has just
been tried, if any. -/
theorem moveSpec_of_failure {u : State} {k : Ledger} {e : Event} {t : State}
    (hM : service.policy.maxReconnectAttempts.toNat < 2 ^ 32 - 1)
    (h : Budget service.policy.maxReconnectAttempts.toNat u k) (hf : Flags u)
    (ho : FailureOutcome service.policy u t)
    (hready : e ≠ .channelReady) (hstop : e.isStop = false)
    (hshut : u.shuttingDown = s.shuttingDown) (hcounted : k.counted = l.counted)
    (htried : l.tried + (if triesReconnect ⟨s, e, t⟩ then 1 else 0) = k.tried)
    (hcounts : countsFailure ⟨s, e, t⟩ = (!u.shuttingDown && u.loop.reconnects == 0))
    (hsame : e.reportsFailure = true →
      u.loop.reconnects = s.loop.reconnects ∧ u.reconnectAttempts = s.reconnectAttempts) :
    MoveSpec service.policy.maxReconnectAttempts.toNat l ⟨s, e, t⟩ := by
  obtain ⟨hbudget, hiff, hexit⟩ := h.failure hM hf ho
  have hentry : l.enter ⟨s, e, t⟩ =
      ⟨k.counted + (if !u.shuttingDown && u.loop.reconnects == 0 then 1 else 0),
        k.tried⟩ := by
    unfold Ledger.enter
    rw [if_neg hready, hcounts, htried, hcounted]
  have hgives : GivesUp ⟨s, e, t⟩ ↔ u.shuttingDown = false ∧ t.shuttingDown = true := by
    unfold GivesUp
    rw [hshut]
    simp [hstop]
  refine ⟨?_, fun hr hpos => ?_, ?_, fun hg => ?_⟩
  · rw [hentry]
    exact hbudget
  · obtain ⟨hreconnects, hattempts⟩ := hsame hr
    rw [← hreconnects, hf.scheduled] at hpos
    cases ho with
    | ignored h1 h2 h3 => exact ⟨h3.trans hattempts, h2.trans (h1.symm.trans hshut)⟩
    | pending h1 _ h3 h4 _ => exact ⟨h4.trans hattempts, h3.trans (h1.symm.trans hshut)⟩
    | scheduled _ h2 => exact absurd hpos (by simp [h2])
    | gaveUp _ h2 => exact absurd hpos (by simp [h2])
  · rw [hgives, ← hiff, hcounts, hcounted]
    simp [and_assoc]
  · obtain ⟨hs, ht⟩ := hgives.mp hg
    obtain ⟨-, hzero, hfull⟩ := hiff.mpr ⟨hs, ht⟩
    refine ⟨(hexit hs ht).1, (hexit hs ht).2, ?_⟩
    have hq := h.queued hs
    rw [hentry]
    simp only
    omega

/-- The channel reports ready: both pages of the ledger are cleared. -/
theorem moveSpec_channelReady {M : ℕ} (hc : Consistent s) (hrun : s.running = true)
    (hshake : s.Handshaking) :
    MoveSpec M l ⟨s, .channelReady, s.after service .channelReady⟩ := by
  have hfields : (s.after service .channelReady).reconnectAttempts = 0 ∧
      (s.after service .channelReady).shuttingDown = s.shuttingDown ∧
      (s.after service .channelReady).loop.reconnects = s.loop.reconnects := by
    unfold State.after handleConnectionReady onChannelReady
    cases service.timer <;> exact ⟨rfl, rfl, rfl⟩
  obtain ⟨hattempts, hshut, hreconnects⟩ := hfields
  have hnot : ¬ GivesUp ⟨s, .channelReady, s.after service .channelReady⟩ := by
    rintro ⟨hpre, hpost, -⟩
    exact absurd (hshut.symm.trans hpost) (by simpa using hpre)
  refine ⟨⟨?_, fun _ => Nat.zero_le _, fun hs => ?_⟩,
    fun hr => absurd hr (by simp [Event.reportsFailure]), ?_,
    fun hg => absurd hg hnot⟩
  · simp only [hattempts]
    rfl
  · simp only at hs ⊢
    rw [hreconnects, hc.reconnects_eq_zero hrun (hshut.symm.trans hs) hshake]
    rfl
  · simp [hnot, countsFailure, Event.reportsFailure]

/-- A queued reconnect fires: it is tried, and if `Connect` throws that failure is
counted. -/
theorem moveSpec_reconnectFires (hM : service.policy.maxReconnectAttempts.toNat < 2 ^ 32 - 1)
    (hc : Consistent s) (h : Budget service.policy.maxReconnectAttempts.toNat s l)
    (opens : Bool) (hrun : s.running = true) (hfires : 0 < s.loop.reconnects) :
    MoveSpec service.policy.maxReconnectAttempts.toNat l
      ⟨s, .reconnectFires opens, s.after service (.reconnectFires opens)⟩ := by
  obtain ⟨-, hone, hready⟩ := hc.of_reconnects_pos hfires
  show MoveSpec _ l ⟨s, .reconnectFires opens, doReconnect service.policy opens s.popReconnect⟩
  cases hshut : s.shuttingDown with
  | true =>
    rw [doReconnect_of_shuttingDown _ opens (s := s.popReconnect) hshut]
    refine moveSpec_of_opened (by simp) rfl (by simp [countsFailure, hshut]) rfl
      ⟨h.attempts, ?_, ?_⟩ <;> simp [popReconnect, hshut]
  | false =>
    rw [doReconnect_of_not_shuttingDown _ opens (s := s.popReconnect) hshut]
    have htries : ∀ t, triesReconnect ⟨s, .reconnectFires opens, t⟩ = true := by
      simp [triesReconnect, hshut]
    have hq := h.queued hshut
    -- the state `Connect` finds: nothing queued, and one reconnect more tried
    have hbudget : Budget service.policy.maxReconnectAttempts.toNat
        { s.popReconnect with reconnectScheduled := false, channel := none, connection := none }
        ⟨l.counted, l.tried + 1⟩ := by
      refine ⟨h.attempts, fun _ => h.within hshut, fun _ => ?_⟩
      simp only [popReconnect, hone] at hq ⊢
      omega
    have hflags : Flags
        { s.popReconnect with
          reconnectScheduled := false, channel := none, connection := none } := by
      refine ⟨?_, hc.armed, hc.added⟩
      simp [popReconnect, hone]
    cases opens with
    | true =>
      refine moveSpec_of_opened (by simp) rfl (by simp [countsFailure]) rfl ?_
      rw [htries]
      exact hbudget.congr rfl id rfl
    | false =>
      refine moveSpec_of_failure hM hbudget hflags (connect_outcome _ hflags (hready hrun hshut))
        (by simp) rfl rfl rfl (by simp [htries]) ?_ (fun hr => absurd hr (by decide))
      simp [countsFailure, popReconnect, hone, hshut]

/-- `Run`: the first `Connect`, whose failure is counted. -/
theorem moveSpec_run (hM : service.policy.maxReconnectAttempts.toNat < 2 ^ 32 - 1)
    (h : Budget service.policy.maxReconnectAttempts.toNat constructed l) (opens : Bool) :
    MoveSpec service.policy.maxReconnectAttempts.toNat l
      ⟨constructed, .run opens, constructed.after service (.run opens)⟩ := by
  have hflags : Flags { constructed with running := true } :=
    ⟨rfl, fun ha => absurd ha (by decide), rfl⟩
  cases opens with
  | true => exact moveSpec_of_opened (by simp) rfl rfl rfl (h.congr rfl id rfl)
  | false =>
    exact moveSpec_of_failure hM (u := { constructed with running := true }) (h.congr rfl id rfl)
      hflags (connect_outcome _ hflags rfl) (by simp) rfl rfl rfl rfl rfl
      (fun hr => absurd hr (by decide))

theorem handleDetached_fields (s : State) :
    (handleDetached s).reconnectAttempts = s.reconnectAttempts ∧
      (handleDetached s).shuttingDown = s.shuttingDown ∧
      (handleDetached s).loop.reconnects = s.loop.reconnects := by
  unfold handleDetached
  split <;> exact ⟨rfl, rfl, rfl⟩

theorem stop_fields (exitCode : ℤ) (hc : Consistent s) :
    (stop exitCode s).reconnectAttempts = s.reconnectAttempts ∧
      (stop exitCode s).shuttingDown = true ∧
      (stop exitCode s).loop.reconnects = s.loop.reconnects := by
  unfold stop
  cases hshut : s.shuttingDown with
  | true => exact ⟨rfl, hshut, rfl⟩
  | false =>
    rw [if_neg (by simp), stopTimer_eq
      (s := { s with shuttingDown := true, exitCode := exitCode, channelReady := false }) hc.added]
    cases s.connection <;> exact ⟨rfl, rfl, rfl⟩

/-- **Every callback is entered correctly.** -/
theorem moveSpec (hM : service.policy.maxReconnectAttempts.toNat < 2 ^ 32 - 1) (hc : Consistent s)
    (h : Budget service.policy.maxReconnectAttempts.toNat s l) {e : Event} (he : s.Enabled e)
    (hrun : s.running = true ∨ ∃ opens, e = .run opens) :
    MoveSpec service.policy.maxReconnectAttempts.toNat l ⟨s, e, s.after service e⟩ := by
  have hflags := hc.toFlags
  cases e with
  | run opens =>
    obtain rfl := hc.idle he
    exact moveSpec_run hM h opens
  | channelReady => exact moveSpec_channelReady hc (by simpa using hrun) he
  | connectionError | connectionLost =>
    have hmarked : Flags s.markConnectionFailed := ⟨hflags.scheduled, hflags.armed, hflags.added⟩
    exact moveSpec_of_failure hM (u := s.markConnectionFailed) (h.congr rfl id rfl) hmarked
      (handleConnectionFailure_outcome _ hmarked)
      (by simp) rfl rfl rfl (by simp [triesReconnect]) rfl fun _ => ⟨rfl, rfl⟩
  | channelError =>
    have hmarked : Flags s.markChannelFailed := ⟨hflags.scheduled, hflags.armed, hflags.added⟩
    exact moveSpec_of_failure hM (u := s.markChannelFailed) (h.congr rfl id rfl) hmarked
      (handleConnectionFailure_outcome _ hmarked)
      (by simp) rfl rfl rfl (by simp [triesReconnect]) rfl fun _ => ⟨rfl, rfl⟩
  | closed | detached =>
    obtain ⟨h1, h2, h3⟩ := handleDetached_fields s
    exact moveSpec_of_quiet h rfl h1 (fun ht => Or.inl (h2.symm.trans ht)) (h2.symm.trans ·) h3
  | reconnectFires opens => exact moveSpec_reconnectFires hM hc h opens (by simpa using hrun) he
  | timerFires | immediateTickFires | forcedExitFires =>
    exact moveSpec_of_quiet h rfl rfl Or.inl id rfl
  | signal | stop exitCode =>
    obtain ⟨h1, h2, h3⟩ := stop_fields _ hc
    exact moveSpec_of_quiet h rfl h1 (fun _ => Or.inr rfl)
      (fun hs => absurd (h2.symm.trans hs) (by simp)) h3

end Moves

/-! ## Whole runs -/

/-- Only `Run` can happen to an object that is not running. -/
theorem State.Consistent.running_or_run {s : State} {e : Event} (hc : Consistent s)
    (he : s.Enabled e) : s.running = true ∨ ∃ opens, e = .run opens := by
  cases hrun : s.running with
  | true => exact Or.inl rfl
  | false =>
    obtain rfl := hc.idle hrun
    cases e with
    | run opens => exact Or.inr ⟨opens, rfl⟩
    | channelReady => exact absurd he (not_handshaking_of_connection_none rfl)
    | _ => exact absurd he (by simp [Enabled, constructed])

/-- A move of a run, entered after what went before it. -/
theorem moveSpec_of_step {service : Service}
    (hM : service.policy.maxReconnectAttempts.toNat < 2 ^ 32 - 1) {s t : State} {e : Event}
    {l : Ledger} (hs : service.system.Reachable s)
    (h : Budget service.policy.maxReconnectAttempts.toNat s l) (hst : service.system.step s e t) :
    MoveSpec service.policy.maxReconnectAttempts.toNat l ⟨s, e, t⟩ := by
  obtain ⟨he, rfl⟩ := hst
  have hc := consistent_of_reachable service hs
  exact moveSpec hM hc h he (hc.running_or_run he)

/-- The ledger of a run is the ledger of its last state. -/
theorem budget_of_run {service : Service}
    (hM : service.policy.maxReconnectAttempts.toNat < 2 ^ 32 - 1)
    {tr : List (Move State Event)} {s : State} (h : service.system.Run tr s) :
    Budget service.policy.maxReconnectAttempts.toNat s (ledger tr) := by
  induction h with
  | start hs =>
    obtain rfl := hs
    exact budget_constructed _
  | snoc hr hst ih =>
    rw [ledger_snoc]
    exact (moveSpec_of_step hM hr.reachable ih hst).budget

/-- **The retry budget is exact.**  For a limit `M` below `2 ^ 32 - 1` and every run,
the counter is the number of failures counted since the last ready callback; and
at every move of the run

* a failure reported while a reconnect is queued leaves the counter and the
  service as they are;
* the service gives up exactly when the failure is counted and `M` were counted
  before it, that is with `M` reconnects tried since the last ready callback, and
  giving up is exit code 1 and the request to leave the loop;
* a ready callback restores the whole budget. -/
theorem retry_budget_exact (service : Service)
    (hM : service.policy.maxReconnectAttempts.toNat < 2 ^ 32 - 1)
    {tr : List (Move State Event)} {s : State} (h : service.system.Run tr s) :
    s.reconnectAttempts.toNat = (ledger tr).counted ∧
    ∀ tr₁ m tr₂, tr = tr₁ ++ m :: tr₂ →
      (m.event.reportsFailure = true → 0 < m.pre.loop.reconnects →
        m.post.reconnectAttempts = m.pre.reconnectAttempts ∧
          m.post.shuttingDown = m.pre.shuttingDown) ∧
      (GivesUp m ↔
        countsFailure m = true ∧
          (ledger tr₁).counted = service.policy.maxReconnectAttempts.toNat) ∧
      (GivesUp m → m.post.exitCode = 1 ∧ m.post.loop.exitRequested = true ∧
        (ledger (tr₁ ++ [m])).counted = service.policy.maxReconnectAttempts.toNat + 1 ∧
        (ledger (tr₁ ++ [m])).tried = service.policy.maxReconnectAttempts.toNat) ∧
      (m.event = .channelReady →
        m.post.reconnectAttempts = 0 ∧ ledger (tr₁ ++ [m]) = ⟨0, 0⟩) := by
  refine ⟨(budget_of_run hM h).attempts, ?_⟩
  rintro tr₁ m tr₂ rfl
  obtain ⟨hrun, hstep⟩ := h.of_append
  have hspec := moveSpec_of_step hM hrun.reachable (budget_of_run hM hrun) hstep
  refine ⟨hspec.further, hspec.givesUp_iff, fun hg => ?_, fun hready => ?_⟩
  · obtain ⟨hexit, hloop, htried⟩ := hspec.givesUp hg
    obtain ⟨hcounts, hfull⟩ := hspec.givesUp_iff.mp hg
    have hevent : m.event ≠ .channelReady := by
      intro he
      simp [countsFailure, he, Event.reportsFailure] at hcounts
    refine ⟨hexit, hloop, ?_, by rw [ledger_snoc]; exact htried⟩
    rw [ledger_snoc, Ledger.enter, if_neg hevent, hcounts, hfull]
    rfl
  · have hledger : ledger (tr₁ ++ [m]) = ⟨0, 0⟩ := by
      rw [ledger_snoc, Ledger.enter, if_pos hready]
    have hattempts := hspec.budget.attempts
    rw [← ledger_snoc, hledger] at hattempts
    exact ⟨UInt32.toNat_inj.mp hattempts, hledger⟩

/-- A service that gives up after one reconnect. -/
def impatientService : Service := ⟨{ maxReconnectAttempts := 1 }, none⟩

/-- The connection opens and is lost, and the reconnect throws. -/
def reconnectThrows : List (Move State Event) :=
  let s₁ := constructed.after impatientService (.run true)
  let s₂ := s₁.after impatientService .connectionLost
  [⟨constructed, .run true, s₁⟩, ⟨s₁, .connectionLost, s₂⟩,
    ⟨s₂, .reconnectFires false, s₂.after impatientService (.reconnectFires false)⟩]

theorem run_reconnectThrows :
    ∃ s, impatientService.system.Run reconnectThrows s ∧ s.reconnectAttempts = 2 ∧
      s.shuttingDown = true := by
  have h0 : impatientService.system.Run [] constructed := .start rfl
  have h1 := h0.snoc (e := Event.run true) ⟨rfl, rfl⟩
  have h2 := h1.snoc (e := Event.connectionLost) ⟨rfl, rfl⟩
  exact ⟨_, h2.snoc (e := Event.reconnectFires false) ⟨Nat.zero_lt_one, rfl⟩, rfl, rfl⟩

theorem retry_budget_exact_reconnectThrows :
    (ledger reconnectThrows).counted = 2 ∧ (ledger reconnectThrows).tried = 1 ∧
      ∀ m ∈ reconnectThrows.getLast?, GivesUp m ∧ m.post.exitCode = 1 := by
  obtain ⟨s, hrun, hattempts, -⟩ := run_reconnectThrows
  obtain ⟨hcounted, hmoves⟩ := retry_budget_exact impatientService (by decide) hrun
  rw [hattempts] at hcounted
  refine ⟨hcounted.symm, rfl, ?_⟩
  rintro m hm
  obtain ⟨tr₁, htr⟩ := List.getLast?_eq_some_iff.mp hm
  have hgives : GivesUp m := by
    obtain rfl := Option.some.inj hm
    exact ⟨rfl, rfl, rfl⟩
  exact ⟨hgives, ((hmoves tr₁ m [] htr).2.2.1 hgives).1⟩

end Messaging
end HabrDigest
