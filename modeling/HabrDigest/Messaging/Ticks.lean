import HabrDigest.Messaging.Reconnect

/-!
# On which connection a tick runs

Two things in the event loop lead to `OnTick`: the persistent timer, which
`StopTimer` deletes when the channel is lost, and the one-shot that `StartTimer`
queues when it is told to fire at once.  Nothing keeps track of the one-shot, and
`event_base_once` gives no way to cancel it.

`TickSafe` is the condition on a move: the ready channel is not lost while such a
one-shot is still queued.  `Settled` is the invariant it buys: as long as a
one-shot is queued the channel is ready, so that every tick so far ran on a
working connection.  `ticks_on_ready_channel` says that the condition is enough,
and that it cannot be dropped: a move that breaks it leaves the one-shot queued on a
lost channel, and the run in which it fires next has a tick without a connection.
That is one continuation.  In others the one-shot fires when the channel is ready
again, or never; and where no reconnect is allowed, the move that breaks the
condition begins the shutdown as well.
-/

namespace HabrDigest
namespace Messaging

/-- The move does not lose a ready channel while a tick one-shot is queued. -/
def TickSafe (m : Move State Event) : Prop :=
  m.event.reportsFailure = true → m.pre.channelReady = true → m.pre.loop.immediateTicks = 0

namespace State

/-- The tick one-shots are settled: they are queued on a ready channel only, and no
tick has run on a channel that was not ready. -/
structure Settled (s : State) : Prop where
  queued : 0 < s.loop.immediateTicks → s.channelReady = true
  ran : Call.onTick false ∉ s.calls

theorem settled_constructed : Settled constructed where
  queued h := absurd h (by decide)
  ran := by decide

/-- What a failure does to the ticks, outside shutdown. -/
theorem handleConnectionFailure_ticks (policy : ReconnectPolicy) {s : State} (h : Flags s)
    (hshut : s.shuttingDown = false) :
    (handleConnectionFailure policy s).channelReady = false ∧
      (handleConnectionFailure policy s).loop.immediateTicks = s.loop.immediateTicks ∧
      (handleConnectionFailure policy s).calls =
        s.calls ++ (if s.channelReady then [.onConnectionLost] else []) := by
  unfold handleConnectionFailure
  rw [if_neg (by simp [hshut])]
  have hlose := loseChannel_eq h
  rcases scheduleReconnect_cases policy (loseChannel s) with ⟨-, he⟩ | ⟨-, -, he⟩ | ⟨-, -, he⟩ <;>
    rw [he, hlose]
  · exact ⟨rfl, rfl, rfl⟩
  · exact ⟨rfl, rfl, rfl⟩
  · rw [giveUp_eq rfl]
    exact ⟨rfl, rfl, rfl⟩

/-- A failure that finds no one-shot queued leaves the ticks settled. -/
theorem Settled.handleConnectionFailure {policy : ReconnectPolicy} {s : State} (h : Settled s)
    (hf : Flags s) (hshut : s.shuttingDown = false) (hticks : s.loop.immediateTicks = 0) :
    Settled (handleConnectionFailure policy s) := by
  obtain ⟨-, hqueue, hcalls⟩ := handleConnectionFailure_ticks policy hf hshut
  refine ⟨fun hpos => ?_, ?_⟩
  · rw [hqueue, hticks] at hpos
    exact absurd hpos (by simp)
  · rw [hcalls, List.mem_append, not_or]
    refine ⟨h.ran, ?_⟩
    split <;> simp

/-- `Connect` runs on a lost channel, where no one-shot is queued. -/
theorem Settled.connect {policy : ReconnectPolicy} {s : State} (h : Settled s) (hf : Flags s)
    (hshut : s.shuttingDown = false) (hready : s.channelReady = false) (opens : Bool) :
    Settled (connect policy opens s) := by
  have hticks : s.loop.immediateTicks = 0 := by
    by_contra hne
    exact absurd (h.queued (Nat.pos_of_ne_zero hne)) (by simp [hready])
  have hnoted : Settled (note .connect { s with channelReady := false }) :=
    ⟨fun hpos => absurd hpos (by simp [note, hticks]), by simp [note, h.ran]⟩
  cases opens with
  | true => exact ⟨hnoted.queued, hnoted.ran⟩
  | false =>
    exact hnoted.handleConnectionFailure
      ⟨hf.scheduled, by simp [note, hf.timerArmed_eq_false hready], hf.added⟩ hshut hticks

theorem Settled.channelReady {s : State} (h : Settled s) (service : Service) :
    Settled (handleConnectionReady service s.markChannelReady) := by
  unfold handleConnectionReady onChannelReady
  cases service.timer with
  | none => exact ⟨fun _ => rfl, by simp [note, markChannelReady, h.ran]⟩
  | some request => exact ⟨fun _ => rfl, by simp [startTimer, note, markChannelReady, h.ran]⟩

/-- A tick on a ready channel. -/
theorem Settled.onTimerTrampoline {s : State} (h : Settled s) (hready : s.channelReady = true) :
    Settled (onTimerTrampoline s) :=
  ⟨h.queued, by simp [State.onTimerTrampoline, note, h.ran, hready]⟩

/-- `Stop` always leaves the service shutting down. -/
theorem stop_shuttingDown (exitCode : ℤ) (s : State) : (stop exitCode s).shuttingDown = true := by
  unfold stop
  cases hshut : s.shuttingDown with
  | true => rwa [if_pos rfl]
  | false =>
    rw [if_neg (by simp)]
    unfold stopTimer
    cases s.connection <;> split <;> rfl

/-- **Every safe callback keeps the ticks settled**, as long as the service does not shut
down. -/
theorem after_settled (service : Service) {s : State} {e : Event} (hc : Consistent s)
    (h : Settled s) (he : s.Enabled e) (hshut : s.shuttingDown = false)
    (hstays : (s.after service e).shuttingDown = false)
    (hsafe : TickSafe ⟨s, e, s.after service e⟩) : Settled (s.after service e) := by
  have hticks (hf : e.reportsFailure = true) : s.loop.immediateTicks = 0 := by
    by_contra hne
    exact hne (hsafe hf (h.queued (Nat.pos_of_ne_zero hne)))
  cases e with
  | run opens =>
    obtain rfl := hc.idle he
    exact Settled.connect ⟨fun hpos => absurd hpos (by decide), by decide⟩
      ⟨rfl, fun ha => absurd ha (by decide), rfl⟩ rfl rfl opens
  | channelReady => exact h.channelReady service
  | connectionError | connectionLost =>
    exact Settled.handleConnectionFailure (s := s.markConnectionFailed) ⟨h.queued, h.ran⟩
      ⟨hc.scheduled, hc.armed, hc.added⟩ hshut (hticks rfl)
  | channelError =>
    exact Settled.handleConnectionFailure (s := s.markChannelFailed) ⟨h.queued, h.ran⟩
      ⟨hc.scheduled, hc.armed, hc.added⟩ hshut (hticks rfl)
  | closed | detached =>
    simp only [after, handleDetached]
    rw [if_neg (by simp [hshut])]
    exact h
  | reconnectFires opens =>
    obtain ⟨hscheduled, hone, hready⟩ := hc.of_reconnects_pos he
    have hrun : s.running = true := by
      cases hr : s.running with
      | true => rfl
      | false => rw [hc.idle hr] at hone; exact absurd hone (by decide)
    simp only [after, onReconnectTrampoline]
    rw [doReconnect_of_not_shuttingDown _ opens (s := s.popReconnect) hshut]
    exact Settled.connect (s := { s.popReconnect with
        reconnectScheduled := false, channel := none, connection := none })
      ⟨h.queued, h.ran⟩ ⟨by simp [popReconnect, hone], hc.armed, hc.added⟩
      hshut (hready hrun hshut) opens
  | timerFires => exact h.onTimerTrampoline (hc.armed (hc.added.symm.trans he))
  | immediateTickFires =>
    have hready := h.queued he
    exact Settled.onTimerTrampoline (s := s.popImmediateTick) ⟨fun _ => hready, h.ran⟩ hready
  | signal => exact absurd hstays (by simp [after, onSignalTrampoline, stop_shuttingDown])
  | stop exitCode => exact absurd hstays (by simp [after, stop_shuttingDown])
  | forcedExitFires => exact ⟨h.queued, h.ran⟩

/-- **A move that is not safe leaves a tick queued on a lost channel.** -/
theorem tick_on_lost_channel (service : Service) {s : State} {e : Event} (hc : Consistent s)
    (hshut : s.shuttingDown = false) (hbreak : ¬ TickSafe ⟨s, e, s.after service e⟩) :
    (s.after service e).Enabled .immediateTickFires ∧
      Call.onTick false ∈ ((s.after service e).after service .immediateTickFires).calls := by
  unfold TickSafe at hbreak
  push Not at hbreak
  obtain ⟨hf, -, hticks⟩ := hbreak
  have hpos := Nat.pos_of_ne_zero hticks
  -- each of the three failures is handled in a state that differs in what it marks only
  obtain ⟨u, hu, huf, hushut, huticks⟩ : ∃ u, s.after service e =
      handleConnectionFailure service.policy u ∧ Flags u ∧ u.shuttingDown = false ∧
      u.loop.immediateTicks = s.loop.immediateTicks := by
    cases e with
    | connectionError | connectionLost =>
      exact ⟨s.markConnectionFailed, rfl, ⟨hc.scheduled, hc.armed, hc.added⟩, hshut, rfl⟩
    | channelError =>
      exact ⟨s.markChannelFailed, rfl, ⟨hc.scheduled, hc.armed, hc.added⟩, hshut, rfl⟩
    | _ => exact absurd hf (by simp [Event.reportsFailure])
  obtain ⟨hready, hqueue, -⟩ := handleConnectionFailure_ticks service.policy huf hushut
  rw [hu]
  refine ⟨?_, ?_⟩
  · show 0 < (handleConnectionFailure service.policy u).loop.immediateTicks
    rw [hqueue, huticks]
    exact hpos
  · simp [after, State.onTimerTrampoline, note, popImmediateTick, hready]

/-! ## A service that does not fire at once -/

theorem stopTimer_immediateTicks (s : State) :
    (stopTimer s).loop.immediateTicks = s.loop.immediateTicks := by
  unfold stopTimer
  split <;> rfl

theorem scheduleReconnect_immediateTicks (policy : ReconnectPolicy) (s : State) :
    (scheduleReconnect policy s).loop.immediateTicks = s.loop.immediateTicks := by
  rcases scheduleReconnect_cases policy s with ⟨-, he⟩ | ⟨-, -, he⟩ | ⟨-, -, he⟩ <;> rw [he]
  exact stopTimer_immediateTicks _

theorem handleConnectionFailure_immediateTicks (policy : ReconnectPolicy) (s : State) :
    (handleConnectionFailure policy s).loop.immediateTicks = s.loop.immediateTicks := by
  unfold handleConnectionFailure
  split
  · rfl
  · rw [scheduleReconnect_immediateTicks]
    unfold loseChannel
    cases s.channelReady with
    | true => exact stopTimer_immediateTicks _
    | false => rfl

theorem connect_immediateTicks (policy : ReconnectPolicy) (opens : Bool) (s : State) :
    (connect policy opens s).loop.immediateTicks = s.loop.immediateTicks := by
  cases opens with
  | true => rfl
  | false => exact handleConnectionFailure_immediateTicks policy _

theorem stop_immediateTicks (exitCode : ℤ) (s : State) :
    (stop exitCode s).loop.immediateTicks = s.loop.immediateTicks := by
  unfold stop
  split
  · rfl
  · have hstop := stopTimer_immediateTicks
      { s with shuttingDown := true, exitCode := exitCode, channelReady := false }
    dsimp only
    split <;> exact hstop

/-- Only `StartTimer` queues a tick one-shot. -/
theorem after_immediateTicks (service : Service) (s : State) {e : Event}
    (hfire : ∀ request ∈ service.timer, request.fireImmediately = false) :
    (s.after service e).loop.immediateTicks ≤ s.loop.immediateTicks := by
  cases e with
  | run opens => exact Nat.le_of_eq (connect_immediateTicks _ opens _)
  | channelReady =>
    simp only [after, handleConnectionReady, onChannelReady]
    cases ht : service.timer with
    | none => exact Nat.le_refl _
    | some request => simp [startTimer, note, markChannelReady, hfire request ht]
  | connectionError | connectionLost | channelError =>
    exact Nat.le_of_eq (handleConnectionFailure_immediateTicks _ _)
  | closed | detached =>
    simp only [after, handleDetached]
    split <;> exact Nat.le_refl _
  | reconnectFires opens =>
    simp only [after, onReconnectTrampoline, doReconnect]
    split
    · exact Nat.le_refl _
    · exact Nat.le_of_eq (connect_immediateTicks _ opens _)
  | timerFires | forcedExitFires => exact Nat.le_refl _
  | immediateTickFires => exact Nat.sub_le _ _
  | signal => exact Nat.le_of_eq (stop_immediateTicks 0 s)
  | stop exitCode => exact Nat.le_of_eq (stop_immediateTicks exitCode s)

end State

/-! ## Whole runs -/

/-- In a run without shutdown whose moves are all safe the ticks stay settled. -/
theorem settled_of_run (service : Service) {tr : List (Move State Event)} {s : State}
    (h : service.system.Run tr s) (hshut : ∀ m ∈ tr, m.post.shuttingDown = false)
    (hsafe : ∀ m ∈ tr, TickSafe m) : s.Settled := by
  have hinv := h.invariant_of_moves
    (P := fun s => s.Consistent ∧ s.shuttingDown = false ∧ s.Settled)
    (G := fun m => m.post.shuttingDown = false ∧ TickSafe m) ?_ ?_
    fun m hm => ⟨hshut m hm, hsafe m hm⟩
  · exact hinv.2.2
  · rintro s rfl
    exact ⟨State.consistent_constructed, rfl, State.settled_constructed⟩
  · rintro s e t ⟨hc, hs, ht⟩ ⟨he, rfl⟩ ⟨hstays, hmove⟩
    exact ⟨State.after_consistent service hc he, hstays,
      State.after_settled service hc ht he hs hstays hmove⟩

/-- **When ticks happen only on a working connection.**  In every run without shutdown
whose moves are all safe, every `OnTick` ran with `channel_ready_` set.  A move out
of such a run that is not safe makes a tick on a lost channel possible in the very
next move, though that one need not come, and the first of the two may begin the
shutdown. -/
theorem ticks_on_ready_channel (service : Service) {tr : List (Move State Event)} {s : State}
    (h : service.system.Run tr s) (hshut : ∀ m ∈ tr, m.post.shuttingDown = false) :
    ((∀ m ∈ tr, TickSafe m) → Call.onTick false ∉ s.calls) ∧
    (∀ e t, service.system.step s e t → ¬ TickSafe ⟨s, e, t⟩ → ∃ u,
      service.system.step t .immediateTickFires u ∧ Call.onTick false ∈ u.calls) := by
  refine ⟨fun hsafe => (settled_of_run service h hshut hsafe).ran, ?_⟩
  rintro e t ⟨-, rfl⟩ hbreak
  have hs : s.shuttingDown = false := by
    cases h with
    | start hs => rw [hs]; rfl
    | snoc _ _ => exact hshut _ (List.mem_append_right _ (List.mem_singleton_self _))
  obtain ⟨hen, hmem⟩ := State.tick_on_lost_channel service (consistent_of_reachable service
    h.reachable) hs hbreak
  exact ⟨_, ⟨hen, rfl⟩, hmem⟩

/-- **A service that does not fire at once** never queues a one-shot, so all its ticks
run on a ready channel. -/
theorem ticks_on_ready_channel_of_not_fireImmediately (service : Service)
    (hfire : ∀ request ∈ service.timer, request.fireImmediately = false)
    {tr : List (Move State Event)} {s : State} (h : service.system.Run tr s)
    (hshut : ∀ m ∈ tr, m.post.shuttingDown = false) : Call.onTick false ∉ s.calls := by
  refine (settled_of_run service h hshut fun m hm _ _ => ?_).ran
  obtain ⟨hreach, -⟩ := h.exists_reachable_of_mem hm
  refine hreach.invariant (P := fun s => s.loop.immediateTicks = 0) ?_ ?_
  · rintro s rfl
    rfl
  · rintro s e t hs ⟨-, rfl⟩
    exact Nat.le_zero.mp (hs ▸ State.after_immediateTicks service s hfire)

/-- **A tick on a lost channel**: the connection comes up, the timer is armed with an
immediate tick, and the connection is lost before the tick fires. -/
theorem tick_not_on_ready_channel :
    ¬ ∀ (service : Service) (tr : List (Move State Event)) (s : State),
      service.system.Run tr s → (∀ m ∈ tr, m.post.shuttingDown = false) →
      Call.onTick false ∉ s.calls := by
  intro hall
  have h0 : promptService.system.Run [] State.constructed := .start rfl
  have h1 := h0.snoc (e := Event.run true) ⟨rfl, rfl⟩
  have h2 := h1.snoc (e := Event.channelReady) ⟨⟨⟨_, rfl, rfl⟩, _, rfl, rfl, rfl⟩, rfl⟩
  have h3 := h2.snoc (e := Event.connectionLost) ⟨rfl, rfl⟩
  have h4 := h3.snoc (e := Event.immediateTickFires) ⟨Nat.zero_lt_one, rfl⟩
  refine hall _ _ _ h4 ?_ (by decide)
  simp only [List.nil_append, List.cons_append, List.mem_cons, List.not_mem_nil, or_false]
  rintro m (rfl | rfl | rfl | rfl) <;> rfl

/-- The run in which the tick fires before the connection is lost. -/
theorem ticks_on_ready_channel_prompt : ∃ tr s, promptService.system.Run tr s ∧
    Call.onTick true ∈ s.calls ∧ Call.onTick false ∉ s.calls := by
  have h0 : promptService.system.Run [] State.constructed := .start rfl
  have h1 := h0.snoc (e := Event.run true) ⟨rfl, rfl⟩
  have h2 := h1.snoc (e := Event.channelReady) ⟨⟨⟨_, rfl, rfl⟩, _, rfl, rfl, rfl⟩, rfl⟩
  have h3 := h2.snoc (e := Event.immediateTickFires) ⟨Nat.zero_lt_one, rfl⟩
  refine ⟨_, _, h3, by decide, (ticks_on_ready_channel promptService h3 ?_).1 ?_⟩
  · simp only [List.nil_append, List.cons_append, List.mem_cons, List.not_mem_nil, or_false]
    rintro m (rfl | rfl | rfl) <;> rfl
  · simp only [List.nil_append, List.cons_append, List.mem_cons, List.not_mem_nil, or_false]
    rintro m (rfl | rfl | rfl) hf hready
    · exact absurd hready (by decide)
    · exact absurd hready (by decide)
    · exact absurd hf (by simp [Event.reportsFailure])

end Messaging
end HabrDigest
