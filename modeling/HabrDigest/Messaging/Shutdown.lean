import HabrDigest.Messaging.Reconnect

/-!
# What still happens during shutdown

`shutting_down_` is set by `Stop`, from a signal at any moment, and by
`ScheduleReconnect` when the budget is spent.  From then on the event loop still
delivers what was under way: the open-ok of a channel, errors, detach callbacks,
and every one-shot that was queued.

`Silent` is what a state that shuts down should look like, and `Quiescent` is what
a move should do: a shutdown that has begun stays, and neither `Connect` nor
`OnChannelReady` nor `OnTick` is called.

`HandleConnectionFailure`, `DoReconnect`, `HandleDetached` and `Stop` read the flag
first.  Two entries do not: `HandleConnectionReady` sets `channel_ready_` again and
calls `OnChannelReady`, which declares, consumes and arms the timer; and
`OnTimerTrampoline` calls `OnTick` from the one-shot that `StartTimer` queued and
`StopTimer` cannot cancel.  `shutdown_quiescent_iff` says that these two callbacks
are all there is: a run is quiescent exactly when neither of them arrives during
shutdown.
-/

namespace HabrDigest
namespace Messaging

/-- The calls that should not be made during shutdown. -/
def Call.disturbs : Call → Bool
  | .onConnectionLost => false
  | .connect | .onChannelReady | .onTick _ => true

/-- The channel is not ready, the timer is not armed, and nothing can be published. -/
structure State.Silent (s : State) : Prop where
  channelReady : s.channelReady = false
  timerArmed : s.timerArmed = false
  publishTo : ∀ accepted, s.publishTo accepted = false

/-- The move keeps a shutdown quiet. -/
structure Quiescent (m : Move State Event) : Prop where
  /-- A state that shuts down is silent, from the moment the flag is set. -/
  silent : m.post.shuttingDown = true → m.post.Silent
  /-- The flag is never cleared. -/
  stays : m.pre.shuttingDown = true → m.post.shuttingDown = true
  /-- None of the disturbing calls is made. -/
  calls : m.pre.shuttingDown = true →
    m.post.calls.filter Call.disturbs = m.pre.calls.filter Call.disturbs

namespace State

theorem silent_of {s : State} (hready : s.channelReady = false) (harmed : s.timerArmed = false) :
    s.Silent :=
  ⟨hready, harmed, fun accepted => by simp [State.publishTo, hready]⟩

/-! ## Where shutdown begins -/

/-- A failure that makes the service give up has lost the channel before. -/
theorem handleConnectionFailure_silent (policy : ReconnectPolicy) {s : State} (h : Flags s)
    (hshut : s.shuttingDown = false)
    (ht : (handleConnectionFailure policy s).shuttingDown = true) :
    (handleConnectionFailure policy s).Silent := by
  unfold handleConnectionFailure at ht ⊢
  rw [if_neg (by simp [hshut])] at ht ⊢
  have hlose := loseChannel_eq h
  rcases scheduleReconnect_cases policy (loseChannel s) with ⟨-, he⟩ | ⟨-, -, he⟩ | ⟨-, -, he⟩ <;>
    rw [he, hlose] at ht ⊢
  · exact absurd ht (by simp [hshut])
  · exact absurd ht (by simp [hshut])
  · rw [giveUp_eq rfl]
    exact silent_of rfl rfl

theorem stop_silent (exitCode : ℤ) {s : State} (hc : Consistent s)
    (hshut : s.shuttingDown = false) : (stop exitCode s).Silent := by
  unfold stop
  rw [if_neg (by simp [hshut]), stopTimer_eq
    (s := { s with shuttingDown := true, exitCode := exitCode, channelReady := false }) hc.added]
  cases s.connection <;> exact silent_of rfl rfl

/-- **Shutdown begins silently**, whichever callback begins it. -/
theorem after_silent (service : Service) {s : State} {e : Event} (hc : Consistent s)
    (he : s.Enabled e) (hshut : s.shuttingDown = false)
    (ht : (s.after service e).shuttingDown = true) : (s.after service e).Silent := by
  have hbegins := shutdownBegins_after hc he hshut ht
  generalize s.after service e = t at hbegins ht ⊢
  cases hbegins with
  | signal | stop => exact stop_silent _ hc hshut
  | failure _ hflags hushut => exact handleConnectionFailure_silent _ hflags hushut ht

/-! ## During shutdown -/

/-- What a callback leaves alone during shutdown. -/
structure Undisturbed (s t : State) : Prop where
  shuttingDown : t.shuttingDown = s.shuttingDown
  channelReady : t.channelReady = s.channelReady
  timerArmed : t.timerArmed = s.timerArmed
  calls : t.calls = s.calls

/-- **Every other callback checks the flag**, or finds the timer stopped. -/
theorem after_undisturbed (service : Service) {s : State} {e : Event} (hc : Consistent s)
    (he : s.Enabled e) (hshut : s.shuttingDown = true) (harmed : s.timerArmed = false)
    (hready : e ≠ .channelReady) (htick : e ≠ .immediateTickFires) :
    Undisturbed s (s.after service e) := by
  rw [after_of_shuttingDown service hshut e]
  cases e with
  | run opens =>
    obtain rfl := hc.idle he
    exact absurd hshut (by decide)
  | channelReady => exact absurd rfl hready
  | timerFires =>
    have hadded : s.loop.timerAdded = false := hc.added.trans harmed
    exact absurd he (by simp [Enabled, hadded])
  | immediateTickFires => exact absurd rfl htick
  | connectionError | connectionLost | channelError | closed | detached | reconnectFires | signal
  | stop | forcedExitFires => exact ⟨rfl, rfl, rfl, rfl⟩

end State

/-! ## Whole runs -/

/-- The callback is one of the two that do not look at `shutting_down_`. -/
def Event.ignoresShutdown (e : Event) : Prop := e = .channelReady ∨ e = .immediateTickFires

/-- One move out of a state whose shutdown, if it has begun, is silent. -/
theorem quiescent_of_step (service : Service) {s t : State} {e : Event}
    (hs : service.system.Reachable s) (hsilent : s.shuttingDown = true → s.Silent)
    (hst : service.system.step s e t)
    (he : s.shuttingDown = true → ¬ e.ignoresShutdown) : Quiescent ⟨s, e, t⟩ := by
  obtain ⟨hen, rfl⟩ := hst
  have hc := consistent_of_reachable service hs
  cases hshut : s.shuttingDown with
  | false =>
    exact ⟨State.after_silent service hc hen hshut, fun h => absurd h (by simp [hshut]),
      fun h => absurd h (by simp [hshut])⟩
  | true =>
    have hquiet := hsilent hshut
    have hnot := he hshut
    have hu := State.after_undisturbed service hc hen hshut hquiet.timerArmed
      (fun h => hnot (Or.inl h)) fun h => hnot (Or.inr h)
    exact ⟨fun _ => State.silent_of (hu.channelReady.trans hquiet.channelReady)
        (hu.timerArmed.trans hquiet.timerArmed),
      fun _ => hu.shuttingDown.trans hshut, fun _ => congrArg _ hu.calls⟩

/-- Either of the two callbacks breaks the silence. -/
theorem not_quiescent_of_ignoresShutdown (service : Service) {s t : State} {e : Event}
    (hst : service.system.step s e t) (hshut : s.shuttingDown = true)
    (he : e.ignoresShutdown) : ¬ Quiescent ⟨s, e, t⟩ := by
  obtain ⟨-, rfl⟩ := hst
  intro hq
  rcases he with rfl | rfl
  · have hready := (hq.silent (hq.stays hshut)).channelReady
    unfold State.after State.handleConnectionReady State.onChannelReady at hready
    cases ht : service.timer <;> simp [ht, State.note, State.startTimer] at hready
  · have hcalls := hq.calls hshut
    simp [State.after, State.onTimerTrampoline, State.note, State.popImmediateTick,
      Call.disturbs] at hcalls

/-- **When shutdown is quiescent.**  In every run, every move is quiescent if and only
if no channel reports ready and no queued tick fires after shutdown has begun. -/
theorem shutdown_quiescent_iff (service : Service) {tr : List (Move State Event)} {s : State}
    (h : service.system.Run tr s) :
    (∀ m ∈ tr, Quiescent m) ↔
      ∀ m ∈ tr, m.pre.shuttingDown = true → ¬ m.event.ignoresShutdown := by
  constructor
  · intro hq m hm hshut he
    obtain ⟨-, hstep⟩ := h.exists_reachable_of_mem hm
    exact not_quiescent_of_ignoresShutdown service hstep hshut he (hq m hm)
  · intro hall
    suffices hrun : (∀ m ∈ tr, Quiescent m) ∧ (s.shuttingDown = true → s.Silent) from hrun.1
    induction h with
    | start hs =>
      obtain rfl := hs
      exact ⟨fun m hm => absurd hm (by simp), fun hsh => absurd hsh (by decide)⟩
    | @snoc tr s t e hr hst ih =>
      obtain ⟨hbefore, hsilent⟩ := ih fun m hm => hall m (List.mem_append_left _ hm)
      have hmove := quiescent_of_step service hr.reachable hsilent hst
        (hall ⟨s, e, t⟩ (List.mem_append_right _ (List.mem_singleton_self _)))
      refine ⟨fun m hm => ?_, hmove.silent⟩
      rw [List.mem_append, List.mem_singleton] at hm
      rcases hm with hm | rfl
      · exact hbefore m hm
      · exact hmove

/-- SIGTERM during the handshake. -/
def signalledInHandshake : State :=
  (State.constructed.after promptService (.run true)).after promptService .signal

/-- **The shutdown that is not quiescent**: SIGTERM arrives during the handshake, and
then the open-ok that was in transit. -/
theorem shutdown_not_quiescent :
    ¬ ∀ (service : Service) (tr : List (Move State Event)) (s : State),
      service.system.Run tr s → ∀ m ∈ tr, Quiescent m := by
  intro hall
  have h0 : promptService.system.Run [] State.constructed := .start rfl
  have h1 := h0.snoc (e := Event.run true) ⟨rfl, rfl⟩
  have h2 := h1.snoc (e := Event.signal) ⟨rfl, rfl⟩
  have h3 := h2.snoc (e := Event.channelReady) ⟨⟨⟨_, rfl, rfl⟩, _, rfl, rfl, rfl⟩, rfl⟩
  have hq := hall _ _ _ h3 ⟨signalledInHandshake, .channelReady, _⟩ (by
    exact List.mem_append_right _ (List.mem_singleton_self _))
  exact absurd (hq.silent rfl).channelReady (by decide)

/-- The same shutdown without the open-ok is quiescent: the connection is lost, closed and detached
instead. -/
theorem shutdown_quiescent_iff_signalled :
    ∃ tr s, promptService.system.Run tr s ∧
      (tr.filter (·.pre.shuttingDown)).map (·.event) = [.connectionLost, .closed, .detached] ∧
      ∀ m ∈ tr, Quiescent m := by
  have h0 : promptService.system.Run [] State.constructed := .start rfl
  have h1 := h0.snoc (e := Event.run true) ⟨rfl, rfl⟩
  have h2 := h1.snoc (e := Event.signal) ⟨rfl, rfl⟩
  have h3 := h2.snoc (e := Event.connectionLost) ⟨rfl, rfl⟩
  have h4 := h3.snoc (e := Event.closed) ⟨rfl, rfl⟩
  have h5 := h4.snoc (e := Event.detached) ⟨rfl, rfl⟩
  refine ⟨_, _, h5, rfl, (shutdown_quiescent_iff promptService h5).mpr ?_⟩
  simp [Event.ignoresShutdown]

end Messaging
end HabrDigest
