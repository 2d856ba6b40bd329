import HabrDigest.Messaging.AmqpService

/-!
# The reconnect state machine

One lost connection can surface as several callbacks in any order, and `Connect`
can fail from inside `DoReconnect`.  The class keeps itself straight with four
flags; this file says what the flags mean in terms of what is really in the event
loop, and that every callback keeps it so.

`Consistent` is the invariant.  Its timer part says that the flag `timer_armed_`,
the event added to the loop and `channel_ready_` never part: the timer is added
exactly when it is armed, and only on a ready channel.  Its reconnect part says
that `reconnect_scheduled_` counts the queued one-shots.  Its phase part is the
three-way split of a running service that is not shutting down:

* `Connected` --- the channel is ready and no reconnect is queued;
* `AwaitingReconnect` --- exactly one reconnect is queued;
* `Handshaking` --- the objects exist and have reported nothing.

The phase part is stated with the three made disjoint, because that is what a
callback needs to know: a ready callback only comes while `Handshaking`, so it
cannot find a reconnect queued; the reconnect fires only while
`AwaitingReconnect`, so `Connect`, which clears `channel_ready_` without touching
the timer, finds the timer already stopped.
-/

namespace HabrDigest
namespace Messaging

/-- The exit code `Stop` is called with; a signal calls `Stop(0)`. -/
def Event.stopArgument : Event → Option ℤ
  | .signal => some 0
  | .stop exitCode => some exitCode
  | _ => none

/-- The reconnect one-shots that the loop takes off its queue for an event. -/
def Event.reconnectsTaken : Event → ℕ
  | .reconnectFires _ => 1
  | _ => 0

namespace State

/-! ## The three phases -/

/-- The channel is ready and no reconnect is queued. -/
def Connected (s : State) : Prop := s.channelReady = true ∧ s.loop.reconnects = 0

/-- Exactly one reconnect one-shot is queued. -/
def AwaitingReconnect (s : State) : Prop := s.loop.reconnects = 1

/-- The phases, with what keeps them apart. -/
inductive Phase (s : State) : Prop where
  | connected : s.channelReady = true → s.loop.reconnects = 0 → ¬ s.Handshaking → Phase s
  | awaitingReconnect :
      s.channelReady = false → s.loop.reconnects = 1 → ¬ s.Handshaking → Phase s
  | handshaking : s.channelReady = false → s.loop.reconnects = 0 → s.Handshaking → Phase s

/-- What the flags mean in terms of the event loop, whatever the phase. -/
structure Flags (s : State) : Prop where
  /-- `reconnect_scheduled_` says whether a reconnect is queued, and there is at most one. -/
  scheduled : s.loop.reconnects = if s.reconnectScheduled then 1 else 0
  /-- The timer is armed on a ready channel only. -/
  armed : s.timerArmed = true → s.channelReady = true
  /-- The timer is added to the loop exactly when it is armed. -/
  added : s.loop.timerAdded = s.timerArmed

/-- The invariant of the reconnect state machine. -/
structure Consistent (s : State) : Prop extends Flags s where
  /-- Nothing has happened before `Run`. -/
  idle : s.running = false → s = constructed
  /-- A running service that is not shutting down is in one of the phases. -/
  phase : s.running = true → s.shuttingDown = false → Phase s

theorem consistent_constructed : Consistent constructed where
  scheduled := rfl
  armed := by simp [constructed]
  added := rfl
  idle _ := rfl
  phase h := absurd h (by simp [constructed])

/-! ## What the functions do -/

theorem not_handshaking_of_connection_none {s : State} (h : s.connection = none) :
    ¬ s.Handshaking := by
  rintro ⟨⟨c, hc, -⟩, -⟩
  rw [h] at hc
  exact absurd hc (by simp)

/-- An armed timer needs a ready channel. -/
theorem Flags.timerArmed_eq_false {s : State} (h : Flags s) (hr : s.channelReady = false) :
    s.timerArmed = false := by
  cases ha : s.timerArmed with
  | false => rfl
  | true => exact absurd (h.armed ha) (by simp [hr])

/-- Where the timer is added exactly when it is armed, stopping it leaves it neither. -/
theorem stopTimer_eq {s : State} (h : s.loop.timerAdded = s.timerArmed) :
    stopTimer s =
      { s with timerArmed := false, loop := { s.loop with timerAdded := false } } := by
  unfold stopTimer
  cases ha : s.timerArmed with
  | true => rfl
  | false =>
    rw [ha] at h
    rw [if_neg (by simp)]
    exact State.ext rfl rfl rfl rfl rfl rfl rfl ha rfl rfl (EventLoop.ext h rfl rfl rfl rfl) rfl

/-- Losing the channel stops the timer, whether or not the channel was ready. -/
theorem loseChannel_eq {s : State} (h : Flags s) :
    loseChannel s =
      { s with
        channelReady := false
        timerArmed := false
        loop := { s.loop with timerAdded := false }
        calls := s.calls ++ (if s.channelReady then [.onConnectionLost] else []) } := by
  unfold loseChannel
  cases hr : s.channelReady with
  | true =>
    simp only [if_true, note]
    rw [stopTimer_eq (s := { s with channelReady := false }) h.added]
  | false =>
    have harmed := h.timerArmed_eq_false hr
    have hadded : s.loop.timerAdded = false := h.added.trans harmed
    rw [if_neg (by simp), if_neg (by simp), List.append_nil]
    exact State.ext rfl rfl rfl rfl rfl rfl rfl harmed rfl rfl
      (EventLoop.ext hadded rfl rfl rfl rfl) rfl

theorem giveUp_eq {s : State} (h : s.loop.timerAdded = s.timerArmed) :
    giveUp s =
      { s with
        exitCode := 1
        shuttingDown := true
        timerArmed := false
        loop := { s.loop with timerAdded := false, exitRequested := true } } := by
  unfold giveUp
  rw [stopTimer_eq (s := { s with exitCode := 1, shuttingDown := true }) h]
  rfl

/-- **What a scheduled reconnect amounts to.**  Either one is queued already and
nothing changes, or the failure is counted: then one is queued, or the budget is
spent and the service gives up. -/
theorem scheduleReconnect_cases (policy : ReconnectPolicy) (s : State) :
    (s.reconnectScheduled = true ∧ scheduleReconnect policy s = s) ∨
    (s.reconnectScheduled = false ∧ ¬ policy.maxReconnectAttempts < s.reconnectAttempts + 1 ∧
      scheduleReconnect policy s =
        { s with
          reconnectAttempts := s.reconnectAttempts + 1
          reconnectScheduled := true
          loop := { s.loop with reconnects := s.loop.reconnects + 1 } }) ∨
    (s.reconnectScheduled = false ∧ policy.maxReconnectAttempts < s.reconnectAttempts + 1 ∧
      scheduleReconnect policy s =
        giveUp { s with reconnectAttempts := s.reconnectAttempts + 1 }) := by
  unfold scheduleReconnect
  cases hs : s.reconnectScheduled with
  | true => exact Or.inl ⟨rfl, by simp⟩
  | false =>
    by_cases hb : policy.maxReconnectAttempts < s.reconnectAttempts + 1
    · exact Or.inr (Or.inr ⟨rfl, hb, by simp [hb]⟩)
    · exact Or.inr (Or.inl ⟨rfl, hb, by simp [hb]⟩)

theorem doReconnect_of_shuttingDown (policy : ReconnectPolicy) (opens : Bool) {s : State}
    (h : s.shuttingDown = true) :
    doReconnect policy opens s = { s with reconnectScheduled := false } := by
  unfold doReconnect
  simp [h]

theorem doReconnect_of_not_shuttingDown (policy : ReconnectPolicy) (opens : Bool) {s : State}
    (h : s.shuttingDown = false) :
    doReconnect policy opens s =
      connect policy opens
        { s with reconnectScheduled := false, channel := none, connection := none } := by
  unfold doReconnect
  simp [h]

/-! ## Every function keeps the invariant -/

/-- Once the channel is lost, scheduling a reconnect restores the invariant: the
service waits for the one reconnect, or has given up. -/
theorem scheduleReconnect_consistent (policy : ReconnectPolicy) {s : State} (h : Flags s)
    (hrun : s.running = true) (hready : s.channelReady = false) (hnot : ¬ s.Handshaking) :
    Consistent (scheduleReconnect policy s) := by
  rcases scheduleReconnect_cases policy s with ⟨hs, he⟩ | ⟨hs, -, he⟩ | ⟨hs, -, he⟩
  · have hone : s.loop.reconnects = 1 := by rw [h.scheduled, hs]; rfl
    rw [he]
    exact ⟨h, fun hr => absurd hr (by simp [hrun]),
      fun _ _ => .awaitingReconnect hready hone hnot⟩
  · have hzero : s.loop.reconnects = 0 := by rw [h.scheduled, hs]; rfl
    rw [he]
    exact ⟨⟨by simp [hzero], h.armed, h.added⟩, fun hr => absurd hr (by simp [hrun]),
      fun _ _ => .awaitingReconnect hready (by simp [hzero]) hnot⟩
  · rw [he, giveUp_eq (s := { s with reconnectAttempts := s.reconnectAttempts + 1 }) h.added]
    exact ⟨⟨h.scheduled, by simp, rfl⟩, fun hr => absurd hr (by simp [hrun]),
      fun _ hshut => absurd hshut (by simp)⟩

theorem handleConnectionFailure_consistent (policy : ReconnectPolicy) {s : State} (h : Flags s)
    (hrun : s.running = true) (hnot : ¬ s.Handshaking) :
    Consistent (handleConnectionFailure policy s) := by
  unfold handleConnectionFailure
  cases hshut : s.shuttingDown with
  | true =>
    exact ⟨h, fun hr => absurd hr (by simp [hrun]), fun _ hs => absurd hs (by simp [hshut])⟩
  | false =>
    rw [if_neg (by simp), loseChannel_eq h]
    exact scheduleReconnect_consistent policy ⟨h.scheduled, by simp, rfl⟩ hrun rfl hnot

/-- `Connect` may only run where nothing is queued, the channel is not ready and the
old objects are gone; then it leaves a handshake under way, or a lost channel. -/
theorem connect_consistent (policy : ReconnectPolicy) (opens : Bool) {s : State} (h : Flags s)
    (hrun : s.running = true) (hready : s.channelReady = false) (hzero : s.loop.reconnects = 0)
    (hconn : s.connection = none) : Consistent (connect policy opens s) := by
  have harmed := h.timerArmed_eq_false hready
  have hflags : Flags (note .connect { s with channelReady := false }) :=
    ⟨h.scheduled, by simp [note, harmed], h.added⟩
  cases opens with
  | true =>
    refine ⟨⟨h.scheduled, by simp [connect, note, harmed], h.added⟩,
      fun hr => absurd hr (by simp [connect, note, hrun]), fun _ _ => ?_⟩
    exact .handshaking rfl hzero ⟨⟨_, rfl, rfl⟩, _, rfl, rfl, rfl⟩
  | false =>
    exact handleConnectionFailure_consistent policy hflags hrun
      (not_handshaking_of_connection_none hconn)

/-- During a handshake no reconnect is queued. -/
theorem Consistent.reconnects_eq_zero {s : State} (h : Consistent s) (hrun : s.running = true)
    (hshut : s.shuttingDown = false) (hshake : s.Handshaking) : s.loop.reconnects = 0 := by
  cases h.phase hrun hshut with
  | connected _ hz _ => exact hz
  | awaitingReconnect _ _ hn => exact absurd hshake hn
  | handshaking _ hz _ => exact hz

/-- While a reconnect is queued the flag is set, the count is one, and the channel is not
ready. -/
theorem Consistent.of_reconnects_pos {s : State} (h : Consistent s)
    (hfires : 0 < s.loop.reconnects) :
    s.reconnectScheduled = true ∧ s.loop.reconnects = 1 ∧
      (s.running = true → s.shuttingDown = false → s.channelReady = false) := by
  have hscheduled : s.reconnectScheduled = true := by
    cases hs : s.reconnectScheduled with
    | true => rfl
    | false => rw [h.scheduled, hs] at hfires; exact absurd hfires (by simp)
  have hone : s.loop.reconnects = 1 := by rw [h.scheduled, hscheduled]; rfl
  refine ⟨hscheduled, hone, fun hrun hshut => ?_⟩
  cases h.phase hrun hshut with
  | connected _ hz _ => exact absurd hz (by simp [hone])
  | awaitingReconnect hr _ _ => exact hr
  | handshaking hr _ _ => exact hr

/-- A queued reconnect fires: `reconnect_scheduled_` is cleared as the one-shot leaves
the loop, and the channel it finds was lost before. -/
theorem reconnectFires_consistent (policy : ReconnectPolicy) (opens : Bool) {s : State}
    (h : Consistent s) (hrun : s.running = true) (hfires : 0 < s.loop.reconnects) :
    Consistent (doReconnect policy opens s.popReconnect) := by
  obtain ⟨-, hone, hready⟩ := h.of_reconnects_pos hfires
  cases hshut : s.shuttingDown with
  | true =>
    rw [doReconnect_of_shuttingDown policy opens (s := s.popReconnect) hshut]
    exact ⟨⟨by simp [popReconnect, hone], h.armed, h.added⟩,
      fun hr => absurd hr (by simp [popReconnect, hrun]),
      fun _ hs => absurd hs (by simp [popReconnect, hshut])⟩
  | false =>
    rw [doReconnect_of_not_shuttingDown policy opens (s := s.popReconnect) hshut]
    exact connect_consistent policy opens ⟨by simp [popReconnect, hone], h.armed, h.added⟩ hrun
      (hready hrun hshut) (by simp [popReconnect, hone]) rfl

/-- A channel that reports ready was handshaking, so no reconnect is queued. -/
theorem channelReady_consistent (service : Service) {s : State} (h : Consistent s)
    (hrun : s.running = true) (hshake : s.Handshaking) :
    Consistent (handleConnectionReady service s.markChannelReady) := by
  have hnot : ¬ (handleConnectionReady service s.markChannelReady).Handshaking := by
    obtain ⟨-, channel, hc, -⟩ := hshake
    rintro ⟨-, channel', hc', hready, -⟩
    unfold handleConnectionReady onChannelReady markChannelReady startTimer note at hc'
    cases ht : service.timer <;> simp [ht, hc] at hc' <;> simp [← hc'] at hready
  have hzero := fun hshut => h.reconnects_eq_zero hrun hshut hshake
  unfold handleConnectionReady onChannelReady markChannelReady at hnot ⊢
  cases ht : service.timer with
  | none =>
    rw [ht] at hnot
    exact ⟨⟨h.scheduled, fun _ => rfl, h.added⟩, fun hr => absurd hr (by simp [note, hrun]),
      fun _ hshut => .connected rfl (hzero hshut) hnot⟩
  | some request =>
    rw [ht] at hnot
    exact ⟨⟨h.scheduled, fun _ => rfl, rfl⟩,
      fun hr => absurd hr (by simp [startTimer, note, hrun]),
      fun _ hshut => .connected rfl (hzero hshut) hnot⟩

theorem stop_consistent (exitCode : ℤ) {s : State} (h : Consistent s)
    (hrun : s.running = true) : Consistent (stop exitCode s) := by
  unfold stop
  cases hshut : s.shuttingDown with
  | true => rwa [if_pos rfl]
  | false =>
    rw [if_neg (by simp), stopTimer_eq
      (s := { s with shuttingDown := true, exitCode := exitCode, channelReady := false }) h.added]
    cases s.connection <;>
      exact ⟨⟨h.scheduled, by simp [loopExit], rfl⟩,
        fun hr => absurd hr (by simp [loopExit, hrun]), fun _ hs => absurd hs (by simp [loopExit])⟩

/-- A state that differs in nothing the invariant reads is as consistent. -/
theorem Consistent.congr {s t : State} (h : Consistent s) (hrun : s.running = true)
    (hrunning : t.running = s.running) (hready : t.channelReady = s.channelReady)
    (hshutting : t.shuttingDown = s.shuttingDown)
    (hscheduled : t.reconnectScheduled = s.reconnectScheduled)
    (harmed : t.timerArmed = s.timerArmed) (hconnection : t.connection = s.connection)
    (hchannel : t.channel = s.channel) (hadded : t.loop.timerAdded = s.loop.timerAdded)
    (hreconnects : t.loop.reconnects = s.loop.reconnects) : Consistent t := by
  have hshake : t.Handshaking ↔ s.Handshaking := by
    unfold Handshaking; rw [hconnection, hchannel]
  refine ⟨⟨?_, ?_, ?_⟩, fun hr => absurd hr (by simp [hrunning, hrun]), fun _ hs => ?_⟩
  · rw [hreconnects, hscheduled, h.scheduled]
  · rw [harmed, hready]; exact h.armed
  · rw [hadded, harmed, h.added]
  · rw [hshutting] at hs
    cases h.phase hrun hs with
    | connected h1 h2 h3 =>
      exact .connected (hready.trans h1) (hreconnects.trans h2) (mt hshake.mp h3)
    | awaitingReconnect h1 h2 h3 =>
      exact .awaitingReconnect (hready.trans h1) (hreconnects.trans h2) (mt hshake.mp h3)
    | handshaking h1 h2 h3 =>
      exact .handshaking (hready.trans h1) (hreconnects.trans h2) (hshake.mpr h3)

theorem handleDetached_consistent {s : State} (h : Consistent s) (hrun : s.running = true) :
    Consistent (handleDetached s) := by
  unfold handleDetached
  split
  · exact h.congr hrun rfl rfl rfl rfl rfl rfl rfl rfl rfl
  · exact h

/-- Marking the connection or the channel as failed ends the handshake. -/
theorem not_handshaking_markConnectionFailed (s : State) :
    ¬ s.markConnectionFailed.Handshaking := by
  rintro ⟨⟨c, hc, hf⟩, -⟩
  simp only [markConnectionFailed, Option.map_eq_some_iff] at hc
  obtain ⟨c', -, rfl⟩ := hc
  exact absurd hf (by simp)

theorem not_handshaking_markChannelFailed (s : State) :
    ¬ s.markChannelFailed.Handshaking := by
  rintro ⟨-, c, hc, -, hf⟩
  simp only [markChannelFailed, Option.map_eq_some_iff] at hc
  obtain ⟨c', -, rfl⟩ := hc
  exact absurd hf (by simp)

/-- **Every callback keeps the invariant.** -/
theorem after_consistent (service : Service) {s : State} {e : Event} (h : Consistent s)
    (he : s.Enabled e) : Consistent (s.after service e) := by
  cases hrun : s.running with
  | false =>
    -- before `Run` the object is as constructed, and `Run` is all that can happen to it
    obtain rfl := h.idle hrun
    cases e with
    | run opens =>
      exact connect_consistent service.policy opens
        ⟨rfl, fun ha => absurd ha (by decide), rfl⟩ rfl rfl rfl rfl
    | channelReady => exact absurd he (not_handshaking_of_connection_none rfl)
    | _ => exact absurd he (by simp [Enabled, constructed])
  | true =>
    cases e with
    | run opens => exact absurd he (by simp [Enabled, hrun])
    | channelReady => exact channelReady_consistent service h hrun he
    | connectionError | connectionLost =>
      exact handleConnectionFailure_consistent service.policy ⟨h.scheduled, h.armed, h.added⟩ hrun
        (not_handshaking_markConnectionFailed s)
    | channelError =>
      exact handleConnectionFailure_consistent service.policy ⟨h.scheduled, h.armed, h.added⟩ hrun
        (not_handshaking_markChannelFailed s)
    | closed | detached => exact handleDetached_consistent h hrun
    | reconnectFires opens => exact reconnectFires_consistent service.policy opens h hrun he
    | timerFires | immediateTickFires | forcedExitFires =>
      exact h.congr hrun rfl rfl rfl rfl rfl rfl rfl rfl rfl
    | signal | stop exitCode => exact stop_consistent _ h hrun

/-! ## Shutdown, callback by callback -/

/-- How a shutdown begins: `Stop` is called, or a failure is reported, by the library or by
`Connect`; `u` is the state that `HandleConnectionFailure` finds. -/
inductive ShutdownBegins (policy : ReconnectPolicy) (s : State) : Event → State → Prop where
  | signal : ShutdownBegins policy s .signal (stop 0 s)
  | stop (exitCode : ℤ) : ShutdownBegins policy s (.stop exitCode) (stop exitCode s)
  | failure {e : Event} {u : State} : e.stopArgument = none → Flags u → u.shuttingDown = false →
      u.reconnectAttempts = s.reconnectAttempts →
      u.loop.reconnects + e.reconnectsTaken = s.loop.reconnects →
      ShutdownBegins policy s e (handleConnectionFailure policy u)

/-- A shutdown that `Connect` begins. -/
theorem shutdownBegins_connect {policy : ReconnectPolicy} {opens : Bool} {s u : State} {e : Event}
    (h : Flags u) (hready : u.channelReady = false) (hshut : u.shuttingDown = false)
    (hattempts : u.reconnectAttempts = s.reconnectAttempts)
    (hreconnects : u.loop.reconnects + e.reconnectsTaken = s.loop.reconnects)
    (he : e.stopArgument = none) (ht : (connect policy opens u).shuttingDown = true) :
    ShutdownBegins policy s e (connect policy opens u) := by
  cases opens with
  | true => exact absurd ht (by simp [connect, note, hshut])
  | false =>
    have hflags : Flags (note .connect { u with channelReady := false }) :=
      ⟨h.scheduled, by simp [note, h.timerArmed_eq_false hready], h.added⟩
    exact .failure he hflags hshut hattempts hreconnects

/-- **Only these callbacks begin a shutdown.** -/
theorem shutdownBegins_after {service : Service} {s : State} {e : Event} (hc : Consistent s)
    (he : s.Enabled e) (hshut : s.shuttingDown = false)
    (ht : (s.after service e).shuttingDown = true) :
    ShutdownBegins service.policy s e (s.after service e) := by
  cases e with
  | run opens =>
    obtain rfl := hc.idle he
    exact shutdownBegins_connect ⟨rfl, fun ha => absurd ha (by decide), rfl⟩ rfl rfl rfl rfl rfl ht
  | channelReady =>
    refine absurd ht ?_
    unfold after handleConnectionReady onChannelReady
    cases service.timer <;> simp [note, startTimer, markChannelReady, hshut]
  | connectionError | connectionLost | channelError =>
    exact .failure rfl ⟨hc.scheduled, hc.armed, hc.added⟩ hshut rfl rfl
  | closed | detached => exact absurd ht (by simp [after, handleDetached, hshut])
  | reconnectFires opens =>
    obtain ⟨-, hone, hready⟩ := hc.of_reconnects_pos he
    have hrun : s.running = true := by
      cases hr : s.running with
      | true => rfl
      | false => rw [hc.idle hr] at hone; exact absurd hone (by decide)
    simp only [after, onReconnectTrampoline] at ht ⊢
    rw [doReconnect_of_not_shuttingDown _ opens (s := s.popReconnect) hshut] at ht ⊢
    exact shutdownBegins_connect ⟨by simp [popReconnect, hone], hc.armed, hc.added⟩
      (hready hrun hshut) hshut rfl (Nat.sub_add_cancel he) rfl ht
  | timerFires => exact absurd ht (by simp [after, onTimerTrampoline, note, hshut])
  | immediateTickFires =>
    exact absurd ht (by simp [after, onTimerTrampoline, note, popImmediateTick, hshut])
  | signal => exact .signal
  | stop exitCode => exact .stop exitCode
  | forcedExitFires =>
    exact absurd ht (by simp [after, onForcedExitTrampoline, loopExit, popForcedExit, hshut])

/-- What the callbacks come to that check the flag. -/
def afterShutdown (service : Service) (s : State) : Event → State
  | .connectionError | .connectionLost => s.markConnectionFailed
  | .channelError => s.markChannelFailed
  | .closed | .detached => s.loopExit
  | .reconnectFires _ => { s.popReconnect with reconnectScheduled := false }
  | .signal | .stop _ => s
  | e => s.after service e

/-- **What a callback does during a shutdown.** -/
theorem after_of_shuttingDown (service : Service) {s : State} (h : s.shuttingDown = true)
    (e : Event) : s.after service e = s.afterShutdown service e := by
  cases e with
  | connectionError | connectionLost | channelError => exact if_pos h
  | closed | detached => exact if_pos h
  | reconnectFires opens =>
    exact doReconnect_of_shuttingDown service.policy opens (s := s.popReconnect) h
  | signal | stop exitCode => exact if_pos h
  | run | channelReady | timerFires | immediateTickFires | forcedExitFires => rfl

end State

/-- **Every reachable state is consistent.** -/
theorem consistent_of_reachable (service : Service) {s : State}
    (h : service.system.Reachable s) : s.Consistent :=
  h.invariant (fun _ hs => hs ▸ State.consistent_constructed)
    fun _ _ _ hc ⟨he, ht⟩ => ht ▸ State.after_consistent service hc he

/-- **The reconnect state machine never gets stuck and never doubles up.**  In every
reachable state of a running service that is not shutting down, exactly one of
the three phases holds; and in every reachable state `reconnect_scheduled_` is
true exactly when a reconnect is queued, never two are, and the timer is armed on
a ready channel only. -/
theorem reconnect_never_stuck (service : Service) {s : State}
    (h : service.system.Reachable s) :
    (s.running = true → s.shuttingDown = false →
      (s.Connected ∨ s.AwaitingReconnect ∨ s.Handshaking) ∧
      ¬ (s.Connected ∧ s.AwaitingReconnect) ∧ ¬ (s.Connected ∧ s.Handshaking) ∧
      ¬ (s.AwaitingReconnect ∧ s.Handshaking)) ∧
    (s.reconnectScheduled = true ↔ 0 < s.loop.reconnects) ∧ s.loop.reconnects ≤ 1 ∧
    (s.timerArmed = true → s.channelReady = true) := by
  have hc := consistent_of_reachable service h
  refine ⟨fun hrun hshut => ?_, ?_, ?_, hc.armed⟩
  · cases hc.phase hrun hshut with
    | connected hready hzero hnot =>
      have hone : ¬ s.AwaitingReconnect := by simp [State.AwaitingReconnect, hzero]
      exact ⟨Or.inl ⟨hready, hzero⟩, fun hb => hone hb.2, fun hb => hnot hb.2, fun hb => hnot hb.2⟩
    | awaitingReconnect _ hone hnot =>
      have hzero : ¬ s.Connected := by simp [State.Connected, hone]
      exact ⟨Or.inr (Or.inl hone), fun hb => hzero hb.1, fun hb => hnot hb.2, fun hb => hnot hb.2⟩
    | handshaking hready hzero hshake =>
      have hone : ¬ s.AwaitingReconnect := by simp [State.AwaitingReconnect, hzero]
      have hno : ¬ s.Connected := by simp [State.Connected, hready]
      exact ⟨Or.inr (Or.inr hshake), fun hb => hone hb.2, fun hb => hno hb.1, fun hb => hone hb.1⟩
  · rw [hc.scheduled]
    cases s.reconnectScheduled <;> simp
  · rw [hc.scheduled]
    split <;> omega

/-- A service with the fetcher's defaults: ten reconnects, a tick every 300 seconds and
one at once. -/
def promptService : Service := ⟨{}, some ⟨300, true⟩⟩

/-- The service after its first connection came up and was lost. -/
def lostOnce : State :=
  ((State.constructed.after promptService (.run true)).after promptService .channelReady).after
    promptService .connectionLost

theorem reachable_lostOnce : promptService.system.Reachable lostOnce := by
  have h0 : promptService.system.Reachable State.constructed := .init rfl
  have h1 := h0.step (e := Event.run true) ⟨rfl, rfl⟩
  have h2 := h1.step (e := Event.channelReady) ⟨⟨⟨_, rfl, rfl⟩, _, rfl, rfl, rfl⟩, rfl⟩
  exact h2.step (e := Event.connectionLost) ⟨rfl, rfl⟩

theorem reconnect_never_stuck_lostOnce :
    (lostOnce.Connected ∨ lostOnce.AwaitingReconnect ∨ lostOnce.Handshaking) ∧
      (lostOnce.reconnectScheduled = true ↔ 0 < lostOnce.loop.reconnects) :=
  have h := reconnect_never_stuck promptService reachable_lostOnce
  ⟨(h.1 rfl rfl).1, h.2.1⟩

end Messaging
end HabrDigest
