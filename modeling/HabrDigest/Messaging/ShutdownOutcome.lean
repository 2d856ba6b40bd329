import HabrDigest.Messaging.RetryBudget

/-!
# How a shutdown ends

A shutdown begins in one of two ways: `Stop` is called, by a signal or by a
subclass, or `ScheduleReconnect` finds the budget spent.  `Stop` asks a connection
that exists to close, and then it depends on the broker whether the loop ever sees
`onDetached`; that is why it also queues the forced exit.  Without a connection it
requests the exit itself, and so does giving up.

`Leaving` is what has to hold from then on: the exit is requested, or a forced exit
is queued.  It is an invariant because the one callback that takes a forced exit
out of the queue is the one that requests the exit, and nothing takes the request
back.

`KeepsOutcome` is the step lemma for everything that comes later.  Whatever arrives
during shutdown --- a second signal, a failure, an open-ok that was under way, a
detach, the reconnect that was queued before --- the flag stays, the exit code
stays, and no further reconnect is queued.  `shutdown_settles` cuts a run at the
move in which its shutdown begins and reads the exit code off that move.
-/

namespace HabrDigest
namespace Messaging

open State

/-- The process will leave its loop: the exit is requested, or the forced exit is
queued. -/
def State.Leaving (s : State) : Prop :=
  s.loop.exitRequested = true ∨ 0 < s.loop.forcedExits

/-- The shutdown begins in this move. -/
def BeginsShutdown (m : Move State Event) : Prop :=
  m.pre.shuttingDown = false ∧ m.post.shuttingDown = true

/-- The retry budget runs out in this move: the failure is counted, and the count is
over the limit. -/
def BudgetRunsOut (policy : ReconnectPolicy) (m : Move State Event) : Prop :=
  m.post.reconnectAttempts = m.pre.reconnectAttempts + 1 ∧
    policy.maxReconnectAttempts < m.post.reconnectAttempts

/-! ## Where it begins -/

/-- What the move that begins a shutdown has settled. -/
structure Begins (policy : ReconnectPolicy) (m : Move State Event) : Prop where
  leaving : m.post.Leaving
  /-- The exit code is the argument of `Stop`, or 1. -/
  exitCode : m.post.exitCode = m.event.stopArgument.getD 1
  /-- It is not `Stop` exactly when the budget runs out. -/
  budget : m.event.stopArgument = none ↔ BudgetRunsOut policy m
  /-- No reconnect is queued on the way. -/
  reconnects : m.post.loop.reconnects + m.event.reconnectsTaken = m.pre.loop.reconnects

namespace State

variable {service : Service} {s : State}

/-- A failure that begins a shutdown has spent the budget. -/
theorem begins_of_gaveUp {policy : ReconnectPolicy} {t u : State} {e : Event}
    (hu : FailureOutcome policy u t) (hattempts : u.reconnectAttempts = s.reconnectAttempts)
    (hshut : u.shuttingDown = false) (ht : t.shuttingDown = true) (he : e.stopArgument = none)
    (hreconnects : t.loop.reconnects + e.reconnectsTaken = s.loop.reconnects) :
    Begins policy ⟨s, e, t⟩ := by
  cases hu with
  | ignored hs => exact absurd hs (by simp [hshut])
  | pending _ _ hs | scheduled _ _ _ hs => exact absurd hs (by simp [ht])
  | gaveUp _ _ hbudget _ hcount hexit hloop =>
    rw [hattempts] at hbudget hcount
    refine ⟨Or.inl hloop, by rw [he]; exact hexit, ?_, hreconnects⟩
    exact ⟨fun _ => ⟨hcount, by rw [hcount]; exact hbudget⟩, fun _ => he⟩

/-- Giving up queues nothing. -/
theorem handleConnectionFailure_reconnects (policy : ReconnectPolicy) {s : State} (h : Flags s)
    (ht : (handleConnectionFailure policy s).shuttingDown = true) :
    (handleConnectionFailure policy s).loop.reconnects = s.loop.reconnects := by
  unfold handleConnectionFailure at ht ⊢
  cases hshut : s.shuttingDown with
  | true => rfl
  | false =>
    rw [if_neg (by simp [hshut])] at ht
    rw [if_neg (by simp)]
    have hlose := loseChannel_eq h
    rcases scheduleReconnect_cases policy (loseChannel s) with
      ⟨-, he⟩ | ⟨-, -, he⟩ | ⟨-, -, he⟩ <;> rw [he, hlose] at ht ⊢
    · exact absurd ht (by simp [hshut])
    · rw [giveUp_eq rfl]

theorem stop_begins (exitCode : ℤ) {e : Event} (policy : ReconnectPolicy) (hc : Consistent s)
    (hshut : s.shuttingDown = false) (he : e.stopArgument = some exitCode) :
    Begins policy ⟨s, e, stop exitCode s⟩ := by
  have hcount : ¬ BudgetRunsOut policy ⟨s, e, stop exitCode s⟩ := by
    rintro ⟨hcount, -⟩
    have hsame := (stop_fields exitCode hc).1
    rw [hsame, UInt32.left_eq_add] at hcount
    exact absurd hcount (by decide)
  have hreconnects := (stop_fields exitCode hc).2.2
  have hfields : (stop exitCode s).exitCode = exitCode ∧ (stop exitCode s).Leaving := by
    unfold stop
    rw [if_neg (by simp [hshut]), stopTimer_eq
      (s := { s with shuttingDown := true, exitCode := exitCode, channelReady := false }) hc.added]
    cases s.connection with
    | none => exact ⟨rfl, Or.inl rfl⟩
    | some connection => exact ⟨rfl, Or.inr (Nat.succ_pos _)⟩
  have htaken : e.reconnectsTaken = 0 := by
    cases e <;> first | rfl | exact absurd he (by simp [Event.stopArgument])
  refine ⟨hfields.2, by rw [he]; exact hfields.1, ?_, by rw [htaken]; exact hreconnects⟩
  exact ⟨fun hnone => absurd (he.symm.trans hnone) (by simp), fun hb => absurd hb hcount⟩

/-- **Whichever callback begins a shutdown settles it.** -/
theorem after_begins {e : Event} (hc : Consistent s) (he : s.Enabled e)
    (hshut : s.shuttingDown = false) (ht : (s.after service e).shuttingDown = true) :
    Begins service.policy ⟨s, e, s.after service e⟩ := by
  have hbegins := shutdownBegins_after hc he hshut ht
  generalize s.after service e = t at hbegins ht ⊢
  cases hbegins with
  | signal | stop => exact stop_begins _ service.policy hc hshut rfl
  | @failure _ u hstop hflags hushut hattempts hreconnects =>
    have hqueue := handleConnectionFailure_reconnects service.policy hflags ht
    refine begins_of_gaveUp (handleConnectionFailure_outcome _ hflags) hattempts hushut ht hstop ?_
    exact (congrArg (· + e.reconnectsTaken) hqueue).trans hreconnects

/-! ## What comes later -/

/-- What a callback leaves as it was during shutdown. -/
structure KeepsOutcome (s : State) (e : Event) (t : State) : Prop where
  shuttingDown : t.shuttingDown = true
  exitCode : t.exitCode = s.exitCode
  leaving : s.Leaving → t.Leaving
  /-- A queued reconnect may fire; none is added. -/
  reconnects : t.loop.reconnects + e.reconnectsTaken = s.loop.reconnects

/-- **Nothing that arrives during shutdown unsettles it.** -/
theorem after_keepsOutcome (service : Service) {e : Event} (he : s.Enabled e)
    (hshut : s.shuttingDown = true) (hc : Consistent s) : KeepsOutcome s e (s.after service e) := by
  rw [after_of_shuttingDown service hshut e]
  cases e with
  | run opens =>
    obtain rfl := hc.idle he
    exact absurd hshut (by decide)
  | channelReady =>
    simp only [afterShutdown, after, handleConnectionReady, onChannelReady]
    cases service.timer <;> exact ⟨hshut, rfl, id, rfl⟩
  | closed | detached => exact ⟨hshut, rfl, fun _ => Or.inl rfl, rfl⟩
  | reconnectFires opens => exact ⟨hshut, rfl, id, Nat.sub_add_cancel he⟩
  | connectionError | connectionLost | channelError | timerFires | immediateTickFires | signal
  | stop => exact ⟨hshut, rfl, id, rfl⟩
  -- the forced exit leaves the queue and requests the exit in the same callback
  | forcedExitFires => exact ⟨hshut, rfl, fun _ => Or.inl rfl, rfl⟩

end State

/-! ## Whole runs -/

/-- The flag is never cleared: it is set at the end of a run in which it was ever set. -/
theorem shuttingDown_of_mem (service : Service) {tr : List (Move State Event)} {s : State}
    (h : service.system.Run tr s) {m : Move State Event} (hm : m ∈ tr)
    (hshut : m.post.shuttingDown = true) : s.shuttingDown = true := by
  induction h with
  | start _ => exact absurd hm (by simp)
  | @snoc tr s t e hr hst ih =>
    rw [List.mem_append, List.mem_singleton] at hm
    rcases hm with hm | rfl
    · obtain ⟨he, rfl⟩ := hst
      have hc := consistent_of_reachable service hr.reachable
      exact (after_keepsOutcome service he (ih hm) hc).shuttingDown
    · exact hshut

/-- A run that is shutting down, cut at the move in which it began. -/
theorem exists_begins_of_run (service : Service) {tr : List (Move State Event)} {s : State}
    (h : service.system.Run tr s) (hshut : s.shuttingDown = true) :
    ∃ tr₁ m tr₂, tr = tr₁ ++ m :: tr₂ ∧ BeginsShutdown m ∧ Begins service.policy m ∧
      (∀ m' ∈ tr₁, m'.post.shuttingDown = false) ∧
      (∀ m' ∈ tr₂, m'.pre.shuttingDown = true ∧ KeepsOutcome m'.pre m'.event m'.post ∧
        m'.post.exitCode = m.post.exitCode) ∧
      s.exitCode = m.post.exitCode ∧ s.Leaving := by
  induction h with
  | start hs =>
    obtain rfl := hs
    exact absurd hshut (by decide)
  | @snoc tr s t e hr hst ih =>
    obtain ⟨he, rfl⟩ := hst
    have hc := consistent_of_reachable service hr.reachable
    cases hpre : s.shuttingDown with
    | false =>
      have hbegins := after_begins hc he hpre hshut
      refine ⟨tr, ⟨s, e, s.after service e⟩, [], rfl, ⟨hpre, hshut⟩, hbegins, ?_, by simp, rfl,
        hbegins.leaving⟩
      -- had an earlier move begun it, the flag would still be set
      intro m hm
      by_contra hset
      rw [Bool.not_eq_false] at hset
      exact absurd (shuttingDown_of_mem service hr hm hset) (by simp [hpre])
    | true =>
      obtain ⟨tr₁, m, tr₂, rfl, hm, hbegins, hbefore, hafter, hexit, hleaving⟩ := ih hpre
      have hkeeps := after_keepsOutcome service he hpre hc
      have hsame := hkeeps.exitCode.trans hexit
      refine ⟨tr₁, m, tr₂ ++ [⟨s, e, s.after service e⟩], by simp, hm, hbegins, hbefore, ?_,
        hsame, hkeeps.leaving hleaving⟩
      intro m' hm'
      rw [List.mem_append, List.mem_singleton] at hm'
      rcases hm' with hm' | rfl
      · exact hafter m' hm'
      · exact ⟨hpre, hkeeps, hsame⟩

/-- **A shutdown cannot hang or change its outcome.**  In every run, at every state
that is shutting down the exit is requested or the forced exit is queued.  The run
splits at the move in which `shutting_down_` was set: before it the flag is false,
and it stays true after it.  That move set the exit code: to the argument of `Stop`
if it was a call of `Stop`, and to 1 exactly when it was not, which is when the
budget ran out.  The exit code is the same ever since, and from that move on none
has added a reconnect: the queued ones are only taken. -/
theorem shutdown_settles (service : Service) {tr : List (Move State Event)} {s : State}
    (h : service.system.Run tr s) (hshut : s.shuttingDown = true) :
    s.Leaving ∧
    ∃ tr₁ m tr₂, tr = tr₁ ++ m :: tr₂ ∧
      (∀ m' ∈ tr₁, m'.post.shuttingDown = false) ∧ BeginsShutdown m ∧
      (∀ m' ∈ tr₂, m'.pre.shuttingDown = true ∧ m'.post.shuttingDown = true) ∧
      m.post.exitCode = m.event.stopArgument.getD 1 ∧
      (m.event.stopArgument = none ↔ BudgetRunsOut service.policy m) ∧
      (∀ m' ∈ tr₂, m'.post.exitCode = m.post.exitCode) ∧ s.exitCode = m.post.exitCode ∧
      ∀ m' ∈ m :: tr₂,
        m'.post.loop.reconnects + m'.event.reconnectsTaken = m'.pre.loop.reconnects := by
  obtain ⟨tr₁, m, tr₂, rfl, hm, hbegins, hbefore, hafter, hexit, hleaving⟩ :=
    exists_begins_of_run service h hshut
  refine ⟨hleaving, tr₁, m, tr₂, rfl, hbefore, hm, fun m' hm' => ?_, hbegins.exitCode,
    hbegins.budget, fun m' hm' => (hafter m' hm').2.2, hexit, fun m' hm' => ?_⟩
  · exact ⟨(hafter m' hm').1, (hafter m' hm').2.1.shuttingDown⟩
  · rcases List.mem_cons.mp hm' with rfl | hm'
    · exact hbegins.reconnects
    · exact (hafter m' hm').2.1.reconnects

/-- SIGTERM while the reconnect is queued, which then fires; the connection that failed
is still there, so the exit is left to the forced exit. -/
def signalledWhileWaiting : State :=
  (lostOnce.after promptService .signal).after promptService (.reconnectFires true)

/-- The exit code is that of the signal; and it is 1 where the second failure in a row is one too
many. -/
theorem shutdown_settles_signalled :
    (signalledWhileWaiting.Leaving ∧ signalledWhileWaiting.exitCode = 0 ∧
      signalledWhileWaiting.loop.reconnects = 0) ∧
    ∃ s, impatientService.system.Run reconnectThrows s ∧ s.Leaving ∧ s.exitCode = 1 ∧
      ∃ m ∈ reconnectThrows, BeginsShutdown m ∧ BudgetRunsOut impatientService.policy m := by
  refine ⟨?_, ?_⟩
  · obtain ⟨tr, h⟩ := reachable_lostOnce
    have h1 := h.snoc (e := Event.signal) ⟨rfl, rfl⟩
    have h2 := h1.snoc (e := Event.reconnectFires true) ⟨Nat.zero_lt_one, rfl⟩
    exact ⟨(shutdown_settles promptService h2 rfl).1, rfl, rfl⟩
  · obtain ⟨s, hrun, -, hshut⟩ := run_reconnectThrows
    obtain ⟨hleaving, tr₁, m, tr₂, hsplit, -, hbegins, -, hcode, hbudget, -, hlast, -⟩ :=
      shutdown_settles impatientService hrun hshut
    have hm : m ∈ reconnectThrows := hsplit ▸ List.mem_append_right _ List.mem_cons_self
    have hnoStop : ∀ m ∈ reconnectThrows, m.event.stopArgument = none := by decide
    rw [hnoStop m hm] at hcode
    exact ⟨s, hrun, hleaving, hlast.trans hcode, m, hm, hbegins, hbudget.mp (hnoStop m hm)⟩

end Messaging
end HabrDigest
