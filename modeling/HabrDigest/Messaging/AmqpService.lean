import HabrDigest.Lib.TransitionSystem
import Mathlib.Data.Int.Notation

/-!
# `AmqpService`: the skeleton every service shares

`shared/cpp/messaging/src/amqp_service.cpp`, without the channel operations.
One libevent loop drives the AMQP socket, the signal handlers, the reconnect
one-shot and the periodic timer, so at any moment exactly one callback runs and
the whole object is a state machine whose events are the callbacks.

## What the state holds

`State` has the fields of the class (`channelReady` for `channel_ready_`, and so
on), the two AMQP-CPP objects the class owns, and the part of the event loop the
class put there.  The objects carry what they have reported so far, since that is
what AMQP-CPP's promises are about; the event loop carries the persistent timer
and the one-shots that are queued, counted, since a one-shot added by
`event_base_once` cannot be cancelled.

`calls` is the one field the program does not have: the calls of the virtual
functions and of `Connect`, in order.  Every statement about what runs when is
about it.

## What is assumed of the libraries

`Enabled` says when a callback may come: a queued one-shot or an added timer may
fire, an object that exists may report, and a channel reports ready at most
once, and never after it or its connection has reported a failure.  Objects that
`DoReconnect` destroyed report nothing more, because the state no longer holds
them.  Nothing is assumed about order, and nothing stops when the loop has been
asked to exit: libevent still runs what is active, and a longer run only
strengthens a statement about every run.

A synchronous failure of `Connect` is the constructor of `AMQP::TcpConnection`
throwing; the events that call `Connect` carry the outcome.
-/

namespace HabrDigest
namespace Messaging

/-! ## The objects around the class -/

/-- An `AMQP::TcpConnection`. -/
structure TcpConnection where
  /-- `onError` or `onLost` has been called. -/
  reportedFailure : Bool
  /-- `close()` has been called. -/
  closeRequested : Bool
  deriving DecidableEq, Repr

/-- An `AMQP::TcpChannel`. -/
structure TcpChannel where
  /-- The `onReady` callback has been called. -/
  reportedReady : Bool
  /-- The `onError` callback has been called. -/
  reportedFailure : Bool
  deriving DecidableEq, Repr

/-- What the class has put into the libevent loop. -/
@[ext] structure EventLoop where
  /-- `timer_event_` is added. -/
  timerAdded : Bool
  /-- Queued one-shots to `OnReconnectTrampoline`. -/
  reconnects : ℕ
  /-- Queued one-shots to `OnTimerTrampoline`. -/
  immediateTicks : ℕ
  /-- Queued one-shots to `OnForcedExitTrampoline`. -/
  forcedExits : ℕ
  /-- `event_base_loopexit` has been called. -/
  exitRequested : Bool
  deriving DecidableEq, Repr

/-- A call of one of the virtual functions, or of `Connect`. -/
inductive Call where
  | connect
  | onChannelReady
  | onConnectionLost
  /-- `OnTick`, and `channel_ready_` at that moment. -/
  | onTick (channelReady : Bool)
  deriving DecidableEq, Repr

/-! ## Configuration -/

/-- What the skeleton reads of `AmqpConfig`. -/
structure ReconnectPolicy where
  maxReconnectAttempts : UInt32 := 10
  reconnectDelaySeconds : UInt32 := 3
  deriving DecidableEq, Repr

/-- The call `StartTimer(interval_seconds, fire_immediately)` a service makes in
its `OnChannelReady`. -/
structure TimerRequest where
  intervalSeconds : UInt32
  fireImmediately : Bool
  deriving DecidableEq, Repr

/-- A service: its reconnect policy, and the timer it arms in `OnChannelReady`, if
any.  The other calls an `OnChannelReady` makes declare queues and start
consuming; they do not touch the state of the skeleton. -/
structure Service where
  policy : ReconnectPolicy
  timer : Option TimerRequest
  deriving DecidableEq, Repr

/-- The object, its AMQP-CPP objects and its part of the event loop. -/
@[ext] structure State where
  /-- `Run` has been called. -/
  running : Bool := false
  exitCode : ℤ := 0
  reconnectAttempts : UInt32 := 0
  channelReady : Bool := false
  shuttingDown : Bool := false
  reconnectScheduled : Bool := false
  timerIntervalSeconds : UInt32 := 0
  timerArmed : Bool := false
  connection : Option TcpConnection := none
  channel : Option TcpChannel := none
  loop : EventLoop := ⟨false, 0, 0, 0, false⟩
  /-- The calls made so far. -/
  calls : List Call := []
  deriving DecidableEq, Repr

namespace State

/-- The object after its constructor. -/
def constructed : State := {}

/-- Note a call. -/
def note (c : Call) (s : State) : State := { s with calls := s.calls ++ [c] }

/-! ## Timer -/

/-- `AmqpService::StartTimer`. -/
def startTimer (request : TimerRequest) (s : State) : State :=
  { s with
    timerIntervalSeconds := request.intervalSeconds
    timerArmed := true
    loop := { s.loop with
      timerAdded := true
      immediateTicks := s.loop.immediateTicks + (if request.fireImmediately then 1 else 0) } }

/-- `AmqpService::StopTimer`. -/
def stopTimer (s : State) : State :=
  if s.timerArmed then
    { s with timerArmed := false, loop := { s.loop with timerAdded := false } }
  else s

/-- `event_base_loopexit(event_base_, nullptr)`. -/
def loopExit (s : State) : State := { s with loop := { s.loop with exitRequested := true } }

/-! ## Connecting and reconnecting -/

/-- What `ScheduleReconnect` does when the budget is spent. -/
def giveUp (s : State) : State :=
  loopExit (stopTimer { s with exitCode := 1, shuttingDown := true })

/-- `AmqpService::ScheduleReconnect`. -/
def scheduleReconnect (policy : ReconnectPolicy) (s : State) : State :=
  if s.reconnectScheduled then s
  else
    let s := { s with reconnectAttempts := s.reconnectAttempts + 1 }
    if policy.maxReconnectAttempts < s.reconnectAttempts then giveUp s
    else
      { s with
        reconnectScheduled := true
        loop := { s.loop with reconnects := s.loop.reconnects + 1 } }

/-- What `HandleConnectionFailure` does before it schedules a reconnect: the channel
is no longer ready, and if it was, the timer stops and `OnConnectionLost` is
called. -/
def loseChannel (s : State) : State :=
  let wasConnected := s.channelReady
  let s := { s with channelReady := false }
  if wasConnected then note .onConnectionLost (stopTimer s) else s

/-- `AmqpService::HandleConnectionFailure`. -/
def handleConnectionFailure (policy : ReconnectPolicy) (s : State) : State :=
  if s.shuttingDown then s else scheduleReconnect policy (loseChannel s)

/-- `AmqpService::Connect`; `opens` says whether the constructor of
`AMQP::TcpConnection` returns. -/
def connect (policy : ReconnectPolicy) (opens : Bool) (s : State) : State :=
  let s := note .connect { s with channelReady := false }
  if opens then
    { s with connection := some ⟨false, false⟩, channel := some ⟨false, false⟩ }
  else handleConnectionFailure policy s

/-- `AmqpService::DoReconnect`. -/
def doReconnect (policy : ReconnectPolicy) (opens : Bool) (s : State) : State :=
  let s := { s with reconnectScheduled := false }
  if s.shuttingDown then s
  else connect policy opens { s with channel := none, connection := none }

/-- `OnChannelReady` of a service, as far as the skeleton sees it. -/
def onChannelReady (timer : Option TimerRequest) (s : State) : State :=
  match timer with
  | some request => startTimer request (note .onChannelReady s)
  | none => note .onChannelReady s

/-- `AmqpService::HandleConnectionReady`. -/
def handleConnectionReady (service : Service) (s : State) : State :=
  onChannelReady service.timer { s with channelReady := true, reconnectAttempts := 0 }

/-- `AmqpService::HandleDetached`. -/
def handleDetached (s : State) : State := if s.shuttingDown then loopExit s else s

/-! ## Shutdown -/

/-- `AmqpService::Stop`. -/
def stop (exitCode : ℤ) (s : State) : State :=
  if s.shuttingDown then s
  else
    let s := stopTimer { s with shuttingDown := true, exitCode := exitCode, channelReady := false }
    match s.connection with
    | some connection =>
      { s with
        connection := some { connection with closeRequested := true }
        loop := { s.loop with forcedExits := s.loop.forcedExits + 1 } }
    | none => loopExit s

/-! ## Trampolines -/

/-- `AmqpService::OnTimerTrampoline`: `OnTick` of a service leaves the skeleton as it
is. -/
def onTimerTrampoline (s : State) : State := note (.onTick s.channelReady) s

/-- `AmqpService::OnSignalTrampoline`. -/
def onSignalTrampoline (s : State) : State := stop 0 s

/-- `AmqpService::OnReconnectTrampoline`. -/
def onReconnectTrampoline (policy : ReconnectPolicy) (opens : Bool) (s : State) : State :=
  doReconnect policy opens s

/-- `AmqpService::OnForcedExitTrampoline`. -/
def onForcedExitTrampoline (s : State) : State := loopExit s

/-- `AmqpService::Run` up to the dispatch of the loop. -/
def run (policy : ReconnectPolicy) (opens : Bool) (s : State) : State :=
  connect policy opens { s with running := true }

/-- The result of `AmqpService::PublishTo`, and so of `Publish` and
`PublishToExchange`; `accepted` is what `channel_->publish` would return. -/
def publishTo (accepted : Bool) (s : State) : Bool :=
  if s.channel.isNone || !s.channelReady then false else accepted

end State

/-! ## The callbacks as events -/

/-- The callbacks of the event loop, and the call of `Run` that starts it. -/
inductive Event where
  /-- `Run()`; `Connect` finds that the connection opens, or that it throws. -/
  | run (opens : Bool)
  /-- The channel's `onReady`. -/
  | channelReady
  /-- The handler's `onError`. -/
  | connectionError
  /-- The handler's `onLost`. -/
  | connectionLost
  /-- The channel's `onError`. -/
  | channelError
  /-- The handler's `onClosed`. -/
  | closed
  /-- The handler's `onDetached`. -/
  | detached
  /-- A one-shot to `OnReconnectTrampoline` fires. -/
  | reconnectFires (opens : Bool)
  /-- The persistent timer fires. -/
  | timerFires
  /-- A one-shot to `OnTimerTrampoline` fires. -/
  | immediateTickFires
  /-- SIGTERM or SIGINT. -/
  | signal
  /-- A subclass calls `Stop(exit_code)`. -/
  | stop (exitCode : ℤ)
  /-- A one-shot to `OnForcedExitTrampoline` fires. -/
  | forcedExitFires
  deriving DecidableEq, Repr

/-- A callback that reports a failure of the connection or the channel. -/
def Event.reportsFailure : Event → Bool
  | .connectionError | .connectionLost | .channelError => true
  | _ => false

namespace State

/-- The connection has reported a failure. -/
def markConnectionFailed (s : State) : State :=
  { s with connection := s.connection.map ({ · with reportedFailure := true }) }

/-- The channel has reported a failure. -/
def markChannelFailed (s : State) : State :=
  { s with channel := s.channel.map ({ · with reportedFailure := true }) }

/-- The channel has reported that it is ready. -/
def markChannelReady (s : State) : State :=
  { s with channel := s.channel.map ({ · with reportedReady := true }) }

/-- A reconnect one-shot leaves the queue. -/
def popReconnect (s : State) : State :=
  { s with loop := { s.loop with reconnects := s.loop.reconnects - 1 } }

/-- A tick one-shot leaves the queue. -/
def popImmediateTick (s : State) : State :=
  { s with loop := { s.loop with immediateTicks := s.loop.immediateTicks - 1 } }

/-- A forced-exit one-shot leaves the queue. -/
def popForcedExit (s : State) : State :=
  { s with loop := { s.loop with forcedExits := s.loop.forcedExits - 1 } }

/-- The state after a callback. -/
def after (service : Service) (s : State) : Event → State
  | .run opens => run service.policy opens s
  | .channelReady => handleConnectionReady service s.markChannelReady
  | .connectionError => handleConnectionFailure service.policy s.markConnectionFailed
  | .connectionLost => handleConnectionFailure service.policy s.markConnectionFailed
  | .channelError => handleConnectionFailure service.policy s.markChannelFailed
  | .closed => handleDetached s
  | .detached => handleDetached s
  | .reconnectFires opens => onReconnectTrampoline service.policy opens s.popReconnect
  | .timerFires => onTimerTrampoline s
  | .immediateTickFires => onTimerTrampoline s.popImmediateTick
  | .signal => onSignalTrampoline s
  | .stop exitCode => stop exitCode s
  | .forcedExitFires => onForcedExitTrampoline s.popForcedExit

/-- The channel and its connection exist and have reported neither ready nor a
failure: the handshake is under way. -/
def Handshaking (s : State) : Prop :=
  (∃ connection, s.connection = some connection ∧ connection.reportedFailure = false) ∧
    ∃ channel, s.channel = some channel ∧
      channel.reportedReady = false ∧ channel.reportedFailure = false

/-- When a callback may come. -/
def Enabled (s : State) : Event → Prop
  | .run _ => s.running = false
  | .channelReady => s.Handshaking
  | .connectionError => s.connection.isSome
  | .connectionLost => s.connection.isSome
  | .channelError => s.channel.isSome
  | .closed => s.connection.isSome
  | .detached => s.connection.isSome
  | .reconnectFires _ => 0 < s.loop.reconnects
  | .timerFires => s.loop.timerAdded
  | .immediateTickFires => 0 < s.loop.immediateTicks
  | .signal => s.running
  | .stop _ => s.running
  | .forcedExitFires => 0 < s.loop.forcedExits

end State

/-- The service as a transition system over its callbacks. -/
def Service.system (service : Service) : TransitionSystem State Event where
  init s := s = State.constructed
  step s e t := s.Enabled e ∧ t = s.after service e

end Messaging
end HabrDigest
