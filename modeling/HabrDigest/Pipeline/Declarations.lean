import HabrDigest.Fetcher.Fetcher
import HabrDigest.Messaging.AmqpConfig
import HabrDigest.Messaging.ChannelOperations
import HabrDigest.Messaging.Reconnect
import HabrDigest.Parser.Config
import HabrDigest.Pipeline.Delivery

/-!
# Nobody has to start first

No service creates the queues for the others.  Each declares in its `OnChannelReady` whatever it
uses, on every channel it gets: the fetcher and the parser both declare `raw_articles`, the parser
and the storage service `parsed_articles`, and all three services around the digests the exchange.
So the five may start in any order, any of them may die and come back at any time, and the broker
may be restarted under them.

That this works rests on three things the code never states: that the declarations agree
(`plan`), that none of the five names a queue or an exchange which it has not declared before on
the same channel (`selfContained_declarations`), and that nothing is published before
`OnChannelReady` has run on the channel that is there now (`channelReady_after`).  With them no
command is ever refused, so no channel is ever closed for one, and no message for a queue is
dropped because the queue is not there (`never_refused`); and a queue that is bound to the exchange
is bound for good, since all of it is durable (`bound_for_good`).
-/

namespace HabrDigest
namespace Pipeline

open Messaging Common

/-- The five programs. -/
inductive Program where
  | fetcher
  | parser
  | storage
  | notifier
  | web
  deriving DecidableEq, Repr

namespace Program

/-! ## What the programs send -/

/-- `Config::prefetch` of the storage service, the notifier and the web service, which nothing
sets. -/
def defaultPrefetch : UInt16 := 1

/-- `Fetcher::OnChannelReady`. -/
def fetcherReady (s : State) : List (Command Bytes) := s.declareQueue kRawArticlesQueue

/-- `ParserService::OnChannelReady`. -/
def parserReady (config : Parser.Config) (s : State) : List (Command Bytes) :=
  s.declareQueue kRawArticlesQueue ++ s.declareQueue kParsedArticlesQueue ++
    s.consume kRawArticlesQueue config.prefetch

/-- `StorageService::OnChannelReady`. -/
def storageReady (s : State) : List (Command Bytes) :=
  s.declareQueue kParsedArticlesQueue ++ s.declareFanoutExchange kDigestReadyExchange ++
    s.consume kParsedArticlesQueue defaultPrefetch

/-- `OnChannelReady` of a subscriber of the digests. -/
def subscriberReady (queue : Bytes) (s : State) : List (Command Bytes) :=
  s.declareFanoutExchange kDigestReadyExchange ++ s.declareQueue queue ++
    s.bindQueue queue kDigestReadyExchange ++ s.consume queue defaultPrefetch

/-- `NotifierService::OnChannelReady`. -/
def notifierReady (s : State) : List (Command Bytes) := subscriberReady kDigestNotifierQueue s

/-- `WebService::OnChannelReady`. -/
def webReady (s : State) : List (Command Bytes) := subscriberReady kDigestWebQueue s

/-- `OnChannelReady`, as far as the broker sees it. -/
def onChannelReady (env : Env) : Program → State → List (Command Bytes)
  | .fetcher => fetcherReady
  | .parser => parserReady (Parser.loadConfigFromEnv env)
  | .storage => storageReady
  | .notifier => notifierReady
  | .web => webReady

/-- What the ticks and the handlers publish: `Fetcher::OnTick`, `HandleRawArticles` and
`PublishDigest`. -/
def publishes (accepted : Bool) : Program → State → List (Command Bytes)
  | .fetcher => State.publish kRawArticlesQueue accepted
  | .parser => State.publish kParsedArticlesQueue accepted
  | .storage => State.publishToExchange kDigestReadyExchange accepted
  | .notifier | .web => fun _ => []

/-- The program, as its skeleton sees it. -/
def service (r : Rounding) (env : Env) (p : Program) : Service where
  policy := (loadAmqpConfigFromEnv env).policy
  timer :=
    match p with
    | .fetcher => some ⟨(Fetcher.loadConfigFromEnv env).intervalSeconds, true⟩
    | .storage => some ⟨(Storage.loadConfigFromEnv r env).digestIntervalSeconds, false⟩
    | .parser | .notifier | .web => none

/-- What a program declares on a channel that is there. -/
def declarations (env : Env) (p : Program) : List (Command Bytes) :=
  p.onChannelReady env { State.constructed with channel := some ⟨true, false⟩ }

theorem onChannelReady_eq (env : Env) (p : Program) {s : State} (h : s.channel.isSome) :
    p.onChannelReady env s = p.declarations env := by
  obtain ⟨channel, hchannel⟩ := Option.isSome_iff_exists.mp h
  cases p <;> simp [declarations, onChannelReady, fetcherReady, parserReady, storageReady,
    notifierReady, webReady, subscriberReady, State.declareQueue, State.declareFanoutExchange,
    State.bindQueue, State.consume, hchannel]

end Program

/-! ## The plan -/

/-- What there is to declare. -/
def plan : Topology.Plan Bytes where
  topology :=
    { queues := fun queue =>
        if queue ∈ [kRawArticlesQueue, kParsedArticlesQueue, kDigestNotifierQueue, kDigestWebQueue]
        then some true else none
      exchanges := fun exchange =>
        if exchange = kDigestReadyExchange then some ⟨.fanout, true⟩ else none
      bindings := [⟨kDigestReadyExchange, kDigestNotifierQueue, []⟩,
        ⟨kDigestReadyExchange, kDigestWebQueue, []⟩] }
  maxPrefetch := 1000

theorem durable_plan : plan.Durable where
  queues queue durable h := by
    have h : (if queue ∈ [kRawArticlesQueue, kParsedArticlesQueue, kDigestNotifierQueue,
      kDigestWebQueue] then some true else none) = some durable := h
    split_ifs at h
    exact (Option.some.inj h).symm
  exchanges exchange arguments h := by
    have h : (if exchange = kDigestReadyExchange then some (ExchangeArguments.mk .fanout true)
      else none) = some arguments := h
    split_ifs at h
    rw [← Option.some.inj h]

/-- **No program counts on another**: each declares as planned, and names only what it has declared
itself. -/
theorem selfContained_declarations (env : Env) (p : Program) :
    Command.SelfContained plan (p.declarations env) := by
  have hraw : Command.Agrees plan (.declareQueue kRawArticlesQueue true) := by decide +kernel
  have hparsed : Command.Agrees plan (.declareQueue kParsedArticlesQueue true) := by
    decide +kernel
  have hexchange : Command.Agrees plan (.declareExchange kDigestReadyExchange ⟨.fanout, true⟩) := by
    decide +kernel
  have hsubscriber : ∀ queue, Command.Agrees plan (.declareQueue queue true) →
      Command.Agrees plan (.bindQueue ⟨kDigestReadyExchange, queue, []⟩) →
      Command.SelfContained plan (Program.subscriberReady queue
        { State.constructed with channel := some ⟨true, false⟩ }) := by
    intro queue hqueue hbinding
    have h := ((((Command.SelfContained.nil plan).concat hexchange trivial).concat hqueue
      trivial).concat hbinding ⟨⟨⟨.fanout, true⟩, by simp⟩, true, by simp⟩)
    exact (h.concat (c := .setQos 1) ⟨by decide, by decide⟩ trivial).concat (c := .consume queue)
      trivial ⟨⟨true, by simp⟩, 1, by simp⟩
  cases p with
  | fetcher => exact (Command.SelfContained.nil plan).concat hraw trivial
  | parser =>
    have h := ((Command.SelfContained.nil plan).concat hraw trivial).concat hparsed trivial
    exact (h.concat (c := .setQos _) (Parser.prefetch_pos env) trivial).concat
      (c := .consume kRawArticlesQueue) trivial ⟨⟨true, by simp⟩, _, List.mem_concat_self⟩
  | storage =>
    have h := ((Command.SelfContained.nil plan).concat hparsed trivial).concat hexchange trivial
    exact (h.concat (c := .setQos 1) ⟨by decide, by decide⟩ trivial).concat
      (c := .consume kParsedArticlesQueue) trivial ⟨⟨true, by simp⟩, 1, by simp⟩
  | notifier => exact hsubscriber _ (by decide +kernel) (by decide +kernel)
  | web => exact hsubscriber _ (by decide +kernel) (by decide +kernel)

/-! ## The channel that is there now -/

theorem channelReady_handleConnectionFailure {policy : ReconnectPolicy} {s : State}
    (h : (s.handleConnectionFailure policy).channelReady = true) : s.channelReady = true := by
  unfold State.handleConnectionFailure at h
  split_ifs at h
  · exact h
  · refine absurd h (Bool.eq_false_iff.mp ?_)
    have hlost : s.loseChannel.channelReady = false := by
      unfold State.loseChannel State.note State.stopTimer
      dsimp only
      split_ifs <;> rfl
    rcases State.scheduleReconnect_cases policy s.loseChannel with
      ⟨-, heq⟩ | ⟨-, -, heq⟩ | ⟨-, -, heq⟩ <;> rw [heq]
    · exact hlost
    · exact hlost
    · unfold State.giveUp State.loopExit State.stopTimer
      dsimp only
      split_ifs <;> exact hlost

theorem channelReady_connect (policy : ReconnectPolicy) (opens : Bool) (s : State) :
    (s.connect policy opens).channelReady = false := by
  unfold State.connect
  cases opens with
  | true => rfl
  | false =>
    refine Bool.eq_false_iff.mpr fun h => ?_
    exact absurd (channelReady_handleConnectionFailure h) (by simp [State.note])

/-- **A channel is ready only after `OnChannelReady` has run on it**: any other callback that
leaves it ready has found it ready and keeps it. -/
theorem channelReady_after {service : Service} {s : State} {e : Event} (he : e ≠ .channelReady)
    (h : (s.after service e).channelReady = true) :
    s.channelReady = true ∧ Instance.connects s e = false := by
  cases e with
  | channelReady => exact absurd rfl he
  | run opens => exact absurd h (Bool.eq_false_iff.mp (channelReady_connect _ _ _))
  | connectionError | connectionLost =>
    have hmarked : s.markConnectionFailed.channelReady = true :=
      channelReady_handleConnectionFailure h
    exact ⟨hmarked, rfl⟩
  | channelError =>
    have hmarked : s.markChannelFailed.channelReady = true :=
      channelReady_handleConnectionFailure h
    exact ⟨hmarked, rfl⟩
  | reconnectFires opens =>
    have h : (s.popReconnect.doReconnect service.policy opens).channelReady = true := h
    cases hs : s.shuttingDown with
    | true =>
      rw [State.doReconnect_of_shuttingDown _ _ (by exact hs)] at h
      exact ⟨h, by simp [Instance.connects, hs]⟩
    | false =>
      rw [State.doReconnect_of_not_shuttingDown _ _ (by exact hs)] at h
      exact absurd h (Bool.eq_false_iff.mp (channelReady_connect _ _ _))
  | closed | detached =>
    have h : s.handleDetached.channelReady = true := h
    unfold State.handleDetached at h
    split_ifs at h <;> exact ⟨h, rfl⟩
  | signal | stop =>
    refine ⟨?_, rfl⟩
    by_contra hready
    have hfalse : ∀ exitCode, (s.stop exitCode).channelReady = false := by
      intro exitCode
      unfold State.stop State.stopTimer State.loopExit
      split_ifs with hs harmed
      · exact Bool.eq_false_iff.mpr hready
      all_goals cases s.connection <;> rfl
    exact absurd h (Bool.eq_false_iff.mp (hfalse _))
  | timerFires | immediateTickFires | forcedExitFires => exact ⟨h, rfl⟩

/-! ## All processes and their broker -/

/-- Which program each process runs, and in which environment. -/
structure Fleet (ι : Type) where
  rounding : Rounding
  program : ι → Program
  env : ι → Env

/-- A process: its skeleton, and its channel at the broker. -/
structure Client where
  state : State := State.constructed
  channel : Option ℕ := none

structure Deployment (ι : Type) where
  server : Server Bytes := {}
  clients : ι → Client := fun _ => {}

/-- What can happen. -/
inductive DeploymentEvent (ι : Type) where
  /-- A callback of the skeleton of a process. -/
  | callback (i : ι) (e : Event)
  /-- A process publishes.  `accepted` is what `channel_->publish` would return. -/
  | publishes (i : ι) (accepted : Bool)
  /-- A process dies and is started again. -/
  | dies (i : ι)
  /-- The broker executes the next command of a channel. -/
  | executes (channel : ℕ)
  /-- A channel is lost. -/
  | loses (channel : ℕ)
  /-- The broker is restarted. -/
  | restarts

/-- A client sends commands on its channel, if it has one. -/
def Client.send (c : Client) (cs : List (Command Bytes)) (server : Server Bytes) : Server Bytes :=
  match c.channel with
  | none => server
  | some i => server.send i cs

namespace Deployment

variable {ι : Type} [DecidableEq ι]

/-- A callback of a process.  `Connect` opens a channel, and `OnChannelReady` sends on it. -/
def callback (F : Fleet ι) (s : Deployment ι) (i : ι) (e : Event) : Deployment ι :=
  let old := s.clients i
  let state := old.state.after ((F.program i).service F.rounding (F.env i)) e
  if Instance.connects old.state e then
    if Instance.opens e then
      { server := s.server.openChannel
        clients := Function.update s.clients i ⟨state, some s.server.channels.length⟩ }
    else { s with clients := Function.update s.clients i ⟨state, none⟩ }
  else
    { server :=
        if e = .channelReady then
          old.send ((F.program i).onChannelReady (F.env i) state) s.server
        else s.server
      clients := Function.update s.clients i ⟨state, old.channel⟩ }

/-- All of it after an event. -/
def after (F : Fleet ι) (s : Deployment ι) : DeploymentEvent ι → Deployment ι
  | .callback i e => s.callback F i e
  | .publishes i accepted =>
    { s with
      server := (s.clients i).send ((F.program i).publishes accepted (s.clients i).state) s.server }
  | .dies i => { s with clients := Function.update s.clients i {} }
  | .executes channel => { s with server := s.server.execute channel }
  | .loses channel => { s with server := s.server.lose channel }
  | .restarts => { s with server := s.server.restart }

/-- When it can happen: a callback when the skeleton can get it, anything else at any time. -/
def Enabled (s : Deployment ι) : DeploymentEvent ι → Prop
  | .callback i e => (s.clients i).state.Enabled e
  | _ => True

end Deployment

/-- All processes and their broker as a transition system. -/
def Fleet.system {ι : Type} [DecidableEq ι] (F : Fleet ι) :
    TransitionSystem (Deployment ι) (DeploymentEvent ι) where
  init s := s = {}
  step s e t := s.Enabled e ∧ t = s.after F e

variable {ι : Type} {F : Fleet ι}

/-- What holds in every state: the server is sane, and a client whose channel is ready has sent its
declarations on it. -/
structure Declared (F : Fleet ι) (s : Deployment ι) : Prop where
  sane : s.server.Sane plan
  channels : ∀ i channel, (s.clients i).channel = some channel →
    channel < s.server.channels.length
  declared : ∀ i channel sent, (s.clients i).channel = some channel →
    s.server.sentOn channel = some sent → (s.clients i).state.channelReady = true →
      (F.program i).declarations (F.env i) ⊆ sent

/-- What happens to the server by itself. -/
theorem Declared.of_server {s : Deployment ι} (h : Declared F s) {server : Server Bytes}
    (hsane : server.Sane plan) (hcontinues : server.Continues s.server) :
    Declared F { s with server := server } where
  sane := hsane
  channels i channel hi := Nat.lt_of_lt_of_le (h.channels i channel hi) hcontinues.length
  declared i channel sent hi hsent hready := by
    obtain ⟨old, hold, hsub⟩ := hcontinues.sent channel (h.channels i channel hi) sent hsent
    exact List.Subset.trans (h.declared i channel old hi hold hready) hsub

/-- A client may send what relies on nothing but what it has sent before. -/
theorem sane_send {s : Server Bytes} (h : s.Sane plan) (c : Client) {cs : List (Command Bytes)}
    (hcs : ∀ i sent, c.channel = some i → s.sentOn i = some sent →
      Command.SelfContained plan sent → Command.SelfContained plan (sent ++ cs)) :
    (c.send cs s).Sane plan := by
  unfold Client.send
  cases hc : c.channel with
  | none => exact h
  | some i => exact h.send i fun sent hsent => hcs i sent hc hsent

theorem continues_clientSend (c : Client) (cs : List (Command Bytes)) (s : Server Bytes) :
    (c.send cs s).Continues s := by
  unfold Client.send
  cases c.channel with
  | none => exact .refl s
  | some i => exact s.continues_send i cs

variable [DecidableEq ι]

/-- A process changes, and with it perhaps the server. -/
theorem Declared.update {s : Deployment ι} (h : Declared F s) {server : Server Bytes}
    (hsane : server.Sane plan) (hcontinues : server.Continues s.server) (i : ι) {c : Client}
    (hchannel : ∀ channel, c.channel = some channel → channel < server.channels.length)
    (hdeclared : ∀ channel sent, c.channel = some channel → server.sentOn channel = some sent →
      c.state.channelReady = true → (F.program i).declarations (F.env i) ⊆ sent) :
    Declared F ⟨server, Function.update s.clients i c⟩ := by
  have hserver := h.of_server hsane hcontinues
  refine ⟨hsane, fun j => ?_, fun j => ?_⟩
  · by_cases hij : j = i
    · subst hij
      simpa using hchannel
    · simpa [hij] using hserver.channels j
  · by_cases hij : j = i
    · subst hij
      simpa using hdeclared
    · simpa [hij] using hserver.declared j

/-- **A callback keeps the order**: a new channel is not ready, and where a channel becomes ready
the declarations are sent on it. -/
theorem Declared.callback {s : Deployment ι} (h : Declared F s) {i : ι} {e : Event}
    (henabled : (s.clients i).state.Enabled e) : Declared F (s.callback F i e) := by
  unfold Deployment.callback
  dsimp only
  by_cases hconnects : Instance.connects (s.clients i).state e = true
  · have hnot : e ≠ .channelReady := by
      rintro rfl
      exact absurd hconnects (by simp [Instance.connects])
    have hunready : ((s.clients i).state.after ((F.program i).service F.rounding (F.env i))
        e).channelReady ≠ true := fun hready => by
      have hkept := (channelReady_after hnot hready).2
      exact absurd (hconnects.symm.trans hkept) (by simp)
    rw [if_pos hconnects]
    split_ifs
    · refine h.update h.sane.openChannel s.server.continues_openChannel i ?_
        fun _ _ _ _ hready => absurd hready hunready
      intro channel hchannel
      obtain rfl := Option.some.inj hchannel
      simp [Server.openChannel]
    · exact h.update h.sane (.refl _) i (fun _ hchannel => absurd hchannel (by simp))
        fun _ _ hchannel => absurd hchannel (by simp)
  · rw [if_neg hconnects]
    by_cases he : e = .channelReady
    · subst he
      obtain ⟨-, channel, hchannel, -, -⟩ := henabled
      -- `OnChannelReady` finds the channel that has reported
      have hsome : ((s.clients i).state.after ((F.program i).service F.rounding (F.env i))
          .channelReady).channel.isSome := by
        have hready : ∀ timer (t : State), (t.onChannelReady timer).channel = t.channel := by
          rintro (_ | timer) t <;> rfl
        show (State.onChannelReady _ _).channel.isSome
        rw [hready]
        simp [State.markChannelReady, hchannel]
      rw [if_pos rfl, Program.onChannelReady_eq (F.env i) (F.program i) hsome]
      have hcontained := selfContained_declarations (F.env i) (F.program i)
      refine h.update (sane_send h.sane _ fun _ _ _ _ hsent => hsent.append_selfContained hcontained)
        (continues_clientSend _ _ _) i (fun channel hclient => ?_)
        fun channel sent hclient hsent _ => ?_
      · exact Nat.lt_of_lt_of_le (h.channels i channel hclient) (continues_clientSend _ _ _).length
      · rw [Client.send, hclient] at hsent
        exact Server.subset_of_sentOn_send hsent
    · rw [if_neg he]
      refine h.update h.sane (.refl _) i (h.channels i) fun channel sent hclient hsent hready => ?_
      exact h.declared i channel sent hclient hsent (channelReady_after he hready).1

/-- **Whatever a program publishes, it has declared.** -/
theorem Declared.publishes {s : Deployment ι} (h : Declared F s) (i : ι) (accepted : Bool) :
    Declared F (s.after F (.publishes i accepted)) := by
  refine h.of_server (sane_send h.sane _ fun channel sent hclient hsent hcontained => ?_)
    (continues_clientSend _ _ _)
  -- a channel that takes messages is ready
  have hready : ∀ {exchange key : Bytes} {c : Command Bytes},
      c ∈ State.publishes exchange key accepted (s.clients i).state →
        (F.program i).declarations (F.env i) ⊆ sent := by
    intro exchange key c hc
    refine h.declared i channel sent hclient hsent ?_
    unfold State.publishes State.publishTo at hc
    by_contra hunready
    simp [hunready] at hc
  have hone : ∀ {exchange key : Bytes},
      ((F.program i).declarations (F.env i) ⊆ sent → Command.ReliesOn sent
        (.publish (if exchange = [] then none else some exchange) key)) →
      Command.SelfContained plan
        (sent ++ State.publishes exchange key accepted (s.clients i).state) := by
    intro exchange key hrelies
    by_cases hpublishes : (s.clients i).state.publishTo accepted = true
    · have hsends : State.publishes exchange key accepted (s.clients i).state =
          [.publish (if exchange = [] then none else some exchange) key] := if_pos hpublishes
      have hdeclared := hready (hsends ▸ List.mem_singleton_self _)
      rw [hsends]
      exact hcontained.concat trivial (hrelies hdeclared)
    · have hsends : State.publishes exchange key accepted (s.clients i).state = [] :=
        if_neg hpublishes
      rw [hsends, List.append_nil]
      exact hcontained
  cases hprogram : F.program i with
  | fetcher => exact hone fun hdeclared => ⟨true, hdeclared (by rw [hprogram]; simp [
      Program.declarations, Program.onChannelReady, Program.fetcherReady, State.declareQueue])⟩
  | parser => exact hone fun hdeclared => ⟨true, hdeclared (by rw [hprogram]; simp [
      Program.declarations, Program.onChannelReady, Program.parserReady, State.declareQueue])⟩
  | storage =>
    have hname : ¬ kDigestReadyExchange = [] := by decide +kernel
    refine hone fun hdeclared => ?_
    rw [if_neg hname]
    exact ⟨⟨.fanout, true⟩, hdeclared (by rw [hprogram]; simp [Program.declarations,
      Program.onChannelReady, Program.storageReady, State.declareFanoutExchange])⟩
  | notifier | web =>
    rw [Program.publishes, List.append_nil]
    exact hcontained

/-- A client that sends changes nothing at the broker but its channel. -/
theorem clientSend_eq (c : Client) (cs : List (Command Bytes)) (s : Server Bytes) :
    ∃ channels, c.send cs s = { s with channels := channels } := by
  unfold Client.send Server.send
  split
  · exact ⟨_, rfl⟩
  · split
    · exact ⟨_, rfl⟩
    · split_ifs <;> exact ⟨_, rfl⟩

/-- Only two events change more at the broker than its channels. -/
theorem after_server (F : Fleet ι) (s : Deployment ι) (e : DeploymentEvent ι) :
    (∃ channel, e = .executes channel) ∨ e = .restarts ∨
      ∃ channels, (s.after F e).server = { s.server with channels := channels } := by
  cases e with
  | executes channel => exact Or.inl ⟨channel, rfl⟩
  | restarts => exact Or.inr (Or.inl rfl)
  | dies i => exact Or.inr (Or.inr ⟨_, rfl⟩)
  | publishes i accepted => exact Or.inr (Or.inr (clientSend_eq _ _ _))
  | loses channel =>
    refine Or.inr (Or.inr ?_)
    show ∃ channels, s.server.lose channel = _
    unfold Server.lose
    split <;> exact ⟨_, rfl⟩
  | callback i e =>
    refine Or.inr (Or.inr ?_)
    show ∃ channels, (s.callback F i e).server = _
    unfold Deployment.callback
    dsimp only
    split_ifs
    · exact ⟨_, rfl⟩
    · exact ⟨_, rfl⟩
    · exact clientSend_eq _ _ _
    · exact ⟨_, rfl⟩

/-- **Every event keeps the order.** -/
theorem Declared.after {s : Deployment ι} (h : Declared F s) (e : DeploymentEvent ι)
    (henabled : s.Enabled e) : Declared F (s.after F e) := by
  cases e with
  | callback i e => exact h.callback henabled
  | publishes i accepted => exact h.publishes i accepted
  | dies i =>
    exact h.update h.sane (.refl _) i (fun _ hchannel => absurd hchannel (by simp))
      fun _ _ hchannel => absurd hchannel (by simp)
  | executes channel =>
    exact h.of_server (h.sane.execute channel).1 (s.server.continues_execute channel)
  | loses channel => exact h.of_server (h.sane.lose channel) (s.server.continues_lose channel)
  | restarts =>
    exact h.of_server (h.sane.restart durable_plan).1 s.server.continues_restart

/-- **What there is at the broker stays**, and what it routes goes by what there is. -/
theorem Declared.grows {s : Deployment ι} (h : Declared F s) (e : DeploymentEvent ι) :
    (s.after F e).server.topology.Extends s.server.topology ∧
      ((s.after F e).server.routed = s.server.routed ∨ ∃ exchange key,
        (s.after F e).server.routed =
          s.server.routed ++ [⟨exchange, key, s.server.topology.reached exchange key⟩]) := by
  rcases after_server F s e with ⟨channel, rfl⟩ | rfl | ⟨channels, hserver⟩
  · exact ⟨(h.sane.execute channel).2, s.server.routed_execute channel⟩
  · have hsame : (s.after F .restarts).server.topology = s.server.topology :=
      (h.sane.restart durable_plan).2
    exact ⟨hsame ▸ .refl _, Or.inl rfl⟩
  · rw [hserver]
    exact ⟨.refl _, Or.inl rfl⟩

theorem declared_of_reachable {s : Deployment ι} (h : F.system.Reachable s) : Declared F s := by
  refine h.invariant (P := Declared F) ?_ ?_
  · rintro s rfl
    exact ⟨.empty plan, fun _ _ hchannel => absurd hchannel (by simp),
      fun _ _ _ hchannel => absurd hchannel (by simp)⟩
  · rintro s e t hs ⟨henabled, rfl⟩
    exact hs.after e henabled

/-- What the services rely on without saying so. -/
structure Served (F : Fleet ι) (s : Deployment ι) : Prop where
  refused : s.server.refused = []
  routed : ∀ r ∈ s.server.routed, r.exchange = none → r.queues = [r.key]
  limited : ∀ consumer ∈ s.server.consumers, 0 < consumer.2 ∧ consumer.2 ≤ 1000
  /-- Where a client is ready and the broker has caught up with it, its declarations are there. -/
  ready : ∀ i channel ch, (s.clients i).channel = some channel →
    s.server.channels[channel]? = some ch → ch.opened = true →
      (s.clients i).state.channelReady = true → ch.pending = [] →
        ∀ c ∈ (F.program i).declarations (F.env i), s.server.topology.Established c

/-- **No service has to start first**: whichever processes start, die and come back in whatever
order, and whenever the broker is restarted, it refuses no command and drops no message for a queue
that is not there, and no consumer is without a limit. -/
theorem never_refused {s : Deployment ι} (h : F.system.Reachable s) : Served F s := by
  have hdeclared := declared_of_reachable h
  refine ⟨hdeclared.sane.refused, hdeclared.sane.routed, hdeclared.sane.limited, ?_⟩
  intro i channel ch hclient hch hopened hready hpending c hc
  have hsent := Server.sentOn_of_opened hch hopened
  rw [hpending, List.append_nil] at hsent
  have hexecuted := hdeclared.declared i channel _ hclient hsent hready hc
  exact (hdeclared.sane.channels ch (List.mem_of_getElem? hch)).established hopened c hexecuted

/-- Whatever a fanout exchange reached at one time it has reached with every message since. -/
structure BoundSince (exchange : Bytes) (a s : Deployment ι) : Prop where
  grows : s.server.topology.Extends a.server.topology
  routed : ∃ more, s.server.routed = a.server.routed ++ more ∧
    ∀ r ∈ more, r.exchange = some exchange →
      (a.server.topology.exchanges exchange).map (·.kind) = some .fanout →
        a.server.topology.reached (some exchange) [] ⊆ r.queues

omit [DecidableEq ι] in
/-- An exchange that something is bound to is the fanout exchange that is planned. -/
theorem Declared.kind_of_mem_reached {s : Deployment ι} (h : Declared F s) {queue : Bytes}
    (hbound : queue ∈ s.server.topology.reached (some kDigestReadyExchange) []) :
    (s.server.topology.exchanges kDigestReadyExchange).map (·.kind) = some .fanout := by
  obtain ⟨b, hb, -⟩ := List.mem_map.mp (List.mem_dedup.mp hbound)
  obtain ⟨hb, htakes⟩ := List.mem_filter.mp hb
  obtain ⟨arguments, harguments⟩ := Option.isSome_iff_exists.mp (h.sane.fits.bound b hb).1
  have hname : b.exchange = kDigestReadyExchange := (of_decide_eq_true htakes).1
  rw [hname] at harguments
  have hplanned := h.sane.fits.planned.exchanges _ _ harguments
  have hplan : plan.topology.exchanges kDigestReadyExchange = some ⟨.fanout, true⟩ := by
    decide +kernel
  rw [harguments, Option.map_some, ← Option.some.inj (hplan.symm.trans hplanned)]

/-- **A queue that is bound gets every digest from then on**, whichever processes and brokers are
restarted in between. -/
theorem bound_for_good {tr : List (Move (Deployment ι) (DeploymentEvent ι))} {s : Deployment ι}
    (hrun : F.system.Run tr s) {m : Move (Deployment ι) (DeploymentEvent ι)} (hm : m ∈ tr)
    {queue : Bytes}
    (hbound : queue ∈ m.post.server.topology.reached (some kDigestReadyExchange) []) :
    queue ∈ s.server.topology.reached (some kDigestReadyExchange) [] ∧
    ∃ more, s.server.routed = m.post.server.routed ++ more ∧
      ∀ r ∈ more, r.exchange = some kDigestReadyExchange → queue ∈ r.queues := by
  have hsince : BoundSince kDigestReadyExchange m.post s := by
    refine hrun.relates (R := BoundSince kDigestReadyExchange)
      (fun a => ⟨.refl _, [], by simp, by simp⟩) ?_ hm
    rintro a t e _ ht ⟨hgrows, more, hmore, hreach⟩ ⟨-, rfl⟩
    obtain ⟨hextends, hrouted⟩ := (declared_of_reachable ht).grows e
    refine ⟨hextends.trans hgrows, ?_⟩
    rcases hrouted with hrouted | ⟨exchange, key, hrouted⟩
    · exact ⟨more, hrouted.trans hmore, hreach⟩
    · refine ⟨more ++ [⟨exchange, key, t.server.topology.reached exchange key⟩], ?_, ?_⟩
      · rw [← List.append_assoc, ← hmore, hrouted]
      · intro r hr hexchange hfanout q hq
        rcases List.mem_append.mp hr with hr | hr
        · exact hreach r hr hexchange hfanout hq
        · obtain rfl := List.mem_singleton.mp hr
          obtain rfl : exchange = some kDigestReadyExchange := hexchange
          exact hgrows.mem_reached hfanout hq key
  obtain ⟨hpre, hstep⟩ := hrun.exists_reachable_of_mem hm
  have hfanout := (declared_of_reachable (hpre.step hstep)).kind_of_mem_reached hbound
  obtain ⟨hgrows, more, hmore, hreach⟩ := hsince
  exact ⟨hgrows.mem_reached hfanout hbound [], more, hmore, fun r hr hexchange =>
    hreach r hr hexchange hfanout hbound⟩

/-! ## A notifier that starts first -/

/-- One process of each program, with an empty environment. -/
def oneOfEach : Fleet Program where
  rounding := .exact
  program := id
  env _ := fun _ => none

/-- A process connects, and its channel becomes ready. -/
def starts (p : Program) : List (DeploymentEvent Program) :=
  [.callback p (.run true), .callback p .channelReady]

/-- The notifier starts and binds its queue, the broker is restarted, and only then comes the
storage service and publishes a digest. -/
def notifierFirst : List (DeploymentEvent Program) :=
  starts .notifier ++ [.executes 0, .executes 0, .executes 0, .restarts] ++ starts .storage ++
    [.publishes .storage true, .executes 1, .executes 1, .executes 1, .executes 1, .executes 1]

theorem run_notifierFirst : oneOfEach.system.Run
    (TransitionSystem.moves (Deployment.after oneOfEach) {} notifierFirst)
    (notifierFirst.foldl (Deployment.after oneOfEach) {}) := by
  have hstep : ∀ (s : Deployment Program) e, s.Enabled e →
      oneOfEach.system.step s e (s.after oneOfEach e) := fun _ _ h => ⟨h, rfl⟩
  have hstart : oneOfEach.system.Run [] {} := .start rfl
  refine hstart.append_moves hstep notifierFirst ?_
  exact ⟨rfl, ⟨⟨_, rfl, rfl⟩, _, rfl, rfl, rfl⟩, trivial, trivial, trivial, trivial, rfl,
    ⟨⟨_, rfl, rfl⟩, _, rfl, rfl, rfl⟩, trivial, trivial, trivial, trivial, trivial, trivial,
    trivial⟩

theorem never_refused_notifierFirst :
    (notifierFirst.foldl (Deployment.after oneOfEach) {}).server.consumers =
      [(kParsedArticlesQueue, 1)] ∧
    Served oneOfEach (notifierFirst.foldl (Deployment.after oneOfEach) {}) :=
  ⟨by decide +kernel, never_refused run_notifierFirst.reachable⟩

/-- The digest reaches the notifier, whose channel is gone. -/
theorem bound_for_good_notifierFirst :
    let s := notifierFirst.foldl (Deployment.after oneOfEach) {}
    s.server.routed = [⟨some kDigestReadyExchange, [], [kDigestNotifierQueue]⟩] ∧
    kDigestNotifierQueue ∈ s.server.topology.reached (some kDigestReadyExchange) [] := by
  obtain ⟨m, hm, hbound⟩ : ∃ m ∈ TransitionSystem.moves (Deployment.after oneOfEach) {}
      notifierFirst,
      kDigestNotifierQueue ∈ m.post.server.topology.reached (some kDigestReadyExchange) [] :=
    ⟨_, List.getElem_mem (n := 4) (by decide), by decide +kernel⟩
  exact ⟨by decide +kernel, (bound_for_good run_notifierFirst hm hbound).1⟩

end Pipeline
end HabrDigest
