import HabrDigest.Lib.Broker
import HabrDigest.Lib.JsonText
import HabrDigest.Messaging.AmqpService
import HabrDigest.Parser.ParserService
import HabrDigest.Storage.StorageService

/-!
# No page is lost

The way of a page from `raw_articles` to the database: a broker, any number of parsers, and
one storage service.  Every process is its skeleton, with every callback the skeleton can
get, and the link to the broker that its connection is; what a handler answers goes down
that link, and how much of it gets through before the connection dies is up to the event.

There are no publisher confirms, so nothing tells a parser that its articles have arrived.
What keeps a page from being lost is the order on the link: the articles are published
before the page is acknowledged, and a connection loses a suffix of what it carries.  The
invariant says just that (`Inv`), every event keeps it (`Inv.after`), and `noPageLost` reads
it off at the end of a run.

The one event that does not keep it is a handler that throws, since `Consume` rejects its
delivery.  `HandleRawArticles` throws on a page whose articles cannot be encoded; that takes
a base URL that is not UTF-8 and a page that needs it (`page_lost`).
-/

namespace HabrDigest
namespace Pipeline

open Messaging HabrDigest.Parser Storage Sqlite

/-- The queues on the way. -/
inductive Queue where
  /-- `kRawArticlesQueue` -/
  | rawArticles
  /-- `kParsedArticlesQueue` -/
  | parsedArticles
  deriving DecidableEq, Repr

/-- What the services are set up with, the same for every parser. -/
structure Setting where
  nlohmann : Nlohmann
  htmlParser : HtmlParser
  policy : ReconnectPolicy
  digestIntervalSeconds : UInt32

/-- The parser, as the skeleton sees it. -/
def Setting.parserService (S : Setting) : Service := ⟨S.policy, none⟩

/-- The storage service, as the skeleton sees it.  What its ticks publish goes to an exchange that
feeds none of the queues here. -/
def Setting.storageService (S : Setting) : Service :=
  ⟨S.policy, some ⟨S.digestIntervalSeconds, false⟩⟩

/-! ## One process -/

/-- A process: its skeleton, and the link that its connection is. -/
structure Instance where
  state : State := State.constructed
  link : Option ℕ := none

namespace Instance

/-- A callback calls `Connect`. -/
def connects (s : State) : Event → Bool
  | .run _ => true
  | .reconnectFires _ => !s.shuttingDown
  | _ => false

/-- The connection opens, if the callback calls `Connect`. -/
def opens : Event → Bool
  | .run opens => opens
  | .reconnectFires opens => opens
  | _ => false

/-- A callback of a process that consumes a queue.  `Connect` gives up the old connection and
opens a new one. -/
def callback (service : Service) (source : Queue) (e : Event) (inst : Instance)
    (b : Broker Queue Bytes) : Instance × Broker Queue Bytes :=
  let state := inst.state.after service e
  if connects inst.state e then
    if opens e then (⟨state, some b.links.length⟩, b.connect source) else (⟨state, none⟩, b)
  else (⟨state, inst.link⟩, b)

theorem count_connect_handleConnectionFailure (policy : ReconnectPolicy) (s : State) :
    (s.handleConnectionFailure policy).calls.count .connect = s.calls.count .connect := by
  unfold State.handleConnectionFailure State.scheduleReconnect State.loseChannel State.giveUp
    State.loopExit State.stopTimer State.note
  split
  · rfl
  · dsimp only
    split_ifs <;> simp [List.count_append]

theorem count_connect_connect (policy : ReconnectPolicy) (opens : Bool) (s : State) :
    (s.connect policy opens).calls.count .connect = s.calls.count .connect + 1 := by
  unfold State.connect
  dsimp only
  cases opens with
  | true => simp [State.note]
  | false =>
    rw [if_neg (by simp), count_connect_handleConnectionFailure]
    simp [State.note]

theorem calls_stop (exitCode : ℤ) (s : State) : (s.stop exitCode).calls = s.calls := by
  unfold State.stop State.stopTimer State.loopExit
  dsimp only
  split_ifs <;> (try split) <;> rfl

theorem calls_handleDetached (s : State) : s.handleDetached.calls = s.calls := by
  unfold State.handleDetached State.loopExit
  split_ifs <;> rfl

/-- **A callback calls `Connect` exactly when `connects` says so**, and then once: the links
follow the skeleton. -/
theorem count_connect_after (service : Service) (s : State) (e : Event) :
    (s.after service e).calls.count .connect =
      s.calls.count .connect + if connects s e then 1 else 0 := by
  cases e with
  | run opens => exact count_connect_connect _ _ _
  | channelReady =>
    cases htimer : service.timer <;>
      simp [State.after, State.handleConnectionReady, State.onChannelReady, htimer, State.note,
        State.startTimer, State.markChannelReady, connects]
  | connectionError | connectionLost | channelError =>
    exact count_connect_handleConnectionFailure _ _
  | closed | detached => exact congrArg (List.count .connect) (calls_handleDetached s)
  | reconnectFires opens =>
    show (s.popReconnect.doReconnect service.policy opens).calls.count .connect =
      s.calls.count .connect + if !s.shuttingDown then 1 else 0
    unfold State.doReconnect
    dsimp only
    cases hs : s.shuttingDown with
    | true =>
      have hpopped : s.popReconnect.shuttingDown = true := hs
      rw [if_pos hpopped]
      rfl
    | false =>
      have hpopped : ¬ s.popReconnect.shuttingDown = true := by simp [State.popReconnect, hs]
      rw [if_neg hpopped, count_connect_connect]
      rfl
  | timerFires | immediateTickFires =>
    simp [State.after, State.onTimerTrampoline, State.note, connects, State.popImmediateTick]
  | signal | stop exitCode => exact congrArg (List.count .connect) (calls_stop _ s)
  | forcedExitFires => rfl

/-- The next delivery of the process: its link, the tag, the payload, and the broker without
it. -/
def receive (inst : Instance) (b : Broker Queue Bytes) :
    Option (ℕ × ℕ × Bytes × Broker Queue Bytes) :=
  inst.link.bind fun l => (b.receive l).map fun delivery => (l, delivery)

end Instance

/-- How `Consume` settles a delivery. -/
def settlement : Ack → Settlement
  | .kAck => .ack
  | .kReject => .reject
  | .kRequeue => .requeue

/-! ## The pipeline -/

/-- The whole of it.  `batches` is what the database has committed so far, which the database
does not keep. -/
structure World (ι : Type) where
  broker : Broker Queue Bytes := {}
  parsers : ι → Instance := fun _ => {}
  storage : Instance := {}
  database : Connection Table := ⟨.empty, none⟩
  batches : List Batch := []

/-- What can happen. -/
inductive WorldEvent (ι : Type) where
  /-- Somebody publishes a message. -/
  | arrives (queue : Queue) (payload : Bytes)
  /-- The broker delivers the message of a queue at a position. -/
  | delivers (link position : ℕ)
  /-- The broker processes the next frame of a link. -/
  | processes (link : ℕ)
  /-- The broker drops a link. -/
  | drops (link : ℕ)
  /-- A link takes no more frames of its client. -/
  | severs (link : ℕ)
  /-- A callback of the skeleton of a parser. -/
  | parserCallback (i : ι) (e : Event)
  /-- A parser handles its next delivery, at a second.  `publishes` is what
  `channel_->publish` would return, and so many frames of the answer get through. -/
  | parserReceives (i : ι) (now : ℤ) (publishes : Bool) (through : ℕ)
  /-- A callback of the skeleton of the storage service. -/
  | storageCallback (e : Event)
  /-- The storage service handles its next delivery. -/
  | storageReceives (calls : Calls) (counts : Bool) (clock : Clock) (through : ℕ)

namespace World

variable {ι : Type} [DecidableEq ι]

/-- The pipeline after an event. -/
def after (S : Setting) (s : World ι) : WorldEvent ι → World ι
  | .arrives queue payload => { s with broker := s.broker.arrive queue payload }
  | .delivers link position => { s with broker := s.broker.deliver link position }
  | .processes link => { s with broker := s.broker.process link }
  | .drops link => { s with broker := s.broker.drop link }
  | .severs link => { s with broker := s.broker.sever link }
  | .parserCallback i e =>
    let (inst, broker) := (s.parsers i).callback S.parserService .rawArticles e s.broker
    { s with broker := broker, parsers := Function.update s.parsers i inst }
  | .parserReceives i now publishes through =>
    match (s.parsers i).receive s.broker with
    | none => s
    | some (link, tag, payload, broker) =>
      let handled := handleRawArticles S.nlohmann S.htmlParser now
        ((s.parsers i).state.publishTo publishes) payload
      let messages := handled.published.map fun out => (Queue.parsedArticles, out)
      { s with
        broker := broker.send link (Broker.answer messages tag (settlement handled.decision))
          through }
  | .storageCallback e =>
    let (inst, broker) := s.storage.callback S.storageService .parsedArticles e s.broker
    { s with broker := broker, storage := inst }
  | .storageReceives calls counts clock through =>
    match s.storage.receive s.broker with
    | none => s
    | some (link, tag, payload, broker) =>
      let (decision, database) :=
        handleParsedArticles S.nlohmann calls counts clock payload s.database
      { s with
        broker := broker.send link (Broker.answer [] tag (settlement decision)) through
        database := database
        batches := s.batches ++ committedBatch S.nlohmann calls clock payload s.database }

/-- When it can happen: a callback when the skeleton can get it, anything else at any time. -/
def Enabled (s : World ι) : WorldEvent ι → Prop
  | .parserCallback i e => (s.parsers i).state.Enabled e
  | .storageCallback e => s.storage.state.Enabled e
  | _ => True

end World

/-- The pipeline as a transition system. -/
def Setting.system (S : Setting) (ι : Type) [DecidableEq ι] :
    TransitionSystem (World ι) (WorldEvent ι) where
  init s := s = {}
  step s e t := s.Enabled e ∧ t = s.after S e

/-! ## What no lost page means -/

/-- What was published to the queue of parsed articles. -/
def parsedIn (log : List (Queue × Bytes)) : List Bytes :=
  log.filterMap fun m => if m.1 = .parsedArticles then some m.2 else none

/-- What has to be accepted or committed before a message may be gone for good. -/
def duty (S : Setting) (batches : List Batch) (log : List (Queue × Bytes)) : Queue → Bytes → Prop
  | .rawArticles, payload => PageDone S.nlohmann S.htmlParser (parsedIn log) payload
  | .parsedArticles, payload => MessageDone S.nlohmann batches payload

/-- **No page is lost**: a page that is gone for good is done, and so is a message of parsed
articles, every one of which has a row; and what the database has committed are the batches of
these messages. -/
structure NoPageLost {ι : Type} (S : Setting) (s : World ι) : Prop where
  pages : ∀ payload, (.rawArticles, payload) ∈ s.broker.removed →
    PageDone S.nlohmann S.htmlParser (parsedIn s.broker.accepted) payload
  messages : ∀ payload, (.parsedArticles, payload) ∈ s.broker.removed →
    MessageDone S.nlohmann s.batches payload ∧
    ∀ m, S.nlohmann.decode ParsedArticlesMessage.codec payload = some m →
      ∀ a ∈ m.articles, ∃ row ∈ s.database.committed.rows, row.articleId = a.articleId.cString
  committed : Replays S.nlohmann s.batches s.database.committed

/-- The articles of every page that is handled can be encoded: the base URL is UTF-8, or the page
does not use it. -/
def Encodes {ι : Type} (S : Setting) (m : Move (World ι) (WorldEvent ι)) : Prop :=
  match m.event with
  | .parserReceives i _ _ _ =>
    ∀ link tag payload broker,
      (m.pre.parsers i).receive m.pre.broker = some (link, tag, payload, broker) →
      ∀ raw, S.nlohmann.decode RawArticlesMessage.codec payload = some raw →
        S.htmlParser.UsesBaseUrl raw.rawHtml → Utf8.Valid S.htmlParser.baseUrl
  | _ => True

/-! ## The invariant -/

/-- What holds in every state: the broker is sound, every process has a link of its own queue,
and the batches are what the database has committed. -/
structure Inv {ι : Type} (S : Setting) (s : World ι) : Prop where
  sound : s.broker.Sound (duty S s.batches)
  parsers : ∀ i link, (s.parsers i).link = some link →
    s.broker.sources[link]? = some .rawArticles
  storage : ∀ link, s.storage.link = some link → s.broker.sources[link]? = some .parsedArticles
  committed : Replays S.nlohmann s.batches s.database.committed

theorem duty_monotone (S : Setting) (batches : List Batch) :
    Broker.Monotone (duty S batches) := by
  intro log log' queue payload hsub h
  cases queue with
  | rawArticles => exact h.mono (List.filterMap_subset _ hsub)
  | parsedArticles => exact h

theorem duty_append (S : Setting) (batches more : List Batch) :
    ∀ log queue payload, duty S batches log queue payload →
      duty S (batches ++ more) log queue payload := by
  intro log queue payload h
  cases queue with
  | rawArticles => exact h
  | parsedArticles =>
    refine Or.imp_right ?_ h
    rintro ⟨m, hm, b, hb, hbm⟩
    exact ⟨m, hm, b, List.mem_append_left _ hb, hbm⟩

theorem parsedIn_append (log : List (Queue × Bytes)) (outs : List Bytes) :
    parsedIn (log ++ outs.map fun out => (Queue.parsedArticles, out)) = parsedIn log ++ outs := by
  unfold parsedIn
  rw [List.filterMap_append, List.filterMap_map]
  congr 1
  induction outs with
  | nil => rfl
  | cons out outs ih => exact congrArg (out :: ·) ih

/-- A process receives from its link. -/
theorem receive_eq_some {inst : Instance} {b b' : Broker Queue Bytes} {link tag : ℕ}
    {payload : Bytes} (h : inst.receive b = some (link, tag, payload, b')) :
    inst.link = some link ∧ b.receive link = some (tag, payload, b') := by
  obtain ⟨l, hl, hmap⟩ := Option.bind_eq_some_iff.mp h
  obtain ⟨delivery, hdelivery, heq⟩ := Option.map_eq_some_iff.mp hmap
  obtain ⟨rfl, rfl⟩ := Prod.mk.inj heq
  exact ⟨hl, hdelivery⟩

/-- A callback leaves the links as they are, but for a new one at the end, and it keeps the
broker sound. -/
theorem callback_spec (service : Service) (source : Queue) (e : Event) (inst : Instance)
    {b : Broker Queue Bytes} (hlink : ∀ l, inst.link = some l → b.sources[l]? = some source) :
    let result := inst.callback service source e b
    (∀ l, result.1.link = some l → result.2.sources[l]? = some source) ∧
    (∀ (l : ℕ) (q : Queue), b.sources[l]? = some q → result.2.sources[l]? = some q) ∧
    ∀ {duty : List (Queue × Bytes) → Queue → Bytes → Prop}, b.Sound duty →
      result.2.Sound duty := by
  dsimp only [Instance.callback]
  by_cases hconnects : Instance.connects inst.state e = true
  · rw [if_pos hconnects]
    by_cases hopens : Instance.opens e = true
    · rw [if_pos hopens]
      refine ⟨?_, ?_, fun h => h.connect source⟩
      · rintro l ⟨⟩
        have hlength : b.sources.length = b.links.length := List.length_map _
        rw [Broker.sources_connect, ← hlength, List.getElem?_concat_length]
      · intro l q hq
        rw [Broker.sources_connect, List.getElem?_append_left (List.getElem?_eq_some_iff.mp hq).1,
          hq]
    · rw [if_neg hopens]
      exact ⟨fun l hl => absurd hl (by simp), fun _ _ h => h, fun h => h⟩
  · rw [if_neg hconnects]
    exact ⟨hlink, fun _ _ h => h, fun h => h⟩

variable {ι : Type} {S : Setting}

/-- Where the invariant holds, no page is lost. -/
theorem Inv.keeps_pages {s : World ι} (h : Inv S s) : NoPageLost S s where
  pages payload hremoved := h.sound.removed .rawArticles payload hremoved
  messages payload hremoved := by
    have hdone : MessageDone S.nlohmann s.batches payload :=
      h.sound.removed .parsedArticles payload hremoved
    refine ⟨hdone, fun m hm a ha => ?_⟩
    rcases hdone with hnone | ⟨m', hm', b, hb, -, harticles⟩
    · exact absurd (hm.symm.trans hnone) (by simp)
    · obtain rfl := Option.some.inj (hm.symm.trans hm')
      exact h.committed.exists_row hb (harticles ▸ ha)
  committed := h.committed

/-- What the broker does by itself keeps the invariant. -/
theorem Inv.of_broker {s : World ι} (h : Inv S s) {b : Broker Queue Bytes}
    (hsources : b.sources = s.broker.sources) (hsound : b.Sound (duty S s.batches)) :
    Inv S { s with broker := b } :=
  ⟨hsound, fun i l hl => hsources ▸ h.parsers i l hl, fun l hl => hsources ▸ h.storage l hl,
    h.committed⟩

/-- A base URL that is UTF-8 is good for every page. -/
theorem encodes_of_valid (hvalid : Utf8.Valid S.htmlParser.baseUrl)
    (m : Move (World ι) (WorldEvent ι)) : Encodes S m := by
  unfold Encodes
  split
  · exact fun _ _ _ _ _ _ _ _ => hvalid
  · exact True.intro

theorem settlement_ne_requeue {decision : Ack} (h : settlement decision ≠ .requeue) :
    decision ≠ .kRequeue := by
  rintro rfl
  exact h rfl

variable [DecidableEq ι]

/-- **What a parser answers keeps the invariant**: a page is settled for good only behind its
articles. -/
theorem Inv.parserReceives {s : World ι} (h : Inv S s) (i : ι) (now : ℤ) (publishes : Bool)
    (through : ℕ) {post : World ι}
    (hG : Encodes S ⟨s, .parserReceives i now publishes through, post⟩) :
    Inv S (s.after S (.parserReceives i now publishes through)) := by
  unfold World.after
  dsimp only
  split
  · exact h
  rename_i link tag payload broker hreceive
  obtain ⟨hlink, hdelivery⟩ := receive_eq_some hreceive
  refine h.of_broker ?_ (h.sound.answer (duty_monotone S _) hdelivery ?_ through)
  · rw [Broker.sources_send, Broker.sources_receive hdelivery]
  · intro source hsource hfinal
    obtain rfl := Option.some.inj (hsource.symm.trans (h.parsers i link hlink))
    show PageDone _ _ (parsedIn _) _
    rw [parsedIn_append]
    refine (pageDone_of_handleRawArticles S.nlohmann S.htmlParser now _
      (hG link tag payload broker hreceive) (settlement_ne_requeue hfinal)).mono ?_
    exact List.subset_append_right _ _

/-- **What the storage service answers keeps the invariant**: a message is settled for good only
when its batch is committed. -/
theorem Inv.storageReceives {s : World ι} (h : Inv S s) (calls : Calls) (counts : Bool)
    (clock : Clock) (through : ℕ) :
    Inv S (s.after S (.storageReceives calls counts clock through)) := by
  unfold World.after
  dsimp only
  split
  · exact h
  rename_i link tag payload broker hreceive
  obtain ⟨hlink, hdelivery⟩ := receive_eq_some hreceive
  have hsources : ∀ frames, (broker.send link frames through).sources = s.broker.sources := by
    intro frames
    rw [Broker.sources_send, Broker.sources_receive hdelivery]
  have hsound : s.broker.Sound (duty S (s.batches ++
      committedBatch S.nlohmann calls clock payload s.database)) :=
    h.sound.imp (duty_append S _ _)
  refine ⟨hsound.answer (duty_monotone S _) hdelivery ?_ through, ?_, ?_, ?_⟩
  · intro source hsource hfinal
    obtain rfl := Option.some.inj (hsource.symm.trans (h.storage link hlink))
    have hdone := messageDone_of_handleParsedArticles S.nlohmann calls counts clock payload
      s.database (settlement_ne_requeue hfinal)
    refine Or.imp_right ?_ hdone
    rintro ⟨m, hm, b, hb, hbm⟩
    exact ⟨m, hm, b, List.mem_append_right _ hb, hbm⟩
  · intro i l hl
    rw [hsources]
    exact h.parsers i l hl
  · intro l hl
    rw [hsources]
    exact h.storage l hl
  · exact h.committed.handleParsedArticles calls counts clock payload

/-- **Every event keeps the invariant**, if the articles of the page it handles can be
encoded. -/
theorem Inv.after {s : World ι} (h : Inv S s) (e : WorldEvent ι) {post : World ι}
    (hG : Encodes S ⟨s, e, post⟩) : Inv S (s.after S e) := by
  cases e with
  | arrives queue payload =>
    exact h.of_broker rfl (h.sound.arrive (duty_monotone S _) queue payload)
  | delivers link position =>
    exact h.of_broker (Broker.sources_deliver link position _) (h.sound.deliver link position)
  | processes link =>
    exact h.of_broker (Broker.sources_process link _) (h.sound.process (duty_monotone S _) link)
  | drops link => exact h.of_broker (Broker.sources_drop link _) (h.sound.drop link)
  | severs link => exact h.of_broker (Broker.sources_sever link _) (h.sound.sever link)
  | parserCallback i e =>
    obtain ⟨hown, hothers, hsound⟩ :=
      callback_spec S.parserService .rawArticles e (s.parsers i) (h.parsers i)
    refine ⟨hsound h.sound, fun j l hl => ?_, fun l hl => hothers l _ (h.storage l hl),
      h.committed⟩
    by_cases hij : j = i
    · subst hij
      exact hown l (by simpa [World.after] using hl)
    · exact hothers l _ (h.parsers j l (by simpa [World.after, hij] using hl))
  | parserReceives i now publishes through => exact h.parserReceives i now publishes through hG
  | storageCallback e =>
    obtain ⟨hown, hothers, hsound⟩ :=
      callback_spec S.storageService .parsedArticles e s.storage h.storage
    exact ⟨hsound h.sound, fun j l hl => hothers l _ (h.parsers j l hl), hown, h.committed⟩
  | storageReceives calls counts clock through => exact h.storageReceives calls counts clock through

/-- **No page is lost** in any run in which the articles of every page that is handled can be
encoded, whatever the connections, the queues and the database do. -/
theorem noPageLost {tr : List (Move (World ι) (WorldEvent ι))} {s : World ι}
    (hrun : (S.system ι).Run tr s) (hG : ∀ m ∈ tr, Encodes S m) : NoPageLost S s := by
  refine Inv.keeps_pages (hrun.invariant_of_moves (P := Inv S) (G := Encodes S) ?_ ?_ hG)
  · rintro s rfl
    exact ⟨.empty, fun i l hl => absurd hl (by simp), fun l hl => absurd hl (by simp), .nil⟩
  · rintro s e t h ⟨-, rfl⟩ hguard
    exact h.after e hguard

/-! ## A page that is lost -/

/-- A document with one article, whose link is relative. -/
def oneArticle : List Node :=
  [.element (utf8 "article")
    [(utf8 "class", utf8 "tm-articles-list__item"), (utf8 "id", utf8 "1")]
    [.element (utf8 "a") [(utf8 "class", utf8 "tm-title__link"), (utf8 "href", utf8 "/1/")]
      [.text (utf8 "t")]]]

/-- A reader that finds it in every page. -/
def oneArticleReader : Libxml2 where
  htmlReadMemory _ _ := some oneArticle
  texts := by
    rintro _ _ _ ⟨⟩
    simp only [oneArticle, Node.AllTextsOf, Node.AllTexts, List.forall_mem_cons]
    decide

/-- A base URL that is not UTF-8. -/
def badBaseUrl : Setting where
  nlohmann := .reference
  htmlParser := { libxml2 := oneArticleReader, rounding := .exact, baseUrl := [0xFF] }
  policy := {}
  digestIntervalSeconds := 120

/-- A page as the fetcher publishes it. -/
def page : Bytes :=
  (Nlohmann.reference.encode RawArticlesMessage.codec { rawHtml := utf8 "<html>" }).getD []

/-- A parser connects, receives the page, and rejects it. -/
def pageRejected : List (WorldEvent Unit) :=
  [.arrives .rawArticles page, .parserCallback () (.run true), .parserCallback () .channelReady,
    .delivers 0 0, .parserReceives () 0 true 1, .processes 0]

/-- The world after events. -/
def World.afterAll {ι : Type} [DecidableEq ι] (S : Setting) (s : World ι)
    (es : List (WorldEvent ι)) : World ι :=
  es.foldl (World.after S) s

/-- Every one of the events can happen when it comes. -/
def World.EnabledAll {ι : Type} [DecidableEq ι] (S : Setting) :
    World ι → List (WorldEvent ι) → Prop
  | _, [] => True
  | s, e :: es => s.Enabled e ∧ EnabledAll S (s.after S e) es

/-- Events that can happen make a run. -/
theorem exists_run_afterAll {ι : Type} [DecidableEq ι] (S : Setting) (es : List (WorldEvent ι))
    {tr : List (Move (World ι) (WorldEvent ι))} {s : World ι} (hrun : (S.system ι).Run tr s)
    (henabled : s.EnabledAll S es) : ∃ tr', (S.system ι).Run tr' (s.afterAll S es) := by
  induction es generalizing tr s with
  | nil => exact ⟨tr, hrun⟩
  | cons e es ih => exact ih (hrun.snoc ⟨henabled.1, rfl⟩) henabled.2

/-- The parser's run is one, and at its end the page is all that was ever published, and it is
gone for good. -/
theorem exists_run_pageRejected : ∃ tr s, (badBaseUrl.system Unit).Run tr s ∧
    s.broker.accepted = [(.rawArticles, page)] ∧ (.rawArticles, page) ∈ s.broker.removed := by
  obtain ⟨tr, hrun⟩ := exists_run_afterAll badBaseUrl pageRejected
    (.start (T := badBaseUrl.system Unit) rfl)
    ⟨trivial, rfl, ⟨⟨_, rfl, rfl⟩, _, rfl, rfl, rfl⟩, trivial, trivial, trivial, trivial⟩
  exact ⟨tr, _, hrun, by decide +kernel, by decide +kernel⟩

/-- The page is not done while nothing but the page was published. -/
theorem not_pageDone : ¬ PageDone .reference badBaseUrl.htmlParser [] page := by
  have hdecode : Nlohmann.reference.decode RawArticlesMessage.codec page =
      some { rawHtml := utf8 "<html>" } := by decide +kernel
  have harticles : (badBaseUrl.htmlParser.parse (utf8 "<html>")).articles ≠ [] := by
    decide +kernel
  rintro (hnone | ⟨raw, hraw, hempty | ⟨out, hout, -⟩⟩)
  · exact absurd (hdecode.symm.trans hnone) (by simp)
  · obtain rfl := Option.some.inj (hdecode.symm.trans hraw)
    exact harticles hempty
  · exact absurd hout (by simp)

/-- A page is lost where the base URL is not UTF-8 and the page needs it. -/
theorem page_lost : ¬ ∀ (S : Setting) (tr : List (Move (World Unit) (WorldEvent Unit)))
    (s : World Unit), (S.system Unit).Run tr s → NoPageLost S s := by
  intro h
  obtain ⟨tr, s, hrun, haccepted, hremoved⟩ := exists_run_pageRejected
  have hdone := (h badBaseUrl tr s hrun).pages page hremoved
  rw [haccepted] at hdone
  exact not_pageDone hdone

/-- The same with the base URL of the site. -/
def goodBaseUrl : Setting :=
  { badBaseUrl with
    htmlParser := { badBaseUrl.htmlParser with baseUrl := utf8 "https://habr.com" } }

/-- A parser publishes the article of the page and acknowledges it, and the storage service commits
the article. -/
def pageStored : List (WorldEvent Unit) :=
  [.arrives .rawArticles page, .parserCallback () (.run true), .parserCallback () .channelReady,
    .storageCallback (.run true), .storageCallback .channelReady, .delivers 0 0,
    .parserReceives () 0 true 2, .processes 0, .processes 0, .delivers 1 0,
    .storageReceives .succeed true ⟨0, 0⟩ 1, .processes 1]

/-- A page whose article is stored. -/
theorem noPageLost_pageStored : ∃ tr s, (goodBaseUrl.system Unit).Run tr s ∧
    (∀ m ∈ tr, Encodes goodBaseUrl m) ∧
    s.broker.removed.map Prod.fst = [.rawArticles, .parsedArticles] ∧
    s.database.committed.rows.map Row.articleId = [utf8 "1"] ∧ NoPageLost goodBaseUrl s := by
  obtain ⟨tr, hrun⟩ := exists_run_afterAll goodBaseUrl pageStored
    (.start (T := goodBaseUrl.system Unit) rfl)
    ⟨trivial, rfl, ⟨⟨_, rfl, rfl⟩, _, rfl, rfl, rfl⟩, rfl, ⟨⟨_, rfl, rfl⟩, _, rfl, rfl, rfl⟩,
      trivial, trivial, trivial, trivial, trivial, trivial, trivial, trivial⟩
  have hencodes : ∀ m ∈ tr, Encodes goodBaseUrl m :=
    fun m _ => encodes_of_valid (by decide +kernel) m
  exact ⟨tr, _, hrun, hencodes, by decide +kernel, by decide +kernel, noPageLost hrun hencodes⟩

end Pipeline
end HabrDigest
