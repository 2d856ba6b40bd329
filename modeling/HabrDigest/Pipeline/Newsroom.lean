import HabrDigest.Lib.Fanout
import HabrDigest.Lib.JsonPretty
import HabrDigest.Pipeline.DigestScores
import HabrDigest.Pipeline.Outages
import HabrDigest.Pipeline.Snapshots

/-!
# From a page to its readers

All five services.  The way of a page to the database is that of `Outages`, with its processes that
die.  A tick of the storage service hands a digest to the fanout exchange, over a connection that
may die with it; whatever the exchange has processed goes to the queues of the notifier and of the
web service, as far as they are bound by then.  The two consume their queues from a broker like
the one of the pages, may open connections and die at any time, and the notifier keeps its files.

`printed_of_reachable` is about the whole way.  Nothing that a reader sees is made up: every article
of a digest that the web service shows is, field by field, an article that the parser finds in a
page that was fetched, and it carries the trace id of that fetch; and so is every article of a
digest that is still on its way.  `gotSince_of_mem` is what the results about the subscribers use
of the exchange: a queue gets what is processed from the moment on at which it is bound.
-/

namespace HabrDigest
namespace Pipeline

open Messaging HabrDigest.Parser Storage Sqlite

/-- The queues that are bound to `kDigestReadyExchange`. -/
inductive Subscriber where
  /-- `kDigestNotifierQueue` -/
  | digestNotifier
  /-- `kDigestWebQueue` -/
  | digestWeb
  deriving DecidableEq, Repr

/-- What the five services are set up with. -/
structure Press where
  setting : Setting
  rounding : Rounding
  storage : Storage.Config
  notifier : Notifier.Config
  web : Web.Config

/-- All of it. -/
structure Newsroom (ι : Type) where
  world : World ι := {}
  /-- The digests on the connection of the storage service that the broker has not processed. -/
  outbox : List Bytes := []
  /-- The digests that the exchange has processed. -/
  exchanged : List Bytes := []
  bound : List Subscriber := []
  broker : Broker Subscriber Bytes := {}
  /-- The link of the notifier. -/
  notifier : Option ℕ := none
  /-- The link of the web service. -/
  web : Option ℕ := none
  files : Notifier.Files := fun _ => none
  /-- `digests_` of the web service. -/
  digests : List DigestReadyMessage := []

/-- What can happen. -/
inductive NewsEvent (ι : Type) where
  /-- Something on the way of the pages. -/
  | pipeline (e : Incident ι)
  /-- The timer of the storage service fires.  `publishes` is what `channel_->publish` would
  return. -/
  | ticks (c : Circumstances) (publishes : Bool)
  /-- The exchange processes the next digest. -/
  | exchanges
  /-- The connection of the storage service is lost with the digests on it. -/
  | loses
  /-- The broker binds a queue to the exchange. -/
  | binds (queue : Subscriber)
  /-- A subscriber opens a connection. -/
  | connects (queue : Subscriber)
  /-- The broker delivers the message of a queue at a position. -/
  | delivers (link position : ℕ)
  /-- The broker processes the next frame of a link. -/
  | processes (link : ℕ)
  /-- The broker drops a link. -/
  | drops (link : ℕ)
  /-- A link takes no more frames of its client. -/
  | severs (link : ℕ)
  /-- The notifier handles its next delivery. -/
  | notifierReceives (first second : Notifier.WriteCalls) (through : ℕ)
  /-- The web service handles its next delivery. -/
  | webReceives (through : ℕ)
  /-- The notifier dies and is started again. -/
  | notifierDies
  /-- The web service dies and is started again. -/
  | webDies

/-- The next delivery of a subscriber: its link, the tag, the payload, and the broker without
it. -/
def receiveFrom (link : Option ℕ) (b : Broker Subscriber Bytes) :
    Option (ℕ × ℕ × Bytes × Broker Subscriber Bytes) :=
  link.bind fun l => (b.receive l).map fun delivery => (l, delivery)

theorem receiveFrom_eq_some {link : Option ℕ} {b b' : Broker Subscriber Bytes} {l tag : ℕ}
    {payload : Bytes} (h : receiveFrom link b = some (l, tag, payload, b')) :
    link = some l ∧ b.receive l = some (tag, payload, b') := by
  obtain ⟨l', hl', hmap⟩ := Option.bind_eq_some_iff.mp h
  obtain ⟨delivery, hdelivery, heq⟩ := Option.map_eq_some_iff.mp hmap
  obtain ⟨rfl, rfl⟩ := Prod.mk.inj heq
  exact ⟨hl', hdelivery⟩

namespace Newsroom

variable {ι : Type} [DecidableEq ι]

/-- What a tick puts on the connection of the storage service. -/
def ticked (P : Press) (s : Newsroom ι) (c : Circumstances) (publishes : Bool) : List Bytes :=
  match publishDigest P.setting.nlohmann P.rounding P.storage c s.world.database.visible with
  | .handed _ payload => if s.world.storage.state.publishTo publishes then [payload] else []
  | .failed | .skipped | .threw => []

/-- Everything after an event. -/
def after (P : Press) (s : Newsroom ι) : NewsEvent ι → Newsroom ι
  | .pipeline e => { s with world := s.world.afterIncident P.setting e }
  | .ticks c publishes => { s with outbox := s.outbox ++ s.ticked P c publishes }
  | .exchanges =>
    match s.outbox with
    | [] => s
    | payload :: rest =>
      { s with
        outbox := rest
        exchanged := s.exchanged ++ [payload]
        broker := s.broker.fanOut s.bound payload }
  | .loses => { s with outbox := [] }
  | .binds queue =>
    { s with bound := if queue ∈ s.bound then s.bound else s.bound ++ [queue] }
  | .connects .digestNotifier =>
    { s with
      broker := s.broker.connect .digestNotifier
      notifier := some s.broker.links.length }
  | .connects .digestWeb =>
    { s with broker := s.broker.connect .digestWeb, web := some s.broker.links.length }
  | .delivers link position => { s with broker := s.broker.deliver link position }
  | .processes link => { s with broker := s.broker.process link }
  | .drops link => { s with broker := s.broker.drop link }
  | .severs link => { s with broker := s.broker.sever link }
  | .notifierReceives first second through =>
    match receiveFrom s.notifier s.broker with
    | none => s
    | some (link, tag, payload, broker) =>
      let (decision, files) := Notifier.handleDigestReady P.setting.nlohmann P.notifier first second
        payload s.files
      { s with
        broker := broker.send link (Broker.answer [] tag (settlement decision)) through
        files := files }
  | .webReceives through =>
    match receiveFrom s.web s.broker with
    | none => s
    | some (link, tag, payload, broker) =>
      let (decision, digests) :=
        Web.handleDigestReady P.setting.nlohmann P.web payload s.digests
      { s with
        broker := broker.send link (Broker.answer [] tag (settlement decision)) through
        digests := digests }
  | .notifierDies => { s with notifier := none }
  | .webDies => { s with web := none, digests := [] }

/-- When it can happen: what happens to a process when its skeleton can get it, a tick when the
timer runs, and anything else at any time. -/
def Enabled (s : Newsroom ι) : NewsEvent ι → Prop
  | .pipeline e => s.world.Possible e
  | .ticks _ _ => s.world.storage.state.Enabled .timerFires
  | _ => True

end Newsroom

/-- Pages come from the fetches. -/
def FedFrom {ι : Type} (S : Setting) (F : Set RawArticlesMessage) : NewsEvent ι → Prop
  | .pipeline (.event e) => ComesFrom S F e
  | _ => True

/-- The five services as a transition system. -/
def Press.system (P : Press) (F : Set RawArticlesMessage) (ι : Type) [DecidableEq ι] :
    TransitionSystem (Newsroom ι) (NewsEvent ι) where
  init s := s = {}
  step s e t := (s.Enabled e ∧ FedFrom P.setting F e) ∧ t = s.after P e

/-! ## Where the rows come from -/

/-- A row is that of an article of a page, but for its times. -/
def RowFrom (S : Setting) (F : Set RawArticlesMessage) (row : Row) : Prop :=
  ∃ raw ∈ F, ∃ a ∈ (S.htmlParser.parse raw.rawHtml).articles, ∃ clock fresh,
    articleRow S.nlohmann clock raw.traceId a = some fresh ∧ columns row = columns fresh

/-- Every row of a table is. -/
def RowsFrom (S : Setting) (F : Set RawArticlesMessage) (t : Table) : Prop :=
  ∀ row ∈ t.rows, RowFrom S F row

/-- Every row is, committed or not. -/
structure HoldsPages (S : Setting) (F : Set RawArticlesMessage) (c : Connection Table) : Prop where
  committed : RowsFrom S F c.committed
  pending : ∀ t ∈ c.pending, RowsFrom S F t

variable {S : Setting} {F : Set RawArticlesMessage}

theorem HoldsPages.visible {c : Connection Table} (h : HoldsPages S F c) :
    RowsFrom S F c.visible := by
  unfold Connection.visible
  cases hpending : c.pending with
  | none => exact h.committed
  | some t => exact h.pending t (Option.mem_def.mpr hpending)

/-- **A batch of a page** leaves the rows of other articles, and writes rows of that page. -/
theorem RowsFrom.upsertAll {t : Table} (ht : RowsFrom S F t) {m : ParsedArticlesMessage}
    (hm : ∃ raw ∈ F, ∃ now,
      m = parsedMessage raw (S.htmlParser.parse raw.rawHtml).articles now)
    {clock : Clock} {rows : List Row}
    (hrows : batchRows S.nlohmann clock m.traceId m.articles = some rows) :
    RowsFrom S F (t.upsertAll onConflict rows) := by
  obtain ⟨raw, hraw, now, rfl⟩ := hm
  intro row hrow
  have hlookup := KeyedTable.mem_rows_iff.mp hrow
  obtain ⟨hsome, hnone⟩ := lookup_batch S.nlohmann clock _ t hrows row.articleId
  cases hlast : lastWith row.articleId
      (parsedMessage raw (S.htmlParser.parse raw.rawHtml).articles now).articles with
  | none =>
    rw [hnone hlast] at hlookup
    exact ht row (KeyedTable.mem_of_lookup hlookup)
  | some a =>
    obtain ⟨fresh, hfresh, habsorb⟩ := hsome a hlast
    have ha : a ∈ (S.htmlParser.parse raw.rawHtml).articles :=
      List.mem_reverse.mp (List.mem_of_find?_eq_some hlast)
    have hid : a.articleId.cString = row.articleId := by
      have hfound := List.find?_some hlast
      exact of_decide_eq_true hfound
    refine ⟨raw, hraw, a, ha, clock, fresh, hfresh, ?_⟩
    have hcolumns := columns_absorb t ((articleId_of_articleRow hfresh).trans hid)
    rw [← habsorb, hlookup, Option.map_some, Option.some.injEq] at hcolumns
    exact hcolumns

/-- **A delivery keeps it**, whatever becomes of its batch. -/
theorem HoldsPages.handleParsedArticles {c : Connection Table} (h : HoldsPages S F c)
    (calls : Calls) (counts : Bool) (clock : Clock) {payload : Bytes}
    (horigin : origin S F .parsedArticles payload) :
    HoldsPages S F (Storage.handleParsedArticles S.nlohmann calls counts clock payload c).2 := by
  have hdelivered := delivered_handleParsedArticles S.nlohmann calls counts clock payload c
  generalize (Storage.handleParsedArticles S.nlohmann calls counts clock payload c).2 = c'
    at hdelivered
  have hwritten : ∀ {parsed : ParsedArticlesMessage} {rows : List Row},
      S.nlohmann.decode ParsedArticlesMessage.codec payload = some parsed →
      batchRows S.nlohmann clock parsed.traceId parsed.articles = some rows →
        RowsFrom S F (c.committed.upsertAll onConflict rows) := fun hparsed hrows =>
    h.committed.upsertAll (horigin _ (Option.mem_def.mpr hparsed)) hrows
  cases hdelivered with
  | same => exact h
  | committed hparsed hrows => exact ⟨hwritten hparsed hrows, by simp⟩
  | leftOpen hparsed hrows =>
    refine ⟨h.committed, fun t ht => ?_⟩
    obtain rfl := Option.some.inj ht
    exact hwritten hparsed hrows

/-! ## What a digest says -/

/-- An article of a digest says what an article of a page says, and carries the trace id of the
fetch. -/
structure FromPage (S : Setting) (raw : RawArticlesMessage) (a : ParsedArticle)
    (e : DigestArticle) : Prop where
  articleId : e.articleId = a.articleId.cString
  url : e.url = a.url.cString
  title : e.title = a.title.cString
  author : e.author = a.author.cString
  publishedAt : e.publishedAt = a.publishedAt.cString
  hubs : e.hubs = a.hubs
  votes : e.votes = a.votes
  views : e.views = a.views
  bookmarks : e.bookmarks = a.bookmarks
  comments : e.comments = a.comments
  sourceTraceId : e.sourceTraceId = raw.traceId.cString

/-- A digest is one that `PublishDigest` builds with these settings, each of its articles is of a
page, and it can be written again: its scores are finite and its strings are text. -/
structure Printed (P : Press) (F : Set RawArticlesMessage) (digest : DigestReadyMessage) :
    Prop where
  built : ∃ c t, digest = digestMessage P.storage c (topArticles P.setting.nlohmann P.rounding c.now
    P.storage.digestPeriodHours P.storage.digestTopN P.storage.weights t)
  pages : ∀ e ∈ digest.articles, ∃ raw ∈ F,
    ∃ a ∈ (P.setting.htmlParser.parse raw.rawHtml).articles, FromPage P.setting raw a e
  finite : ∀ e ∈ digest.articles, e.score.isFinite = true
  text : ∀ s ∈ digest.strings, Utf8.Valid s

/-- What a message decodes to is printed. -/
def Prints (P : Press) (F : Set RawArticlesMessage) (payload : Bytes) : Prop :=
  ∀ d, P.setting.nlohmann.decode DigestReadyMessage.codec payload = some d → Printed P F d

/-- An article is read from the columns of its row. -/
theorem fromPage_digestArticle {r : Rounding} {w : ScoreWeights} {clock : Clock}
    {raw : RawArticlesMessage} {a : ParsedArticle} {row fresh : Row}
    (hfresh : articleRow S.nlohmann clock raw.traceId a = some fresh)
    (hcolumns : columns row = columns fresh) :
    FromPage S raw a (digestArticle S.nlohmann r w row) := by
  have hread : digestArticle S.nlohmann r w row = digestArticle S.nlohmann r w fresh := by
    have hsame : ∀ row : Row, digestArticle S.nlohmann r w (columns row) =
        digestArticle S.nlohmann r w row := fun _ => rfl
    rw [← hsame row, hcolumns, hsame]
  rw [hread]
  obtain ⟨hubs, hhubs, rfl⟩ := Option.map_eq_some_iff.mp hfresh
  -- a column is cut on the way in, and once more on the way out
  have hcut : ∀ s : Bytes, s.cString.cString = s.cString := fun s =>
    Bytes.cString_eq_self (Bytes.zero_notMem_cString s)
  exact
    { articleId := hcut _
      url := hcut _
      title := hcut _
      author := hcut _
      publishedAt := hcut _
      hubs := decodeHubs_of_encode hhubs
      votes := rfl
      views := rfl
      bookmarks := rfl
      comments := rfl
      sourceTraceId := hcut _ }

/-- **What a tick hands over is printed from pages**, as whoever decodes it sees it. -/
theorem printed_of_publishDigest {P : Press} {c : Circumstances} {t : Table}
    (ht : RowsFrom P.setting F t) {digest digest' : DigestReadyMessage} {payload : Bytes}
    (h : publishDigest P.setting.nlohmann P.rounding P.storage c t = .handed digest payload)
    (hdecode : P.setting.nlohmann.decode DigestReadyMessage.codec payload = some digest') :
    Printed P F digest' := by
  obtain ⟨rfl, hencode⟩ := publishDigest_handed h
  -- a digest that decodes has finite scores, and is the one that was encoded
  have hfinite : ∀ e ∈ (digestMessage P.storage c (topArticles P.setting.nlohmann P.rounding c.now
      P.storage.digestPeriodHours P.storage.digestTopN P.storage.weights t)).articles,
      e.score.isFinite = true := by
    intro e he
    by_contra hscore
    have hnone := DigestReadyMessage.refuses he ((Bool.not_eq_true _).mp hscore)
    rw [Nlohmann.decode_encode hencode, hnone] at hdecode
    simp at hdecode
  have hsame := ((accepted_iff_isFinite hencode).mpr hfinite).decodes
  obtain rfl := Option.some.inj (hsame.symm.trans hdecode)
  have htext := (DigestReadyMessage.validUtf8_toJson _).mp
    (Nlohmann.encode_isSome_iff.mp (Option.isSome_iff_exists.mpr ⟨_, hencode⟩))
  refine ⟨⟨c, t, rfl⟩, fun e he => ?_, hfinite, htext⟩
  rw [digestMessage, topArticles_eq] at he
  obtain ⟨row, hrow, rfl⟩ := List.mem_map.mp he
  obtain ⟨hrow, -⟩ := List.mem_filter.mp ((Ranking.mem_rankBy _).mp (List.mem_of_mem_take hrow))
  obtain ⟨raw, hraw, a, ha, clock, fresh, hfresh, hcolumns⟩ := ht row hrow
  exact ⟨raw, hraw, a, ha, fromPage_digestArticle hfresh hcolumns⟩

/-! ## The whole way -/

/-- **Everything on the way comes from a page**: what the pipeline carries, the rows, the digests
under way and the digests that are shown. -/
structure Sourced {ι : Type} (P : Press) (F : Set RawArticlesMessage) (s : Newsroom ι) : Prop where
  pages : ∃ processed, Provenance P.setting F ⟨s.world, processed⟩
  rows : HoldsPages P.setting F s.world.database
  outbox : ∀ payload ∈ s.outbox, Prints P F payload
  carries : s.broker.Carries fun _ payload => Prints P F payload
  digests : ∀ d ∈ s.digests, Printed P F d

variable {ι : Type} {P : Press}

/-- What happens to the queues of the subscribers. -/
theorem Sourced.of_broker {s : Newsroom ι} (h : Sourced P F s) {b : Broker Subscriber Bytes}
    (hcarries : b.Carries fun _ payload => Prints P F payload) :
    Sourced P F { s with broker := b } :=
  ⟨h.pages, h.rows, h.outbox, hcarries, h.digests⟩

/-- What a client receives has the property that every message has. -/
theorem receive_carries {Q : Bytes → Prop} {b b' : Broker Subscriber Bytes} {link tag : ℕ}
    {payload : Bytes} (h : b.Carries fun _ payload => Q payload)
    (hreceive : b.receive link = some (tag, payload, b')) :
    (b'.Carries fun _ payload => Q payload) ∧ Q payload := by
  obtain ⟨hcarries, hpayload⟩ := h.receive hreceive
  obtain ⟨l, -, hl, -, -⟩ := Broker.receive_eq_some hreceive
  exact ⟨hcarries, hpayload l.source (by rw [Broker.sources, List.getElem?_map, hl, Option.map_some])⟩

/-- An answer of a subscriber publishes nothing. -/
theorem carries_settle {Q : Bytes → Prop} {b : Broker Subscriber Bytes}
    (h : b.Carries fun _ payload => Q payload) (link tag : ℕ) (how : Settlement) (through : ℕ) :
    (b.send link (Broker.answer [] tag how) through).Carries fun _ payload => Q payload :=
  h.send link (fun _ _ hp => absurd (Broker.publish_mem_answer hp) List.not_mem_nil) through

variable [DecidableEq ι]

/-- **Everything that happens to the pages keeps their provenance**, and the rows. -/
theorem Sourced.pipeline {s : Newsroom ι} (h : Sourced P F s) (e : Incident ι)
    (hfeeds : FedFrom P.setting F (.pipeline e)) : Sourced P F (s.after P (.pipeline e)) := by
  obtain ⟨processed, hpages⟩ := h.pages
  cases e with
  | parserDies i =>
    refine ⟨⟨processed, hpages.carries, fun j link hlink => ?_, hpages.storage, hpages.processed⟩,
      h.rows, h.outbox, h.carries, h.digests⟩
    by_cases hij : j = i
    · subst hij
      simp [Newsroom.after, World.afterIncident] at hlink
    · exact hpages.parsers j link (by simpa [Newsroom.after, World.afterIncident, hij] using hlink)
  | storageDies =>
    refine ⟨⟨processed, hpages.carries, hpages.parsers, fun link hlink => ?_, hpages.processed⟩,
      ⟨h.rows.committed, ?_⟩, h.outbox, h.carries, h.digests⟩
    · simp [Newsroom.after, World.afterIncident] at hlink
    · simp [Newsroom.after, World.afterIncident, Connection.rollback]
  | event e =>
    refine ⟨⟨_, hpages.after e hfeeds⟩, ?_, h.outbox, h.carries, h.digests⟩
    have hkept : (s.world.after P.setting e).database = s.world.database →
        HoldsPages P.setting F (s.world.after P.setting e).database := fun heq => heq ▸ h.rows
    cases e with
    | storageReceives calls counts clock through =>
      show HoldsPages P.setting F
        (s.world.after P.setting (.storageReceives calls counts clock through)).database
      unfold World.after
      dsimp only
      split
      · exact h.rows
      rename_i hreceive
      obtain ⟨hlink, hdelivery⟩ := receive_eq_some hreceive
      have horigin := (hpages.carries.receive hdelivery).2 _ (hpages.storage _ hlink)
      exact h.rows.handleParsedArticles calls counts clock horigin
    | parserReceives i now publishes through =>
      refine hkept ?_
      unfold World.after
      dsimp only
      split <;> rfl
    | _ => exact hkept rfl

/-- **Every event keeps it.** -/
theorem Sourced.after {s : Newsroom ι} (h : Sourced P F s) (e : NewsEvent ι)
    (hfeeds : FedFrom P.setting F e) : Sourced P F (s.after P e) := by
  cases e with
  | pipeline e => exact h.pipeline e hfeeds
  | ticks c publishes =>
    refine ⟨h.pages, h.rows, fun payload hpayload d hd => ?_, h.carries, h.digests⟩
    rcases List.mem_append.mp hpayload with hold | hnew
    · exact h.outbox payload hold d hd
    · unfold Newsroom.ticked at hnew
      split at hnew
      · rename_i digest out houtcome
        split at hnew
        · obtain rfl := List.mem_singleton.mp hnew
          exact printed_of_publishDigest h.rows.visible houtcome hd
        · exact absurd hnew List.not_mem_nil
      all_goals exact absurd hnew List.not_mem_nil
  | exchanges =>
    unfold Newsroom.after
    dsimp only
    split
    · exact h
    · rename_i payload rest houtbox
      obtain ⟨hpayload, hrest⟩ := List.forall_mem_cons.mp (houtbox ▸ h.outbox)
      exact ⟨h.pages, h.rows, hrest, h.carries.fanOut (fun _ => hpayload) _, h.digests⟩
  | loses => exact ⟨h.pages, h.rows, fun _ hp => absurd hp List.not_mem_nil, h.carries, h.digests⟩
  | binds queue => exact ⟨h.pages, h.rows, h.outbox, h.carries, h.digests⟩
  | connects queue =>
    cases queue with
    | digestNotifier => exact ⟨h.pages, h.rows, h.outbox, h.carries.connect _, h.digests⟩
    | digestWeb => exact ⟨h.pages, h.rows, h.outbox, h.carries.connect _, h.digests⟩
  | delivers link position => exact h.of_broker (h.carries.deliver link position)
  | processes link => exact h.of_broker (h.carries.process link)
  | drops link => exact h.of_broker (h.carries.drop link)
  | severs link => exact h.of_broker (h.carries.sever link)
  | notifierReceives first second through =>
    unfold Newsroom.after
    dsimp only
    split
    · exact h
    · rename_i hreceive
      obtain ⟨hcarries, -⟩ := receive_carries h.carries (receiveFrom_eq_some hreceive).2
      exact ⟨h.pages, h.rows, h.outbox, carries_settle hcarries _ _ _ through, h.digests⟩
  | webReceives through =>
    unfold Newsroom.after
    dsimp only
    split
    · exact h
    · rename_i hreceive
      obtain ⟨hcarries, hpayload⟩ := receive_carries h.carries (receiveFrom_eq_some hreceive).2
      refine ⟨h.pages, h.rows, h.outbox, carries_settle hcarries _ _ _ through, fun d hd => ?_⟩
      unfold Web.handleDigestReady at hd
      split at hd
      · exact h.digests d hd
      · rename_i digest hdecode
        rcases List.mem_cons.mp (List.mem_of_mem_take hd) with rfl | hold
        · exact hpayload _ hdecode
        · exact h.digests d hold
  | notifierDies => exact ⟨h.pages, h.rows, h.outbox, h.carries, h.digests⟩
  | webDies =>
    exact ⟨h.pages, h.rows, h.outbox, h.carries, fun _ hd => absurd hd List.not_mem_nil⟩

theorem sourced_of_reachable {s : Newsroom ι} (h : (P.system F ι).Reachable s) :
    Sourced P F s := by
  refine h.invariant (P := Sourced P F) ?_ ?_
  · rintro s rfl
    exact ⟨⟨[], .empty, fun i link hl => absurd hl (by simp), fun link hl => absurd hl (by simp),
      fun m hm => absurd hm (by simp)⟩, ⟨fun row hrow => absurd hrow List.not_mem_nil, by simp⟩,
      fun _ hp => absurd hp List.not_mem_nil, .empty, fun _ hd => absurd hd List.not_mem_nil⟩
  · rintro s e t hs ⟨⟨-, hfeeds⟩, rfl⟩
    exact hs.after e hfeeds

/-- **Readers see what was fetched.**  In every state of the five services, each digest that the web
service shows is one that `PublishDigest` builds, and each of its articles is, field by field, an
article that the parser finds in a page that was fetched, with the trace id of that fetch.  The same
holds of whatever is on the connection of the storage service, in a queue of a subscriber, or with
a subscriber that has not settled it. -/
theorem printed_of_reachable (P : Press) (F : Set RawArticlesMessage) {s : Newsroom ι}
    (h : (P.system F ι).Reachable s) :
    (∀ d ∈ s.digests, Printed P F d) ∧ (∀ payload ∈ s.outbox, Prints P F payload) ∧
    ∀ queue, (∀ payload ∈ s.broker.queues queue, Prints P F payload) ∧
      ∀ payload ∈ s.broker.outstanding queue, Prints P F payload := by
  have hsourced := sourced_of_reachable h
  exact ⟨hsourced.digests, hsourced.outbox, fun queue => ⟨hsourced.carries.queues queue,
    fun _ hpayload => hsourced.carries.outstanding hpayload⟩⟩

/-! ## The exchange -/

/-- What the exchange relies on: no queue is bound twice, and nobody else publishes to the queues of
the subscribers. -/
structure Wired {ι : Type} (s : Newsroom ι) : Prop where
  bound : s.bound.Nodup
  quiet : s.broker.Quiet

/-- A queue got what the exchange has processed between two states. -/
def GotSince {ι : Type} (queue : Subscriber) (s t : Newsroom ι) : Prop :=
  queue ∈ s.bound → queue ∈ t.bound ∧ ∃ more, t.exchanged = s.exchanged ++ more ∧
    t.broker.acceptedIn queue = s.broker.acceptedIn queue ++ more

/-- Where nothing is published and nothing is processed, there is nothing to get. -/
theorem GotSince.of_eq {ι : Type} {queue : Subscriber} {a s t : Newsroom ι}
    (h : GotSince queue a s) (hbound : queue ∈ s.bound → queue ∈ t.bound)
    (hexchanged : t.exchanged = s.exchanged) (haccepted : t.broker.accepted = s.broker.accepted) :
    GotSince queue a t := by
  intro ha
  obtain ⟨hs, more, hmore, hgot⟩ := h ha
  refine ⟨hbound hs, more, hexchanged.trans hmore, ?_⟩
  rw [Broker.acceptedIn, haccepted]
  exact hgot

/-- **Every event keeps the exchange wired**, and a bound queue gets what is processed. -/
theorem Wired.after {s : Newsroom ι} (h : Wired s) (e : NewsEvent ι) :
    Wired (s.after P e) ∧
      ∀ queue a, GotSince queue a s → GotSince queue a (s.after P e) := by
  have hsame {t : Newsroom ι} (hbound : t.bound = s.bound) (hexchanged : t.exchanged = s.exchanged)
      (hquiet : t.broker.Quiet) (haccepted : t.broker.accepted = s.broker.accepted) :
      Wired t ∧ ∀ queue a, GotSince queue a s → GotSince queue a t :=
    ⟨⟨hbound ▸ h.bound, hquiet⟩,
      fun _ _ hgot => hgot.of_eq (fun hq => hbound ▸ hq) hexchanged haccepted⟩
  cases e with
  | pipeline e => exact hsame rfl rfl h.quiet rfl
  | ticks c publishes => exact hsame rfl rfl h.quiet rfl
  | loses => exact hsame rfl rfl h.quiet rfl
  | notifierDies => exact hsame rfl rfl h.quiet rfl
  | webDies => exact hsame rfl rfl h.quiet rfl
  | connects queue =>
    cases queue <;> exact hsame rfl rfl (h.quiet.connect _) rfl
  | delivers link position =>
    exact hsame rfl rfl (h.quiet.deliver link position)
      (Broker.accepted_deliver link position _)
  | processes link =>
    exact hsame rfl rfl (h.quiet.process link).1 (h.quiet.process link).2
  | drops link =>
    exact hsame rfl rfl (h.quiet.drop link) (Broker.accepted_drop link _)
  | severs link =>
    refine hsame rfl rfl (h.quiet.sever link) ?_
    show (s.broker.sever link).accepted = s.broker.accepted
    unfold Broker.sever
    split <;> rfl
  | notifierReceives first second through =>
    unfold Newsroom.after
    dsimp only
    split
    · exact hsame rfl rfl h.quiet rfl
    · rename_i hreceive
      have hdelivery := (receiveFrom_eq_some hreceive).2
      exact hsame rfl rfl (h.quiet.settle hdelivery _ through)
        (Broker.accepted_send hdelivery _ through)
  | webReceives through =>
    unfold Newsroom.after
    dsimp only
    split
    · exact hsame rfl rfl h.quiet rfl
    · rename_i hreceive
      have hdelivery := (receiveFrom_eq_some hreceive).2
      exact hsame rfl rfl (h.quiet.settle hdelivery _ through)
        (Broker.accepted_send hdelivery _ through)
  | binds queue =>
    refine ⟨⟨?_, h.quiet⟩, fun q a hgot => hgot.of_eq (fun hq => ?_) rfl rfl⟩
    · unfold Newsroom.after
      dsimp only
      split
      · exact h.bound
      · rename_i hnew
        exact List.concat_eq_append ▸ h.bound.concat hnew
    · unfold Newsroom.after
      dsimp only
      split
      · exact hq
      · exact List.mem_append_left _ hq
  | exchanges =>
    unfold Newsroom.after
    dsimp only
    split
    · exact hsame rfl rfl h.quiet rfl
    · rename_i payload rest _
      refine ⟨⟨h.bound, h.quiet.fanOut _ _⟩, fun q a hgot ha => ?_⟩
      obtain ⟨hs, more, hmore, hqueue⟩ := hgot ha
      refine ⟨hs, more ++ [payload], ?_, ?_⟩
      · rw [hmore, List.append_assoc]
      · rw [Broker.acceptedIn_fanOut h.bound, if_pos hs, hqueue, List.append_assoc]

theorem wired_of_reachable {s : Newsroom ι} (h : (P.system F ι).Reachable s) : Wired s := by
  refine h.invariant ?_ ?_
  · rintro s rfl
    exact ⟨List.nodup_nil, fun _ hl => absurd hl List.not_mem_nil⟩
  · rintro s e _ hw ⟨-, rfl⟩
    exact (hw.after e).1

/-- What the exchange has processed since a move of a run went to the queues that were bound. -/
theorem gotSince_of_mem {tr : List (Move (Newsroom ι) (NewsEvent ι))} {s : Newsroom ι}
    (hrun : (P.system F ι).Run tr s) {m : Move (Newsroom ι) (NewsEvent ι)} (hm : m ∈ tr)
    (queue : Subscriber) : GotSince queue m.post s := by
  refine hrun.relates (R := GotSince queue) (fun t ht => ⟨ht, [], by simp, by simp⟩) ?_ hm
  rintro a t e _ ht hgot ⟨-, rfl⟩
  exact ((wired_of_reachable ht).after e).2 queue a hgot

/-! ## A page that is read -/

/-- Services that weigh the votes only. -/
def smallPress : Press where
  setting := { goodBaseUrl with nlohmann := IndentingNlohmann.reference.toNlohmann }
  rounding := .exact
  storage := { weights := ⟨.finite 1, .finite 0, .finite 0, .finite 0⟩ }
  notifier := {}
  web := {}

/-- One page. -/
def onePage : Set RawArticlesMessage := {{ rawHtml := utf8 "<html>" }}

/-- The article of the page is stored, and a tick publishes it. -/
def pagePublished : List (NewsEvent Unit) :=
  (pageStored.map fun e => .pipeline (.event e)) ++ [.ticks ⟨0, 0, 7, true⟩ true]

/-- The page is the one that is fetched. -/
theorem mem_pages_onePage :
    ∀ raw ∈ smallPress.setting.nlohmann.decode RawArticlesMessage.codec page,
      raw ∈ onePage := by
  have hdecode : smallPress.setting.nlohmann.decode RawArticlesMessage.codec page =
      some { rawHtml := utf8 "<html>" } := by decide +kernel
  rw [hdecode]
  rintro raw hraw
  exact (Option.some.inj hraw).symm

/-- When an event of these runs can happen. -/
abbrev CanHappen (s : Newsroom Unit) (e : NewsEvent Unit) : Prop :=
  s.Enabled e ∧ FedFrom smallPress.setting onePage e

/-- What can happen after these events makes a run. -/
theorem run_pagePublished {es : List (NewsEvent Unit)}
    (hes : TransitionSystem.EnabledAll CanHappen (Newsroom.after smallPress)
      (pagePublished.foldl (Newsroom.after smallPress) {}) es) :
    (smallPress.system onePage Unit).Run
      (TransitionSystem.moves (Newsroom.after smallPress) {} (pagePublished ++ es))
      ((pagePublished ++ es).foldl (Newsroom.after smallPress) {}) := by
  have hstep : ∀ (s : Newsroom Unit) e, CanHappen s e →
      (smallPress.system onePage Unit).step s e (s.after smallPress e) := fun _ _ h => ⟨h, rfl⟩
  have hstart : (smallPress.system onePage Unit).Run [] {} := .start rfl
  refine hstart.append_moves hstep (pagePublished ++ es) ?_
  refine ⟨⟨trivial, mem_pages_onePage⟩, ⟨rfl, trivial⟩, ⟨⟨⟨_, rfl, rfl⟩, _, rfl, rfl, rfl⟩, trivial⟩,
    ⟨rfl, trivial⟩, ⟨⟨⟨_, rfl, rfl⟩, _, rfl, rfl, rfl⟩, trivial⟩, ⟨trivial, trivial⟩,
    ⟨trivial, trivial⟩, ⟨trivial, trivial⟩, ⟨trivial, trivial⟩, ⟨trivial, trivial⟩,
    ⟨trivial, trivial⟩, ⟨trivial, trivial⟩, ⟨?_, trivial⟩, hes⟩
  -- the channel of the storage service is ready, so its timer runs
  show (State.loop _).timerAdded = true
  decide +kernel

/-- The digest goes to the web service, whose queue is bound before the exchange processes it. -/
def pageRead : List (NewsEvent Unit) :=
  [.binds .digestWeb, .exchanges, .connects .digestWeb, .delivers 0 0, .webReceives 1]

theorem run_pageRead : (smallPress.system onePage Unit).Run
    (TransitionSystem.moves (Newsroom.after smallPress) {} (pagePublished ++ pageRead))
    ((pagePublished ++ pageRead).foldl (Newsroom.after smallPress) {}) := by
  refine run_pagePublished (.of_forall ?_ _)
  simp only [pageRead, List.forall_mem_cons]
  exact ⟨fun _ => ⟨trivial, trivial⟩, fun _ => ⟨trivial, trivial⟩, fun _ => ⟨trivial, trivial⟩,
    fun _ => ⟨trivial, trivial⟩, fun _ => ⟨trivial, trivial⟩, fun _ h => absurd h List.not_mem_nil⟩

/-- The page is shown, and the digest is not settled yet. -/
theorem printed_of_reachable_pageRead :
    ((pagePublished ++ pageRead).foldl (Newsroom.after smallPress) {}).digests.flatMap
      (·.articles.map DigestArticle.title) = [utf8 "t"] ∧
    (((pagePublished ++ pageRead).foldl (Newsroom.after smallPress) {}).broker.outstanding
      .digestWeb).card = 1 ∧
    (∀ d ∈ ((pagePublished ++ pageRead).foldl (Newsroom.after smallPress) {}).digests,
      Printed smallPress onePage d) ∧
    ∀ payload ∈ ((pagePublished ++ pageRead).foldl (Newsroom.after smallPress)
      {}).broker.outstanding .digestWeb, Prints smallPress onePage payload := by
  have hprinted := printed_of_reachable smallPress onePage run_pageRead.reachable
  exact ⟨by decide +kernel, by decide +kernel, hprinted.1, (hprinted.2.2 .digestWeb).2⟩

end Pipeline
end HabrDigest
