import HabrDigest.Lib.LastWriter
import HabrDigest.Pipeline.Delivery

/-!
# Which snapshot an article shows

Every fetch is a snapshot of the articles on a page, and `fetch_id` is the second of the fetch,
written so that the order of the texts is the order of time.  Parsers compete for the pages, and
a page may be requeued or delivered again, so the snapshots reach the store in any order.  The
upsert asks for none of this: the last message that comes replaces the columns.

The pipeline is the one of `Delivery`, with the pages of a set of fetches.  `Ledger` is the
pipeline with a log of the messages that the store has processed.  Everything on the way comes from
a fetch (`Provenance`).  Where different fetches have different ids (`Fetches`), messages with one
`fetch_id` say the same.  The newest message of the log is what a row should show (`ShowsNewest`),
and the last one is what it shows; `showsNewest_iff` says when that is the same.
-/

namespace HabrDigest
namespace Pipeline

open Messaging HabrDigest.Parser Storage Sqlite LastWriter

/-- The pages that are fetched in a run; different ones have different ids. -/
structure Fetches where
  pages : Set RawArticlesMessage
  distinct : ∀ raw ∈ pages, ∀ raw' ∈ pages, raw.fetchId = raw'.fetchId → raw = raw'

/-- The pipeline, and the messages that the store has processed. -/
structure Ledger (ι : Type) where
  world : World ι := {}
  processed : List ParsedArticlesMessage := []

/-- The message that the store commits at an event. -/
def processedBy {ι : Type} (S : Setting) (s : World ι) : WorldEvent ι →
    Option ParsedArticlesMessage
  | .storageReceives calls _ clock _ =>
    (s.storage.receive s.broker).bind fun delivery =>
      committedMessage S.nlohmann calls clock delivery.2.2.1 s.database
  | _ => none

/-- Pages come from the fetches, and articles from the parsers only. -/
def ComesFrom {ι : Type} (S : Setting) (pages : Set RawArticlesMessage) : WorldEvent ι → Prop
  | .arrives .rawArticles payload =>
    ∀ raw ∈ S.nlohmann.decode RawArticlesMessage.codec payload, raw ∈ pages
  | .arrives .parsedArticles payload =>
    S.nlohmann.decode ParsedArticlesMessage.codec payload = none
  | _ => True

/-- What comes is of these fetches. -/
def Fetches.Allows {ι : Type} (S : Setting) (F : Fetches) : WorldEvent ι → Prop :=
  ComesFrom S F.pages

namespace Ledger

variable {ι : Type} [DecidableEq ι]

/-- The pipeline after an event, and the log. -/
def after (S : Setting) (l : Ledger ι) (e : WorldEvent ι) : Ledger ι :=
  ⟨l.world.after S e, l.processed ++ (processedBy S l.world e).toList⟩

end Ledger

/-- The pipeline with its log, as a transition system. -/
def Setting.ledger (S : Setting) (F : Fetches) (ι : Type) [DecidableEq ι] :
    TransitionSystem (Ledger ι) (WorldEvent ι) where
  init l := l = {}
  step l e l' := (l.world.Enabled e ∧ F.Allows S e) ∧ l' = l.after S e

/-! ## What a row shows -/

/-- A row without its times: the counters, the text columns and the trace id. -/
def columns (row : Row) : Row :=
  { row with firstSeenAt := [], firstSeenEpoch := 0, updatedAt := [], updatedEpoch := 0 }

/-- A message has an article that is stored under an id. -/
def contains (m : ParsedArticlesMessage) (id : Bytes) : Bool := (lastWith id m.articles).isSome

/-- What a message says of an article. -/
def snapshot (S : Setting) (id : Bytes) (m : ParsedArticlesMessage) : Option Row :=
  (lastWith id m.articles).bind fun a =>
    (articleRow S.nlohmann ⟨0, 0⟩ m.traceId a).map columns

/-- Only the articles and the trace id of a message are in its rows. -/
theorem snapshot_congr (S : Setting) (id : Bytes) {m m' : ParsedArticlesMessage}
    (htrace : m.traceId = m'.traceId) (harticles : m.articles = m'.articles) :
    snapshot S id m = snapshot S id m' := by
  rw [snapshot, snapshot, htrace, harticles]

/-- The messages of a log that have an article. -/
def containing (log : List ParsedArticlesMessage) (id : Bytes) : List ParsedArticlesMessage :=
  log.filter (contains · id)

/-- **No row shows an older snapshot than the newest**: it says what the message with the greatest
`fetch_id` says, among those that were processed and have the article. -/
def ShowsNewest {ι : Type} (S : Setting) (l : Ledger ι) : Prop :=
  ∀ id, Shows ParsedArticlesMessage.fetchId (snapshot S id) (containing l.processed id)
    ((l.world.database.committed.lookup id).map columns)

/-- A message that is committed is not older than the newest one before it that has an article
with it, or says the same of that article. -/
def CommitsInOrder {ι : Type} (S : Setting) (m : Move (Ledger ι) (WorldEvent ι)) : Prop :=
  ∀ committed ∈ processedBy S m.pre.world m.event, ∀ id, contains committed id = true →
    ∀ newest, Newest ParsedArticlesMessage.fetchId (containing m.pre.processed id) newest →
      newest.fetchId ≤ committed.fetchId ∨ snapshot S id newest = snapshot S id committed

/-! ## Where the messages come from -/

/-- What is in the queues: a page of the fetches, and what a parser makes of one. -/
def origin (S : Setting) (pages : Set RawArticlesMessage) : Queue → Bytes → Prop
  | .rawArticles, payload =>
    ∀ raw ∈ S.nlohmann.decode RawArticlesMessage.codec payload, raw ∈ pages
  | .parsedArticles, payload =>
    ∀ m ∈ S.nlohmann.decode ParsedArticlesMessage.codec payload, ∃ raw ∈ pages, ∃ now,
      m = parsedMessage raw (S.htmlParser.parse raw.rawHtml).articles now

/-- What a parser publishes comes from the page it handles. -/
theorem origin_handleRawArticles {S : Setting} {pages : Set RawArticlesMessage} {now : ℤ}
    {publishes : Bool} {payload out : Bytes} (hpayload : origin S pages .rawArticles payload)
    (hout : out ∈ (handleRawArticles S.nlohmann S.htmlParser now publishes payload).published) :
    origin S pages .parsedArticles out := by
  unfold handleRawArticles at hout
  cases hraw : S.nlohmann.decode RawArticlesMessage.codec payload with
  | none => exact absurd hout (by simp [hraw])
  | some raw =>
    rw [hraw] at hout
    dsimp only at hout
    split at hout
    · exact absurd hout List.not_mem_nil
    split at hout
    · exact absurd hout List.not_mem_nil
    rename_i encoded hencoded
    split at hout
    · obtain rfl := List.mem_singleton.mp hout
      have hdecode := Nlohmann.decode_encode_of_lossless (ParsedArticlesMessage.lossless _) hencoded
      intro m hm
      obtain rfl := Option.some.inj (hdecode.symm.trans hm)
      exact ⟨raw, hpayload raw hraw, now, rfl⟩
    · exact absurd hout List.not_mem_nil

/-- **Everything on the way comes from a fetch**: what the broker carries, and what the store has
processed; and every process has a link of its own queue. -/
structure Provenance {ι : Type} (S : Setting) (pages : Set RawArticlesMessage) (l : Ledger ι) :
    Prop where
  carries : l.world.broker.Carries (origin S pages)
  parsers : ∀ i link, (l.world.parsers i).link = some link →
    l.world.broker.sources[link]? = some .rawArticles
  storage : ∀ link, l.world.storage.link = some link →
    l.world.broker.sources[link]? = some .parsedArticles
  processed : ∀ m ∈ l.processed, ∃ raw ∈ pages, ∃ now,
    m = parsedMessage raw (S.htmlParser.parse raw.rawHtml).articles now

variable {ι : Type} {S : Setting} {pages : Set RawArticlesMessage}

/-- What the broker does by itself changes nothing about it. -/
theorem Provenance.of_broker {l : Ledger ι} (h : Provenance S pages l) {b : Broker Queue Bytes}
    (hsources : b.sources = l.world.broker.sources) (hcarries : b.Carries (origin S pages)) :
    Provenance S pages { l with world := { l.world with broker := b } } :=
  ⟨hcarries, fun i link hl => hsources ▸ h.parsers i link hl,
    fun link hl => hsources ▸ h.storage link hl, h.processed⟩

theorem carries_callback (service : Service) (source : Queue) (e : Event) (inst : Instance)
    {b : Broker Queue Bytes} (h : b.Carries (origin S pages)) :
    (inst.callback service source e b).2.Carries (origin S pages) := by
  unfold Instance.callback
  dsimp only
  split_ifs
  · exact h.connect source
  · exact h
  · exact h

variable [DecidableEq ι]

/-- Where the store processes nothing, the log stays. -/
theorem Ledger.after_of_processedBy_eq_none {l : Ledger ι} {e : WorldEvent ι}
    (h : processedBy S l.world e = none) : l.after S e = ⟨l.world.after S e, l.processed⟩ := by
  rw [Ledger.after, h, Option.toList_none, List.append_nil]

/-- What a parser answers comes from the page it was given. -/
theorem Provenance.parserReceives {l : Ledger ι} (h : Provenance S pages l) (i : ι) (now : ℤ)
    (publishes : Bool) (through : ℕ) :
    Provenance S pages (l.after S (.parserReceives i now publishes through)) := by
  rw [Ledger.after_of_processedBy_eq_none rfl]
  unfold World.after
  dsimp only
  split
  · exact h
  rename_i link tag payload broker hreceive
  obtain ⟨hlink, hdelivery⟩ := receive_eq_some hreceive
  obtain ⟨hcarries, hpayload⟩ := h.carries.receive hdelivery
  refine h.of_broker ?_ (hcarries.send link (fun queue p hp => ?_) through)
  · rw [Broker.sources_send, Broker.sources_receive hdelivery]
  · obtain ⟨out, hout, heq⟩ := List.mem_map.mp (Broker.publish_mem_answer hp)
    obtain ⟨rfl, rfl⟩ := Prod.mk.inj heq
    exact origin_handleRawArticles (hpayload _ (h.parsers i link hlink)) hout

/-- What the store processes comes from a page. -/
theorem Provenance.storageReceives {l : Ledger ι} (h : Provenance S pages l) (calls : Calls)
    (counts : Bool) (clock : Clock) (through : ℕ) :
    Provenance S pages (l.after S (.storageReceives calls counts clock through)) := by
  unfold Ledger.after World.after processedBy
  dsimp only
  cases hreceive : l.world.storage.receive l.world.broker with
  | none =>
    rw [Option.bind_none, Option.toList_none, List.append_nil]
    exact h
  | some delivery =>
    obtain ⟨link, tag, payload, broker⟩ := delivery
    obtain ⟨hlink, hdelivery⟩ := receive_eq_some hreceive
    obtain ⟨hcarries, hpayload⟩ := h.carries.receive hdelivery
    have hsources : ∀ frames, (broker.send link frames through).sources =
        l.world.broker.sources := by
      intro frames
      rw [Broker.sources_send, Broker.sources_receive hdelivery]
    refine ⟨hcarries.send link (fun queue p hp => ?_) through, fun i link' hl => ?_,
      fun link' hl => ?_, fun m hm => ?_⟩
    · exact absurd (Broker.publish_mem_answer hp) List.not_mem_nil
    · rw [hsources]
      exact h.parsers i link' hl
    · rw [hsources]
      exact h.storage link' hl
    · rcases List.mem_append.mp hm with hold | hnew
      · exact h.processed m hold
      · have hcommitted : committedMessage S.nlohmann calls clock payload l.world.database = some m :=
          Option.mem_toList.mp hnew
        exact hpayload _ (h.storage link hlink) m (Option.filter_eq_some_iff.mp hcommitted).1

/-- **Every event keeps the provenance.** -/
theorem Provenance.after {l : Ledger ι} (h : Provenance S pages l) (e : WorldEvent ι)
    (hallowed : ComesFrom S pages e) : Provenance S pages (l.after S e) := by
  cases e with
  | parserReceives i now publishes through => exact h.parserReceives i now publishes through
  | storageReceives calls counts clock through => exact h.storageReceives calls counts clock through
  | arrives queue payload =>
    rw [Ledger.after_of_processedBy_eq_none rfl]
    refine h.of_broker rfl (h.carries.arrive ?_)
    cases queue with
    | rawArticles => exact hallowed
    | parsedArticles =>
      have hnone : S.nlohmann.decode ParsedArticlesMessage.codec payload = none := hallowed
      exact fun m hm => absurd (hnone.symm.trans hm) (by simp)
  | delivers link position =>
    rw [Ledger.after_of_processedBy_eq_none rfl]
    exact h.of_broker (Broker.sources_deliver link position _) (h.carries.deliver link position)
  | processes link =>
    rw [Ledger.after_of_processedBy_eq_none rfl]
    exact h.of_broker (Broker.sources_process link _) (h.carries.process link)
  | drops link =>
    rw [Ledger.after_of_processedBy_eq_none rfl]
    exact h.of_broker (Broker.sources_drop link _) (h.carries.drop link)
  | severs link =>
    rw [Ledger.after_of_processedBy_eq_none rfl]
    exact h.of_broker (Broker.sources_sever link _) (h.carries.sever link)
  | parserCallback i e =>
    rw [Ledger.after_of_processedBy_eq_none rfl]
    obtain ⟨hown, hothers, -⟩ :=
      callback_spec S.parserService .rawArticles e (l.world.parsers i) (h.parsers i)
    refine ⟨carries_callback _ _ e _ h.carries, fun j link hl => ?_,
      fun link hl => hothers link _ (h.storage link hl), h.processed⟩
    by_cases hij : j = i
    · subst hij
      exact hown link (by simpa [World.after] using hl)
    · exact hothers link _ (h.parsers j link (by simpa [World.after, hij] using hl))
  | storageCallback e =>
    rw [Ledger.after_of_processedBy_eq_none rfl]
    obtain ⟨hown, hothers, -⟩ :=
      callback_spec S.storageService .parsedArticles e l.world.storage h.storage
    exact ⟨carries_callback _ _ e _ h.carries,
      fun j link hl => hothers link _ (h.parsers j link hl), hown, h.processed⟩

omit [DecidableEq ι] in
/-- **Messages with one `fetch_id` say the same**: they are of one page. -/
theorem Provenance.snapshot_eq {F : Fetches} {l : Ledger ι} (h : Provenance S F.pages l)
    {m m' : ParsedArticlesMessage} (hm : m ∈ l.processed) (hm' : m' ∈ l.processed)
    (hfetch : m.fetchId = m'.fetchId) (id : Bytes) : snapshot S id m = snapshot S id m' := by
  obtain ⟨raw, hraw, now, rfl⟩ := h.processed m hm
  obtain ⟨raw', hraw', now', rfl⟩ := h.processed m' hm'
  obtain rfl := F.distinct raw hraw raw' hraw' hfetch
  exact snapshot_congr S id rfl rfl

/-! ## What a message does to the rows -/

/-- A row is replaced, but for its times. -/
theorem columns_absorb (t : Table) {id : Bytes} {row : Row} (hid : row.articleId = id) :
    (KeyedTable.absorb onConflict (t.lookup id) row).map columns = some (columns row) := by
  cases hold : t.lookup id with
  | none => rfl
  | some old =>
    have hkey : old.articleId = row.articleId := (KeyedTable.key_of_lookup hold).trans hid.symm
    have habsorb : KeyedTable.absorb onConflict (some old) row = some (onConflict.merge old row) :=
      rfl
    rw [habsorb, onConflict_merge hkey]
    rfl

/-- The clock is in the times only. -/
theorem columns_articleRow (n : Nlohmann) (clock clock' : Clock) (traceId : Bytes)
    (a : ParsedArticle) :
    (articleRow n clock traceId a).map columns = (articleRow n clock' traceId a).map columns := by
  rw [articleRow, articleRow, Option.map_map, Option.map_map]
  refine congrArg (Option.map · _) (funext fun hubs => ?_)
  rw [Function.comp_apply, Function.comp_apply, columns, columns]

/-- **What a batch leaves of an article**: what it says itself, where it has the article. -/
theorem lookup_upsertAll_columns (S : Setting) (clock : Clock) (t : Table)
    {m : ParsedArticlesMessage} {rows : List Row}
    (hrows : batchRows S.nlohmann clock m.traceId m.articles = some rows) (id : Bytes) :
    ((t.upsertAll onConflict rows).lookup id).map columns =
      if contains m id then snapshot S id m else (t.lookup id).map columns := by
  obtain ⟨hsome, hnone⟩ := lookup_batch S.nlohmann clock m.traceId t hrows id
  unfold contains snapshot
  cases hlast : lastWith id m.articles with
  | none =>
    rw [hnone hlast]
    rfl
  | some a =>
    obtain ⟨row, hrow, hlookup⟩ := hsome a hlast
    have hid : a.articleId.cString = id := by
      have hfound := List.find?_some hlast
      exact of_decide_eq_true hfound
    rw [hlookup, columns_absorb t ((articleId_of_articleRow hrow).trans hid), Option.isSome_some,
      if_pos rfl, Option.bind_some, columns_articleRow S.nlohmann ⟨0, 0⟩ clock, hrow,
      Option.map_some]

/-- **What an event does to the rows.** -/
theorem lookup_after (S : Setting) (s : World ι) (e : WorldEvent ι) (id : Bytes) :
    ((s.after S e).database.committed.lookup id).map columns =
      match processedBy S s e with
      | none => (s.database.committed.lookup id).map columns
      | some m => if contains m id then snapshot S id m
        else (s.database.committed.lookup id).map columns := by
  cases e with
  | storageReceives calls counts clock through =>
    unfold World.after processedBy
    dsimp only
    cases s.storage.receive s.broker with
    | none => rfl
    | some delivery =>
      obtain ⟨link, tag, payload, broker⟩ := delivery
      rw [Option.bind_some]
      rcases committed_handleParsedArticles S.nlohmann calls counts clock payload s.database with
        ⟨hnone, htable⟩ | ⟨m, rows, -, hm, hrows, htable⟩
      · rw [hnone]
        exact congrArg (fun t : Table => (t.lookup id).map columns) htable
      · rw [hm]
        dsimp only
        rw [← lookup_upsertAll_columns S clock s.database.committed hrows id, ← htable]
  | parserReceives i now publishes through =>
    unfold World.after
    dsimp only
    split <;> rfl
  | _ => rfl

/-! ## When the newest is shown -/

/-- **A step keeps the newest**, exactly when it commits in order. -/
theorem ShowsNewest.after_iff {F : Fetches} {l : Ledger ι} (h : ShowsNewest S l) (e : WorldEvent ι)
    (hprovenance : Provenance S F.pages (l.after S e)) {post : Ledger ι} :
    ShowsNewest S (l.after S e) ↔ CommitsInOrder S ⟨l, e, post⟩ := by
  unfold CommitsInOrder ShowsNewest
  cases hprocessed : processedBy S l.world e with
  | none =>
    refine iff_of_true (fun id => ?_) (fun m hm => absurd hm (by simp))
    have hrow := lookup_after S l.world e id
    rw [hprocessed] at hrow
    rw [Ledger.after_of_processedBy_eq_none hprocessed, hrow]
    exact h id
  | some m =>
    have hlog : (l.after S e).processed = l.processed ++ [m] := by
      rw [Ledger.after, hprocessed]
      rfl
    simp only [Option.mem_some_iff, forall_eq']
    refine forall_congr' fun id => ?_
    have hrow := lookup_after S l.world e id
    rw [hprocessed] at hrow
    have hcontaining : containing (l.processed ++ [m]) id =
        containing l.processed id ++ if contains m id then [m] else [] := by
      rw [containing, List.filter_append, List.filter_singleton, Bool.cond_eq_ite]
      rfl
    have hvalue : (Ledger.after S l e).world = l.world.after S e := rfl
    rw [hlog, hcontaining, hvalue, hrow]
    by_cases hid : contains m id = true
    · have hstamp : ∀ w ∈ containing l.processed id, w.fetchId = m.fetchId →
          snapshot S id w = snapshot S id m := fun w hw hfetch =>
        hprovenance.snapshot_eq (hlog ▸ List.mem_append_left _ (List.mem_of_mem_filter hw))
          (hlog ▸ List.mem_append_right _ (List.mem_singleton_self m)) hfetch id
      simp only [hid, if_true, forall_const]
      exact shows_append_iff hstamp
    · rw [if_neg hid, List.append_nil]
      dsimp only
      rw [if_neg hid]
      exact iff_of_true (h id) fun hcontains => absurd hcontains hid

/-- **When no article shows an older snapshot than the newest.**  In a run of any number of
parsers, every row shows the newest processed message in every state exactly when the store
commits the messages in order. -/
theorem showsNewest_iff (S : Setting) (F : Fetches)
    {tr : List (Move (Ledger ι) (WorldEvent ι))} {l : Ledger ι} (hrun : (S.ledger F ι).Run tr l) :
    (∀ m ∈ tr, ShowsNewest S m.post) ↔ ∀ m ∈ tr, CommitsInOrder S m := by
  have hinit : ∀ l : Ledger ι, (S.ledger F ι).init l → Provenance S F.pages l := by
    rintro l rfl
    exact ⟨.empty, fun i link hl => absurd hl (by simp), fun link hl => absurd hl (by simp),
      fun m hm => absurd hm (by simp)⟩
  have hprovenance : ∀ m ∈ tr, Provenance S F.pages m.post := by
    intro m hm
    obtain ⟨hreachable, hstep⟩ := hrun.exists_reachable_of_mem hm
    refine (hreachable.step hstep).invariant hinit ?_
    rintro l e _ h ⟨⟨-, hallowed⟩, rfl⟩
    exact h.after e hallowed
  have hboth := hrun.forall_post_iff (P := fun l => Provenance S F.pages l ∧ ShowsNewest S l)
    (G := CommitsInOrder S) (fun l hl => ⟨hinit l hl, ?_⟩) ?_
  · rw [← hboth]
    exact ⟨fun h m hm => ⟨hprovenance m hm, h m hm⟩, fun h m hm => (h m hm).2⟩
  · obtain rfl := hl
    exact fun id => shows_nil _
  · rintro l e _ ⟨hl, hshows⟩ ⟨⟨-, hallowed⟩, rfl⟩
    have hafter := hl.after e hallowed
    rw [← hshows.after_iff e hafter]
    exact and_iff_right hafter

/-! ## An older snapshot that comes last -/

/-- A page that was fetched at a minute. -/
def fetched (minute traceId : String) : RawArticlesMessage where
  fetchId := utf8 "2024-05-01T10:" ++ utf8 minute ++ utf8 ":00Z"
  rawHtml := utf8 "<html>"
  traceId := utf8 traceId

/-- Two snapshots of one article. -/
def twoFetches : Fetches where
  pages := {fetched "00" "older", fetched "01" "newer"}
  distinct := by
    have hne : (fetched "00" "older").fetchId ≠ (fetched "01" "newer").fetchId := by decide
    rintro raw (rfl | rfl) raw' (rfl | rfl) h
    · rfl
    · exact absurd h hne
    · exact absurd h.symm hne
    · rfl

/-- How it is published. -/
def fetchedPayload (raw : RawArticlesMessage) : Bytes :=
  (Nlohmann.reference.encode RawArticlesMessage.codec raw).getD []

/-- Two parsers and the store connect, and each parser is given a page. -/
def bothParse : List (WorldEvent Bool) :=
  [.parserCallback false (.run true), .parserCallback false .channelReady,
    .parserCallback true (.run true), .parserCallback true .channelReady,
    .storageCallback (.run true), .storageCallback .channelReady,
    .arrives .rawArticles (fetchedPayload (fetched "00" "older")),
    .arrives .rawArticles (fetchedPayload (fetched "01" "newer")), .delivers 0 0, .delivers 1 0]

/-- A parser publishes its articles, and the store commits them. -/
def parseAndStore (parser : Bool) (link : ℕ) : List (WorldEvent Bool) :=
  [.parserReceives parser 0 true 2, .processes link, .processes link, .delivers 2 0,
    .storageReceives .succeed true ⟨0, 0⟩ 1, .processes 2]

/-- The newer page is parsed and stored first. -/
def olderLast : List (WorldEvent Bool) :=
  bothParse ++ (parseAndStore true 1 ++ parseAndStore false 0)

/-- The older page is parsed and stored first. -/
def newerLast : List (WorldEvent Bool) :=
  bothParse ++ (parseAndStore false 0 ++ parseAndStore true 1)

/-- When an event of these runs can happen. -/
abbrev Happens (l : Ledger Bool) (e : WorldEvent Bool) : Prop :=
  l.world.Enabled e ∧ twoFetches.Allows goodBaseUrl e

theorem happens_parseAndStore (parser : Bool) (link : ℕ) :
    ∀ e ∈ parseAndStore parser link, ∀ l, Happens l e := by
  simp only [parseAndStore, List.forall_mem_cons]
  exact ⟨fun _ => ⟨trivial, trivial⟩, fun _ => ⟨trivial, trivial⟩, fun _ => ⟨trivial, trivial⟩,
    fun _ => ⟨trivial, trivial⟩, fun _ => ⟨trivial, trivial⟩, fun _ => ⟨trivial, trivial⟩,
    fun _ h => absurd h List.not_mem_nil⟩

/-- What can always happen can happen after these events. -/
theorem run_bothParse {es : List (WorldEvent Bool)} (hes : ∀ e ∈ es, ∀ l, Happens l e) :
    (goodBaseUrl.ledger twoFetches Bool).Run
      (TransitionSystem.moves (Ledger.after goodBaseUrl) {} (bothParse ++ es))
      ((bothParse ++ es).foldl (Ledger.after goodBaseUrl) {}) := by
  have hstart : (goodBaseUrl.ledger twoFetches Bool).Run [] {} := .start rfl
  have hpage : ∀ raw ∈ twoFetches.pages,
      goodBaseUrl.nlohmann.decode RawArticlesMessage.codec (fetchedPayload raw) = some raw := by
    rintro raw (rfl | rfl) <;> decide +kernel
  have harrives : ∀ raw ∈ twoFetches.pages, twoFetches.Allows goodBaseUrl
      (.arrives .rawArticles (fetchedPayload raw) : WorldEvent Bool) := by
    intro raw hraw raw' hraw'
    obtain rfl := Option.some.inj ((hpage raw hraw).symm.trans hraw')
    exact hraw
  have hstep : ∀ l e, Happens l e →
      (goodBaseUrl.ledger twoFetches Bool).step l e (l.after goodBaseUrl e) := fun _ _ h => ⟨h, rfl⟩
  refine hstart.append_moves hstep (bothParse ++ es) ?_
  exact ⟨⟨rfl, trivial⟩, ⟨⟨⟨_, rfl, rfl⟩, _, rfl, rfl, rfl⟩, trivial⟩, ⟨rfl, trivial⟩,
    ⟨⟨⟨_, rfl, rfl⟩, _, rfl, rfl, rfl⟩, trivial⟩, ⟨rfl, trivial⟩,
    ⟨⟨⟨_, rfl, rfl⟩, _, rfl, rfl, rfl⟩, trivial⟩, ⟨trivial, harrives _ (Or.inl rfl)⟩,
    ⟨trivial, harrives _ (Or.inr rfl)⟩, ⟨trivial, trivial⟩, ⟨trivial, trivial⟩, .of_forall hes _⟩

/-- The row says what the older page says, though the newer one was processed. -/
theorem exists_run_olderLast : ∃ tr l, (goodBaseUrl.ledger twoFetches Bool).Run tr l ∧
    l.processed.map (·.traceId) = [utf8 "newer", utf8 "older"] ∧
    (∃ w, Newest ParsedArticlesMessage.fetchId (containing l.processed (utf8 "1")) w ∧
      (snapshot goodBaseUrl (utf8 "1") w).map Row.traceId = some (utf8 "newer")) ∧
    (l.world.database.committed.lookup (utf8 "1")).map Row.traceId = some (utf8 "older") := by
  have hrun : (goodBaseUrl.ledger twoFetches Bool).Run
      (TransitionSystem.moves (Ledger.after goodBaseUrl) {} olderLast)
      (olderLast.foldl (Ledger.after goodBaseUrl) {}) :=
    run_bothParse (List.forall_mem_append.mpr
      ⟨happens_parseAndStore true 1, happens_parseAndStore false 0⟩)
  refine ⟨_, _, hrun, by decide +kernel, ?_, by decide +kernel⟩
  refine ⟨parsedMessage (fetched "01" "newer")
    (goodBaseUrl.htmlParser.parse (fetched "01" "newer").rawHtml).articles 0, ⟨?_, ?_⟩, ?_⟩
  · decide +kernel
  · decide +kernel
  · decide +kernel

/-- **An article that shows an older snapshot**, because its message came last. -/
theorem stale_snapshot : ¬ ∀ (S : Setting) (F : Fetches)
    (tr : List (Move (Ledger Bool) (WorldEvent Bool))) (l : Ledger Bool),
    (S.ledger F Bool).Run tr l → ShowsNewest S l := by
  intro h
  obtain ⟨tr, l, hrun, -, ⟨w, hnewest, hsnapshot⟩, hrow⟩ := exists_run_olderLast
  have hshows := h goodBaseUrl twoFetches tr l hrun (utf8 "1") w hnewest
  have htrace : ∀ row : Option Row, (row.map columns).map Row.traceId = row.map Row.traceId := by
    intro row
    cases row <;> rfl
  rw [hshows, htrace, hrow] at hsnapshot
  exact absurd hsnapshot (by decide)

/-- Messages that come in the order of their ids are committed in order. -/
theorem CommitsInOrder.of_forall_le {S : Setting} {m : Move (Ledger Bool) (WorldEvent Bool)}
    (h : ∀ committed ∈ processedBy S m.pre.world m.event, ∀ w ∈ m.pre.processed,
      w.fetchId ≤ committed.fetchId) : CommitsInOrder S m :=
  fun committed hcommitted _ _ newest hnewest =>
    Or.inl (h committed hcommitted newest (List.mem_of_mem_filter hnewest.1))

/-- The newer page comes last, and is shown. -/
theorem showsNewest_newerLast : (goodBaseUrl.ledger twoFetches Bool).Run
      (TransitionSystem.moves (Ledger.after goodBaseUrl) {} newerLast)
      (newerLast.foldl (Ledger.after goodBaseUrl) {}) ∧
    ∀ m ∈ TransitionSystem.moves (Ledger.after goodBaseUrl) {} newerLast,
      ShowsNewest goodBaseUrl m.post := by
  have hrun := run_bothParse (List.forall_mem_append.mpr
    ⟨happens_parseAndStore false 0, happens_parseAndStore true 1⟩)
  have horder : ∀ m ∈ TransitionSystem.moves (Ledger.after goodBaseUrl) {} newerLast,
      ∀ committed ∈ processedBy goodBaseUrl m.pre.world m.event, ∀ w ∈ m.pre.processed,
        w.fetchId ≤ committed.fetchId := by decide +kernel
  exact ⟨hrun, (showsNewest_iff goodBaseUrl twoFetches hrun).mpr fun m hm =>
    .of_forall_le (horder m hm)⟩

end Pipeline
end HabrDigest
