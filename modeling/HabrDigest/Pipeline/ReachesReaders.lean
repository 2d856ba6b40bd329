import HabrDigest.Pipeline.AgesOut
import HabrDigest.Pipeline.ReadersCatchUp
import HabrDigest.Storage.DigestTick

/-!
# What was fetched reaches its readers

`Recovery` says that the pages can always be stored, and `ReadersCatchUp` that the digests can always
be read.  Between the two stands the tick.  `reaches_readers` puts the three together, and says what
the program is for: from every state of the five services, whatever is stuck or lost by then, there
is a way without a new page and without a restart of a reader to a state in which nothing waits
anywhere, and in which the web page and `latest.md` show the digest of everything that is stored.
Every article of every page that was ever accepted is in that digest, if there is room for it and it
is not too old: articles that had no row before are as old as the moment of storing, and the others
are as old as they were.

The way goes stage by stage, and what a stage has done the next one leaves alone.  The pages are
stored, and the readers, bound by then, take what is on the connection of the storage service
(`leads_stored`).  Then the timer fires, which the skeleton allows since the storage service was just
started, and the readers take the digest of the tick (`leads_ticked`).
-/

namespace HabrDigest
namespace Storage

open Messaging Common Sqlite

/-! ## What is stored at one time -/

/-- The rows of a table were first seen at one time, or when a row of an earlier table was. -/
def SeenBy (earlier : Table) (clock : Clock) (t : Table) : Prop :=
  ∀ row ∈ t.rows, row.firstSeenEpoch = clock.epoch ∨
    ∃ old ∈ earlier.rows, old.articleId = row.articleId ∧ old.firstSeenEpoch = row.firstSeenEpoch

theorem SeenBy.refl (t : Table) (clock : Clock) : SeenBy t clock t := fun row hrow =>
  Or.inr ⟨row, hrow, rfl, rfl⟩

/-- **A delivery keeps it**: what it commits is new, or keeps its time. -/
theorem SeenBy.delivered {earlier : Table} {n : Nlohmann} {clock : Clock} {payload : Bytes}
    {c c' : Connection Table} (h : SeenBy earlier clock c.committed)
    (hdelivered : Delivered n clock payload c c') : SeenBy earlier clock c'.committed := by
  cases hdelivered with
  | same => exact h
  | leftOpen => exact h
  | committed _ hrows =>
    refine KeyedTable.forall_mem_upsertAll onConflict (fun old r hold _ => hold) h fun row hrow => ?_
    obtain ⟨a, -, ha⟩ := exists_article_of_mem hrows hrow
    obtain ⟨hubs, -, rfl⟩ := Option.map_eq_some_iff.mp ha
    exact Or.inl rfl

/-! ## A digest is handed over -/

/-- **A delivery keeps the texts**, whatever has become of its batch. -/
theorem HoldsText.delivered {n : Nlohmann} {clock : Clock} {payload : Bytes}
    {c c' : Connection Table} (h : HoldsText c) (hdelivered : Delivered n clock payload c c') :
    HoldsText c' := by
  have hwritten : ∀ {parsed : ParsedArticlesMessage} {rows : List Row},
      n.decode ParsedArticlesMessage.codec payload = some parsed →
      batchRows n clock parsed.traceId parsed.articles = some rows →
        IsText (c.committed.upsertAll onConflict rows) := by
    intro parsed rows hparsed hrows
    obtain ⟨j, hj, hfrom⟩ := Option.bind_eq_some_iff.mp hparsed
    have hvalid := ParsedArticlesMessage.valid_of_decode (n.validUtf8_of_parse _ _ hj) hfrom
    simp only [ParsedArticlesMessage.strings, List.cons_append, List.nil_append,
      List.forall_mem_cons, List.forall_mem_flatMap] at hvalid
    obtain ⟨-, -, -, htrace, harticles⟩ := hvalid
    exact h.committed.upsertAll (isText_of_batchRows htrace harticles hrows)
  cases hdelivered with
  | same => exact h
  | committed hparsed hrows => exact ⟨hwritten hparsed hrows, by simp⟩
  | leftOpen hparsed hrows =>
    refine ⟨h.committed, fun t ht => ?_⟩
    obtain rfl := Option.some.inj ht
    exact hwritten hparsed hrows

/-- The articles of a digest are text, read from a table of texts. -/
theorem valid_strings_topArticles (n : Nlohmann) (r : Rounding) (now : ℤ)
    (periodHours limit : UInt32) (w : ScoreWeights) {t : Table} (ht : IsText t) :
    ∀ e ∈ topArticles n r now periodHours limit w t, ∀ s ∈ e.strings, Utf8.Valid s := by
  intro e he
  obtain ⟨columns, hcolumns, rfl⟩ := List.mem_map.mp he
  obtain ⟨row, hrow, rfl⟩ := mem_kTopSql hcolumns
  have hread := valid_strings_readArticle n r .succeed 0
    (bindTop now periodHours limit w) (ht row hrow)
  rwa [fetched_eq_self (fun _ _ => rfl)] at hread

/-- **A digest that is not empty is handed over**, if the query succeeds. -/
theorem exists_publishDigest (n : Nlohmann) (r : Rounding) (config : Config) {c : Circumstances}
    {t : Table} (ht : IsText t) (hqueried : c.queried = true)
    (hnonempty : topArticles n r c.now config.digestPeriodHours config.digestTopN config.weights t ≠
      []) :
    ∃ payload, publishDigest n r config c t = .handed (digestMessage config c (topArticles n r c.now
      config.digestPeriodHours config.digestTopN config.weights t)) payload := by
  have hstamp := valid_nowIso8601Utc c.stampedAt
  have hencodes : (n.encode DigestReadyMessage.codec (digestMessage config c (topArticles n r c.now
      config.digestPeriodHours config.digestTopN config.weights t))).isSome := by
    refine Nlohmann.encode_isSome_iff.mpr ((DigestReadyMessage.validUtf8_toJson _).mpr ?_)
    simp only [DigestReadyMessage.strings, digestMessage, List.cons_append, List.nil_append,
      List.forall_mem_cons, List.forall_mem_flatMap]
    exact ⟨hstamp, hstamp, valid_generateTraceId c.drawn, valid_strings_topArticles n r _ _ _ _ ht⟩
  obtain ⟨payload, hpayload⟩ := Option.isSome_iff_exists.mp hencodes
  refine ⟨payload, ?_⟩
  rw [publishDigest, if_pos hqueried]
  dsimp only
  rw [if_neg hnonempty, hpayload]

end Storage
namespace Pipeline

open Messaging Notifier HabrDigest.Parser Storage Sqlite

/-! ## What is left to do -/

/-- Nobody publishes a page, no digest is lost, no reader is started again; whatever is stored is
stored at one time, and the ticks are of one kind. -/
def Finishes {ι : Type} (clock : Clock) (c : Circumstances) : NewsEvent ι → Prop
  | .pipeline e => Proceeds clock e
  | .ticks c' _ => c' = c
  | .loses | .notifierDies | .webDies => False
  | _ => True

theorem Settles.finishes {ι : Type} {clock : Clock} {c : Circumstances} {e : NewsEvent ι}
    (h : Settles e) : Finishes clock c e := by
  cases e <;> first | exact trivial | exact h.elim

variable {ι : Type} [DecidableEq ι] {P : Press} {F : Set RawArticlesMessage} {clock : Clock}
  {c : Circumstances}

/-! ## What the whole keeps of its parts -/

/-- The way of the pages is one of `Outages`. -/
theorem world_of_reachable {s : Newsroom ι} (h : (P.system F ι).Reachable s) :
    (P.setting.outages ι).Reachable s.world := by
  refine h.invariant (P := fun s : Newsroom ι => (P.setting.outages ι).Reachable s.world) ?_ ?_
  · rintro s rfl
    exact .init rfl
  · rintro s e t hworld ⟨⟨henabled, -⟩, rfl⟩
    cases e with
    | pipeline e => exact hworld.step ⟨henabled, rfl⟩
    | exchanges | notifierReceives | webReceives =>
      unfold Newsroom.after
      dsimp only
      split <;> exact hworld
    | connects subscriber => cases subscriber <;> exact hworld
    | _ => exact hworld

theorem holdsText_of_newsroom {s : Newsroom ι} (h : (P.system F ι).Reachable s) :
    HoldsText s.world.database := by
  refine h.invariant (P := fun s : Newsroom ι => HoldsText s.world.database) ?_ ?_
  · rintro s rfl
    exact ⟨fun row hrow => absurd hrow List.not_mem_nil, by simp⟩
  · rintro s e t htext ⟨-, rfl⟩
    exact keeps_database (fun h hstep => h.delivered hstep)
      (fun h => ⟨h.committed, fun _ ht => absurd ht (by simp [Connection.rollback])⟩) htext e

/-- **What is stored on the way** was first seen then, or keeps its time. -/
theorem seenBy_of_leads {S : Setting} {w w' : World ι}
    (h : (S.outages ι).Leads (Proceeds clock) w w') :
    SeenBy w.database.committed clock w'.database.committed := by
  refine h.invariant
    (P := fun u : World ι => SeenBy w.database.committed clock u.database.committed) ?_ (.refl _ _)
  rintro u e _ hseen hproceeds ⟨-, rfl⟩
  rcases database_afterIncident S u e with heq | heq | ⟨_, _, _, _, _, rfl, hstep⟩
  · rw [heq]
    exact hseen
  · rw [heq]
    exact hseen
  · obtain rfl := show _ = clock from hproceeds
    exact hseen.delivered hstep

/-- Settling digests leaves everything in front of the exchange alone. -/
theorem keeps_settles {s t : Newsroom ι} (h : (P.careful F ι).Leads Settles s t) :
    t.world = s.world ∧ t.outbox = s.outbox ∧ t.bound = s.bound := by
  refine h.invariant
    (P := fun u : Newsroom ι => u.world = s.world ∧ u.outbox = s.outbox ∧ u.bound = s.bound) ?_
    ⟨rfl, rfl, rfl⟩
  rintro u e _ hsame hsettles ⟨⟨-, rfl⟩, -⟩
  cases e with
  | connects subscriber => cases subscriber <;> exact hsame
  | delivers | processes | drops => exact hsame
  | notifierReceives | webReceives =>
    unfold Newsroom.after
    dsimp only
    split <;> exact hsame
  | _ => exact hsettles.elim

/-! ## The stages -/

/-- What can happen to the five services, but for the pages and the readers. -/
theorem leads_finishes {s : Newsroom ι} (e : NewsEvent ι) (hfinishes : Finishes clock c e)
    (hpossible : s.Enabled e ∧ FedFrom P.setting F e) (hcareful : Careful P ⟨s, e, s.after P e⟩) :
    (P.careful F ι).Leads (Finishes clock c) s (s.after P e) :=
  .step hfinishes ⟨⟨hpossible, rfl⟩, hcareful⟩

/-- **What the pipeline can do, the whole can do.** -/
theorem leads_pipeline (s : Newsroom ι) {w : World ι}
    (h : (P.setting.outages ι).Leads (Proceeds clock) s.world w) :
    (P.careful F ι).Leads (Finishes clock c) s { s with world := w } := by
  refine h.map (fun w => { s with world := w }) ?_
  rintro u e _ hproceeds ⟨hpossible, rfl⟩
  have hfeeds : FedFrom P.setting F (.pipeline e) := by
    cases e with
    | event e => cases e <;> first | exact trivial | exact hproceeds.elim
    | _ => exact trivial
  exact leads_finishes (.pipeline e) hproceeds ⟨hpossible, hfeeds⟩ ⟨fun _ => trivial, trivial⟩

/-- **Both queues can be bound.** -/
theorem leads_bound (clock : Clock) (c : Circumstances) (s : Newsroom ι) :
    ∃ bound, (P.careful F ι).Leads (Finishes clock c) s { s with bound := bound } ∧
      ∀ queue, queue ∈ bound := by
  have hbinds : ∀ (s : Newsroom ι) queue,
      (P.careful F ι).Leads (Finishes clock c) s (s.after P (.binds queue)) := fun s queue =>
    leads_finishes (.binds queue) trivial ⟨trivial, trivial⟩ ⟨fun _ => trivial, trivial⟩
  have hself : ∀ (queue : Subscriber) bound,
      queue ∈ if queue ∈ bound then bound else bound ++ [queue] := by
    intro queue bound
    split
    · assumption
    · exact List.mem_append_right _ (List.mem_singleton_self _)
  have hother : ∀ {queue : Subscriber} (other : Subscriber) {bound : List Subscriber},
      queue ∈ bound → queue ∈ if other ∈ bound then bound else bound ++ [other] := by
    intro queue other bound hqueue
    split
    · exact hqueue
    · exact List.mem_append_left _ hqueue
  refine ⟨_, (hbinds s .digestNotifier).trans (hbinds _ .digestWeb), fun queue => ?_⟩
  cases queue with
  | digestNotifier => exact hother .digestWeb (hself _ _)
  | digestWeb => exact hself _ _

/-- **The exchange processes what is on the connection**, and both queues get it. -/
theorem leads_exchanged (clock : Clock) (c : Circumstances) {s : Newsroom ι}
    (h : (P.careful F ι).Reachable s)
    (hbound : ∀ queue, queue ∈ s.bound) :
    ∃ t, (P.careful F ι).Leads (Finishes clock c) s t ∧ t.outbox = [] ∧
      (∀ queue, t.broker.acceptedIn queue = s.broker.acceptedIn queue ++ s.outbox) ∧
      t.broker.removed = s.broker.removed ∧ t.digests = s.digests ∧ t.world = s.world ∧
      t.bound = s.bound := by
  obtain ⟨tr, hrun⟩ := h
  have hnodup := (wired_of_reachable hrun.of_guarded.1.reachable).bound
  let Q (t : Newsroom ι) : Prop :=
    (∀ queue, t.broker.acceptedIn queue ++ t.outbox = s.broker.acceptedIn queue ++ s.outbox) ∧
    t.broker.removed = s.broker.removed ∧ t.digests = s.digests ∧ t.world = s.world ∧
    t.bound = s.bound
  have hstep : ∀ t, Q t → t.outbox ≠ [] → ∃ u, (P.careful F ι).Leads (Finishes clock c) t u ∧ Q u ∧
      u.outbox.length < t.outbox.length := by
    rintro t ⟨haccepted, hremoved, hdigests, hworld, hsame⟩ hmore
    obtain ⟨payload, rest, houtbox⟩ := List.exists_cons_of_ne_nil hmore
    have hafter : t.after P .exchanges = { t with
        outbox := rest
        exchanged := t.exchanged ++ [payload]
        broker := t.broker.fanOut t.bound payload } := by
      unfold Newsroom.after
      rw [houtbox]
    refine ⟨t.after P .exchanges,
      leads_finishes .exchanges trivial ⟨trivial, trivial⟩ ⟨fun _ => trivial, trivial⟩, ?_⟩
    rw [hafter, houtbox]
    refine ⟨⟨fun queue => ?_, ?_, hdigests, hworld, hsame⟩, Nat.lt_succ_self _⟩
    · dsimp only
      rw [Broker.acceptedIn_fanOut (hsame ▸ hnodup), if_pos (hsame ▸ hbound queue),
        List.append_assoc, ← haccepted queue, houtbox]
      rfl
    · exact (Broker.removed_fanOut t.bound payload t.broker).trans hremoved
  obtain ⟨t, hleads, ⟨haccepted, hsame⟩, hdone⟩ := TransitionSystem.exists_leads_of_variant
    (fun t : Newsroom ι => t.outbox.length) hstep ⟨fun _ => rfl, rfl, rfl, rfl, rfl⟩
  refine ⟨t, hleads, hdone, fun queue => ?_, hsame⟩
  have hall := haccepted queue
  rwa [hdone, List.append_nil] at hall

/-- Nothing waits in the queues of the readers, nor in front of the exchange. -/
structure AllRead (s : Newsroom ι) : Prop where
  settled : ∀ queue, s.broker.queues queue = [] ∧ s.broker.outstanding queue = 0
  outbox : s.outbox = []
  bound : ∀ queue, queue ∈ s.bound

/-- **The readers get what is on the connection**: the directory and the page are what they make of
it then. -/
theorem leads_allRead (clock : Clock) (c : Circumstances) {s : Newsroom ι}
    (h : (P.careful F ι).Reachable s)
    (hbound : ∀ queue, queue ∈ s.bound) :
    ∃ t, (P.careful F ι).Leads (Finishes clock c) s t ∧ AllRead t ∧ t.world = s.world ∧
      SameFiles t.files (archive P.setting.nlohmann P.notifier
        (s.broker.acceptedIn .digestNotifier ++ s.outbox)) ∧
      ∃ waiting, s.broker.acceptedIn .digestWeb ++ s.outbox =
        s.broker.removedFrom .digestWeb ++ waiting ∧
        t.digests = ((waiting.filterMap (P.setting.nlohmann.decode
          DigestReadyMessage.codec)).reverse ++ s.digests).take P.web.historySize.toNat := by
  obtain ⟨s₁, hleads₁, houtbox₁, haccepted₁, hremoved₁, hdigests₁, hworld₁, hbound₁⟩ :=
    leads_exchanged clock c h hbound
  obtain ⟨t, waiting, hleads, -, hsettled, hfiles, hsplit, hdigests⟩ :=
    readers_catch_up (h.leads hleads₁)
  obtain ⟨hworld, houtbox, hsame⟩ := keeps_settles hleads
  refine ⟨t, hleads₁.trans (hleads.mono fun _ => Settles.finishes),
    ⟨hsettled, houtbox.trans houtbox₁, fun queue => ?_⟩, hworld.trans hworld₁, ?_, waiting, ?_, ?_⟩
  · rw [hsame, hbound₁]
    exact hbound queue
  · rw [← haccepted₁]
    exact hfiles
  · rw [← haccepted₁, hsplit, Broker.removedFrom, Broker.removedFrom, hremoved₁]
  · rw [← hdigests₁]
    exact hdigests

/-- **Everything is stored**, nothing waits for the readers, and the storage service runs. -/
theorem leads_stored [Nonempty ι] (clock : Clock) (c : Circumstances) {s : Newsroom ι}
    (h : (P.careful F ι).Reachable s) :
    ∃ t, (P.careful F ι).Leads (Finishes clock c) s t ∧ AllRead t ∧
      s.world.broker.accepted <+: t.world.broker.accepted ∧
      (∀ queue, t.world.broker.queues queue = []) ∧
      Serves P.setting.storageService .parsedArticles t.world.storage t.world.broker ∧
      t.world.database.pending = none ∧
      SeenBy s.world.database.committed clock t.world.database.committed := by
  obtain ⟨w, hstores, haccepted, hqueues, hserves, hclosed⟩ :=
    leads_allDone (S := P.setting) clock s.world
  let s₁ : Newsroom ι := { s with world := w }
  have hleads₁ : (P.careful F ι).Leads (Finishes clock c) s s₁ := leads_pipeline s hstores
  obtain ⟨bound, hbinds, hbound⟩ := leads_bound (P := P) (F := F) clock c s₁
  obtain ⟨t, hleads, hread, hworld, -⟩ :=
    leads_allRead clock c ((h.leads hleads₁).leads hbinds) hbound
  have hworld : t.world = w := hworld
  refine ⟨t, hleads₁.trans (hbinds.trans hleads), hread, ?_⟩
  rw [hworld]
  exact ⟨haccepted, hqueues, hserves, hclosed, seenBy_of_leads hstores⟩

/-- **The timer fires**, and the readers get what the tick hands over. -/
theorem leads_ticked (clock : Clock) (c : Circumstances) {s : Newsroom ι}
    (h : (P.careful F ι).Reachable s) (hread : AllRead s)
    (hstarted : s.world.storage.state = started P.setting.storageService) :
    ∃ t, (P.careful F ι).Leads (Finishes clock c) s t ∧ AllRead t ∧ t.world = s.world ∧
      SameFiles t.files (archive P.setting.nlohmann P.notifier
        (s.broker.acceptedIn .digestNotifier ++ s.ticked P c true)) ∧
      t.digests = (((s.ticked P c true).filterMap (P.setting.nlohmann.decode
        DigestReadyMessage.codec)).reverse ++ s.digests).take P.web.historySize.toNat := by
  have henabled : s.world.storage.state.Enabled .timerFires := by
    rw [hstarted]
    rfl
  have hticks : (P.careful F ι).Leads (Finishes clock c) s (s.after P (.ticks c true)) :=
    leads_finishes (.ticks c true) rfl ⟨henabled, trivial⟩ ⟨fun _ => trivial, trivial⟩
  have houtbox : (s.after P (.ticks c true)).outbox = s.ticked P c true := by
    show s.outbox ++ _ = _
    rw [hread.outbox, List.nil_append]
  obtain ⟨t, hleads, hreadAll, hworld, hfiles, waiting, hsplit, hdigests⟩ :=
    leads_allRead clock c (h.leads hticks) hread.bound
  rw [houtbox] at hfiles hsplit
  -- nothing waited before, so what waits is what the tick has handed over
  obtain ⟨log, hlogs⟩ := (kept_of_reachable h).logged
  obtain ⟨hall, -⟩ := hlogs.order.finished (hread.settled .digestWeb).1
    (hread.settled .digestWeb).2
  have hremoved : (s.after P (.ticks c true)).broker.removedFrom .digestWeb =
    s.broker.acceptedIn .digestWeb := hall
  rw [hremoved] at hsplit
  obtain rfl : s.ticked P c true = waiting := List.append_cancel_left hsplit
  exact ⟨t, hticks.trans hleads, hreadAll, hworld, hfiles, hdigests⟩

/-! ## All of it -/

/-- The digest of a tick that reads a table. -/
def Press.digest (P : Press) (c : Circumstances) (t : Table) : DigestReadyMessage :=
  digestMessage P.storage c (topArticles P.setting.nlohmann P.rounding c.now
    P.storage.digestPeriodHours P.storage.digestTopN P.storage.weights t)

/-- A time that the window of a tick reaches back to. -/
def Press.Recent (P : Press) (c : Circumstances) (epoch : ℤ) : Prop :=
  c.now - (P.storage.digestPeriodHours.toNat : ℤ) * 3600 ≤ epoch

/-- There is room for the whole window. -/
def Press.HasRoom (P : Press) (c : Circumstances) (t : Table) : Prop :=
  (t.rows.filter (Row.inWindow c.now P.storage.digestPeriodHours)).length ≤
    P.storage.digestTopN.toNat

/-- **A row that is recent is in the digest**, if there is room. -/
theorem exists_mem_digest {t : Table} (hplain : PlainIds t) {row : Row} (hrow : row ∈ t.rows)
    (hroom : P.HasRoom c t) (hrecent : P.Recent c row.firstSeenEpoch) :
    ∃ e ∈ (P.digest c t).articles, e.articleId = row.articleId :=
  (mem_topArticles_iff P.setting.nlohmann P.rounding c.now P.storage.digestPeriodHours
    P.storage.digestTopN P.storage.weights hplain (KeyedTable.mem_rows_iff.mp hrow)).2 hroom
    (decide_eq_true hrecent)

omit [DecidableEq ι] in
/-- **What a tick hands over** when no transaction is open, if the digest is not empty and its scores
are finite: one payload, and it decodes. -/
theorem ticked_eq {s : Newsroom ι} (hstarted : s.world.storage.state =
      started P.setting.storageService) (hclosed : s.world.database.pending = none)
    (htext : IsText s.world.database.committed) (hqueried : c.queried = true)
    (hnonempty : (P.digest c s.world.database.committed).articles ≠ [])
    (hfinite : ∀ e ∈ (P.digest c s.world.database.committed).articles, e.score.isFinite = true) :
    ∃ payload, s.ticked P c true = [payload] ∧
      P.setting.nlohmann.decode DigestReadyMessage.codec payload =
        some (P.digest c s.world.database.committed) := by
  have hvisible : s.world.database.visible = s.world.database.committed := by
    rw [Connection.visible, hclosed]
    rfl
  obtain ⟨payload, hpublished⟩ :=
    exists_publishDigest P.setting.nlohmann P.rounding P.storage htext hqueried hnonempty
  refine ⟨payload, ?_, ((accepted_iff_isFinite (publishDigest_handed hpublished).2).mpr
    hfinite).decodes⟩
  rw [Newsroom.ticked, hvisible, hpublished, hstarted]
  exact if_pos (publishTo_started _)

/-- **What was fetched reaches its readers**, whatever has happened: every state leads, without a
new page and without a restart of a reader, to one in which nothing waits anywhere, and in which the
page and `latest.md` show the digest of what is stored.  Every article of every page that was ever
accepted is in it, if there is room, unless it was stored before and is too old by now. -/
theorem reaches_readers [Nonempty ι] (hbase : Utf8.Valid P.setting.htmlParser.baseUrl)
    (hsize : 0 < P.web.historySize.toNat) {s : Newsroom ι} (h : (P.careful F ι).Reachable s)
    (clock : Clock) (hqueried : c.queried = true) (hclock : P.Recent c clock.epoch) :
    ∃ t, (P.careful F ι).Leads (Finishes clock c) s t ∧
      s.world.broker.accepted <+: t.world.broker.accepted ∧
      (∀ queue, t.world.broker.queues queue = [] ∧ t.world.broker.outstanding queue = 0) ∧
      AllRead t ∧
      (P.HasRoom c t.world.database.committed →
        ∀ page, (.rawArticles, page) ∈ t.world.broker.accepted →
          ∀ raw, P.setting.nlohmann.decode RawArticlesMessage.codec page = some raw →
            ∀ a ∈ (P.setting.htmlParser.parse raw.rawHtml).articles,
              (∀ old ∈ s.world.database.committed.rows, old.articleId = a.articleId.cString →
                P.Recent c old.firstSeenEpoch) →
              ∃ e ∈ (P.digest c t.world.database.committed).articles,
                e.articleId = a.articleId.cString) ∧
      ((P.digest c t.world.database.committed).articles ≠ [] →
        (∀ e ∈ (P.digest c t.world.database.committed).articles, e.score.isFinite = true) →
          t.digests.head? = some (P.digest c t.world.database.committed) ∧
          t.files (latestFile P.notifier) =
            some (renderDigestMarkdown (P.digest c t.world.database.committed))) := by
  obtain ⟨u, hstores, hread, haccepted, hqueues, hserves, hclosed, hseen⟩ := leads_stored clock c h
  have hcareful := h.leads hstores
  obtain ⟨t, hticks, hreadAll, hworld, hfiles, hdigests⟩ :=
    leads_ticked clock c hcareful hread hserves.state
  obtain ⟨tr, hrun⟩ := hcareful
  have hplain := hrun.of_guarded.1.reachable
  refine ⟨t, hstores.trans hticks, ?_⟩
  rw [hworld]
  refine ⟨haccepted, fun queue => ⟨hqueues queue, hserves.calm.outstanding queue⟩, hreadAll,
    fun hroom page hpage raw hraw a ha hold => ?_, fun hnonempty hfinite => ?_⟩
  · obtain ⟨trw, hrunw⟩ := world_of_reachable hplain
    have hstored := (pages_accounted hrunw fun m _ e _ => encodes_of_valid hbase _).pageStored
      hserves.calm hqueues hpage
    obtain ⟨row, hrow, hid⟩ := hstored raw hraw a ha
    have hrecent : P.Recent c row.firstSeenEpoch := by
      rcases hseen row hrow with hnew | ⟨old, hmem, holdId, hepoch⟩
      · rw [hnew]
        exact hclock
      · rw [← hepoch]
        exact hold old hmem (holdId.trans hid)
    rw [← hid]
    exact exists_mem_digest (sound_of_reachable hplain).committed hrow hroom hrecent
  · obtain ⟨payload, hticked, hdecode⟩ := ticked_eq hserves.state hclosed
      (holdsText_of_newsroom hplain).committed hqueried hnonempty hfinite
    rw [hticked] at hfiles hdigests
    refine ⟨?_, ?_⟩
    · rw [hdigests, List.head?_take, if_neg hsize.ne', List.filterMap_cons_some hdecode]
      rfl
    · rw [hfiles _ (not_isTemporary_latestFile _), archive_latestFile, List.filterMap_append,
        List.filterMap_cons_some hdecode, List.getLast?_append]
      rfl

/-! ## A page that nobody has read -/

/-- The only page is with a parser that died; nothing is stored and no queue is bound. -/
def nothingRead : List (NewsEvent Unit) := parserGone.map .pipeline

theorem run_nothingRead : (smallPress.careful onePage Unit).Run
    (TransitionSystem.moves (Newsroom.after smallPress) {} nothingRead)
    (nothingRead.foldl (Newsroom.after smallPress) {}) := by
  have hstep : ∀ (s : Newsroom Unit) e, CanHappen s e →
      (smallPress.system onePage Unit).step s e (s.after smallPress e) := fun _ _ h => ⟨h, rfl⟩
  have hstart : (smallPress.system onePage Unit).Run [] {} := .start rfl
  have hplain : (smallPress.system onePage Unit).Run
      (TransitionSystem.moves (Newsroom.after smallPress) {} nothingRead)
      (nothingRead.foldl (Newsroom.after smallPress) {}) :=
    hstart.append_moves hstep nothingRead ⟨⟨trivial, mem_pages_onePage⟩, ⟨rfl, trivial⟩,
      ⟨⟨⟨_, rfl, rfl⟩, _, rfl, rfl, rfl⟩, trivial⟩, ⟨trivial, trivial⟩, ⟨trivial, trivial⟩, trivial⟩
  refine hplain.guarded fun ⟨pre, e, post⟩ hm => ?_
  obtain ⟨incident, -, rfl⟩ := List.mem_map.mp (TransitionSystem.event_mem_of_mem_moves hm)
  exact ⟨fun _ => trivial, trivial⟩

/-- A day and an hour later the article of the page can still be read. -/
theorem reaches_readers_nothingRead :
    let s := nothingRead.foldl (Newsroom.after smallPress) {}
    let c : Circumstances := ⟨90001, 90001, 7, true⟩
    s.world.database.committed.rows = [] ∧ s.bound = [] ∧
    ∃ t, (smallPress.careful onePage Unit).Leads (Finishes ⟨90000, 90000⟩ c) s t ∧
      (smallPress.HasRoom c t.world.database.committed →
        ∃ e ∈ (smallPress.digest c t.world.database.committed).articles,
          e.articleId = utf8 "1") ∧
      ((smallPress.digest c t.world.database.committed).articles ≠ [] →
        (∀ e ∈ (smallPress.digest c t.world.database.committed).articles,
          e.score.isFinite = true) →
          t.digests.head? = some (smallPress.digest c t.world.database.committed)) := by
  intro s c
  have hempty : s.world.database.committed.rows = [] := by decide +kernel
  have hpage : (.rawArticles, page) ∈ s.world.broker.accepted := by decide +kernel
  have hraw : smallPress.setting.nlohmann.decode RawArticlesMessage.codec page =
    some { rawHtml := utf8 "<html>" } := by decide +kernel
  have harticle : ∃ a ∈ (smallPress.setting.htmlParser.parse (utf8 "<html>")).articles,
    a.articleId.cString = utf8 "1" := by decide +kernel
  obtain ⟨t, hleads, haccepted, -, -, hstored, hshown⟩ := reaches_readers (c := c)
    (by decide +kernel) (by decide) run_nothingRead.reachable ⟨90000, 90000⟩ rfl
    (show (90001 : ℤ) - _ ≤ 90000 by decide)
  refine ⟨hempty, rfl, t, hleads, fun hroom => ?_,
    fun hnonempty hfinite => (hshown hnonempty hfinite).1⟩
  obtain ⟨a, ha, hid⟩ := harticle
  rw [← hid]
  refine hstored hroom page (haccepted.subset hpage) _ hraw a ha fun old hold => ?_
  exact absurd (hempty ▸ hold) List.not_mem_nil

end Pipeline
end HabrDigest
