import HabrDigest.Lib.Draining
import HabrDigest.Pipeline.Outages
import HabrDigest.Storage.Atomicity

/-!
# The pipeline can catch up

`pages_accounted` says that a page that is not done is waiting somewhere.  Waiting could be forever:
on a link of a process that died, behind a message that no consumer gets rid of, or in front of a
database with a transaction that nobody closes.  `catches_up` says that it never comes to that.
From every state there is a way, without any new message, to a state in which both queues are empty,
nothing is under way, and every article of every page that was ever published has a row.

The way is the one that an operator would take.  The broker drops the links, which brings back
whatever they held; one parser is started again and serves the pages; then the storage service is
started again, which rolls the database back, and serves the messages.  Each service does its part in
this: no payload is requeued if it can be published and stored (`decision_handleRawArticles`,
`handleParsedArticles_succeed`), so no message stands in the way of the ones behind it.
-/

namespace HabrDigest
namespace Pipeline

open Messaging HabrDigest.Parser Storage Sqlite

/-! ## No message is in the way -/

/-- A page is requeued only when its articles cannot be published. -/
theorem decision_handleRawArticles (n : Nlohmann) (p : HtmlParser) (now : ℤ) (payload : Bytes) :
    (handleRawArticles n p now true payload).decision ≠ .kRequeue := by
  unfold handleRawArticles
  cases n.decode RawArticlesMessage.codec payload with
  | none => exact Ack.noConfusion
  | some raw =>
    dsimp only
    by_cases hempty : (p.parse raw.rawHtml).articles = []
    · rw [if_pos hempty]
      exact Ack.noConfusion
    · rw [if_neg hempty]
      cases n.encode ParsedArticlesMessage.codec (parsedMessage raw (p.parse raw.rawHtml).articles
        now) with
      | none => exact Ack.noConfusion
      | some out => exact Ack.noConfusion

/-- A message is requeued only when a call of SQLite fails, or a transaction is open. -/
theorem handleParsedArticles_succeed (n : Nlohmann) (clock : Clock) (payload : Bytes)
    {c : Connection Table} (hclosed : c.pending = none) :
    (handleParsedArticles n .succeed true clock payload c).1 ≠ .kRequeue ∧
      (handleParsedArticles n .succeed true clock payload c).2.pending = none := by
  unfold handleParsedArticles
  cases hparsed : n.decode ParsedArticlesMessage.codec payload with
  | none => exact ⟨Ack.noConfusion, hclosed⟩
  | some m =>
    obtain ⟨j, hj, hfrom⟩ := Option.bind_eq_some_iff.mp hparsed
    have hvalid := ParsedArticlesMessage.valid_of_decode (n.validUtf8_of_parse _ _ hj) hfrom
    have hencodable : Encodable m.articles := fun a ha hub hhub => hvalid hub <| by
      simp only [ParsedArticlesMessage.strings, List.mem_append, List.mem_flatMap]
      exact Or.inr ⟨a, ha, by simp [ParsedArticle.strings, hhub]⟩
    obtain ⟨rows, hrows⟩ := Option.isSome_iff_exists.mp
      ((batchRows_isSome_iff n clock m.traceId m.articles).mpr hencodable)
    have houtcome := upsertBatch_outcome n .succeed clock m.articles m.traceId c
    dsimp only
    generalize upsertBatch n .succeed clock m.articles m.traceId c = result at houtcome
    obtain ⟨written, c'⟩ := result
    cases houtcome with
    | empty hempty => exact ⟨Ack.noConfusion, hclosed⟩
    | notBegun _ h => exact absurd h (by simpa [Calls.succeed] using hclosed)
    | notInserted _ _ _ h => exact absurd ⟨rfl, fun _ _ => rfl, hrows⟩ (h rows)
    | committed rows _ _ _ h _ => exact ⟨Ack.noConfusion, rfl⟩
    | notCommitted _ _ _ _ _ hcommit => exact absurd hcommit (by simp [Calls.succeed])

/-! ## What happens without new messages -/

/-- Nobody publishes a message from outside. -/
def NoArrival {ι : Type} (e : Incident ι) : Prop :=
  ∀ queue payload, e ≠ .event (.arrives queue payload)

/-- The same, and whatever is stored is stored at one time. -/
def Proceeds {ι : Type} (clock : Clock) : Incident ι → Prop
  | .event (.arrives _ _) => False
  | .event (.storageReceives _ _ now _) => now = clock
  | _ => True

variable {ι : Type} [DecidableEq ι] {S : Setting} {clock : Clock}

omit [DecidableEq ι] in
theorem Proceeds.noArrival {e : Incident ι} (h : Proceeds clock e) : NoArrival e := by
  rintro queue payload rfl
  exact h

/-- What is always possible. -/
theorem leads_incident {s : World ι} (e : Incident ι) (hproceeds : Proceeds clock e)
    (hpossible : s.Possible e) : (S.outages ι).Leads (Proceeds clock) s (s.afterIncident S e) :=
  .step hproceeds ⟨hpossible, rfl⟩

theorem leads_dropUpTo (n : ℕ) (s : World ι) :
    (S.outages ι).Leads (Proceeds clock) s { s with broker := s.broker.dropUpTo n } := by
  induction n with
  | zero => exact .refl s
  | succ n ih =>
    rw [Broker.dropUpTo_succ]
    exact ih.trans (leads_incident (.event (.drops n)) trivial trivial)

theorem leads_process (link k : ℕ) (s : World ι) :
    (S.outages ι).Leads (Proceeds clock) s
      { s with broker := (Broker.process link)^[k] s.broker } := by
  induction k with
  | zero => exact .refl s
  | succ k ih =>
    rw [Function.iterate_succ_apply']
    exact ih.trans (leads_incident (.event (.processes link)) trivial trivial)

/-! ## Starting again -/

/-- A process after it was started and its channel got ready. -/
def started (service : Service) : State :=
  (State.constructed.after service (.run true)).after service .channelReady

theorem handshaking_run (service : Service) :
    (State.constructed.after service (.run true)).Handshaking :=
  ⟨⟨_, rfl, rfl⟩, _, rfl, rfl, rfl⟩

/-- A process that was started can publish. -/
theorem publishTo_started (service : Service) : (started service).publishTo true = true := by
  obtain ⟨policy, timer⟩ := service
  cases timer <;> rfl

/-- Nothing is under way, and a process that was started can be served from its queue. -/
structure Serves (service : Service) (source : Queue) (inst : Instance) (b : Broker Queue Bytes) :
    Prop where
  calm : b.Calm
  link : ∃ j l, inst.link = some j ∧ b.links[j]? = some l ∧ Broker.Works source l
  state : inst.state = started service

/-- **A process that is started serves**, on a link of its own. -/
theorem serves_started (service : Service) (source : Queue) {b : Broker Queue Bytes}
    (hcalm : b.Calm) :
    Serves service source ⟨started service, some b.links.length⟩ (b.connect source) where
  calm l hl := by
    rcases List.mem_append.mp hl with hold | hnew
    · exact hcalm l hold
    · rw [List.mem_singleton.mp hnew]
      exact ⟨rfl, rfl⟩
  link := ⟨_, _, rfl, List.getElem?_concat_length, rfl, rfl, rfl, rfl⟩
  state := rfl

/-- **A parser is started again.** -/
theorem leads_parserServes {s : World ι} (hcalm : s.broker.Calm) (i : ι) :
    ∃ t, (S.outages ι).Leads (Proceeds clock) s t ∧ Serves S.parserService .rawArticles (t.parsers i) t.broker ∧
      t.broker.accepted = s.broker.accepted := by
  let s₁ : World ι := { s with parsers := Function.update s.parsers i {} }
  let s₂ : World ι := s₁.afterIncident S (.event (.parserCallback i (.run true)))
  let s₃ : World ι := s₂.afterIncident S (.event (.parserCallback i .channelReady))
  have hself₁ : s₁.parsers i = {} := Function.update_self ..
  have hself₂ : s₂.parsers i =
      ⟨State.constructed.after S.parserService (.run true), some s.broker.links.length⟩ := by
    refine (Function.update_self ..).trans ?_
    rw [hself₁]
  have hself₃ : s₃.parsers i = ⟨started S.parserService, some s.broker.links.length⟩ := by
    refine (Function.update_self ..).trans ?_
    rw [hself₂]
    rfl
  have hbroker : s₃.broker = s.broker.connect .rawArticles := by
    show (((s₁.parsers i).callback S.parserService .rawArticles (.run true) s.broker).2) = _
    rw [hself₁]
    rfl
  have hdies : (S.outages ι).Leads (Proceeds clock) s s₁ :=
    leads_incident (.parserDies i) trivial trivial
  have hruns : (S.outages ι).Leads (Proceeds clock) s₁ s₂ := by
    refine leads_incident _ trivial ?_
    show (s₁.parsers i).state.Enabled (.run true)
    rw [hself₁]
    exact rfl
  have hready : (S.outages ι).Leads (Proceeds clock) s₂ s₃ := by
    refine leads_incident _ trivial ?_
    show (s₂.parsers i).state.Enabled .channelReady
    rw [hself₂]
    exact handshaking_run S.parserService
  refine ⟨s₃, hdies.trans (hruns.trans hready), ?_, ?_⟩
  · rw [hself₃, hbroker]
    exact serves_started S.parserService .rawArticles hcalm
  · rw [hbroker]
    rfl

/-- **The storage service is started again**, and no transaction is open. -/
theorem leads_storageServes {s : World ι} (hcalm : s.broker.Calm) :
    ∃ t, (S.outages ι).Leads (Proceeds clock) s t ∧ Serves S.storageService .parsedArticles t.storage t.broker ∧
      t.database.pending = none ∧ t.broker.accepted = s.broker.accepted ∧
      t.broker.queues = s.broker.queues := by
  let s₁ : World ι := { s with storage := {}, database := s.database.rollback }
  let s₂ : World ι := s₁.afterIncident S (.event (.storageCallback (.run true)))
  let s₃ : World ι := s₂.afterIncident S (.event (.storageCallback .channelReady))
  have hdies : (S.outages ι).Leads (Proceeds clock) s s₁ :=
    leads_incident .storageDies trivial trivial
  have hruns : (S.outages ι).Leads (Proceeds clock) s₁ s₂ :=
    leads_incident _ trivial rfl
  have hready : (S.outages ι).Leads (Proceeds clock) s₂ s₃ :=
    leads_incident _ trivial (handshaking_run S.storageService)
  exact ⟨s₃, hdies.trans (hruns.trans hready),
    serves_started S.storageService .parsedArticles hcalm, rfl, rfl, rfl⟩

/-! ## One message -/

theorem settlement_eq_requeue_iff {decision : Ack} :
    settlement decision = .requeue ↔ decision = .kRequeue := by
  cases decision <;> simp [settlement]

/-- What a parser answers when a page is there. -/
theorem after_parserReceives {s : World ι} {i : ι} {link tag : ℕ} {payload : Bytes}
    {broker : Broker Queue Bytes}
    (hreceive : (s.parsers i).receive s.broker = some (link, tag, payload, broker)) (now : ℤ)
    (publishes : Bool) (through : ℕ) :
    let handled := handleRawArticles S.nlohmann S.htmlParser now
      ((s.parsers i).state.publishTo publishes) payload
    s.after S (.parserReceives i now publishes through) = { s with
      broker := broker.send link (Broker.answer
        (handled.published.map fun out => (Queue.parsedArticles, out)) tag
        (settlement handled.decision)) through } := by
  unfold World.after
  dsimp only
  rw [hreceive]

/-- What the storage service does when a message is there. -/
theorem after_storageReceives {s : World ι} {link tag : ℕ} {payload : Bytes}
    {broker : Broker Queue Bytes}
    (hreceive : s.storage.receive s.broker = some (link, tag, payload, broker)) (calls : Calls)
    (counts : Bool) (clock : Clock) (through : ℕ) :
    let handled := handleParsedArticles S.nlohmann calls counts clock payload s.database
    s.after S (.storageReceives calls counts clock through) = { s with
      broker := broker.send link (Broker.answer [] tag (settlement handled.1)) through
      database := handled.2
      batches := s.batches ++ committedBatch S.nlohmann calls clock payload s.database } := by
  unfold World.after
  dsimp only
  rw [hreceive]

/-- A process receives what is on its link. -/
theorem receive_of_link {inst : Instance} {b b' : Broker Queue Bytes} {link tag : ℕ}
    {payload : Bytes} (hlink : inst.link = some link)
    (hreceive : b.receive link = some (tag, payload, b')) :
    inst.receive b = some (link, tag, payload, b') := by
  rw [Instance.receive, hlink, Option.bind_some, hreceive]
  rfl

/-- **A parser serves the page in front**, and the page is gone. -/
theorem leads_parserReceives {s : World ι} {i : ι} (h : Serves S.parserService .rawArticles (s.parsers i) s.broker)
    {payload : Bytes} {rest : List Bytes}
    (hqueue : s.broker.queues .rawArticles = payload :: rest) :
    ∃ t, (S.outages ι).Leads (Proceeds clock) s t ∧ Serves S.parserService .rawArticles (t.parsers i) t.broker ∧
      s.broker.accepted <+: t.broker.accepted ∧ t.broker.queues .rawArticles = rest := by
  obtain ⟨j, l, hlink, hl, hworks⟩ := h.link
  obtain ⟨tag, b', hreceive, hserved⟩ := Broker.serve_spec h.calm hl hworks hqueue
  let handled := handleRawArticles S.nlohmann S.htmlParser 0 true payload
  let messages := handled.published.map fun out => (Queue.parsedArticles, out)
  have hfinal : settlement handled.decision ≠ .requeue := fun heq =>
    decision_handleRawArticles S.nlohmann S.htmlParser 0 payload (settlement_eq_requeue_iff.mp heq)
  obtain ⟨hcalm, ⟨k, hk, hkworks⟩, haccepted, hqueues⟩ := hserved messages _ hfinal
  let s₁ : World ι := { s with broker := s.broker.deliver j 0 }
  let s₂ : World ι := { s with
    broker := b'.send j (Broker.answer messages tag (settlement handled.decision))
      (messages.length + 1) }
  have hdelivers : (S.outages ι).Leads (Proceeds clock) s s₁ :=
    leads_incident (.event (.delivers j 0)) trivial trivial
  have hreceives : (S.outages ι).Leads (Proceeds clock) s₁ s₂ := by
    have hafter := after_parserReceives (S := S) (s := s₁) (i := i)
      (receive_of_link hlink hreceive) 0 true (messages.length + 1)
    have hpublishes : (s₁.parsers i).state.publishTo true = true := by
      show (s.parsers i).state.publishTo true = true
      rw [h.state, publishTo_started]
    rw [hpublishes] at hafter
    have hstep : s₁.afterIncident S (.event (.parserReceives i 0 true (messages.length + 1))) =
      s₂ := hafter
    exact hstep ▸ leads_incident _ trivial trivial
  have hnone : Broker.ofQueue .rawArticles messages = [] := by simp [Broker.ofQueue, messages]
  refine ⟨_, hdelivers.trans (hreceives.trans (leads_process j (messages.length + 1) s₂)),
    ⟨hcalm, ⟨j, k, hlink, hk, hkworks⟩, h.state⟩, ⟨messages, haccepted.symm⟩, ?_⟩
  refine (hqueues .rawArticles).trans ?_
  rw [Function.update_self, hnone, List.append_nil]

/-- **The storage service serves the message in front**, and the message is gone. -/
theorem leads_storageReceives {s : World ι} (h : Serves S.storageService .parsedArticles s.storage s.broker)
    (hclosed : s.database.pending = none) {payload : Bytes} {rest : List Bytes}
    (hqueue : s.broker.queues .parsedArticles = payload :: rest) :
    ∃ t, (S.outages ι).Leads (Proceeds clock) s t ∧ Serves S.storageService .parsedArticles t.storage t.broker ∧
      t.database.pending = none ∧ t.broker.accepted = s.broker.accepted ∧
      t.broker.queues = Function.update s.broker.queues .parsedArticles rest := by
  obtain ⟨j, l, hlink, hl, hworks⟩ := h.link
  obtain ⟨tag, b', hreceive, hserved⟩ := Broker.serve_spec h.calm hl hworks hqueue
  let handled := handleParsedArticles S.nlohmann .succeed true clock payload s.database
  obtain ⟨hdecision, hstillClosed⟩ :=
    handleParsedArticles_succeed S.nlohmann clock payload hclosed
  obtain ⟨hcalm, ⟨k, hk, hkworks⟩, haccepted, hqueues⟩ := hserved [] (settlement handled.1)
    fun heq => hdecision (settlement_eq_requeue_iff.mp heq)
  let s₁ : World ι := { s with broker := s.broker.deliver j 0 }
  let s₂ : World ι := { s with
    broker := b'.send j (Broker.answer [] tag (settlement handled.1)) 1
    database := handled.2
    batches := s.batches ++ committedBatch S.nlohmann .succeed clock payload s.database }
  have hdelivers : (S.outages ι).Leads (Proceeds clock) s s₁ :=
    leads_incident (.event (.delivers j 0)) trivial trivial
  have hreceives : (S.outages ι).Leads (Proceeds clock) s₁ s₂ := by
    have hstep : s₁.afterIncident S (.event (.storageReceives .succeed true clock 1)) = s₂ :=
      after_storageReceives (s := s₁) (receive_of_link hlink hreceive) .succeed true clock 1
    exact hstep ▸ leads_incident _ (by exact rfl) trivial
  refine ⟨_, hdelivers.trans (hreceives.trans (leads_process j 1 s₂)),
    ⟨hcalm, ⟨j, k, hlink, hk, hkworks⟩, h.state⟩, hstillClosed, ?_, funext fun q => ?_⟩
  · exact haccepted.trans (List.append_nil _)
  · exact (hqueues q).trans (List.append_nil _)

/-! ## All of them -/

/-- **The parser serves every page.** -/
theorem leads_parserDone {s : World ι} {i : ι}
    (h : Serves S.parserService .rawArticles (s.parsers i) s.broker) :
    ∃ t, (S.outages ι).Leads (Proceeds clock) s t ∧ t.broker.Calm ∧
      s.broker.accepted <+: t.broker.accepted ∧ t.broker.queues .rawArticles = [] := by
  let P (t : World ι) : Prop := Serves S.parserService .rawArticles (t.parsers i) t.broker ∧
    s.broker.accepted <+: t.broker.accepted
  have hstep : ∀ t, P t → t.broker.queues .rawArticles ≠ [] →
      ∃ u, (S.outages ι).Leads (Proceeds clock) t u ∧ P u ∧
        (u.broker.queues .rawArticles).length < (t.broker.queues .rawArticles).length := by
    rintro t ⟨hserves, haccepted⟩ hmore
    obtain ⟨payload, rest, hqueue⟩ := List.exists_cons_of_ne_nil hmore
    obtain ⟨u, hleads, hserves', hgrows, hrest⟩ := leads_parserReceives (S := S) hserves hqueue
    exact ⟨u, hleads, ⟨hserves', haccepted.trans hgrows⟩, by simp [hrest, hqueue]⟩
  obtain ⟨t, hleads, ⟨hserves, haccepted⟩, hdone⟩ :=
    TransitionSystem.exists_leads_of_variant _ hstep ⟨h, List.prefix_rfl⟩
  exact ⟨t, hleads, hserves.calm, haccepted, hdone⟩

/-- **The storage service serves every message.** -/
theorem leads_storageDone {s : World ι} (h : Serves S.storageService .parsedArticles s.storage s.broker)
    (hclosed : s.database.pending = none) :
    ∃ t, (S.outages ι).Leads (Proceeds clock) s t ∧
      Serves S.storageService .parsedArticles t.storage t.broker ∧ t.database.pending = none ∧
      t.broker.accepted = s.broker.accepted ∧
      t.broker.queues .rawArticles = s.broker.queues .rawArticles ∧
      t.broker.queues .parsedArticles = [] := by
  let P (t : World ι) : Prop := Serves S.storageService .parsedArticles t.storage t.broker ∧
    t.database.pending = none ∧ t.broker.accepted = s.broker.accepted ∧
    t.broker.queues .rawArticles = s.broker.queues .rawArticles
  have hstep : ∀ t, P t → t.broker.queues .parsedArticles ≠ [] →
      ∃ u, (S.outages ι).Leads (Proceeds clock) t u ∧ P u ∧
        (u.broker.queues .parsedArticles).length < (t.broker.queues .parsedArticles).length := by
    rintro t ⟨hserves, hclosed, haccepted, hraw⟩ hmore
    obtain ⟨payload, rest, hqueue⟩ := List.exists_cons_of_ne_nil hmore
    obtain ⟨u, hleads, hserves', hclosed', hsame, hrest⟩ :=
      leads_storageReceives (S := S) hserves hclosed hqueue
    refine ⟨u, hleads, ⟨hserves', hclosed', hsame.trans haccepted, ?_⟩, ?_⟩
    · rw [hrest, Function.update_of_ne (by simp), hraw]
    · rw [hrest, Function.update_self, hqueue]
      exact Nat.lt_succ_self _
  obtain ⟨t, hleads, ⟨hserves, hclosed, haccepted, hraw⟩, hdone⟩ :=
    TransitionSystem.exists_leads_of_variant _ hstep ⟨h, hclosed, rfl, rfl⟩
  exact ⟨t, hleads, hserves, hclosed, haccepted, hraw, hdone⟩

/-- **Everything is served**: in the end nothing waits, no transaction is open, and the storage
service runs. -/
theorem leads_allDone [Nonempty ι] (clock : Clock) (s : World ι) :
    ∃ t, (S.outages ι).Leads (Proceeds clock) s t ∧ s.broker.accepted <+: t.broker.accepted ∧
      (∀ queue, t.broker.queues queue = []) ∧
      Serves S.storageService .parsedArticles t.storage t.broker ∧ t.database.pending = none := by
  obtain ⟨i⟩ := ‹Nonempty ι›
  obtain ⟨hcalm, hsame⟩ := Broker.calm_dropAll s.broker
  obtain ⟨s₁, hleads₁, hserves₁, haccepted₁⟩ := leads_parserServes (S := S)
    (s := { s with broker := s.broker.dropUpTo s.broker.links.length }) hcalm i
  obtain ⟨s₂, hleads₂, hcalm₂, haccepted₂, hraw₂⟩ := leads_parserDone (S := S) hserves₁
  obtain ⟨s₃, hleads₃, hserves₃, hclosed₃, haccepted₃, hqueues₃⟩ :=
    leads_storageServes (S := S) hcalm₂
  obtain ⟨t, hleads₄, hserves₄, hclosed₄, haccepted₄, hraw₄, hparsed₄⟩ :=
    leads_storageDone (S := S) hserves₃ hclosed₃
  refine ⟨t, (leads_dropUpTo _ s).trans (hleads₁.trans (hleads₂.trans (hleads₃.trans hleads₄))),
    ?_, fun queue => ?_, hserves₄, hclosed₄⟩
  · rw [haccepted₄, haccepted₃, ← hsame, ← haccepted₁]
    exact haccepted₂
  · cases queue with
    | rawArticles => rw [hraw₄, hqueues₃, hraw₂]
    | parsedArticles => exact hparsed₄

/-- Every article of a page has a row. -/
def PageStored (S : Setting) (s : World ι) (payload : Bytes) : Prop :=
  ∀ raw, S.nlohmann.decode RawArticlesMessage.codec payload = some raw →
    ∀ a ∈ (S.htmlParser.parse raw.rawHtml).articles,
      ∃ row ∈ s.database.committed.rows, row.articleId = a.articleId.cString

omit [DecidableEq ι] in
/-- Where nothing waits, every page that was published is stored. -/
theorem Accounted.pageStored {s : World ι} (h : Accounted S s) (hcalm : s.broker.Calm)
    (hqueues : ∀ queue, s.broker.queues queue = []) {payload : Bytes}
    (haccepted : (.rawArticles, payload) ∈ s.broker.accepted) : PageStored S s payload := by
  have hnothing : ∀ queue payload, ¬ Waits s queue payload := by
    rintro queue payload (hqueued | ⟨l, hl, -, hheld⟩)
    · rw [hqueues queue] at hqueued
      exact List.not_mem_nil hqueued
    · rw [Link.unsettled, (hcalm l hl).1] at hheld
      exact List.not_mem_nil hheld
  intro raw hraw a ha
  rcases (h.pages payload haccepted).resolve_left (hnothing _ _) with hnone | ⟨raw', hraw', hdone⟩
  · exact absurd (hnone.symm.trans hraw) (by simp)
  · obtain rfl := Option.some.inj (hraw.symm.trans hraw')
    rcases hdone with hempty | ⟨out, hout, m, hm, -, -, -, harticles⟩
    · rw [hempty] at ha
      exact absurd ha List.not_mem_nil
    · have hpublished : (Queue.parsedArticles, out) ∈ s.broker.accepted := by
        obtain ⟨⟨queue, p⟩, hmem, heq⟩ := List.mem_filterMap.mp hout
        cases queue with
        | rawArticles => simp at heq
        | parsedArticles =>
          obtain rfl : p = out := by simpa using heq
          exact hmem
      exact (h.messages out hpublished).resolve_left (hnothing _ _) m hm a (harticles ▸ ha)

/-- **The pipeline can catch up**, whatever has happened: every state leads, with no new message from
outside, to one in which nothing waits and every page that was ever published is stored. -/
theorem catches_up [Nonempty ι] (hbase : Utf8.Valid S.htmlParser.baseUrl) {s : World ι}
    (h : (S.outages ι).Reachable s) :
    ∃ t, (S.outages ι).Leads NoArrival s t ∧ s.broker.accepted <+: t.broker.accepted ∧
      (∀ queue, t.broker.queues queue = [] ∧ t.broker.outstanding queue = 0) ∧
      ∀ payload, (.rawArticles, payload) ∈ t.broker.accepted → PageStored S t payload := by
  obtain ⟨t, hleads, haccepted, hqueues, hserves, -⟩ := leads_allDone (S := S) ⟨0, 0⟩ s
  obtain ⟨tr, hrun⟩ := h.leads hleads
  have hstored := pages_accounted hrun fun m _ e _ => encodes_of_valid hbase _
  exact ⟨t, hleads.mono fun _ => Proceeds.noArrival, haccepted,
    fun queue => ⟨hqueues queue, hserves.calm.outstanding queue⟩,
    fun payload hpayload => hstored.pageStored hserves.calm hqueues hpayload⟩

/-! ## A parser that died -/

/-- A parser has received a page and died, and the broker does not know it yet. -/
def parserGone : List (Incident Unit) := parserDied.take 5

theorem run_parserGone : (goodBaseUrl.outages Unit).Run
    (TransitionSystem.moves (World.afterIncident goodBaseUrl) {} parserGone)
    (parserGone.foldl (World.afterIncident goodBaseUrl) {}) := by
  have hstep : ∀ (s : World Unit) e, s.Possible e →
      (goodBaseUrl.outages Unit).step s e (s.afterIncident goodBaseUrl e) := fun _ _ h => ⟨h, rfl⟩
  have hstart : (goodBaseUrl.outages Unit).Run [] {} := .start rfl
  refine hstart.append_moves hstep parserGone ?_
  exact ⟨trivial, rfl, ⟨⟨_, rfl, rfl⟩, _, rfl, rfl, rfl⟩, trivial, trivial, trivial⟩

/-- The page is on the link of the parser that died, and still it can be stored. -/
theorem catches_up_parserGone :
    let s := parserGone.foldl (World.afterIncident goodBaseUrl) {}
    s.broker.links.map Link.unsettled = [[page]] ∧
    ∃ t, (goodBaseUrl.outages Unit).Leads NoArrival s t ∧
      s.broker.accepted <+: t.broker.accepted ∧
      (∀ queue, t.broker.queues queue = [] ∧ t.broker.outstanding queue = 0) ∧
      ∀ payload, (.rawArticles, payload) ∈ t.broker.accepted →
        PageStored goodBaseUrl t payload :=
  ⟨by decide +kernel, catches_up (by decide +kernel) run_parserGone.reachable⟩

end Pipeline
end HabrDigest
