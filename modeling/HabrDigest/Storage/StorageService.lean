import HabrDigest.Messaging.Consume
import HabrDigest.Storage.Config
import HabrDigest.Storage.History

/-!
# The storage service

`services/storage/src/storage_service.cpp`: every message of parsed articles is one batch,
and every tick publishes a digest.

`HandleParsedArticles` never throws: a payload that does not decode is rejected, and whatever
the store throws sends the message back to its queue, so an acknowledged message has been
committed (`upsertBatch_of_kAck`).  `PublishDigest` catches what the query throws, but encodes
the digest outside of the `try` block.
-/

namespace HabrDigest
namespace Storage

open Messaging Common Sqlite

/-- `StorageService::HandleParsedArticles`: what it returns, and the connection afterwards.
`counts` says whether the SQLite calls of `CountArticles` succeed. -/
def handleParsedArticles (n : Nlohmann) (calls : Calls) (counts : Bool) (clock : Clock)
    (payload : Bytes) (c : Connection Table) : Ack × Connection Table :=
  match n.decode ParsedArticlesMessage.codec payload with
  | none => (.kReject, c)
  | some parsed =>
    match upsertBatch n calls clock parsed.articles parsed.traceId c with
    | (none, c) => (.kRequeue, c)
    | (some _, c) => if counts then (.kAck, c) else (.kRequeue, c)

/-- A message is acknowledged only when its batch has returned. -/
theorem upsertBatch_of_kAck {n : Nlohmann} {calls : Calls} {counts : Bool} {clock : Clock}
    {payload : Bytes} {c c' : Connection Table}
    (h : handleParsedArticles n calls counts clock payload c = (.kAck, c')) :
    ∃ parsed written, n.decode ParsedArticlesMessage.codec payload = some parsed ∧
      upsertBatch n calls clock parsed.articles parsed.traceId c = (some written, c') := by
  unfold handleParsedArticles at h
  cases hparsed : n.decode ParsedArticlesMessage.codec payload with
  | none => simp [hparsed] at h
  | some parsed =>
    rw [hparsed] at h
    dsimp only at h
    generalize hupsert : upsertBatch n calls clock parsed.articles parsed.traceId c = result at h
    obtain ⟨written, c''⟩ := result
    cases written with
    | none => simp at h
    | some written =>
      cases counts <;> simp at h
      subst h
      exact ⟨parsed, written, rfl, hupsert⟩

/-- A message is rejected exactly when it does not decode, and then nothing has changed. -/
theorem handleParsedArticles_of_kReject {n : Nlohmann} {calls : Calls} {counts : Bool}
    {clock : Clock} {payload : Bytes} {c c' : Connection Table}
    (h : handleParsedArticles n calls counts clock payload c = (.kReject, c')) :
    n.decode ParsedArticlesMessage.codec payload = none ∧ c' = c := by
  unfold handleParsedArticles at h
  cases hparsed : n.decode ParsedArticlesMessage.codec payload with
  | none =>
    rw [hparsed] at h
    exact ⟨rfl, (Prod.ext_iff.mp h).2.symm⟩
  | some parsed =>
    rw [hparsed] at h
    dsimp only at h
    generalize upsertBatch n calls clock parsed.articles parsed.traceId c = result at h
    obtain ⟨written, c''⟩ := result
    cases written <;> cases counts <;> simp at h

/-- The batch that a payload committed: none where it does not decode or the store threw. -/
def committedBatch (n : Nlohmann) (calls : Calls) (clock : Clock) (payload : Bytes)
    (c : Connection Table) : List Batch :=
  match n.decode ParsedArticlesMessage.codec payload with
  | none => []
  | some parsed =>
    if (upsertBatch n calls clock parsed.articles parsed.traceId c).1.isSome then
      [⟨clock, parsed.traceId, parsed.articles⟩]
    else []

/-- The message that a payload is, if its batch was committed. -/
def committedMessage (n : Nlohmann) (calls : Calls) (clock : Clock) (payload : Bytes)
    (c : Connection Table) : Option ParsedArticlesMessage :=
  (n.decode ParsedArticlesMessage.codec payload).filter fun parsed =>
    (upsertBatch n calls clock parsed.articles parsed.traceId c).1.isSome

/-- **What a delivery does to the table**: it writes the rows of the message that it committed,
and nothing if it committed none. -/
theorem committed_handleParsedArticles (n : Nlohmann) (calls : Calls) (counts : Bool)
    (clock : Clock) (payload : Bytes) (c : Connection Table) :
    (committedMessage n calls clock payload c = none ∧
      (handleParsedArticles n calls counts clock payload c).2.committed = c.committed) ∨
    ∃ parsed rows, n.decode ParsedArticlesMessage.codec payload = some parsed ∧
      committedMessage n calls clock payload c = some parsed ∧
      batchRows n clock parsed.traceId parsed.articles = some rows ∧
      (handleParsedArticles n calls counts clock payload c).2.committed =
        c.committed.upsertAll onConflict rows := by
  unfold handleParsedArticles committedMessage
  cases n.decode ParsedArticlesMessage.codec payload with
  | none => exact Or.inl ⟨rfl, rfl⟩
  | some parsed =>
    dsimp only
    have houtcome := upsertBatch_outcome n calls clock parsed.articles parsed.traceId c
    rw [Option.filter_some]
    generalize upsertBatch n calls clock parsed.articles parsed.traceId c = result at houtcome
    obtain ⟨written, c'⟩ := result
    cases houtcome with
    | empty hempty =>
      have hrows : batchRows n clock parsed.traceId parsed.articles = some [] := by
        rw [hempty]
        rfl
      exact Or.inr ⟨parsed, [], rfl, rfl, hrows, by cases counts <;> rfl⟩
    | notBegun | notInserted | notCommitted => exact Or.inl ⟨rfl, rfl⟩
    | committed rows _ _ _ hinserts _ =>
      exact Or.inr ⟨parsed, rows, rfl, rfl, hinserts.rows_eq, by cases counts <;> rfl⟩

/-- A table that is what these batches made of an empty one. -/
inductive Replays (n : Nlohmann) : List Batch → Table → Prop
  | nil : Replays n [] .empty
  | concat {h : List Batch} {t : Table} {b : Batch} {rows : List Row} (hprev : Replays n h t)
      (hrows : batchRows n b.clock b.traceId b.articles = some rows) :
      Replays n (h ++ [b]) (t.upsertAll onConflict rows)

/-- What has to be committed before a message may be gone for good: nothing where the payload is
no message, and otherwise the batch of its articles. -/
def MessageDone (n : Nlohmann) (batches : List Batch) (payload : Bytes) : Prop :=
  n.decode ParsedArticlesMessage.codec payload = none ∨
    ∃ m, n.decode ParsedArticlesMessage.codec payload = some m ∧
      ∃ b ∈ batches, b.traceId = m.traceId ∧ b.articles = m.articles

/-- **A message is settled for good only when it is done.** -/
theorem messageDone_of_handleParsedArticles (n : Nlohmann) (calls : Calls) (counts : Bool)
    (clock : Clock) (payload : Bytes) (c : Connection Table)
    (hfinal : (handleParsedArticles n calls counts clock payload c).1 ≠ .kRequeue) :
    MessageDone n (committedBatch n calls clock payload c) payload := by
  generalize hresult : handleParsedArticles n calls counts clock payload c = result at hfinal
  obtain ⟨decision, c'⟩ := result
  cases decision with
  | kRequeue => exact absurd rfl hfinal
  | kReject => exact Or.inl (handleParsedArticles_of_kReject hresult).1
  | kAck =>
    obtain ⟨parsed, written, hparsed, hupsert⟩ := upsertBatch_of_kAck hresult
    refine Or.inr ⟨parsed, hparsed, ⟨clock, parsed.traceId, parsed.articles⟩, ?_, rfl, rfl⟩
    rw [committedBatch, hparsed]
    dsimp only
    rw [hupsert]
    exact List.mem_singleton_self _

/-- The batch of a delivery is that of the message it committed. -/
theorem committedBatch_eq (n : Nlohmann) (calls : Calls) (clock : Clock) (payload : Bytes)
    (c : Connection Table) : committedBatch n calls clock payload c =
      (committedMessage n calls clock payload c).toList.map fun parsed =>
        ⟨clock, parsed.traceId, parsed.articles⟩ := by
  unfold committedBatch committedMessage
  cases n.decode ParsedArticlesMessage.codec payload with
  | none => rfl
  | some parsed =>
    dsimp only
    rw [Option.filter_some]
    split_ifs <;> rfl

/-- What is committed is what the batches made, whatever the handler returns. -/
theorem Replays.handleParsedArticles {n : Nlohmann} {h : List Batch} {c : Connection Table}
    (hreplays : Replays n h c.committed) (calls : Calls) (counts : Bool) (clock : Clock)
    (payload : Bytes) :
    Replays n (h ++ committedBatch n calls clock payload c)
      (Storage.handleParsedArticles n calls counts clock payload c).2.committed := by
  rw [committedBatch_eq]
  rcases committed_handleParsedArticles n calls counts clock payload c with
    ⟨hnone, hsame⟩ | ⟨parsed, rows, -, hsome, hrows, hwritten⟩
  · rw [hnone, hsame, Option.toList_none, List.map_nil, List.append_nil]
    exact hreplays
  · rw [hsome, hwritten, Option.toList_some, List.map_singleton]
    exact hreplays.concat (b := ⟨clock, parsed.traceId, parsed.articles⟩) hrows

/-- Every article of a committed batch has a row. -/
theorem Replays.exists_row {n : Nlohmann} {h : List Batch} {t : Table} (hreplays : Replays n h t)
    {b : Batch} (hb : b ∈ h) {a : ParsedArticle} (ha : a ∈ b.articles) :
    ∃ row ∈ t.rows, row.articleId = a.articleId.cString := by
  have hlookup : (t.lookup a.articleId.cString).isSome = true := by
    induction hreplays with
    | nil => exact absurd hb (by simp)
    | @concat h t b' rows _ hrows ih =>
      refine KeyedTable.isSome_lookup_upsertAll onConflict ?_
      rcases List.mem_append.mp hb with hold | hnew
      · exact Or.inl (ih hold)
      · obtain rfl := List.mem_singleton.mp hnew
        obtain ⟨row, hrow, hid⟩ := exists_row_of_mem hrows ha
        exact Or.inr (List.mem_map.mpr ⟨row, hrow, hid⟩)
  obtain ⟨row, hrow⟩ := Option.isSome_iff_exists.mp hlookup
  exact ⟨row, KeyedTable.mem_of_lookup hrow, KeyedTable.key_of_lookup hrow⟩

/-! ## What a delivery does to the database -/

/-- The connection after a delivery: as it was, or a batch later, committed or left open. -/
inductive Delivered (n : Nlohmann) (clock : Clock) (payload : Bytes) (c : Connection Table) :
    Connection Table → Prop
  | same : Delivered n clock payload c c
  | committed {parsed : ParsedArticlesMessage} {rows : List Row}
      (hparsed : n.decode ParsedArticlesMessage.codec payload = some parsed)
      (hrows : batchRows n clock parsed.traceId parsed.articles = some rows) :
      Delivered n clock payload c ⟨c.committed.upsertAll onConflict rows, none⟩
  | leftOpen {parsed : ParsedArticlesMessage} {rows : List Row}
      (hparsed : n.decode ParsedArticlesMessage.codec payload = some parsed)
      (hrows : batchRows n clock parsed.traceId parsed.articles = some rows) :
      Delivered n clock payload c
        ⟨c.committed, some (c.committed.upsertAll onConflict rows)⟩

/-- **A delivery writes its batch or nothing**, whatever the calls of SQLite do. -/
theorem delivered_handleParsedArticles (n : Nlohmann) (calls : Calls) (counts : Bool)
    (clock : Clock) (payload : Bytes) (c : Connection Table) :
    Delivered n clock payload c (handleParsedArticles n calls counts clock payload c).2 := by
  unfold handleParsedArticles
  cases hparsed : n.decode ParsedArticlesMessage.codec payload with
  | none => exact .same
  | some parsed =>
    have houtcome := upsertBatch_outcome n calls clock parsed.articles parsed.traceId c
    dsimp only
    generalize upsertBatch n calls clock parsed.articles parsed.traceId c = result at houtcome
    obtain ⟨written, c'⟩ := result
    cases houtcome with
    | empty => cases counts <;> exact .same
    | notBegun => exact .same
    | notInserted _ hclosed =>
      obtain ⟨t, pending⟩ := c
      obtain rfl : pending = none := hclosed
      exact .same
    | committed rows _ _ _ hinserts _ =>
      cases counts <;> exact .committed hparsed hinserts.rows_eq
    | notCommitted rows _ _ _ hinserts _ => exact .leftOpen hparsed hinserts.rows_eq

/-! ## The digest -/

/-- What a tick meets: the clock as `TopArticles` and as the time stamp of the digest read it,
the number drawn for the trace id, and whether the SQLite calls of the query succeed. -/
structure Circumstances where
  now : ℤ
  stampedAt : ℤ
  drawn : UInt32
  queried : Bool

/-- How `PublishDigest` ends. -/
inductive DigestOutcome where
  /-- The query has thrown. -/
  | failed
  /-- There is no article in the window. -/
  | skipped
  /-- The digest cannot be encoded: an exception leaves the tick. -/
  | threw
  /-- `PublishToExchange` is called with the payload of a digest. -/
  | handed (digest : DigestReadyMessage) (payload : Bytes)
  deriving DecidableEq, Repr

/-- The digest of a tick. -/
def digestMessage (config : Config) (c : Circumstances) (top : List DigestArticle) :
    DigestReadyMessage where
  digestId := nowIso8601Utc c.stampedAt
  generatedAt := nowIso8601Utc c.stampedAt
  traceId := generateTraceId c.drawn
  periodHours := config.digestPeriodHours
  articles := top

/-- `StorageService::PublishDigest`. -/
def publishDigest (n : Nlohmann) (r : Rounding) (config : Config) (c : Circumstances) (t : Table) :
    DigestOutcome :=
  if c.queried then
    let top := topArticles n r c.now config.digestPeriodHours config.digestTopN config.weights t
    if top = [] then .skipped
    else
      let digest := digestMessage config c top
      match n.encode DigestReadyMessage.codec digest with
      | none => .threw
      | some out => .handed digest out
  else .failed

/-- What is handed over is the encoded digest of the query. -/
theorem publishDigest_handed {n : Nlohmann} {r : Rounding} {config : Config} {c : Circumstances}
    {t : Table} {digest : DigestReadyMessage} {payload : Bytes}
    (h : publishDigest n r config c t = .handed digest payload) :
    digest = digestMessage config c
      (topArticles n r c.now config.digestPeriodHours config.digestTopN config.weights t) ∧
    n.encode DigestReadyMessage.codec digest = some payload := by
  unfold publishDigest at h
  by_cases hqueried : c.queried = true
  · rw [if_pos hqueried] at h
    dsimp only at h
    split at h
    · simp at h
    · split at h
      · simp at h
      · rename_i out hout
        obtain ⟨rfl, rfl⟩ := DigestOutcome.handed.inj h
        exact ⟨rfl, hout⟩
  · rw [if_neg hqueried] at h
    simp at h

end Storage
end HabrDigest
