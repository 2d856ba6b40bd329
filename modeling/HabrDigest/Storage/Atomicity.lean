import HabrDigest.Lib.JsonText
import HabrDigest.Storage.ArticleStore

/-!
# A batch is all or nothing

What `UpsertBatch` should do whatever SQLite does: a batch that returns is committed, and one
that throws has changed nothing and leaves the connection outside of any transaction, ready
for the next batch.

It does so unless the last call fails.  `COMMIT` stands behind the `try` block, so when it
fails nobody rolls back: the rows stay in a transaction that is still open, the digest query
reads them, and every later batch throws at its `BEGIN` (`upsertBatch_stuck`).
`upsertBatch_atomic_iff` says that this is the only way to go wrong.
-/

namespace HabrDigest
namespace Storage

open Messaging Sqlite

/-- A batch is in the table: the row of each of its ids has absorbed the last article with that
id, and no other row has changed. -/
structure Stored (n : Nlohmann) (clock : Clock) (articles : List ParsedArticle) (traceId : Bytes)
    (before after : Table) : Prop where
  stores : ∀ id a, lastWith id articles = some a → ∃ row, articleRow n clock traceId a = some row ∧
    after.lookup id = KeyedTable.absorb onConflict (before.lookup id) row
  keeps : ∀ id, lastWith id articles = none → after.lookup id = before.lookup id

theorem stored_upsertAll {n : Nlohmann} {clock : Clock} {articles : List ParsedArticle}
    {traceId : Bytes} {rows : List Row} (h : batchRows n clock traceId articles = some rows)
    (t : Table) : Stored n clock articles traceId t (t.upsertAll onConflict rows) :=
  ⟨fun id => (lookup_batch n clock traceId t h id).1,
    fun id => (lookup_batch n clock traceId t h id).2⟩

/-- The hubs of every article are text. -/
def Encodable (articles : List ParsedArticle) : Prop :=
  ∀ a ∈ articles, ∀ hub ∈ a.hubs, Utf8.Valid hub

/-- A batch has rows exactly when its hubs can be encoded. -/
theorem batchRows_isSome_iff (n : Nlohmann) (clock : Clock) (traceId : Bytes)
    (articles : List ParsedArticle) :
    (batchRows n clock traceId articles).isSome = true ↔ Encodable articles := by
  induction articles with
  | nil => exact ⟨fun _ _ h => absurd h (by simp), fun _ => rfl⟩
  | cons a as ih =>
    have hrow : (articleRow n clock traceId a).isSome = true ↔ ∀ hub ∈ a.hubs, Utf8.Valid hub := by
      rw [articleRow, Option.isSome_map, Nlohmann.encode_isSome_iff, hubsCodec,
        Codec.validUtf8_list]
      simp only [Codec.validUtf8_string]
    rw [Encodable, List.forall_mem_cons, ← hrow, ← Encodable, ← ih, batchRows_cons]
    cases articleRow n clock traceId a <;> simp

/-- What a call of `UpsertBatch` should do: all of the batch, or nothing and ready for more. -/
structure Atomic (n : Nlohmann) (calls : Calls) (clock : Clock) (articles : List ParsedArticle)
    (traceId : Bytes) (c : Connection Table) : Prop where
  /-- If it returns, the batch is committed. -/
  returns : ∀ k, (upsertBatch n calls clock articles traceId c).1 = some k →
    Stored n clock articles traceId c.committed
      (upsertBatch n calls clock articles traceId c).2.committed
  /-- If it throws, the committed table is as before, and no transaction is open. -/
  throws : (upsertBatch n calls clock articles traceId c).1 = none →
    (upsertBatch n calls clock articles traceId c).2.committed = c.committed ∧
    (upsertBatch n calls clock articles traceId c).2.pending = none
  /-- If it throws, a batch for which all calls succeed is committed next. -/
  usable : (upsertBatch n calls clock articles traceId c).1 = none →
    ∀ clock' next traceId', Encodable next →
      let c' := (upsertBatch n calls clock articles traceId c).2
      (upsertBatch n .succeed clock' next traceId' c').1 = some next.length ∧
      Stored n clock' next traceId' c'.committed
        (upsertBatch n .succeed clock' next traceId' c').2.committed
  /-- If it throws, the digest query reads committed rows. -/
  reads : (upsertBatch n calls clock articles traceId c).1 = none →
    ∀ r now periodHours limit weights,
      topArticles n r now periodHours limit weights
          (upsertBatch n calls clock articles traceId c).2.visible =
        topArticles n r now periodHours limit weights c.committed

/-- Every call up to the `COMMIT` succeeds, and the `COMMIT` fails. -/
structure FailsAtCommit (calls : Calls) (articles : List ParsedArticle) : Prop where
  beginImmediate : calls.beginImmediate = true
  prepare : calls.prepare = true
  step : ∀ i < articles.length, calls.step i = .done
  encodable : Encodable articles
  commit : calls.commit = false

/-- A batch for which every call succeeds is committed. -/
theorem upsertBatch_succeed (n : Nlohmann) (clock : Clock) {articles : List ParsedArticle}
    (traceId : Bytes) {c : Connection Table} (hclosed : c.pending = none)
    (hencodable : Encodable articles) :
    (upsertBatch n .succeed clock articles traceId c).1 = some articles.length ∧
    Stored n clock articles traceId c.committed
      (upsertBatch n .succeed clock articles traceId c).2.committed := by
  obtain ⟨rows, hrows⟩ := Option.isSome_iff_exists.mp
    ((batchRows_isSome_iff n clock traceId articles).mpr hencodable)
  have houtcome := upsertBatch_outcome n .succeed clock articles traceId c
  generalize upsertBatch n .succeed clock articles traceId c = result at houtcome
  obtain ⟨res, c'⟩ := result
  cases houtcome with
  | empty hempty =>
    subst hempty
    exact ⟨rfl, fun id a ha => absurd ha (by simp [lastWith]), fun _ _ => rfl⟩
  | notBegun _ h => exact absurd h (by simpa [Calls.succeed] using hclosed)
  | notInserted _ _ _ h => exact absurd ⟨rfl, fun _ _ => rfl, hrows⟩ (h rows)
  | committed rows _ _ _ h _ => exact ⟨rfl, stored_upsertAll h.rows_eq _⟩
  | notCommitted _ _ _ _ _ hcommit => exact absurd hcommit (by simp [Calls.succeed])

/-- What throws with nothing left open is atomic. -/
theorem Atomic.of_rolledBack {n : Nlohmann} {calls : Calls} {clock : Clock}
    {articles : List ParsedArticle} {traceId : Bytes} {c : Connection Table}
    (h : upsertBatch n calls clock articles traceId c = (none, ⟨c.committed, none⟩)) :
    Atomic n calls clock articles traceId c where
  returns k hk := absurd (h ▸ hk) (by simp)
  throws _ := by rw [h]; exact ⟨rfl, rfl⟩
  usable _ clock' next traceId' hnext := by
    rw [h]
    exact upsertBatch_succeed n clock' traceId' rfl hnext
  reads _ r now periodHours limit weights := by rw [h]; rfl

/-- **A batch is atomic, and leaves the store usable, unless the `COMMIT` is what fails.** -/
theorem upsertBatch_atomic_iff (n : Nlohmann) (calls : Calls) (clock : Clock)
    (articles : List ParsedArticle) (hne : articles ≠ []) (traceId : Bytes) (c : Connection Table)
    (hclosed : c.pending = none) :
    Atomic n calls clock articles traceId c ↔ ¬ FailsAtCommit calls articles := by
  have houtcome := upsertBatch_outcome n calls clock articles traceId c
  generalize hresult : upsertBatch n calls clock articles traceId c = result at houtcome
  obtain ⟨res, c'⟩ := result
  cases houtcome with
  | empty hempty => exact absurd hempty hne
  | notBegun _ h =>
    have hbegin : calls.beginImmediate = false := h.resolve_left fun h => h hclosed
    have hc : c' = ⟨c'.committed, none⟩ := congrArg (Connection.mk c'.committed) hclosed
    refine ⟨fun _ h => by simp [h.beginImmediate] at hbegin, fun _ => ?_⟩
    exact .of_rolledBack (hresult.trans (congrArg (Prod.mk none) hc))
  | notInserted _ _ hbegin h =>
    refine ⟨fun _ hfails => ?_, fun _ => .of_rolledBack hresult⟩
    obtain ⟨rows, hrows⟩ := Option.isSome_iff_exists.mp
      ((batchRows_isSome_iff n clock traceId articles).mpr hfails.encodable)
    exact h rows ⟨hfails.prepare, hfails.step, hrows⟩
  | committed rows _ _ _ h hcommit =>
    refine ⟨fun _ hfails => by simp [hfails.commit] at hcommit, fun _ => ?_⟩
    have hsome : (upsertBatch n calls clock articles traceId c).1 ≠ none := by simp [hresult]
    refine ⟨fun _ _ => ?_, fun h => absurd h hsome, fun h => absurd h hsome,
      fun h => absurd h hsome⟩
    rw [hresult]
    exact stored_upsertAll h.rows_eq _
  | notCommitted rows _ _ hbegin h hcommit =>
    refine ⟨fun hatomic => ?_, fun hnot => absurd ?_ hnot⟩
    · have hopen := (hatomic.throws (by rw [hresult])).2
      rw [hresult] at hopen
      exact absurd hopen (by simp)
    · refine ⟨hbegin, h.prepare, h.step, ?_, hcommit⟩
      exact (batchRows_isSome_iff n clock traceId articles).mp (by rw [h.rows_eq]; rfl)

/-- One article, and a database that is busy when the batch is committed. -/
theorem upsertBatch_not_atomic :
    ¬ Atomic .reference ⟨true, true, fun _ => .done, false⟩ ⟨0, 0⟩ [{ articleId := utf8 "1" }]
      (utf8 "t") ⟨.empty, none⟩ := by
  intro h
  have hthrows : (upsertBatch .reference ⟨true, true, fun _ => .done, false⟩ ⟨0, 0⟩
      [{ articleId := utf8 "1" }] (utf8 "t") ⟨.empty, none⟩).1 = none := by rfl
  exact absurd (h.throws hthrows).2 (by decide)

/-- A batch of one article, of which the step fails. -/
theorem upsertBatch_atomic_iff_stepFails :
    ([{ articleId := utf8 "1" }] : List ParsedArticle) ≠ [] ∧
    (⟨.empty, none⟩ : Connection Table).pending = none ∧
    (Atomic .reference ⟨true, true, fun _ => .failed, true⟩ ⟨0, 0⟩ [{ articleId := utf8 "1" }]
        (utf8 "t") ⟨.empty, none⟩ ↔
      ¬ FailsAtCommit ⟨true, true, fun _ => .failed, true⟩ [{ articleId := utf8 "1" }]) :=
  ⟨by simp, rfl, upsertBatch_atomic_iff _ _ _ _ (by simp) _ _ rfl⟩

/-- Inside an open transaction no batch gets through, whatever SQLite does. -/
theorem upsertBatch_stuck (n : Nlohmann) (calls : Calls) (clock : Clock)
    {articles : List ParsedArticle} (hne : articles ≠ []) (traceId : Bytes) {c : Connection Table}
    (hopen : c.pending ≠ none) : upsertBatch n calls clock articles traceId c = (none, c) := by
  have houtcome := upsertBatch_outcome n calls clock articles traceId c
  generalize upsertBatch n calls clock articles traceId c = result at houtcome
  obtain ⟨res, c'⟩ := result
  cases houtcome with
  | empty hempty => exact absurd hempty hne
  | notBegun _ _ => rfl
  | notInserted _ hclosed _ _ => exact absurd hclosed hopen
  | committed _ _ hclosed _ _ _ => exact absurd hclosed hopen
  | notCommitted _ _ hclosed _ _ _ => exact absurd hclosed hopen

end Storage
end HabrDigest
