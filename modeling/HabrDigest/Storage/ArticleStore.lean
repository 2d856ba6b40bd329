import HabrDigest.Common.TimeUtil
import HabrDigest.Lib.KeyedTable
import HabrDigest.Lib.Ranking
import HabrDigest.Lib.Sqlite
import HabrDigest.Messaging.Messages

/-!
# The article store

`services/storage/src/article_store.cpp`: one table with the id of the article as its
primary key, a batch of upserts in one transaction, and the query for the digest.

The statements are run on what the code binds, parameter by parameter, and the code reads
what they select, column by column; that the positions line up is proved
(`insertRow_bindArticle`, `topArticles_eq`) and not built in.

Which SQLite calls fail is left open: a `Calls` says it for one call of `UpsertBatch`, and
`upsertBatch_outcome` lists the five ways in which the call can end.
-/

namespace HabrDigest
namespace Storage

open Messaging Common Sqlite

/-! ## The table -/

/-- A row of `articles`, in the columns of `kSchemaSql`. -/
structure Row where
  articleId : Bytes
  url : Bytes
  title : Bytes
  author : Bytes
  hubs : Bytes
  publishedAt : Bytes
  complexity : Bytes
  readingTime : Bytes
  votes : Int64
  views : Int64
  bookmarks : Int64
  comments : Int64
  firstSeenAt : Bytes
  firstSeenEpoch : ℤ
  updatedAt : Bytes
  updatedEpoch : ℤ
  traceId : Bytes
  deriving DecidableEq, Repr

/-- The table; `article_id` is its primary key. -/
abbrev Table := KeyedTable Row.articleId

/-- `kUpsertSql`, its `VALUES` clause.  No column may be NULL. -/
def insertRow (b : Bindings) : Option Row := do
  pure
    { articleId := ← (b.param 1).asText
      url := ← (b.param 2).asText
      title := ← (b.param 3).asText
      author := ← (b.param 4).asText
      hubs := ← (b.param 5).asText
      publishedAt := ← (b.param 6).asText
      complexity := ← (b.param 7).asText
      readingTime := ← (b.param 8).asText
      votes := ← (b.param 9).asInteger.map .ofInt
      views := ← (b.param 10).asInteger.map .ofInt
      bookmarks := ← (b.param 11).asInteger.map .ofInt
      comments := ← (b.param 12).asInteger.map .ofInt
      firstSeenAt := ← (b.param 13).asText
      firstSeenEpoch := ← (b.param 14).asInteger
      updatedAt := ← (b.param 15).asText
      updatedEpoch := ← (b.param 16).asInteger
      traceId := ← (b.param 17).asText }

/-- `kUpsertSql`, its `ON CONFLICT` clause. -/
def onConflict : Merge Row.articleId where
  merge old excluded :=
    { old with
      url := excluded.url
      title := excluded.title
      author := excluded.author
      hubs := excluded.hubs
      publishedAt := excluded.publishedAt
      complexity := excluded.complexity
      readingTime := excluded.readingTime
      votes := excluded.votes
      views := excluded.views
      bookmarks := excluded.bookmarks
      comments := excluded.comments
      updatedAt := excluded.updatedAt
      updatedEpoch := excluded.updatedEpoch
      traceId := excluded.traceId }
  key_merge _ _ := rfl

/-- **The fourteen columns are replaced**: a row keeps when it was first seen, and nothing
else. -/
theorem onConflict_merge {old excluded : Row} (hid : old.articleId = excluded.articleId) :
    onConflict.merge old excluded =
      { excluded with
        firstSeenAt := old.firstSeenAt
        firstSeenEpoch := old.firstSeenEpoch } := by
  simp only [onConflict, hid]

/-! ## Writing a batch -/

/-- How `std::vector<std::string>` is written. -/
def hubsCodec : Codec (List Bytes) := .list .string

/-- What the two reads of the clock give, in seconds: `NowIso8601Utc` and
`NowEpochSeconds`. -/
structure Clock where
  iso : ℤ
  epoch : ℤ
  deriving DecidableEq, Repr

/-- How a step of the upsert ends. -/
inductive StepResult where
  | done
  | failed
  /-- It fails, and SQLite has rolled the transaction back by itself. -/
  | aborted
  deriving DecidableEq, Repr

/-- Which of the SQLite calls of one `UpsertBatch` succeed. -/
structure Calls where
  beginImmediate : Bool
  prepare : Bool
  step : ℕ → StepResult
  commit : Bool

/-- All of them do. -/
def Calls.succeed : Calls := ⟨true, true, fun _ => .done, true⟩

/-- What is bound for an article whose hubs are encoded. -/
def bindArticle (clock : Clock) (traceId hubs : Bytes) (a : ParsedArticle) : Bindings :=
  Bindings.bindText 1 a.articleId []
    |> Bindings.bindText 2 a.url
    |> Bindings.bindText 3 a.title
    |> Bindings.bindText 4 a.author
    |> Bindings.bindText 5 hubs
    |> Bindings.bindText 6 a.publishedAt
    |> Bindings.bindText 7 a.complexity
    |> Bindings.bindText 8 a.readingTime
    |> Bindings.bindInt64 9 a.votes.toInt
    |> Bindings.bindInt64 10 a.views.toInt
    |> Bindings.bindInt64 11 a.bookmarks.toInt
    |> Bindings.bindInt64 12 a.comments.toInt
    |> Bindings.bindText 13 (nowIso8601Utc clock.iso)
    |> Bindings.bindInt64 14 clock.epoch
    |> Bindings.bindText 15 (nowIso8601Utc clock.iso)
    |> Bindings.bindInt64 16 clock.epoch
    |> Bindings.bindText 17 traceId

/-- The loop over the batch, from the article with an index on.  It is none where the loop
throws, and then only whether the transaction is still open is left to say. -/
def insertArticles (n : Nlohmann) (calls : Calls) (clock : Clock) (traceId : Bytes) :
    ℕ → List ParsedArticle → Connection Table → Bool × Connection Table
  | _, [], c => (true, c)
  | i, a :: as, c =>
    match n.encode hubsCodec a.hubs with
    | none => (false, c)
    | some hubs =>
      match insertRow (bindArticle clock traceId hubs a), calls.step i with
      | some row, .done =>
        insertArticles n calls clock traceId (i + 1) as (c.write (c.visible.upsert onConflict row))
      | _, .aborted => (false, c.rollback)
      | _, _ => (false, c)

/-- `ArticleStore::UpsertBatch`: what it returns, or none where it throws, and the
connection afterwards.  `COMMIT` stands behind the `try` block. -/
def upsertBatch (n : Nlohmann) (calls : Calls) (clock : Clock) (articles : List ParsedArticle)
    (traceId : Bytes) (c : Connection Table) : Option ℕ × Connection Table :=
  if articles = [] then (some 0, c)
  else
    match c.beginImmediate, calls.beginImmediate with
    | some opened, true =>
      -- the `catch` block rolls back, unless nothing is left to roll back, and throws again
      if calls.prepare = false then (none, opened.rollback)
      else
        match insertArticles n calls clock traceId 0 articles opened with
        | (false, inside) => (none, inside.rollback)
        | (true, inside) =>
          if calls.commit then (some articles.length, inside.commit) else (none, inside)
    | _, _ => (none, c)

/-! ## The row of an article -/

/-- The row that an article becomes, unless its hubs cannot be encoded. -/
def articleRow (n : Nlohmann) (clock : Clock) (traceId : Bytes) (a : ParsedArticle) : Option Row :=
  (n.encode hubsCodec a.hubs).map fun hubs =>
    { articleId := a.articleId.cString
      url := a.url.cString
      title := a.title.cString
      author := a.author.cString
      hubs := hubs
      publishedAt := a.publishedAt.cString
      complexity := a.complexity.cString
      readingTime := a.readingTime.cString
      votes := a.votes
      views := a.views
      bookmarks := a.bookmarks
      comments := a.comments
      firstSeenAt := (nowIso8601Utc clock.iso).cString
      firstSeenEpoch := clock.epoch
      updatedAt := (nowIso8601Utc clock.iso).cString
      updatedEpoch := clock.epoch
      traceId := traceId.cString }

theorem articleId_of_articleRow {n : Nlohmann} {clock : Clock} {traceId : Bytes}
    {a : ParsedArticle} {row : Row} (h : articleRow n clock traceId a = some row) :
    row.articleId = a.articleId.cString := by
  obtain ⟨hubs, -, rfl⟩ := Option.map_eq_some_iff.mp h
  rfl

/-- **The seventeen positions line up.** -/
theorem insertRow_bindArticle (n : Nlohmann) (clock : Clock) (traceId : Bytes) {hubs : Bytes}
    {a : ParsedArticle} (h : n.encode hubsCodec a.hubs = some hubs) :
    insertRow (bindArticle clock traceId hubs a) = articleRow n clock traceId a := by
  have hrow : insertRow (bindArticle clock traceId hubs a) = some
      { articleId := a.articleId.cString
        url := a.url.cString
        title := a.title.cString
        author := a.author.cString
        hubs := hubs.cString
        publishedAt := a.publishedAt.cString
        complexity := a.complexity.cString
        readingTime := a.readingTime.cString
        votes := .ofInt a.votes.toInt
        views := .ofInt a.views.toInt
        bookmarks := .ofInt a.bookmarks.toInt
        comments := .ofInt a.comments.toInt
        firstSeenAt := (nowIso8601Utc clock.iso).cString
        firstSeenEpoch := clock.epoch
        updatedAt := (nowIso8601Utc clock.iso).cString
        updatedEpoch := clock.epoch
        traceId := traceId.cString } := rfl
  rw [hrow, articleRow, h, Bytes.cString_eq_self (n.zero_notMem_dump _ _ h)]
  simp only [Int64.ofInt_toInt, Option.map_some]

/-! ## How a batch ends -/

/-- The rows of a batch. -/
def batchRows (n : Nlohmann) (clock : Clock) (traceId : Bytes) (articles : List ParsedArticle) :
    Option (List Row) :=
  articles.mapM (articleRow n clock traceId)

theorem batchRows_cons (n : Nlohmann) (clock : Clock) (traceId : Bytes) (a : ParsedArticle)
    (as : List ParsedArticle) :
    batchRows n clock traceId (a :: as) =
      (articleRow n clock traceId a).bind fun row =>
        (batchRows n clock traceId as).map fun rows => row :: rows := by
  rw [batchRows, List.mapM_cons]
  cases articleRow n clock traceId a with
  | none => rfl
  | some row =>
    show (batchRows n clock traceId as).bind _ = (batchRows n clock traceId as).map _
    cases batchRows n clock traceId as <;> rfl

/-- Every article of a batch has a row. -/
theorem exists_row_of_mem {n : Nlohmann} {clock : Clock} {traceId : Bytes}
    {articles : List ParsedArticle} {rows : List Row}
    (h : batchRows n clock traceId articles = some rows) {a : ParsedArticle} (ha : a ∈ articles) :
    ∃ row ∈ rows, row.articleId = a.articleId.cString := by
  induction articles generalizing rows with
  | nil => exact absurd ha (by simp)
  | cons b as ih =>
    rw [batchRows_cons] at h
    obtain ⟨first, hfirst, h⟩ := Option.bind_eq_some_iff.mp h
    obtain ⟨rest, hrest, rfl⟩ := Option.map_eq_some_iff.mp h
    rcases List.mem_cons.mp ha with rfl | ha
    · exact ⟨first, List.mem_cons_self .., articleId_of_articleRow hfirst⟩
    · obtain ⟨row, hrow, hid⟩ := ih hrest ha
      exact ⟨row, List.mem_cons_of_mem _ hrow, hid⟩

/-- Every row of a batch is the row of an article. -/
theorem exists_article_of_mem {n : Nlohmann} {clock : Clock} {traceId : Bytes}
    {articles : List ParsedArticle} {rows : List Row}
    (h : batchRows n clock traceId articles = some rows) {row : Row} (hrow : row ∈ rows) :
    ∃ a ∈ articles, articleRow n clock traceId a = some row := by
  induction articles generalizing rows with
  | nil =>
    obtain rfl : rows = [] := (Option.some.inj h).symm
    exact absurd hrow List.not_mem_nil
  | cons b as ih =>
    rw [batchRows_cons] at h
    obtain ⟨first, hfirst, h⟩ := Option.bind_eq_some_iff.mp h
    obtain ⟨rest, hrest, rfl⟩ := Option.map_eq_some_iff.mp h
    rcases List.mem_cons.mp hrow with rfl | hrow
    · exact ⟨b, List.mem_cons_self, hfirst⟩
    · obtain ⟨a, ha, hof⟩ := ih hrest hrow
      exact ⟨a, List.mem_cons_of_mem _ ha, hof⟩

/-- One round of the loop: without a row, or with a step that fails, the loop throws. -/
theorem insertArticles_cons (n : Nlohmann) (calls : Calls) (clock : Clock) (traceId : Bytes)
    (i : ℕ) (a : ParsedArticle) (as : List ParsedArticle) (c : Connection Table) :
    insertArticles n calls clock traceId i (a :: as) c =
      match articleRow n clock traceId a, calls.step i with
      | some row, .done =>
        insertArticles n calls clock traceId (i + 1) as (c.write (c.visible.upsert onConflict row))
      | some _, .aborted => (false, c.rollback)
      | _, _ => (false, c) := by
  rw [insertArticles]
  cases hhubs : n.encode hubsCodec a.hubs with
  | none => rw [articleRow, hhubs, Option.map_none]
  | some hubs =>
    dsimp only
    rw [insertRow_bindArticle n clock traceId hhubs, articleRow, hhubs, Option.map_some]
    cases calls.step i <;> rfl

/-- **The loop**: it reaches its end exactly when every article of the batch has a row and every
step is done, and then it has upserted these rows; otherwise the committed table is the one
before. -/
theorem insertArticles_cases (n : Nlohmann) (calls : Calls) (clock : Clock) (traceId : Bytes)
    (as : List ParsedArticle) (i : ℕ) (t inside : Table) :
    let c : Connection Table := ⟨t, some inside⟩
    let (ok, c') := insertArticles n calls clock traceId i as c
    (ok = true ∧ (∀ j < as.length, calls.step (i + j) = .done) ∧
      ∃ rows, batchRows n clock traceId as = some rows ∧
        c' = ⟨t, some (inside.upsertAll onConflict rows)⟩) ∨
    (ok = false ∧ ((∃ j < as.length, calls.step (i + j) ≠ .done) ∨
      batchRows n clock traceId as = none) ∧ c'.committed = t) := by
  induction as generalizing i inside with
  | nil => exact Or.inl ⟨rfl, by simp, [], rfl, rfl⟩
  | cons a as ih =>
    dsimp only
    rw [insertArticles_cons, batchRows_cons]
    cases articleRow n clock traceId a with
    | none => exact Or.inr ⟨rfl, Or.inr rfl, rfl⟩
    | some row =>
      have hfail : calls.step i ≠ .done → ∃ j < (a :: as).length, calls.step (i + j) ≠ .done :=
        fun h => ⟨0, by simp, h⟩
      cases hstep : calls.step i with
      | failed | aborted => exact Or.inr ⟨rfl, Or.inl (hfail (by simp [hstep])), rfl⟩
      | done =>
        have hstep' : ∀ j, calls.step (i + 1 + j) = calls.step (i + (j + 1)) := fun j => by
          rw [Nat.add_assoc, Nat.add_comm 1 j]
        rcases ih (i + 1) (inside.upsert onConflict row) with
          ⟨hok, hdone, rows, hrows, hc⟩ | ⟨hok, hbad, hc⟩
        · refine Or.inl ⟨hok, ?_, row :: rows, ?_, hc⟩
          · intro j hj
            cases j with
            | zero => exact hstep
            | succ j => exact hstep' j ▸ hdone j (by simpa using hj)
          · rw [Option.bind_some, hrows, Option.map_some]
        · refine Or.inr ⟨hok, hbad.imp ?_ ?_, hc⟩
          · rintro ⟨j, hj, hne⟩
            exact ⟨j + 1, by simpa using hj, hstep' j ▸ hne⟩
          · intro hnone
            rw [Option.bind_some, hnone, Option.map_none]

/-- The last article of a batch that is stored under an id. -/
def lastWith (id : Bytes) (articles : List ParsedArticle) : Option ParsedArticle :=
  articles.reverse.find? fun a => a.articleId.cString = id

theorem lastWith_concat (id : Bytes) (as : List ParsedArticle) (a : ParsedArticle) :
    lastWith id (as ++ [a]) = if a.articleId.cString = id then some a else lastWith id as := by
  unfold lastWith
  rw [List.reverse_concat, List.find?_cons]
  by_cases h : a.articleId.cString = id <;> simp [h]

/-- Rows of one batch overwrite one another. -/
theorem absorb_absorb {n : Nlohmann} {clock : Clock} {traceId : Bytes} {a b : ParsedArticle}
    {row row' : Row} (ha : articleRow n clock traceId a = some row)
    (hb : articleRow n clock traceId b = some row')
    (hid : a.articleId.cString = b.articleId.cString) (old : Option Row) :
    KeyedTable.absorb onConflict (KeyedTable.absorb onConflict old row) row' =
      KeyedTable.absorb onConflict old row' := by
  cases old with
  | some s => rfl
  | none =>
    obtain ⟨hubs, -, rfl⟩ := Option.map_eq_some_iff.mp ha
    obtain ⟨hubs', -, rfl⟩ := Option.map_eq_some_iff.mp hb
    simp only [KeyedTable.absorb, onConflict, Option.elim_none, Option.elim_some, hid]

theorem batchRows_concat (n : Nlohmann) (clock : Clock) (traceId : Bytes)
    {as : List ParsedArticle} {a : ParsedArticle} {rows : List Row}
    (h : batchRows n clock traceId (as ++ [a]) = some rows) :
    ∃ init row, batchRows n clock traceId as = some init ∧
      articleRow n clock traceId a = some row ∧ rows = init ++ [row] := by
  induction as generalizing rows with
  | nil =>
    rw [List.nil_append, batchRows_cons] at h
    obtain ⟨row, hrow, h⟩ := Option.bind_eq_some_iff.mp h
    exact ⟨[], row, rfl, hrow, (Option.some.inj h).symm⟩
  | cons b as ih =>
    rw [List.cons_append, batchRows_cons] at h
    obtain ⟨first, hfirst, h⟩ := Option.bind_eq_some_iff.mp h
    obtain ⟨rest, hrest, rfl⟩ := Option.map_eq_some_iff.mp h
    obtain ⟨init, row, hinit, hrow, rfl⟩ := ih hrest
    exact ⟨first :: init, row, by rw [batchRows_cons, hfirst, Option.bind_some, hinit]; rfl,
      hrow, rfl⟩

/-- **What a batch does to one id**: the row absorbs the last article of the batch with that id,
whatever came before it in the batch. -/
theorem lookup_batch (n : Nlohmann) (clock : Clock) (traceId : Bytes) (t : Table)
    {articles : List ParsedArticle} {rows : List Row}
    (h : batchRows n clock traceId articles = some rows) (id : Bytes) :
    (∀ a, lastWith id articles = some a → ∃ row, articleRow n clock traceId a = some row ∧
      (t.upsertAll onConflict rows).lookup id =
        KeyedTable.absorb onConflict (t.lookup id) row) ∧
    (lastWith id articles = none →
      (t.upsertAll onConflict rows).lookup id = t.lookup id) := by
  induction articles using List.reverseRecOn generalizing rows with
  | nil =>
    obtain rfl := Option.some.inj h
    exact ⟨fun a ha => absurd ha (by simp [lastWith]), fun _ => rfl⟩
  | append_singleton as a ih =>
    obtain ⟨init, row, hinit, hrow, rfl⟩ := batchRows_concat n clock traceId h
    obtain ⟨ihsome, ihnone⟩ := ih hinit
    have hlookup : (t.upsertAll onConflict (init ++ [row])).lookup id =
        if row.articleId = id then
          KeyedTable.absorb onConflict ((t.upsertAll onConflict init).lookup id) row
        else (t.upsertAll onConflict init).lookup id := by
      rw [← KeyedTable.lookup_upsert, KeyedTable.upsertAll, List.foldl_concat]
      rfl
    rw [hlookup, lastWith_concat, articleId_of_articleRow hrow]
    by_cases hid : a.articleId.cString = id
    · rw [if_pos hid, if_pos hid]
      refine ⟨?_, fun hnone => absurd hnone (by simp)⟩
      rintro _ ⟨⟩
      refine ⟨row, hrow, ?_⟩
      cases hlast : lastWith id as with
      | none => rw [ihnone hlast]
      | some b =>
        obtain ⟨row', hrow', hold⟩ := ihsome b hlast
        have hb : b.articleId.cString = id := by
          have hfound := List.find?_some hlast
          exact of_decide_eq_true hfound
        rw [hold, absorb_absorb hrow' hrow (hb.trans hid.symm)]
    · rw [if_neg hid, if_neg hid]
      exact ⟨ihsome, ihnone⟩

/-- The `try` block of a batch reaches its end, with these rows. -/
structure Inserts (n : Nlohmann) (calls : Calls) (clock : Clock) (articles : List ParsedArticle)
    (traceId : Bytes) (rows : List Row) : Prop where
  prepare : calls.prepare = true
  step : ∀ i < articles.length, calls.step i = .done
  rows_eq : batchRows n clock traceId articles = some rows

/-- How a call of `UpsertBatch` can end: what it returns, or none where it throws, and the
connection afterwards. -/
inductive UpsertOutcome (n : Nlohmann) (calls : Calls) (clock : Clock)
    (articles : List ParsedArticle) (traceId : Bytes) (c : Connection Table) :
    Option ℕ → Connection Table → Prop
  | empty (hempty : articles = []) : UpsertOutcome n calls clock articles traceId c (some 0) c
  | notBegun (hne : articles ≠ []) (h : c.pending ≠ none ∨ calls.beginImmediate = false) :
      UpsertOutcome n calls clock articles traceId c none c
  | notInserted (hne : articles ≠ []) (hclosed : c.pending = none)
      (hbegin : calls.beginImmediate = true)
      (h : ∀ rows, ¬ Inserts n calls clock articles traceId rows) :
      UpsertOutcome n calls clock articles traceId c none ⟨c.committed, none⟩
  | committed (rows : List Row) (hne : articles ≠ []) (hclosed : c.pending = none)
      (hbegin : calls.beginImmediate = true) (h : Inserts n calls clock articles traceId rows)
      (hcommit : calls.commit = true) :
      UpsertOutcome n calls clock articles traceId c (some articles.length)
        ⟨c.committed.upsertAll onConflict rows, none⟩
  | notCommitted (rows : List Row) (hne : articles ≠ []) (hclosed : c.pending = none)
      (hbegin : calls.beginImmediate = true) (h : Inserts n calls clock articles traceId rows)
      (hcommit : calls.commit = false) :
      UpsertOutcome n calls clock articles traceId c none
        ⟨c.committed, some (c.committed.upsertAll onConflict rows)⟩

/-- **These are the ways in which a batch ends.** -/
theorem upsertBatch_outcome (n : Nlohmann) (calls : Calls) (clock : Clock)
    (articles : List ParsedArticle) (traceId : Bytes) (c : Connection Table) :
    UpsertOutcome n calls clock articles traceId c
      (upsertBatch n calls clock articles traceId c).1
      (upsertBatch n calls clock articles traceId c).2 := by
  unfold upsertBatch
  by_cases hempty : articles = []
  · rw [if_pos hempty]
    exact .empty hempty
  rw [if_neg hempty]
  obtain ⟨t, pending⟩ := c
  cases pending with
  | some u => exact .notBegun hempty (Or.inl (by simp))
  | none =>
    cases hbegin : calls.beginImmediate with
    | false => exact .notBegun hempty (Or.inr hbegin)
    | true =>
      dsimp only [Connection.beginImmediate]
      by_cases hprepare : calls.prepare = false
      · rw [if_pos hprepare]
        exact .notInserted hempty rfl hbegin fun _ h => by simp [h.prepare] at hprepare
      · rw [if_neg hprepare]
        have hcases := insertArticles_cases n calls clock traceId articles 0 t t
        simp only [Nat.zero_add] at hcases
        rcases hcases with ⟨hok, hdone, rows, hrows, hc⟩ | ⟨hok, hbad, hc⟩
        · have hinserts : Inserts n calls clock articles traceId rows :=
            ⟨by simpa using hprepare, hdone, hrows⟩
          have hloop : insertArticles n calls clock traceId 0 articles ⟨t, some t⟩ =
              (true, ⟨t, some (t.upsertAll onConflict rows)⟩) := Prod.ext hok hc
          rw [hloop]
          cases hcommit : calls.commit with
          | true => exact .committed rows hempty rfl hbegin hinserts hcommit
          | false => exact .notCommitted rows hempty rfl hbegin hinserts hcommit
        · have hloop : insertArticles n calls clock traceId 0 articles ⟨t, some t⟩ =
              (false, (insertArticles n calls clock traceId 0 articles ⟨t, some t⟩).2) :=
            Prod.ext hok rfl
          rw [hloop]
          dsimp only [Connection.rollback]
          rw [hc]
          refine .notInserted hempty rfl hbegin fun rows h => ?_
          rcases hbad with ⟨j, hj, hne⟩ | hnone
          · exact hne (h.step j hj)
          · exact absurd (hnone.symm.trans h.rows_eq) (by simp)

/-! ## The digest query -/

/-- `ScoreWeights`. -/
structure ScoreWeights where
  votes : Double
  bookmarks : Double
  comments : Double
  views : Double
  deriving DecidableEq, Repr

/-- `kTopSql`, its column `score`. -/
def topScore (r : Rounding) (b : Bindings) (row : Row) : Value :=
  (((Value.mul r (.integer row.votes.toInt) (b.param 1)).add r
    (Value.mul r (.integer row.bookmarks.toInt) (b.param 2))).add r
    (Value.mul r (.integer row.comments.toInt) (b.param 3))).add r
    (Value.mul r (.integer row.views.toInt) (b.param 4))

/-- `kTopSql`, its `WHERE` clause. -/
def topWhere (b : Bindings) (row : Row) : Bool :=
  match b.param 5 with
  | .integer cutoff => cutoff ≤ row.firstSeenEpoch
  | .null | .real _ | .text _ => false

/-- What a row is ordered by whose score is given: descending by score, descending by votes,
ascending by id. -/
abbrev OrderKey := (ℤ ×ₗ ℚ)ᵒᵈ ×ₗ ℤ ×ₗ Bytes

/-- `kTopSql`, its `ORDER BY` clause. -/
def topOrderBy (score : Value) (row : Row) : OrderKey :=
  toLex (OrderDual.toDual score.rank, toLex (-row.votes.toInt, row.articleId))

/-- `kTopSql`, its `LIMIT` clause. -/
def topLimit (b : Bindings) (rows : List Row) : List Row :=
  match b.param 6 with
  | .integer i => if i < 0 then rows else rows.take i.toNat
  | .null | .real _ | .text _ => []

/-- `kTopSql`, the columns it selects. -/
def topSelect (r : Rounding) (b : Bindings) (row : Row) : List Value :=
  [.text row.articleId, .text row.url, .text row.title, .text row.author, .text row.hubs,
    .text row.publishedAt, .integer row.votes.toInt, .integer row.views.toInt,
    .integer row.bookmarks.toInt, .integer row.comments.toInt, .text row.traceId, topScore r b row]

/-- `kTopSql`. -/
def kTopSql (r : Rounding) (b : Bindings) (t : Table) : List (List Value) :=
  (topLimit b (Ranking.rankBy (fun row => topOrderBy (topScore r b row) row)
    (t.rows.filter (topWhere b)))).map (topSelect r b)

/-- `DecodeHubs`. -/
def decodeHubs (n : Nlohmann) (encoded : Bytes) : List Bytes :=
  (n.decode hubsCodec encoded).getD []

/-- What is read from a selected row. -/
def readArticle (n : Nlohmann) (r : Rounding) (columns : List Value) : DigestArticle :=
  let column (i : ℕ) : Value := columns.getD i .null
  { articleId := (column 0).columnText
    url := (column 1).columnText
    title := (column 2).columnText
    author := (column 3).columnText
    hubs := decodeHubs n (column 4).columnText
    publishedAt := (column 5).columnText
    votes := (column 6).columnInt64
    views := (column 7).columnInt64
    bookmarks := (column 8).columnInt64
    comments := (column 9).columnInt64
    sourceTraceId := (column 10).columnText
    score := (column 11).columnDouble r }

/-- What is bound for the digest query, at a second of the clock. -/
def bindTop (now : ℤ) (periodHours limit : UInt32) (weights : ScoreWeights) : Bindings :=
  Bindings.bindDouble 1 weights.votes []
    |> Bindings.bindDouble 2 weights.bookmarks
    |> Bindings.bindDouble 3 weights.comments
    |> Bindings.bindDouble 4 weights.views
    |> Bindings.bindInt64 5 (now - (periodHours.toNat : ℤ) * 3600)
    |> Bindings.bindInt64 6 limit.toNat

/-- `ArticleStore::TopArticles`, where its SQLite calls succeed. -/
def topArticles (n : Nlohmann) (r : Rounding) (now : ℤ) (periodHours limit : UInt32)
    (weights : ScoreWeights) (t : Table) : List DigestArticle :=
  (kTopSql r (bindTop now periodHours limit weights) t).map (readArticle n r)

/-- The score of a row, NULL where it would be a NaN. -/
def ScoreWeights.score (r : Rounding) (w : ScoreWeights) (row : Row) : Value :=
  (((Value.mul r (.integer row.votes.toInt) (.ofDouble w.votes)).add r
    (Value.mul r (.integer row.bookmarks.toInt) (.ofDouble w.bookmarks))).add r
    (Value.mul r (.integer row.comments.toInt) (.ofDouble w.comments))).add r
    (Value.mul r (.integer row.views.toInt) (.ofDouble w.views))

/-- The rows in the window of a digest. -/
def Row.inWindow (now : ℤ) (periodHours : UInt32) (row : Row) : Bool :=
  now - (periodHours.toNat : ℤ) * 3600 ≤ row.firstSeenEpoch

/-- The article of a row. -/
def digestArticle (n : Nlohmann) (r : Rounding) (w : ScoreWeights) (row : Row) : DigestArticle :=
  { articleId := row.articleId.cString
    url := row.url.cString
    title := row.title.cString
    author := row.author.cString
    publishedAt := row.publishedAt.cString
    hubs := decodeHubs n row.hubs.cString
    votes := row.votes
    views := row.views
    bookmarks := row.bookmarks
    comments := row.comments
    score := (w.score r row).columnDouble r
    sourceTraceId := row.traceId.cString }

theorem readArticle_topSelect (n : Nlohmann) (r : Rounding) (now : ℤ) (periodHours limit : UInt32)
    (w : ScoreWeights) (row : Row) :
    readArticle n r (topSelect r (bindTop now periodHours limit w) row) =
      digestArticle n r w row := by
  have hread : readArticle n r (topSelect r (bindTop now periodHours limit w) row) =
      { digestArticle n r w row with
        votes := .ofInt row.votes.toInt
        views := .ofInt row.views.toInt
        bookmarks := .ofInt row.bookmarks.toInt
        comments := .ofInt row.comments.toInt } := rfl
  rw [hread]
  simp only [Int64.ofInt_toInt]
  rfl

/-- The key of a row in the ranking of a digest. -/
def rankingKey (r : Rounding) (w : ScoreWeights) (row : Row) : OrderKey :=
  topOrderBy (w.score r row) row

/-- **The six parameters and the twelve columns line up**: the digest is a prefix of the ranking
of the rows in the window. -/
theorem topArticles_eq (n : Nlohmann) (r : Rounding) (now : ℤ) (periodHours limit : UInt32)
    (w : ScoreWeights) (t : Table) :
    topArticles n r now periodHours limit w t =
      ((Ranking.rankBy (rankingKey r w) (t.rows.filter (Row.inWindow now periodHours))).take
        limit.toNat).map (digestArticle n r w) := by
  have hlimit : ∀ rows, topLimit (bindTop now periodHours limit w) rows =
      rows.take limit.toNat := by
    intro rows
    show (if ((limit.toNat : ℤ) < 0) then rows else rows.take (limit.toNat : ℤ).toNat) = _
    rw [if_neg (by omega), Int.toNat_natCast]
  have hread : readArticle n r ∘ topSelect r (bindTop now periodHours limit w) =
      digestArticle n r w := funext fun row => readArticle_topSelect n r now periodHours limit w row
  unfold topArticles kTopSql
  rw [List.map_map, hread, hlimit]
  rfl

end Storage
end HabrDigest
