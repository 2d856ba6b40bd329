import HabrDigest.Lib.JsonText
import HabrDigest.Storage.ArticleStore
import Mathlib.Data.List.Find

/-!
# The article store as a history

What the store is for, without a database: a list of batches, each with the clock at which it
came in.  An id belongs to the window of a digest by the first batch that mentions it, and the
digest shows it as the last batch that mentions it has it, the last article with that id if
there are several.  The digest is a prefix of these articles, ranked by score, votes and id.

`lookup_of_successful` is the refinement.  Whatever batches were written, the row of an id is
the last article with that id, except for the two columns that say when it was first seen,
which are those of the first batch; one batch preserves this (`Refines.concat`).  From there
`topArticles_eq_ranking` is a matter of two lists of articles that are permutations of each
other being sorted by the same key.

Scores are exact here, and weights are rationals.
-/

namespace HabrDigest
namespace Storage

open Messaging Common Sqlite

/-- A batch as it is handed to `UpsertBatch`, with the clock of the call. -/
structure Batch where
  clock : Clock
  traceId : Bytes
  articles : List ParsedArticle

/-- Weights that are numbers. -/
structure Weights where
  votes : ℚ
  bookmarks : ℚ
  comments : ℚ
  views : ℚ

/-- The weights as the store takes them. -/
def Weights.toScoreWeights (w : Weights) : ScoreWeights :=
  ⟨.finite w.votes, .finite w.bookmarks, .finite w.comments, .finite w.views⟩

/-- The weighted sum of the counters of an article. -/
def Weights.total (w : Weights) (votes bookmarks comments views : Int64) : ℚ :=
  votes.toInt * w.votes + bookmarks.toInt * w.bookmarks + comments.toInt * w.comments +
    views.toInt * w.views

namespace Batch

/-- The batch has an article with this id. -/
def mentions (b : Batch) (id : Bytes) : Bool := b.articles.any fun a => a.articleId = id

/-- Its last article with this id. -/
def last (b : Batch) (id : Bytes) : Option ParsedArticle :=
  b.articles.reverse.find? fun a => a.articleId = id

/-- Its strings are free of NUL bytes. -/
def NulFree (b : Batch) : Prop :=
  0 ∉ b.traceId ∧ ∀ a ∈ b.articles, ∀ s ∈ a.strings, 0 ∉ s

instance (b : Batch) : Decidable b.NulFree := inferInstanceAs (Decidable (_ ∧ _))

theorem last_eq_none_iff {b : Batch} {id : Bytes} : b.last id = none ↔ b.mentions id = false := by
  unfold last mentions
  rw [List.find?_eq_none, List.any_eq_false]
  simp only [List.mem_reverse]

theorem last_spec {b : Batch} {id : Bytes} {a : ParsedArticle} (h : b.last id = some a) :
    a ∈ b.articles ∧ a.articleId = id := by
  have hfound := List.find?_some h
  exact ⟨List.mem_reverse.mp (List.mem_of_find?_eq_some h), of_decide_eq_true hfound⟩

theorem lastWith_eq_last {b : Batch} (h : b.NulFree) (id : Bytes) :
    lastWith id b.articles = b.last id := by
  have hid : ∀ a ∈ b.articles.reverse, a.articleId.cString = a.articleId := fun a ha =>
    Bytes.cString_eq_self (h.2 a (List.mem_reverse.mp ha) _ (by simp [ParsedArticle.strings]))
  refine List.find?_congr fun a ha => ?_
  rw [hid a ha]

end Batch

/-! ## The digest of a history -/

namespace History

/-- The first batch that mentions an id. -/
def firstBatch (h : List Batch) (id : Bytes) : Option Batch := h.find? fun b => b.mentions id

/-- The last batch that mentions an id. -/
def lastBatch (h : List Batch) (id : Bytes) : Option Batch :=
  h.reverse.find? fun b => b.mentions id

/-- The ids of a history. -/
def ids (h : List Batch) : List Bytes :=
  (h.flatMap fun b => b.articles.map ParsedArticle.articleId).dedup

/-- An id is in the window if its first batch came in late enough. -/
def inWindow (h : List Batch) (now : ℤ) (periodHours : UInt32) (id : Bytes) : Bool :=
  (firstBatch h id).any fun b => now - (periodHours.toNat : ℤ) * 3600 ≤ b.clock.epoch

/-- An id as a digest shows it. -/
def article (w : Weights) (h : List Batch) (id : Bytes) : Option DigestArticle :=
  (lastBatch h id).bind fun b => (b.last id).map fun a =>
    { articleId := id
      url := a.url
      title := a.title
      author := a.author
      publishedAt := a.publishedAt
      hubs := a.hubs
      votes := a.votes
      views := a.views
      bookmarks := a.bookmarks
      comments := a.comments
      score := .finite (w.total a.votes a.bookmarks a.comments a.views)
      sourceTraceId := b.traceId }

/-- An article comes before another one: its score is higher, or at equal scores its votes are,
or at equal votes its id is the smaller one. -/
def Precedes (w : Weights) (a b : DigestArticle) : Prop :=
  let score (e : DigestArticle) : ℚ := w.total e.votes e.bookmarks e.comments e.views
  score b < score a ∨ score a = score b ∧
    (b.votes.toInt < a.votes.toInt ∨ a.votes.toInt = b.votes.toInt ∧ a.articleId < b.articleId)

/-- The key whose order that is. -/
def key (w : Weights) (e : DigestArticle) : ℚᵒᵈ ×ₗ ℤᵒᵈ ×ₗ Bytes :=
  toLex (.toDual (w.total e.votes e.bookmarks e.comments e.views),
    toLex (.toDual e.votes.toInt, e.articleId))

/-- The articles of the window, ranked. -/
def ranking (w : Weights) (h : List Batch) (now : ℤ) (periodHours : UInt32) :
    List DigestArticle :=
  Ranking.rankBy (key w) (((ids h).filter (inWindow h now periodHours)).filterMap (article w h))

theorem key_lt_iff (w : Weights) (a b : DigestArticle) : key w a < key w b ↔ Precedes w a b := by
  unfold key Precedes
  rw [Prod.Lex.toLex_lt_toLex, Prod.Lex.toLex_lt_toLex]
  simp only [OrderDual.toDual_lt_toDual, OrderDual.toDual_inj]

variable {h : List Batch} {id : Bytes}

theorem firstBatch_concat (b : Batch) :
    firstBatch (h ++ [b]) id =
      (firstBatch h id).or (if b.mentions id = true then some b else none) := by
  unfold firstBatch
  rw [List.find?_append, List.find?_singleton]

theorem lastBatch_concat (b : Batch) :
    lastBatch (h ++ [b]) id = if b.mentions id = true then some b else lastBatch h id := by
  unfold lastBatch
  rw [List.reverse_concat, List.find?_cons]
  cases b.mentions id <;> rfl

theorem mem_ids_iff : id ∈ ids h ↔ (firstBatch h id).isSome = true := by
  unfold ids firstBatch Batch.mentions
  rw [List.mem_dedup, List.find?_isSome]
  simp only [List.mem_flatMap, List.mem_map, List.any_eq_true, decide_eq_true_eq]

theorem articleId_of_article {w : Weights} {e : DigestArticle} (he : article w h id = some e) :
    e.articleId = id := by
  obtain ⟨b, -, hb⟩ := Option.bind_eq_some_iff.mp he
  obtain ⟨a, -, rfl⟩ := Option.map_eq_some_iff.mp hb
  rfl

end History

/-! ## What is in the table -/

/-- A row that says what the history says about an id. -/
def RowOf (n : Nlohmann) (h : List Batch) (id : Bytes) (row : Row) : Prop :=
  ∃ first latest a fresh, History.firstBatch h id = some first ∧
    History.lastBatch h id = some latest ∧ latest.last id = some a ∧
    articleRow n latest.clock latest.traceId a = some fresh ∧
    row = { fresh with
      firstSeenAt := (nowIso8601Utc first.clock.iso).cString
      firstSeenEpoch := first.clock.epoch }

/-- The table says what the history says. -/
def Refines (n : Nlohmann) (h : List Batch) (t : Table) : Prop :=
  ∀ id, (History.firstBatch h id = none ∧ t.lookup id = none) ∨
    ∃ row, t.lookup id = some row ∧ RowOf n h id row

/-- The batches that were written one after the other to an empty table, every call having
returned, and the connection they leave. -/
inductive Successful (n : Nlohmann) : List Batch → Connection Table → Prop
  | nil : Successful n [] ⟨.empty, none⟩
  | concat {h : List Batch} {c c' : Connection Table} {b : Batch} (calls : Calls) (written : ℕ)
      (hprev : Successful n h c)
      (hcall : upsertBatch n calls b.clock b.articles b.traceId c = (some written, c')) :
      Successful n (h ++ [b]) c'

/-- **One batch keeps the refinement.** -/
theorem Refines.concat {n : Nlohmann} {h : List Batch} {t : Table} (hrefines : Refines n h t)
    {b : Batch} (hb : b.NulFree) {rows : List Row}
    (hrows : batchRows n b.clock b.traceId b.articles = some rows) :
    Refines n (h ++ [b]) (t.upsertAll onConflict rows) := by
  intro id
  obtain ⟨hsome, hnone⟩ := lookup_batch n b.clock b.traceId t hrows id
  rw [Batch.lastWith_eq_last hb] at hsome hnone
  cases hlast : b.last id with
  | none =>
    -- the batch does not mention the id: nothing changes on either side
    have hmentions : ¬ b.mentions id = true := by simp [Batch.last_eq_none_iff.mp hlast]
    rw [hnone hlast]
    rcases hrefines id with ⟨hfirst, hold⟩ | ⟨row, hold, first, latest, a, fresh, hfirst, hlatest,
      hrow⟩
    · refine Or.inl ⟨?_, hold⟩
      rw [History.firstBatch_concat, hfirst, if_neg hmentions]
      rfl
    · refine Or.inr ⟨row, hold, first, latest, a, fresh, ?_, ?_, hrow⟩
      · rw [History.firstBatch_concat, hfirst]
        rfl
      · rw [History.lastBatch_concat, if_neg hmentions, hlatest]
  | some a =>
    have hmentions : b.mentions id = true := by
      by_contra h
      exact absurd (Batch.last_eq_none_iff.mpr (by simpa using h)) (by simp [hlast])
    have hlatest : History.lastBatch (h ++ [b]) id = some b := by
      rw [History.lastBatch_concat, if_pos hmentions]
    obtain ⟨fresh, hfresh, hlookup⟩ := hsome a hlast
    obtain ⟨hmem, hid⟩ := Batch.last_spec hlast
    have hfreshId : fresh.articleId = id := by
      rw [articleId_of_articleRow hfresh, hid]
      exact Bytes.cString_eq_self (hid ▸ hb.2 a hmem _ (by simp [ParsedArticle.strings]))
    rw [hlookup]
    rcases hrefines id with ⟨hfirst, hold⟩ | ⟨row, hold, first, _, _, _, hfirst, _, _, _, hrow⟩
    · refine Or.inr ⟨fresh, by rw [hold]; rfl, b, b, a, fresh, ?_, hlatest, hlast, hfresh, ?_⟩
      · rw [History.firstBatch_concat, hfirst, if_pos hmentions]
        rfl
      · obtain ⟨hubs, -, rfl⟩ := Option.map_eq_some_iff.mp hfresh
        rfl
    · refine Or.inr ⟨onConflict.merge row fresh, by rw [hold]; rfl, first, b, a, fresh, ?_, hlatest,
        hlast, hfresh, ?_⟩
      · rw [History.firstBatch_concat, hfirst]
        rfl
      · rw [onConflict_merge ((KeyedTable.key_of_lookup hold).trans hfreshId.symm), hrow]

/-- **The refinement holds after every successful history.** -/
theorem lookup_of_successful {n : Nlohmann} {h : List Batch} {c : Connection Table}
    (hs : Successful n h c) (hnul : ∀ b ∈ h, b.NulFree) :
    c.pending = none ∧ Refines n h c.committed := by
  induction hs with
  | nil => exact ⟨rfl, fun id => Or.inl ⟨rfl, rfl⟩⟩
  | @concat h c c' b calls written hprev hcall ih =>
    obtain ⟨hclosed, hrefines⟩ := ih fun b' hb' => hnul b' (List.mem_append_left _ hb')
    have hb : b.NulFree := hnul b (by simp)
    have houtcome := upsertBatch_outcome n calls b.clock b.articles b.traceId c
    rw [hcall] at houtcome
    cases houtcome with
    | empty hempty =>
      refine ⟨hclosed, ?_⟩
      have hrows : batchRows n b.clock b.traceId b.articles = some [] := by rw [hempty]; rfl
      exact hrefines.concat hb hrows
    | committed rows _ _ _ hinserts _ => exact ⟨rfl, hrefines.concat hb hinserts.rows_eq⟩

/-! ## What is in the digest -/

/-- With exact arithmetic the score of a row is the weighted sum. -/
theorem score_exact (w : Weights) (row : Row) :
    w.toScoreWeights.score .exact row =
      .real (.finite (w.total row.votes row.bookmarks row.comments row.views)) := by
  simp [ScoreWeights.score, Weights.toScoreWeights, Weights.total, Value.mul, Value.add,
    Value.toDouble, Value.ofDouble, Double.mul, Double.add, Rounding.exact]

/-- The hubs of an article are read as they were written. -/
theorem decodeHubs_of_encode {n : Nlohmann} {hubs : List Bytes} {encoded : Bytes}
    (h : n.encode hubsCodec hubs = some encoded) : decodeHubs n encoded.cString = hubs := by
  have hlossless : hubsCodec.Lossless hubs :=
    Codec.lossless_list fun s _ => Codec.lossless_string s
  rw [Bytes.cString_eq_self (n.zero_notMem_dump _ _ h), decodeHubs,
    Nlohmann.decode_encode_of_lossless hlossless h, Option.getD_some]

/-- **An article is read from its row as the history has it.** -/
theorem article_of_rowOf {n : Nlohmann} {h : List Batch} (hnul : ∀ b ∈ h, b.NulFree) {id : Bytes}
    {row : Row} (hrow : RowOf n h id row) (w : Weights) :
    History.article w h id = some (digestArticle n .exact w.toScoreWeights row) := by
  obtain ⟨first, latest, a, fresh, -, hlatest, hlast, hfresh, rfl⟩ := hrow
  obtain ⟨hubs, hhubs, rfl⟩ := Option.map_eq_some_iff.mp hfresh
  obtain ⟨hmem, rfl⟩ := Batch.last_spec hlast
  have hb : latest.NulFree :=
    hnul latest (List.mem_reverse.mp (List.mem_of_find?_eq_some hlatest))
  have hkeep : ∀ s ∈ a.strings, Bytes.cString s = s := fun s hs =>
    Bytes.cString_eq_self (hb.2 a hmem s hs)
  simp only [ParsedArticle.strings, List.cons_append, List.nil_append,
    List.forall_mem_cons] at hkeep
  rw [History.article, hlatest, Option.bind_some, hlast, Option.map_some, digestArticle,
    score_exact]
  simp only [hkeep, Bytes.cString_eq_self hb.1, decodeHubs_of_encode hhubs]
  rfl

/-- The order of the query is the one of the history. -/
theorem rankingKey_le_iff (n : Nlohmann) (w : Weights) {a b : Row} (ha : 0 ∉ a.articleId)
    (hb : 0 ∉ b.articleId) :
    rankingKey .exact w.toScoreWeights a ≤ rankingKey .exact w.toScoreWeights b ↔
      History.key w (digestArticle n .exact w.toScoreWeights a) ≤
        History.key w (digestArticle n .exact w.toScoreWeights b) := by
  unfold rankingKey topOrderBy History.key
  rw [score_exact, score_exact]
  simp only [Prod.Lex.toLex_le_toLex, Value.rank, OrderDual.toDual_lt_toDual,
    Prod.Lex.toLex_lt_toLex, digestArticle, Bytes.cString_eq_self ha, Bytes.cString_eq_self hb,
    neg_lt_neg_iff, neg_inj, lt_irrefl, false_or, true_and, EmbeddingLike.apply_eq_iff_eq,
    Prod.mk.injEq]

theorem mem_window_iff {n : Nlohmann} {h : List Batch} {t : Table} (hrefines : Refines n h t)
    (now : ℤ) (periodHours : UInt32) (id : Bytes) :
    id ∈ (History.ids h).filter (History.inWindow h now periodHours) ↔
      ∃ row ∈ t.rows, row.articleId = id ∧ row.inWindow now periodHours = true ∧
        RowOf n h id row := by
  rw [List.mem_filter, History.mem_ids_iff]
  constructor
  · rintro ⟨hids, hwindow⟩
    rcases hrefines id with ⟨hnone, -⟩ | ⟨row, hlookup, hrow⟩
    · exact absurd hids (by simp [hnone])
    · refine ⟨row, KeyedTable.mem_of_lookup hlookup, KeyedTable.key_of_lookup hlookup, ?_, hrow⟩
      obtain ⟨first, _, _, _, hfirst, _, _, _, rfl⟩ := hrow
      simpa [History.inWindow, hfirst, Row.inWindow] using hwindow
  · rintro ⟨row, -, -, hwindow, first, _, _, _, hfirst, _, _, _, rfl⟩
    exact ⟨by simp [hfirst], by simpa [History.inWindow, hfirst, Row.inWindow] using hwindow⟩

/-- Every row of the table is the row of its id. -/
theorem rowOf_of_mem {n : Nlohmann} {h : List Batch} {t : Table} (hrefines : Refines n h t)
    {row : Row} (hrow : row ∈ t.rows) : RowOf n h row.articleId row := by
  have hlookup := KeyedTable.mem_rows_iff.mp hrow
  rcases hrefines row.articleId with ⟨-, hnone⟩ | ⟨row', hsome, hrow'⟩
  · exact absurd (hlookup.symm.trans hnone) (by simp)
  · obtain rfl := Option.some.inj (hlookup.symm.trans hsome)
    exact hrow'

theorem zero_notMem_of_rowOf {n : Nlohmann} {h : List Batch} (hnul : ∀ b ∈ h, b.NulFree)
    {id : Bytes} {row : Row} (hrow : RowOf n h id row) : 0 ∉ id := by
  obtain ⟨-, latest, a, -, -, hlatest, hlast, -, -⟩ := hrow
  obtain ⟨hmem, rfl⟩ := Batch.last_spec hlast
  have hb := hnul latest (List.mem_reverse.mp (List.mem_of_find?_eq_some hlatest))
  exact hb.2 a hmem _ (by simp [ParsedArticle.strings])

/-- The window of the table and the window of the history are the same articles. -/
theorem window_perm {n : Nlohmann} {h : List Batch} {t : Table} (hrefines : Refines n h t)
    (hnul : ∀ b ∈ h, b.NulFree) (now : ℤ) (periodHours : UInt32) (w : Weights) :
    ((t.rows.filter (Row.inWindow now periodHours)).map
        (digestArticle n .exact w.toScoreWeights)).Perm
      (((History.ids h).filter (History.inWindow h now periodHours)).filterMap
        (History.article w h)) := by
  have hid : ∀ row ∈ t.rows, row.articleId.cString = row.articleId := fun row hrow =>
    Bytes.cString_eq_self (zero_notMem_of_rowOf hnul (rowOf_of_mem hrefines hrow))
  refine (List.perm_ext_iff_of_nodup ?_ ?_).mpr fun e => ?_
  · refine List.Nodup.of_map DigestArticle.articleId ?_
    have hmap : (t.rows.filter (Row.inWindow now periodHours)).map
        (DigestArticle.articleId ∘ digestArticle n .exact w.toScoreWeights) =
        (t.rows.filter (Row.inWindow now periodHours)).map Row.articleId :=
      List.map_congr_left fun row hrow => hid row (List.mem_of_mem_filter hrow)
    rw [List.map_map, hmap]
    exact t.nodup.sublist (List.filter_sublist.map _)
  · refine ((List.nodup_dedup _).filter _).filterMap fun id id' e he he' => ?_
    rw [← History.articleId_of_article he, History.articleId_of_article he']
  · simp only [List.mem_map, List.mem_filterMap, List.mem_filter (p := Row.inWindow _ _)]
    constructor
    · rintro ⟨row, ⟨hrow, hwindow⟩, rfl⟩
      have hrowOf := rowOf_of_mem hrefines hrow
      exact ⟨row.articleId, (mem_window_iff hrefines now periodHours _).mpr
        ⟨row, hrow, rfl, hwindow, hrowOf⟩, article_of_rowOf hnul hrowOf w⟩
    · rintro ⟨id, hmem, he⟩
      obtain ⟨row, hrow, -, hwindow, hrowOf⟩ := (mem_window_iff hrefines now periodHours id).mp hmem
      exact ⟨row, ⟨hrow, hwindow⟩,
        Option.some.inj ((article_of_rowOf hnul hrowOf w).symm.trans he)⟩

/-- Articles with different ids have different keys. -/
theorem nodup_map_key {w : Weights} {es : List DigestArticle}
    (h : (es.map DigestArticle.articleId).Nodup) : (es.map (History.key w)).Nodup := by
  refine List.Nodup.of_map (fun k => (ofLex (ofLex k).2).2) ?_
  rw [List.map_map]
  exact h

/-- The ids of the window, each as the digest shows it. -/
theorem articleId_filterMap_article {w : Weights} {h : List Batch} {is : List Bytes}
    (hmem : ∀ id ∈ is, (History.article w h id).isSome = true) :
    (is.filterMap (History.article w h)).map DigestArticle.articleId = is := by
  induction is with
  | nil => rfl
  | cons id is ih =>
    obtain ⟨hid, his⟩ := List.forall_mem_cons.mp hmem
    obtain ⟨e, he⟩ := Option.isSome_iff_exists.mp hid
    rw [List.filterMap_cons_some he, List.map_cons, ih his, History.articleId_of_article he]

theorem articleId_window {n : Nlohmann} {h : List Batch} {t : Table} (hrefines : Refines n h t)
    (hnul : ∀ b ∈ h, b.NulFree) (now : ℤ) (periodHours : UInt32) (w : Weights) :
    (((History.ids h).filter (History.inWindow h now periodHours)).filterMap
        (History.article w h)).map DigestArticle.articleId =
      (History.ids h).filter (History.inWindow h now periodHours) := by
  refine articleId_filterMap_article fun id hid => ?_
  obtain ⟨row, -, -, -, hrowOf⟩ := (mem_window_iff hrefines now periodHours id).mp hid
  rw [article_of_rowOf hnul hrowOf w]
  rfl

theorem nodup_key_window {n : Nlohmann} {h : List Batch} {t : Table} (hrefines : Refines n h t)
    (hnul : ∀ b ∈ h, b.NulFree) (now : ℤ) (periodHours : UInt32) (w : Weights) :
    ((((History.ids h).filter (History.inWindow h now periodHours)).filterMap
      (History.article w h)).map (History.key w)).Nodup := by
  refine nodup_map_key ?_
  rw [articleId_window hrefines hnul]
  exact (List.nodup_dedup _).filter _

/-- A table with the rows of a refinement, in whatever order, gives the ranking. -/
theorem topArticles_of_perm {n : Nlohmann} {h : List Batch} {t t' : Table}
    (hrefines : Refines n h t) (hnul : ∀ b ∈ h, b.NulFree) (ht : t'.rows.Perm t.rows) (now : ℤ)
    (periodHours limit : UInt32) (w : Weights) :
    topArticles n .exact now periodHours limit w.toScoreWeights t' =
      (History.ranking w h now periodHours).take limit.toNat := by
  have hzero : ∀ row ∈ t'.rows, 0 ∉ row.articleId := fun row hrow =>
    zero_notMem_of_rowOf hnul (rowOf_of_mem hrefines (ht.mem_iff.mp hrow))
  have hsorted : (Ranking.rankBy (rankingKey .exact w.toScoreWeights)
      (t'.rows.filter (Row.inWindow now periodHours))).map
        (digestArticle n .exact w.toScoreWeights) =
      Ranking.rankBy (History.key w) ((t'.rows.filter (Row.inWindow now periodHours)).map
        (digestArticle n .exact w.toScoreWeights)) := by
    refine List.map_insertionSort _ _ _ _ fun a ha b hb => ?_
    exact rankingKey_le_iff n w (hzero a (List.mem_of_mem_filter ha))
      (hzero b (List.mem_of_mem_filter hb))
  have hwindow := ((ht.filter (Row.inWindow now periodHours)).map
    (digestArticle n .exact w.toScoreWeights)).trans (window_perm hrefines hnul now periodHours w)
  have hnodup := nodup_key_window hrefines hnul now periodHours w
  rw [topArticles_eq, List.map_take, hsorted,
    Ranking.rankBy_eq_of_perm _ hwindow ((hwindow.map _).nodup_iff.mpr hnodup)]
  rfl

/-- **The article store refines a plain history.**  After any successful batches, the digest is
the first articles of the ranking of the ids whose first batch is in the window, each as its
last batch has it; the ranking is strict, no id appears twice, and the order in which rows were
inserted does not matter. -/
theorem topArticles_eq_ranking (n : Nlohmann) {h : List Batch} {c : Connection Table}
    (hs : Successful n h c) (hnul : ∀ b ∈ h, b.NulFree) (now : ℤ) (periodHours limit : UInt32)
    (w : Weights) :
    let ranking := History.ranking w h now periodHours
    let top := topArticles n .exact now periodHours limit w.toScoreWeights
    top c.visible = ranking.take limit.toNat ∧
    ranking.Pairwise (History.Precedes w) ∧
    (ranking.map DigestArticle.articleId).Perm
      ((History.ids h).filter (History.inWindow h now periodHours)) ∧
    (∀ e ∈ ranking, History.article w h e.articleId = some e) ∧
    ((top c.visible).map DigestArticle.articleId).Nodup ∧
    ∀ t : Table, t.rows.Perm c.visible.rows → top t = top c.visible := by
  obtain ⟨hclosed, hrefines⟩ := lookup_of_successful hs hnul
  rw [Connection.visible_of_pending_eq_none hclosed]
  dsimp only
  have hperm : ((History.ranking w h now periodHours).map DigestArticle.articleId).Perm
      ((History.ids h).filter (History.inWindow h now periodHours)) :=
    ((Ranking.rankBy_perm _ _).map _).trans (.of_eq (articleId_window hrefines hnul now _ w))
  have htop : ∀ t : Table, t.rows.Perm c.committed.rows →
      topArticles n .exact now periodHours limit w.toScoreWeights t =
        (History.ranking w h now periodHours).take limit.toNat :=
    fun t ht => topArticles_of_perm hrefines hnul ht now periodHours limit w
  refine ⟨htop _ (.refl _), ?_, hperm, ?_, ?_, fun t ht => ?_⟩
  · exact (Ranking.rankBy_pairwise_lt _ (nodup_key_window hrefines hnul now periodHours w)).imp
      fun hlt => (History.key_lt_iff w _ _).mp hlt
  · intro e he
    obtain ⟨id, -, hid⟩ := List.mem_filterMap.mp ((Ranking.mem_rankBy _).mp he)
    rw [History.articleId_of_article hid, hid]
  · rw [htop _ (.refl _), List.map_take]
    exact (hperm.nodup_iff.mpr ((List.nodup_dedup _).filter _)).sublist (List.take_sublist _ _)
  · rw [htop t ht, htop _ (.refl _)]

/-- Two batches with one id: the second one is what the digest shows. -/
theorem topArticles_eq_ranking_twoBatches :
    let first : Batch := ⟨⟨100, 100⟩, utf8 "t1", [{ articleId := utf8 "1", votes := 1 }]⟩
    let second : Batch := ⟨⟨200, 200⟩, utf8 "t2", [{ articleId := utf8 "1", votes := 7 }]⟩
    let c₁ := (upsertBatch .reference .succeed first.clock first.articles first.traceId
      ⟨.empty, none⟩).2
    let c₂ := (upsertBatch .reference .succeed second.clock second.articles second.traceId c₁).2
    Successful .reference [first, second] c₂ ∧ (∀ b ∈ [first, second], b.NulFree) ∧
    topArticles .reference .exact 300 1 10 (Weights.toScoreWeights ⟨10, 5, 2, 1 / 200⟩) c₂.visible =
      (History.ranking ⟨10, 5, 2, 1 / 200⟩ [first, second] 300 1).take 10 := by
  intro first second c₁ c₂
  have hs : Successful .reference [first, second] c₂ :=
    .concat .succeed 1 (.concat .succeed 1 .nil rfl) rfl
  have hnul : ∀ b ∈ [first, second], b.NulFree := by decide
  exact ⟨hs, hnul, (topArticles_eq_ranking .reference hs hnul 300 1 10 ⟨10, 5, 2, 1 / 200⟩).1⟩

end Storage
end HabrDigest
