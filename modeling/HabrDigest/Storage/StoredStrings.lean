import HabrDigest.Storage.DigestTick
import HabrDigest.Storage.History
import Mathlib.Data.List.Find

/-!
# Which strings the store keeps

`BindText` binds a `std::string` as a C string, with the length left to SQLite.  What stands
behind a NUL byte of a string is lost, and JSON can carry a NUL in any string.  The hubs do not
mind: they are bound as JSON text, where a NUL is written out.  The id of an article minds
most, because it is the key: two ids that differ behind a NUL only are one row.

`KeepsStrings` says what a store should do with the strings of a message.  A digest of the
whole table has one entry for every id of the message, with the strings of its last article;
every id has a row of its own; and the rows of all other ids are what they were.
`keepsStrings_iff` says when that is so.  The ids of the message and the strings that a digest
shows must be free of NUL bytes; and no row of the table may have a key that reads as one of
these ids and is longer.  The store never writes a row like that, so this concerns a
database from elsewhere only.
-/

namespace HabrDigest
namespace Storage

open Messaging Common Sqlite

/-! ## What should be kept -/

/-- The last article of a message with an id. -/
def lastOccurrence (m : ParsedArticlesMessage) (id : Bytes) : Option ParsedArticle :=
  m.articles.reverse.find? fun a => a.articleId = id

/-- An entry of a digest has the strings of an article of a message. -/
structure Shows (m : ParsedArticlesMessage) (a : ParsedArticle) (e : DigestArticle) : Prop where
  articleId : e.articleId = a.articleId
  url : e.url = a.url
  title : e.title = a.title
  author : e.author = a.author
  hubs : e.hubs = a.hubs
  publishedAt : e.publishedAt = a.publishedAt
  sourceTraceId : e.sourceTraceId = m.traceId

/-- The window and the limit of a query cover all rows. -/
structure Covers (now : ℤ) (periodHours limit : UInt32) (t : Table) : Prop where
  window : ∀ row ∈ t.rows, row.inWindow now periodHours = true
  limit : t.rows.length ≤ limit.toNat

/-- **The store keeps every string of a message**: between two tables, with the digest of the
second one. -/
structure KeepsStrings (m : ParsedArticlesMessage) (before after : Table)
    (top : List DigestArticle) : Prop where
  /-- There is one entry for each id, and it shows the last article. -/
  shown : ∀ id a, lastOccurrence m id = some a →
    ∃ e, top.filter (fun e => e.articleId = id) = [e] ∧ Shows m a e
  /-- Each id has a row of its own. -/
  apart : ∀ a ∈ m.articles, ∃ row ∈ after.rows, row.articleId = a.articleId
  /-- The other rows are unchanged. -/
  others : ∀ id, (∀ a ∈ m.articles, a.articleId ≠ id) → after.lookup id = before.lookup id

/-- The ids of a message, and the strings of it that a digest shows, are free of NUL bytes.  It
does not matter what is in an article that a later one with its id replaces. -/
structure NulFree (m : ParsedArticlesMessage) : Prop where
  ids : ∀ a ∈ m.articles, 0 ∉ a.articleId
  shown : ∀ id a, lastOccurrence m id = some a →
    ∀ s ∈ [a.url, a.title, a.author, a.publishedAt, m.traceId], 0 ∉ s

/-- No row of the table has a key that reads as an id of the message and is longer. -/
def NoLongerKey (m : ParsedArticlesMessage) (t : Table) : Prop :=
  ∀ row ∈ t.rows, 0 ∈ row.articleId → ∀ a ∈ m.articles, row.articleId.cString ≠ a.articleId

/-! ## Last articles -/

theorem lastOccurrence_spec {m : ParsedArticlesMessage} {id : Bytes} {a : ParsedArticle}
    (h : lastOccurrence m id = some a) : a ∈ m.articles ∧ a.articleId = id := by
  have hfound := List.find?_some h
  exact ⟨List.mem_reverse.mp (List.mem_of_find?_eq_some h), of_decide_eq_true hfound⟩

theorem exists_lastOccurrence {m : ParsedArticlesMessage} {a : ParsedArticle}
    (ha : a ∈ m.articles) : ∃ b, lastOccurrence m a.articleId = some b := by
  refine Option.isSome_iff_exists.mp (List.find?_isSome.mpr ?_)
  exact ⟨a, List.mem_reverse.mpr ha, decide_eq_true rfl⟩

/-- Where no id has a NUL, the last article with an id is the last one stored under it. -/
theorem lastWith_eq_lastOccurrence {m : ParsedArticlesMessage}
    (h : ∀ a ∈ m.articles, 0 ∉ a.articleId) (id : Bytes) :
    lastWith id m.articles = lastOccurrence m id := by
  have hid : ∀ a ∈ m.articles.reverse, a.articleId.cString = a.articleId := fun a ha =>
    Bytes.cString_eq_self (h a (List.mem_reverse.mp ha))
  unfold lastWith lastOccurrence
  exact List.find?_congr fun a ha => by rw [hid a ha]

/-! ## What a delivery leaves -/

/-- **A message that was committed is in the table** that the connection shows, also where a
transaction is open and the message is empty. -/
theorem visible_of_committedMessage {n : Nlohmann} {calls : Calls} (counts : Bool) {clock : Clock}
    {payload : Bytes} {c : Connection Table} {m : ParsedArticlesMessage}
    (h : committedMessage n calls clock payload c = some m) :
    ∃ rows, batchRows n clock m.traceId m.articles = some rows ∧
      (handleParsedArticles n calls counts clock payload c).2.visible =
        c.visible.upsertAll onConflict rows := by
  unfold committedMessage at h
  obtain ⟨hdecode, hwritten⟩ := Option.filter_eq_some_iff.mp h
  unfold handleParsedArticles
  rw [hdecode]
  dsimp only
  have houtcome := upsertBatch_outcome n calls clock m.articles m.traceId c
  generalize upsertBatch n calls clock m.articles m.traceId c = result at houtcome hwritten ⊢
  obtain ⟨written, c'⟩ := result
  cases houtcome with
  | empty hempty =>
    have hrows : batchRows n clock m.traceId m.articles = some [] := by
      rw [hempty]
      rfl
    exact ⟨[], hrows, by cases counts <;> rfl⟩
  | notBegun | notInserted | notCommitted => exact absurd hwritten (by simp)
  | committed rows _ hclosed _ hinserts _ =>
    refine ⟨rows, hinserts.rows_eq, ?_⟩
    rw [Connection.visible_of_pending_eq_none hclosed]
    cases counts <;> rfl

/-- The row of an id after a batch shows the last article with that id, if no id has a NUL. -/
theorem lookup_of_lastOccurrence {n : Nlohmann} {clock : Clock} {m : ParsedArticlesMessage}
    (hids : ∀ a ∈ m.articles, 0 ∉ a.articleId) (t : Table) {rows : List Row}
    (hrows : batchRows n clock m.traceId m.articles = some rows) {id : Bytes} {a : ParsedArticle}
    (ha : lastOccurrence m id = some a) :
    ∃ row firstSeenAt firstSeenEpoch, articleRow n clock m.traceId a = some row ∧
      (t.upsertAll onConflict rows).lookup id =
        some { row with firstSeenAt := firstSeenAt, firstSeenEpoch := firstSeenEpoch } := by
  obtain ⟨hmem, hid⟩ := lastOccurrence_spec ha
  obtain ⟨row, hrow, hlookup⟩ := (lookup_batch n clock m.traceId t hrows id).1 a
    ((lastWith_eq_lastOccurrence hids id).trans ha)
  cases hold : t.lookup id with
  | none => exact ⟨row, row.firstSeenAt, row.firstSeenEpoch, hrow, by rw [hlookup, hold]; rfl⟩
  | some old =>
    have hkey : old.articleId = row.articleId := by
      rw [KeyedTable.key_of_lookup hold, articleId_of_articleRow hrow, ← hid,
        Bytes.cString_eq_self (hids a hmem)]
    refine ⟨row, old.firstSeenAt, old.firstSeenEpoch, hrow, ?_⟩
    rw [hlookup, hold, ← onConflict_merge hkey]
    rfl

/-- A row with a NUL in its key is none that the batch wrote. -/
theorem mem_of_zero_mem {n : Nlohmann} {clock : Clock} {m : ParsedArticlesMessage} {t : Table}
    {rows : List Row} (hrows : batchRows n clock m.traceId m.articles = some rows) {row : Row}
    (hrow : row ∈ (t.upsertAll onConflict rows).rows) (hzero : 0 ∈ row.articleId) :
    row ∈ t.rows := by
  have hnone : lastWith row.articleId m.articles = none := by
    refine List.find?_eq_none.mpr fun a _ => ?_
    rw [decide_eq_true_iff]
    intro heq
    exact Bytes.zero_notMem_cString _ (heq ▸ hzero)
  have hlookup := (lookup_batch n clock m.traceId t hrows row.articleId).2 hnone
  rw [KeyedTable.mem_rows_iff] at hrow ⊢
  rw [← hlookup, hrow]

/-! ## What a digest of the whole table shows -/

/-- **A query that covers the table** shows, under an id, the rows whose key reads as it. -/
theorem filter_topArticles_perm (n : Nlohmann) (r : Rounding) {now : ℤ}
    {periodHours limit : UInt32} (w : ScoreWeights) {t : Table}
    (h : Covers now periodHours limit t) (id : Bytes) :
    ((topArticles n r now periodHours limit w t).filter fun e => e.articleId = id).Perm
      ((t.rows.filter fun row => row.articleId.cString = id).map (digestArticle n r w)) := by
  have hwindow : t.rows.filter (Row.inWindow now periodHours) = t.rows :=
    List.filter_eq_self.mpr h.window
  have hperm := Ranking.rankBy_perm (rankingKey r w) t.rows
  have hlimit : (Ranking.rankBy (rankingKey r w) t.rows).length ≤ limit.toNat :=
    hperm.length_eq ▸ h.limit
  rw [topArticles_eq, hwindow, List.take_of_length_le hlimit, List.filter_map]
  exact (hperm.filter _).map _

/-- An entry of a digest is read from a row: none of its strings has a NUL. -/
theorem zero_notMem_of_mem_topArticles {n : Nlohmann} {r : Rounding} {now : ℤ}
    {periodHours limit : UInt32} {w : ScoreWeights} {t : Table} {e : DigestArticle}
    (he : e ∈ topArticles n r now periodHours limit w t) :
    ∀ s ∈ [e.articleId, e.url, e.title, e.author, e.publishedAt, e.sourceTraceId], 0 ∉ s := by
  rw [topArticles_eq] at he
  obtain ⟨row, -, rfl⟩ := List.mem_map.mp he
  simp only [digestArticle, List.forall_mem_cons]
  exact ⟨Bytes.zero_notMem_cString _, Bytes.zero_notMem_cString _, Bytes.zero_notMem_cString _,
    Bytes.zero_notMem_cString _, Bytes.zero_notMem_cString _, Bytes.zero_notMem_cString _,
    fun s hs => absurd hs List.not_mem_nil⟩

section

variable {n : Nlohmann} {r : Rounding} {clock : Clock} {now : ℤ} {periodHours limit : UInt32}
  {w : ScoreWeights} {m : ParsedArticlesMessage} {t : Table} {rows : List Row}

/-- What is kept has no NUL in it. -/
theorem KeepsStrings.nulFree {after : Table}
    (h : KeepsStrings m t after (topArticles n r now periodHours limit w after)) : NulFree m := by
  have hshown : ∀ id a, lastOccurrence m id = some a → 0 ∉ id ∧
      ∀ s ∈ [a.url, a.title, a.author, a.publishedAt, m.traceId], 0 ∉ s := by
    intro id a ha
    obtain ⟨e, hentry, hshows⟩ := h.shown id a ha
    have he : e ∈ [e] := List.mem_singleton_self e
    rw [← hentry, List.mem_filter] at he
    have hid : e.articleId = id := of_decide_eq_true he.2
    have hzero := zero_notMem_of_mem_topArticles he.1
    simp only [List.forall_mem_cons, hid, hshows.url, hshows.title, hshows.author,
      hshows.publishedAt, hshows.sourceTraceId] at hzero ⊢
    exact hzero
  refine ⟨fun a ha => ?_, fun id a ha => (hshown id a ha).2⟩
  obtain ⟨b, hb⟩ := exists_lastOccurrence ha
  exact (hshown _ b hb).1

/-- A longer key would be shown under the id, too. -/
theorem KeepsStrings.noLongerKey {after : Table} (hcovers : Covers now periodHours limit after)
    (h : KeepsStrings m t after (topArticles n r now periodHours limit w after)) :
    NoLongerKey m t := by
  intro row hrow hzero a ha hcut
  have hids := h.nulFree.ids
  -- the row is still there, beside the row of the id
  have hkept : row ∈ after.rows := by
    have hlookup := h.others row.articleId fun b hb heq => hids b hb (heq ▸ hzero)
    rw [KeyedTable.mem_rows_iff] at hrow ⊢
    rw [hlookup, hrow]
  obtain ⟨own, hown, hkey⟩ := h.apart a ha
  obtain ⟨b, hb⟩ := exists_lastOccurrence ha
  obtain ⟨e, hentry, -⟩ := h.shown _ b hb
  have hperm := filter_topArticles_perm n r w hcovers a.articleId
  rw [hentry] at hperm
  obtain ⟨only, honly⟩ : ∃ only, (after.rows.filter fun row => row.articleId.cString =
      a.articleId) = [only] := by
    have hlength := hperm.length_eq
    rw [List.length_map, List.length_singleton] at hlength
    exact List.length_eq_one_iff.mp hlength.symm
  have hsame : ∀ row ∈ after.rows, row.articleId.cString = a.articleId → row = only := by
    intro row hrow hcut
    have hmem : row ∈ after.rows.filter fun row => row.articleId.cString = a.articleId :=
      List.mem_filter.mpr ⟨hrow, decide_eq_true hcut⟩
    rw [honly] at hmem
    exact List.mem_singleton.mp hmem
  have hcutOwn : own.articleId.cString = a.articleId := by
    rw [hkey, Bytes.cString_eq_self (hids a ha)]
  have heq : row = own := (hsame row hkept hcut).trans (hsame own hown hcutOwn).symm
  exact hids a ha (hkey ▸ heq ▸ hzero)

/-- **Strings without a NUL are kept**, unless a longer key is in the way. -/
theorem keepsStrings_of_nulFree (hm : NulFree m) (hkeys : NoLongerKey m t)
    (hrows : batchRows n clock m.traceId m.articles = some rows)
    (hcovers : Covers now periodHours limit (t.upsertAll onConflict rows)) :
    KeepsStrings m t (t.upsertAll onConflict rows)
      (topArticles n r now periodHours limit w (t.upsertAll onConflict rows)) := by
  refine ⟨fun id a ha => ?_, fun a ha => ?_, fun id hid => ?_⟩
  · obtain ⟨hmem, hid⟩ := lastOccurrence_spec ha
    obtain ⟨row, seenAt, seenEpoch, hrow, hlookup⟩ := lookup_of_lastOccurrence hm.ids t hrows ha
    obtain ⟨hubs, hhubs, rfl⟩ := Option.map_eq_some_iff.mp hrow
    have hreads : ∀ row ∈ (t.upsertAll onConflict rows).rows,
        (row.articleId.cString = id ↔ row.articleId = id) := by
      intro row hrow
      by_cases hzero : 0 ∈ row.articleId
      · refine iff_of_false (hid ▸ hkeys row (mem_of_zero_mem hrows hrow hzero) hzero a hmem) ?_
        rintro rfl
        exact hm.ids a hmem (hid ▸ hzero)
      · rw [Bytes.cString_eq_self hzero]
    have honly := KeyedTable.filter_key_of_lookup hlookup
    have hfilter := filter_topArticles_perm n r w hcovers id
    rw [List.filter_congr fun row hrow => decide_eq_decide.mpr (hreads row hrow), honly,
      List.map_singleton, List.perm_singleton] at hfilter
    refine ⟨_, hfilter, ?_⟩
    have hcut := hm.shown id a ha
    simp only [List.forall_mem_cons] at hcut
    have hkeep : ∀ {s : Bytes}, 0 ∉ s → s.cString.cString = s := fun hs => by
      rw [Bytes.cString_eq_self (Bytes.zero_notMem_cString _), Bytes.cString_eq_self hs]
    exact
      { articleId := hkeep (hm.ids a hmem)
        url := hkeep hcut.1
        title := hkeep hcut.2.1
        author := hkeep hcut.2.2.1
        hubs := decodeHubs_of_encode hhubs
        publishedAt := hkeep hcut.2.2.2.1
        sourceTraceId := hkeep hcut.2.2.2.2.1 }
  · obtain ⟨b, hb⟩ := exists_lastOccurrence ha
    obtain ⟨row, _, _, -, hlookup⟩ := lookup_of_lastOccurrence hm.ids t hrows hb
    exact ⟨_, KeyedTable.mem_of_lookup hlookup, KeyedTable.key_of_lookup hlookup⟩
  · refine (lookup_batch n clock m.traceId t hrows id).2 ?_
    rw [lastWith_eq_lastOccurrence hm.ids]
    exact List.find?_eq_none.mpr fun a ha => by simpa using hid a (List.mem_reverse.mp ha)

end

/-- **When the store keeps every string.**  A message was committed, and a query covers the table
that it left: the strings are kept exactly when none of those that matter has a NUL and no longer
key is in the way.  In a run of the service none ever is. -/
theorem keepsStrings_iff (S : StoreSetting) {calls : Calls} (counts : Bool) {clock : Clock}
    {payload : Bytes} {c : Connection Table} {m : ParsedArticlesMessage}
    (hcommitted : committedMessage S.nlohmann calls clock payload c = some m) {now : ℤ}
    {periodHours limit : UInt32} (w : ScoreWeights)
    (hcovers : Covers now periodHours limit
      (S.after c (.receives calls counts clock payload)).visible) :
    let after := (S.after c (.receives calls counts clock payload)).visible
    (KeepsStrings m c.visible after
        (topArticles S.nlohmann S.rounding now periodHours limit w after) ↔
      NulFree m ∧ NoLongerKey m c.visible) ∧
    (S.system.Reachable c → NoLongerKey m c.visible) := by
  intro after
  obtain ⟨rows, hrows, hafter⟩ := visible_of_committedMessage counts hcommitted
  have heq : after = c.visible.upsertAll onConflict rows := hafter
  refine ⟨⟨fun h => ⟨h.nulFree, h.noLongerKey hcovers⟩, fun h => ?_⟩, fun hreach => ?_⟩
  · rw [heq]
    exact keepsStrings_of_nulFree h.1 h.2 hrows (heq ▸ hcovers)
  · intro row hrow hzero
    have htext := (holdsText_of_reachable S hreach).visible row hrow
    exact absurd hzero (htext _ (List.mem_cons_self ..)).2

/-! ## Two ids that are cut to one -/

/-- A message with two articles whose ids differ behind a NUL. -/
def cutIds : ParsedArticlesMessage :=
  { articles := [{ articleId := [0x31, 0, 0x61] }, { articleId := [0x31, 0, 0x62] }] }

/-- How a message is published. -/
def parsedPayload (m : ParsedArticlesMessage) : Bytes :=
  (Nlohmann.reference.encode ParsedArticlesMessage.codec m).getD []

/-- **Two articles that become one**: their ids are cut at the NUL. -/
theorem strings_cut : ¬ ∀ (S : StoreSetting) (calls : Calls) (counts : Bool) (clock : Clock)
    (payload : Bytes) (c : Connection Table) (m : ParsedArticlesMessage) (now : ℤ)
    (periodHours limit : UInt32) (w : ScoreWeights), S.system.Reachable c →
    committedMessage S.nlohmann calls clock payload c = some m →
    Covers now periodHours limit (S.after c (.receives calls counts clock payload)).visible →
    KeepsStrings m c.visible (S.after c (.receives calls counts clock payload)).visible
      (topArticles S.nlohmann S.rounding now periodHours limit w
        (S.after c (.receives calls counts clock payload)).visible) := by
  intro h
  have hempty : votesOnly.system.Reachable ⟨.empty, none⟩ := .init rfl
  have hkeeps := h votesOnly .succeed true ⟨0, 0⟩ (parsedPayload cutIds) ⟨.empty, none⟩ cutIds 0 1
    10 votesOnly.config.weights hempty (by decide +kernel)
    ⟨by decide +kernel, by decide +kernel⟩
  have hid := hkeeps.nulFree.ids { articleId := [0x31, 0, 0x61] } (by decide)
  exact hid (by decide)

/-- A message whose only NUL is in a hub. -/
def cutHub : ParsedArticlesMessage :=
  { traceId := utf8 "t", articles :=
    [{ articleId := utf8 "1", title := utf8 "Статья", hubs := [[0x41, 0, 0x42]] }] }

/-- The hub comes back with its NUL. -/
theorem keepsStrings_cutHub :
    let after := (votesOnly.after ⟨.empty, none⟩
      (.receives .succeed true ⟨0, 0⟩ (parsedPayload cutHub))).visible
    Covers 0 1 10 after ∧ KeepsStrings cutHub .empty after
      (topArticles votesOnly.nlohmann votesOnly.rounding 0 1 10 votesOnly.config.weights after) := by
  intro after
  have hcommitted : committedMessage votesOnly.nlohmann .succeed ⟨0, 0⟩ (parsedPayload cutHub)
      ⟨.empty, none⟩ = some cutHub := by decide +kernel
  have hcovers : Covers 0 1 10 after := ⟨by decide +kernel, by decide +kernel⟩
  have hfree : ∀ a ∈ cutHub.articles,
      ∀ s ∈ [a.articleId, a.url, a.title, a.author, a.publishedAt, cutHub.traceId], 0 ∉ s := by
    decide
  have hnul : NulFree cutHub := by
    refine ⟨fun a ha => hfree a ha _ (List.mem_cons_self ..), fun id a ha s hs => ?_⟩
    exact hfree a (lastOccurrence_spec ha).1 s (List.mem_cons_of_mem _ hs)
  have hkeys : NoLongerKey cutHub .empty := fun row hrow => absurd hrow List.not_mem_nil
  exact ⟨hcovers, (keepsStrings_iff votesOnly true hcommitted _ hcovers).1.mpr ⟨hnul, hkeys⟩⟩

end Storage
end HabrDigest
