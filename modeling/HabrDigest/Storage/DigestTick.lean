import HabrDigest.Lib.TransitionSystem
import HabrDigest.Storage.StorageService

/-!
# The tick of the storage service

`StorageService::OnTick` queries the store inside a `try` block and encodes the digest behind
it, so the tick survives exactly when every string of the digest is text.  The strings come
from three places: from columns, which were cut at their first NUL byte on the way in and are
cut again on the way out; from the column `hubs`, which is JSON that the tick parses itself;
and from the clock and the random generator.

Here the query is the loop that the code has, with everything that can go wrong in it: the
statement is not prepared, a step fails at some row, or `sqlite3_column_text` gives a null
pointer, which reads as an empty string (`QueryCalls`).  Without the last of these it is
`PublishDigest` as in `StorageService`, whose query succeeds or fails as a whole
(`onTick_eq_publishDigest`).

The service is a transition system whose state is the connection to the database.  What a tick
relies on is `HoldsText`: the texts of every row, committed or in a transaction that is still
open, are valid and free of NUL bytes.  A delivery keeps that because what `json::parse`
accepts is text, and cutting a text at a NUL leaves a text (`Utf8.Valid.cString`).
-/

namespace HabrDigest
namespace Storage

open Messaging Common Sqlite

/-! ## The query, call by call -/

/-- What the SQLite calls of one `TopArticles` do.  The parameters are numbers, and binding a
number does not fail. -/
structure QueryCalls where
  prepare : Bool
  /-- The step with this index returns a row or the end of the rows. -/
  step : ℕ → Bool
  /-- `sqlite3_column_text` of a row and a column gives the text and not a null pointer. -/
  text : ℕ → ℕ → Bool

/-- All of them succeed. -/
def QueryCalls.succeed : QueryCalls := ⟨true, fun _ => true, fun _ _ => true⟩

/-- The columns of a row as they are read. -/
def fetched (calls : QueryCalls) (k : ℕ) (columns : List Value) : List Value :=
  columns.mapIdx fun i v =>
    match v with
    | .text s => if calls.text k i then .text s else .null
    | v => v

/-- The loop of `TopArticles`, from the row with an index on.  It is none where a step throws. -/
def fetchRows (n : Nlohmann) (r : Rounding) (calls : QueryCalls) :
    ℕ → List (List Value) → Option (List DigestArticle)
  | k, [] => if calls.step k then some [] else none
  | k, columns :: rows =>
    if calls.step k then
      (fetchRows n r calls (k + 1) rows).map fun top =>
        readArticle n r (fetched calls k columns) :: top
    else none

/-- `ArticleStore::TopArticles`: what it returns, or none where it throws. -/
def queryTop (n : Nlohmann) (r : Rounding) (calls : QueryCalls) (now : ℤ)
    (periodHours limit : UInt32) (weights : ScoreWeights) (t : Table) :
    Option (List DigestArticle) :=
  if calls.prepare then
    fetchRows n r calls 0 (kTopSql r (bindTop now periodHours limit weights) t)
  else none

/-- What a tick meets: the clock as `TopArticles` and as the time stamp of the digest read it,
the number drawn for the trace id, and the SQLite calls of the query. -/
structure Tick where
  now : ℤ
  stampedAt : ℤ
  drawn : UInt32
  calls : QueryCalls

/-- The same, where only whether the query succeeds is told. -/
def Tick.circumstances (τ : Tick) (queried : Bool) : Circumstances :=
  ⟨τ.now, τ.stampedAt, τ.drawn, queried⟩

/-- The query of a tick. -/
def Tick.query (τ : Tick) (n : Nlohmann) (r : Rounding) (config : Config) (t : Table) :
    Option (List DigestArticle) :=
  queryTop n r τ.calls τ.now config.digestPeriodHours config.digestTopN config.weights t

/-- `StorageService::OnTick`. -/
def onTick (n : Nlohmann) (r : Rounding) (config : Config) (τ : Tick) (t : Table) :
    DigestOutcome :=
  match τ.query n r config t with
  | none => .failed
  | some top =>
    if top = [] then .skipped
    else
      let digest := digestMessage config (τ.circumstances true) top
      match n.encode DigestReadyMessage.codec digest with
      | none => .threw
      | some out => .handed digest out

/-- A column whose text arrives is read as it is. -/
theorem fetched_eq_self {calls : QueryCalls} (h : ∀ k i, calls.text k i = true) (k : ℕ)
    (columns : List Value) : fetched calls k columns = columns := by
  refine List.ext_getElem? fun i => ?_
  rw [fetched, List.getElem?_mapIdx]
  cases columns[i]? with
  | none => rfl
  | some v => cases v <;> simp [h]

/-- Where every text arrives, a query that does not throw returns the articles of all rows. -/
theorem fetchRows_eq {n : Nlohmann} {r : Rounding} {calls : QueryCalls}
    (h : ∀ k i, calls.text k i = true) (k : ℕ) (rows : List (List Value))
    {top : List DigestArticle} (htop : fetchRows n r calls k rows = some top) :
    top = rows.map (readArticle n r) := by
  induction rows generalizing k top with
  | nil =>
    rw [fetchRows] at htop
    split at htop
    · exact (Option.some.inj htop).symm
    · exact absurd htop (by simp)
  | cons columns rows ih =>
    rw [fetchRows] at htop
    split at htop
    · obtain ⟨rest, hrest, rfl⟩ := Option.map_eq_some_iff.mp htop
      rw [ih (k + 1) hrest, fetched_eq_self h, List.map_cons]
    · exact absurd htop (by simp)

/-- **Where every text arrives, the tick is `PublishDigest`**, with a query that succeeds or
fails. -/
theorem onTick_eq_publishDigest (n : Nlohmann) (r : Rounding) (config : Config) {τ : Tick}
    (h : ∀ k i, τ.calls.text k i = true) (t : Table) :
    onTick n r config τ t =
      publishDigest n r config (τ.circumstances (τ.query n r config t).isSome) t := by
  unfold onTick publishDigest
  cases hquery : τ.query n r config t with
  | none => rfl
  | some top =>
    have htop : top = topArticles n r τ.now config.digestPeriodHours config.digestTopN
        config.weights t := by
      unfold Tick.query queryTop at hquery
      split at hquery
      · exact fetchRows_eq h 0 _ hquery
      · exact absurd hquery (by simp)
    rw [htop]
    rfl

/-! ## The service -/

/-- What the service is set up with. -/
structure StoreSetting where
  nlohmann : Nlohmann
  rounding : Rounding
  config : Config

/-- What can happen. -/
inductive StoreEvent where
  /-- A payload is handled, with what the SQLite calls of `UpsertBatch` and of `CountArticles`
  do, and the clock. -/
  | receives (calls : Calls) (counts : Bool) (clock : Clock) (payload : Bytes)
  /-- The timer fires. -/
  | ticks (τ : Tick)

/-- The connection to the database after an event. -/
def StoreSetting.after (S : StoreSetting) (c : Connection Table) : StoreEvent → Connection Table
  | .receives calls counts clock payload =>
    (handleParsedArticles S.nlohmann calls counts clock payload c).2
  | .ticks _ => c

/-- The service as a transition system, from an empty database. -/
def StoreSetting.system (S : StoreSetting) : TransitionSystem (Connection Table) StoreEvent where
  init c := c = ⟨.empty, none⟩
  step c e c' := c' = S.after c e

/-! ## Texts in the table -/

/-- The columns that are read as texts. -/
def Row.texts (row : Row) : List Bytes :=
  [row.articleId, row.url, row.title, row.author, row.publishedAt, row.traceId]

/-- The texts of a row are UTF-8, and no NUL is in them. -/
def Row.IsText (row : Row) : Prop := ∀ s ∈ row.texts, Utf8.Valid s ∧ 0 ∉ s

/-- The texts of a table are. -/
def IsText (t : Table) : Prop := ∀ row ∈ t.rows, row.IsText

/-- The texts of every row are, committed or not. -/
structure HoldsText (c : Connection Table) : Prop where
  committed : IsText c.committed
  pending : ∀ t ∈ c.pending, IsText t

theorem HoldsText.visible {c : Connection Table} (h : HoldsText c) : IsText c.visible := by
  unfold Connection.visible
  cases hpending : c.pending with
  | none => exact h.committed
  | some t => exact h.pending t hpending

/-- The row of an article of a message is. -/
theorem isText_of_articleRow {n : Nlohmann} {clock : Clock} {traceId : Bytes} {a : ParsedArticle}
    {row : Row} (htrace : Utf8.Valid traceId) (ha : ∀ s ∈ a.strings, Utf8.Valid s)
    (h : articleRow n clock traceId a = some row) : row.IsText := by
  have hcut : ∀ {s : Bytes}, Utf8.Valid s → Utf8.Valid s.cString ∧ 0 ∉ s.cString :=
    fun hs => ⟨hs.cString, Bytes.zero_notMem_cString _⟩
  obtain ⟨hubs, -, rfl⟩ := Option.map_eq_some_iff.mp h
  simp only [ParsedArticle.strings, List.cons_append, List.nil_append,
    List.forall_mem_cons] at ha
  simp only [Row.IsText, Row.texts, List.forall_mem_cons]
  exact ⟨hcut ha.1, hcut ha.2.1, hcut ha.2.2.1, hcut ha.2.2.2.1, hcut ha.2.2.2.2.1,
    hcut htrace, fun s hs => absurd hs List.not_mem_nil⟩

/-- The rows of a message are. -/
theorem isText_of_batchRows {n : Nlohmann} {clock : Clock} {traceId : Bytes}
    {articles : List ParsedArticle} {rows : List Row} (htrace : Utf8.Valid traceId)
    (ha : ∀ a ∈ articles, ∀ s ∈ a.strings, Utf8.Valid s)
    (h : batchRows n clock traceId articles = some rows) : ∀ row ∈ rows, row.IsText := by
  induction articles generalizing rows with
  | nil =>
    obtain rfl := Option.some.inj h
    exact fun row hrow => absurd hrow List.not_mem_nil
  | cons a as ih =>
    obtain ⟨hfirst, hrest⟩ := List.forall_mem_cons.mp ha
    rw [batchRows_cons] at h
    obtain ⟨row, hrow, h⟩ := Option.bind_eq_some_iff.mp h
    obtain ⟨rows, hrows, rfl⟩ := Option.map_eq_some_iff.mp h
    exact List.forall_mem_cons.mpr ⟨isText_of_articleRow htrace hfirst hrow, ih hrest hrows⟩

/-- Upserting rows keeps it: a row that is merged takes its texts from the new one, but for the
id, which it keeps. -/
theorem IsText.upsertAll {t : Table} (ht : IsText t) {rows : List Row}
    (hrows : ∀ row ∈ rows, row.IsText) : IsText (t.upsertAll onConflict rows) := by
  refine KeyedTable.forall_mem_upsertAll onConflict (fun old row hold hrow => ?_) ht hrows
  simp only [Row.IsText, Row.texts, List.forall_mem_cons, onConflict] at hold hrow ⊢
  exact ⟨hold.1, hrow.2⟩

/-- **A delivery keeps the texts**, whatever becomes of its batch. -/
theorem HoldsText.handleParsedArticles {c : Connection Table} (h : HoldsText c) (n : Nlohmann)
    (calls : Calls) (counts : Bool) (clock : Clock) (payload : Bytes) :
    HoldsText (Storage.handleParsedArticles n calls counts clock payload c).2 := by
  unfold Storage.handleParsedArticles
  cases hdecode : n.decode ParsedArticlesMessage.codec payload with
  | none => exact h
  | some parsed =>
    obtain ⟨j, hj, hfrom⟩ := Option.bind_eq_some_iff.mp hdecode
    have hvalid := ParsedArticlesMessage.valid_of_decode (n.validUtf8_of_parse _ _ hj) hfrom
    simp only [ParsedArticlesMessage.strings, List.cons_append, List.nil_append,
      List.forall_mem_cons, List.forall_mem_flatMap] at hvalid
    obtain ⟨-, -, -, htrace, harticles⟩ := hvalid
    have hwritten : ∀ {rows : List Row},
        batchRows n clock parsed.traceId parsed.articles = some rows →
          IsText (c.committed.upsertAll onConflict rows) := fun hrows =>
      h.committed.upsertAll (isText_of_batchRows htrace harticles hrows)
    dsimp only
    have houtcome := upsertBatch_outcome n calls clock parsed.articles parsed.traceId c
    generalize upsertBatch n calls clock parsed.articles parsed.traceId c = result at houtcome
    obtain ⟨written, c'⟩ := result
    cases houtcome with
    | empty => cases counts <;> exact h
    | notBegun => exact h
    | notInserted => exact ⟨h.committed, by simp⟩
    | committed rows _ _ _ hinserts _ =>
      cases counts <;> exact ⟨hwritten hinserts.rows_eq, by simp⟩
    | notCommitted rows _ _ _ hinserts _ =>
      refine ⟨h.committed, fun t ht => ?_⟩
      obtain rfl := Option.some.inj ht
      exact hwritten hinserts.rows_eq

/-- **Every row that the service ever holds is text.** -/
theorem holdsText_of_reachable (S : StoreSetting) {c : Connection Table}
    (h : S.system.Reachable c) : HoldsText c := by
  refine h.invariant ?_ ?_
  · rintro c rfl
    exact ⟨fun row hrow => absurd hrow List.not_mem_nil, by simp⟩
  · rintro c e _ hc rfl
    cases e with
    | receives calls counts clock payload =>
      exact hc.handleParsedArticles S.nlohmann calls counts clock payload
    | ticks => exact hc

/-! ## The strings of a digest -/

/-- A column that is a text is read as a part of it, if it arrives at all. -/
theorem valid_columnText_fetched (calls : QueryCalls) (k : ℕ) {columns : List Value} {i : ℕ}
    {s : Bytes} (h : columns[i]? = some (.text s)) (hs : Utf8.Valid s) :
    Utf8.Valid ((fetched calls k columns).getD i .null).columnText := by
  rw [List.getD_eq_getElem?_getD, fetched, List.getElem?_mapIdx, h, Option.map_some,
    Option.getD_some]
  dsimp only
  split
  · exact hs.cString
  · exact Utf8.valid_nil

/-- The hubs are text whatever the column holds: they are parsed. -/
theorem valid_of_mem_decodeHubs (n : Nlohmann) (encoded : Bytes) :
    ∀ s ∈ decodeHubs n encoded, Utf8.Valid s := by
  unfold decodeHubs
  cases hdecode : n.decode hubsCodec encoded with
  | none => exact fun s hs => absurd hs List.not_mem_nil
  | some hubs =>
    obtain ⟨j, hj, hfrom⟩ := Option.bind_eq_some_iff.mp hdecode
    exact Codec.forall_of_list (fun _ _ hv hs => Codec.valid_of_string hv hs)
      (n.validUtf8_of_parse _ _ hj) hfrom

/-- **An article is read from its row as text.** -/
theorem valid_strings_readArticle (n : Nlohmann) (r : Rounding) (calls : QueryCalls) (k : ℕ)
    (b : Bindings) {row : Row} (hrow : row.IsText) :
    ∀ s ∈ (readArticle n r (fetched calls k (topSelect r b row))).strings, Utf8.Valid s := by
  have hcolumn : ∀ {i : ℕ} {s : Bytes}, (topSelect r b row)[i]? = some (.text s) →
      Utf8.Valid s →
        Utf8.Valid ((fetched calls k (topSelect r b row)).getD i .null).columnText :=
    fun hi hs => valid_columnText_fetched calls k hi hs
  simp only [Row.IsText, Row.texts, List.forall_mem_cons] at hrow
  obtain ⟨hid, hurl, htitle, hauthor, hpublished, htrace, -⟩ := hrow
  simp only [DigestArticle.strings, readArticle, List.cons_append, List.nil_append,
    List.forall_mem_cons]
  exact ⟨hcolumn rfl hid.1, hcolumn rfl hurl.1, hcolumn rfl htitle.1, hcolumn rfl hauthor.1,
    hcolumn rfl hpublished.1, hcolumn rfl htrace.1, valid_of_mem_decodeHubs n _⟩

/-- What the query returns was read from rows. -/
theorem mem_of_fetchRows {n : Nlohmann} {r : Rounding} {calls : QueryCalls} {k : ℕ}
    {rows : List (List Value)} {top : List DigestArticle}
    (h : fetchRows n r calls k rows = some top) {e : DigestArticle} (he : e ∈ top) :
    ∃ j, ∃ columns ∈ rows, e = readArticle n r (fetched calls j columns) := by
  induction rows generalizing k top with
  | nil =>
    rw [fetchRows] at h
    split at h
    · obtain rfl := Option.some.inj h
      exact absurd he List.not_mem_nil
    · exact absurd h (by simp)
  | cons columns rows ih =>
    rw [fetchRows] at h
    split at h
    · obtain ⟨rest, hrest, rfl⟩ := Option.map_eq_some_iff.mp h
      rcases List.mem_cons.mp he with rfl | he
      · exact ⟨k, columns, List.mem_cons_self .., rfl⟩
      · obtain ⟨j, columns', hmem, heq⟩ := ih hrest he
        exact ⟨j, columns', List.mem_cons_of_mem _ hmem, heq⟩
    · exact absurd h (by simp)

/-- The query selects columns of rows of the table. -/
theorem mem_kTopSql {r : Rounding} {b : Bindings} {t : Table} {columns : List Value}
    (h : columns ∈ kTopSql r b t) : ∃ row ∈ t.rows, columns = topSelect r b row := by
  obtain ⟨row, hrow, rfl⟩ := List.mem_map.mp h
  have hlimit : row ∈ Ranking.rankBy (fun row => topOrderBy (topScore r b row) row)
      (t.rows.filter (topWhere b)) := by
    unfold topLimit at hrow
    split at hrow
    · split at hrow
      · exact hrow
      · exact List.mem_of_mem_take hrow
    all_goals exact absurd hrow List.not_mem_nil
  exact ⟨row, List.mem_of_mem_filter ((Ranking.mem_rankBy _).mp hlimit), rfl⟩

/-- **Every string of a digest is text**, read from a table of texts. -/
theorem valid_strings_digestMessage (n : Nlohmann) (r : Rounding) (config : Config) (τ : Tick)
    {t : Table} (ht : IsText t) {top : List DigestArticle}
    (htop : τ.query n r config t = some top) :
    ∀ s ∈ (digestMessage config (τ.circumstances true) top).strings, Utf8.Valid s := by
  have harticles : ∀ e ∈ top, ∀ s ∈ e.strings, Utf8.Valid s := by
    intro e he
    unfold Tick.query queryTop at htop
    split at htop
    · obtain ⟨j, columns, hcolumns, rfl⟩ := mem_of_fetchRows htop he
      obtain ⟨row, hrow, rfl⟩ := mem_kTopSql hcolumns
      exact valid_strings_readArticle n r τ.calls j _ (ht row hrow)
    · exact absurd htop (by simp)
  have hstamp := valid_nowIso8601Utc τ.stampedAt
  simp only [DigestReadyMessage.strings, digestMessage, List.cons_append, List.nil_append,
    List.forall_mem_cons, List.forall_mem_flatMap]
  exact ⟨hstamp, hstamp, valid_generateTraceId τ.drawn, harticles⟩

/-- **A tick never throws.**  Whatever payloads the service was given, and whatever the SQLite
calls did then and do now, every string of the digest that a tick builds is valid UTF-8, and the
tick ends without an exception. -/
theorem onTick_never_throws (S : StoreSetting) {c : Connection Table}
    (h : S.system.Reachable c) (τ : Tick) :
    onTick S.nlohmann S.rounding S.config τ c.visible ≠ .threw ∧
      ∀ top, τ.query S.nlohmann S.rounding S.config c.visible = some top →
        ∀ s ∈ (digestMessage S.config (τ.circumstances true) top).strings, Utf8.Valid s := by
  have htext := (holdsText_of_reachable S h).visible
  have hstrings : ∀ top, τ.query S.nlohmann S.rounding S.config c.visible = some top →
      ∀ s ∈ (digestMessage S.config (τ.circumstances true) top).strings, Utf8.Valid s :=
    fun _ htop => valid_strings_digestMessage S.nlohmann S.rounding S.config τ htext htop
  refine ⟨?_, hstrings⟩
  unfold onTick
  cases hquery : τ.query S.nlohmann S.rounding S.config c.visible with
  | none => simp
  | some top =>
    dsimp only
    split
    · simp
    · have hencodes := Nlohmann.encode_isSome_iff (n := S.nlohmann).mpr
        ((DigestReadyMessage.validUtf8_toJson _).mpr (hstrings top hquery))
      obtain ⟨out, hout⟩ := Option.isSome_iff_exists.mp hencodes
      rw [hout]
      simp

/-- A service with the default settings, and a weight for the votes only. -/
def votesOnly : StoreSetting :=
  ⟨.reference, .exact, { weights := ⟨.finite 1, .finite 0, .finite 0, .finite 0⟩ }⟩

/-- A message with a NUL in a title, as it is published. -/
def cutTitle : Bytes :=
  (Nlohmann.reference.encode ParsedArticlesMessage.codec
    { articles := [{ articleId := utf8 "1", title := utf8 "Ста" ++ 0 :: utf8 "тья" }] }).getD []

/-- The service after it has handled garbage and then that message. -/
def afterCutTitle : Connection Table :=
  votesOnly.after (votesOnly.after ⟨.empty, none⟩ (.receives .succeed true ⟨0, 0⟩ [0xFF]))
    (.receives .succeed true ⟨0, 0⟩ cutTitle)

/-- The title is cut, and the tick hands over a digest with what is left of it. -/
theorem onTick_never_throws_cutTitle :
    let τ : Tick := ⟨0, 0, 7, .succeed⟩
    (τ.query votesOnly.nlohmann votesOnly.rounding votesOnly.config afterCutTitle.visible).map
        (·.map (·.title)) = some [utf8 "Ста"] ∧
      onTick votesOnly.nlohmann votesOnly.rounding votesOnly.config τ afterCutTitle.visible ≠
        .threw := by
  intro τ
  have hempty : votesOnly.system.Reachable ⟨.empty, none⟩ := .init rfl
  have hgarbage := hempty.step (e := StoreEvent.receives .succeed true ⟨0, 0⟩ [0xFF]) rfl
  have hcut : votesOnly.system.Reachable afterCutTitle :=
    hgarbage.step (e := StoreEvent.receives .succeed true ⟨0, 0⟩ cutTitle) rfl
  exact ⟨by decide +kernel, (onTick_never_throws votesOnly hcut τ).1⟩

end Storage
end HabrDigest
