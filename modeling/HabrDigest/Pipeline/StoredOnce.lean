import HabrDigest.Lib.AtLeastOnce
import HabrDigest.Pipeline.Outages

/-!
# Every message is stored once

A message of parsed articles may be written more than once: the acknowledgement is lost with the
connection, `CountArticles` throws behind a batch that is committed, or the service dies between
the two.  Each time the message comes back to the front of its queue.  Where the broker hands the
messages out in order, and the next one only when no other is unsettled in its books (`TakesTurns`),
nothing overtakes it.  The prefetch of the service asks for that on one connection, but a connection
that is dead and not yet dropped may still hold a message beside the new one's.  The upsert replaces
the columns of a row and leaves when it was first seen, so the second time changes nothing but when a
row was last updated.

`stored_once` puts this together for the pipeline with processes that die: the database is what
the messages make of an empty one if each is stored once, in the order in which they were
published, up to the message that is next; and the digest of a tick, which does not read the two
columns, cannot tell the difference.
-/

namespace HabrDigest
namespace Storage

open Messaging Sqlite

/-! ## Rows without the time of the last update -/

/-- A row without the time of its last update. -/
def Row.lasting (row : Row) : Row := { row with updatedAt := [], updatedEpoch := 0 }

/-- Tables with the same rows, in the same order, but for the times of the last update. -/
def SameRows (t t' : Table) : Prop := t.rows.map Row.lasting = t'.rows.map Row.lasting

theorem SameRows.upsertAll {t t' : Table} (h : SameRows t t') (rows : List Row) :
    SameRows (t.upsertAll onConflict rows) (t'.upsertAll onConflict rows) := by
  induction rows generalizing t t' with
  | nil => exact h
  | cons row rows ih =>
    have hkey : ∀ r : Row, r.lasting.articleId = r.articleId := fun _ => rfl
    have hmerge : ∀ s r : Row, (onConflict.merge s r).lasting =
        onConflict.merge s.lasting r.lasting := fun _ _ => rfl
    have hmap : ∀ t : Table, (t.upsert onConflict row).rows.map Row.lasting =
        KeyedTable.upsertRows onConflict row.lasting (t.rows.map Row.lasting) := fun t =>
      KeyedTable.map_upsertRows hkey hmerge row t.rows
    have hone : SameRows (t.upsert onConflict row) (t'.upsert onConflict row) := by
      rw [SameRows, hmap, hmap, h]
    exact ih hone

/-- A row that was merged with an article is not changed by the article once more. -/
theorem lasting_absorb_absorb {n : Nlohmann} {clock clock' : Clock} {traceId : Bytes}
    {a : ParsedArticle} {row row' : Row} (hrow : articleRow n clock traceId a = some row)
    (hrow' : articleRow n clock' traceId a = some row') (old : Option Row) :
    (KeyedTable.absorb onConflict (KeyedTable.absorb onConflict old row) row').map Row.lasting =
      (KeyedTable.absorb onConflict old row).map Row.lasting := by
  unfold articleRow at hrow hrow'
  cases hhubs : n.encode hubsCodec a.hubs with
  | none => simp [hhubs] at hrow
  | some hubs =>
    rw [hhubs, Option.map_some, Option.some.injEq] at hrow hrow'
    subst hrow hrow'
    cases old <;> simp only [KeyedTable.absorb, Option.elim, Option.map_some, Row.lasting, onConflict]

/-- **A batch that is stored twice** is stored once. -/
theorem SameRows.upsertAll_twice {n : Nlohmann} {clock clock' : Clock} {traceId : Bytes}
    {articles : List ParsedArticle} {rows rows' : List Row}
    (hrows : batchRows n clock traceId articles = some rows)
    (hrows' : batchRows n clock' traceId articles = some rows') (t : Table) :
    SameRows ((t.upsertAll onConflict rows).upsertAll onConflict rows')
      (t.upsertAll onConflict rows) := by
  refine KeyedTable.map_rows_eq (KeyedTable.map_key_upsertAll fun row hrow => ?_) fun id => ?_
  · -- the id of every row is one of an article, which has a row already
    obtain ⟨a, ha, hof⟩ := exists_article_of_mem hrows' hrow
    have hid := articleId_of_articleRow hof
    obtain ⟨first, hfirst, hfirstId⟩ := exists_row_of_mem hrows ha
    have hlookup := KeyedTable.isSome_lookup_upsertAll onConflict (t := t)
      (Or.inr (List.mem_map.mpr ⟨first, hfirst, rfl⟩))
    obtain ⟨stored, hstored⟩ := Option.isSome_iff_exists.mp hlookup
    rw [hid, ← hfirstId, ← KeyedTable.key_of_lookup hstored]
    exact List.mem_map_of_mem (KeyedTable.mem_of_lookup hstored)
  · obtain ⟨hsome, hnone⟩ := lookup_batch n clock traceId t hrows id
    obtain ⟨hsome', hnone'⟩ :=
      lookup_batch n clock' traceId (t.upsertAll onConflict rows) hrows' id
    cases hlast : lastWith id articles with
    | none => rw [hnone' hlast]
    | some a =>
      obtain ⟨row, hrow, hlookup⟩ := hsome a hlast
      obtain ⟨row', hrow', hlookup'⟩ := hsome' a hlast
      rw [hlookup', hlookup]
      exact lasting_absorb_absorb hrow hrow' _

/-- The digest query does not read when a row was last updated. -/
theorem topArticles_of_sameRows {t t' : Table} (h : SameRows t t') (n : Nlohmann) (r : Rounding)
    (now : ℤ) (periodHours limit : UInt32) (w : ScoreWeights) :
    topArticles n r now periodHours limit w t = topArticles n r now periodHours limit w t' := by
  have hread : ∀ t : Table, topArticles n r now periodHours limit w t =
      ((Ranking.rankBy (rankingKey r w) ((t.rows.map Row.lasting).filter
        (Row.inWindow now periodHours))).take limit.toNat).map (digestArticle n r w) := by
    intro t
    have hkey : ∀ row : Row, rankingKey r w row.lasting = rankingKey r w row := fun _ => rfl
    have hwindow : (t.rows.map Row.lasting).filter (Row.inWindow now periodHours) =
        (t.rows.filter (Row.inWindow now periodHours)).map Row.lasting := by
      rw [List.filter_map]
      rfl
    rw [topArticles_eq, hwindow, ← Ranking.map_rankBy _ hkey, ← List.map_take, List.map_map]
    rfl
  rw [hread, hread, h]

/-! ## Attempts at a message -/

/-- A message is stored: the table is what its batch made of another one, but for the times of the
last updates.  A payload that is no message changes nothing. -/
def Stores (n : Nlohmann) (payload : Bytes) (before after : Table) : Prop :=
  match n.decode ParsedArticlesMessage.codec payload with
  | none => SameRows after before
  | some m => ∃ clock rows, batchRows n clock m.traceId m.articles = some rows ∧
      SameRows after (before.upsertAll onConflict rows)

/-- What the store does with a message: all of it or nothing. -/
def consumption (n : Nlohmann) : Consumption Bytes Table where
  part payload before after := SameRows after before ∨ Stores n payload before after
  full := Stores n
  refl _ _ := Or.inl rfl
  part_of_full := Or.inr

/-- **`HandleParsedArticles` is an attempt**: what it settles for good is stored, and what is stored
stays so. -/
theorem attempt_handleParsedArticles (n : Nlohmann) (calls : Calls) (counts : Bool) (clock : Clock)
    (payload : Bytes) (c : Connection Table) :
    (consumption n).Attempt payload c.committed
      (Pipeline.settlement (handleParsedArticles n calls counts clock payload c).1)
      (handleParsedArticles n calls counts clock payload c).2.committed := by
  have hdone := messageDone_of_handleParsedArticles n calls counts clock payload c
  rcases committed_handleParsedArticles n calls counts clock payload c with
    ⟨hnone, hsame⟩ | ⟨m, rows, hm, -, hrows, htable⟩
  · -- nothing was committed, so the message goes back unless it is none
    rw [hsame]
    refine ⟨fun _ h => h, fun hfinal u h => ?_, fun _ h => h⟩
    cases hdecode : n.decode ParsedArticlesMessage.codec payload with
    | none =>
      refine h.elim (fun hsame => ?_) fun hstores => hstores
      show Stores n payload u c.committed
      rw [Stores, hdecode]
      exact hsame
    | some m =>
      rcases hdone (Pipeline.settlement_ne_requeue hfinal) with hnone' | ⟨m', -, b, hb, -⟩
      · exact absurd (hnone'.symm.trans hdecode) (by simp)
      · rw [committedBatch_eq, hnone] at hb
        exact absurd hb List.not_mem_nil
  · rw [htable]
    have hfull : ∀ u, SameRows c.committed u →
        Stores n payload u (c.committed.upsertAll onConflict rows) := by
      intro u h
      rw [Stores, hm]
      exact ⟨clock, rows, hrows, h.upsertAll rows⟩
    have hstable : ∀ u, Stores n payload u c.committed →
        Stores n payload u (c.committed.upsertAll onConflict rows) := by
      intro u h
      rw [Stores, hm] at h ⊢
      obtain ⟨clock', rows', hrows', h⟩ := h
      exact ⟨clock', rows', hrows',
        (h.upsertAll rows).trans (SameRows.upsertAll_twice hrows' hrows u)⟩
    exact ⟨fun u h => Or.inr (h.elim (hfull u) (hstable u)),
      fun _ u h => h.elim (hfull u) (hstable u), hstable⟩

/-- What messages make of an empty table if each is stored once, in this order. -/
inductive StoredOnce (n : Nlohmann) : List Bytes → Table → Prop
  | nil : StoredOnce n [] .empty
  | malformed {payloads : List Bytes} {t : Table} {payload : Bytes}
      (hprev : StoredOnce n payloads t)
      (hnone : n.decode ParsedArticlesMessage.codec payload = none) :
      StoredOnce n (payloads ++ [payload]) t
  | message {payloads : List Bytes} {t : Table} {payload : Bytes} {m : ParsedArticlesMessage}
      {clock : Clock} {rows : List Row} (hprev : StoredOnce n payloads t)
      (hm : n.decode ParsedArticlesMessage.codec payload = some m)
      (hrows : batchRows n clock m.traceId m.articles = some rows) :
      StoredOnce n (payloads ++ [payload]) (t.upsertAll onConflict rows)

theorem StoredOnce.concat {n : Nlohmann} {payloads : List Bytes} {t u v : Table}
    (h : StoredOnce n payloads t) (hu : SameRows u t) {payload : Bytes}
    (hstores : Stores n payload u v) : ∃ t', StoredOnce n (payloads ++ [payload]) t' ∧
      SameRows v t' := by
  unfold Stores at hstores
  cases hdecode : n.decode ParsedArticlesMessage.codec payload with
  | none =>
    rw [hdecode] at hstores
    exact ⟨t, h.malformed hdecode, Eq.trans hstores hu⟩
  | some m =>
    rw [hdecode] at hstores
    obtain ⟨clock, rows, hrows, hsame⟩ := hstores
    exact ⟨_, h.message hdecode hrows, Eq.trans hsame (hu.upsertAll rows)⟩

/-- Messages that are taken once each are stored once each. -/
theorem StoredOnce.of_once {n : Nlohmann} {payloads : List Bytes} {u : Table}
    (h : (consumption n).Once .empty payloads u) :
    ∃ t, StoredOnce n payloads t ∧ SameRows u t := by
  induction h with
  | nil => exact ⟨_, .nil, rfl⟩
  | concat _ hfull ih =>
    obtain ⟨t, ht, hsame⟩ := ih
    exact ht.concat hsame hfull

end Storage

namespace Pipeline

open Messaging HabrDigest.Parser Storage Sqlite

/-! ## The pipeline -/

/-- The broker hands out the messages of parsed articles in order, and one only when no other one is
unsettled, on whatever link. -/
def TakesTurns {ι : Type} (m : Move (World ι) (Incident ι)) : Prop :=
  match m.event with
  | .event (.delivers link position) => m.pre.broker.InTurn .parsedArticles link position
  | _ => True

instance {ι : Type} (m : Move (World ι) (Incident ι)) : Decidable (TakesTurns m) := by
  unfold TakesTurns
  split <;> infer_instance

/-- What holds in every state: the books balance, the parsers do not consume the messages of parsed
articles, and these are stored in order. -/
structure StoresInOrder {ι : Type} (S : Setting) (s : World ι) : Prop where
  books : s.broker.Balanced
  parsers : ∀ i link, (s.parsers i).link = some link →
    s.broker.sources[link]? = some .rawArticles
  order : s.broker.InOrder (consumption S.nlohmann) .empty .parsedArticles s.storage.link
    s.database.committed

variable {ι : Type} {S : Setting}

/-- What the broker does by itself. -/
theorem StoresInOrder.of_broker {s : World ι} (h : StoresInOrder S s) {b : Broker Queue Bytes}
    (hsources : b.sources = s.broker.sources) (hbooks : b.Balanced)
    (horder : b.InOrder (consumption S.nlohmann) .empty .parsedArticles s.storage.link
      s.database.committed) : StoresInOrder S { s with broker := b } :=
  ⟨hbooks, fun i l hl => hsources ▸ h.parsers i l hl, horder⟩

/-- A callback of a process that consumes the messages, and of one that does not. -/
theorem inOrder_callback (service : Service) (source : Queue) (e : Event) (inst : Instance)
    {b : Broker Queue Bytes} {C : Consumption Bytes Table} {start v : Table} {queue : Queue}
    {current : Option ℕ} (h : b.InOrder C start queue current v) :
    (inst.callback service source e b).2.InOrder C start queue current v ∧
    (source = queue → current = inst.link →
      (inst.callback service source e b).2.InOrder C start queue
        (inst.callback service source e b).1.link v) := by
  unfold Instance.callback
  dsimp only
  split_ifs
  · exact ⟨(h.connect source).1, fun hq _ => (h.connect source).2 hq⟩
  · exact ⟨h, fun _ _ => h.unlink⟩
  · exact ⟨h, fun _ heq => heq ▸ h⟩

variable [DecidableEq ι]

/-- **Every incident keeps the order**, if the broker hands out the messages in turn. -/
theorem StoresInOrder.afterIncident {s : World ι} (h : StoresInOrder S s) (e : Incident ι)
    {post : World ι} (hG : TakesTurns ⟨s, e, post⟩) : StoresInOrder S (s.afterIncident S e) := by
  have hbooks := balanced_afterIncident (S := S) h.books e
  cases e with
  | storageDies => exact ⟨hbooks, h.parsers, h.order.unlink⟩
  | parserDies i =>
    refine ⟨hbooks, fun j link hlink => ?_, h.order⟩
    by_cases hij : j = i
    · subst hij
      simp [World.afterIncident] at hlink
    · exact h.parsers j link (by simpa [World.afterIncident, hij] using hlink)
  | event e =>
    cases e with
    | arrives queue payload =>
      exact h.of_broker rfl hbooks (h.order.arrive h.books queue payload)
    | delivers link position =>
      exact h.of_broker (Broker.sources_deliver link position _) hbooks
        (h.order.deliver h.books hG)
    | processes link =>
      exact h.of_broker (Broker.sources_process link _) hbooks (h.order.process h.books link)
    | drops link => exact h.of_broker (Broker.sources_drop link _) hbooks (h.order.drop link)
    | severs link => exact h.of_broker (Broker.sources_sever link _) hbooks (h.order.sever link)
    | parserCallback i e =>
      obtain ⟨hown, hothers, -⟩ :=
        callback_spec S.parserService .rawArticles e (s.parsers i) (h.parsers i)
      refine ⟨hbooks, fun j link hlink => ?_,
        (inOrder_callback S.parserService .rawArticles e (s.parsers i) h.order).1⟩
      by_cases hij : j = i
      · subst hij
        exact hown link (by simpa [World.afterIncident, World.after] using hlink)
      · exact hothers link _
          (h.parsers j link (by simpa [World.afterIncident, World.after, hij] using hlink))
    | storageCallback e =>
      obtain ⟨-, hothers, -⟩ :=
        callback_spec S.storageService .parsedArticles e s.storage h.order.own
      exact ⟨hbooks, fun j link hlink => hothers link _ (h.parsers j link hlink),
        (inOrder_callback S.storageService .parsedArticles e s.storage h.order).2 rfl rfl⟩
    | parserReceives i now publishes through =>
      revert hbooks
      unfold World.afterIncident World.after
      dsimp only
      split
      · exact fun _ => h
      rename_i link tag payload broker hreceive
      obtain ⟨hlink, hdelivery⟩ := receive_eq_some hreceive
      intro hbooks
      refine h.of_broker ?_ hbooks (h.order.answer_other hdelivery ?_ _ through)
      · rw [Broker.sources_send, Broker.sources_receive hdelivery]
      · rw [h.parsers i link hlink]
        simp
    | storageReceives calls counts clock through =>
      revert hbooks
      unfold World.afterIncident World.after
      dsimp only
      split
      · exact fun _ => h
      rename_i link tag payload broker hreceive
      obtain ⟨hlink, hdelivery⟩ := receive_eq_some hreceive
      intro hbooks
      refine ⟨hbooks, fun i l hl => ?_, h.order.answer hlink hdelivery
        (attempt_handleParsedArticles S.nlohmann calls counts clock payload s.database) [] through⟩
      rw [Broker.sources_send, Broker.sources_receive hdelivery]
      exact h.parsers i l hl

/-- The database is what these messages make of an empty one if each is stored once: those that are
gone, and at most the one behind them.  Only the times of the last updates may differ, and no digest
shows them. -/
structure StoredUpTo {ι : Type} (S : Setting) (s : World ι) (payloads : List Bytes) (t : Table) :
    Prop where
  gone : s.broker.removedFrom .parsedArticles <+: payloads
  published : payloads <+: s.broker.acceptedIn .parsedArticles
  next : payloads.length ≤ (s.broker.removedFrom .parsedArticles).length + 1
  once : StoredOnce S.nlohmann payloads t
  rows : SameRows s.database.committed t
  digest : ∀ r config c, publishDigest S.nlohmann r config c s.database.committed =
    publishDigest S.nlohmann r config c t

/-- **Every message is stored once**, whichever processes die and whatever is delivered again, in
the order in which the messages were published. -/
theorem stored_once {tr : List (Move (World ι) (Incident ι))} {s : World ι}
    (hrun : (S.outages ι).Run tr s) (hG : ∀ m ∈ tr, TakesTurns m) :
    ∃ payloads t, StoredUpTo S s payloads t := by
  have hinv : StoresInOrder S s := by
    refine hrun.invariant_of_moves (P := StoresInOrder S) (G := TakesTurns) ?_ ?_ hG
    · rintro s rfl
      exact ⟨.empty, fun i l hl => absurd hl (by simp), .empty _ _ _⟩
    · rintro s e t h ⟨-, rfl⟩ hguard
      exact h.afterIncident e hguard
  have hdigest : ∀ {t : Table}, SameRows s.database.committed t → ∀ r config c,
      publishDigest S.nlohmann r config c s.database.committed =
        publishDigest S.nlohmann r config c t := by
    intro t hsame r config c
    rw [publishDigest, publishDigest, topArticles_of_sameRows hsame]
  obtain ⟨u, honce, hprefix, hcase⟩ := hinv.order.once
  obtain ⟨t, ht, hsame⟩ := StoredOnce.of_once honce
  have hgone : SameRows s.database.committed u → ∃ payloads t, StoredUpTo S s payloads t :=
    fun hu => ⟨_, t, List.prefix_rfl, hprefix, Nat.le_succ _, ht, Eq.trans hu hsame,
      hdigest (Eq.trans hu hsame)⟩
  rcases hcase with hnone | ⟨p, hnext, hsames | hstores⟩
  · exact hgone (by rw [hnone]; rfl)
  · exact hgone hsames
  · obtain ⟨t', ht', hsame'⟩ := ht.concat hsame hstores
    exact ⟨_, t', List.prefix_append _ _, hnext, by simp, ht', hsame', hdigest hsame'⟩

/-! ## A message that is stored again -/

/-- A message with one article. -/
def oneArticleMessage : Bytes :=
  (Nlohmann.reference.encode ParsedArticlesMessage.codec
    { articles := [{ articleId := utf8 "1" }] }).getD []

/-- The store commits the message and dies before its acknowledgement gets through; a minute later
the message is delivered again. -/
def storedAgain : List (Incident Unit) :=
  [.event (.arrives .parsedArticles oneArticleMessage), .event (.storageCallback (.run true)),
    .event (.storageCallback .channelReady), .event (.delivers 0 0),
    .event (.storageReceives .succeed true ⟨0, 0⟩ 0), .storageDies, .event (.drops 0),
    .event (.storageCallback (.run true)), .event (.storageCallback .channelReady),
    .event (.delivers 1 0), .event (.storageReceives .succeed true ⟨60, 60⟩ 1),
    .event (.processes 1)]

/-- The row was updated in the second minute, and still the message is stored once. -/
theorem stored_once_storedAgain :
    let s := storedAgain.foldl (World.afterIncident goodBaseUrl) {}
    s.database.committed.rows.map (fun row => (row.firstSeenEpoch, row.updatedEpoch)) = [(0, 60)] ∧
    ∃ payloads t, StoredUpTo goodBaseUrl s payloads t := by
  have hstep : ∀ (s : World Unit) e, s.Possible e →
      (goodBaseUrl.outages Unit).step s e (s.afterIncident goodBaseUrl e) := fun _ _ h => ⟨h, rfl⟩
  have hstart : (goodBaseUrl.outages Unit).Run [] {} := .start rfl
  have hrun := hstart.append_moves hstep storedAgain
    ⟨trivial, rfl, ⟨⟨_, rfl, rfl⟩, _, rfl, rfl, rfl⟩, trivial, trivial, trivial, trivial, rfl,
      ⟨⟨_, rfl, rfl⟩, _, rfl, rfl, rfl⟩, trivial, trivial, trivial, trivial⟩
  exact ⟨by decide +kernel, stored_once hrun (by decide +kernel)⟩

end Pipeline
end HabrDigest
