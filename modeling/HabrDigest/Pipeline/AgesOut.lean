import HabrDigest.Pipeline.Newsroom

/-!
# Articles age out

`kUpsertSql` leaves two columns of a row as they are when the article comes again: those that say
when it was first seen.  `kTopSql` compares the second of them with the clock.  So an article that is
fetched again and again must not stay in the digests for ever, and one that has dropped out must not
come back.

`ages_out` says so for every run.  A row that was committed once is there in every later state, with
the times at which it was first seen, whatever the services and the database go through.  A digest
has an article of such a row only while the row is in its window; and as long as the digest has room
for the whole window, it has the article exactly then.
-/

namespace HabrDigest
namespace Storage

open Messaging Sqlite

/-! ## What a table remembers -/

/-- When an article was first seen: what no batch changes. -/
def Row.firstSeen (row : Row) : Bytes × ℤ := (row.firstSeenAt, row.firstSeenEpoch)

/-- Every row of an earlier table is there, and was first seen when it was. -/
def Remembers (earlier t : Table) : Prop :=
  ∀ id row, earlier.lookup id = some row →
    ∃ row', t.lookup id = some row' ∧ row'.firstSeen = row.firstSeen

theorem Remembers.refl (t : Table) : Remembers t t := fun _ row h => ⟨row, h, rfl⟩

/-- **A batch keeps when an article was first seen.** -/
theorem Remembers.upsertAll {earlier t : Table} (h : Remembers earlier t) (rows : List Row) :
    Remembers earlier (t.upsertAll onConflict rows) := by
  intro id row hrow
  obtain ⟨old, hold, hseen⟩ := h id row hrow
  obtain ⟨new, hnew, hkept⟩ :=
    KeyedTable.exists_lookup_upsertAll (m := onConflict) (f := Row.firstSeen) (fun _ _ => rfl) rows
      hold
  exact ⟨new, hnew, hkept.trans hseen⟩

/-- The tables of a connection remember an earlier one. -/
structure Recalls (earlier : Table) (c : Connection Table) : Prop where
  committed : Remembers earlier c.committed
  pending : ∀ t ∈ c.pending, Remembers earlier t

theorem Recalls.visible {earlier : Table} {c : Connection Table} (h : Recalls earlier c) :
    Remembers earlier c.visible := by
  unfold Connection.visible
  cases hpending : c.pending with
  | none => exact h.committed
  | some t => exact h.pending t (Option.mem_def.mpr hpending)

/-- **A delivery keeps it**, whatever becomes of its batch. -/
theorem Recalls.delivered {earlier : Table} {n : Nlohmann} {clock : Clock} {payload : Bytes}
    {c c' : Connection Table} (h : Recalls earlier c) (hdelivered : Delivered n clock payload c c') :
    Recalls earlier c' := by
  cases hdelivered with
  | same => exact h
  | committed => exact ⟨h.committed.upsertAll _, by simp⟩
  | leftOpen =>
    refine ⟨h.committed, fun t ht => ?_⟩
    obtain rfl := Option.some.inj ht
    exact h.committed.upsertAll _

theorem Recalls.rollback {earlier : Table} {c : Connection Table} (h : Recalls earlier c) :
    Recalls earlier c.rollback := ⟨h.committed, fun _ ht => absurd ht (by simp [Connection.rollback])⟩

/-! ## What every connection is like -/

/-- The ids of a table have no NUL in them, since they were bound as texts. -/
def PlainIds (t : Table) : Prop := ∀ row ∈ t.rows, 0 ∉ row.articleId

theorem PlainIds.upsertAll {t : Table} (h : PlainIds t) {n : Nlohmann} {clock : Clock}
    {m : ParsedArticlesMessage} {rows : List Row}
    (hrows : batchRows n clock m.traceId m.articles = some rows) :
    PlainIds (t.upsertAll onConflict rows) := by
  refine KeyedTable.forall_mem_upsertAll onConflict (fun old r hold _ => hold) h fun row hrow => ?_
  obtain ⟨a, -, ha⟩ := exists_article_of_mem hrows hrow
  rw [articleId_of_articleRow ha]
  exact Bytes.zero_notMem_cString _

/-- The ids are plain, and an open transaction goes on from what is committed. -/
structure Sound (c : Connection Table) : Prop where
  recalls : Recalls c.committed c
  committed : PlainIds c.committed
  pending : ∀ t ∈ c.pending, PlainIds t

theorem Sound.visible {c : Connection Table} (h : Sound c) : PlainIds c.visible := by
  unfold Connection.visible
  cases hpending : c.pending with
  | none => exact h.committed
  | some t => exact h.pending t (Option.mem_def.mpr hpending)

theorem Sound.delivered {n : Nlohmann} {clock : Clock} {payload : Bytes} {c c' : Connection Table}
    (h : Sound c) (hdelivered : Delivered n clock payload c c') : Sound c' := by
  cases hdelivered with
  | same => exact h
  | committed _ hrows =>
    exact ⟨⟨.refl _, by simp⟩, h.committed.upsertAll hrows, by simp⟩
  | leftOpen _ hrows =>
    refine ⟨⟨.refl _, fun t ht => ?_⟩, h.committed, fun t ht => ?_⟩
    · obtain rfl := Option.some.inj ht
      exact (Remembers.refl _).upsertAll _
    · obtain rfl := Option.some.inj ht
      exact h.committed.upsertAll hrows

theorem Sound.rollback {c : Connection Table} (h : Sound c) : Sound c.rollback :=
  ⟨⟨.refl _, fun _ ht => absurd ht (by simp [Connection.rollback])⟩, h.committed,
    fun _ ht => absurd ht (by simp [Connection.rollback])⟩

/-! ## What a digest shows -/

/-- **A digest has an article of a row only while the row is in the window**, and if it has room for
the whole window, it has it then. -/
theorem mem_topArticles_iff (n : Nlohmann) (r : Rounding) (now : ℤ) (periodHours limit : UInt32)
    (w : ScoreWeights) {t : Table} (hplain : PlainIds t) {row : Row}
    (hrow : t.lookup row.articleId = some row) :
    ((∃ e ∈ topArticles n r now periodHours limit w t, e.articleId = row.articleId) →
      row.inWindow now periodHours = true) ∧
    ((t.rows.filter (Row.inWindow now periodHours)).length ≤ limit.toNat →
      row.inWindow now periodHours = true →
        ∃ e ∈ topArticles n r now periodHours limit w t, e.articleId = row.articleId) := by
  have hid : ∀ row ∈ t.rows, (digestArticle n r w row).articleId = row.articleId :=
    fun row hmem => Bytes.cString_eq_self (hplain row hmem)
  rw [topArticles_eq]
  refine ⟨?_, fun hroom hwindow => ?_⟩
  · rintro ⟨e, he, heq⟩
    obtain ⟨shown, hshown, rfl⟩ := List.mem_map.mp he
    obtain ⟨hmem, hwindow⟩ :=
      List.mem_filter.mp ((Ranking.mem_rankBy _).mp (List.mem_of_mem_take hshown))
    have hlookup := KeyedTable.mem_rows_iff.mp hmem
    rw [← hid shown hmem, heq] at hlookup
    obtain rfl := Option.some.inj (hrow.symm.trans hlookup)
    exact hwindow
  · have hmem := KeyedTable.mem_of_lookup hrow
    refine ⟨_, List.mem_map_of_mem ?_, hid row hmem⟩
    rw [List.take_of_length_le ((Ranking.rankBy_perm _ _).length_eq.trans_le hroom)]
    exact (Ranking.mem_rankBy _).mpr (List.mem_filter.mpr ⟨hmem, hwindow⟩)

end Storage
namespace Pipeline

open Messaging HabrDigest.Parser Storage Sqlite

variable {ι : Type} [DecidableEq ι] {P : Press} {F : Set RawArticlesMessage}

/-! ## The database of the pipeline -/

/-- **The database changes by a delivery or by a death** of the storage service. -/
theorem database_afterIncident (S : Setting) (s : World ι) (e : Incident ι) :
    (s.afterIncident S e).database = s.database ∨
    (s.afterIncident S e).database = s.database.rollback ∨
    ∃ calls counts clock through payload, e = .event (.storageReceives calls counts clock through) ∧
      Delivered S.nlohmann clock payload s.database (s.afterIncident S e).database := by
  cases e with
  | storageDies => exact Or.inr (Or.inl rfl)
  | parserDies i => exact Or.inl rfl
  | event e =>
    cases e with
    | storageReceives calls counts clock through =>
      unfold World.afterIncident World.after
      dsimp only
      split
      · exact Or.inl rfl
      · rename_i link tag payload broker _
        exact Or.inr (Or.inr ⟨calls, counts, clock, through, payload, rfl,
          delivered_handleParsedArticles ..⟩)
    | parserReceives i now publishes through =>
      left
      unfold World.afterIncident World.after
      dsimp only
      split <;> rfl
    | _ => exact Or.inl rfl

/-- **What deliveries and deaths keep, every event keeps.** -/
theorem keeps_database {Q : Connection Table → Prop}
    (hdelivered : ∀ {clock payload c c'}, Q c →
      Delivered P.setting.nlohmann clock payload c c' → Q c')
    (hrollback : ∀ {c}, Q c → Q c.rollback) {s : Newsroom ι} (h : Q s.world.database)
    (e : NewsEvent ι) : Q (s.after P e).world.database := by
  cases e with
  | pipeline e =>
    show Q (s.world.afterIncident P.setting e).database
    rcases database_afterIncident P.setting s.world e with heq | heq | ⟨-, -, _, -, _, -, hstep⟩
    · rw [heq]
      exact h
    · rw [heq]
      exact hrollback h
    · exact hdelivered h hstep
  | exchanges | notifierReceives | webReceives =>
    unfold Newsroom.after
    dsimp only
    split <;> exact h
  | connects subscriber => cases subscriber <;> exact h
  | _ => exact h

theorem sound_of_reachable {s : Newsroom ι} (h : (P.system F ι).Reachable s) :
    Sound s.world.database := by
  refine h.invariant (P := fun s : Newsroom ι => Sound s.world.database) ?_ ?_
  · rintro s rfl
    exact ⟨⟨.refl _, by simp⟩, fun row hrow => absurd hrow List.not_mem_nil, by simp⟩
  · rintro s e t hsound ⟨-, rfl⟩
    exact keeps_database (fun h hstep => h.delivered hstep) (fun h => h.rollback) hsound e

/-- **What is committed once is remembered** in every later state. -/
theorem recalls_of_mem {tr : List (Move (Newsroom ι) (NewsEvent ι))} {s : Newsroom ι}
    (hrun : (P.system F ι).Run tr s) {m : Move (Newsroom ι) (NewsEvent ι)} (hm : m ∈ tr) :
    Recalls m.post.world.database.committed s.world.database := by
  let R (a t : Newsroom ι) : Prop :=
    Sound a.world.database → Recalls a.world.database.committed t.world.database
  have hR : R m.post s := by
    refine hrun.relates (R := R) (fun t hsound => hsound.recalls) ?_ hm
    rintro a t e _ - hrecalls ⟨-, rfl⟩ hsound
    exact keeps_database (fun h hstep => h.delivered hstep) (fun h => h.rollback)
      (hrecalls hsound) e
  obtain ⟨hpre, hstep⟩ := hrun.exists_reachable_of_mem hm
  exact hR (sound_of_reachable (hpre.step hstep))

/-- **Articles age out.**  A row that is committed at some point of a run is there from then on, with
the times at which it was first seen.  From then on a digest has its article only while the row is in
the window of the digest; and whenever there is room for the whole window, it has the article exactly
then. -/
theorem ages_out {tr : List (Move (Newsroom ι) (NewsEvent ι))} {s : Newsroom ι}
    (hrun : (P.system F ι).Run tr s) {m : Move (Newsroom ι) (NewsEvent ι)} (hm : m ∈ tr)
    {row : Row} (hrow : row ∈ m.post.world.database.committed.rows) :
    (∃ row' ∈ s.world.database.committed.rows,
      row'.articleId = row.articleId ∧ row'.firstSeen = row.firstSeen) ∧
    ∀ c digest payload, publishDigest P.setting.nlohmann P.rounding P.storage c
        s.world.database.visible = .handed digest payload →
      ((∃ e ∈ digest.articles, e.articleId = row.articleId) →
        c.now - (P.storage.digestPeriodHours.toNat : ℤ) * 3600 ≤ row.firstSeenEpoch) ∧
      ((s.world.database.visible.rows.filter
          (Row.inWindow c.now P.storage.digestPeriodHours)).length ≤ P.storage.digestTopN.toNat →
        c.now - (P.storage.digestPeriodHours.toNat : ℤ) * 3600 ≤ row.firstSeenEpoch →
          ∃ e ∈ digest.articles, e.articleId = row.articleId) := by
  have hrecalls := recalls_of_mem hrun hm
  have hlookup := KeyedTable.mem_rows_iff.mp hrow
  refine ⟨?_, fun c digest payload hdigest => ?_⟩
  · obtain ⟨row', hrow', hseen⟩ := hrecalls.committed _ row hlookup
    exact ⟨row', KeyedTable.mem_of_lookup hrow', KeyedTable.key_of_lookup hrow', hseen⟩
  · obtain ⟨row', hrow', hseen⟩ := hrecalls.visible _ row hlookup
    have hid : row'.articleId = row.articleId := KeyedTable.key_of_lookup hrow'
    have hepoch : row'.firstSeenEpoch = row.firstSeenEpoch := congrArg Prod.snd hseen
    obtain ⟨hshown, hroom⟩ := mem_topArticles_iff P.setting.nlohmann P.rounding c.now
      P.storage.digestPeriodHours P.storage.digestTopN P.storage.weights
      (sound_of_reachable hrun.reachable).visible (hid ▸ hrow')
    rw [Row.inWindow, decide_eq_true_eq, hepoch, hid] at hshown hroom
    rw [(publishDigest_handed hdigest).1]
    exact ⟨hshown, hroom⟩

/-! ## An article that is fetched again -/

/-- The page is fetched, parsed and stored again, a day and an hour later. -/
def fetchedAgain : List (NewsEvent Unit) :=
  [.arrives .rawArticles page, .delivers 0 0, .parserReceives () 0 true 2, .processes 0,
    .processes 0, .delivers 1 0, .storageReceives .succeed true ⟨90000, 90000⟩ 1,
    .processes 1].map fun e => .pipeline (.event e)

theorem run_fetchedAgain : (smallPress.system onePage Unit).Run
    (TransitionSystem.moves (Newsroom.after smallPress) {} (pagePublished ++ fetchedAgain))
    ((pagePublished ++ fetchedAgain).foldl (Newsroom.after smallPress) {}) := by
  refine run_pagePublished (.of_forall ?_ _)
  simp only [fetchedAgain, List.map_cons, List.map_nil, List.forall_mem_cons]
  exact ⟨fun _ => ⟨trivial, mem_pages_onePage⟩, fun _ => ⟨trivial, trivial⟩,
    fun _ => ⟨trivial, trivial⟩, fun _ => ⟨trivial, trivial⟩, fun _ => ⟨trivial, trivial⟩,
    fun _ => ⟨trivial, trivial⟩, fun _ => ⟨trivial, trivial⟩, fun _ => ⟨trivial, trivial⟩,
    fun _ h => absurd h List.not_mem_nil⟩

/-- The article has just been updated, and still the next digest is without it. -/
theorem ages_out_fetchedAgain :
    let s := (pagePublished ++ fetchedAgain).foldl (Newsroom.after smallPress) {}
    s.world.database.committed.rows.map (fun row => (row.articleId, row.updatedEpoch)) =
      [(utf8 "1", 90000)] ∧
    (∃ row ∈ s.world.database.committed.rows, row.articleId = utf8 "1" ∧
      row.firstSeenEpoch = 0) ∧
    ∀ digest payload, publishDigest smallPress.setting.nlohmann smallPress.rounding
        smallPress.storage ⟨90001, 90001, 7, true⟩ s.world.database.visible =
          .handed digest payload →
      ∀ e ∈ digest.articles, e.articleId ≠ utf8 "1" := by
  obtain ⟨m, hm, row, hrow, hid, hepoch⟩ : ∃ m ∈ TransitionSystem.moves
      (Newsroom.after smallPress) {} (pagePublished ++ fetchedAgain),
      ∃ row ∈ m.post.world.database.committed.rows,
        row.articleId = utf8 "1" ∧ row.firstSeenEpoch = 0 :=
    ⟨_, List.getElem_mem (n := 10) (by decide), by decide +kernel⟩
  obtain ⟨⟨row', hrow', hid', hseen⟩, hdigests⟩ := ages_out run_fetchedAgain hm hrow
  refine ⟨by decide +kernel, ⟨row', hrow', hid'.trans hid, ?_⟩,
    fun digest payload hdigest e he heq => ?_⟩
  · exact (congrArg Prod.snd hseen).trans hepoch
  · have hwindow := (hdigests _ digest payload hdigest).1 ⟨e, he, heq.trans hid.symm⟩
    have hperiod : smallPress.storage.digestPeriodHours.toNat = 24 := by decide
    rw [hperiod, hepoch] at hwindow
    exact absurd hwindow (by decide)

end Pipeline
end HabrDigest
