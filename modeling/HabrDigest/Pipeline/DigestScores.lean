import HabrDigest.Lib.JsonText
import HabrDigest.Notifier.NotifierService
import HabrDigest.Storage.StorageService
import HabrDigest.Web.WebService

/-!
# Every digest that is published is accepted?

A digest is built by SQLite arithmetic from weights that come from the environment, written
as JSON, and read by two services with a strict decoder.  JSON has no infinities: one is
written as `null`, and both services refuse a `null` where a number should be.

A NaN does no harm, since SQLite makes it NULL and it reads back as zero.  So a digest is
accepted exactly when no infinite score is among its articles, and `digest_accepted_iff`
says when that is in terms of the rows in the window: a row that scores plus infinity always
makes it into the digest, and one that scores minus infinity does so unless there are
enough rows with a finite score to fill it.
-/

namespace HabrDigest
namespace Pipeline

open Messaging Sqlite Storage

/-- A payload is accepted: both services decode it, and what they get is the digest. -/
structure Accepted (n : Nlohmann) (digest : DigestReadyMessage) (payload : Bytes) : Prop where
  decodes : n.decode DigestReadyMessage.codec payload = some digest
  notifier : ∀ config first second files,
    (Notifier.handleDigestReady n config first second payload files).1 ≠ .kReject
  web : ∀ config digests, Web.handleDigestReady n config payload digests =
    (.kAck, (digest :: digests).take config.historySize.toNat)

/-- A payload that decodes to the digest is accepted. -/
theorem accepted_iff {n : Nlohmann} {digest : DigestReadyMessage} {payload : Bytes} :
    Accepted n digest payload ↔ n.decode DigestReadyMessage.codec payload = some digest := by
  refine ⟨fun h => h.decodes, fun h => ⟨h, fun config first second files => ?_, fun _ _ => ?_⟩⟩
  · exact Notifier.handleDigestReady_ne_kReject h config first second files
  · rw [Web.handleDigestReady, h]

/-- A digest is accepted exactly when the score of every article is finite. -/
theorem accepted_iff_isFinite {n : Nlohmann} {digest : DigestReadyMessage} {payload : Bytes}
    (h : n.encode DigestReadyMessage.codec digest = some payload) :
    Accepted n digest payload ↔ ∀ a ∈ digest.articles, a.score.isFinite = true := by
  rw [accepted_iff, Nlohmann.decode_encode h, ← DigestReadyMessage.lossless_iff]
  rfl

/-! ## The levels of scores -/

/-- The level of a score: NULL is below the negative infinity, which is below the finite
numbers, which are below the positive infinity. -/
def level (v : Value) : ℤ := (ofLex v.rank).1

/-- The score of a row is NULL or a real that is no NaN. -/
theorem score_cases (r : Rounding) (w : ScoreWeights) (row : Row) :
    w.score r row = .null ∨ ∃ x, x ≠ .nan ∧ w.score r row = .real x := by
  have hadd : ∀ a b : Value,
      Value.add r a b = .null ∨ ∃ x, x ≠ .nan ∧ Value.add r a b = .real x := by
    intro a b
    unfold Value.add
    split
    · rename_i x y _ _
      unfold Value.ofDouble
      by_cases hnan : x.add r y = .nan
      · exact Or.inl (if_pos hnan)
      · exact Or.inr ⟨_, hnan, if_neg hnan⟩
    · exact Or.inl rfl
  exact hadd _ _

theorem level_bounds (r : Rounding) (w : ScoreWeights) (row : Row) :
    0 ≤ level (w.score r row) ∧ level (w.score r row) ≤ 3 := by
  rcases score_cases r w row with h | ⟨x, hx, h⟩
  · simp [h, level, Value.rank]
  · cases x <;> simp_all [level, Value.rank]

theorem level_eq_three_iff (r : Rounding) (w : ScoreWeights) (row : Row) :
    level (w.score r row) = 3 ↔ w.score r row = .real .posInf := by
  rcases score_cases r w row with h | ⟨x, hx, h⟩
  · simp [h, level, Value.rank]
  · cases x <;> simp_all [level, Value.rank]

theorem level_eq_one_iff (r : Rounding) (w : ScoreWeights) (row : Row) :
    level (w.score r row) = 1 ↔ w.score r row = .real .negInf := by
  rcases score_cases r w row with h | ⟨x, hx, h⟩
  · simp [h, level, Value.rank]
  · cases x <;> simp_all [level, Value.rank]

/-- Only an infinity reads back as a number that is not finite. -/
theorem isFinite_columnDouble_iff (r : Rounding) (w : ScoreWeights) (row : Row) :
    ((w.score r row).columnDouble r).isFinite = true ↔
      ¬ level (w.score r row) = 3 ∧ ¬ level (w.score r row) = 1 := by
  rcases score_cases r w row with h | ⟨x, hx, h⟩
  · simp [h, level, Value.rank, Value.columnDouble, Value.toDouble, Double.isFinite]
  · cases x <;>
      simp_all [level, Value.rank, Value.columnDouble, Value.toDouble, Double.isFinite]

/-- The ranking goes down the levels. -/
theorem level_le_of_rankingKey_le {r : Rounding} {w : ScoreWeights} {a b : Row}
    (h : rankingKey r w a ≤ rankingKey r w b) : level (w.score r b) ≤ level (w.score r a) := by
  have hrank : (w.score r b).rank ≤ (w.score r a).rank := by
    rcases Prod.Lex.toLex_le_toLex.mp h with hlt | ⟨heq, -⟩
    · exact le_of_lt (OrderDual.toDual_lt_toDual.mp hlt)
    · exact le_of_eq (OrderDual.toDual_inj.mp heq).symm
  rcases Prod.Lex.le_iff.mp hrank with hlt | ⟨heq, -⟩
  · exact le_of_lt hlt
  · exact le_of_eq heq

/-! ## When a digest is accepted -/

/-- The rows in the window of a digest. -/
def window (config : Config) (now : ℤ) (t : Table) : List Row :=
  t.rows.filter (Row.inWindow now config.digestPeriodHours)

/-- The score of a row is finite. -/
def hasFiniteScore (r : Rounding) (w : ScoreWeights) (row : Row) : Bool :=
  level (w.score r row) = 2

/-- The digest of a table shows only scores that JSON can write: no row in the window scores plus
infinity, and if one scores minus infinity then the rows with a finite score fill the
digest. -/
structure Representable (r : Rounding) (config : Config) (now : ℤ) (t : Table) : Prop where
  posInf : ∀ row ∈ window config now t, config.weights.score r row ≠ .real .posInf
  negInf : (∃ row ∈ window config now t, config.weights.score r row = .real .negInf) →
    config.digestTopN.toNat ≤
      ((window config now t).filter (hasFiniteScore r config.weights)).length

section TakeRanking

variable (r : Rounding) (w : ScoreWeights) (rows : List Row) (limit : ℕ)

/-- A row that scores plus infinity comes before every other row. -/
theorem exists_posInf_take_iff (hlimit : 0 < limit) :
    (∃ row ∈ (Ranking.rankBy (rankingKey r w) rows).take limit, level (w.score r row) = 3) ↔
      ∃ row ∈ rows, level (w.score r row) = 3 := by
  have htake := Ranking.exists_mem_take_iff (rankingKey r w) (P := fun _ => false)
    (Q := fun row => level (w.score r row) = 3) (fun _ _ _ h => h)
    (fun a b hab hb => Or.inr (by
      have hle := level_le_of_rankingKey_le hab
      have hbounds := level_bounds r w a
      simp only [decide_eq_true_eq] at hb ⊢
      omega))
    (fun _ _ => by simp) (Ranking.rankBy_pairwise _ rows) limit
  simpa [Ranking.mem_rankBy, hlimit] using htake

/-- A row that scores minus infinity comes behind those that score more. -/
theorem exists_negInf_take_iff :
    (∃ row ∈ (Ranking.rankBy (rankingKey r w) rows).take limit, level (w.score r row) = 1) ↔
      (∃ row ∈ rows, level (w.score r row) = 1) ∧
        (rows.filter fun row => decide (2 ≤ level (w.score r row))).length < limit := by
  have htake := Ranking.exists_mem_take_iff (rankingKey r w)
    (P := fun row => 2 ≤ level (w.score r row)) (Q := fun row => level (w.score r row) = 1)
    (fun a b hab hb => by
      have hle := level_le_of_rankingKey_le hab
      simp only [decide_eq_true_eq] at hb ⊢
      omega)
    (fun a b hab hb => by
      have hle := level_le_of_rankingKey_le hab
      simp only [decide_eq_true_eq] at hb ⊢
      omega)
    (fun a ha => by
      simp only [decide_eq_true_eq] at ha ⊢
      omega) (Ranking.rankBy_pairwise _ rows) limit
  rw [((Ranking.rankBy_perm (rankingKey r w) rows).filter _).length_eq] at htake
  simpa [Ranking.mem_rankBy] using htake

variable {rows}

/-- Where no row scores plus infinity, the rows above minus infinity are the finite ones. -/
theorem filter_two_le_level (hnone : ∀ row ∈ rows, level (w.score r row) ≠ 3) :
    (rows.filter fun row => decide (2 ≤ level (w.score r row))) =
      rows.filter (hasFiniteScore r w) := by
  refine List.filter_congr fun row hrow => ?_
  have hbounds := level_bounds r w row
  have hne := hnone row hrow
  unfold hasFiniteScore
  rw [decide_eq_decide]
  omega

end TakeRanking

/-- The digest shows finite scores exactly when its rows show neither infinity. -/
theorem forall_isFinite_topArticles_iff (n : Nlohmann) (r : Rounding) (now : ℤ)
    (periodHours limit : UInt32) (w : ScoreWeights) (t : Table) :
    (∀ a ∈ topArticles n r now periodHours limit w t, a.score.isFinite = true) ↔
      let shown := (Ranking.rankBy (rankingKey r w)
        (t.rows.filter (Row.inWindow now periodHours))).take limit.toNat
      (¬ ∃ row ∈ shown, level (w.score r row) = 3) ∧
        ¬ ∃ row ∈ shown, level (w.score r row) = 1 := by
  have hscore : ∀ row, (digestArticle n r w row).score.isFinite = true ↔
      ¬ level (w.score r row) = 3 ∧ ¬ level (w.score r row) = 1 := isFinite_columnDouble_iff r w
  rw [topArticles_eq]
  simp only [List.forall_mem_map, hscore]
  push Not
  exact forall₂_and

/-- **When the digest query shows an infinite score.** -/
theorem isFinite_topArticles_iff (n : Nlohmann) (r : Rounding) (config : Config) (now : ℤ)
    (t : Table) (htop : 0 < config.digestTopN.toNat) :
    (∀ a ∈ topArticles n r now config.digestPeriodHours config.digestTopN config.weights t,
        a.score.isFinite = true) ↔ Representable r config now t := by
  rw [forall_isFinite_topArticles_iff]
  dsimp only
  rw [exists_posInf_take_iff _ _ _ _ htop, exists_negInf_take_iff]
  constructor
  · rintro ⟨hno3, hno1⟩
    have hnone : ∀ row ∈ window config now t, level (config.weights.score r row) ≠ 3 :=
      fun row hrow h => hno3 ⟨row, hrow, h⟩
    refine ⟨fun row hrow h => hnone row hrow ((level_eq_three_iff r _ row).mpr h), ?_⟩
    rintro ⟨row, hrow, h⟩
    by_contra hlt
    rw [← filter_two_le_level r _ hnone] at hlt
    exact hno1 ⟨⟨row, hrow, (level_eq_one_iff r _ row).mpr h⟩, not_le.mp hlt⟩
  · rintro ⟨hno3, hfill⟩
    have hnone : ∀ row ∈ window config now t, level (config.weights.score r row) ≠ 3 :=
      fun row hrow h => hno3 row hrow ((level_eq_three_iff r _ row).mp h)
    refine ⟨fun ⟨row, hrow, h⟩ => hnone row hrow h, ?_⟩
    rintro ⟨⟨row, hrow, h⟩, hlt⟩
    have hle := hfill ⟨row, hrow, (level_eq_one_iff r _ row).mp h⟩
    rw [← filter_two_le_level r _ hnone] at hle
    exact absurd hle (not_le.mpr hlt)

/-- **A digest that is published is accepted** if and only if its window has no infinite score
to show. -/
theorem digest_accepted_iff (n : Nlohmann) (r : Rounding) (env : Common.Env) (c : Circumstances)
    (t : Table) {digest : DigestReadyMessage} {payload : Bytes}
    (h : publishDigest n r (loadConfigFromEnv r env) c t = .handed digest payload) :
    Accepted n digest payload ↔ Representable r (loadConfigFromEnv r env) c.now t := by
  obtain ⟨hdigest, hpayload⟩ := publishDigest_handed h
  have htop := (loadConfigFromEnv_pos r env).2.1
  rw [accepted_iff_isFinite hpayload, hdigest]
  exact isFinite_topArticles_iff n r _ c.now t htop

/-- One row of one vote, seen at the epoch. -/
def oneVote : Table := KeyedTable.empty.upsert onConflict
  { articleId := utf8 "1", url := [], title := utf8 "a", author := [], hubs := utf8 "[]"
    publishedAt := [], complexity := [], readingTime := [], votes := 1, views := 0
    bookmarks := 0, comments := 0, firstSeenAt := [], firstSeenEpoch := 0, updatedAt := []
    updatedEpoch := 0, traceId := [] }

/-- A weight of votes and nothing else that differs from the defaults. -/
def votesWeight (weight : Bytes) : Common.Env := fun name =>
  if name = utf8 "DIGEST_WEIGHT_VOTES" then some weight else none

/-- What a tick meets at the epoch. -/
def atEpoch : Circumstances := ⟨0, 0, 7, true⟩

/-- The digest is handed over, and comes back as itself; none where it is not handed over. -/
def roundTrips (n : Nlohmann) : DigestOutcome → Option Bool
  | .handed digest payload => some (n.decode DigestReadyMessage.codec payload = some digest)
  | .failed | .skipped | .threw => none

theorem decodes_of_roundTrips {n : Nlohmann} {outcome : DigestOutcome} {b : Bool}
    (h : roundTrips n outcome = some b) : ∃ digest payload, outcome = .handed digest payload ∧
      (n.decode DigestReadyMessage.codec payload = some digest ↔ b = true) := by
  cases outcome with
  | handed digest payload =>
    obtain rfl := Option.some.inj h
    exact ⟨digest, payload, rfl, decide_eq_true_iff.symm⟩
  | _ => simp [roundTrips] at h

/-- A weight that `std::stod` accepts, and a score that JSON cannot write. -/
theorem digest_not_accepted :
    ¬ ∀ (n : Nlohmann) (r : Rounding) (env : Common.Env) (c : Circumstances) (t : Table)
      (digest : DigestReadyMessage) (payload : Bytes),
      publishDigest n r (loadConfigFromEnv r env) c t = .handed digest payload →
        Accepted n digest payload := by
  intro h
  have hround : roundTrips .reference (publishDigest .reference .exact
      (loadConfigFromEnv .exact (votesWeight (utf8 "inf"))) atEpoch oneVote) = some false := by
    decide +kernel
  obtain ⟨digest, payload, hhanded, hdecodes⟩ := decodes_of_roundTrips hround
  exact absurd (hdecodes.mp (h _ _ _ _ _ _ _ hhanded).decodes) (by simp)

/-- A weight that is a number, and the digest of one article. -/
theorem digest_accepted_iff_three :
    ∃ digest payload,
      publishDigest .reference .exact (loadConfigFromEnv .exact (votesWeight (utf8 "3"))) atEpoch
        oneVote = .handed digest payload ∧
      (Accepted .reference digest payload ↔
        Representable .exact (loadConfigFromEnv .exact (votesWeight (utf8 "3"))) atEpoch.now
          oneVote) := by
  have hround : roundTrips .reference (publishDigest .reference .exact
      (loadConfigFromEnv .exact (votesWeight (utf8 "3"))) atEpoch oneVote) = some true := by
    decide +kernel
  obtain ⟨digest, payload, hhanded, -⟩ := decodes_of_roundTrips hround
  exact ⟨digest, payload, hhanded, digest_accepted_iff _ _ _ _ _ hhanded⟩

end Pipeline
end HabrDigest
