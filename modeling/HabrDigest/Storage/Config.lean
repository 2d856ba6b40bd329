import HabrDigest.Common.Env
import HabrDigest.Storage.ArticleStore

/-!
# The configuration of the storage service

`services/storage/src/config.cpp`.  Intervals, periods and limits of zero are replaced by
their defaults; a weight is whatever `std::stod` reads.
-/

namespace HabrDigest
namespace Storage

open Common

/-- `Config`, without what the connection to the broker needs. -/
structure Config where
  databasePath : Bytes := utf8 "/data/habr.db"
  digestIntervalSeconds : UInt32 := 120
  digestPeriodHours : UInt32 := 24
  digestTopN : UInt32 := 10
  weights : ScoreWeights
  deriving DecidableEq, Repr

/-- `ScoreWeights`, as it is constructed. -/
def ScoreWeights.initial (r : Rounding) : ScoreWeights :=
  ⟨r.round 10, r.round 5, r.round 2, r.round (5 / 1000)⟩

/-- `LoadConfigFromEnv`. -/
def loadConfigFromEnv (r : Rounding) (env : Env) : Config :=
  let initial : Config := { weights := .initial r }
  let config : Config :=
    { databasePath := readStringEnv env (utf8 "DATABASE_PATH") initial.databasePath
      digestIntervalSeconds :=
        readUint32Env env (utf8 "DIGEST_INTERVAL_SECONDS") initial.digestIntervalSeconds
      digestPeriodHours := readUint32Env env (utf8 "DIGEST_PERIOD_HOURS") initial.digestPeriodHours
      digestTopN := readUint32Env env (utf8 "DIGEST_TOP_N") initial.digestTopN
      weights :=
        { votes := readDoubleEnv r env (utf8 "DIGEST_WEIGHT_VOTES") initial.weights.votes
          bookmarks :=
            readDoubleEnv r env (utf8 "DIGEST_WEIGHT_BOOKMARKS") initial.weights.bookmarks
          comments := readDoubleEnv r env (utf8 "DIGEST_WEIGHT_COMMENTS") initial.weights.comments
          views := readDoubleEnv r env (utf8 "DIGEST_WEIGHT_VIEWS") initial.weights.views } }
  { config with
    digestIntervalSeconds := nonzeroOr 120 config.digestIntervalSeconds
    digestTopN := nonzeroOr 10 config.digestTopN
    digestPeriodHours := nonzeroOr 24 config.digestPeriodHours }

/-- The interval, the limit and the period of a configuration are positive. -/
theorem loadConfigFromEnv_pos (r : Rounding) (env : Env) :
    0 < (loadConfigFromEnv r env).digestIntervalSeconds.toNat ∧
    0 < (loadConfigFromEnv r env).digestTopN.toNat ∧
    0 < (loadConfigFromEnv r env).digestPeriodHours.toNat :=
  ⟨nonzeroOr_pos (by decide) _, nonzeroOr_pos (by decide) _, nonzeroOr_pos (by decide) _⟩

end Storage
end HabrDigest
