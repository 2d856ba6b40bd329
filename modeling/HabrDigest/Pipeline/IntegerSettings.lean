import HabrDigest.Fetcher.Fetcher
import HabrDigest.Messaging.AmqpConfig
import HabrDigest.Storage.Config
import HabrDigest.Web.WebService

/-!
# The integer settings

Ten settings of the services are integers that are read from the environment, all by copies of
one reader.  It calls `std::stoul` and converts the result to 32 bits, and only then do the
services look at it: the broker port is converted to 16 bits, some settings replace a zero by
their default, and `HTTP_PORT` also what is above 65535.

So a string goes through three things that change an integer without a word: `stoul` negates
a negative number modulo `2 ^ 64`, ignores what follows the digits, and the conversion drops
the high bits.  `ReadExactly` is what a setting should be: the integer that the whole string is,
or the default.  `readExactly_iff` says for which strings it is.

The settings differ in four things only (`IntegerSetting.name`, `fallback`, `width` and
`replaces`), and `configured_eq` is where each of the four loaders is compared with them.
-/

namespace HabrDigest
namespace Pipeline

open Common

/-- The integer settings. -/
inductive IntegerSetting where
  | rabbitmqPort
  | rabbitmqMaxReconnectAttempts
  | rabbitmqReconnectDelaySeconds
  | fetchIntervalSeconds
  | fetchTimeoutSeconds
  | digestIntervalSeconds
  | digestPeriodHours
  | digestTopN
  | httpPort
  | digestHistorySize
  deriving DecidableEq, Repr

namespace IntegerSetting

/-- The variable it is read from. -/
def name : IntegerSetting → Bytes
  | rabbitmqPort => utf8 "RABBITMQ_PORT"
  | rabbitmqMaxReconnectAttempts => utf8 "RABBITMQ_MAX_RECONNECT_ATTEMPTS"
  | rabbitmqReconnectDelaySeconds => utf8 "RABBITMQ_RECONNECT_DELAY_SECONDS"
  | fetchIntervalSeconds => utf8 "FETCH_INTERVAL_SECONDS"
  | fetchTimeoutSeconds => utf8 "FETCH_TIMEOUT_SECONDS"
  | digestIntervalSeconds => utf8 "DIGEST_INTERVAL_SECONDS"
  | digestPeriodHours => utf8 "DIGEST_PERIOD_HOURS"
  | digestTopN => utf8 "DIGEST_TOP_N"
  | httpPort => utf8 "HTTP_PORT"
  | digestHistorySize => utf8 "DIGEST_HISTORY_SIZE"

/-- What the configuration holds in the end. -/
def configured (s : IntegerSetting) (r : Rounding) (env : Env) : ℕ :=
  match s with
  | rabbitmqPort => (Messaging.loadAmqpConfigFromEnv env).port.toNat
  | rabbitmqMaxReconnectAttempts =>
    (Messaging.loadAmqpConfigFromEnv env).policy.maxReconnectAttempts.toNat
  | rabbitmqReconnectDelaySeconds =>
    (Messaging.loadAmqpConfigFromEnv env).policy.reconnectDelaySeconds.toNat
  | fetchIntervalSeconds => (Fetcher.loadConfigFromEnv env).intervalSeconds.toNat
  | fetchTimeoutSeconds => (Fetcher.loadConfigFromEnv env).fetchTimeoutSeconds.toNat
  | digestIntervalSeconds => (Storage.loadConfigFromEnv r env).digestIntervalSeconds.toNat
  | digestPeriodHours => (Storage.loadConfigFromEnv r env).digestPeriodHours.toNat
  | digestTopN => (Storage.loadConfigFromEnv r env).digestTopN.toNat
  | httpPort => (Web.loadConfigFromEnv env).httpPort.toNat
  | digestHistorySize => (Web.loadConfigFromEnv env).historySize.toNat

/-- The default. -/
def fallback : IntegerSetting → ℕ
  | rabbitmqPort => 5672
  | rabbitmqMaxReconnectAttempts => 10
  | rabbitmqReconnectDelaySeconds => 3
  | fetchIntervalSeconds => 300
  | fetchTimeoutSeconds => 10
  | digestIntervalSeconds => 120
  | digestPeriodHours => 24
  | digestTopN => 10
  | httpPort => 8080
  | digestHistorySize => 20

/-- The bits that the conversions leave. -/
def width : IntegerSetting → ℕ
  | rabbitmqPort => 16
  | _ => 32

/-- The loader replaces the value by the default. -/
def replaces : IntegerSetting → ℕ → Bool
  | rabbitmqPort, _ | rabbitmqMaxReconnectAttempts, _ | rabbitmqReconnectDelaySeconds, _ => false
  | httpPort, v => v = 0 || 65535 < v
  | _, v => v = 0

/-- What a setting makes of the 32 bits that its reader gives it. -/
def settle (s : IntegerSetting) (v : ℕ) : ℕ :=
  if s.replaces (v % 2 ^ s.width) then s.fallback else v % 2 ^ s.width

/-- A default is neither cut nor replaced. -/
theorem settle_fallback (s : IntegerSetting) : s.settle s.fallback = s.fallback := by
  cases s <;> rfl

theorem fallback_lt (s : IntegerSetting) : s.fallback < 2 ^ 32 := by
  cases s <;> decide

theorem eq_zero_iff (x : UInt32) : x = 0 ↔ x.toNat % 2 ^ 32 = 0 := by
  have hx := x.toNat_lt
  rw [← UInt32.toNat_inj, UInt32.toNat_zero]
  omega

/-- A setting that is replaced where it is zero. -/
theorem toNat_nonzeroOr (fallback x : UInt32) :
    (nonzeroOr fallback x).toNat =
      if decide (x.toNat % 2 ^ 32 = 0) = true then fallback.toNat else x.toNat % 2 ^ 32 := by
  unfold nonzeroOr
  simp only [eq_zero_iff, decide_eq_true_eq]
  rw [apply_ite UInt32.toNat, Nat.mod_eq_of_lt x.toNat_lt]

/-- The history size is a 64-bit number in the end. -/
theorem toNat_historySize (x : UInt32) :
    (if x = 0 then (20 : UInt64) else x.toUInt64).toNat =
      if decide (x.toNat % 2 ^ 32 = 0) = true then 20 else x.toNat % 2 ^ 32 := by
  simp only [eq_zero_iff, decide_eq_true_eq]
  rw [apply_ite UInt64.toNat, UInt32.toNat_toUInt64, Nat.mod_eq_of_lt x.toNat_lt]
  rfl

/-- The port of the web service is converted to 16 bits only where it has no more. -/
theorem toNat_httpPort (x : UInt32) :
    (if x = 0 ∨ 65535 < x then (8080 : UInt16) else x.toUInt16).toNat =
      if (decide (x.toNat % 2 ^ 32 = 0) || decide (65535 < x.toNat % 2 ^ 32)) = true then 8080
      else x.toNat % 2 ^ 32 := by
  have hx := x.toNat_lt
  have hlt : 65535 < x ↔ 65535 < x.toNat % 2 ^ 32 := by
    rw [UInt32.lt_iff_toNat_lt, Nat.mod_eq_of_lt hx]
    rfl
  simp only [eq_zero_iff, hlt, Bool.or_eq_true, decide_eq_true_eq]
  rw [apply_ite UInt16.toNat, UInt32.toNat_toUInt16]
  split
  · rfl
  · omega

/-- **The loaders.**  Each setting is what `settle` makes of what the reader returns. -/
theorem configured_settle (s : IntegerSetting) (r : Rounding) (env : Env) :
    s.configured r env =
      s.settle (readUint32Env env s.name (UInt32.ofNat s.fallback)).toNat := by
  have hcut : ∀ x : UInt32, x.toNat = x.toNat % 2 ^ 32 := fun x =>
    (Nat.mod_eq_of_lt x.toNat_lt).symm
  cases s with
  | rabbitmqPort => exact UInt32.toNat_toUInt16 _
  | rabbitmqMaxReconnectAttempts => exact hcut _
  | rabbitmqReconnectDelaySeconds => exact hcut _
  | fetchIntervalSeconds => exact toNat_nonzeroOr 300 _
  | fetchTimeoutSeconds => exact toNat_nonzeroOr 10 _
  | digestIntervalSeconds => exact toNat_nonzeroOr 120 _
  | digestPeriodHours => exact toNat_nonzeroOr 24 _
  | digestTopN => exact toNat_nonzeroOr 10 _
  | httpPort => exact toNat_httpPort _
  | digestHistorySize => exact toNat_historySize _

/-- A variable that is not set. -/
theorem configured_unset {s : IntegerSetting} {env : Env} (h : env s.name = none)
    (r : Rounding) : s.configured r env = s.fallback := by
  rw [configured_settle, readUint32Env, h, UInt32.toNat_ofNat', Nat.mod_eq_of_lt s.fallback_lt,
    settle_fallback]

/-- What the loader converts the integer at the front of a string to. -/
def narrowed (s : IntegerSetting) (raw : Bytes) : ℕ :=
  ((Strto.integer raw).value % 2 ^ s.width).toNat

/-- **The value of a setting**: the integer at the front of the string, narrowed, unless there is
none, `stoul` finds it too long, or the loader replaces it. -/
theorem configured_eq {s : IntegerSetting} {env : Env} {raw : Bytes} (h : env s.name = some raw)
    (r : Rounding) :
    s.configured r env =
      if (Strto.integer raw).digits = [] ∨ 2 ^ 64 ≤ Numeral.value (Strto.integer raw).digits ∨
        s.replaces (s.narrowed raw) = true then s.fallback else s.narrowed raw := by
  have hread := Strto.toUInt32_stoul raw
  rw [configured_settle, readUint32Env, h]
  dsimp only
  by_cases hno : (Strto.integer raw).digits = [] ∨
      2 ^ 64 ≤ Numeral.value (Strto.integer raw).digits
  · rw [if_pos hno, Option.map_eq_none_iff] at hread
    rw [hread, if_pos (or_assoc.mp (Or.inl hno)), UInt32.toNat_ofNat',
      Nat.mod_eq_of_lt s.fallback_lt, settle_fallback]
  · rw [if_neg hno] at hread
    obtain ⟨n, hn, hvalue⟩ := Option.map_eq_some_iff.mp hread
    have hnarrow : n.toUInt32.toNat % 2 ^ s.width = s.narrowed raw := by
      unfold narrowed
      cases s <;> dsimp only [width] <;> omega
    rw [hn]
    dsimp only
    rw [settle, hnarrow]
    exact if_congr (by rw [← or_assoc, or_iff_right hno]) rfl rfl

/-! ## Which strings are read exactly -/

/-- The whole string is the integer `k` in decimal, behind white space and a sign if there are
any. -/
def Denotes (raw : Bytes) (k : ℤ) : Prop :=
  (Strto.integer raw).digits ≠ [] ∧ (Strto.integer raw).rest = [] ∧
    (Strto.integer raw).value = k

instance (raw : Bytes) (k : ℤ) : Decidable (Denotes raw k) :=
  inferInstanceAs (Decidable (_ ∧ _ ∧ _))

/-- The setting is the integer that the string denotes, and fits its type, or the default. -/
def ReadExactly (s : IntegerSetting) (r : Rounding) (env : Env) : Prop :=
  s.configured r env = s.fallback ∨
    ∃ raw ∈ env s.name, Denotes raw (s.configured r env) ∧ s.configured r env < 2 ^ s.width

instance (s : IntegerSetting) (r : Rounding) (env : Env) : Decidable (s.ReadExactly r env) :=
  inferInstanceAs (Decidable (_ ∨ ∃ _ ∈ _, _))

/-- An integer is converted to the default, or to a value that the loader replaces by it. -/
def Defaults (s : IntegerSetting) (z : ℤ) : Prop :=
  ∃ v < 2 ^ s.width, (v = s.fallback ∨ s.replaces v = true) ∧ z ≡ v [ZMOD 2 ^ s.width]

/-- The strings that do no harm: `stoul` refuses them, or they are an integer that fits, or what
they begin with is converted to the default. -/
def Sound (s : IntegerSetting) (raw : Bytes) : Prop :=
  (Strto.integer raw).digits = [] ∨ 2 ^ 64 ≤ Numeral.value (Strto.integer raw).digits ∨
    ((Strto.integer raw).rest = [] ∧ 0 ≤ (Strto.integer raw).value ∧
      (Strto.integer raw).value < 2 ^ s.width) ∨
    s.Defaults (Strto.integer raw).value

theorem narrowed_cast (s : IntegerSetting) (raw : Bytes) :
    (s.narrowed raw : ℤ) = (Strto.integer raw).value % 2 ^ s.width :=
  Int.toNat_of_nonneg (Int.emod_nonneg _ (by positivity))

theorem narrowed_lt (s : IntegerSetting) (raw : Bytes) : s.narrowed raw < 2 ^ s.width := by
  have hlt : (s.narrowed raw : ℤ) < 2 ^ s.width := by
    rw [narrowed_cast]
    exact Int.emod_lt_of_pos _ (by positivity)
  exact_mod_cast hlt

theorem defaults_iff (s : IntegerSetting) (raw : Bytes) :
    s.Defaults (Strto.integer raw).value ↔
      s.narrowed raw = s.fallback ∨ s.replaces (s.narrowed raw) = true := by
  constructor
  · rintro ⟨v, hv, hdefault, hmod⟩
    have hnarrow : s.narrowed raw = v := by
      have hcast : (s.narrowed raw : ℤ) = v := by
        rw [narrowed_cast, hmod.eq]
        exact Int.emod_eq_of_lt (Int.natCast_nonneg v) (by exact_mod_cast hv)
      exact_mod_cast hcast
    rwa [hnarrow]
  · intro hdefault
    refine ⟨s.narrowed raw, s.narrowed_lt raw, hdefault, ?_⟩
    rw [narrowed_cast]
    exact (Int.mod_modEq _ _).symm

/-- An integer is left as it is where it fits. -/
theorem value_eq_narrowed_iff (s : IntegerSetting) (raw : Bytes) :
    (Strto.integer raw).value = s.narrowed raw ↔
      0 ≤ (Strto.integer raw).value ∧ (Strto.integer raw).value < 2 ^ s.width := by
  rw [narrowed_cast, eq_comm, Int.emod_eq_iff (by positivity)]
  simp

/-- **A setting is read exactly, or is the default, just when the string is sound.** -/
theorem readExactly_iff (s : IntegerSetting) (r : Rounding) (env : Env) :
    s.ReadExactly r env ↔ ∀ raw ∈ env s.name, s.Sound raw := by
  unfold ReadExactly
  cases henv : env s.name with
  | none => simp [configured_unset henv]
  | some raw =>
    simp only [Option.mem_some_iff, exists_eq_left', forall_eq']
    rw [configured_eq henv, Sound, defaults_iff]
    by_cases hno : (Strto.integer raw).digits = [] ∨
        2 ^ 64 ≤ Numeral.value (Strto.integer raw).digits ∨ s.replaces (s.narrowed raw) = true
    · rw [if_pos hno]
      exact iff_of_true (Or.inl rfl) (by tauto)
    · have hlt := s.narrowed_lt raw
      rw [if_neg hno, Denotes, value_eq_narrowed_iff]
      tauto

/-- An environment in which one setting is set. -/
def only (s : IntegerSetting) (raw : Bytes) : Env := fun name =>
  if name = s.name then some raw else none

example : rabbitmqPort.configured .exact (rabbitmqPort.only (utf8 " +5673")) = 5673 := by
  decide +kernel

/-- Port 70000 is port 4464, a retry budget of -1 is one of `2 ^ 32 - 1`, and an interval of
"1 hour" is a second. -/
theorem not_readExactly_narrowed :
    ¬ rabbitmqPort.ReadExactly .exact (rabbitmqPort.only (utf8 "70000")) ∧
    ¬ rabbitmqMaxReconnectAttempts.ReadExactly .exact
      (rabbitmqMaxReconnectAttempts.only (utf8 "-1")) ∧
    ¬ fetchIntervalSeconds.ReadExactly .exact (fetchIntervalSeconds.only (utf8 "1 hour")) := by
  decide +kernel

end IntegerSetting

end Pipeline
end HabrDigest
