import HabrDigest.Common.Env

/-!
# The configuration of the parser

`services/parser/src/config.cpp`.  The prefetch is the one setting of the pipeline that is checked
against a range and not only against zero, and the check is made on the 64 bits that `std::stoul`
gives, before the cast.  So the parser never consumes without a limit, which is what a prefetch of
zero would ask for, and a number that does not fit 16 bits does not come back as a small one.
-/

namespace HabrDigest
namespace Parser

open Common

/-- `Config`, without what the connection to the broker needs. -/
structure Config where
  baseUrl : Bytes := utf8 "https://habr.com"
  prefetch : UInt16 := 1
  deriving DecidableEq, Repr

/-- `LoadConfigFromEnv`. -/
def loadConfigFromEnv (env : Env) : Config :=
  let initial : Config := {}
  { baseUrl := (env (utf8 "HABR_BASE_URL")).getD initial.baseUrl
    prefetch :=
      match env (utf8 "PARSER_PREFETCH") with
      | none => initial.prefetch
      | some raw =>
        match Strto.stoul raw with
        | some parsed => if 1 ≤ parsed ∧ parsed ≤ 1000 then parsed.toUInt16 else initial.prefetch
        | none => initial.prefetch }

/-- **The prefetch is what the variable says**, if that is a number between 1 and 1000, and 1 if it
is not. -/
theorem toNat_prefetch (env : Env) : (loadConfigFromEnv env).prefetch.toNat =
    (((env (utf8 "PARSER_PREFETCH")).bind Strto.stoul).filter
      fun parsed => 1 ≤ parsed.toNat ∧ parsed.toNat ≤ 1000).elim 1 UInt64.toNat := by
  unfold loadConfigFromEnv
  dsimp only
  cases env (utf8 "PARSER_PREFETCH") with
  | none => rfl
  | some raw =>
    dsimp only [Option.bind_some]
    cases Strto.stoul raw with
    | none => rfl
    | some parsed =>
      have hrange : (1 ≤ parsed ∧ parsed ≤ 1000) ↔ 1 ≤ parsed.toNat ∧ parsed.toNat ≤ 1000 := by
        simp [UInt64.le_iff_toNat_le]
      dsimp only
      rw [Option.filter_some]
      by_cases h : 1 ≤ parsed.toNat ∧ parsed.toNat ≤ 1000
      · rw [if_pos (hrange.mpr h), if_pos (decide_eq_true h)]
        show parsed.toUInt16.toNat = parsed.toNat
        rw [UInt64.toNat_toUInt16]
        omega
      · rw [if_neg (mt hrange.mp h), if_neg (by simpa using h)]
        rfl

/-- The parser consumes with a limit. -/
theorem prefetch_pos (env : Env) :
    0 < (loadConfigFromEnv env).prefetch.toNat ∧
      (loadConfigFromEnv env).prefetch.toNat ≤ 1000 := by
  rw [toNat_prefetch]
  cases h : ((env (utf8 "PARSER_PREFETCH")).bind Strto.stoul).filter
      fun parsed => 1 ≤ parsed.toNat ∧ parsed.toNat ≤ 1000 with
  | none => decide
  | some parsed =>
    have hrange := of_decide_eq_true (Option.filter_eq_some_iff.mp h).2
    exact ⟨hrange.1, hrange.2⟩

end Parser
end HabrDigest
