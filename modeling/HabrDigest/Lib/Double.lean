import Mathlib.Data.Rat.Defs
import Mathlib.Data.Int.Notation
import Mathlib.Algebra.Order.Ring.Unbundled.Rat
import Mathlib.Data.Rat.Floor
import Mathlib.Tactic.Positivity

/-!
# Doubles

A `double` is a finite rational, one of the two infinities, or a NaN; the sign of a
zero and the payload of a NaN are not told apart.  How a finite result is rounded is
left open: a `Rounding` says which double a rational becomes --- itself, a
neighbour, or an infinity when the magnitude is out of range --- and never makes a
NaN.  What the arithmetic does with infinities and NaNs does not depend on it, and
that part is what decides whether a number can be written as JSON.
-/

namespace HabrDigest

/-- A `double`. -/
inductive Double where
  | finite (q : ℚ)
  | posInf
  | negInf
  | nan
  deriving DecidableEq, Repr

/-- How a rational becomes a double. -/
structure Rounding where
  round : ℚ → Double
  round_ne_nan : ∀ q, round q ≠ .nan

/-- Scores taken as exact rationals. -/
def Rounding.exact : Rounding := ⟨.finite, fun _ => by simp⟩

namespace Double

/-- `std::isfinite`. -/
def isFinite : Double → Bool
  | finite _ => true
  | posInf | negInf | nan => false

/-- Addition. -/
def add (r : Rounding) : Double → Double → Double
  | finite a, finite b => r.round (a + b)
  | nan, _ | _, nan => nan
  | posInf, negInf | negInf, posInf => nan
  | posInf, _ | _, posInf => posInf
  | negInf, _ | _, negInf => negInf

/-- The infinity with the sign of a nonzero rational, and NaN for zero: what an infinity
times the rational is, the infinity being positive. -/
def infTimes (a : ℚ) : Double := if 0 < a then posInf else if a < 0 then negInf else nan

/-- The other sign. -/
def neg : Double → Double
  | finite a => finite (-a)
  | posInf => negInf
  | negInf => posInf
  | nan => nan

/-- Multiplication. -/
def mul (r : Rounding) : Double → Double → Double
  | finite a, finite b => r.round (a * b)
  | nan, _ | _, nan => nan
  | posInf, posInf | negInf, negInf => posInf
  | posInf, negInf | negInf, posInf => negInf
  | posInf, finite a | finite a, posInf => infTimes a
  | negInf, finite a | finite a, negInf => (infTimes a).neg

/-- `static_cast<int64_t>`: truncation toward zero.  Out of range the language leaves the
result open; here it is what the conversion instruction of x86-64 gives. -/
def toInt64 : Double → Int64
  | finite q =>
    let i := q.num.tdiv q.den
    if -2 ^ 63 ≤ i ∧ i < 2 ^ 63 then .ofInt i else .minValue
  | posInf | negInf | nan => .minValue

/-! ## Truncation -/

/-- A rational without its fraction. -/
def truncate (q : ℚ) : ℤ := q.num.tdiv q.den

theorem toInt64_finite (q : ℚ) : (finite q).toInt64 =
    if -2 ^ 63 ≤ truncate q ∧ truncate q < 2 ^ 63 then .ofInt (truncate q) else .minValue :=
  rfl

theorem truncate_neg (q : ℚ) : truncate (-q) = -truncate q := by
  rw [truncate, Rat.num_neg_eq_neg_num, Rat.den_neg_eq_den, Int.neg_tdiv]
  rfl

/-- The quotient of two natural numbers is truncated as they are divided. -/
theorem truncate_div (n d : ℕ) : truncate ((n : ℚ) / d) = (n / d : ℕ) := by
  have hnum : 0 ≤ ((n : ℚ) / d).num := Rat.num_nonneg.mpr (by positivity)
  rw [truncate, Int.tdiv_eq_ediv_of_nonneg hnum, ← Rat.floor_def', ← Int.cast_natCast n,
    Rat.floor_intCast_div_natCast]
  rfl

end Double
end HabrDigest
