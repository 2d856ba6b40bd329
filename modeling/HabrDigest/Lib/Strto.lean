import HabrDigest.Lib.Double
import HabrDigest.Lib.Numeral
import Mathlib.Algebra.Order.Field.Rat

/-!
# `std::stoul` and `std::stod`

Both skip white space, take a sign, read the longest prefix that is a number and ignore
the rest; both throw when there is no number or when it is out of range.  What throws is
none here.

`stoul` is for a 64-bit `unsigned long`: a negative number is negated modulo `2 ^ 64`.

`stod` reads decimal and hexadecimal numbers with an exponent, and the words for the
infinities and for NaN.  The prefix denotes an exact rational, which is then rounded; it
is out of range when it rounds to an infinity, or when it is smaller than every normal
double and not a double itself.
-/

namespace HabrDigest
namespace Strto

/-- `isspace` of the C locale. -/
def isSpace (b : UInt8) : Bool := b = 0x20 || (0x09 ≤ b && b ≤ 0x0D)

/-- White space is ASCII. -/
theorem lt_of_isSpace {b : UInt8} (h : isSpace b = true) : b < 0x80 := by
  unfold isSpace at h
  simp only [Bool.or_eq_true, Bool.and_eq_true, decide_eq_true_eq] at h
  rcases h with rfl | ⟨-, h⟩
  · decide
  · exact lt_of_le_of_lt h (by decide)

/-- White space skipped. -/
def skipSpace (s : Bytes) : Bytes := s.dropWhile isSpace

/-- A sign, if there is one: whether it is a minus, and what follows. -/
def sign : Bytes → Bool × Bytes
  | [] => (false, [])
  | b :: s => if b = 0x2D then (true, s) else if b = 0x2B then (false, s) else (false, b :: s)

/-- `std::stoul(s)`. -/
def stoul (s : Bytes) : Option UInt64 :=
  let (negative, s) := sign (skipSpace s)
  let ds := s.takeWhile Numeral.isDigit
  if ds = [] then none
  else if 2 ^ 64 ≤ Numeral.value ds then none
  else
    let n := UInt64.ofNat (Numeral.value ds)
    some (if negative then -n else n)

/-- What the sign and the digits at the front of a text are, and what follows them. -/
structure Integer where
  negative : Bool
  digits : Bytes
  rest : Bytes
  deriving DecidableEq, Repr

/-- The integer at the front of a text, behind white space; it is none if it has no digits. -/
def integer (s : Bytes) : Integer :=
  let (negative, s) := sign (skipSpace s)
  ⟨negative, s.takeWhile Numeral.isDigit, s.dropWhile Numeral.isDigit⟩

/-- The number. -/
def Integer.value (i : Integer) : ℤ :=
  if i.negative then -(Numeral.value i.digits : ℤ) else Numeral.value i.digits

/-- **What is left of `stoul` in 32 bits**: the integer at the front modulo `2 ^ 32`, where there
is one and `stoul` does not find it too long. -/
theorem toUInt32_stoul (s : Bytes) :
    (stoul s).map (fun n => (n.toUInt32.toNat : ℤ)) =
      if (integer s).digits = [] ∨ 2 ^ 64 ≤ Numeral.value (integer s).digits then none
      else some ((integer s).value % 2 ^ 32) := by
  have hneg : ∀ n : ℕ, ((-UInt32.ofNat n).toNat : ℤ) = -(n : ℤ) % 2 ^ 32 := by
    intro n
    have hsize : UInt32.size = 2 ^ 32 := rfl
    rw [UInt32.toNat_neg, UInt32.toNat_ofNat', hsize]
    omega
  have hpos : ∀ n : ℕ, ((UInt32.ofNat n).toNat : ℤ) = (n : ℤ) % 2 ^ 32 := by
    intro n
    rw [UInt32.toNat_ofNat']
    omega
  unfold stoul integer Integer.value
  dsimp only
  by_cases hdigits : ((sign (skipSpace s)).2.takeWhile Numeral.isDigit) = []
  · rw [if_pos hdigits, if_pos (Or.inl hdigits), Option.map_none]
  rw [if_neg hdigits]
  by_cases hlong : 2 ^ 64 ≤ Numeral.value ((sign (skipSpace s)).2.takeWhile Numeral.isDigit)
  · rw [if_pos hlong, if_pos (Or.inr hlong), Option.map_none]
  rw [if_neg hlong, if_neg (not_or.mpr ⟨hdigits, hlong⟩), Option.map_some]
  by_cases hsign : (sign (skipSpace s)).1 = true
  · rw [if_pos hsign, if_pos hsign, UInt64.toUInt32_neg, UInt64.toUInt32_ofNat', hneg]
  · rw [if_neg hsign, if_neg hsign, UInt64.toUInt32_ofNat', hpos]

/-! ## Floating point -/

/-- A letter in lower case. -/
def toLower (b : UInt8) : UInt8 := if 0x41 ≤ b ∧ b ≤ 0x5A then b + 0x20 else b

/-- The text begins with a word, in any case. -/
def startsWith (word s : Bytes) : Bool := word.isPrefixOf (s.map toLower)

/-- A hexadecimal digit, in either case. -/
def isHexDigit (b : UInt8) : Bool :=
  Numeral.isDigit b || (0x61 ≤ toLower b && toLower b ≤ 0x66)

/-- The value of a hexadecimal digit. -/
def hexDigitValue (b : UInt8) : ℕ :=
  if Numeral.isDigit b then b.toNat - 0x30 else (toLower b).toNat - 0x57

/-- The value of a run of digits in a base. -/
def digitsValue (base : ℕ) (ds : Bytes) : ℕ :=
  ds.foldl (fun n b => base * n + hexDigitValue b) 0

/-- An exponent: the letter, a sign, and at least one digit; none of it is read if a part is
missing. -/
def exponent (letter : UInt8) : Bytes → ℤ
  | [] => 0
  | b :: s =>
    if toLower b = letter then
      let (negative, s) := sign s
      let ds := s.takeWhile Numeral.isDigit
      if ds = [] then 0 else if negative then -Numeral.value ds else Numeral.value ds
    else 0

/-- The mantissa: digits with at most one point among them.  It gives the whole digits, the
digits behind the point, and what follows. -/
def mantissa (isDigit : UInt8 → Bool) (s : Bytes) : Bytes × Bytes × Bytes :=
  let whole := s.takeWhile isDigit
  match s.dropWhile isDigit with
  | [] => (whole, [], [])
  | b :: t =>
    if b = 0x2E then (whole, t.takeWhile isDigit, t.dropWhile isDigit)
    else (whole, [], b :: t)

/-- The longest prefix that is a number without a sign in a base, as an exact rational: the
base of the digits and of the exponent, its letter, and what a digit is. -/
def magnitude (base exponentBase : ℕ) (letter : UInt8) (isDigit : UInt8 → Bool) (s : Bytes) :
    Option ℚ :=
  let (whole, part, rest) := mantissa isDigit s
  if whole = [] ∧ part = [] then none
  else some ((digitsValue base (whole ++ part) : ℚ) / (base : ℚ) ^ part.length *
    (exponentBase : ℚ) ^ exponent letter rest)

/-- The rational is out of range: it rounds to an infinity, or it lies below the normal
doubles and is none of the subnormal ones.  Whether a library reports the second is its own
choice; glibc does, except where the number is so close to `2 ^ -1022` that it rounds up
to it. -/
def outOfRange (q : ℚ) : Bool :=
  2 ^ 1024 - 2 ^ 970 ≤ |q| || (q ≠ 0 && |q| < 1 / 2 ^ 1022 && (q * 2 ^ 1074).den ≠ 1)

/-- A finite number read by `stod`. -/
def finite (r : Rounding) (negative : Bool) (q : ℚ) : Option Double :=
  if outOfRange q then none else some (r.round (if negative then -q else q))

/-- `std::stod(s)`. -/
def stod (r : Rounding) (s : Bytes) : Option Double :=
  let (negative, s) := sign (skipSpace s)
  if startsWith (utf8 "inf") s then some (if negative then .negInf else .posInf)
  else if startsWith (utf8 "nan") s then some .nan
  else
    let hex :=
      if startsWith (utf8 "0x") s then magnitude 16 2 0x70 isHexDigit (s.drop 2) else none
    match hex with
    | some q => finite r negative q
    | none => (magnitude 10 10 0x65 Numeral.isDigit s).bind (finite r negative)

/-! ## Decimal numbers -/

/-- The text has nothing in it but digits, points and minus signs. -/
def Plain (s : Bytes) : Prop := ∀ b ∈ s, Numeral.isDigit b = true ∨ b = 0x2D ∨ b = 0x2E

instance (s : Bytes) : Decidable (Plain s) := inferInstanceAs (Decidable (∀ b ∈ s, _))

theorem Plain.of_suffix {s t : Bytes} (h : Plain t) (hs : s <:+ t) : Plain s := fun c hc =>
  h c (hs.subset hc)

/-- What the sign and the mantissa of a decimal number are made of. -/
structure Decimal where
  negative : Bool
  /-- The digits before the point. -/
  whole : Bytes
  /-- The digits behind it. -/
  part : Bytes
  deriving DecidableEq, Repr

/-- The decimal number at the front of a plain text; it is none if it has no digits. -/
def decimal (s : Bytes) : Decimal :=
  let (negative, s) := sign s
  let (whole, part, _) := mantissa Numeral.isDigit s
  ⟨negative, whole, part⟩

namespace Decimal

/-- There is no digit. -/
def Empty (d : Decimal) : Prop := d.whole = [] ∧ d.part = []

instance (d : Decimal) : Decidable d.Empty := inferInstanceAs (Decidable (_ ∧ _))

/-- The number without its sign. -/
def magnitude (d : Decimal) : ℚ := (Numeral.value (d.whole ++ d.part) : ℚ) / 10 ^ d.part.length

/-- The number. -/
def number (d : Decimal) : ℚ := if d.negative then -d.magnitude else d.magnitude

end Decimal

/-- The digits of a number that is read are digits. -/
theorem isDigit_of_mem_mantissa {s : Bytes} {b : UInt8}
    (h : b ∈ (mantissa Numeral.isDigit s).1 ∨ b ∈ (mantissa Numeral.isDigit s).2.1) :
    Numeral.isDigit b = true := by
  unfold mantissa at h
  dsimp only at h
  cases hs : s.dropWhile Numeral.isDigit with
  | nil =>
    rw [hs] at h
    exact List.mem_takeWhile_imp (h.resolve_right (by simp))
  | cons c t =>
    rw [hs] at h
    dsimp only at h
    split at h
    · exact h.elim List.mem_takeWhile_imp List.mem_takeWhile_imp
    · exact List.mem_takeWhile_imp (h.resolve_right (by simp))

theorem isDigit_of_mem_whole {s : Bytes} {b : UInt8} (h : b ∈ (decimal s).whole) :
    Numeral.isDigit b = true :=
  isDigit_of_mem_mantissa (Or.inl h)

theorem isDigit_of_mem_part {s : Bytes} {b : UInt8} (h : b ∈ (decimal s).part) :
    Numeral.isDigit b = true :=
  isDigit_of_mem_mantissa (Or.inr h)

/-- The mantissa of digits, a point, and digits. -/
theorem mantissa_point {ds es : Bytes} (hds : ∀ b ∈ ds, Numeral.isDigit b = true)
    (hes : ∀ b ∈ es, Numeral.isDigit b = true) :
    mantissa Numeral.isDigit (ds ++ 0x2E :: es) = (ds, es, []) := by
  have hpoint : Numeral.isDigit 0x2E = false := by decide
  have htake : (ds ++ 0x2E :: es).takeWhile Numeral.isDigit = ds := by
    rw [List.takeWhile_append_of_pos hds, List.takeWhile_cons, hpoint]
    exact List.append_nil ds
  have hdrop : (ds ++ 0x2E :: es).dropWhile Numeral.isDigit = 0x2E :: es := by
    rw [List.dropWhile_append_of_pos hds, List.dropWhile_cons, hpoint]
    rfl
  unfold mantissa
  rw [htake, hdrop]
  dsimp only
  rw [if_pos rfl, List.takeWhile_eq_self_iff.mpr hes, List.dropWhile_eq_nil_iff.mpr hes]

/-- The mantissa of digits alone. -/
theorem mantissa_digits {ds : Bytes} (hds : ∀ b ∈ ds, Numeral.isDigit b = true) :
    mantissa Numeral.isDigit ds = (ds, [], []) := by
  unfold mantissa
  rw [List.takeWhile_eq_self_iff.mpr hds, List.dropWhile_eq_nil_iff.mpr hds]

/-- A text that begins with a digit has no sign. -/
theorem sign_digit {d : UInt8} (hd : Numeral.isDigit d = true) (s : Bytes) :
    sign (d :: s) = (false, d :: s) := by
  have hminus : d ≠ 0x2D := by
    rintro rfl
    exact absurd hd (by decide)
  have hplus : d ≠ 0x2B := by
    rintro rfl
    exact absurd hd (by decide)
  rw [sign, if_neg hminus, if_neg hplus]

/-- Digits read as hexadecimal digits have their decimal value. -/
theorem digitsValue_ten {ds : Bytes} (h : ∀ b ∈ ds, Numeral.isDigit b = true) :
    digitsValue 10 ds = Numeral.value ds := by
  refine List.foldl_ext _ _ _ fun n b hb => ?_
  rw [hexDigitValue, if_pos (h b hb)]

/-- A plain text has no letters. -/
theorem toLower_plain {b : UInt8} (h : Numeral.isDigit b = true ∨ b = 0x2D ∨ b = 0x2E) :
    toLower b = b := by
  have hb : b.toNat ≤ 0x39 := by
    rcases h with h | rfl | rfl
    · exact (Numeral.isDigit_iff.mp h).2
    · decide
    · decide
  refine if_neg fun hletter => ?_
  have hle := UInt8.le_iff_toNat_le.mp hletter.1
  exact absurd (hle.trans hb) (by decide)

/-- A plain text has no white space. -/
theorem isSpace_plain {b : UInt8} (h : Numeral.isDigit b = true ∨ b = 0x2D ∨ b = 0x2E) :
    isSpace b = false := by
  have hb : 0x2D ≤ b.toNat := by
    rcases h with h | rfl | rfl
    · exact (show 0x2D ≤ 0x30 by decide).trans (Numeral.isDigit_iff.mp h).1
    · decide
    · decide
  rw [Bool.eq_false_iff]
  intro hspace
  unfold isSpace at hspace
  simp only [Bool.or_eq_true, Bool.and_eq_true, decide_eq_true_eq] at hspace
  rcases hspace with rfl | ⟨-, hle⟩
  · exact absurd hb (by decide)
  · exact absurd (hb.trans (UInt8.le_iff_toNat_le.mp hle)) (by decide)

/-- A word that a plain text begins with is plain. -/
theorem Plain.of_startsWith {word s : Bytes} (h : Plain s) (hw : startsWith word s = true) :
    Plain word := by
  have hmap : s.map toLower = s :=
    (List.map_congr_left fun b hb => toLower_plain (h b hb)).trans (List.map_id s)
  rw [startsWith, hmap] at hw
  exact fun b hb => h b ((List.isPrefixOf_iff_prefix.mp hw).subset hb)

/-- What follows the number in a plain text is no exponent. -/
theorem exponent_plain {s : Bytes} (h : Plain s) : exponent 0x65 s = 0 := by
  cases s with
  | nil => rfl
  | cons b s =>
    have hb := h b (List.mem_cons_self ..)
    have hletter : toLower b ≠ 0x65 := by
      rw [toLower_plain hb]
      rintro rfl
      exact absurd hb (by decide)
    rw [exponent, if_neg hletter]

/-- What is left of a text by the sign and by the mantissa is an end of it. -/
theorem sign_suffix (s : Bytes) : (sign s).2 <:+ s := by
  cases s with
  | nil => exact List.suffix_rfl
  | cons b s =>
    by_cases hminus : b = 0x2D
    · rw [sign, if_pos hminus]
      exact List.suffix_cons b s
    · by_cases hplus : b = 0x2B
      · rw [sign, if_neg hminus, if_pos hplus]
        exact List.suffix_cons b s
      · rw [sign, if_neg hminus, if_neg hplus]

theorem mantissa_suffix (isDigit : UInt8 → Bool) (s : Bytes) :
    (mantissa isDigit s).2.2 <:+ s := by
  have hdrop := List.dropWhile_suffix (l := s) isDigit
  unfold mantissa
  dsimp only
  split
  · exact List.nil_suffix
  · rename_i b t hs
    rw [hs] at hdrop
    split
    · exact ((List.dropWhile_suffix _).trans (List.suffix_cons b t)).trans hdrop
    · exact hdrop

/-- The number at the front of a plain text, without its sign. -/
theorem magnitude_plain {s : Bytes} (h : Plain s) :
    magnitude 10 10 0x65 Numeral.isDigit s =
      if (mantissa Numeral.isDigit s).1 = [] ∧ (mantissa Numeral.isDigit s).2.1 = [] then none
      else some ((Numeral.value ((mantissa Numeral.isDigit s).1 ++
        (mantissa Numeral.isDigit s).2.1) : ℚ) /
          10 ^ (mantissa Numeral.isDigit s).2.1.length) := by
  have hdigits : ∀ b ∈ (mantissa Numeral.isDigit s).1 ++ (mantissa Numeral.isDigit s).2.1,
      Numeral.isDigit b = true := fun b hb =>
    isDigit_of_mem_mantissa (List.mem_append.mp hb)
  have hexponent := exponent_plain (h.of_suffix (mantissa_suffix Numeral.isDigit s))
  unfold magnitude
  dsimp only
  rw [hexponent, digitsValue_ten hdigits, zpow_zero, mul_one, Nat.cast_ofNat]

/-- **`stod` of a plain text** is the decimal number at its front. -/
theorem stod_plain (r : Rounding) {s : Bytes} (h : Plain s) :
    stod r s = if (decimal s).Empty then none
      else finite r (decimal s).negative (decimal s).magnitude := by
  have hspace : skipSpace s = s := by
    cases s with
    | nil => rfl
    | cons b s =>
      refine List.dropWhile_cons_of_neg fun hb => ?_
      exact absurd hb (by simp [isSpace_plain (h b (List.mem_cons_self ..))])
  have ht : Plain (sign s).2 := h.of_suffix (sign_suffix s)
  have hword : ∀ word : Bytes, ¬ Plain word → startsWith word (sign s).2 = false := by
    intro word hword
    rw [Bool.eq_false_iff]
    exact fun hw => hword (ht.of_startsWith hw)
  unfold stod
  rw [hspace]
  dsimp only
  rw [hword (utf8 "inf") (by decide), hword (utf8 "nan") (by decide),
    hword (utf8 "0x") (by decide), magnitude_plain ht]
  simp only [Bool.false_eq_true, if_false]
  by_cases hempty : (decimal s).Empty
  · rw [if_pos hempty]
    exact congrArg (Option.bind · _) (if_pos hempty)
  · rw [if_neg hempty]
    exact congrArg (Option.bind · _) (if_neg hempty)

example : stoul (utf8 " 42s") = some 42 := by decide
example : stod .exact (utf8 " -2.5e-1x") = some (.finite (-1 / 4)) := by decide +kernel
example : stod .exact (utf8 "Infinity") = some .posInf := by decide +kernel
example : stod .exact (utf8 "1e400") = none := by decide +kernel
example : stod .exact (utf8 "0x1.8p1") = some (.finite 3) := by decide +kernel

end Strto
end HabrDigest
