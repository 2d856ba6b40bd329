import HabrDigest.Parser.HtmlParser

/-!
# What `ParseCount` reads

A counter on a page is a short text with a number in it: "12,5K", "+3", "1 204 views".
`ParseCount` does not parse it.  It keeps the digits, minus signs, points and commas of the
whole text, wherever they stand, remembers the last suffix, and gives what is left to
`std::stod`.  `kept` and `power` are those two results without the loop, and
`castInput` is the product that goes into the `static_cast`.

## When the cast is defined

`stod` throws at about `1e308`; the cast is undefined from `2 ^ 63` on.  What lies between
is not caught.  `CounterFits` is the exact condition, on the digits of the text: moving the
point by the suffix, the digits before it are a numeral up to `9223372036854775807`, or
`9223372036854775808` behind a minus.

Under that condition `toInt_parseCount` is what the function computes: the number times its
suffix, without the fraction.
-/

namespace HabrDigest
namespace Parser

open Strto (Decimal)

/-! ## The scan -/

/-- What the loop keeps of a byte. -/
def keptByte (b : UInt8) : Option UInt8 :=
  if Numeral.isDigit b ∨ b = 0x2D ∨ b = 0x2E then some b
  else if b = 0x2C then some 0x2E
  else none

/-- The text that is left for `stod`. -/
def kept (raw : Bytes) : Bytes := raw.filterMap keptByte

/-- The power of ten of the suffix that begins with a byte, if one does. -/
def suffixAt (b : UInt8) (next : Bytes) : Option ℕ :=
  if b = 0x4B ∨ b = 0x6B ∨ (b :: next).take 2 = [0xD0, 0x9A] then some 3
  else if b = 0x4D ∨ b = 0x6D ∨ (b :: next).take 2 = [0xD0, 0x9C] then some 6
  else none

/-- The powers of ten of the suffixes of a text, in order. -/
def suffixes : Bytes → List ℕ
  | [] => []
  | b :: s => (suffixAt b s).toList ++ suffixes s

/-- The power of ten of the last suffix. -/
def power (raw : Bytes) : ℕ := (suffixes raw).getLastD 0

/-- A byte that is kept begins no suffix. -/
theorem suffixAt_of_kept {b : UInt8}
    (h : Numeral.isDigit b = true ∨ b = 0x2D ∨ b = 0x2E ∨ b = 0x2C) (s : Bytes) :
    suffixAt b s = none := by
  have hb : b.toNat ≤ 0x39 := by
    rcases h with h | rfl | rfl | rfl
    · exact (Numeral.isDigit_iff.mp h).2
    all_goals decide
  have hne : ∀ c : UInt8, 0x39 < c.toNat → b ≠ c := by
    rintro c hc rfl
    exact absurd hb (Nat.not_le.mpr hc)
  rw [suffixAt, if_neg, if_neg]
  · simp [hne 0x4D (by decide), hne 0x6D (by decide), hne 0xD0 (by decide)]
  · simp [hne 0x4B (by decide), hne 0x6B (by decide), hne 0xD0 (by decide)]

/-- **The loop of `ParseCount`** keeps what `kept` says, and its multiplier is a power of
ten. -/
theorem scanCount_eq (raw cleaned : Bytes) (e : ℕ) :
    scanCount raw cleaned (10 ^ e) = (cleaned ++ kept raw, 10 ^ (suffixes raw).getLastD e) := by
  induction raw generalizing cleaned e with
  | nil => simp [scanCount, kept, suffixes]
  | cons b s ih =>
    by_cases hkept : Numeral.isDigit b = true ∨ b = 0x2D ∨ b = 0x2E ∨ b = 0x2C
    · have hbyte : keptByte b = some (if b = 0x2C then 0x2E else b) := by
        unfold keptByte
        by_cases hcomma : b = 0x2C
        · rw [hcomma]
          rfl
        · rw [if_pos (by tauto), if_neg hcomma]
      have hcons : kept (b :: s) = (if b = 0x2C then 0x2E else b) :: kept s :=
        List.filterMap_cons_some hbyte
      rw [scanCount, if_pos hkept, ih, hcons, suffixes, suffixAt_of_kept hkept, List.append_assoc]
      rfl
    · have hbyte : keptByte b = none := by
        unfold keptByte
        rw [if_neg (by tauto), if_neg (by tauto)]
      have hcons : kept (b :: s) = kept s := List.filterMap_cons_none hbyte
      have hlast : ∀ n, ((some n).toList ++ suffixes s).getLastD e = (suffixes s).getLastD n :=
        fun n => List.getLastD_cons ..
      have h3 : (1000 : ℚ) = 10 ^ 3 := by norm_num
      have h6 : (1000000 : ℚ) = 10 ^ 6 := by norm_num
      rw [hcons, suffixes, scanCount, if_neg hkept, h3, h6]
      by_cases hthousand : b = 0x4B ∨ b = 0x6B ∨ (b :: s).take 2 = [0xD0, 0x9A]
      · rw [suffixAt, if_pos hthousand, hlast, ← ih]
        rcases hthousand with rfl | rfl | hpair
        · rfl
        · rfl
        · obtain rfl := (List.cons.inj hpair).1
          simp [hpair]
      · by_cases hmillion : b = 0x4D ∨ b = 0x6D ∨ (b :: s).take 2 = [0xD0, 0x9C]
        · rw [suffixAt, if_neg hthousand, if_pos hmillion, hlast, ← ih]
          rcases hmillion with rfl | rfl | hpair
          · rfl
          · rfl
          · obtain rfl := (List.cons.inj hpair).1
            simp [hpair]
        · rw [suffixAt, if_neg hthousand, if_neg hmillion]
          simp only [not_or] at hthousand hmillion
          rw [if_neg (by tauto), if_neg (by tauto), if_neg hthousand.2.2, if_neg hmillion.2.2, ih]
          rfl

theorem scanCount_start (raw : Bytes) : scanCount raw [] 1 = (kept raw, 10 ^ power raw) := by
  have h := scanCount_eq raw [] 0
  rwa [pow_zero, List.nil_append] at h

/-- What is kept is plain. -/
theorem plain_kept (raw : Bytes) : Strto.Plain (kept raw) := by
  intro b hb
  obtain ⟨c, -, hc⟩ := List.mem_filterMap.mp hb
  unfold keptByte at hc
  split at hc
  · rename_i h
    rwa [← Option.some.inj hc]
  · split at hc
    · exact Or.inr (Or.inr (Option.some.inj hc).symm)
    · exact absurd hc (by simp)

/-- A suffix is for thousands or for millions. -/
theorem power_le (raw : Bytes) : power raw ≤ 6 := by
  have hmem : ∀ (s : Bytes), ∀ n ∈ suffixes s, n ≤ 6 := by
    intro s
    induction s with
    | nil => simp [suffixes]
    | cons b s ih =>
      intro n hn
      rcases List.mem_append.mp hn with hn | hn
      · unfold suffixAt at hn
        split at hn
        · simp_all
        · split at hn <;> simp_all
      · exact ih n hn
  rcases List.mem_cons.mp (List.getLastD_mem_cons (l := suffixes raw) (a := 0)) with h | h
  · exact (le_of_eq h).trans (Nat.zero_le 6)
  · exact hmem raw _ h

/-! ## What is cast -/

/-- The product that `ParseCount` casts, where `std::stod` does not throw. -/
def castInput (r : Rounding) (raw : Bytes) : Option Double :=
  let (cleaned, multiplier) := scanCount raw [] 1
  if cleaned = [] ∨ cleaned = utf8 "-" ∨ cleaned = utf8 "." then none
  else (Strto.stod r cleaned).map fun x => x.mul r (.finite multiplier)

/-- `ParseCount` casts that product, or returns 0. -/
theorem parseCount_eq (r : Rounding) (raw : Bytes) :
    parseCount r raw = ((castInput r raw).map Double.toInt64).getD 0 := by
  unfold parseCount castInput
  dsimp only
  split
  · rfl
  · cases Strto.stod r (scanCount raw [] 1).1 <;> rfl

/-- The number that is read from a text. -/
def numberIn (raw : Bytes) : Decimal := Strto.decimal (kept raw)

/-- The number times its suffix. -/
def product (raw : Bytes) : ℚ := (numberIn raw).number * 10 ^ power raw

/-- What is cast depends on the text through the number and the suffix alone. -/
theorem castInput_eq (r : Rounding) (raw : Bytes) :
    castInput r raw = if (numberIn raw).Empty then none
      else (Strto.finite r (numberIn raw).negative (numberIn raw).magnitude).map
        fun x => x.mul r (.finite (10 ^ power raw)) := by
  unfold castInput
  rw [scanCount_start]
  dsimp only
  rw [Strto.stod_plain r (plain_kept raw), ← numberIn]
  by_cases hnone : kept raw = [] ∨ kept raw = utf8 "-" ∨ kept raw = utf8 "."
  · have hempty : (numberIn raw).Empty := by
      unfold numberIn
      rcases hnone with h | h | h <;> rw [h] <;> decide
    rw [if_pos hnone, if_pos hempty]
  · rw [if_neg hnone]
    by_cases hempty : (numberIn raw).Empty
    · rw [if_pos hempty, if_pos hempty]
      rfl
    · rw [if_neg hempty, if_neg hempty]

theorem castInput_exact (raw : Bytes) :
    castInput .exact raw =
      if (numberIn raw).Empty ∨ Strto.outOfRange (numberIn raw).magnitude = true then none
      else some (.finite (product raw)) := by
  rw [castInput_eq]
  by_cases hempty : (numberIn raw).Empty
  · rw [if_pos hempty, if_pos (Or.inl hempty)]
  · rw [if_neg hempty, Strto.finite]
    by_cases hout : Strto.outOfRange (numberIn raw).magnitude = true
    · rw [if_pos hout, if_pos (Or.inr hout)]
      rfl
    · rw [if_neg hout, if_neg (not_or.mpr ⟨hempty, hout⟩)]
      rfl

/-! ## When the cast is defined -/

/-- The digits before the point, when it has moved `e` places to the right. -/
def integerDigits (d : Decimal) (e : ℕ) : Bytes :=
  d.whole ++ (d.part ++ List.replicate e 0x30).take e

theorem isDigit_whole (raw : Bytes) : ∀ b ∈ (numberIn raw).whole, Numeral.isDigit b = true :=
  fun _ => Strto.isDigit_of_mem_whole

theorem isDigit_part (raw : Bytes) : ∀ b ∈ (numberIn raw).part, Numeral.isDigit b = true :=
  fun _ => Strto.isDigit_of_mem_part

theorem isDigit_integerDigits (raw : Bytes) (e : ℕ) :
    ∀ b ∈ integerDigits (numberIn raw) e, Numeral.isDigit b = true := by
  intro b hb
  rcases List.mem_append.mp hb with h | h
  · exact isDigit_whole raw b h
  · rcases List.mem_append.mp (List.mem_of_mem_take h) with h | h
    · exact isDigit_part raw b h
    · rw [List.eq_of_mem_replicate h]
      rfl

/-- **Truncation on the digits.**  What is cast, truncated, has these digits. -/
theorem truncate_product (raw : Bytes) :
    Double.truncate (product raw) =
      if (numberIn raw).negative then
        -(Numeral.value (integerDigits (numberIn raw) (power raw)) : ℤ)
      else Numeral.value (integerDigits (numberIn raw) (power raw)) := by
  have hshift : (numberIn raw).magnitude * 10 ^ power raw =
      ((Numeral.value ((numberIn raw).whole ++ (numberIn raw).part) * 10 ^ power raw : ℕ) : ℚ) /
        ((10 ^ (numberIn raw).part.length : ℕ) : ℚ) := by
    rw [Decimal.magnitude]
    push_cast
    ring
  have htruncate : Double.truncate ((numberIn raw).magnitude * 10 ^ power raw) =
      Numeral.value (integerDigits (numberIn raw) (power raw)) := by
    rw [hshift, Double.truncate_div, integerDigits,
      Numeral.value_shift (isDigit_part raw)]
  unfold product Decimal.number
  split
  · rw [neg_mul, Double.truncate_neg, htruncate]
  · exact htruncate

/-- `2 ^ 63 - 1`, the largest count. -/
def maxCount : Bytes := utf8 "9223372036854775807"

/-- `2 ^ 63`, which is a count behind a minus only. -/
def minCount : Bytes := utf8 "9223372036854775808"

/-- The first integer that `stod` takes to be out of range. -/
def beyondDouble : ℕ := 2 ^ 1024 - 2 ^ 970

/-- The last one that it reads. -/
def maxDouble : Bytes := Numeral.digits (beyondDouble - 1)

/-- **The counters that are converted within range**: those without a number; those whose number
is beyond a double, on which `stod` throws; and those whose digits before the point, moved by the
suffix, are a numeral of 64 bits. -/
def CounterFits (raw : Bytes) : Prop :=
  (numberIn raw).Empty ∨ ¬ Numeral.AtMost (numberIn raw).whole maxDouble ∨
    Numeral.AtMost (integerDigits (numberIn raw) (power raw))
      (if (numberIn raw).negative then minCount else maxCount)

/-- The double is finite, and truncated it is within 64 bits: casting it is defined. -/
def FitsInt64 (x : Double) : Prop :=
  ∃ q, x = .finite q ∧ -2 ^ 63 ≤ Double.truncate q ∧ Double.truncate q ≤ 2 ^ 63 - 1

/-- The digits decide whether the product is within 64 bits. -/
theorem fits_product_iff (raw : Bytes) :
    FitsInt64 (.finite (product raw)) ↔
      Numeral.AtMost (integerDigits (numberIn raw) (power raw))
        (if (numberIn raw).negative then minCount else maxCount) := by
  have hdigits := isDigit_integerDigits raw (power raw)
  have hmin : ∀ b ∈ minCount, Numeral.isDigit b = true := by decide
  have hmax : ∀ b ∈ maxCount, Numeral.isDigit b = true := by decide
  have hvmin : Numeral.value minCount = 2 ^ 63 := by decide
  have hvmax : Numeral.value maxCount = 2 ^ 63 - 1 := by decide
  have hfits : FitsInt64 (.finite (product raw)) ↔
      -2 ^ 63 ≤ Double.truncate (product raw) ∧ Double.truncate (product raw) ≤ 2 ^ 63 - 1 :=
    ⟨fun ⟨q, hq, h⟩ => by rwa [Double.finite.inj hq], fun h => ⟨_, rfl, h⟩⟩
  rw [hfits, truncate_product]
  split
  · rw [Numeral.atMost_iff hdigits hmin, hvmin]
    omega
  · rw [Numeral.atMost_iff hdigits hmax, hvmax]
    omega

/-- The digits before the point are the whole part of the number. -/
theorem value_whole (raw : Bytes) :
    Numeral.value (numberIn raw).whole =
      Numeral.value ((numberIn raw).whole ++ (numberIn raw).part) /
        10 ^ (numberIn raw).part.length := by
  have h := Numeral.value_shift (s := (numberIn raw).whole) (t := (numberIn raw).part)
    (isDigit_part raw) 0
  rwa [List.take_zero, List.append_nil, pow_zero, Nat.mul_one] at h

/-- The number is not negative before its sign. -/
theorem magnitude_nonneg (d : Decimal) : 0 ≤ d.magnitude := by
  unfold Decimal.magnitude
  positivity

/-- A quotient is at least a natural number when the quotient without its fraction is. -/
theorem le_div_pow_iff (n m k : ℕ) : (n : ℚ) ≤ (m : ℚ) / 10 ^ k ↔ n ≤ m / 10 ^ k := by
  rw [le_div_iff₀ (by positivity), Nat.le_div_iff_mul_le (Nat.pow_pos (by decide))]
  norm_cast

/-- A number rounds to an infinity exactly when its whole part does. -/
theorem beyond_double_iff (raw : Bytes) :
    2 ^ 1024 - 2 ^ 970 ≤ |(numberIn raw).magnitude| ↔
      ¬ Numeral.AtMost (numberIn raw).whole maxDouble := by
  have hcast : ∀ a b : ℕ, b ≤ a → ((2 ^ a - 2 ^ b : ℕ) : ℚ) = 2 ^ a - 2 ^ b := by
    intro a b hab
    rw [Nat.cast_sub (Nat.pow_le_pow_right Nat.two_pos hab)]
    norm_cast
  have hlimit : ((beyondDouble : ℕ) : ℚ) = 2 ^ 1024 - 2 ^ 970 := hcast 1024 970 (by decide)
  have hsub : ∀ a b : ℕ, b < a → 0 < 2 ^ a - 2 ^ b := fun a b hab =>
    Nat.sub_pos_of_lt (Nat.pow_lt_pow_right Nat.one_lt_two hab)
  have hpos : 0 < beyondDouble := hsub 1024 970 (by decide)
  have hdigits : ∀ b ∈ maxDouble, Numeral.isDigit b = true := fun _ =>
    Numeral.isDigit_of_mem_digits
  rw [Numeral.atMost_iff (isDigit_whole raw) hdigits, maxDouble, Numeral.value_digits,
    abs_of_nonneg (magnitude_nonneg _), ← hlimit, Decimal.magnitude, le_div_pow_iff, value_whole,
    Nat.le_sub_one_iff_lt hpos, Nat.not_lt]

/-- A number of 64 bits is not beyond a double. -/
theorem atMost_maxDouble_of_fits {raw : Bytes} (h : FitsInt64 (.finite (product raw))) :
    Numeral.AtMost (numberIn raw).whole maxDouble := by
  have hdigits : ∀ b ∈ maxDouble, Numeral.isDigit b = true := fun _ =>
    Numeral.isDigit_of_mem_digits
  have hlimit : 2 ^ 63 < beyondDouble := by decide +kernel
  rw [fits_product_iff, Numeral.atMost_iff (isDigit_integerDigits raw _) (by split <;> decide)] at h
  rw [Numeral.atMost_iff (isDigit_whole raw) hdigits, maxDouble, Numeral.value_digits]
  have hbound : Numeral.value (if (numberIn raw).negative then minCount else maxCount) ≤ 2 ^ 63 := by
    split <;> decide
  have hshift : Numeral.value (numberIn raw).whole ≤
      Numeral.value (integerDigits (numberIn raw) (power raw)) := by
    rw [integerDigits, Numeral.value_append]
    exact (Nat.le_mul_of_pos_left _ (Nat.pow_pos (by decide))).trans (Nat.le_add_right _ _)
  exact Nat.le_sub_one_of_lt (lt_of_le_of_lt ((hshift.trans h).trans hbound) hlimit)

/-- A number below the normal doubles has no digit before the point, moved or not. -/
theorem value_integerDigits_of_small (raw : Bytes)
    (h : |(numberIn raw).magnitude| < 1 / 2 ^ 1022) :
    Numeral.value (integerDigits (numberIn raw) (power raw)) = 0 := by
  rw [integerDigits, Numeral.value_shift (isDigit_part raw)]
  refine Nat.div_eq_of_lt ?_
  rw [abs_of_nonneg (magnitude_nonneg _), Decimal.magnitude,
    div_lt_iff₀ (by positivity)] at h
  generalize Numeral.value ((numberIn raw).whole ++ (numberIn raw).part) = m at h ⊢
  generalize (numberIn raw).part.length = k at h ⊢
  have hsmall : (1 : ℚ) / 2 ^ 1022 ≤ 1 / 2 ^ 20 :=
    one_div_le_one_div_of_le (by positivity) (pow_le_pow_right₀ (by norm_num) (by norm_num))
  have hm : (m : ℚ) * 2 ^ 20 < 10 ^ k := by
    have hle := h.trans_le (mul_le_mul_of_nonneg_right hsmall (by positivity))
    rw [one_div, inv_mul_eq_div, lt_div_iff₀ (by positivity)] at hle
    exact hle
  calc m * 10 ^ power raw ≤ m * 10 ^ 6 :=
        Nat.mul_le_mul_left _ (Nat.pow_le_pow_right (by decide) (power_le raw))
    _ ≤ m * 2 ^ 20 := Nat.mul_le_mul_left _ (by decide)
    _ < 10 ^ k := by exact_mod_cast hm

/-- A number that `stod` takes to be out of range is beyond a double, or nothing of it is left
before the point. -/
theorem value_integerDigits_of_outOfRange (raw : Bytes)
    (hout : Strto.outOfRange (numberIn raw).magnitude = true)
    (hwhole : Numeral.AtMost (numberIn raw).whole maxDouble) :
    Numeral.value (integerDigits (numberIn raw) (power raw)) = 0 := by
  unfold Strto.outOfRange at hout
  rw [Bool.or_eq_true, decide_eq_true_iff, beyond_double_iff] at hout
  have hsmall := hout.resolve_left (not_not.mpr hwhole)
  rw [Bool.and_eq_true, Bool.and_eq_true, decide_eq_true_iff, decide_eq_true_iff] at hsmall
  exact value_integerDigits_of_small raw hsmall.1.2

/-- **A counter of 64 bits is read as its number.** -/
theorem toInt_parseCount {raw : Bytes} (h : FitsInt64 (.finite (product raw))) :
    (parseCount .exact raw).toInt = Double.truncate (product raw) := by
  have hwhole := atMost_maxDouble_of_fits h
  rw [parseCount_eq, castInput_exact]
  by_cases hread : (numberIn raw).Empty ∨ Strto.outOfRange (numberIn raw).magnitude = true
  · have hzero : Numeral.value (integerDigits (numberIn raw) (power raw)) = 0 := by
      rcases hread with ⟨hnil, hnil'⟩ | hout
      · rw [integerDigits, hnil, hnil', List.nil_append, List.nil_append, List.take_replicate,
          Numeral.value_replicate]
      · exact value_integerDigits_of_outOfRange raw hout hwhole
    rw [if_pos hread, truncate_product, hzero]
    split <;> rfl
  · obtain ⟨q, hq, hlow, hhigh⟩ := h
    rw [← Double.finite.inj hq] at hlow hhigh
    have hlt : Double.truncate (product raw) < 2 ^ 63 := Int.lt_of_le_sub_one hhigh
    rw [if_neg hread, Option.map_some, Option.getD_some, Double.toInt64_finite,
      if_pos ⟨hlow, hlt⟩, Int64.toInt_ofInt_of_le hlow hlt]

/-- What is cast is within 64 bits exactly where the counter fits. -/
theorem castInput_fits_iff (raw : Bytes) :
    (∀ x ∈ castInput .exact raw, FitsInt64 x) ↔ CounterFits raw := by
  rw [castInput_exact]
  constructor
  · intro hfits
    by_cases hempty : (numberIn raw).Empty
    · exact Or.inl hempty
    · by_cases hwhole : Numeral.AtMost (numberIn raw).whole maxDouble
      · refine Or.inr (Or.inr ?_)
        by_cases hout : Strto.outOfRange (numberIn raw).magnitude = true
        · rw [Numeral.atMost_iff (isDigit_integerDigits raw _) (by split <;> decide),
            value_integerDigits_of_outOfRange raw hout hwhole]
          exact Nat.zero_le _
        · rw [if_neg (not_or.mpr ⟨hempty, hout⟩)] at hfits
          exact (fits_product_iff raw).mp (hfits _ rfl)
      · exact Or.inr (Or.inl hwhole)
  · intro hfits x hx
    split at hx
    · exact absurd hx (by simp)
    · rename_i hread
      obtain ⟨hempty, hout⟩ := not_or.mp hread
      obtain rfl := Option.some.inj hx
      refine (fits_product_iff raw).mpr ?_
      rcases hfits with h | h | h
      · exact absurd h hempty
      · rw [← beyond_double_iff] at h
        exact absurd (by simp [Strto.outOfRange, h]) hout
      · exact h

/-- **When `ParseCount` converts within range.**  The double it casts to `int64_t`, for every text
on which `stod` returns, is within 64 bits if and only if the counter fits; on every other text it
returns 0. -/
theorem parseCount_inRange_iff (raw : Bytes) :
    ((∀ x ∈ castInput .exact raw, FitsInt64 x) ∧
      (castInput .exact raw = none → parseCount .exact raw = 0)) ↔ CounterFits raw := by
  have hzero : castInput .exact raw = none → parseCount .exact raw = 0 := fun h => by
    rw [parseCount_eq, h]
    rfl
  rw [and_iff_left hzero, castInput_fits_iff]

/-- Twenty-two nines. -/
def longCount : Bytes := utf8 "9999999999999999999999"

/-- **The cast that is not guarded**: twenty-two nines are a double, and no 64-bit integer. -/
theorem parseCount_not_inRange :
    ¬ ∀ raw : Bytes, (∀ x ∈ castInput .exact raw, FitsInt64 x) ∧
      (castInput .exact raw = none → parseCount .exact raw = 0) := by
  intro hall
  rcases (castInput_fits_iff longCount).mp (hall longCount).1 with h | h | h
  · exact absurd h (by decide)
  · have hdigits : ∀ b ∈ maxDouble, Numeral.isDigit b = true := fun _ =>
      Numeral.isDigit_of_mem_digits
    rw [Numeral.atMost_iff (isDigit_whole longCount) hdigits, maxDouble,
      Numeral.value_digits] at h
    exact absurd h (by decide +kernel)
  · exact absurd h (by decide)

end Parser
end HabrDigest
