import HabrDigest.Lib.Bytes
import Mathlib.Data.Nat.Digits.Lemmas

/-!
# Numerals

Numbers are printed and read in one way everywhere: the digits of `Nat.digits 10`,
most significant first, as ASCII bytes.  `value` reads a run of digits from the left,
which is what every C reader does, and `value_digits` says that the numeral of a number
reads as the number.  `padded` is a numeral filled with zeros on the left.  Hexadecimal
numerals are only ever printed.

Two operations on numbers are operations on their digits: comparing, which is comparing
lengths and then digits (`atMost_iff`), and shifting by a power of ten, which is moving the
point (`value_shift`).

`Canonical` says what the numeral of an integer is without saying how it is made, and
`Canonical.unique` that no two integers share one.
-/

namespace HabrDigest
namespace Numeral

/-- `isdigit`. -/
def isDigit (b : UInt8) : Bool := 0x30 ≤ b && b ≤ 0x39

/-- The byte of a digit. -/
def digit (d : ℕ) : UInt8 := UInt8.ofNat (0x30 + d)

/-- The numeral of a natural number. -/
def digits (n : ℕ) : Bytes :=
  if n = 0 then [0x30] else (Nat.digits 10 n).reverse.map digit

/-- The numeral of an integer. -/
def ofInt (i : ℤ) : Bytes := if i < 0 then 0x2D :: digits i.natAbs else digits i.natAbs

/-- The numeral, filled with zeros up to a width. -/
def padded (width n : ℕ) : Bytes :=
  List.replicate (width - (digits n).length) 0x30 ++ digits n

/-- A hexadecimal digit. -/
def hexDigit (d : ℕ) : UInt8 := if d < 10 then UInt8.ofNat (0x30 + d) else UInt8.ofNat (0x57 + d)

/-- The hexadecimal numeral of a natural number. -/
def hex (n : ℕ) : Bytes := if n = 0 then [0x30] else (Nat.digits 16 n).reverse.map hexDigit

/-- The hexadecimal numeral, filled with zeros up to a width. -/
def hexPadded (width n : ℕ) : Bytes := List.replicate (width - (hex n).length) 0x30 ++ hex n

/-- The number a run of digits denotes. -/
def value (s : Bytes) : ℕ := s.foldl (fun n b => 10 * n + (b.toNat - 0x30)) 0

/-! ## The digits -/

theorem toNat_digit {d : ℕ} (h : d < 10) : (digit d).toNat = 0x30 + d := by
  rw [digit, UInt8.toNat_ofNat']
  omega

theorem isDigit_iff {b : UInt8} : isDigit b = true ↔ 0x30 ≤ b.toNat ∧ b.toNat ≤ 0x39 := by
  rw [isDigit, Bool.and_eq_true, decide_eq_true_iff, decide_eq_true_iff, UInt8.le_iff_toNat_le,
    UInt8.le_iff_toNat_le]
  rfl

theorem isDigit_digit {d : ℕ} (h : d < 10) : isDigit (digit d) = true := by
  rw [isDigit_iff, toNat_digit h]
  omega

theorem lt_ten_of_mem {n d : ℕ} (h : d ∈ (Nat.digits 10 n).reverse) : d < 10 :=
  Nat.digits_lt_base (by decide) (List.mem_reverse.mp h)

theorem isDigit_of_mem_digits {n : ℕ} {b : UInt8} (h : b ∈ digits n) : isDigit b = true := by
  unfold digits at h
  split at h
  · rw [List.mem_singleton.mp h]
    rfl
  · obtain ⟨d, hd, rfl⟩ := List.mem_map.mp h
    exact isDigit_digit (lt_ten_of_mem hd)

theorem isDigit_of_mem_padded {width n : ℕ} {b : UInt8} (h : b ∈ padded width n) :
    isDigit b = true := by
  rcases List.mem_append.mp h with h | h
  · rw [List.eq_of_mem_replicate h]
    rfl
  · exact isDigit_of_mem_digits h

theorem digits_ne_nil (n : ℕ) : digits n ≠ [] := by
  unfold digits
  split
  · simp
  · simpa using Nat.digits_ne_nil_iff_ne_zero.mpr ‹n ≠ 0›

theorem length_padded {width n : ℕ} (h : (digits n).length ≤ width) :
    (padded width n).length = width := by
  rw [padded, List.length_append, List.length_replicate]
  omega

/-- A digit is ASCII. -/
theorem lt_of_isDigit {b : UInt8} (h : isDigit b = true) : b < 0x80 := by
  rw [UInt8.lt_iff_toNat_lt]
  exact lt_of_le_of_lt (isDigit_iff.mp h).2 (by decide)

/-- A digit is not a NUL. -/
theorem ne_zero_of_isDigit {b : UInt8} (h : isDigit b = true) : b ≠ 0 := by
  rintro rfl
  exact absurd h (by decide)

/-- A hexadecimal numeral is ASCII. -/
theorem lt_of_mem_hexPadded {width n : ℕ} {b : UInt8} (h : b ∈ hexPadded width n) : b < 0x80 := by
  have hdigit : ∀ d < 16, hexDigit d < 0x80 := by decide
  rcases List.mem_append.mp h with h | h
  · rw [List.eq_of_mem_replicate h]
    decide
  · unfold hex at h
    split at h
    · rw [List.mem_singleton.mp h]
      decide
    · obtain ⟨d, hd, rfl⟩ := List.mem_map.mp h
      exact hdigit d (Nat.digits_lt_base (by decide) (List.mem_reverse.mp hd))

/-- The symbols that numbers are written with: digits, the sign, the point, the blank between
groups, and the letters of `inf` and `nan`. -/
def isNumeric (b : UInt8) : Bool := isDigit b || (utf8 " -.infa").contains b

theorem isNumeric_digits {n : ℕ} : ∀ b ∈ digits n, isNumeric b = true := fun b hb => by
  rw [isNumeric, isDigit_of_mem_digits hb, Bool.true_or]

theorem isNumeric_ofInt (z : ℤ) : ∀ b ∈ ofInt z, isNumeric b = true := by
  unfold ofInt
  split
  · exact List.forall_mem_cons.mpr ⟨by decide, isNumeric_digits⟩
  · exact isNumeric_digits

/-! ## The value -/

theorem value_append (s t : Bytes) : value (s ++ t) = 10 ^ t.length * value s + value t := by
  have hfold : ∀ (t : Bytes) (n : ℕ), t.foldl (fun n b => 10 * n + (b.toNat - 0x30)) n =
      10 ^ t.length * n + value t := by
    intro t
    induction t with
    | nil => intro n; simp [value]
    | cons b t ih =>
      intro n
      have hb : value (b :: t) = 10 ^ t.length * (10 * 0 + (b.toNat - 0x30)) + value t := ih _
      rw [List.foldl_cons, ih, hb, List.length_cons, pow_succ]
      ring
  rw [value, List.foldl_append, hfold]
  rfl

/-- **The numeral of a number reads as the number.** -/
theorem value_digits (n : ℕ) : value (digits n) = n := by
  unfold digits
  split
  · rename_i h
    rw [h]
    rfl
  · have hmap : ∀ ds : List ℕ, (∀ d ∈ ds, d < 10) →
        value (ds.reverse.map digit) = Nat.ofDigits 10 ds := by
      intro ds
      induction ds with
      | nil => intro _; rfl
      | cons d ds ih =>
        intro hds
        have hd := toNat_digit (hds d (List.mem_cons_self ..))
        rw [List.reverse_cons, List.map_append, value_append,
          ih fun e he => hds e (List.mem_cons_of_mem _ he), Nat.ofDigits_cons]
        simp only [List.map_cons, List.map_nil, List.length_singleton, pow_one, value,
          List.foldl_cons, List.foldl_nil, hd]
        push_cast
        omega
    rw [hmap _ fun d hd => Nat.digits_lt_base (by decide) hd, Nat.ofDigits_digits]

theorem value_replicate (k : ℕ) : value (List.replicate k 0x30) = 0 := by
  induction k with
  | zero => rfl
  | succ k ih =>
    rw [List.replicate_succ', value_append, ih]
    rfl

theorem value_padded (width n : ℕ) : value (padded width n) = n := by
  rw [padded, value_append, value_replicate, value_digits]
  omega

/-- A numeral has as many digits as it needs. -/
theorem length_digits_le {n k : ℕ} (hk : 0 < k) (h : n < 10 ^ k) : (digits n).length ≤ k := by
  unfold digits
  split
  · exact hk
  · rw [List.length_map, List.length_reverse]
    exact Nat.digits_length_le_iff (by decide) n |>.mpr h

/-! ## Numerals as numbers -/

theorem value_cons (b : UInt8) (s : Bytes) :
    value (b :: s) = 10 ^ s.length * (b.toNat - 0x30) + value s :=
  value_append [b] s |>.trans (by simp [value])

/-- A run of `k` digits denotes less than `10 ^ k`. -/
theorem value_lt {s : Bytes} (h : ∀ b ∈ s, isDigit b = true) : value s < 10 ^ s.length := by
  induction s with
  | nil => exact Nat.one_pos
  | cons b s ih =>
    have hb := isDigit_iff.mp (h b (List.mem_cons_self ..))
    have hs := ih fun c hc => h c (List.mem_cons_of_mem _ hc)
    have hle : 10 ^ s.length * (b.toNat - 0x30) ≤ 10 ^ s.length * 9 :=
      Nat.mul_le_mul_left _ (by omega)
    rw [value_cons, List.length_cons, pow_succ]
    omega

/-- A run of digits without its leading zeros. -/
def stripZeros (s : Bytes) : Bytes := s.dropWhile (· = 0x30)

theorem value_stripZeros (s : Bytes) : value (stripZeros s) = value s := by
  induction s with
  | nil => rfl
  | cons b s ih =>
    by_cases hb : b = 0x30
    · rw [stripZeros, List.dropWhile_cons_of_pos (by simpa using hb), value_cons, hb]
      simpa [stripZeros] using ih
    · rw [stripZeros, List.dropWhile_cons_of_neg (by simpa using hb)]

theorem isDigit_of_mem_stripZeros {s : Bytes} (h : ∀ b ∈ s, isDigit b = true) :
    ∀ b ∈ stripZeros s, isDigit b = true := fun b hb =>
  h b ((List.dropWhile_suffix _).subset hb)

/-- Without leading zeros, a run of digits denotes at least the power of ten of its length. -/
theorem le_value_stripZeros {s : Bytes} (h : ∀ b ∈ s, isDigit b = true) (hne : stripZeros s ≠ []) :
    10 ^ ((stripZeros s).length - 1) ≤ value (stripZeros s) := by
  obtain ⟨b, t, ht⟩ := List.exists_cons_of_ne_nil hne
  have hb := isDigit_iff.mp (isDigit_of_mem_stripZeros h b (by simp [ht]))
  have hzero : b ≠ 0x30 := by
    have hhead := List.head?_dropWhile_not (· = (0x30 : UInt8)) s
    rw [← stripZeros, ht] at hhead
    simpa using hhead
  have hnat : b.toNat ≠ 0x30 := fun he => hzero (UInt8.toNat_inj.mp he)
  rw [ht, value_cons, List.length_cons, Nat.add_sub_cancel]
  calc 10 ^ t.length = 10 ^ t.length * 1 := (Nat.mul_one _).symm
    _ ≤ 10 ^ t.length * (b.toNat - 0x30) := Nat.mul_le_mul_left _ (by omega)
    _ ≤ _ := Nat.le_add_right _ _

/-- Runs of the same number of digits are ordered as their values. -/
theorem lt_iff_value_lt {s t : Bytes} (hs : ∀ b ∈ s, isDigit b = true)
    (ht : ∀ b ∈ t, isDigit b = true) (hlen : s.length = t.length) :
    s < t ↔ value s < value t := by
  induction s generalizing t with
  | nil =>
    obtain rfl := List.length_eq_zero_iff.mp hlen.symm
    simp
  | cons b s ih =>
    obtain ⟨c, t, rfl⟩ := List.exists_cons_of_length_eq_add_one hlen.symm
    have hb := isDigit_iff.mp (hs b (List.mem_cons_self ..))
    have hc := isDigit_iff.mp (ht c (List.mem_cons_self ..))
    have hs' : ∀ d ∈ s, isDigit d = true := fun d hd => hs d (List.mem_cons_of_mem _ hd)
    have ht' : ∀ d ∈ t, isDigit d = true := fun d hd => ht d (List.mem_cons_of_mem _ hd)
    have hlen' : s.length = t.length := Nat.succ.inj hlen
    have hvs := value_lt hs'
    have hvt := value_lt ht'
    rw [List.cons_lt_cons_iff, ih hs' ht' hlen', value_cons, value_cons, UInt8.lt_iff_toNat_lt, ← hlen']
    rw [← hlen'] at hvt
    constructor
    · rintro (hlt | ⟨rfl, hlt⟩)
      · calc 10 ^ s.length * (b.toNat - 0x30) + value s
            < 10 ^ s.length * (b.toNat - 0x30) + 10 ^ s.length := Nat.add_lt_add_left hvs _
          _ = 10 ^ s.length * (b.toNat - 0x30 + 1) := rfl
          _ ≤ 10 ^ s.length * (c.toNat - 0x30) := Nat.mul_le_mul_left _ (by omega)
          _ ≤ _ := Nat.le_add_right _ _
      · exact Nat.add_lt_add_left hlt _
    · intro hlt
      rcases Nat.lt_trichotomy b.toNat c.toNat with h | h | h
      · exact Or.inl h
      · rw [h] at hlt
        exact Or.inr ⟨UInt8.toNat_inj.mp h, Nat.lt_of_add_lt_add_left hlt⟩
      · have hle : 10 ^ s.length * (c.toNat - 0x30 + 1) ≤ 10 ^ s.length * (b.toNat - 0x30) :=
          Nat.mul_le_mul_left _ (by omega)
        rw [Nat.mul_succ] at hle
        omega

/-- Texts that begin with parts of one length are ordered by these, and then by the rest. -/
theorem append_lt_append_iff {α : Type*} [LinearOrder α] {s t u v : List α}
    (h : s.length = t.length) : s ++ u < t ++ v ↔ s < t ∨ s = t ∧ u < v := by
  induction s generalizing t with
  | nil =>
    obtain rfl := List.length_eq_zero_iff.mp h.symm
    simp
  | cons a s ih =>
    obtain ⟨b, t, rfl⟩ := List.exists_cons_of_length_eq_add_one h.symm
    rw [List.cons_append, List.cons_append, List.cons_lt_cons_iff, List.cons_lt_cons_iff,
      ih (Nat.succ.inj h), List.cons.injEq]
    tauto

/-- **Padded numerals of one width are ordered as their numbers.** -/
theorem padded_lt_padded_iff {width m n : ℕ} (hwidth : 0 < width) (hm : m < 10 ^ width)
    (hn : n < 10 ^ width) : padded width m < padded width n ↔ m < n := by
  rw [lt_iff_value_lt (fun _ => isDigit_of_mem_padded) (fun _ => isDigit_of_mem_padded),
    value_padded, value_padded]
  rw [length_padded (length_digits_le hwidth hm), length_padded (length_digits_le hwidth hn)]

/-- The numeral `s` is at most the numeral `t`: without leading zeros it is shorter, or as long
and not behind it in the order of the digits. -/
def AtMost (s t : Bytes) : Prop :=
  (stripZeros s).length < (stripZeros t).length ∨
    (stripZeros s).length = (stripZeros t).length ∧ ¬ stripZeros t < stripZeros s

instance (s t : Bytes) : Decidable (AtMost s t) := inferInstanceAs (Decidable (_ ∨ _))

/-- A numeral with fewer digits denotes less. -/
theorem value_lt_of_length_lt {s t : Bytes} (hs : ∀ b ∈ s, isDigit b = true)
    (ht : ∀ b ∈ t, isDigit b = true) (hlen : (stripZeros s).length < (stripZeros t).length) :
    value s < value t := by
  have hne : stripZeros t ≠ [] := List.ne_nil_of_length_pos (Nat.zero_lt_of_lt hlen)
  rw [← value_stripZeros s, ← value_stripZeros t]
  calc value (stripZeros s) < 10 ^ (stripZeros s).length :=
        value_lt (isDigit_of_mem_stripZeros hs)
    _ ≤ 10 ^ ((stripZeros t).length - 1) := Nat.pow_le_pow_right (by decide) (by omega)
    _ ≤ value (stripZeros t) := le_value_stripZeros ht hne

/-- **The order of numerals is the order of numbers.** -/
theorem atMost_iff {s t : Bytes} (hs : ∀ b ∈ s, isDigit b = true)
    (ht : ∀ b ∈ t, isDigit b = true) : AtMost s t ↔ value s ≤ value t := by
  rcases Nat.lt_trichotomy (stripZeros s).length (stripZeros t).length with h | h | h
  · exact iff_of_true (Or.inl h) (value_lt_of_length_lt hs ht h).le
  · have horder := lt_iff_value_lt (isDigit_of_mem_stripZeros ht) (isDigit_of_mem_stripZeros hs)
      h.symm
    rw [value_stripZeros, value_stripZeros] at horder
    rw [AtMost, horder, Nat.not_lt]
    simp [h]
  · refine iff_of_false ?_ (Nat.not_le.mpr (value_lt_of_length_lt ht hs h))
    rintro (h' | ⟨h', -⟩) <;> omega

/-- Zeros behind a run of digits shift it. -/
theorem value_append_zeros (s : Bytes) (k : ℕ) :
    value (s ++ List.replicate k 0x30) = 10 ^ k * value s := by
  rw [value_append, value_replicate, List.length_replicate, Nat.add_zero]

/-- **Moving the point.**  Of a number with the digits `s` before the point and `t` behind it,
the digits that stand before the point when it has moved `e` places to the right, zeros filled
in, denote the whole part of the number times `10 ^ e`. -/
theorem value_shift {s t : Bytes} (ht : ∀ b ∈ t, isDigit b = true) (e : ℕ) :
    value (s ++ (t ++ List.replicate e 0x30).take e) =
      value (s ++ t) * 10 ^ e / 10 ^ t.length := by
  rcases Nat.le_total t.length e with h | h
  · rw [List.take_append, List.take_of_length_le h, List.take_replicate,
      Nat.min_eq_left (Nat.sub_le _ _), ← List.append_assoc, value_append_zeros]
    refine (Nat.div_eq_of_eq_mul_left (by positivity) ?_).symm
    rw [Nat.mul_right_comm, ← pow_add, Nat.sub_add_cancel h, Nat.mul_comm]
  · have hdrop : value (t.drop e) < 10 ^ (t.length - e) := by
      have hlt := value_lt (s := t.drop e) fun b hb => ht b (List.mem_of_mem_drop hb)
      rwa [List.length_drop] at hlt
    have hsplit : value (s ++ t) =
        10 ^ (t.length - e) * value (s ++ t.take e) + value (t.drop e) := by
      conv_lhs => rw [← List.take_append_drop e t, ← List.append_assoc, value_append,
        List.length_drop]
    have hpow : 10 ^ t.length = 10 ^ (t.length - e) * 10 ^ e := by
      rw [← pow_add, Nat.sub_add_cancel h]
    rw [List.take_append_of_le_length h, hpow, Nat.mul_div_mul_right _ _ (by positivity), hsplit,
      Nat.mul_add_div (by positivity), Nat.div_eq_of_lt hdrop, Nat.add_zero]

/-! ## Canonical numerals -/

/-- The sign of an integer; there is none before what is not negative. -/
def sign (z : ℤ) : Bytes := if z < 0 then [0x2D] else []

/-- A text is the one decimal numeral of an integer: a minus sign exactly if it is negative, and
digits that denote its magnitude, without a zero before them. -/
def Canonical (z : ℤ) (s : Bytes) : Prop :=
  ∃ ds, s = sign z ++ ds ∧ ds ≠ [] ∧ (∀ b ∈ ds, isDigit b = true) ∧
    (ds.head? = some 0x30 → ds = [0x30]) ∧ value ds = z.natAbs

theorem ofInt_eq (z : ℤ) : ofInt z = sign z ++ digits z.natAbs := by
  unfold ofInt sign
  split <;> rfl

/-- A numeral has no zero before it. -/
theorem digits_eq_of_head? {n : ℕ} (h : (digits n).head? = some 0x30) : digits n = [0x30] := by
  by_cases hn : n = 0
  · rw [digits, if_pos hn]
  · rw [digits, if_neg hn, List.head?_map, List.head?_reverse,
      List.getLast?_eq_some_getLast (Nat.digits_ne_nil_iff_ne_zero.mpr hn)] at h
    have hlast := Nat.getLast_digit_ne_zero 10 hn
    have hlt := Nat.digits_lt_base (m := n) (by decide : 1 < 10)
      (List.getLast_mem (Nat.digits_ne_nil_iff_ne_zero.mpr hn))
    have hzero := congrArg UInt8.toNat (Option.some.inj h)
    rw [toNat_digit hlt] at hzero
    exact absurd hzero (by simpa using hlast)

/-- **`ofInt` is the canonical numeral.** -/
theorem canonical_ofInt (z : ℤ) : Canonical z (ofInt z) :=
  ⟨digits z.natAbs, ofInt_eq z, digits_ne_nil _, fun _ => isDigit_of_mem_digits,
    digits_eq_of_head?, value_digits _⟩

/-- A canonical numeral begins with a minus sign just when the integer is negative. -/
theorem Canonical.neg_iff {z : ℤ} {s : Bytes} (h : Canonical z s) :
    z < 0 ↔ s.head? = some 0x2D := by
  obtain ⟨ds, rfl, hne, hdigits, -, -⟩ := h
  unfold sign
  by_cases hz : z < 0
  · rw [if_pos hz]
    exact iff_of_true hz rfl
  · rw [if_neg hz, List.nil_append]
    refine iff_of_false hz fun hhead => ?_
    have hminus := hdigits 0x2D (List.mem_of_mem_head? hhead)
    exact absurd hminus (by decide)

/-- A text is the canonical numeral of one integer. -/
theorem Canonical.unique {z z' : ℤ} {s : Bytes} (h : Canonical z s) (h' : Canonical z' s) :
    z = z' := by
  have hsign : z < 0 ↔ z' < 0 := h.neg_iff.trans h'.neg_iff.symm
  obtain ⟨ds, hs, -, -, -, hvalue⟩ := h
  obtain ⟨ds', hs', -, -, -, hvalue'⟩ := h'
  have hsame : sign z = sign z' := if_congr hsign rfl rfl
  have hds : ds = ds' := List.append_cancel_left (hs.symm.trans (hsame ▸ hs'))
  have habs : z.natAbs = z'.natAbs := by rw [← hvalue, ← hvalue', hds]
  omega

example : ofInt (-1203) = utf8 "-1203" := by decide
example : padded 2 7 = utf8 "07" := by decide

end Numeral
end HabrDigest
