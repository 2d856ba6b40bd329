import HabrDigest.Web.HtmlView

/-!
# Grouped numbers

`FormatNumber` prints the digits from the last one and puts a space before every third, then the
sign, and turns the whole around.  `Grouped` is what should come out: the canonical numeral once
the spaces are gone, and groups of three digits behind a first one of one to three.

The loop never sees the sign, so it groups digits only (`inGroups_groupDigits`), and everything
comes down to what the digits are of.  That is `-value` for a negative number, and the least
`int64_t` has no negation: to compute it is undefined, and a compiler may print anything, the right
text as well.  `formatNumber_grouped_iff` excepts that number and no other.  Where the overflow
yields some `int64_t`, what is printed is not the number, whichever it is (`not_grouped_minValue`).
-/

namespace HabrDigest
namespace Web

/-- A text is a run of digits in groups: the first of one to three digits, the others of three,
and a space between any two. -/
def InGroups (digits text : Bytes) : Prop :=
  ∃ (first : Bytes) (groups : List Bytes), text = first ++ groups.flatMap (0x20 :: ·) ∧
    digits = first ++ groups.flatten ∧
    1 ≤ first.length ∧ first.length ≤ 3 ∧ ∀ group ∈ groups, group.length = 3

/-- The loop looks at how many digits it has seen only modulo three. -/
theorem groupDigits_congr {n m : ℕ} (hn : 0 < n) (hm : 0 < m) (h : n % 3 = m % 3)
    (ds : Bytes) : groupDigits n ds = groupDigits m ds := by
  induction ds generalizing n m with
  | nil => rfl
  | cons d ds ih =>
    rw [groupDigits, groupDigits, ih (Nat.succ_pos n) (Nat.succ_pos m) (by omega), h]
    simp only [hn, hm, true_and]

/-- Three digits are behind a space, and then the loop begins anew. -/
theorem groupDigits_four (a b c d : UInt8) (ds : Bytes) :
    groupDigits 0 (a :: b :: c :: d :: ds) = a :: b :: c :: 0x20 :: groupDigits 0 (d :: ds) := by
  have hanew : groupDigits 4 ds = groupDigits 1 ds :=
    groupDigits_congr (by decide) (by decide) (by decide) ds
  simp only [groupDigits, Nat.zero_add, Nat.reduceAdd, hanew]
  rfl

/-- **The loop makes groups**, when its output is turned around. -/
theorem inGroups_groupDigits : ∀ (d : UInt8) (ds : Bytes),
    InGroups (d :: ds).reverse (groupDigits 0 (d :: ds)).reverse
  | a, [] => ⟨[a], [], rfl, rfl, by simp, by simp, by simp⟩
  | a, [b] => ⟨[b, a], [], rfl, rfl, by simp, by simp, by simp⟩
  | a, [b, c] => ⟨[c, b, a], [], rfl, rfl, by simp, by simp, by simp⟩
  | a, b :: c :: d :: ds => by
    obtain ⟨first, groups, htext, hdigits, hpos, hle, hthree⟩ := inGroups_groupDigits d ds
    refine ⟨first, groups ++ [[c, b, a]], ?_, ?_, hpos, hle, ?_⟩
    · rw [groupDigits_four, List.reverse_cons, List.reverse_cons, List.reverse_cons,
        List.reverse_cons, htext, List.flatMap_append]
      simp
    · rw [List.reverse_cons, List.reverse_cons, List.reverse_cons, hdigits, List.flatten_append]
      simp
    · intro group hgroup
      rcases List.mem_append.mp hgroup with hgroup | hgroup
      · exact hthree group hgroup
      · rw [List.mem_singleton.mp hgroup]
        rfl

/-- The spaces are all that the loop adds. -/
theorem filter_groupDigits (n : ℕ) (ds : Bytes) :
    (groupDigits n ds).filter (· ≠ 0x20) = ds.filter (· ≠ 0x20) := by
  induction ds generalizing n with
  | nil => rfl
  | cons d ds ih =>
    rw [groupDigits, List.filter_append, List.filter_cons, List.filter_cons, ih]
    split <;> rfl

/-! ## The whole range -/

/-- A text is an integer, grouped. -/
def Grouped (z : ℤ) (text : Bytes) : Prop :=
  Numeral.Canonical z (text.filter (· ≠ 0x20)) ∧
    ∃ digits groups, text = Numeral.sign z ++ groups ∧ InGroups digits groups ∧
      ∀ b ∈ digits, Numeral.isDigit b = true

/-- `-value` is an `int64_t`, where it is computed. -/
def Negates (value : Int64) : Prop := value < 0 → -value.toInt ≤ Int64.maxValue.toInt

theorem lt_zero_iff (value : Int64) : value < 0 ↔ value.toInt < 0 := Int64.lt_iff_toInt_lt

theorem eq_minValue_iff (value : Int64) : value = Int64.minValue ↔ value.toInt = -2 ^ 63 := by
  rw [← Int64.toInt_inj, Int64.toInt_minValue]

theorem negates_iff (value : Int64) : Negates value ↔ value ≠ Int64.minValue := by
  have hmin := value.le_toInt
  have hmax : Int64.maxValue.toInt = 2 ^ 63 - 1 := rfl
  rw [Negates, lt_zero_iff, Ne, eq_minValue_iff, hmax]
  omega

/-- The number whose digits are printed. -/
def magnitude (negatedMin value : Int64) : ℤ :=
  (if value < 0 then negated negatedMin value else value).toInt

theorem magnitude_eq (negatedMin : Int64) {value : Int64} (h : value ≠ Int64.minValue) :
    magnitude negatedMin value = value.toInt.natAbs := by
  have hmin := value.le_toInt
  have hmax := value.toInt_lt
  have hne : value.toInt ≠ -2 ^ 63 := mt (eq_minValue_iff value).mpr h
  unfold magnitude
  by_cases hneg : value < 0
  · have hlt := (lt_zero_iff value).mp hneg
    rw [if_pos hneg, negated, if_neg h, Int64.toInt_neg, Int.bmod_def]
    omega
  · have hle := mt (lt_zero_iff value).mpr hneg
    rw [if_neg hneg]
    omega

/-- What is printed: a sign, and the digits of what the negation gives. -/
theorem formatNumber_eq (negatedMin value : Int64) :
    formatNumber negatedMin value = Numeral.sign value.toInt ++
      (groupDigits 0 (Numeral.ofInt (magnitude negatedMin value)).reverse).reverse := by
  have hsign : Numeral.sign value.toInt = if value < 0 then [0x2D] else [] :=
    if_congr (lt_zero_iff value).symm rfl rfl
  rw [hsign]
  unfold formatNumber magnitude
  dsimp only
  split
  · exact List.reverse_append
  · rfl

theorem filter_sign (z : ℤ) : (Numeral.sign z).filter (· ≠ 0x20) = Numeral.sign z := by
  unfold Numeral.sign
  split <;> rfl

theorem filter_digits {ds : Bytes} (h : ∀ b ∈ ds, Numeral.isDigit b = true) :
    ds.filter (· ≠ 0x20) = ds := by
  refine List.filter_eq_self.mpr fun b hb => decide_eq_true ?_
  rintro rfl
  exact absurd (h _ hb) (by decide)

theorem filter_formatNumber (negatedMin value : Int64) :
    (formatNumber negatedMin value).filter (· ≠ 0x20) =
      Numeral.sign value.toInt ++ Numeral.ofInt (magnitude negatedMin value) := by
  have hdigits := filter_digits fun _ => Numeral.isDigit_of_mem_digits
    (n := (magnitude negatedMin value).natAbs)
  rw [formatNumber_eq, List.filter_append, List.filter_reverse, filter_groupDigits,
    List.filter_reverse, List.reverse_reverse, Numeral.ofInt_eq, List.filter_append, filter_sign,
    filter_sign, hdigits]

/-- **Every number but the least is printed in groups.** -/
theorem grouped_formatNumber (negatedMin : Int64) {value : Int64} (h : value ≠ Int64.minValue) :
    Grouped value.toInt (formatNumber negatedMin value) := by
  have hdigits : Numeral.ofInt (magnitude negatedMin value) =
      Numeral.digits value.toInt.natAbs := by
    rw [magnitude_eq negatedMin h]
    exact if_neg (not_lt.mpr (Int.natCast_nonneg _))
  constructor
  · rw [filter_formatNumber, hdigits, ← Numeral.ofInt_eq]
    exact Numeral.canonical_ofInt _
  · obtain ⟨d, ds, hreverse⟩ : ∃ d ds, (Numeral.digits value.toInt.natAbs).reverse = d :: ds :=
      List.exists_cons_of_ne_nil (by simpa using Numeral.digits_ne_nil _)
    refine ⟨Numeral.digits value.toInt.natAbs, _, formatNumber_eq negatedMin value, ?_,
      fun _ => Numeral.isDigit_of_mem_digits⟩
    have hgroups := inGroups_groupDigits d ds
    rw [← hreverse, List.reverse_reverse] at hgroups
    rwa [hdigits]

/-- No `int64_t` that the overflow of `-value` may yield makes the text the least number. -/
theorem not_grouped_minValue (negatedMin : Int64) :
    ¬ Grouped Int64.minValue.toInt (formatNumber negatedMin Int64.minValue) := by
  rintro ⟨hcanonical, -⟩
  rw [filter_formatNumber] at hcanonical
  obtain ⟨ds, hds, -, hdigits, -, hvalue⟩ := hcanonical
  -- the digits are those of a 64-bit integer, and the magnitude of the least number is none
  have hprinted : Numeral.ofInt (magnitude negatedMin Int64.minValue) = ds :=
    List.append_cancel_left hds
  have hmagnitude : magnitude negatedMin Int64.minValue = negatedMin.toInt := rfl
  rw [hmagnitude] at hprinted
  have hmax := negatedMin.toInt_lt
  have hneg : ¬ negatedMin.toInt < 0 := fun hlt => by
    rw [Numeral.ofInt, if_pos hlt] at hprinted
    exact absurd (hdigits 0x2D (hprinted ▸ List.mem_cons_self ..)) (by decide)
  rw [Numeral.ofInt, if_neg hneg] at hprinted
  rw [← hprinted, Numeral.value_digits, Int64.toInt_minValue] at hvalue
  omega

/-- **`FormatNumber` is a faithful grouping for every number but the least**, where the negation
overflows; and it is injective on the others. -/
theorem formatNumber_grouped_iff (negatedMin value : Int64) :
    (Negates value ∧ Grouped value.toInt (formatNumber negatedMin value) ↔
      value ≠ Int64.minValue) ∧
    ∀ other, value ≠ Int64.minValue → other ≠ Int64.minValue →
      formatNumber negatedMin value = formatNumber negatedMin other → value = other := by
  constructor
  · rw [negates_iff]
    exact ⟨And.left, fun h => ⟨h, grouped_formatNumber negatedMin h⟩⟩
  · intro other hvalue hother hsame
    have hgrouped := grouped_formatNumber negatedMin hvalue
    rw [hsame] at hgrouped
    exact Int64.toInt_inj.mp
      (hgrouped.1.unique (grouped_formatNumber negatedMin hother).1)

example : formatNumber 0 (-1234567) = utf8 "-1 234 567" := by decide +kernel

/-- The least number overflows; where the negation wraps around, two signs are printed. -/
theorem formatNumber_minValue :
    ¬ Negates Int64.minValue ∧
    formatNumber Int64.minValue Int64.minValue = utf8 "--9 223 372 036 854 775 808" ∧
    ¬ Grouped Int64.minValue.toInt (formatNumber Int64.minValue Int64.minValue) :=
  ⟨fun h => (negates_iff _).mp h rfl, by decide +kernel, not_grouped_minValue _⟩

end Web
end HabrDigest
