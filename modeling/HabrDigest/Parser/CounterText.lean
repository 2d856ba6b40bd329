import HabrDigest.Parser.Counters

/-!
# The grammar of counters

`CounterText` is the grammar of the counters that are meant: a sign, digits in groups, a
fraction, a suffix, and whatever stands around them.  Everything in it that is not sign,
digit, point or suffix is a `Decoration`, and so are the separators between the groups.

`ParseCount` works on bytes, and the letters of the page are Cyrillic, two bytes each.  Two
things keep it from taking a part of one for a part of a counter.  Digits, signs and points
are ASCII, and no byte of a longer character is.  And the byte `0xD0` that begins a Cyrillic
suffix begins a character wherever it stands in a text, so it never stands at the end of
one: the scan of a text followed by anything is the scan of the text followed by the scan of
the rest (`suffixes_append`).

`parseCount_counterText` has both halves of what follows: every counter of the grammar is
read as its number, and decoration put anywhere between two characters changes nothing.
-/

namespace HabrDigest
namespace Parser

open Strto (Decimal)

/-! ## Decoration -/

/-- Text in which nothing is read: no digit, sign or point, and no suffix. -/
structure Decoration (d : Bytes) : Prop where
  valid : Utf8.Valid d
  noDigit : ∀ b ∈ d, Numeral.isDigit b = false
  noLetter : ∀ b ∈ d, b ∉ utf8 "-.,KkMm"
  /-- Nor the Cyrillic capital letters Ka and Em. -/
  noKa : ¬ utf8 "К" <:+: d
  noEm : ¬ utf8 "М" <:+: d

theorem kept_append (s t : Bytes) : kept (s ++ t) = kept s ++ kept t := List.filterMap_append ..

/-- A text does not end in the middle of a Cyrillic letter. -/
theorem getLast?_ne_of_valid {s : Bytes} (h : Utf8.Valid s) : s.getLast? ≠ some 0xD0 := by
  intro hlast
  obtain ⟨t, rfl⟩ := List.getLast?_eq_some_iff.mp hlast
  have ht : Utf8.Valid t := h.of_append_lead (by decide)
  exact absurd (h.of_append_left ht) (by decide)

/-- The suffix at a byte is decided within a text that does not end in `0xD0`. -/
theorem suffixAt_append {b : UInt8} {s : Bytes} (h : (b :: s).getLast? ≠ some 0xD0) (t : Bytes) :
    suffixAt b (s ++ t) = suffixAt b s := by
  cases s with
  | nil =>
    have hb : b ≠ 0xD0 := fun hb => h (by rw [hb]; rfl)
    simp [suffixAt, hb]
  | cons c s => rfl

/-- **The scan of a text and of what follows it.** -/
theorem suffixes_append_of_getLast {s : Bytes} (h : s.getLast? ≠ some 0xD0) (t : Bytes) :
    suffixes (s ++ t) = suffixes s ++ suffixes t := by
  induction s with
  | nil => rfl
  | cons b s ih =>
    have hs : s.getLast? ≠ some 0xD0 := by
      cases s with
      | nil => simp
      | cons c s => rwa [List.getLast?_cons_cons] at h
    rw [List.cons_append, suffixes, suffixes, suffixAt_append h, ih hs, List.append_assoc]

theorem suffixes_append {s : Bytes} (h : Utf8.Valid s) (t : Bytes) :
    suffixes (s ++ t) = suffixes s ++ suffixes t :=
  suffixes_append_of_getLast (getLast?_ne_of_valid h) t

namespace Decoration

variable {d : Bytes}

theorem kept (h : Decoration d) : kept d = [] := by
  refine List.filterMap_eq_nil_iff.mpr fun b hb => ?_
  have hletter := h.noLetter b hb
  have hne : ∀ c ∈ utf8 "-.,KkMm", b ≠ c := fun c hc hbc => hletter (hbc ▸ hc)
  simp [keptByte, h.noDigit b hb, hne 0x2D (by decide), hne 0x2E (by decide),
    hne 0x2C (by decide)]

/-- No suffix begins anywhere in it. -/
theorem suffixes (h : Decoration d) : suffixes d = [] := by
  have hsuffix : ∀ s : Bytes, s <:+ d → Parser.suffixes s = [] := by
    intro s hs
    induction s with
    | nil => rfl
    | cons b s ih =>
      have hletter := h.noLetter b (hs.subset (List.mem_cons_self ..))
      have hne : ∀ c ∈ utf8 "-.,KkMm", b ≠ c := fun c hc hbc => hletter (hbc ▸ hc)
      have hpair : ∀ c, ¬ [0xD0, c] <:+: d → (b :: s).take 2 ≠ [0xD0, c] := fun c hc htake =>
        hc ((htake ▸ List.take_prefix 2 (b :: s)).isInfix.trans hs.isInfix)
      have hnone : suffixAt b s = none := by
        rw [suffixAt, if_neg, if_neg]
        · rintro (hb | hb | hb)
          · exact hne 0x4D (by decide) hb
          · exact hne 0x6D (by decide) hb
          · exact hpair 0x9C h.noEm hb
        · rintro (hb | hb | hb)
          · exact hne 0x4B (by decide) hb
          · exact hne 0x6B (by decide) hb
          · exact hpair 0x9A h.noKa hb
      rw [Parser.suffixes, hnone, ih ((List.suffix_cons b s).trans hs)]
      rfl
  exact hsuffix d List.suffix_rfl

end Decoration

/-- The result depends on the text through what the scan finds. -/
theorem parseCount_congr (r : Rounding) {raw raw' : Bytes} (hkept : kept raw = kept raw')
    (hsuffixes : suffixes raw = suffixes raw') : parseCount r raw = parseCount r raw' := by
  rw [parseCount_eq, parseCount_eq, castInput_eq, castInput_eq, numberIn, numberIn, power, power,
    hkept, hsuffixes]

/-- **Decoration changes nothing**, wherever it stands behind a text. -/
theorem parseCount_insert (r : Rounding) {s t d : Bytes} (hs : Utf8.Valid s) (hd : Decoration d) :
    parseCount r (s ++ d ++ t) = parseCount r (s ++ t) := by
  refine parseCount_congr r ?_ ?_
  · rw [kept_append, kept_append, kept_append, hd.kept, List.append_nil]
  · rw [suffixes_append (hs.append hd.valid), suffixes_append hs, suffixes_append hs, hd.suffixes,
      List.append_nil]

/-! ## The grammar -/

/-- A sign, or none. -/
inductive CounterSign where
  | none
  | plus
  | minus
  deriving DecidableEq, Repr

/-- How it is written. -/
def CounterSign.text : CounterSign → Bytes
  | none => []
  | plus => utf8 "+"
  | minus => utf8 "-"

/-- A suffix, or none. -/
inductive CounterSuffix where
  | none
  | K
  | k
  /-- The Cyrillic capital letter Ka. -/
  | ka
  | M
  | m
  /-- The Cyrillic capital letter Em. -/
  | em
  deriving DecidableEq, Repr

namespace CounterSuffix

/-- How it is written. -/
def text : CounterSuffix → Bytes
  | none => []
  | K => utf8 "K"
  | k => utf8 "k"
  | ka => utf8 "К"
  | M => utf8 "M"
  | m => utf8 "m"
  | em => utf8 "М"

/-- The power of ten it stands for. -/
def exponent : CounterSuffix → ℕ
  | none => 0
  | K | k | ka => 3
  | M | m | em => 6

end CounterSuffix

/-- A space, U+00A0, or U+202F. -/
def IsSeparator (s : Bytes) : Prop := s ∈ [utf8 " ", [0xC2, 0xA0], [0xE2, 0x80, 0xAF]]

/-- A text of digits with separators between them, and the digits. -/
inductive Grouped : Bytes → Bytes → Prop where
  | last {d : UInt8} : Numeral.isDigit d = true → Grouped [d] [d]
  | digit {d : UInt8} {separators : List Bytes} {text digits : Bytes} :
      Numeral.isDigit d = true → (∀ s ∈ separators, IsSeparator s) → Grouped text digits →
      Grouped (d :: (separators.flatten ++ text)) (d :: digits)

/-- A point or a comma, and digits. -/
structure CounterFraction where
  point : UInt8
  digits : Bytes
  point_eq : point = 0x2E ∨ point = 0x2C
  digits_ne_nil : digits ≠ []
  isDigit : ∀ b ∈ digits, Numeral.isDigit b = true

/-- A well-formed counter. -/
structure CounterText where
  before : Bytes
  sign : CounterSign
  /-- The digits before the point, as they are written, and without the separators. -/
  whole : Bytes
  digits : Bytes
  fraction : Option CounterFraction
  gap : List Bytes
  suffix : CounterSuffix
  behind : Bytes
  decoration_before : Decoration before
  grouped : Grouped whole digits
  isSeparator : ∀ s ∈ gap, IsSeparator s
  decoration_behind : Decoration behind

namespace CounterText

/-- The point and the digits behind it. -/
def fractionText (c : CounterText) : Bytes :=
  match c.fraction with
  | none => []
  | some fraction => fraction.point :: fraction.digits

/-- The digits behind the point. -/
def fractionDigits (c : CounterText) : Bytes :=
  match c.fraction with
  | none => []
  | some fraction => fraction.digits

/-- The counter, written out. -/
def text (c : CounterText) : Bytes :=
  c.before ++ (c.sign.text ++ (c.whole ++ (c.fractionText ++
    (c.gap.flatten ++ (c.suffix.text ++ c.behind)))))

/-- The number it stands for. -/
def value (c : CounterText) : ℚ :=
  (if c.sign = .minus then -1 else 1) *
    ((Numeral.value c.digits : ℚ) +
      (Numeral.value c.fractionDigits : ℚ) / 10 ^ c.fractionDigits.length) *
    10 ^ c.suffix.exponent

end CounterText

/-! ## Scanning a counter -/

/-- A text, with what the scan finds in it. -/
structure Scans (s digits : Bytes) (powers : List ℕ) : Prop where
  valid : Utf8.Valid s
  kept : kept s = digits
  suffixes : suffixes s = powers

theorem Decoration.scans {d : Bytes} (h : Decoration d) : Scans d [] [] :=
  ⟨h.valid, h.kept, h.suffixes⟩

namespace Scans

theorem nil : Scans [] [] [] := ⟨Utf8.valid_nil, rfl, rfl⟩

/-- **Scans are put together as texts are.** -/
theorem append {s t k l : Bytes} {p q : List ℕ} (hs : Scans s k p) (ht : Scans t l q) :
    Scans (s ++ t) (k ++ l) (p ++ q) :=
  ⟨hs.valid.append ht.valid, by rw [kept_append, hs.kept, ht.kept],
    by rw [suffixes_append hs.valid, hs.suffixes, ht.suffixes]⟩

/-- A digit. -/
theorem digit {d : UInt8} (h : Numeral.isDigit d = true) : Scans [d] [d] [] := by
  refine ⟨Utf8.valid_singleton (Numeral.lt_of_isDigit h), ?_, ?_⟩
  · exact List.filterMap_cons_some (by rw [keptByte, if_pos (Or.inl h)])
  · rw [Parser.suffixes, suffixAt_of_kept (Or.inl h)]
    rfl

/-- Digits. -/
theorem digits {ds : Bytes} (h : ∀ b ∈ ds, Numeral.isDigit b = true) : Scans ds ds [] := by
  induction ds with
  | nil => exact nil
  | cons d ds ih =>
    have hd := digit (h d (List.mem_cons_self ..))
    exact hd.append (ih fun b hb => h b (List.mem_cons_of_mem _ hb))

/-- Separators. -/
theorem separators {l : List Bytes} (h : ∀ s ∈ l, IsSeparator s) : Scans l.flatten [] [] := by
  have hone : ∀ s, IsSeparator s → Scans s [] [] := by
    intro s hs
    simp only [IsSeparator, List.mem_cons, List.not_mem_nil, or_false] at hs
    rcases hs with rfl | rfl | rfl <;> exact ⟨by decide, by decide, by decide⟩
  induction l with
  | nil => exact nil
  | cons s l ih =>
    exact (hone s (h s (List.mem_cons_self ..))).append
      (ih fun t ht => h t (List.mem_cons_of_mem _ ht))

/-- Digits with separators between them. -/
theorem grouped {text ds : Bytes} (h : Grouped text ds) : Scans text ds [] := by
  induction h with
  | last hd => exact digit hd
  | digit hd hseparators _ ih => exact (digit hd).append ((separators hseparators).append ih)

end Scans

theorem Grouped.isDigit {text ds : Bytes} (h : Grouped text ds) :
    ∀ b ∈ ds, Numeral.isDigit b = true := by
  induction h with
  | last hd => simpa using hd
  | digit hd _ _ ih => exact List.forall_mem_cons.mpr ⟨hd, ih⟩

theorem Grouped.exists_cons {text ds : Bytes} (h : Grouped text ds) :
    ∃ d t, ds = d :: t ∧ Numeral.isDigit d = true := by
  cases h with
  | last hd => exact ⟨_, _, rfl, hd⟩
  | digit hd _ _ => exact ⟨_, _, rfl, hd⟩

namespace CounterText

/-- What the scan keeps of the sign. -/
def keptSign (c : CounterText) : Bytes := if c.sign = .minus then utf8 "-" else []

/-- What it keeps of the fraction. -/
def keptFraction (c : CounterText) : Bytes :=
  match c.fraction with
  | none => []
  | some fraction => 0x2E :: fraction.digits

/-- The power of ten of the suffix, if there is one. -/
def powers (c : CounterText) : List ℕ :=
  if c.suffix = .none then [] else [c.suffix.exponent]

theorem scans_sign (c : CounterText) : Scans c.sign.text c.keptSign [] := by
  unfold keptSign
  cases c.sign <;> exact ⟨by decide, by decide, by decide⟩

theorem scans_suffix (c : CounterText) : Scans c.suffix.text [] c.powers := by
  unfold powers
  cases c.suffix <;> exact ⟨by decide, by decide, by decide⟩

theorem scans_fraction (c : CounterText) : Scans c.fractionText c.keptFraction [] := by
  unfold fractionText keptFraction
  cases c.fraction with
  | none => exact Scans.nil
  | some fraction =>
    have hpoint : Scans [fraction.point] [0x2E] [] := by
      rcases fraction.point_eq with h | h <;> rw [h] <;> exact ⟨by decide, by decide, by decide⟩
    exact hpoint.append (Scans.digits fraction.isDigit)

/-- **What the scan finds in a counter.** -/
theorem scans (c : CounterText) :
    Scans c.text (c.keptSign ++ (c.digits ++ c.keptFraction)) c.powers := by
  have h := c.decoration_before.scans.append (c.scans_sign.append
    ((Scans.grouped c.grouped).append (c.scans_fraction.append
      ((Scans.separators c.isSeparator).append
        (c.scans_suffix.append c.decoration_behind.scans)))))
  simpa only [List.nil_append, List.append_nil, text] using h

/-- The number that is read. -/
theorem numberIn_text (c : CounterText) :
    numberIn c.text = ⟨decide (c.sign = .minus), c.digits, c.fractionDigits⟩ := by
  have hmantissa : Strto.mantissa Numeral.isDigit (c.digits ++ c.keptFraction) =
      (c.digits, c.fractionDigits, []) := by
    unfold keptFraction fractionDigits
    cases c.fraction with
    | none => rw [List.append_nil, Strto.mantissa_digits c.grouped.isDigit]
    | some fraction => exact Strto.mantissa_point c.grouped.isDigit fraction.isDigit
  have hsign : Strto.sign (c.keptSign ++ (c.digits ++ c.keptFraction)) =
      (decide (c.sign = .minus), c.digits ++ c.keptFraction) := by
    obtain ⟨d, t, hdigits, hd⟩ := c.grouped.exists_cons
    unfold keptSign
    by_cases hminus : c.sign = .minus
    · rw [if_pos hminus, decide_eq_true hminus]
      rfl
    · rw [if_neg hminus, decide_eq_false hminus, List.nil_append, hdigits, List.cons_append,
        Strto.sign_digit hd]
  rw [numberIn, c.scans.kept, Strto.decimal, hsign]
  dsimp only
  rw [hmantissa]

theorem power_text (c : CounterText) : power c.text = c.suffix.exponent := by
  rw [power, c.scans.suffixes, powers]
  cases c.suffix <;> rfl

/-- **The product that is cast is the number the counter stands for.** -/
theorem product_text (c : CounterText) : product c.text = c.value := by
  have hmagnitude : (numberIn c.text).magnitude = (Numeral.value c.digits : ℚ) +
      (Numeral.value c.fractionDigits : ℚ) / 10 ^ c.fractionDigits.length := by
    rw [numberIn_text, Decimal.magnitude, Numeral.value_append]
    push_cast
    field_simp
  rw [product, Decimal.number, hmagnitude, numberIn_text, power_text, value]
  by_cases hminus : c.sign = .minus <;> simp [hminus]

end CounterText

/-- **`ParseCount` reads the whole grammar of counters.**  A counter whose number, without its
fraction, is a 64-bit integer is read as that integer; and decoration put into any text, between
two of its characters, changes nothing. -/
theorem parseCount_counterText :
    (∀ c : CounterText, FitsInt64 (.finite c.value) →
      (parseCount .exact c.text).toInt = Double.truncate c.value) ∧
    ∀ (r : Rounding) (s t d : Bytes), Utf8.Valid s → Utf8.Valid (s ++ t) → Decoration d →
      parseCount r (s ++ d ++ t) = parseCount r (s ++ t) := by
  refine ⟨fun c hfits => ?_, fun r s t d hs _ hd => parseCount_insert r hs hd⟩
  rw [← c.product_text] at hfits ⊢
  exact toInt_parseCount hfits

/-- Views as the page shows them: "Просмотры: +1 204,5K". -/
def shownViews : CounterText where
  before := utf8 "Просмотры: "
  sign := .plus
  whole := utf8 "1 204"
  digits := utf8 "1204"
  fraction := some ⟨0x2C, utf8 "5", Or.inr rfl, by decide, by decide⟩
  gap := []
  suffix := .K
  behind := []
  decoration_before := ⟨by decide, by decide, by decide, by decide, by decide⟩
  grouped :=
    @Grouped.digit _ [utf8 " "] (utf8 "204") _ (by decide) (by simp [IsSeparator])
      (@Grouped.digit _ [] (utf8 "04") _ (by decide) (by simp)
        (@Grouped.digit _ [] (utf8 "4") _ (by decide) (by simp) (.last (by decide))))
  isSeparator := by simp
  decoration_behind := ⟨by decide, by decide, by decide, by decide, by decide⟩

theorem parseCount_counterText_shownViews :
    (parseCount .exact shownViews.text).toInt = 1204500 ∧
      parseCount .exact (utf8 "12" ++ utf8 " тыс" ++ utf8 "5k") =
        parseCount .exact (utf8 "12" ++ utf8 "5k") := by
  have hvalue : shownViews.value = 1204500 := by decide +kernel
  have hfits : FitsInt64 (.finite shownViews.value) := ⟨_, rfl, by rw [hvalue]; decide⟩
  refine ⟨?_, parseCount_counterText.2 _ _ _ _ (by decide) (by decide)
    ⟨by decide, by decide, by decide, by decide, by decide⟩⟩
  rw [parseCount_counterText.1 shownViews hfits, hvalue]
  decide

end Parser
end HabrDigest
