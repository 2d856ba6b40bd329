import HabrDigest.Lib.Calendar
import HabrDigest.Notifier.FileNames
import HabrDigest.Pipeline.DigestScores

/-!
# The archive is in order

The notifier names the file of a digest after its id, which is the time stamp of the tick that made
it.  Whoever lists the output directory gets the names in the order of their bytes, and hopes that
this is the order of the digests.  It is, for the years of four digits (`digests_sorted`): a later
second has a later date (`fields_gmtime_lt`, by the calendar), the fields of the date are padded and
stand from the largest to the smallest, and what stands between them is the same in every name.
-/

namespace HabrDigest
namespace Common

/-! ## Seconds and dates -/

/-- The fields of a calendar date and a time of day, from the largest to the smallest. -/
def Utc.fields (utc : Utc) : List ℤ :=
  [utc.year, utc.month, utc.day, utc.hour, utc.minute, utc.second]

/-- The day of a second, from the beginning of the eras. -/
def dayOf (seconds : ℤ) : ℤ := seconds / 86400 + 719468

/-- The day of a second, from the beginning of its era. -/
def dayOfEra (seconds : ℤ) : ℕ := (dayOf seconds % 146097).toNat

theorem dayOfEra_lt (seconds : ℤ) : dayOfEra seconds < 146097 := by
  unfold dayOfEra
  omega

/-- `gmtime` is the calendar of `Lib.Calendar`. -/
theorem gmtime_eq (seconds : ℤ) :
    let time := (seconds % 86400).toNat
    let fromMarch := Calendar.monthFromMarch (Calendar.dayOfYear (dayOfEra seconds))
    let month := if fromMarch < 10 then fromMarch + 3 else fromMarch - 9
    gmtime seconds =
      { year := dayOf seconds / 146097 * 400 + Calendar.yearOfEra (dayOfEra seconds) +
          (if month ≤ 2 then 1 else 0)
        month := month
        day := Calendar.dayOfMonth (Calendar.dayOfYear (dayOfEra seconds))
        hour := time / 3600
        minute := time / 60 % 60
        second := time % 60 } := rfl

/-- The months of the dates are counted as the calendar counts them. -/
theorem gmtime_month (seconds : ℤ) :
    (gmtime seconds).year * 12 + (gmtime seconds).month =
      Calendar.monthCount (dayOf seconds) + 1 ∧
    1 ≤ (gmtime seconds).month ∧ (gmtime seconds).month ≤ 12 := by
  have hmonth := Calendar.monthFromMarch_lt_twelve
    (Calendar.dayOfYear_spec (dayOfEra_lt seconds)).2
  have hcount : Calendar.monthCount (dayOf seconds) =
      (dayOf seconds / 146097 * 400 + Calendar.yearOfEra (dayOfEra seconds)) * 12 +
        Calendar.monthFromMarch (Calendar.dayOfYear (dayOfEra seconds)) + 2 := rfl
  rw [hcount, gmtime_eq]
  dsimp only
  generalize Calendar.monthFromMarch (Calendar.dayOfYear (dayOfEra seconds)) = fromMarch at *
  split_ifs <;> omega

/-- **A later second has a later date.** -/
theorem fields_gmtime_lt {s t : ℤ} (hlt : s < t) : (gmtime s).fields < (gmtime t).fields := by
  obtain ⟨hs, hs₁, hs₁₂⟩ := gmtime_month s
  obtain ⟨ht, ht₁, ht₁₂⟩ := gmtime_month t
  have hday : ∀ seconds, (gmtime seconds).day =
      Calendar.dayOfMonth (Calendar.dayOfYear (dayOfEra seconds)) := fun _ => rfl
  simp only [Utc.fields, List.cons_lt_cons_iff]
  rcases (show dayOf s < dayOf t ∨ dayOf s = dayOf t by unfold dayOf; omega) with hearlier | hsame
  · rcases Calendar.date_lt hearlier with hmonth | ⟨hmonth, hdate⟩
    · rw [← Int.add_lt_add_iff_right (c := 1), ← hs, ← ht] at hmonth
      omega
    · have hdate : (gmtime s).day < (gmtime t).day := hdate
      omega
  · -- the same date: the time of day decides
    have hera : dayOfEra s = dayOfEra t := by rw [dayOfEra, dayOfEra, hsame]
    have hdate : (gmtime s).day = (gmtime t).day := by rw [hday, hday, hera]
    rw [hsame] at hs
    have htime : ∀ seconds : ℤ, (gmtime seconds).hour = (seconds % 86400).toNat / 3600 ∧
      (gmtime seconds).minute = (seconds % 86400).toNat / 60 % 60 ∧
      (gmtime seconds).second = (seconds % 86400).toNat % 60 := fun _ => ⟨rfl, rfl, rfl⟩
    obtain ⟨hhour, hminute, hsecond⟩ := htime s
    obtain ⟨hhour', hminute', hsecond'⟩ := htime t
    have hyear : (gmtime s).year = (gmtime t).year := by omega
    have hmonth : (gmtime s).month = (gmtime t).month := by omega
    have hrest : (s % 86400).toNat < (t % 86400).toNat := by
      unfold dayOf at hsame
      omega
    rw [hyear, hmonth, hdate, hhour, hminute, hsecond, hhour', hminute', hsecond']
    generalize (s % 86400).toNat = m at hrest ⊢
    generalize (t % 86400).toNat = n at hrest ⊢
    simp only [lt_self_iff_false, false_or, true_and, Nat.cast_lt, Nat.cast_inj]
    omega

/-! ## Texts -/

/-- The fields of a time stamp, from the largest to the smallest. -/
def Stamp.fields (s : Stamp) : List Bytes :=
  [s.year, s.month.1, s.day.1, s.hour.1, s.minute.1, s.second.1]

/-- A field behind its separator. -/
theorem field_lt_field_iff (separator : UInt8) (f g : TwoDigits) (u v : Bytes) :
    separator :: f.1 ++ u < separator :: g.1 ++ v ↔ f.1 < g.1 ∨ f.1 = g.1 ∧ u < v := by
  have hlength : f.1.length = g.1.length := f.2.1.trans g.2.1.symm
  rw [List.cons_append, List.cons_append, List.cons_lt_cons_iff,
    Numeral.append_lt_append_iff hlength]
  simp

/-- **Time stamps are ordered as their fields**, whatever stands between the hour, the minute and
the second, if their years are of one length. -/
theorem Stamp.text_lt_text_iff (colon : UInt8) {s t : Stamp}
    (h : s.year.length = t.year.length) : s.text colon < t.text colon ↔ s.fields < t.fields := by
  have hlast : ¬ [(0x5A : UInt8)] < [0x5A] := lt_irrefl _
  unfold text fields
  rw [Numeral.append_lt_append_iff h]
  simp only [List.cons_lt_cons_iff, field_lt_field_iff, hlast, and_false, or_false,
    List.not_lt_nil]

/-- The time stamp of a second. -/
def stampOf (now : ℤ) : Stamp where
  year := Numeral.ofInt (gmtime now).year
  month := twoDigits (gmtime_lt now).1
  day := twoDigits (gmtime_lt now).2.1
  hour := twoDigits (gmtime_lt now).2.2.1
  minute := twoDigits (gmtime_lt now).2.2.2.1
  second := twoDigits (gmtime_lt now).2.2.2.2
  isYear b hb := by
    unfold Numeral.ofInt at hb
    split at hb
    · exact (List.mem_cons.mp hb).symm.imp_left Numeral.isDigit_of_mem_digits
    · exact Or.inl (Numeral.isDigit_of_mem_digits hb)

theorem text_stampOf (now : ℤ) : (stampOf now).text 0x3A = nowIso8601Utc now := by
  have hdash : utf8 "-" = [0x2D] := rfl
  have ht : utf8 "T" = [0x54] := rfl
  have hcolon : utf8 ":" = [0x3A] := rfl
  have hz : utf8 "Z" = [0x5A] := rfl
  unfold nowIso8601Utc putTime Stamp.text stampOf twoDigits
  simp only [hdash, ht, hcolon, hz, List.append_assoc, List.cons_append, List.nil_append]

/-- The year of a second has four digits. -/
def FourDigitYear (now : ℤ) : Prop := 1000 ≤ (gmtime now).year ∧ (gmtime now).year < 10000

instance (now : ℤ) : Decidable (FourDigitYear now) := inferInstanceAs (Decidable (_ ∧ _))

/-- A year of four digits. -/
theorem FourDigitYear.year {now : ℤ} (h : FourDigitYear now) :
    ∃ n : ℕ, (gmtime now).year = n ∧ (stampOf now).year = Numeral.padded 4 n ∧ n < 10 ^ 4 ∧
      (stampOf now).year.length = 4 := by
  obtain ⟨hle, hlt⟩ := h
  obtain ⟨n, hn⟩ := Int.eq_ofNat_of_zero_le (le_trans (by decide) hle)
  rw [hn] at hle hlt
  have hdigits : (stampOf now).year = Numeral.digits n := by
    show Numeral.ofInt (gmtime now).year = _
    rw [hn, Numeral.ofInt, if_neg (not_lt.mpr (Int.natCast_nonneg n)), Int.natAbs_natCast]
  have hbound : n < 10 ^ 4 := by exact_mod_cast hlt
  -- a thousand takes four digits
  have hlength : (Numeral.digits n).length = 4 := by
    refine le_antisymm (Numeral.length_digits_le (by decide) hbound) ?_
    have hvalue := Numeral.value_lt (s := Numeral.digits n) fun _ => Numeral.isDigit_of_mem_digits
    rw [Numeral.value_digits] at hvalue
    by_contra hshort
    have hpow : 10 ^ (Numeral.digits n).length ≤ 10 ^ 3 :=
      Nat.pow_le_pow_right (by decide) (by omega)
    have hthousand : 1000 ≤ n := by exact_mod_cast hle
    omega
  refine ⟨n, hn, ?_, hbound, hdigits ▸ hlength⟩
  rw [hdigits, Numeral.padded, hlength]
  rfl

/-- The fields of a time stamp are ordered as those of the date. -/
theorem fields_stampOf_lt_iff {s t : ℤ} (hs : FourDigitYear s) (ht : FourDigitYear t) :
    (stampOf s).fields < (stampOf t).fields ↔ (gmtime s).fields < (gmtime t).fields := by
  obtain ⟨m, hm, hmyear, hmlt, -⟩ := hs.year
  obtain ⟨n, hn, hnyear, hnlt, -⟩ := ht.year
  have hlt : ∀ {width m n : ℕ}, 0 < width → m < 10 ^ width → n < 10 ^ width →
      (Numeral.padded width m < Numeral.padded width n ↔ m < n) := Numeral.padded_lt_padded_iff
  have heq : ∀ {width m n : ℕ}, Numeral.padded width m = Numeral.padded width n ↔ m = n :=
    ⟨fun h => by simpa [Numeral.value_padded] using congrArg Numeral.value h, fun h => h ▸ rfl⟩
  obtain ⟨hs₁, hs₂, hs₃, hs₄, hs₅⟩ := gmtime_lt s
  obtain ⟨ht₁, ht₂, ht₃, ht₄, ht₅⟩ := gmtime_lt t
  unfold Stamp.fields Utc.fields
  rw [hmyear, hnyear, hm, hn]
  simp only [List.cons_lt_cons_iff, stampOf, twoDigits, heq, Nat.cast_lt, Nat.cast_inj,
    List.not_lt_nil]
  rw [hlt (by decide) hmlt hnlt, hlt (by decide) hs₁ ht₁, hlt (by decide) hs₂ ht₂,
    hlt (by decide) hs₃ ht₃, hlt (by decide) hs₄ ht₄, hlt (by decide) hs₅ ht₅]

/-- **Time stamps are ordered as the seconds**, whatever stands between the hour, the minute and the
second. -/
theorem text_stampOf_lt_iff (colon : UInt8) {s t : ℤ} (hs : FourDigitYear s)
    (ht : FourDigitYear t) : (stampOf s).text colon < (stampOf t).text colon ↔ s < t := by
  obtain ⟨-, -, -, -, hlength⟩ := hs.year
  obtain ⟨-, -, -, -, hlength'⟩ := ht.year
  rw [Stamp.text_lt_text_iff colon (hlength.trans hlength'.symm), fields_stampOf_lt_iff hs ht]
  have hmono : StrictMono fun seconds => (gmtime seconds).fields := fun _ _ => fields_gmtime_lt
  exact hmono.lt_iff_lt

end Common
namespace Notifier

open Common

/-! ## The archive -/

/-- **The names of the archive are ordered as the seconds of the ticks.** -/
theorem archiveName_lt_iff {s t : ℤ} (hs : FourDigitYear s) (ht : FourDigitYear t) :
    archiveName (nowIso8601Utc s) < archiveName (nowIso8601Utc t) ↔ s < t := by
  have hlength : ((stampOf s).text 0x2D).length = ((stampOf t).text 0x2D).length := by
    obtain ⟨-, -, -, -, hyear⟩ := hs.year
    obtain ⟨-, -, -, -, hyear'⟩ := ht.year
    have htext : ∀ stamp : Stamp, (stamp.text 0x2D).length = stamp.year.length + 16 := by
      intro stamp
      simp [Stamp.text, stamp.month.2.1, stamp.day.2.1, stamp.hour.2.1, stamp.minute.2.1,
        stamp.second.2.1]
    rw [htext, htext, hyear, hyear']
  unfold archiveName
  rw [← text_stampOf, ← text_stampOf, toFileNameToken_text, toFileNameToken_text,
    List.append_assoc, List.append_assoc, Numeral.append_lt_append_iff rfl,
    Numeral.append_lt_append_iff hlength, text_stampOf_lt_iff _ hs ht]
  simp only [lt_irrefl, and_false, or_false, false_or, true_and]

end Notifier
namespace Pipeline

open Messaging Common Storage Notifier

/-- **The archive is in order**: of two digests that ticks have handed over, the one with the
earlier time stamp has the name that comes first, and they have one name only if they are of one
second. -/
theorem digests_sorted {n : Nlohmann} {r : Rounding} {config : Storage.Config}
    {c c' : Circumstances} {t t' : Table} {digest digest' : DigestReadyMessage}
    {payload payload' : Bytes} (h : publishDigest n r config c t = .handed digest payload)
    (h' : publishDigest n r config c' t' = .handed digest' payload')
    (hyear : FourDigitYear c.stampedAt) (hyear' : FourDigitYear c'.stampedAt) :
    (archiveName digest.digestId < archiveName digest'.digestId ↔ c.stampedAt < c'.stampedAt) ∧
    (archiveName digest.digestId = archiveName digest'.digestId ↔
      c.stampedAt = c'.stampedAt) := by
  have hid : digest.digestId = nowIso8601Utc c.stampedAt := by rw [(publishDigest_handed h).1]; rfl
  have hid' : digest'.digestId = nowIso8601Utc c'.stampedAt := by
    rw [(publishDigest_handed h').1]; rfl
  have hlt := archiveName_lt_iff hyear hyear'
  have hgt := archiveName_lt_iff hyear' hyear
  rw [hid, hid']
  refine ⟨hlt, fun heq => ?_, fun heq => by rw [heq]⟩
  rw [heq] at hlt hgt
  exact le_antisymm (not_lt.mp fun h => lt_irrefl _ (hgt.mpr h))
    (not_lt.mp fun h => lt_irrefl _ (hlt.mpr h))

/-- The votes are the score. -/
def byVotes : Storage.Config := { weights := ⟨.finite 1, .finite 0, .finite 0, .finite 0⟩ }

/-- Two ticks, two minutes apart. -/
theorem digests_sorted_twoTicks :
    ∃ digest digest' payload payload',
      publishDigest .reference .exact byVotes ⟨0, 1709208000, 7, true⟩ oneVote =
        .handed digest payload ∧
      publishDigest .reference .exact byVotes ⟨0, 1709208120, 8, true⟩ oneVote =
        .handed digest' payload' ∧
      (archiveName digest.digestId < archiveName digest'.digestId ↔
        (1709208000 : ℤ) < 1709208120) ∧
      (archiveName digest.digestId = archiveName digest'.digestId ↔
        (1709208000 : ℤ) = 1709208120) := by
  have hround : ∀ c ∈ [(⟨0, 1709208000, 7, true⟩ : Circumstances), ⟨0, 1709208120, 8, true⟩],
      roundTrips .reference (publishDigest .reference .exact byVotes c oneVote) = some true := by
    decide +kernel
  obtain ⟨digest, payload, h, -⟩ := decodes_of_roundTrips (hround _ List.mem_cons_self)
  obtain ⟨digest', payload', h', -⟩ :=
    decodes_of_roundTrips (hround _ (List.mem_cons_of_mem _ List.mem_cons_self))
  exact ⟨digest, digest', payload, payload', h, h',
    digests_sorted h h' (by decide) (by decide)⟩

end Pipeline
end HabrDigest
