import HabrDigest.Lib.Numeral

/-!
# Time stamps and trace ids

`shared/cpp/common/src/time_util.cpp`.  The clock and the random generator are inputs:
`NowIso8601Utc` is a function of the second, and `GenerateTraceId` of the number drawn.
`gmtime_r` is the proleptic Gregorian calendar, counted in eras of 400 years from
1 March of year 0, which is why the year ends with February.

Both texts are ASCII, which is what makes them safe to put into a message.  `IsTimestamp` is the
form `%Y-%m-%dT%H:%M:%SZ` that every time stamp has, for any year (`isTimestamp_nowIso8601Utc`).
-/

namespace HabrDigest
namespace Common

/-- A calendar date and time of day, as `gmtime_r` fills it in. -/
structure Utc where
  year : ℤ
  month : ℕ
  day : ℕ
  hour : ℕ
  minute : ℕ
  second : ℕ
  deriving DecidableEq, Repr

/-- `gmtime_r`. -/
def gmtime (seconds : ℤ) : Utc :=
  let days := seconds / 86400 + 719468
  let time := (seconds % 86400).toNat
  let era := days / 146097
  let dayOfEra := (days % 146097).toNat
  let yearOfEra :=
    (dayOfEra - dayOfEra / 1460 + dayOfEra / 36524 - dayOfEra / 146096) / 365
  let dayOfYear := dayOfEra - (365 * yearOfEra + yearOfEra / 4 - yearOfEra / 100)
  let monthFromMarch := (5 * dayOfYear + 2) / 153
  let month := if monthFromMarch < 10 then monthFromMarch + 3 else monthFromMarch - 9
  { year := era * 400 + yearOfEra + (if month ≤ 2 then 1 else 0)
    month := month
    day := dayOfYear - (153 * monthFromMarch + 2) / 5 + 1
    hour := time / 3600
    minute := time / 60 % 60
    second := time % 60 }

/-- `std::put_time` with `%Y-%m-%dT%H:%M:%SZ`. -/
def putTime (utc : Utc) : Bytes :=
  Numeral.ofInt utc.year ++ utf8 "-" ++ Numeral.padded 2 utc.month ++ utf8 "-" ++
    Numeral.padded 2 utc.day ++ utf8 "T" ++ Numeral.padded 2 utc.hour ++ utf8 ":" ++
    Numeral.padded 2 utc.minute ++ utf8 ":" ++ Numeral.padded 2 utc.second ++ utf8 "Z"

/-- `NowIso8601Utc`, at a second. -/
def nowIso8601Utc (now : ℤ) : Bytes := putTime (gmtime now)

/-- `GenerateTraceId`, with the number drawn. -/
def generateTraceId (drawn : UInt32) : Bytes := Numeral.hexPadded 8 drawn.toNat

theorem valid_padded (width n : ℕ) : Utf8.Valid (Numeral.padded width n) :=
  Utf8.valid_of_ascii fun _ hb => Numeral.lt_of_isDigit (Numeral.isDigit_of_mem_padded hb)

theorem valid_ofInt (i : ℤ) : Utf8.Valid (Numeral.ofInt i) := by
  refine Utf8.valid_of_ascii fun b hb => ?_
  unfold Numeral.ofInt at hb
  split at hb
  · rcases List.mem_cons.mp hb with rfl | hb
    · decide
    · exact Numeral.lt_of_isDigit (Numeral.isDigit_of_mem_digits hb)
  · exact Numeral.lt_of_isDigit (Numeral.isDigit_of_mem_digits hb)

/-- A time stamp is text. -/
theorem valid_nowIso8601Utc (now : ℤ) : Utf8.Valid (nowIso8601Utc now) := by
  have hsep : ∀ s ∈ [utf8 "-", utf8 "T", utf8 ":", utf8 "Z"], Utf8.Valid s := by decide
  simp only [List.forall_mem_cons] at hsep
  obtain ⟨hdash, ht, hcolon, hz, -⟩ := hsep
  unfold nowIso8601Utc putTime
  exact ((((((((((valid_ofInt _).append hdash).append (valid_padded _ _)).append hdash).append
    (valid_padded _ _)).append ht).append (valid_padded _ _)).append hcolon).append
    (valid_padded _ _)).append hcolon).append (valid_padded _ _) |>.append hz

/-- A trace id is text. -/
theorem valid_generateTraceId (drawn : UInt32) : Utf8.Valid (generateTraceId drawn) :=
  Utf8.valid_of_ascii fun _ hb => Numeral.lt_of_mem_hexPadded hb

/-! ## The form of a time stamp -/

/-- Two decimal digits. -/
abbrev TwoDigits := {s : Bytes // s.length = 2 ∧ ∀ b ∈ s, Numeral.isDigit b = true}

/-- The fields of `%Y-%m-%dT%H:%M:%SZ`.  The year is a number of any length. -/
@[ext]
structure Stamp where
  year : Bytes
  month : TwoDigits
  day : TwoDigits
  hour : TwoDigits
  minute : TwoDigits
  second : TwoDigits
  isYear : ∀ b ∈ year, Numeral.isDigit b = true ∨ b = 0x2D

/-- The fields as a text, with what stands between the hour, the minute and the second. -/
def Stamp.text (colon : UInt8) (s : Stamp) : Bytes :=
  s.year ++ (0x2D :: s.month.1 ++ (0x2D :: s.day.1 ++ (0x54 :: s.hour.1 ++
    (colon :: s.minute.1 ++ (colon :: s.second.1 ++ [0x5A])))))

/-- A text of the form `%Y-%m-%dT%H:%M:%SZ`. -/
def IsTimestamp (s : Bytes) : Prop := ∃ stamp : Stamp, s = stamp.text 0x3A

/-- **A time stamp is read off its text**, whatever stands between the hour, the minute and the
second: the fields behind the year have fixed places from the end. -/
theorem Stamp.text_injective (colon : UInt8) {s t : Stamp} (h : s.text colon = t.text colon) :
    s = t := by
  have hlength : ∀ f g : TwoDigits, f.1.length = g.1.length := fun f g =>
    f.2.1.trans g.2.1.symm
  unfold text at h
  obtain ⟨hyear, h⟩ := List.append_inj' h (by simp [s.month.2.1, s.day.2.1, s.hour.2.1,
    s.minute.2.1, s.second.2.1, t.month.2.1, t.day.2.1, t.hour.2.1, t.minute.2.1, t.second.2.1])
  obtain ⟨hmonth, h⟩ := List.append_inj h (congrArg Nat.succ (hlength _ _))
  obtain ⟨hday, h⟩ := List.append_inj h (congrArg Nat.succ (hlength _ _))
  obtain ⟨hhour, h⟩ := List.append_inj h (congrArg Nat.succ (hlength _ _))
  obtain ⟨hminute, h⟩ := List.append_inj h (congrArg Nat.succ (hlength _ _))
  obtain ⟨hsecond, -⟩ := List.append_inj h (congrArg Nat.succ (hlength _ _))
  have hfield : ∀ {b : UInt8} {f g : TwoDigits}, b :: f.1 = b :: g.1 → f = g := fun heq =>
    Subtype.ext (List.cons.inj heq).2
  exact Stamp.ext hyear (hfield hmonth) (hfield hday) (hfield hhour) (hfield hminute)
    (hfield hsecond)

/-- A field below 100 is two digits. -/
def twoDigits {n : ℕ} (h : n < 100) : TwoDigits :=
  ⟨Numeral.padded 2 n, Numeral.length_padded (Numeral.length_digits_le (by decide) h),
    fun _ => Numeral.isDigit_of_mem_padded⟩

/-- The day of a month is small, whatever the day of the year is. -/
theorem dayOfMonth_lt (dayOfYear : ℕ) :
    dayOfYear - (153 * ((5 * dayOfYear + 2) / 153) + 2) / 5 + 1 < 100 := by
  omega

/-- The month is small, for a day of an era. -/
theorem monthFromMarch_lt {dayOfEra : ℕ} (h : dayOfEra < 146097) {yearOfEra : ℕ}
    (hyear : yearOfEra =
      (dayOfEra - dayOfEra / 1460 + dayOfEra / 36524 - dayOfEra / 146096) / 365) :
    (5 * (dayOfEra - (365 * yearOfEra + yearOfEra / 4 - yearOfEra / 100)) + 2) / 153 < 97 := by
  have hdays : dayOfEra ≤ 365 * yearOfEra + 365 + dayOfEra / 1460 := by omega
  have hleap : yearOfEra / 100 ≤ yearOfEra / 4 := by omega
  omega

/-- Every field of a calendar date has at most two digits. -/
theorem gmtime_lt (seconds : ℤ) :
    (gmtime seconds).month < 100 ∧ (gmtime seconds).day < 100 ∧ (gmtime seconds).hour < 100 ∧
      (gmtime seconds).minute < 100 ∧ (gmtime seconds).second < 100 := by
  have hera : ((seconds / 86400 + 719468) % 146097).toNat < 146097 := by omega
  have hmonth := monthFromMarch_lt hera rfl
  unfold gmtime
  dsimp only
  refine ⟨?_, dayOfMonth_lt _, ?_, ?_, ?_⟩
  · split <;> omega
  · omega
  · omega
  · omega

/-- **What `NowIso8601Utc` emits has the form of a time stamp.** -/
theorem isTimestamp_nowIso8601Utc (now : ℤ) : IsTimestamp (nowIso8601Utc now) := by
  obtain ⟨hmonth, hday, hhour, hminute, hsecond⟩ := gmtime_lt now
  have hyear : ∀ b ∈ Numeral.ofInt (gmtime now).year, Numeral.isDigit b = true ∨ b = 0x2D := by
    intro b hb
    unfold Numeral.ofInt at hb
    split at hb
    · exact (List.mem_cons.mp hb).symm.imp_left Numeral.isDigit_of_mem_digits
    · exact Or.inl (Numeral.isDigit_of_mem_digits hb)
  refine ⟨⟨Numeral.ofInt (gmtime now).year, twoDigits hmonth, twoDigits hday, twoDigits hhour,
    twoDigits hminute, twoDigits hsecond, hyear⟩, ?_⟩
  have hdash : utf8 "-" = [0x2D] := rfl
  have ht : utf8 "T" = [0x54] := rfl
  have hcolon : utf8 ":" = [0x3A] := rfl
  have hz : utf8 "Z" = [0x5A] := rfl
  unfold nowIso8601Utc putTime Stamp.text twoDigits
  simp only [hdash, ht, hcolon, hz, List.append_assoc, List.cons_append, List.nil_append]

example : nowIso8601Utc 1709208000 = utf8 "2024-02-29T12:00:00Z" := by decide
example : generateTraceId 0x00c0ffee = utf8 "00c0ffee" := by decide

end Common
end HabrDigest
