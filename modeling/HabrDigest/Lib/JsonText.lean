import HabrDigest.Lib.Numeral
import HabrDigest.Lib.JsonCodec
import Mathlib.Data.Nat.Cast.Field
import Mathlib.Tactic.FieldSimp
import Mathlib.Tactic.Ring

/-!
# JSON text

`Nlohmann` says what is relied on of a JSON library.  This file shows that there is such
a library, by writing a small one: a printer of compact texts and a reader of what it
prints.  The printer escapes what JSON requires to be escaped and nothing else.  A finite
number is printed as its exact decimal expansion; a rational that has none --- no double
is one --- is printed as a fraction, so that the laws hold of every value of `Json`.

The reader works on fuel, and the length of the text is always enough of it:
`readValue_print` reads a printed value back from the front of any text, where what
follows cannot be taken for more of a number.  It is an induction over the value, with
one such statement for the elements of an array and one for the members of an object.
-/

namespace HabrDigest

namespace JsonText

/-! ## Printing -/

/-- A byte inside a string. -/
def escape (b : UInt8) : Bytes :=
  if b = 0x22 then utf8 "\\\""
  else if b = 0x5C then utf8 "\\\\"
  else if b = 0x08 then utf8 "\\b"
  else if b = 0x0C then utf8 "\\f"
  else if b = 0x0A then utf8 "\\n"
  else if b = 0x0D then utf8 "\\r"
  else if b = 0x09 then utf8 "\\t"
  else if b < 0x20 then
    utf8 "\\u00" ++ [Numeral.hexDigit (b.toNat / 16), Numeral.hexDigit (b.toNat % 16)]
  else [b]

/-- A string without its opening quote. -/
def printChars (s : Bytes) : Bytes := s.flatMap escape ++ [0x22]

/-- The number of decimals a fraction with this denominator needs, at least one. -/
def decimals (den : ℕ) : Option ℕ :=
  ((List.range (den.log2 + 1)).map Nat.succ).find? fun k => 10 ^ k % den == 0

/-- A non-negative rational. -/
def printMagnitude (num den : ℕ) : Bytes :=
  match decimals den with
  | some k =>
    let scaled := num * (10 ^ k / den)
    Numeral.digits (scaled / 10 ^ k) ++ 0x2E :: Numeral.padded k (scaled % 10 ^ k)
  | none => Numeral.digits num ++ 0x2F :: Numeral.digits den

/-- A finite number. -/
def printRat (q : ℚ) : Bytes :=
  if q.num < 0 then 0x2D :: printMagnitude q.num.natAbs q.den
  else printMagnitude q.num.natAbs q.den

mutual

/-- The compact text of a value. -/
def print : Json → Bytes
  | .null => utf8 "null"
  | .boolean b => if b then utf8 "true" else utf8 "false"
  | .integer i => Numeral.ofInt i
  | .float (.finite q) => printRat q
  | .float _ => utf8 "null"
  | .string s => 0x22 :: printChars s
  | .array xs => 0x5B :: printElements [] xs
  | .object ms => 0x7B :: printMembers [] ms

/-- The elements of an array, after its opening bracket: each stands after the separator
that has become due, and the bracket is closed. -/
def printElements (separator : Bytes) : List Json → Bytes
  | [] => [0x5D]
  | x :: xs => separator ++ (print x ++ printElements [0x2C] xs)

/-- The members of an object, after its opening brace. -/
def printMembers (separator : Bytes) : List (Bytes × Json) → Bytes
  | [] => [0x7D]
  | (k, v) :: ms => separator ++
      (0x22 :: printChars k ++ (0x3A :: print v ++ printMembers [0x2C] ms))

end

/-! ## Reading -/

/-- The value of a hexadecimal digit. -/
def hexValue (b : UInt8) : Option ℕ :=
  if 0x30 ≤ b ∧ b ≤ 0x39 then some (b.toNat - 0x30)
  else if 0x61 ≤ b ∧ b ≤ 0x66 then some (b.toNat - 0x57)
  else none

/-- The byte an escape of one letter stands for. -/
def unescape (b : UInt8) : Option UInt8 :=
  if b = 0x22 ∨ b = 0x5C ∨ b = 0x2F then some b
  else if b = 0x62 then some 0x08
  else if b = 0x66 then some 0x0C
  else if b = 0x6E then some 0x0A
  else if b = 0x72 then some 0x0D
  else if b = 0x74 then some 0x09
  else none

/-- A byte read before the rest of a string. -/
def consByte (b : UInt8) (r : Option (Bytes × Bytes)) : Option (Bytes × Bytes) :=
  r.map fun p => (b :: p.1, p.2)

/-- A string, from behind its opening quote. -/
def readChars : Bytes → Option (Bytes × Bytes)
  | [] => none
  | b :: s =>
    if b = 0x22 then some ([], s)
    else if b = 0x5C then
      match s with
      | [] => none
      | e :: s =>
        if e = 0x75 then
          match s with
          | z :: z' :: h :: l :: s =>
            if z = 0x30 ∧ z' = 0x30 then
              (hexValue h).bind fun h => (hexValue l).bind fun l =>
                consByte (UInt8.ofNat (16 * h + l)) (readChars s)
            else none
          | _ => none
        else (unescape e).bind fun c => consByte c (readChars s)
    else if b < 0x20 then none
    else consByte b (readChars s)

/-- The sign of a number, and what follows it. -/
def readSign (s : Bytes) : ℤ × Bytes :=
  match s with
  | b :: t => if b = 0x2D then (-1, t) else (1, s)
  | [] => (1, [])

/-- A number. -/
def readNumber (s : Bytes) : Option (Json × Bytes) :=
  let (sign, s) := readSign s
  let whole := s.takeWhile Numeral.isDigit
  let rest := s.dropWhile Numeral.isDigit
  if whole = [] then none
  else
    match rest with
    | [] => some (.integer (sign * Numeral.value whole), [])
    | b :: t =>
      let part := t.takeWhile Numeral.isDigit
      if b = 0x2E then
        some (.float (.finite (sign *
          ((10 ^ part.length * Numeral.value whole + Numeral.value part : ℕ) : ℚ) /
            (10 ^ part.length : ℕ))), t.dropWhile Numeral.isDigit)
      else if b = 0x2F then
        some (.float (.finite (sign * (Numeral.value whole : ℚ) / Numeral.value part)),
          t.dropWhile Numeral.isDigit)
      else some (.integer (sign * Numeral.value whole), rest)

/-- A word of the language. -/
def readWord (word : Bytes) (j : Json) (s : Bytes) : Option (Json × Bytes) :=
  if word.isPrefixOf s then some (j, s.drop word.length) else none

mutual

/-- A value at the front of a text, and what follows it. -/
def readValue : ℕ → Bytes → Option (Json × Bytes)
  | 0, _ => none
  | _ + 1, [] => none
  | n + 1, b :: s =>
    if b = 0x5B then (readElements n true s).map fun p => (.array p.1, p.2)
    else if b = 0x7B then
      (readMembers n true s).map fun p => (.object (Members.ofList p.1), p.2)
    else if b = 0x22 then (readChars s).map fun p => (.string p.1, p.2)
    else if b = 0x6E then readWord (utf8 "null") .null (b :: s)
    else if b = 0x74 then readWord (utf8 "true") (.boolean true) (b :: s)
    else if b = 0x66 then readWord (utf8 "false") (.boolean false) (b :: s)
    else readNumber (b :: s)

/-- The elements of an array up to its bracket; every element but the first stands after
a comma. -/
def readElements : ℕ → Bool → Bytes → Option (List Json × Bytes)
  | 0, _, _ => none
  | _ + 1, _, [] => none
  | n + 1, first, b :: s =>
    if b = 0x5D then some ([], s)
    else if first || b == 0x2C then
      (readValue n (if first then b :: s else s)).bind fun p =>
        (readElements n false p.2).map fun q => (p.1 :: q.1, q.2)
    else none

/-- The members of an object up to its brace. -/
def readMembers : ℕ → Bool → Bytes → Option (List (Bytes × Json) × Bytes)
  | 0, _, _ => none
  | _ + 1, _, [] => none
  | n + 1, first, b :: s =>
    if b = 0x7D then some ([], s)
    else if first || b == 0x2C then
      match if first then b :: s else s with
      | [] => none
      | b :: s =>
        if b = 0x22 then
          (readChars s).bind fun k =>
            match k.2 with
            | [] => none
            | b :: s =>
              if b = 0x3A then
                (readValue n s).bind fun p =>
                  (readMembers n false p.2).map fun q => ((k.1, p.1) :: q.1, q.2)
              else none
        else none
    else none

end

/-- A whole text. -/
def parse (text : Bytes) : Option Json :=
  (readValue text.length text).bind fun p =>
    if p.2 = [] ∧ p.1.ValidUtf8 then some p.1 else none

/-- The text of a value whose strings are text. -/
def dump (j : Json) : Option Bytes := if j.ValidUtf8 then some (print j) else none

/-! ## Strings come back -/

theorem readChars_hex {n : ℕ} (hn : n < 0x20) (t : Bytes) :
    readChars (utf8 "\\u00" ++ [Numeral.hexDigit (n / 16), Numeral.hexDigit (n % 16)] ++ t) =
      consByte (UInt8.ofNat n) (readChars t) := by
  have hdigits : ∀ n < 0x20, (hexValue (Numeral.hexDigit (n / 16))).bind (fun h =>
      (hexValue (Numeral.hexDigit (n % 16))).map fun l => UInt8.ofNat (16 * h + l)) =
        some (UInt8.ofNat n) := by
    decide
  obtain ⟨h, hh, hl⟩ := Option.bind_eq_some_iff.mp (hdigits n hn)
  obtain ⟨l, hl, hb⟩ := Option.map_eq_some_iff.mp hl
  show readChars (0x5C :: 0x75 :: 0x30 :: 0x30 ::
    Numeral.hexDigit (n / 16) :: Numeral.hexDigit (n % 16) :: t) = _
  rw [readChars, if_neg (by decide), if_pos rfl]
  simp only [if_true, and_self, hh, hl, Option.bind_some, hb]

/-- An escaped byte is read as the byte. -/
theorem readChars_escape (b : UInt8) (t : Bytes) :
    readChars (escape b ++ t) = consByte b (readChars t) := by
  have hletter : ∀ e c : UInt8, e ≠ 0x75 → unescape e = some c →
      readChars ([0x5C, e] ++ t) = consByte c (readChars t) := by
    intro e c he hc
    show readChars (0x5C :: e :: t) = _
    rw [readChars.eq_def]
    simp only [if_neg (by decide : ¬ (0x5C : UInt8) = 0x22), if_true, if_neg he, hc,
      Option.bind_some]
  unfold escape
  split_ifs with h1 h2 h3 h4 h5 h6 h7 h8
  · rw [h1]; exact hletter 0x22 0x22 (by decide) (by decide)
  · rw [h2]; exact hletter 0x5C 0x5C (by decide) (by decide)
  · rw [h3]; exact hletter 0x62 0x08 (by decide) (by decide)
  · rw [h4]; exact hletter 0x66 0x0C (by decide) (by decide)
  · rw [h5]; exact hletter 0x6E 0x0A (by decide) (by decide)
  · rw [h6]; exact hletter 0x72 0x0D (by decide) (by decide)
  · rw [h7]; exact hletter 0x74 0x09 (by decide) (by decide)
  · rw [readChars_hex (UInt8.lt_iff_toNat_lt.mp h8), UInt8.ofNat_toNat]
  · show readChars (b :: t) = _
    rw [readChars.eq_def]
    simp only [if_neg h1, if_neg h2, if_neg h8]

theorem readChars_printChars (s t : Bytes) : readChars (printChars s ++ t) = some (s, t) := by
  induction s with
  | nil =>
    show readChars (0x22 :: t) = _
    rw [readChars.eq_def]
    rfl
  | cons b s ih =>
    have hcons : printChars (b :: s) ++ t = escape b ++ (printChars s ++ t) := by
      simp [printChars]
    rw [hcons, readChars_escape, ih]
    rfl

/-! ## Numbers come back -/

/-- What follows a number ends it. -/
def Delimited (t : Bytes) : Prop :=
  ∀ b ∈ t.head?, Numeral.isDigit b = false ∧ b ≠ 0x2E ∧ b ≠ 0x2F

theorem delimited_cons {b : UInt8} {t : Bytes} (hd : Numeral.isDigit b = false) (h1 : b ≠ 0x2E)
    (h2 : b ≠ 0x2F) : Delimited (b :: t) := by
  intro c hc
  obtain rfl := Option.some.inj hc
  exact ⟨hd, h1, h2⟩

/-- A run of digits is read up to the first byte that is none. -/
theorem takeWhile_digits (ds t : Bytes) (hds : ∀ b ∈ ds, Numeral.isDigit b = true)
    (ht : ∀ b ∈ t.head?, Numeral.isDigit b = false) :
    (ds ++ t).takeWhile Numeral.isDigit = ds ∧ (ds ++ t).dropWhile Numeral.isDigit = t := by
  have hnil : t.takeWhile Numeral.isDigit = [] ∧ t.dropWhile Numeral.isDigit = t := by
    cases t with
    | nil => exact ⟨rfl, rfl⟩
    | cons b t =>
      have hb := ht b rfl
      exact ⟨by simp [hb], by simp [hb]⟩
  rw [List.takeWhile_append_of_pos hds, List.dropWhile_append_of_pos hds, hnil.1, hnil.2]
  exact ⟨List.append_nil ds, rfl⟩

/-- A number begins with a digit or a minus sign, and the sign is read off. -/
theorem readSign_digits (n : ℕ) (t : Bytes) :
    readSign (Numeral.digits n ++ t) = (1, Numeral.digits n ++ t) := by
  cases hd : Numeral.digits n with
  | nil => exact absurd hd (Numeral.digits_ne_nil n)
  | cons b ds =>
    have hb : Numeral.isDigit b = true :=
      Numeral.isDigit_of_mem_digits (n := n) (by rw [hd]; exact List.mem_cons_self ..)
    have hne : b ≠ 0x2D := by
      rintro rfl
      exact absurd hb (by decide)
    exact if_neg hne

/-- The part of `readNumber` that follows the sign. -/
theorem readNumber_integer (sign : ℤ) (n : ℕ) {s t : Bytes}
    (hs : readSign s = (sign, Numeral.digits n ++ t)) (ht : Delimited t) :
    readNumber s = some (.integer (sign * n), t) := by
  obtain ⟨htake, hdrop⟩ := takeWhile_digits (Numeral.digits n) t
    (fun b hb => Numeral.isDigit_of_mem_digits hb) fun b hb => (ht b hb).1
  unfold readNumber
  simp only [hs, htake, hdrop, Numeral.digits_ne_nil, if_false, Numeral.value_digits]
  cases t with
  | nil => rfl
  | cons b t =>
    obtain ⟨-, h1, h2⟩ := ht b rfl
    simp only [if_neg h1, if_neg h2]

theorem readNumber_decimal {s t : Bytes} {sign : ℤ} {n k m : ℕ} (hk : 0 < k) (hm : m < 10 ^ k)
    (hs : readSign s = (sign, Numeral.digits n ++ 0x2E :: (Numeral.padded k m ++ t)))
    (ht : Delimited t) :
    readNumber s =
      some (.float (.finite (sign * ((10 ^ k * n + m : ℕ) : ℚ) / (10 ^ k : ℕ))), t) := by
  obtain ⟨htake, hdrop⟩ := takeWhile_digits (Numeral.digits n)
    (0x2E :: (Numeral.padded k m ++ t)) (fun b hb => Numeral.isDigit_of_mem_digits hb)
    (fun b hb => by obtain rfl := Option.some.inj hb; rfl)
  obtain ⟨htake', hdrop'⟩ := takeWhile_digits (Numeral.padded k m) t
    (fun b hb => Numeral.isDigit_of_mem_padded hb) fun b hb => (ht b hb).1
  unfold readNumber
  simp only [hs, htake, hdrop, Numeral.digits_ne_nil, if_false, if_true, htake', hdrop',
    Numeral.value_digits, Numeral.value_padded,
    Numeral.length_padded (Numeral.length_digits_le hk hm)]

theorem readNumber_fraction {s t : Bytes} {sign : ℤ} {n d : ℕ}
    (hs : readSign s = (sign, Numeral.digits n ++ 0x2F :: (Numeral.digits d ++ t)))
    (ht : Delimited t) :
    readNumber s = some (.float (.finite (sign * (n : ℚ) / d)), t) := by
  obtain ⟨htake, hdrop⟩ := takeWhile_digits (Numeral.digits n)
    (0x2F :: (Numeral.digits d ++ t)) (fun b hb => Numeral.isDigit_of_mem_digits hb)
    (fun b hb => by obtain rfl := Option.some.inj hb; rfl)
  obtain ⟨htake', hdrop'⟩ := takeWhile_digits (Numeral.digits d) t
    (fun b hb => Numeral.isDigit_of_mem_digits hb) fun b hb => (ht b hb).1
  unfold readNumber
  simp only [hs, htake, hdrop, Numeral.digits_ne_nil, if_false, if_true, htake', hdrop',
    Numeral.value_digits, if_neg (by decide : ¬ (0x2F : UInt8) = 0x2E)]

/-- The number of decimals found is one that works. -/
theorem decimals_spec {den k : ℕ} (h : decimals den = some k) : 0 < k ∧ den ∣ 10 ^ k := by
  refine ⟨?_, Nat.dvd_of_mod_eq_zero ?_⟩
  · obtain ⟨i, -, rfl⟩ := List.mem_map.mp (List.mem_of_find?_eq_some h)
    exact Nat.succ_pos i
  · simpa using List.find?_some h

/-- A magnitude, behind its sign, is read as the rational it was printed from. -/
theorem readNumber_magnitude (sign : ℤ) {s t : Bytes} {n d : ℕ} (hd : 0 < d)
    (hs : readSign s = (sign, printMagnitude n d ++ t)) (ht : Delimited t) :
    readNumber s = some (.float (.finite (sign * (n : ℚ) / d)), t) := by
  unfold printMagnitude at hs
  cases hk : decimals d with
  | none =>
    rw [hk] at hs
    simp only [List.append_assoc, List.cons_append] at hs
    exact readNumber_fraction hs ht
  | some k =>
    obtain ⟨hpos, hdvd⟩ := decimals_spec hk
    rw [hk] at hs
    simp only [List.append_assoc, List.cons_append] at hs
    rw [readNumber_decimal hpos (Nat.mod_lt _ (by positivity)) hs ht, Nat.div_add_mod]
    have hd' : (d : ℚ) ≠ 0 := by exact_mod_cast hd.ne'
    have h10 : ((10 ^ k : ℕ) : ℚ) ≠ 0 := by exact_mod_cast (Nat.pow_pos (by decide)).ne'
    have hscaled : ((n * (10 ^ k / d) : ℕ) : ℚ) = n * (10 ^ k : ℕ) / d := by
      rw [Nat.cast_mul, Nat.cast_div hdvd hd']
      ring
    rw [hscaled]
    congr 4
    field_simp

theorem readNumber_printRat (q : ℚ) {t : Bytes} (ht : Delimited t) :
    readNumber (printRat q ++ t) = some (.float (.finite q), t) := by
  have hq : ∀ sign : ℤ, sign * q.num.natAbs = q.num →
      (sign * (q.num.natAbs : ℚ)) / q.den = q := by
    intro sign hsign
    have hcast := congrArg (Int.cast : ℤ → ℚ) hsign
    rw [Int.cast_mul, Int.cast_natCast] at hcast
    rw [hcast, Rat.num_div_den]
  have hsign : ∀ t, readSign (printMagnitude q.num.natAbs q.den ++ t) =
      (1, printMagnitude q.num.natAbs q.den ++ t) := by
    intro t
    unfold printMagnitude
    cases decimals q.den <;> simp only [List.append_assoc] <;> exact readSign_digits _ _
  unfold printRat
  split
  · rw [readNumber_magnitude (-1) q.den_pos rfl ht, hq (-1) (by omega)]
  · rw [readNumber_magnitude 1 q.den_pos (hsign t) ht, hq 1 (by omega)]

theorem readNumber_ofInt (i : ℤ) {t : Bytes} (ht : Delimited t) :
    readNumber (Numeral.ofInt i ++ t) = some (.integer i, t) := by
  unfold Numeral.ofInt
  split
  · rw [readNumber_integer (-1) i.natAbs rfl ht]
    congr 3
    omega
  · rw [readNumber_integer 1 i.natAbs (readSign_digits _ t) ht]
    congr 3
    omega

/-! ## Values come back -/

/-- Every value begins with a byte that cannot close a list, and a number begins with a
byte that begins nothing else. -/
theorem print_number_head {s : Bytes} (hs : ∃ n t, s = Numeral.digits n ++ t) :
    ∃ b t, s = b :: t ∧ Numeral.isDigit b = true := by
  obtain ⟨n, t, rfl⟩ := hs
  cases hd : Numeral.digits n with
  | nil => exact absurd hd (Numeral.digits_ne_nil n)
  | cons b ds =>
    exact ⟨b, ds ++ t, rfl, Numeral.isDigit_of_mem_digits (n := n) (by rw [hd]; simp)⟩

/-- The first byte of a number. -/
def NumberHead (b : UInt8) : Prop := b = 0x2D ∨ Numeral.isDigit b = true

theorem ofInt_head (i : ℤ) : ∃ b t, Numeral.ofInt i = b :: t ∧ NumberHead b := by
  unfold Numeral.ofInt
  split
  · exact ⟨_, _, rfl, Or.inl rfl⟩
  · obtain ⟨b, t, h, hb⟩ := print_number_head ⟨i.natAbs, [], (List.append_nil _).symm⟩
    exact ⟨b, t, h, Or.inr hb⟩

theorem printRat_head (q : ℚ) : ∃ b t, printRat q = b :: t ∧ NumberHead b := by
  unfold printRat
  split
  · exact ⟨_, _, rfl, Or.inl rfl⟩
  · have hdigits : ∃ n t, printMagnitude q.num.natAbs q.den = Numeral.digits n ++ t := by
      unfold printMagnitude
      cases decimals q.den <;> exact ⟨_, _, rfl⟩
    obtain ⟨b, t, h, hb⟩ := print_number_head hdigits
    exact ⟨b, t, h, Or.inr hb⟩

/-- The first byte of a value does not close an array. -/
theorem print_head (j : Json) : ∃ b t, print j = b :: t ∧ b ≠ 0x5D := by
  have hnumber : ∀ b, NumberHead b → b ≠ 0x5D := by
    rintro b hb rfl
    exact absurd hb (by unfold NumberHead; decide)
  cases j with
  | null => exact ⟨_, _, rfl, by decide⟩
  | boolean b => cases b <;> exact ⟨_, _, rfl, by decide⟩
  | integer i =>
    obtain ⟨b, t, h, hb⟩ := ofInt_head i
    exact ⟨b, t, by rw [print, h], hnumber b hb⟩
  | float x =>
    cases x with
    | finite q =>
      obtain ⟨b, t, h, hb⟩ := printRat_head q
      exact ⟨b, t, by rw [print, h], hnumber b hb⟩
    | _ => exact ⟨_, _, rfl, by decide⟩
  | string s => exact ⟨_, _, by rw [print], by decide⟩
  | array xs => exact ⟨_, _, by rw [print], by decide⟩
  | object ms => exact ⟨_, _, by rw [print], by decide⟩

/-- A text that begins as a number is read as one. -/
theorem readValue_number {n : ℕ} {s : Bytes} (hn : 0 < n)
    (hs : ∃ b t, s = b :: t ∧ NumberHead b) : readValue n s = readNumber s := by
  obtain ⟨b, t, rfl, hb⟩ := hs
  obtain ⟨n, rfl⟩ := Nat.exists_eq_succ_of_ne_zero hn.ne'
  have hne : ∀ c : UInt8, ¬ NumberHead c → b ≠ c := fun c hc h => hc (h ▸ hb)
  rw [readValue, if_neg (hne _ (by unfold NumberHead; decide)),
    if_neg (hne _ (by unfold NumberHead; decide)), if_neg (hne _ (by unfold NumberHead; decide)),
    if_neg (hne _ (by unfold NumberHead; decide)), if_neg (hne _ (by unfold NumberHead; decide)),
    if_neg (hne _ (by unfold NumberHead; decide))]

/-- The value is read back from the front of any text that does not prolong it. -/
def Readable (j : Json) : Prop :=
  ∀ n t, (print j).length ≤ n → Delimited t → readValue n (print j ++ t) = some (j.norm, t)

/-- A value that is printed as a number is read back as one. -/
theorem readable_of_number {j : Json} (hhead : ∃ b t, print j = b :: t ∧ NumberHead b)
    (hread : ∀ t, Delimited t → readNumber (print j ++ t) = some (j.norm, t)) : Readable j := by
  intro n t hn ht
  obtain ⟨b, s, hb, hnumber⟩ := hhead
  have hpos : 0 < n := by
    rw [hb] at hn
    exact (Nat.succ_pos _).trans_le hn
  rw [readValue_number hpos ⟨b, s ++ t, by rw [hb]; rfl, hnumber⟩, hread t ht]

theorem readWord_append (word : Bytes) (j : Json) (t : Bytes) :
    readWord word j (word ++ t) = some (j, t) := by
  unfold readWord
  rw [if_pos (List.isPrefixOf_iff_prefix.mpr (List.prefix_append word t)), List.drop_left]

/-- Fuel for a text that is not empty. -/
theorem exists_succ_of_length_le {s : Bytes} {n : ℕ} (hs : s ≠ []) (h : s.length ≤ n) :
    ∃ m, n = m + 1 :=
  Nat.exists_eq_succ_of_ne_zero ((List.length_pos_iff.mpr hs).trans_le h).ne'

theorem printElements_ne_nil (separator : Bytes) (xs : List Json) :
    printElements separator xs ≠ [] := by
  cases xs <;> rw [printElements]
  · simp
  · obtain ⟨b, s, hb, -⟩ := print_head ‹Json›
    simp [hb]

theorem printMembers_ne_nil (separator : Bytes) (ms : List (Bytes × Json)) :
    printMembers separator ms ≠ [] := by
  rcases ms with _ | ⟨⟨k, v⟩, ms⟩ <;> rw [printMembers] <;> simp

/-- What follows an element or a member ends it. -/
theorem delimited_printElements (xs : List Json) (t : Bytes) :
    Delimited (printElements [0x2C] xs ++ t) := by
  cases xs <;> rw [printElements] <;> exact delimited_cons rfl (by decide) (by decide)

theorem delimited_printMembers (ms : List (Bytes × Json)) (t : Bytes) :
    Delimited (printMembers [0x2C] ms ++ t) := by
  rcases ms with _ | ⟨⟨k, v⟩, ms⟩ <;> rw [printMembers] <;>
    exact delimited_cons rfl (by decide) (by decide)

/-- The elements of an array come back if each of them does. -/
theorem readElements_print {xs : List Json} (h : ∀ x ∈ xs, Readable x) (first : Bool) (n : ℕ)
    (t : Bytes) (hn : (printElements (if first then [] else [0x2C]) xs).length ≤ n) :
    readElements n first (printElements (if first then [] else [0x2C]) xs ++ t) =
      some (xs.map Json.norm, t) := by
  induction xs generalizing first n with
  | nil =>
    obtain ⟨n, rfl⟩ := exists_succ_of_length_le (printElements_ne_nil _ _) hn
    rw [printElements]
    rfl
  | cons x xs ih =>
    obtain ⟨n, rfl⟩ := exists_succ_of_length_le (printElements_ne_nil _ _) hn
    obtain ⟨b, s, hb, hne⟩ := print_head x
    have hlast := List.length_pos_iff.mpr (printElements_ne_nil [0x2C] xs)
    have hfirst : 0 < (print x).length := by rw [hb]; simp
    rw [printElements, List.length_append, List.length_append] at hn
    -- one element is read, and the rest after it
    have hx := h x (List.mem_cons_self ..) n (printElements [0x2C] xs ++ t) (by omega)
      (delimited_printElements xs t)
    have hxs : readElements n false (printElements [0x2C] xs ++ t) = some (xs.map Json.norm, t) :=
      ih (fun y hy => h y (List.mem_cons_of_mem _ hy)) false n
        (show (printElements [0x2C] xs).length ≤ n by omega)
    rw [printElements, List.append_assoc, List.append_assoc]
    cases first with
    | true =>
      show readElements (n + 1) true (print x ++ (printElements [0x2C] xs ++ t)) = _
      rw [hb, List.cons_append] at hx ⊢
      rw [readElements, if_neg hne, Bool.true_or, if_pos rfl, if_pos rfl, hx, Option.bind_some, hxs]
      rfl
    | false =>
      show readElements (n + 1) false (0x2C :: (print x ++ (printElements [0x2C] xs ++ t))) = _
      rw [readElements, if_neg (by decide), Bool.false_or, if_pos (by decide),
        if_neg Bool.false_ne_true, hx, Option.bind_some, hxs]
      rfl

/-- The members of an object come back if each of their values does. -/
theorem readMembers_print {ms : List (Bytes × Json)} (h : ∀ kv ∈ ms, Readable kv.2) (first : Bool)
    (n : ℕ) (t : Bytes) (hn : (printMembers (if first then [] else [0x2C]) ms).length ≤ n) :
    readMembers n first (printMembers (if first then [] else [0x2C]) ms ++ t) =
      some (ms.map fun kv => (kv.1, kv.2.norm), t) := by
  induction ms generalizing first n with
  | nil =>
    obtain ⟨n, rfl⟩ := exists_succ_of_length_le (printMembers_ne_nil _ _) hn
    rw [printMembers]
    rfl
  | cons kv ms ih =>
    obtain ⟨k, v⟩ := kv
    obtain ⟨n, rfl⟩ := exists_succ_of_length_le (printMembers_ne_nil _ _) hn
    rw [printMembers] at hn
    simp only [List.length_append, List.length_cons] at hn
    have hv : readValue n (print v ++ (printMembers [0x2C] ms ++ t)) =
        some (v.norm, printMembers [0x2C] ms ++ t) :=
      h (k, v) (List.mem_cons_self ..) n (printMembers [0x2C] ms ++ t)
        (show (print v).length ≤ n by omega) (delimited_printMembers ms t)
    have hms : readMembers n false (printMembers [0x2C] ms ++ t) =
        some (ms.map fun kv => (kv.1, kv.2.norm), t) :=
      ih (fun y hy => h y (List.mem_cons_of_mem _ hy)) false n
        (show (printMembers [0x2C] ms).length ≤ n by omega)
    have hk := readChars_printChars k (0x3A :: (print v ++ (printMembers [0x2C] ms ++ t)))
    rw [printMembers]
    cases first with
    | true =>
      simp only [if_true, List.nil_append, List.cons_append, List.append_assoc]
      rw [readMembers, if_neg (by decide), Bool.true_or, if_pos rfl]
      simp only [if_true, hk, Option.bind_some, hv, hms]
      rfl
    | false =>
      simp only [Bool.false_eq_true, if_false, List.nil_append, List.cons_append,
        List.append_assoc]
      rw [readMembers, if_neg (by decide), Bool.false_or, if_pos (by decide)]
      simp only [Bool.false_eq_true, if_false, if_true, hk, Option.bind_some, hv, hms]
      rfl

/-- **Every value comes back.** -/
theorem readable (j : Json) : Readable j := by
  induction j using Json.induction with
  | null =>
    intro n t hn _
    obtain ⟨n, rfl⟩ := exists_succ_of_length_le (by decide) hn
    exact readWord_append (utf8 "null") .null t
  | boolean b =>
    intro n t hn _
    obtain ⟨n, rfl⟩ := exists_succ_of_length_le (by cases b <;> decide) hn
    cases b with
    | true => exact readWord_append (utf8 "true") (.boolean true) t
    | false => exact readWord_append (utf8 "false") (.boolean false) t
  | integer i =>
    refine readable_of_number ?_ fun t ht => ?_
    · rw [print]
      exact ofInt_head i
    · rw [print]
      exact readNumber_ofInt i ht
  | float x =>
    cases x with
    | finite q =>
      refine readable_of_number ?_ fun t ht => ?_
      · rw [print]
        exact printRat_head q
      · rw [print]
        exact readNumber_printRat q ht
    | posInf | negInf | nan =>
      intro n t hn _
      obtain ⟨n, rfl⟩ := exists_succ_of_length_le (by decide) hn
      exact readWord_append (utf8 "null") .null t
  | string s =>
    intro n t hn _
    obtain ⟨n, rfl⟩ := exists_succ_of_length_le (by rw [print]; simp) hn
    rw [print, List.cons_append, readValue, if_neg (by decide), if_neg (by decide), if_pos rfl,
      readChars_printChars]
    rfl
  | array xs ih =>
    intro n t hn _
    obtain ⟨n, rfl⟩ := exists_succ_of_length_le (by rw [print]; simp) hn
    rw [print] at hn
    have hread := readElements_print ih true n t (Nat.le_of_succ_le_succ hn)
    rw [if_pos rfl] at hread
    rw [print, List.cons_append, readValue, if_pos rfl, hread, Json.norm_array]
    rfl
  | object ms ih =>
    intro n t hn _
    obtain ⟨n, rfl⟩ := exists_succ_of_length_le (by rw [print]; simp) hn
    rw [print] at hn
    have hread := readMembers_print ih true n t (Nat.le_of_succ_le_succ hn)
    rw [if_pos rfl] at hread
    rw [print, List.cons_append, readValue, if_neg (by decide), if_pos rfl, hread,
      Json.norm_object]
    rfl

theorem parse_dump {j : Json} {text : Bytes} (h : dump j = some text) :
    parse text = some j.norm := by
  unfold dump at h
  split at h
  · rename_i hvalid
    obtain rfl := Option.some.inj h
    have hread := readable j (print j).length [] le_rfl (fun b hb => absurd hb (by simp))
    rw [List.append_nil] at hread
    unfold parse
    rw [hread, Option.bind_some, if_pos ⟨rfl, hvalid.norm⟩]
  · exact absurd h (by simp)

/-! ## No NUL is written -/

theorem zero_notMem_escape (b : UInt8) : 0 ∉ escape b := by
  have hhex : ∀ d < 16, Numeral.hexDigit d ≠ 0 := by decide
  unfold escape
  split_ifs with h1 h2 h3 h4 h5 h6 h7 h8
  · decide
  · decide
  · decide
  · decide
  · decide
  · decide
  · decide
  · have hlt := UInt8.lt_iff_toNat_lt.mp h8
    have hb : b.toNat < 32 := hlt
    rw [List.mem_append, not_or]
    refine ⟨by decide, ?_⟩
    simp [(hhex _ (show b.toNat / 16 < 16 by omega)).symm,
      (hhex _ (Nat.mod_lt b.toNat (by decide))).symm]
  · rw [List.mem_singleton]
    rintro rfl
    exact h8 (by decide)

theorem zero_notMem_printChars (s : Bytes) : 0 ∉ printChars s := by
  unfold printChars
  simp only [List.mem_append, List.mem_flatMap, not_or, not_exists, not_and]
  exact ⟨fun b _ => zero_notMem_escape b, by decide⟩

theorem zero_notMem_of_digits {s : Bytes} (h : ∀ b ∈ s, Numeral.isDigit b = true) : 0 ∉ s :=
  fun h0 => Numeral.ne_zero_of_isDigit (h 0 h0) rfl

theorem zero_notMem_digits (n : ℕ) : 0 ∉ Numeral.digits n :=
  zero_notMem_of_digits fun _ hb => Numeral.isDigit_of_mem_digits hb

theorem zero_notMem_printRat (q : ℚ) : 0 ∉ printRat q := by
  have hpadded : ∀ k n, 0 ∉ Numeral.padded k n := fun k n =>
    zero_notMem_of_digits fun _ hb => Numeral.isDigit_of_mem_padded hb
  have hmagnitude : 0 ∉ printMagnitude q.num.natAbs q.den := by
    unfold printMagnitude
    cases decimals q.den <;> simp [zero_notMem_digits, hpadded]
  unfold printRat
  split
  · simp [hmagnitude]
  · exact hmagnitude

theorem zero_notMem_print (j : Json) : 0 ∉ print j := by
  induction j using Json.induction with
  | null => decide
  | boolean b => cases b <;> decide
  | integer i =>
    rw [print, Numeral.ofInt]
    split <;> simp [zero_notMem_digits]
  | float x =>
    cases x with
    | finite q => rw [print]; exact zero_notMem_printRat q
    | _ => decide
  | string s => rw [print]; simp [zero_notMem_printChars]
  | array xs ih =>
    have helements : ∀ (xs : List Json) (separator : Bytes), 0 ∉ separator →
        (∀ x ∈ xs, 0 ∉ print x) → 0 ∉ printElements separator xs := by
      intro xs
      induction xs with
      | nil => intro _ _ _; rw [printElements]; decide
      | cons x xs ih =>
        intro separator hs h
        have hx := h x (List.mem_cons_self ..)
        have hxs := ih [0x2C] (by decide) fun y hy => h y (List.mem_cons_of_mem _ hy)
        rw [printElements]
        simp [hs, hx, hxs]
    rw [print]
    simp [helements xs [] (by simp) ih]
  | object ms ih =>
    have hmembers : ∀ (ms : List (Bytes × Json)) (separator : Bytes), 0 ∉ separator →
        (∀ kv ∈ ms, 0 ∉ print kv.2) → 0 ∉ printMembers separator ms := by
      intro ms
      induction ms with
      | nil => intro _ _ _; rw [printMembers]; decide
      | cons kv ms ih =>
        intro separator hs h
        have hv := h kv (List.mem_cons_self ..)
        have hms := ih [0x2C] (by decide) fun y hy => h y (List.mem_cons_of_mem _ hy)
        rw [printMembers]
        simp [hs, hv, hms, zero_notMem_printChars]
    rw [print]
    simp [hmembers ms [] (by simp) ih]

end JsonText

/-- The printer and the reader above. -/
def Nlohmann.reference : Nlohmann where
  dump := JsonText.dump
  parse := JsonText.parse
  dump_isSome j := by
    unfold JsonText.dump
    split <;> simp_all
  parse_dump _ _ := JsonText.parse_dump
  validUtf8_of_parse text j h := by
    obtain ⟨p, -, hp⟩ := Option.bind_eq_some_iff.mp h
    split at hp
    · rename_i hvalid
      obtain rfl := Option.some.inj hp
      exact hvalid.2
    · exact absurd hp (by simp)
  zero_notMem_dump j text h := by
    unfold JsonText.dump at h
    split at h
    · obtain rfl := Option.some.inj h
      exact JsonText.zero_notMem_print j
    · exact absurd h (by simp)

example : JsonText.dump (.object [(utf8 "hubs", .array [.string (utf8 "C++\n")]),
    (utf8 "score", .float (.finite (-27 / 2)))]) =
      some (utf8 "\x7b\"hubs\":[\"C++\\n\"],\"score\":-13.5\x7d") := by
  decide +kernel

end HabrDigest
