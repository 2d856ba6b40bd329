import HabrDigest.Parser.Listing

/-!
# The loops of `Trim`

`Trim` moves two indices over the string.  Both loops look at one byte, and at two where that one
is no white space; the first moves `begin` forward and the second moves `end` back, by as many
bytes as were blank.  Here the loops are as they stand in the source, with every access checked:
reading a byte that is not there, or comparing behind the end, is none.

`trimRange_eq` connects them with `trim`: they come to an end, in order and inside the string, and
what is between the indices is what `trim` leaves.  So what is known of `trim` is known of them, and
`trimAt_spec` collects it: what is taken away is blank, what is left is trimmed, and a text is left
a text.
-/

namespace HabrDigest
namespace Parser

/-! ## The loops -/

/-- `value.compare(pos, kNbsp.size(), kNbsp) == 0`; it throws behind the end. -/
def compareNbsp (value : Bytes) (pos : ℕ) : Option Bool :=
  if value.length < pos then none else some ((value.drop pos).take 2 = [0xC2, 0xA0])

/-- The first loop, from `begin` on. -/
def beginLoop (value : Bytes) (begin stop : ℕ) : Option ℕ :=
  if begin < stop then
    match value[begin]? with
    | none => none
    | some b =>
      if Strto.isSpace b then beginLoop value (begin + 1) stop
      else if 2 ≤ stop - begin then
        match compareNbsp value begin with
        | none => none
        | some true => beginLoop value (begin + 2) stop
        | some false => some begin
      else some begin
  else some begin
termination_by stop - begin

/-- The second loop, from `stop` (the `end` of the source) back. -/
def endLoop (value : Bytes) (begin stop : ℕ) : Option ℕ :=
  if begin < stop then
    match value[stop - 1]? with
    | none => none
    | some b =>
      if Strto.isSpace b then endLoop value begin (stop - 1)
      else if 2 ≤ stop - begin then
        match compareNbsp value (stop - 2) with
        | none => none
        | some true => endLoop value begin (stop - 2)
        | some false => some stop
      else some stop
  else some stop
termination_by stop - begin

/-- Where the indices are when both loops have ended. -/
def trimRange (value : Bytes) : Option (ℕ × ℕ) := do
  let begin ← beginLoop value 0 value.length
  let stop ← endLoop value begin value.length
  some (begin, stop)

/-- `value.substr(begin, end - begin)`; it throws behind the end. -/
def substr (value : Bytes) (begin stop : ℕ) : Option Bytes :=
  if value.length < begin then none else some ((value.drop begin).take (stop - begin))

/-- `Trim`, with its indices. -/
def trimAt (value : Bytes) : Option Bytes := do
  let (begin, stop) ← trimRange value
  substr value begin stop

/-! ## What they skip -/

/-- White space of ASCII and U+00A0, any number of them. -/
inductive Blank : Bytes → Prop
  | nil : Blank []
  | space {b : UInt8} {s : Bytes} (hb : Strto.isSpace b = true) (hs : Blank s) : Blank (b :: s)
  | nbsp {s : Bytes} (hs : Blank s) : Blank (0xC2 :: 0xA0 :: s)

theorem Blank.append {s t : Bytes} (hs : Blank s) (ht : Blank t) : Blank (s ++ t) := by
  induction hs with
  | nil => exact ht
  | space hb _ ih => exact .space hb ih
  | nbsp _ ih => exact .nbsp ih

/-! ## The first loop -/

theorem compareNbsp_append (p s : Bytes) :
    compareNbsp (p ++ s) p.length = some (decide (s.take 2 = [0xC2, 0xA0])) := by
  rw [compareNbsp, if_neg (by simp), List.drop_left]

/-- A step of the first loop, when there is a byte. -/
theorem beginLoop_cons (p : Bytes) (b : UInt8) (s : Bytes) :
    beginLoop (p ++ b :: s) p.length (p ++ b :: s).length =
      if Strto.isSpace b then beginLoop (p ++ b :: s) (p.length + 1) (p ++ b :: s).length
      else if (b :: s).take 2 = [0xC2, 0xA0] then
        beginLoop (p ++ b :: s) (p.length + 2) (p ++ b :: s).length
      else some p.length := by
  have hlength : (p ++ b :: s).length - p.length = s.length + 1 := by simp
  have hget : (p ++ b :: s)[p.length]? = some b := by simp
  rw [beginLoop, if_pos (by simp), hget]
  dsimp only
  rw [hlength, compareNbsp_append]
  by_cases hspace : Strto.isSpace b
  · rw [if_pos hspace, if_pos hspace]
  rw [if_neg hspace, if_neg hspace]
  cases s with
  | nil => rw [if_neg (by simp), if_neg (by simp)]
  | cons c s =>
    rw [if_pos (by simp)]
    by_cases hnbsp : (b :: c :: s).take 2 = [0xC2, 0xA0]
    · rw [if_pos hnbsp, decide_eq_true hnbsp]
    · rw [if_neg hnbsp, decide_eq_false hnbsp]

/-- **The first loop** skips what is blank at the front, and stops inside the string. -/
theorem beginLoop_spec (p s : Bytes) : ∃ q, s = q ++ trimLeft s ∧ Blank q ∧
    beginLoop (p ++ s) p.length (p ++ s).length = some (p ++ q).length := by
  fun_induction trimLeft s generalizing p with
  | case1 =>
    refine ⟨[], rfl, .nil, ?_⟩
    rw [beginLoop, if_neg (by simp), List.append_nil]
  | case2 b s hspace ih =>
    obtain ⟨q, hq, hblank, hloop⟩ := ih (p ++ [b])
    refine ⟨b :: q, congrArg (b :: ·) hq, .space hspace hblank, ?_⟩
    rw [beginLoop_cons, if_pos hspace]
    simpa using hloop
  | case3 b hspace =>
    refine ⟨[], rfl, .nil, ?_⟩
    rw [beginLoop_cons, if_neg hspace, if_neg (by simp), List.append_nil]
  | case4 b hspace c t hnbsp ih =>
    obtain ⟨rfl, rfl⟩ := hnbsp
    obtain ⟨q, hq, hblank, hloop⟩ := ih (p ++ [0xC2, 0xA0])
    refine ⟨0xC2 :: 0xA0 :: q, congrArg (0xC2 :: 0xA0 :: ·) hq, .nbsp hblank, ?_⟩
    rw [beginLoop_cons, if_neg hspace, if_pos (by simp)]
    simpa using hloop
  | case5 b hspace c t hnbsp =>
    refine ⟨[], rfl, .nil, ?_⟩
    rw [beginLoop_cons, if_neg hspace, if_neg (by simpa using hnbsp), List.append_nil]

/-! ## The second loop -/

theorem length_two_back (p : Bytes) (b c : UInt8) (r : Bytes) :
    (p ++ (b :: c :: r).reverse).length - 2 = (p ++ r.reverse).length := by
  simp only [List.length_append, List.length_reverse, List.length_cons]
  omega

/-- A step of the second loop, when there is a byte; the string between the indices is written
backwards. -/
theorem endLoop_cons (p : Bytes) (b : UInt8) (r t : Bytes) :
    endLoop (p ++ (b :: r).reverse ++ t) p.length (p ++ (b :: r).reverse).length =
      if Strto.isSpace b then
        endLoop (p ++ (b :: r).reverse ++ t) p.length ((p ++ (b :: r).reverse).length - 1)
      else if (b :: r).take 2 = [0xA0, 0xC2] then
        endLoop (p ++ (b :: r).reverse ++ t) p.length ((p ++ (b :: r).reverse).length - 2)
      else some (p ++ (b :: r).reverse).length := by
  have hlength : (p ++ (b :: r).reverse).length = (p ++ r.reverse).length + 1 := by
    simp [Nat.add_assoc]
  have hvalue : p ++ (b :: r).reverse ++ t = (p ++ r.reverse) ++ b :: t := by simp
  have hget : (p ++ (b :: r).reverse ++ t)[(p ++ (b :: r).reverse).length - 1]? = some b := by
    rw [hlength, hvalue, Nat.add_sub_cancel]
    simp
  rw [endLoop, if_pos (by simp), hget]
  dsimp only
  by_cases hspace : Strto.isSpace b
  · rw [if_pos hspace, if_pos hspace]
  rw [if_neg hspace, if_neg hspace]
  cases r with
  | nil => rw [if_neg (by simp), if_neg (by simp)]
  | cons c r =>
    have hcompare : compareNbsp (p ++ (b :: c :: r).reverse ++ t)
        ((p ++ (b :: c :: r).reverse).length - 2) =
          some (decide ((b :: c :: r).take 2 = [0xA0, 0xC2])) := by
      have hpair : p ++ (b :: c :: r).reverse ++ t = (p ++ r.reverse) ++ c :: b :: t := by simp
      rw [hpair, length_two_back, compareNbsp_append]
      simp [and_comm]
    rw [if_pos (by simp), hcompare]
    by_cases hnbsp : (b :: c :: r).take 2 = [0xA0, 0xC2]
    · rw [if_pos hnbsp, decide_eq_true hnbsp]
    · rw [if_neg hnbsp, decide_eq_false hnbsp]

/-- **The second loop** does the same at the end. -/
theorem endLoop_spec (p r t : Bytes) : ∃ q, r = q ++ trimRightReversed r ∧ Blank q.reverse ∧
    endLoop (p ++ r.reverse ++ t) p.length (p ++ r.reverse).length =
      some (p ++ (trimRightReversed r).reverse).length := by
  fun_induction trimRightReversed r generalizing t with
  | case1 =>
    refine ⟨[], rfl, .nil, ?_⟩
    rw [endLoop, if_neg (by simp), List.reverse_nil]
  | case2 b r hspace ih =>
    obtain ⟨q, hq, hblank, hloop⟩ := ih (b :: t)
    refine ⟨b :: q, congrArg (b :: ·) hq, ?_, ?_⟩
    · rw [List.reverse_cons]
      exact hblank.append (.space hspace .nil)
    · rw [endLoop_cons, if_pos hspace]
      simpa using hloop
  | case3 b hspace =>
    refine ⟨[], rfl, .nil, ?_⟩
    rw [endLoop_cons, if_neg hspace, if_neg (by simp)]
  | case4 b hspace c r hnbsp ih =>
    obtain ⟨rfl, rfl⟩ := hnbsp
    obtain ⟨q, hq, hblank, hloop⟩ := ih (0xC2 :: 0xA0 :: t)
    refine ⟨0xA0 :: 0xC2 :: q, congrArg (0xA0 :: 0xC2 :: ·) hq, ?_, ?_⟩
    · rw [List.reverse_cons, List.reverse_cons, List.append_assoc]
      exact hblank.append (.nbsp .nil)
    · rw [endLoop_cons, if_neg hspace, if_pos (by simp), length_two_back]
      simpa using hloop
  | case5 b hspace c r hnbsp =>
    refine ⟨[], rfl, .nil, ?_⟩
    rw [endLoop_cons, if_neg hspace, if_neg]
    simpa [and_comm] using hnbsp

/-! ## The whole -/

/-- **The loops take away what is blank**, and leave what `trim` leaves. -/
theorem trimRange_eq (value : Bytes) : ∃ p q, value = p ++ trim value ++ q ∧ Blank p ∧ Blank q ∧
    trimRange value = some (p.length, (p ++ trim value).length) := by
  obtain ⟨p, hp, hblank, hbegin⟩ := beginLoop_spec [] value
  obtain ⟨q, hq, hblank', hend⟩ := endLoop_spec p (trimLeft value).reverse []
  have hleft : trimLeft value = trim value ++ q.reverse := by
    rw [trim, ← List.reverse_append, ← hq, List.reverse_reverse]
  have hvalue : value = p ++ trimLeft value := hp
  rw [List.reverse_reverse, List.append_nil, ← hvalue] at hend
  refine ⟨p, q.reverse, ?_, hblank, hblank', ?_⟩
  · rw [List.append_assoc, ← hleft, ← hvalue]
  · have hloop : beginLoop value 0 value.length = some p.length := hbegin
    rw [trimRange, hloop]
    exact congrArg (Option.bind · _) hend

theorem trimAt_eq (value : Bytes) : trimAt value = some (trim value) := by
  obtain ⟨p, q, hvalue, -, -, hrange⟩ := trimRange_eq value
  have hlength : p.length ≤ value.length := by
    rw [hvalue, List.append_assoc, List.length_append]
    exact Nat.le_add_right _ _
  have hdrop : value.drop p.length = trim value ++ q := by
    conv_lhs => rw [hvalue, List.append_assoc, List.drop_left]
  rw [trimAt, hrange]
  refine (if_neg (Nat.not_lt.mpr hlength)).trans ?_
  rw [hdrop, List.length_append, Nat.add_sub_cancel_left, List.take_left]

/-- A trimmed string is left as it is. -/
theorem trim_eq_self {s : Bytes} (h : Trimmed s) : trim s = s := by
  have hleft : trimLeft s = s := (trimLeft_eq s).trans (skipBlank_eq_self _ _ h.head h.prefix_nbsp)
  have hright : trimRightReversed s.reverse = s.reverse := by
    rw [trimRightReversed_eq]
    refine skipBlank_eq_self _ _ (fun b hb => h.last b ?_) fun hfront => h.suffix_nbsp ?_
    · rwa [List.head?_reverse] at hb
    · have hsuffix := List.reverse_suffix.mpr hfront
      rwa [List.reverse_reverse] at hsuffix
  rw [trim, hleft, hright, List.reverse_reverse]

/-- **`Trim` is the maximal trim.** -/
theorem trimAt_spec (value : Bytes) : ∃ p t q begin stop,
    trimRange value = some (begin, stop) ∧ begin ≤ stop ∧ stop ≤ value.length ∧
    trimAt value = some t ∧ value = p ++ t ++ q ∧ Blank p ∧ Blank q ∧ Trimmed t ∧
    trimAt t = some t ∧ (Utf8.Valid value → Utf8.Valid t) := by
  obtain ⟨p, q, hvalue, hblank, hblank', hrange⟩ := trimRange_eq value
  have hbegin : p.length ≤ (p ++ trim value).length := by
    rw [List.length_append]
    exact Nat.le_add_right _ _
  have hend : (p ++ trim value).length ≤ value.length := by
    conv_rhs => rw [hvalue, List.length_append]
    exact Nat.le_add_right _ _
  have htwice : trimAt (trim value) = some (trim value) := by
    rw [trimAt_eq, trim_eq_self (trimmed_trim value)]
  exact ⟨p, trim value, q, p.length, (p ++ trim value).length, hrange, hbegin, hend,
    trimAt_eq value, hvalue, hblank, hblank', trimmed_trim value, htwice, valid_trim⟩

end Parser
end HabrDigest
