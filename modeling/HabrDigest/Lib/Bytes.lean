import HabrDigest.Lib.Separator
import Mathlib.Data.List.Lex

/-!
# Byte strings

A `std::string` is a list of bytes, compared bytewise, and nothing says that the
bytes are text.  Whether they are is a question a JSON encoder asks, so the UTF-8
condition is here as the automaton that decides it: one state between characters,
and one state inside a character that says in which range the next byte has to be
and how many more follow.

Two facts about the automaton carry everything else.  It runs over a
concatenation piece by piece (`run_append`), so valid pieces make a valid whole.
And a valid piece never completes a character that was left open before it, since
no character begins with a continuation byte: if the whole and its second half
are valid then so is the first half (`Valid.of_append_right`).  Cutting white
space off either end of a text is a case of these two.
-/

namespace HabrDigest

/-- A `std::string`. -/
abbrev Bytes := List UInt8

/-- The bytes of a literal of the source. -/
def utf8 (literal : String) : Bytes := literal.toByteArray.data.toList

/-- Bytes are ordered as numbers. -/
instance linearOrderUInt8 : LinearOrder UInt8 where
  le_refl := UInt8.le_refl
  le_trans _ _ _ := UInt8.le_trans
  le_antisymm _ _ := UInt8.le_antisymm
  le_total := UInt8.le_total
  toDecidableLE := inferInstance
  lt_iff_le_not_ge a b := by
    rw [UInt8.not_le]
    exact ⟨fun h => ⟨UInt8.le_of_lt h, h⟩, fun h => h.2⟩

/-- A condition on the bytes of a string is decided byte by byte, not over all 256 values. -/
instance (priority := 2000) decidableForallMem {P : UInt8 → Prop} [DecidablePred P]
    (s : List UInt8) : Decidable (∀ b ∈ s, P b) :=
  List.decidableBAll P s

namespace Bytes

/-- What a function sees that takes the string as `c_str()`: the bytes before the first
NUL. -/
def cString (s : Bytes) : Bytes := s.takeWhile (· ≠ 0)

theorem cString_eq_self {s : Bytes} (h : 0 ∉ s) : cString s = s :=
  Separator.before_eq_self h

theorem zero_notMem_cString (s : Bytes) : 0 ∉ cString s := Separator.notMem_before 0 s

/-- A string with a NUL is its C string, the NUL, and what follows. -/
theorem eq_cString_append {s : Bytes} (h : 0 ∈ s) : ∃ t, s = cString s ++ 0 :: t :=
  ⟨Separator.behind 0 s, (Separator.before_append_behind h).symm⟩

end Bytes

namespace Utf8

/-! ## The automaton -/

/-- Where the automaton stands. -/
inductive State where
  /-- Between two characters. -/
  | boundary
  /-- Inside a character: the next byte is from `lo` to `hi`, and `more` bytes follow it.
  The range is one of continuation bytes. -/
  | within (lo hi : UInt8) (more : ℕ) (tail : 0x80 ≤ lo ∧ hi ≤ 0xBF)
  deriving DecidableEq

/-- Inside a character whose remaining bytes are any continuation bytes. -/
def State.tail (more : ℕ) : State := .within 0x80 0xBF more (by decide)

/-- The state after the first byte of a character. -/
def lead (b : UInt8) : Option State :=
  if b < 0x80 then some .boundary
  else if b < 0xC2 then none
  else if b < 0xE0 then some (.tail 0)
  else if b = 0xE0 then some (.within 0xA0 0xBF 1 (by decide))
  else if b = 0xED then some (.within 0x80 0x9F 1 (by decide))
  else if b < 0xF0 then some (.tail 1)
  else if b = 0xF0 then some (.within 0x90 0xBF 2 (by decide))
  else if b < 0xF4 then some (.tail 2)
  else if b = 0xF4 then some (.within 0x80 0x8F 2 (by decide))
  else none

/-- One byte. -/
def step : State → UInt8 → Option State
  | .boundary, b => lead b
  | .within lo hi more _, b =>
    if lo ≤ b ∧ b ≤ hi then
      match more with
      | 0 => some .boundary
      | more + 1 => some (.tail more)
    else none

/-- A string of bytes. -/
def run : State → Bytes → Option State
  | q, [] => some q
  | q, b :: s => (step q b).bind (run · s)

/-- The bytes are well-formed UTF-8. -/
def Valid (s : Bytes) : Prop := run .boundary s = some .boundary

instance (s : Bytes) : Decidable (Valid s) := inferInstanceAs (Decidable (_ = _))

/-! ## Concatenation -/

theorem run_append (q : State) (s t : Bytes) : run q (s ++ t) = (run q s).bind (run · t) := by
  induction s generalizing q with
  | nil => rfl
  | cons b s ih =>
    show (step q b).bind (run · (s ++ t)) = ((step q b).bind (run · s)).bind (run · t)
    rw [Option.bind_assoc]
    simp only [ih]

theorem valid_nil : Valid [] := rfl

theorem Valid.append {s t : Bytes} (hs : Valid s) (ht : Valid t) : Valid (s ++ t) := by
  unfold Valid at hs ht ⊢
  rw [run_append, hs]
  exact ht

/-- What follows a valid string decides whether the whole is valid. -/
theorem Valid.of_append_left {s t : Bytes} (h : Valid (s ++ t)) (hs : Valid s) : Valid t := by
  unfold Valid at h hs ⊢
  rw [run_append, hs] at h
  exact h

/-- The first byte of a character is not a continuation byte. -/
theorem step_within_of_lead {b : UInt8} (hb : (lead b).isSome) {lo hi : UInt8} {more : ℕ}
    (tail : 0x80 ≤ lo ∧ hi ≤ 0xBF) : step (.within lo hi more tail) b = none := by
  refine if_neg ?_
  rintro ⟨hlo, hhi⟩
  have h1 : ¬ b < 0x80 := not_lt.mpr (tail.1.trans hlo)
  have h2 : b < 0xC2 := lt_of_le_of_lt (hhi.trans tail.2) (by decide)
  simp [lead, h1, h2] at hb

/-- A byte that can begin a character is only accepted between two characters. -/
theorem eq_boundary_of_run {q r : State} {b : UInt8} {t : Bytes} (hb : (lead b).isSome)
    (h : run q (b :: t) = some r) : q = .boundary := by
  cases q with
  | boundary => rfl
  | within lo hi more tail =>
    rw [run, step_within_of_lead hb tail] at h
    exact absurd h (by simp)

/-- What stands before the beginning of a character is valid. -/
theorem Valid.of_append_lead {s t : Bytes} {b : UInt8} (hb : (lead b).isSome)
    (h : Valid (s ++ b :: t)) : Valid s := by
  unfold Valid at h ⊢
  rw [run_append] at h
  obtain ⟨q, hq, hrun⟩ := Option.bind_eq_some_iff.mp h
  rw [hq, eq_boundary_of_run hb hrun]

/-- **A valid end leaves a valid beginning.** -/
theorem Valid.of_append_right {s t : Bytes} (h : Valid (s ++ t)) (ht : Valid t) : Valid s := by
  cases t with
  | nil => rwa [List.append_nil] at h
  | cons b t =>
    obtain ⟨q, hq, -⟩ := Option.bind_eq_some_iff.mp ht
    exact h.of_append_lead (Option.isSome_iff_exists.mpr ⟨q, hq⟩)

/-! ## Texts that are valid -/

/-- A string of ASCII bytes. -/
theorem valid_of_ascii {s : Bytes} (h : ∀ b ∈ s, b < 0x80) : Valid s := by
  induction s with
  | nil => rfl
  | cons b s ih =>
    have hb : lead b = some .boundary := if_pos (h b (List.mem_cons_self ..))
    have hs : Valid s := ih fun c hc => h c (List.mem_cons_of_mem _ hc)
    show (lead b).bind (run · s) = some .boundary
    rw [hb]
    exact hs

/-- A single ASCII byte is a character. -/
theorem valid_singleton {b : UInt8} (h : b < 0x80) : Valid [b] :=
  valid_of_ascii fun c hc => by rwa [List.mem_singleton.mp hc]

/-- Where only ASCII bytes are replaced, and by valid strings, a valid string stays valid. -/
theorem Valid.flatMap {f : UInt8 → Bytes} (hascii : ∀ b < 0x80, Valid (f b))
    (hother : ∀ b, ¬ b < 0x80 → f b = [b]) {s : Bytes} (h : Valid s) : Valid (s.flatMap f) := by
  have hrun : ∀ (s : Bytes) (q r : State), run q s = some r → run q (s.flatMap f) = some r := by
    intro s
    induction s with
    | nil => exact fun _ _ h => h
    | cons b s ih =>
      intro q r h
      obtain ⟨q', hq', hs⟩ := Option.bind_eq_some_iff.mp h
      rw [List.flatMap_cons, run_append]
      by_cases hb : b < 0x80
      · have hlead : lead b = some .boundary := if_pos hb
        obtain rfl := eq_boundary_of_run (t := []) (r := q') (by rw [hlead]; rfl)
          (by rw [run, hq']; rfl)
        obtain rfl := Option.some.inj (hlead.symm.trans hq')
        rw [show run .boundary (f b) = some .boundary from hascii b hb]
        exact ih _ _ hs
      · rw [hother b hb, show run q [b] = some q' by rw [run, hq']; rfl]
        exact ih _ _ hs
  exact hrun s _ _ h

/-- What stands before the first NUL of a valid string is valid. -/
theorem Valid.cString {s : Bytes} (h : Valid s) : Valid (Bytes.cString s) := by
  by_cases hz : 0 ∈ s
  · obtain ⟨t, ht⟩ := Bytes.eq_cString_append hz
    rw [ht] at h
    exact h.of_append_lead (by decide)
  · rwa [Bytes.cString_eq_self hz]

example : Valid (utf8 "Статьи — 3,5K") := by decide
example : ¬ Valid [0xC0, 0x80] := by decide

end Utf8
end HabrDigest
