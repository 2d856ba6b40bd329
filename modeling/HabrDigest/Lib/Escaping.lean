import Mathlib.Data.List.Infix
import Mathlib.Data.List.TakeDrop

/-!
# Escaping

A text is put into a document of another language by writing some of its symbols as words
(`escape`).  Every word begins with one mark, which is itself among the symbols that are
written so, and no word begins another one; an `Escaping` is a table with these properties.

Then a reader gets the text back (`unescape_escape`).  What is written is `Escaped`: the
symbols of the table do not occur in it, but for the mark, and the mark only at the beginning
of a word (`escaped_escape`).
-/

namespace HabrDigest

/-- Symbols and how they are written: the mark, and the word of the table. -/
structure Escaping (α : Type*) where
  mark : α
  /-- Each symbol with the rest of its word, behind the mark. -/
  table : List (α × List α)
  mark_mem : ∃ p ∈ table, p.1 = mark
  /-- No word begins another one. -/
  prefix_free : ∀ p ∈ table, ∀ q ∈ table, p.2 <+: q.2 → p = q
  /-- No symbol of the table stands in a word, the mark included. -/
  notMem_word : ∀ p ∈ table, ∀ q ∈ table, p.1 ∉ q.2

namespace Escaping

variable {α : Type*} (e : Escaping α)

/-! ## Escaped texts -/

/-- Nothing but the words uses a symbol of the table. -/
structure Escaped (s : List α) : Prop where
  notMem : ∀ p ∈ e.table, p.1 ≠ e.mark → p.1 ∉ s
  mark_word : ∀ u, e.mark :: u <:+ s → ∃ p ∈ e.table, p.2 <+: u

variable {e}

/-- A text without symbols of the table is escaped as it is. -/
theorem escaped_of_notMem {s : List α} (h : ∀ p ∈ e.table, p.1 ∉ s) : e.Escaped s where
  notMem p hp _ := h p hp
  mark_word u hu := by
    obtain ⟨p, hp, hmark⟩ := e.mark_mem
    exact absurd (hu.mem (List.mem_cons_self ..)) (hmark ▸ h p hp)

theorem Escaped.cons {a : α} {s : List α} (ha : ∀ p ∈ e.table, p.1 ≠ a) (hs : e.Escaped s) :
    e.Escaped (a :: s) where
  notMem p hp hne := List.not_mem_cons_of_ne_of_not_mem (ha p hp) (hs.notMem p hp hne)
  mark_word u hu := by
    rcases List.suffix_cons_iff.mp hu with heq | hsuffix
    · obtain ⟨p, hp, hmark⟩ := e.mark_mem
      exact absurd (hmark.trans (List.cons.inj heq).1) (ha p hp)
    · exact hs.mark_word u hsuffix

theorem Escaped.append_of_notMem {w s : List α} (hw : ∀ p ∈ e.table, p.1 ∉ w)
    (hs : e.Escaped s) : e.Escaped (w ++ s) := by
  induction w with
  | nil => exact hs
  | cons a w ih =>
    refine Escaped.cons (fun p hp heq => hw p hp (heq ▸ List.mem_cons_self ..)) (ih fun p hp h => ?_)
    exact hw p hp (List.mem_cons_of_mem _ h)

/-- A word in front of an escaped text. -/
theorem Escaped.word {p : α × List α} (hp : p ∈ e.table) {s : List α} (hs : e.Escaped s) :
    e.Escaped (e.mark :: p.2 ++ s) := by
  have hbehind : e.Escaped (p.2 ++ s) := hs.append_of_notMem fun q hq => e.notMem_word q hq p hp
  refine ⟨fun q hq hne => ?_, fun u hu => ?_⟩
  · exact List.not_mem_cons_of_ne_of_not_mem hne (hbehind.notMem q hq hne)
  · rcases List.suffix_cons_iff.mp hu with heq | hsuffix
    · exact ⟨p, hp, (List.cons.inj heq).2 ▸ List.prefix_append _ _⟩
    · exact hbehind.mark_word u hsuffix

/-! ## Writing and reading -/

variable [DecidableEq α] (e)

/-- How one symbol is written. -/
def escapeOne (a : α) : List α :=
  match e.table.find? (·.1 = a) with
  | some p => e.mark :: p.2
  | none => [a]

def escape (s : List α) : List α := s.flatMap e.escapeOne

/-- The text behind a number of symbols that are already read. -/
def unescapeFrom : ℕ → List α → List α
  | _, [] => []
  | k + 1, _ :: s => unescapeFrom k s
  | 0, a :: s =>
    if a = e.mark then
      match e.table.find? (·.2.isPrefixOf s) with
      | some p => p.1 :: unescapeFrom p.2.length s
      | none => a :: unescapeFrom 0 s
    else a :: unescapeFrom 0 s

/-- The text that was written: each word is read as its symbol. -/
def unescape (s : List α) : List α := e.unescapeFrom 0 s

variable {e}

theorem unescapeFrom_length (w s : List α) :
    e.unescapeFrom w.length (w ++ s) = e.unescapeFrom 0 s := by
  induction w with
  | nil => rfl
  | cons a w ih => exact ih

/-- The word that a text begins with is the only one. -/
theorem find?_word {p : α × List α} (hp : p ∈ e.table) (s : List α) :
    e.table.find? (·.2.isPrefixOf (p.2 ++ s)) = some p := by
  obtain ⟨q, hq⟩ : ∃ q, e.table.find? (·.2.isPrefixOf (p.2 ++ s)) = some q := by
    rw [← Option.isSome_iff_exists, List.find?_isSome]
    exact ⟨p, hp, List.isPrefixOf_iff_prefix.mpr (List.prefix_append _ _)⟩
  have hmem := List.mem_of_find?_eq_some hq
  have hprefix : q.2 <+: p.2 ++ s := by simpa using List.find?_some hq
  rcases List.prefix_or_prefix_of_prefix hprefix (List.prefix_append _ _) with h | h
  · rw [hq, e.prefix_free q hmem p hp h]
  · rw [hq, e.prefix_free p hp q hmem h]

/-- One symbol is read back. -/
theorem unescape_escapeOne_append (a : α) (s : List α) :
    e.unescape (e.escapeOne a ++ s) = a :: e.unescape s := by
  unfold escapeOne
  cases hfind : e.table.find? (·.1 = a) with
  | some p =>
    have ha : p.1 = a := by simpa using List.find?_some hfind
    have hread : e.unescape (e.mark :: p.2 ++ s) = p.1 :: e.unescapeFrom p.2.length (p.2 ++ s) := by
      rw [unescape, List.cons_append, unescapeFrom, if_pos rfl,
        find?_word (List.mem_of_find?_eq_some hfind)]
    rw [← ha]
    exact hread.trans (congrArg _ (unescapeFrom_length _ _))
  | none =>
    -- the mark is in the table, so a symbol that is not is no mark
    have hmark : a ≠ e.mark := by
      rintro rfl
      obtain ⟨p, hp, hmark⟩ := e.mark_mem
      exact absurd hmark (by simpa using List.find?_eq_none.mp hfind p hp)
    rw [unescape]
    exact if_neg hmark

/-- **What is written can be read back.** -/
theorem unescape_escape (s : List α) : e.unescape (e.escape s) = s := by
  induction s with
  | nil => rfl
  | cons a s ih =>
    rw [escape, List.flatMap_cons, unescape_escapeOne_append, ← escape, ih]

/-- **What is written is escaped.** -/
theorem escaped_escape (s : List α) : e.Escaped (e.escape s) := by
  induction s with
  | nil => exact escaped_of_notMem fun _ _ => List.not_mem_nil
  | cons a s ih =>
    rw [escape, List.flatMap_cons, ← escape, escapeOne]
    cases hfind : e.table.find? (·.1 = a) with
    | some p => exact ih.word (List.mem_of_find?_eq_some hfind)
    | none => exact ih.cons fun p hp => by simpa using List.find?_eq_none.mp hfind p hp

end Escaping
end HabrDigest
