import Mathlib.Data.List.Infix
import Mathlib.Data.List.TakeWhile

/-!
# Tokens

The tokens of a list are the maximal runs of elements that are not separators.  Core's
`splitOnP` cuts at every separator, so that two separators next to each other leave an
empty piece between them; the tokens are the pieces that are not empty.

Everything follows from what one separator does, `tokens_append_cons`: it cuts the tokens in
two.  A padded word, `c :: w ++ [c]`, is found inside a padded list only where `w` is a token
(`mem_tokens_of_infix`); and where the tokens are joined by single separators it is found
there for every one of them (`infix_padded_intercalate`).
-/

namespace HabrDigest
namespace Tokens

variable {α : Type*} {p : α → Bool}

/-- The tokens of a list, for separators `p`. -/
def tokens (p : α → Bool) (s : List α) : List (List α) := (s.splitOnP p).filter (!·.isEmpty)

/-- A word: not empty, and without separators. -/
def IsWord (p : α → Bool) (w : List α) : Prop := w ≠ [] ∧ ∀ a ∈ w, p a = false

@[simp] theorem tokens_nil : tokens p [] = [] := rfl

/-- **A separator cuts the tokens in two.** -/
theorem tokens_append_cons {c : α} (hc : p c = true) (s t : List α) :
    tokens p (s ++ c :: t) = tokens p s ++ tokens p t := by
  rw [tokens, List.splitOnP_append_cons s t hc, List.filter_append]
  rfl

theorem tokens_cons_sep {c : α} (hc : p c = true) (s : List α) :
    tokens p (c :: s) = tokens p s :=
  tokens_append_cons hc [] s

theorem tokens_concat_sep {c : α} (hc : p c = true) (s : List α) :
    tokens p (s ++ [c]) = tokens p s := by
  rw [tokens_append_cons hc, tokens_nil, List.append_nil]

/-- A word is its only token. -/
theorem tokens_word {w : List α} (h : IsWord p w) : tokens p w = [w] := by
  rw [tokens, List.splitOnP_eq_singleton h.2]
  cases w with
  | nil => exact absurd rfl h.1
  | cons a w => rfl

/-- A word before a separator is the first token. -/
theorem tokens_word_append {w : List α} (h : IsWord p w) {c : α} (hc : p c = true) (s : List α) :
    tokens p (w ++ c :: s) = w :: tokens p s := by
  rw [tokens_append_cons hc, tokens_word h]
  rfl

/-- A letter and the letters behind it are a word. -/
theorem isWord_cons_takeWhile {a : α} (ha : p a = false) (s : List α) :
    IsWord p (a :: s.takeWhile (!p ·)) := by
  refine ⟨by simp, List.forall_mem_cons.mpr ⟨ha, fun b hb => ?_⟩⟩
  simpa using List.mem_takeWhile_imp hb

/-- The tokens of a list that begins with a letter: the first run of letters, and the tokens
behind it. -/
theorem tokens_cons_letter {a : α} (ha : p a = false) (s : List α) :
    tokens p (a :: s) = (a :: s.takeWhile (!p ·)) :: tokens p (s.dropWhile (!p ·)) := by
  have hword := isWord_cons_takeWhile ha s
  cases hs : s.dropWhile (!p ·) with
  | nil =>
    have hall : s.takeWhile (!p ·) = s :=
      List.takeWhile_eq_self_iff.mpr (List.dropWhile_eq_nil_iff.mp hs)
    rw [hall] at hword ⊢
    exact tokens_word hword
  | cons c t =>
    have hc : p c = true := by
      have hhead := List.head?_dropWhile_not (!p ·) s
      rw [hs] at hhead
      simpa using hhead
    have hsplit : s = s.takeWhile (!p ·) ++ c :: t := by
      rw [← hs, List.takeWhile_append_dropWhile]
    conv_lhs => rw [hsplit, ← List.cons_append]
    rw [tokens_word_append hword hc, tokens_cons_sep hc]

/-- **Tokens are words.** -/
theorem isWord_of_mem_tokens {w s : List α} (h : w ∈ tokens p s) : IsWord p w := by
  -- by the length of the list: what follows a letter is behind the whole token
  induction hn : s.length using Nat.strong_induction_on generalizing s with
  | _ n ih =>
    cases s with
    | nil => exact absurd h (by simp)
    | cons a s =>
      cases ha : p a with
      | true =>
        rw [tokens_cons_sep ha] at h
        exact ih s.length (by rw [← hn]; exact Nat.lt_succ_self _) h rfl
      | false =>
        rw [tokens_cons_letter ha] at h
        rcases List.mem_cons.mp h with rfl | h
        · exact isWord_cons_takeWhile ha s
        · refine ih (s.dropWhile (!p ·)).length ?_ h rfl
          rw [← hn]
          exact Nat.lt_succ_of_le (List.dropWhile_suffix _).length_le

/-! ## Joining words -/

/-- Words behind one another, each with a separator before it. -/
def spaced (c : α) (ws : List (List α)) : List α := ws.flatMap (c :: ·)

theorem intercalate_cons (c : α) (w : List α) (ws : List (List α)) :
    [c].intercalate (w :: ws) = w ++ spaced c ws := by
  induction ws generalizing w with
  | nil => simp [spaced]
  | cons v ws ih =>
    rw [List.intercalate_cons_cons, ih]
    simp [spaced]

/-- **Joined words are read back.** -/
theorem tokens_intercalate {c : α} (hc : p c = true) {ws : List (List α)}
    (h : ∀ w ∈ ws, IsWord p w) : tokens p ([c].intercalate ws) = ws := by
  induction ws with
  | nil => rfl
  | cons w ws ih =>
    have hw := h w (List.mem_cons_self ..)
    have hws := ih fun v hv => h v (List.mem_cons_of_mem _ hv)
    cases ws with
    | nil =>
      rw [intercalate_cons, spaced, List.flatMap_nil, List.append_nil, tokens_word hw]
    | cons v ws =>
      rw [List.intercalate_cons_cons, List.append_assoc, List.singleton_append,
        tokens_word_append hw hc, hws]

/-! ## Padded words -/

/-- A word that is found between separators is a token. -/
theorem mem_tokens_of_infix {c : α} (hc : p c = true) {w s : List α} (hw : IsWord p w)
    (h : c :: (w ++ [c]) <:+: s) : w ∈ tokens p s := by
  obtain ⟨a, b, hab⟩ := h
  have hs : s = a ++ c :: (w ++ c :: b) := by
    rw [← hab]
    simp
  rw [hs, tokens_append_cons hc, tokens_word_append hw hc]
  simp

/-- Each of the words is found between separators, when they are joined and padded. -/
theorem infix_padded_intercalate (c : α) {w : List α} {ws : List (List α)} (h : w ∈ ws) :
    c :: (w ++ [c]) <:+: c :: ([c].intercalate ws ++ [c]) := by
  induction ws with
  | nil => exact absurd h (by simp)
  | cons v ws ih =>
    cases ws with
    | nil =>
      obtain rfl := List.mem_singleton.mp h
      rw [intercalate_cons, spaced, List.flatMap_nil, List.append_nil]
    | cons u ws =>
      rw [List.intercalate_cons_cons]
      rcases List.mem_cons.mp h with rfl | h
      · refine ⟨[], [c].intercalate (u :: ws) ++ [c], ?_⟩
        simp
      · refine (ih h).trans ⟨c :: v, [], ?_⟩
        simp

/-- **Words are tokens where they are found padded.** -/
theorem infix_padded_iff {c : α} (hc : p c = true) {w : List α} (hw : IsWord p w)
    (ws : List (List α)) (hws : ∀ v ∈ ws, IsWord p v) :
    c :: (w ++ [c]) <:+: c :: ([c].intercalate ws ++ [c]) ↔ w ∈ ws := by
  refine ⟨fun h => ?_, infix_padded_intercalate c⟩
  have hmem := mem_tokens_of_infix hc hw h
  rwa [tokens_cons_sep hc, tokens_concat_sep hc, tokens_intercalate hc hws] at hmem

example : tokens (· == 0) [0, 1, 2, 0, 0, 3] = [[1, 2], [3]] := by decide

end Tokens
end HabrDigest
