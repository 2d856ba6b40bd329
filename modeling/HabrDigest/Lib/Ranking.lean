import Mathlib.Data.List.Sort
import Mathlib.Order.Basic

/-!
# Ranking rows

`ORDER BY` as a list of rows sorted by a key from a linear order, and `LIMIT` as a prefix
of it.

Two things are needed about a ranking.  It does not depend on the order in which the rows
were stored, as long as their keys differ (`rankBy_eq_of_perm`).  And whether a prefix
contains a row of some kind is a matter of counting the rows before that kind
(`exists_mem_take_iff`), provided the kind is an interval of the order.
-/

namespace HabrDigest
namespace Ranking

variable {ρ β : Type} [LinearOrder β]

/-- The rows in the order of their keys. -/
def rankBy (f : ρ → β) (rows : List ρ) : List ρ := rows.insertionSort fun a b => f a ≤ f b

variable (f : ρ → β)

theorem rankBy_perm (rows : List ρ) : (rankBy f rows).Perm rows :=
  List.perm_insertionSort _ rows

theorem mem_rankBy {rows : List ρ} {r : ρ} : r ∈ rankBy f rows ↔ r ∈ rows :=
  (rankBy_perm f rows).mem_iff

theorem rankBy_pairwise (rows : List ρ) : (rankBy f rows).Pairwise fun a b => f a ≤ f b := by
  have : Std.Total fun a b : ρ => f a ≤ f b := ⟨fun a b => le_total (f a) (f b)⟩
  have : IsTrans ρ fun a b : ρ => f a ≤ f b := ⟨fun _ _ _ hab hbc => le_trans hab hbc⟩
  exact List.pairwise_insertionSort _ rows

/-- Rows with distinct keys are ranked strictly. -/
theorem rankBy_pairwise_lt {rows : List ρ} (hnodup : (rows.map f).Nodup) :
    (rankBy f rows).Pairwise fun a b => f a < f b := by
  have hne : (rankBy f rows).Pairwise fun a b => f a ≠ f b :=
    List.pairwise_map.mp (((rankBy_perm f rows).map f).nodup_iff.mpr hnodup)
  exact (rankBy_pairwise f rows).imp₂ (fun _ _ hle hne => lt_of_le_of_ne hle hne) hne

/-- **The ranking does not depend on the order of the rows.** -/
theorem rankBy_eq_of_perm {rows rows' : List ρ} (h : rows.Perm rows')
    (hnodup : (rows.map f).Nodup) : rankBy f rows = rankBy f rows' := by
  have hperm : (rankBy f rows).Perm (rankBy f rows') :=
    ((rankBy_perm f rows).trans h).trans (rankBy_perm f rows').symm
  have hlt := rankBy_pairwise_lt f hnodup
  have hlt' := rankBy_pairwise_lt f ((h.map f).nodup_iff.mp hnodup)
  exact hperm.eq_of_pairwise (fun a b _ _ hab hba => absurd hab (lt_asymm hba)) hlt hlt'

/-- Rows may be changed before they are ranked or after, if that leaves their keys. -/
theorem map_rankBy {g : ρ → ρ} (hg : ∀ r, f (g r) = f r) (rows : List ρ) :
    (rankBy f rows).map g = rankBy f (rows.map g) :=
  List.map_insertionSort _ _ g rows fun a _ b _ => by rw [hg, hg]

/-- **Which kinds of rows a prefix shows.**  If the rows that satisfy `P` come first and are
followed by those that satisfy `Q`, a prefix shows one of the latter exactly when it is
longer than the former, and there is one. -/
theorem exists_mem_take_iff {P Q : ρ → Bool} (hP : ∀ a b, f a ≤ f b → P b → P a)
    (hPQ : ∀ a b, f a ≤ f b → Q b → P a ∨ Q a) (hQ : ∀ a, Q a → ¬ P a) {l : List ρ}
    (hl : l.Pairwise fun a b => f a ≤ f b) (n : ℕ) :
    (∃ a ∈ l.take n, Q a) ↔ (∃ a ∈ l, Q a) ∧ (l.filter P).length < n := by
  induction l generalizing n with
  | nil => simp
  | cons a l ih =>
    obtain ⟨hle, hl⟩ := List.pairwise_cons.mp hl
    cases n with
    | zero => simp
    | succ n =>
      rw [List.take_succ_cons, List.exists_mem_cons_iff, List.exists_mem_cons_iff, ih hl]
      by_cases hPa : P a = true
      · have hQa : ¬ Q a = true := fun h => hQ a h hPa
        rw [List.filter_cons_of_pos hPa, List.length_cons]
        simp [hQa]
      · rw [List.filter_cons_of_neg hPa]
        by_cases hQa : Q a = true
        · have hnil : l.filter P = [] := List.filter_eq_nil_iff.mpr fun b hb hPb =>
            hPa (hP a b (hle b hb) hPb)
          simp [hQa, hnil]
        · have hnone : ¬ ∃ b ∈ l, Q b = true := fun ⟨b, hb, hQb⟩ =>
            (hPQ a b (hle b hb) hQb).elim hPa hQa
          simp only [hQa, hnone, false_and, or_self, Bool.false_eq_true]

end Ranking
end HabrDigest
