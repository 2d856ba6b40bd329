import Mathlib.Data.List.Infix
import Mathlib.Data.List.TakeWhile

/-!
# The first separator

A list is cut in two at the first place where a separator stands.  What is before that place has no
separator in it, and what is behind it may have any number of them; so a list that was joined from
two is cut where it was joined just when the first of the two has no separator (`before_append`
and `notMem_before`).
-/

namespace HabrDigest
namespace Separator

variable {α : Type*} [DecidableEq α] {c : α} {s : List α}

/-- What is before the first separator; everything, if there is none. -/
def before (c : α) (s : List α) : List α := s.takeWhile (· ≠ c)

/-- What is behind the first separator. -/
def behind (c : α) (s : List α) : List α := (s.dropWhile (· ≠ c)).tail

theorem notMem_before (c : α) (s : List α) : c ∉ before c s := fun h => by
  have hne := List.mem_takeWhile_imp h
  simp at hne

theorem before_subset (c : α) (s : List α) : before c s ⊆ s :=
  (List.takeWhile_prefix _).subset

theorem ne_of_notMem (h : c ∉ s) : ∀ a ∈ s, decide (a ≠ c) = true := fun _ ha =>
  decide_eq_true (ne_of_mem_of_not_mem ha h)

theorem before_eq_self (h : c ∉ s) : before c s = s :=
  List.takeWhile_eq_self_iff.mpr (ne_of_notMem h)

/-- A list without separators is passed over. -/
theorem before_append_of_notMem (h : c ∉ s) (t : List α) :
    before c (s ++ t) = s ++ before c t :=
  List.takeWhile_append_of_pos (ne_of_notMem h)

theorem behind_append_of_notMem (h : c ∉ s) (t : List α) :
    behind c (s ++ t) = behind c t :=
  congrArg List.tail (List.dropWhile_append_of_pos (ne_of_notMem h))

theorem before_cons_self (c : α) (t : List α) : before c (c :: t) = [] :=
  List.takeWhile_cons_of_neg (by simp)

theorem before_cons_of_ne {a : α} (h : a ≠ c) (t : List α) :
    before c (a :: t) = a :: before c t :=
  List.takeWhile_cons_of_pos (decide_eq_true h)

theorem behind_cons_self (c : α) (t : List α) : behind c (c :: t) = t :=
  congrArg List.tail (List.dropWhile_cons_of_neg (by simp))

/-- **A joined list is cut where it was joined.** -/
theorem before_append (h : c ∉ s) (t : List α) : before c (s ++ c :: t) = s := by
  rw [before_append_of_notMem h, before_cons_self, List.append_nil]

theorem behind_append (h : c ∉ s) (t : List α) : behind c (s ++ c :: t) = t := by
  rw [behind_append_of_notMem h, behind_cons_self]

/-- The two pieces make up a list that has a separator. -/
theorem before_append_behind (h : c ∈ s) : before c s ++ c :: behind c s = s := by
  obtain ⟨u, t, rfl, hu⟩ := List.eq_append_cons_of_mem h
  rw [before_append hu, behind_append hu]

end Separator
end HabrDigest
