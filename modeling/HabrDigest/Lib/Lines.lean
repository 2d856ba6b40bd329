import Mathlib.Algebra.Order.BigOperators.Group.List
import Mathlib.Algebra.Order.Ring.Nat

/-!
# Lines

A program that writes a file line by line puts a terminator behind each line
(`unlines`); a reader gets back the lines between the terminators (`lines`).  The two agree
when no line has a terminator in it (`lines_unlines`).  When one has, the reader finds more
lines than were written, one for every terminator (`length_lines_unlines`); so the number of
lines alone tells whether they agree (`length_lines_unlines_iff`).
-/

namespace HabrDigest
namespace Lines

variable {α : Type*} [BEq α] [LawfulBEq α] (c : α)

/-- The lines, each with its terminator. -/
def unlines (ls : List (List α)) : List α := ls.flatMap (· ++ [c])

/-- What stands between the terminators; nothing stands behind the last one. -/
def lines (s : List α) : List (List α) :=
  match (s.splitOn c).getLast? with
  | some [] => (s.splitOn c).dropLast
  | _ => s.splitOn c

variable {c}

omit [BEq α] [LawfulBEq α] in
theorem unlines_cons (l : List α) (ls : List (List α)) :
    unlines c (l :: ls) = l ++ c :: unlines c ls := by
  rw [unlines, List.flatMap_cons, List.append_assoc]
  rfl

omit [BEq α] [LawfulBEq α] in
theorem unlines_append (ls ls' : List (List α)) :
    unlines c (ls ++ ls') = unlines c ls ++ unlines c ls' :=
  List.flatMap_append

/-- Behind the last terminator there is nothing. -/
theorem splitOn_unlines_getLast (ls : List (List α)) :
    ((unlines c ls).splitOn c).getLast? = some [] := by
  induction ls with
  | nil => rfl
  | cons l ls ih =>
    rw [unlines_cons, List.splitOn_append_cons_self,
      List.getLast?_append_of_ne_nil _ (List.splitOn_ne_nil c _), ih]

theorem lines_unlines_eq (ls : List (List α)) :
    lines c (unlines c ls) = ((unlines c ls).splitOn c).dropLast := by
  rw [lines, splitOn_unlines_getLast]

/-- **Lines without terminators are read back.** -/
theorem lines_unlines {ls : List (List α)} (h : ∀ l ∈ ls, c ∉ l) :
    lines c (unlines c ls) = ls := by
  rw [lines_unlines_eq]
  induction ls with
  | nil => rfl
  | cons l ls ih =>
    have hls := ih fun m hm => h m (List.mem_cons_of_mem _ hm)
    rw [unlines_cons, List.splitOn_append_cons_self_of_not_mem (h l (List.mem_cons_self ..)),
      List.dropLast_cons_of_ne_nil (List.splitOn_ne_nil c _), hls]

omit [LawfulBEq α] in
/-- A list is cut into one piece more than it has separators. -/
theorem length_splitOn (s : List α) : (s.splitOn c).length = s.count c + 1 := by
  induction s with
  | nil => rfl
  | cons a s ih =>
    rw [List.splitOn_cons_eq_if_modifyHead, List.count_cons]
    split
    · rw [List.length_cons, ih]
    · rw [List.length_modifyHead, ih, Nat.add_zero]

theorem count_unlines (ls : List (List α)) :
    (unlines c ls).count c = ls.length + (ls.map (List.count c)).sum := by
  induction ls with
  | nil => rfl
  | cons l ls ih =>
    rw [unlines_cons, List.count_append, List.count_cons_self, ih, List.map_cons, List.sum_cons,
      List.length_cons]
    omega

/-- **Every terminator makes a line.** -/
theorem length_lines_unlines (ls : List (List α)) :
    (lines c (unlines c ls)).length = ls.length + (ls.map (List.count c)).sum := by
  rw [lines_unlines_eq, List.length_dropLast, length_splitOn, count_unlines, Nat.add_sub_cancel]

/-- **As many lines are read as were written**, exactly when no line has a terminator. -/
theorem length_lines_unlines_iff (ls : List (List α)) :
    (lines c (unlines c ls)).length = ls.length ↔ ∀ l ∈ ls, c ∉ l := by
  rw [length_lines_unlines, Nat.add_eq_left, List.sum_eq_zero_iff]
  simp only [List.forall_mem_map, List.count_eq_zero]

example : lines 0 [1, 2, 0, 0, 3, 0] = [[1, 2], [], [3]] := by decide

end Lines
end HabrDigest
