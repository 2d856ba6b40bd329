import Mathlib.Order.Lattice

/-!
# The last writer and the newest one

Writes to one place come with a stamp, and they come in any order.  The place holds what the
last write left there (`value` of the last entry of the log); it should hold what the newest
one says.  `shows_append_iff` is the difference: a write keeps the place right exactly when no
newest entry of the log is newer than it, or when they say the same.
-/

namespace HabrDigest
namespace LastWriter

variable {α κ β : Type*} [LinearOrder κ] (stamp : α → κ) (value : α → β)

/-- An entry of the log that no other is newer than. -/
def Newest (log : List α) (w : α) : Prop := w ∈ log ∧ ∀ w' ∈ log, stamp w' ≤ stamp w

/-- What the newest entries of the log say. -/
def Shows (log : List α) (v : β) : Prop := ∀ w, Newest stamp log w → value w = v

variable {stamp value}

/-- Without a write there is nothing to show. -/
theorem shows_nil (v : β) : Shows stamp value [] v := fun _ h => absurd h.1 List.not_mem_nil

/-- **A write keeps what is shown**, exactly when it is not older than the newest ones or says
the same.  Writes with one stamp are one write. -/
theorem shows_append_iff {log : List α} {w : α}
    (hstamp : ∀ w' ∈ log, stamp w' = stamp w → value w' = value w) :
    Shows stamp value (log ++ [w]) (value w) ↔
      ∀ w', Newest stamp log w' → stamp w' ≤ stamp w ∨ value w' = value w := by
  constructor
  · intro h w' hnewest
    rcases le_or_gt (stamp w') (stamp w) with hle | hlt
    · exact Or.inl hle
    · refine Or.inr (h w' ⟨List.mem_append_left _ hnewest.1, fun w'' hw'' => ?_⟩)
      rcases List.mem_append.mp hw'' with hold | hnew
      · exact hnewest.2 w'' hold
      · exact List.mem_singleton.mp hnew ▸ le_of_lt hlt
  · intro h w' hnewest
    rcases List.mem_append.mp hnewest.1 with hold | hnew
    · have hlog : Newest stamp log w' :=
        ⟨hold, fun w'' hw'' => hnewest.2 w'' (List.mem_append_left _ hw'')⟩
      rcases h w' hlog with hle | hvalue
      · -- the write is not older, so it has the same stamp
        have hge : stamp w ≤ stamp w' := hnewest.2 w (List.mem_append_right _ (by simp))
        exact hstamp w' hold (le_antisymm hle hge)
      · exact hvalue
    · rw [List.mem_singleton.mp hnew]

end LastWriter
end HabrDigest
