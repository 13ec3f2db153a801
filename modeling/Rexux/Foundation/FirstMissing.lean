import Mathlib.Algebra.BigOperators.Group.Finset.Basic
import Mathlib.Data.Fintype.EquivFin

/-!
# The first number that has not arrived

Numbered items arrive in any order.  `firstMissing` is the number a receiver who
wants them in order is waiting for.
-/

namespace Foundation

theorem exists_not_mem (arrived : Finset ℕ) : ∃ n, n ∉ arrived :=
  Infinite.exists_notMem_finset arrived

/-- The least number that has not arrived. -/
def firstMissing (arrived : Finset ℕ) : ℕ := Nat.find (exists_not_mem arrived)

/-- The first missing number has all before it. -/
theorem firstMissing_eq {arrived : Finset ℕ} {n : ℕ} (hbefore : ∀ m < n, m ∈ arrived)
    (hnot : n ∉ arrived) : firstMissing arrived = n :=
  (Nat.find_eq_iff _).mpr ⟨hnot, fun m hm => not_not.mpr (hbefore m hm)⟩

end Foundation
