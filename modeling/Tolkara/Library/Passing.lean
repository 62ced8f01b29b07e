import Mathlib.Order.Bounds.Basic
import Mathlib.Tactic

/-!
# Indices that pass a test

The indices below a bound that pass a test, in their order, and the end of the last one:
from there on, and from no earlier index on, none passes.
-/

namespace Tolkara

namespace Library

variable (test : ℕ → Bool)

def passing (n : ℕ) : List ℕ := (List.range n).filter test

theorem passing_succ (n : ℕ) :
    passing test (n + 1) = passing test n ++ if test n then [n] else [] := by
  rw [passing, List.range_succ, List.filter_append, List.filter_singleton]
  cases test n with
  | true => rfl
  | false => rfl

variable {test}

theorem passing_eq_nil_iff {n : ℕ} : passing test n = [] ↔ ∀ i < n, test i = false := by
  rw [passing, List.filter_eq_nil_iff]
  simp only [List.mem_range, Bool.not_eq_true]

/-- Indices that do not pass add nothing. -/
theorem passing_add {n k : ℕ} (h : ∀ i < k, test (n + i) = false) :
    passing test (n + k) = passing test n := by
  induction k with
  | zero => rfl
  | succ k ih =>
      rw [← Nat.add_assoc, passing_succ, h k (Nat.lt_succ_self k),
        ih fun i hi => h i (Nat.lt_succ_of_lt hi)]
      exact List.append_nil _

/-! ## The last one -/

/-- The end of the last index below `n` that passes. -/
def endOf (test : ℕ → Bool) : ℕ → ℕ
  | 0 => 0
  | n + 1 => if test n then n + 1 else endOf test n

theorem endOf_isLeast (n : ℕ) :
    IsLeast {k | ∀ i, k ≤ i → i < n → test i = false} (endOf test n) := by
  induction n with
  | zero => exact ⟨fun i _ hi => absurd hi (Nat.not_lt_zero i), fun _ _ => Nat.zero_le _⟩
  | succ n ih =>
      rw [endOf]
      split
      · rename_i hlast
        refine ⟨fun i hi hlt => absurd hlt (Nat.not_lt.2 hi), fun k hk => ?_⟩
        by_contra hbefore
        have hfails := hk n (by omega) (Nat.lt_succ_self n)
        rw [hfails] at hlast
        cases hlast
      · rename_i hlast
        refine ⟨fun i hi hlt => ?_, fun k hk => ih.2 fun i hi hlt => ?_⟩
        · rcases Nat.lt_succ_iff_lt_or_eq.1 hlt with hless | rfl
          · exact ih.1 i hi hless
          · exact Bool.eq_false_of_not_eq_true hlast
        · exact hk i hi (Nat.lt_succ_of_lt hlt)

end Library

end Tolkara
