import Mathlib.Data.Nat.ModEq
import Mathlib.Tactic

/-!
# End-around carries

Sums whose carries out of one digit of a base are added back at the low end. What is left
of a sum is its residue modulo the highest digit, that digit standing for zero, except of
the empty sum.
-/

namespace Tolkara

namespace Library

variable {m s t : ℕ}

/-- The residue of a sum in `1, …, m`, and zero of the sum zero. -/
def endAround (m s : ℕ) : ℕ := if s = 0 then 0 else (s - 1) % m + 1

theorem endAround_zero (m : ℕ) : endAround m 0 = 0 := rfl

theorem endAround_of_pos (m : ℕ) (h : 0 < s) : endAround m s = (s - 1) % m + 1 :=
  if_neg h.ne'

theorem endAround_le (hm : 0 < m) (s : ℕ) : endAround m s ≤ m := by
  rcases Nat.eq_zero_or_pos s with rfl | h
  · exact Nat.zero_le _
  · rw [endAround_of_pos m h]
    exact Nat.mod_lt _ hm

theorem endAround_modEq (m s : ℕ) : endAround m s ≡ s [MOD m] := by
  rcases Nat.eq_zero_or_pos s with rfl | h
  · exact Nat.ModEq.refl 0
  · have hmod := (Nat.mod_modEq (s - 1) m).add_right 1
    rwa [← endAround_of_pos m h, Nat.sub_add_cancel h] at hmod

/-- A number that is small enough is left as it is. -/
theorem endAround_of_le (h : s ≤ m) : endAround m s = s := by
  rcases Nat.eq_zero_or_pos s with rfl | hpos
  · rfl
  · rw [endAround_of_pos m hpos, Nat.mod_eq_of_lt (by omega)]
    exact Nat.sub_add_cancel hpos

theorem endAround_congr (hs : 0 < s) (ht : 0 < t) (h : s ≡ t [MOD m]) :
    endAround m s = endAround m t := by
  have hpred : s - 1 ≡ t - 1 [MOD m] := by
    refine Nat.ModEq.add_right_cancel' 1 ?_
    rwa [Nat.sub_add_cancel hs, Nat.sub_add_cancel ht]
  rw [endAround_of_pos m hs, endAround_of_pos m ht, hpred]

/-- The highest digit is what is left of the multiples of it. -/
theorem endAround_eq_top (hm : 0 < m) : endAround m s = m ↔ 0 < s ∧ m ∣ s := by
  constructor
  · intro h
    refine ⟨Nat.pos_of_ne_zero fun hs => ?_, ?_⟩
    · rw [hs, endAround_zero] at h
      exact hm.ne h
    · have hmod := endAround_modEq m s
      rw [h] at hmod
      exact (Nat.modEq_zero_iff_dvd).1 (hmod.symm.trans ((Nat.modEq_zero_iff_dvd).2 dvd_rfl))
  · rintro ⟨hs, hdvd⟩
    have hmod : s ≡ m [MOD m] :=
      ((Nat.modEq_zero_iff_dvd).2 hdvd).trans ((Nat.modEq_zero_iff_dvd).2 dvd_rfl).symm
    rw [endAround_congr hs hm hmod, endAround_of_le le_rfl]

theorem endAround_add_complement (hm : 0 < m) (hs : 0 < s) :
    endAround m (s + (m - endAround m s)) = m := by
  refine (endAround_eq_top hm).2 ⟨Nat.add_pos_left hs _, (Nat.modEq_zero_iff_dvd).1 ?_⟩
  calc s + (m - endAround m s)
      ≡ endAround m s + (m - endAround m s) [MOD m] := (endAround_modEq m s).symm.add_right _
    _ = m := Nat.add_sub_cancel' (endAround_le hm s)
    _ ≡ 0 [MOD m] := (Nat.modEq_zero_iff_dvd).2 dvd_rfl

/-! ## Folding -/

/-- The carries of a sum added back, until one digit is left or after so many turns. -/
def carries (base : ℕ) : ℕ → ℕ → ℕ
  | 0, s => s
  | turns + 1, s => if s / base = 0 then s else carries base turns (s % base + s / base)

theorem carry_modEq (m s : ℕ) : s % (m + 1) + s / (m + 1) ≡ s [MOD m] := by
  have hunit : m + 1 ≡ 1 [MOD m] := Nat.add_modEq_left
  calc s % (m + 1) + s / (m + 1)
      = s % (m + 1) + 1 * (s / (m + 1)) := by rw [Nat.one_mul]
    _ ≡ s % (m + 1) + (m + 1) * (s / (m + 1)) [MOD m] :=
        (hunit.symm.mul_right _).add_left _
    _ = s := Nat.mod_add_div s (m + 1)

theorem endAround_carry (m : ℕ) (hs : 0 < s) :
    endAround m (s % (m + 1) + s / (m + 1)) = endAround m s := by
  refine endAround_congr ?_ hs (carry_modEq m s)
  rcases Nat.eq_zero_or_pos (s / (m + 1)) with h | h
  · rw [Nat.mod_eq_of_lt ((Nat.div_eq_zero_iff_lt m.succ_pos).1 h)]
    exact Nat.add_pos_left hs _
  · exact Nat.add_pos_right _ h

/-- Two turns are enough for a sum of two digits. -/
theorem carries_eq {turns : ℕ} (hs : s < (m + 1) * (m + 1)) :
    carries (m + 1) (turns + 2) s = endAround m s := by
  -- One digit is left as it is, whatever the turns.
  have hdigit : ∀ n t, t ≤ m → carries (m + 1) n t = endAround m t := by
    intro n t ht
    have hzero : t / (m + 1) = 0 := Nat.div_eq_of_lt (Nat.lt_succ_of_le ht)
    rw [endAround_of_le ht]
    cases n with
    | zero => rfl
    | succ n => exact if_pos hzero
  rw [carries]
  split_ifs with hfirst
  · rw [endAround_of_le (Nat.lt_succ_iff.1 ((Nat.div_eq_zero_iff_lt m.succ_pos).1 hfirst))]
  · have hpos : 0 < s := Nat.pos_of_ne_zero fun h => hfirst (by rw [h, Nat.zero_div])
    have hhigh : s / (m + 1) ≤ m := Nat.lt_succ_iff.1 (Nat.div_lt_of_lt_mul hs)
    have hlow : s % (m + 1) ≤ m := Nat.lt_succ_iff.1 (Nat.mod_lt _ m.succ_pos)
    have hsum : s % (m + 1) + s / (m + 1) ≤ 2 * m := by omega
    rw [← endAround_carry m hpos]
    generalize s % (m + 1) + s / (m + 1) = t at hsum ⊢
    rw [carries]
    split_ifs with hsecond
    · rw [endAround_of_le (Nat.lt_succ_iff.1 ((Nat.div_eq_zero_iff_lt m.succ_pos).1 hsecond))]
    · -- The second carry is one.
      have hone : t / (m + 1) = 1 := by
        have hlt : t / (m + 1) < 2 := Nat.div_lt_of_lt_mul (by omega)
        have hge : 0 < t / (m + 1) := Nat.pos_of_ne_zero hsecond
        exact Nat.le_antisymm (Nat.lt_succ_iff.1 hlt) hge
      have hdiv := Nat.div_add_mod t (m + 1)
      rw [hone, Nat.mul_one] at hdiv
      have hlast : t % (m + 1) + t / (m + 1) ≤ m := by omega
      have htpos : 0 < t := by omega
      rw [hdigit turns _ hlast, endAround_carry m htpos]

end Library

end Tolkara
