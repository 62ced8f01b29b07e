import Mathlib.Data.BitVec
import Mathlib.Tactic

/-!
# Serial numbers

Positions of an unbounded stream counted modulo `2 ^ w`. Two positions less than
half the circle apart are compared by the sign of their difference, and the
sign, or the difference itself, is then that of the positions.
-/

namespace Tolkara

namespace SerialNumber

variable {w : ℕ}

/-- The distance of two positions, from their serial numbers. -/
theorem toInt_sub {b : BitVec w} {x y : ℤ} (hlow : -2 ^ w ≤ (x - y) * 2)
    (hhigh : (x - y) * 2 < 2 ^ w) :
    (b + BitVec.ofInt w x - (b + BitVec.ofInt w y)).toInt = x - y := by
  have hsub : b + BitVec.ofInt w x - (b + BitVec.ofInt w y) = BitVec.ofInt w (x - y) := by
    rw [add_sub_add_left_eq_sub, sub_eq_add_neg x y, BitVec.ofInt_add, BitVec.ofInt_neg]
    exact BitVec.sub_eq_add_neg _ _
  rw [hsub, BitVec.toInt_ofInt]
  refine Int.bmod_eq_of_le_mul_two ?_ ?_
  · push_cast
    exact hlow
  · push_cast
    exact hhigh

theorem toInt_neg_iff (d : BitVec w) : d.toInt < 0 ↔ 2 ^ w ≤ 2 * d.toNat := by
  rw [BitVec.toInt_eq_toNat_cond]
  have hlt : (d.toNat : ℤ) < 2 ^ w := by
    exact_mod_cast d.isLt
  split
  · rename_i h
    constructor
    · intro hneg
      omega
    · intro hle
      omega
  · rename_i h
    constructor
    · intro _
      omega
    · intro _
      push_cast
      omega

/-- A serial number that neither precedes the start of a short window nor follows
its end lies in the window. -/
theorem exists_of_window {start stop x : BitVec w} {n : ℕ} (hn : 2 * n < 2 ^ w)
    (hstop : stop = start + BitVec.ofNat w n) (hlow : ¬(x - start).toInt < 0)
    (hhigh : ¬(stop - x).toInt < 0) :
    (x - start).toNat ≤ n ∧ x = start + BitVec.ofNat w (x - start).toNat := by
  have hx : x = start + (x - start) := by
    ring
  have hrest : stop - x = BitVec.ofNat w n - (x - start) := by
    rw [hstop]
    ring
  rw [toInt_neg_iff] at hlow hhigh
  have hmod : n % 2 ^ w = n := Nat.mod_eq_of_lt (by omega)
  rw [hrest, BitVec.toNat_sub, BitVec.toNat_ofNat, hmod] at hhigh
  have hlt := (x - start).isLt
  refine ⟨?_, ?_⟩
  · by_contra hcon
    have hsmall : 2 ^ w - (x - start).toNat + n < 2 ^ w := by
      omega
    rw [Nat.mod_eq_of_lt hsmall] at hhigh
    omega
  · rw [BitVec.ofNat_toNat, BitVec.setWidth_eq]
    exact hx

/-- Two positions of a short window have the same serial number only if they are
the same. -/
theorem eq_of_ofNat_eq {m n : ℕ} (hm : m < 2 ^ w) (hn : n < 2 ^ w)
    (h : BitVec.ofNat w m = BitVec.ofNat w n) : m = n := by
  have := congrArg BitVec.toNat h
  rwa [BitVec.toNat_ofNat, BitVec.toNat_ofNat, Nat.mod_eq_of_lt hm, Nat.mod_eq_of_lt hn] at this

end SerialNumber

end Tolkara
