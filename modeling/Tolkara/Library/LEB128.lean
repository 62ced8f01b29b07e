import Mathlib.Tactic

/-!
# LEB128

A number as bytes of seven bits each, the lowest first, where every byte but the last has its
high bit set. `Number` says that bytes are one such number, `unsignedValue` and `signedValue`
what they stand for, and `unsigned` and `signed` are the shortest bytes of a number.
-/

namespace Tolkara

namespace Library

namespace LEB128

/-! ## The bytes of a number -/

/-- Every byte but the last has its high bit set. -/
inductive Number : List UInt8 → Prop
  | last {b : UInt8} (hb : b.toNat < 128) : Number [b]
  | more {b : UInt8} {digits : List UInt8} (hb : 128 ≤ b.toNat) (h : Number digits) :
      Number (b :: digits)

def unsignedValue : List UInt8 → ℕ
  | [] => 0
  | b :: digits => b.toNat % 128 + 128 * unsignedValue digits

/-- The bit of 64 in the last byte is the sign. -/
def signedValue : List UInt8 → ℤ
  | [] => 0
  | [b] => if b.toNat % 128 < 64 then (b.toNat % 128 : ℕ) else (b.toNat % 128 : ℕ) - 128
  | b :: c :: digits => (b.toNat % 128 : ℕ) + 128 * signedValue (c :: digits)

def unsigned (n : ℕ) : List UInt8 :=
  if n < 128 then [UInt8.ofNat n]
  else UInt8.ofNat (n % 128 + 128) :: unsigned (n / 128)
termination_by n
decreasing_by omega

def signed (n : ℤ) : List UInt8 :=
  if -64 ≤ n ∧ n < 64 then [UInt8.ofNat (n % 128).toNat]
  else UInt8.ofNat ((n % 128).toNat + 128) :: signed (n / 128)
termination_by n.natAbs
decreasing_by omega

theorem Number.length_pos {digits : List UInt8} (h : Number digits) : 0 < digits.length := by
  cases h <;> exact Nat.succ_pos _

theorem Number.append_inj {digits digits' rest rest' : List UInt8} (h : Number digits)
    (h' : Number digits') (heq : digits ++ rest = digits' ++ rest') : digits = digits' := by
  induction h generalizing digits' with
  | @last b hb =>
      cases h' with
      | last hc =>
          injection heq with hbc _
          rw [hbc]
      | more hc h' =>
          injection heq with hbc _
          rw [hbc] at hb
          omega
  | @more b digits hb h ih =>
      cases h' with
      | last hc =>
          injection heq with hbc _
          rw [hbc] at hb
          omega
      | more hc h' =>
          injection heq with hbc htail
          rw [hbc, ih h' htail]

theorem signedValue_cons {digits : List UInt8} (h : Number digits) (b : UInt8) :
    signedValue (b :: digits) = (b.toNat % 128 : ℕ) + 128 * signedValue digits := by
  cases h <;> rfl

theorem signedValue_last_bounds (b : UInt8) : -64 ≤ signedValue [b] ∧ signedValue [b] < 64 := by
  have hmod : b.toNat % 128 < 128 := Nat.mod_lt _ (by norm_num)
  rw [signedValue]
  split <;> omega

/-! ## The shortest bytes -/

theorem toNat_ofNat_of_lt {n : ℕ} (h : n < 256) : (UInt8.ofNat n).toNat = n :=
  UInt8.toNat_ofNat_of_lt' h

theorem number_unsigned (n : ℕ) : Number (unsigned n) := by
  induction n using Nat.strong_induction_on with
  | _ n ih =>
      rw [unsigned]
      by_cases hn : n < 128
      · rw [if_pos hn]
        exact .last (by rw [toNat_ofNat_of_lt (by omega)]; exact hn)
      · rw [if_neg hn]
        exact .more (by rw [toNat_ofNat_of_lt (by omega)]; omega) (ih _ (by omega))

theorem unsignedValue_unsigned (n : ℕ) : unsignedValue (unsigned n) = n := by
  induction n using Nat.strong_induction_on with
  | _ n ih =>
      rw [unsigned]
      by_cases hn : n < 128
      · rw [if_pos hn, unsignedValue, unsignedValue, toNat_ofNat_of_lt (by omega)]
        omega
      · rw [if_neg hn, unsignedValue, ih _ (by omega), toNat_ofNat_of_lt (by omega)]
        omega

theorem length_unsigned_le {n : ℕ} (k : ℕ) (h : n < 128 ^ (k + 1)) :
    (unsigned n).length ≤ k + 1 := by
  induction k generalizing n with
  | zero =>
      rw [unsigned, if_pos (by simpa using h)]
      exact le_rfl
  | succ k ih =>
      rw [unsigned]
      by_cases hn : n < 128
      · rw [if_pos hn, List.length_singleton]
        omega
      · have hdiv : n / 128 < 128 ^ (k + 1) := Nat.div_lt_of_lt_mul (by rw [← pow_succ']; exact h)
        rw [if_neg hn, List.length_cons]
        exact Nat.succ_le_succ (ih hdiv)

theorem signed_induction {motive : ℤ → Prop}
    (small : ∀ n, -64 ≤ n → n < 64 → motive n)
    (large : ∀ n, ¬ (-64 ≤ n ∧ n < 64) → motive (n / 128) → motive n) (n : ℤ) : motive n := by
  induction hk : n.natAbs using Nat.strong_induction_on generalizing n with
  | _ k ih =>
      by_cases hn : -64 ≤ n ∧ n < 64
      · exact small n hn.1 hn.2
      · exact large n hn (ih (n / 128).natAbs (by omega) _ rfl)

theorem number_signed (n : ℤ) : Number (signed n) := by
  induction n using signed_induction with
  | small n hlo hhi =>
      rw [signed, if_pos ⟨hlo, hhi⟩]
      exact .last (by rw [toNat_ofNat_of_lt (by omega)]; omega)
  | large n hn ih =>
      rw [signed, if_neg hn]
      exact .more (by rw [toNat_ofNat_of_lt (by omega)]; omega) ih

theorem signedValue_signed (n : ℤ) : signedValue (signed n) = n := by
  induction n using signed_induction with
  | small n hlo hhi =>
      rw [signed, if_pos ⟨hlo, hhi⟩, signedValue, toNat_ofNat_of_lt (by omega)]
      split <;> omega
  | large n hn ih =>
      rw [signed, if_neg hn, signedValue_cons (number_signed _), ih,
        toNat_ofNat_of_lt (by omega)]
      omega

theorem length_signed_le {n : ℤ} (k : ℕ) (hlo : -(64 * 128 ^ k) ≤ n) (hhi : n < 64 * 128 ^ k) :
    (signed n).length ≤ k + 1 := by
  induction k generalizing n with
  | zero =>
      rw [signed, if_pos (by omega)]
      exact le_rfl
  | succ k ih =>
      rw [signed]
      by_cases hn : -64 ≤ n ∧ n < 64
      · rw [if_pos hn, List.length_singleton]
        omega
      · rw [pow_succ] at hlo hhi
        rw [if_neg hn, List.length_cons]
        exact Nat.succ_le_succ (ih (by omega) (by omega))

end LEB128

end Library

end Tolkara
