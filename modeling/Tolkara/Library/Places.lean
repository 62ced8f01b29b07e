import Mathlib.Data.Nat.Digits.Lemmas
import Mathlib.Tactic

/-!
# Numbers with the most significant place first

The shortest representation of a number in a base, as it is written into a fixed number of
places from the right: zero has no digit at all, and what does not fit is lost. A number that
fits is read back, its first digit is not zero, and the number of its digits tells how large
it is.
-/

namespace Tolkara

namespace Library

/-- The digits of a number, most significant first, with room for so many. -/
def places (b : ℕ) : ℕ → ℕ → List ℕ
  | 0, _ => []
  | room + 1, v => if v = 0 then [] else places b room (v / b) ++ [v % b]

def placesValue (b : ℕ) (l : List ℕ) : ℕ := l.foldl (fun v d => v * b + d) 0

variable {b room v : ℕ}

theorem length_places_le : (places b room v).length ≤ room := by
  induction room generalizing v with
  | zero => exact le_rfl
  | succ room ih =>
      rw [places]
      split
      · exact Nat.zero_le _
      · rw [List.length_append, List.length_singleton]
        exact Nat.succ_le_succ ih

/-- With enough room these are the digits of Mathlib in the other order. -/
theorem places_eq_reverse_digits (hb : 1 < b) (hv : v < b ^ room) :
    places b room v = (Nat.digits b v).reverse := by
  induction room generalizing v with
  | zero =>
      rw [pow_zero, Nat.lt_one_iff] at hv
      rw [hv, Nat.digits_zero]
      rfl
  | succ room ih =>
      rw [places]
      split
      · rename_i hzero
        rw [hzero, Nat.digits_zero]
        rfl
      · rename_i hpos
        rw [ih (Nat.div_lt_of_lt_mul (by rwa [← pow_succ'])),
          Nat.digits_def' hb (Nat.pos_of_ne_zero hpos), List.reverse_cons]

theorem placesValue_places (hb : 1 < b) (hv : v < b ^ room) :
    placesValue b (places b room v) = v := by
  rw [places_eq_reverse_digits hb hv, placesValue, List.foldl_reverse]
  calc (Nat.digits b v).foldr (fun d v => v * b + d) 0
      = (Nat.digits b v).foldr (fun d v => d + b * v) 0 := by
        simp only [Nat.mul_comm, Nat.add_comm]
    _ = Nat.ofDigits b (Nat.digits b v) := (Nat.ofDigits_eq_foldr b _).symm
    _ = v := Nat.ofDigits_digits b v

theorem lt_of_mem_places (hb : 0 < b) : ∀ d ∈ places b room v, d < b := by
  induction room generalizing v with
  | zero => nofun
  | succ room ih =>
      intro d hd
      rw [places] at hd
      split at hd
      · cases hd
      · rcases List.mem_append.1 hd with hbefore | hlast
        · exact ih d hbefore
        · rw [List.mem_singleton.1 hlast]
          exact Nat.mod_lt _ hb

/-- The first digit of a number that fits is not zero. -/
theorem places_eq_cons (hb : 1 < b) (hv : v < b ^ room) (hpos : v ≠ 0) :
    ∃ d l, places b room v = d :: l ∧ d ≠ 0 := by
  have hdigits : Nat.digits b v ≠ [] := Nat.digits_ne_nil_iff_ne_zero.2 hpos
  refine ⟨(Nat.digits b v).getLast hdigits, (Nat.digits b v).dropLast.reverse, ?_,
    Nat.getLast_digit_ne_zero b hpos⟩
  rw [places_eq_reverse_digits hb hv]
  conv_lhs => rw [← List.dropLast_append_getLast hdigits]
  rw [List.reverse_append]
  rfl

theorem length_places_le_iff (hb : 1 < b) (hv : v < b ^ room) {k : ℕ} :
    (places b room v).length ≤ k ↔ v < b ^ k := by
  rw [places_eq_reverse_digits hb hv, List.length_reverse]
  exact Nat.digits_length_le_iff hb v

/-- A large number has many digits, whether it fits or not. -/
theorem lt_length_places (hb : 1 < b) {k : ℕ} (hk : k < room) (hv : b ^ k ≤ v) :
    k < (places b room v).length := by
  induction room generalizing k v with
  | zero => exact absurd hk (Nat.not_lt_zero k)
  | succ room ih =>
      have hpos : v ≠ 0 := (Nat.lt_of_lt_of_le (Nat.pow_pos (by omega)) hv).ne'
      rw [places, if_neg hpos, List.length_append, List.length_singleton]
      cases k with
      | zero => exact Nat.succ_pos _
      | succ k =>
          rw [pow_succ] at hv
          have hdiv : b ^ k ≤ v / b := (Nat.le_div_iff_mul_le (by omega)).2 hv
          exact Nat.succ_lt_succ (ih (Nat.lt_of_succ_lt_succ hk) hdiv)

end Library

end Tolkara
