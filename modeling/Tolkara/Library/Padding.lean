import Mathlib.Tactic

/-!
# Padding to whole blocks

A list is extended to a whole number of blocks of `n` by `k` copies of a symbol that says
`k`, where `k` is never zero, so that what was added can be found again.
-/

namespace Tolkara

namespace Library

variable {α : Type}

/-- How many symbols are missing to the next whole block. -/
def missing (n : ℕ) (l : List α) : ℕ := n - l.length % n

/-- The list with its padding; `code k` says how much was added. -/
def padTo (code : ℕ → α) (n : ℕ) (l : List α) : List α :=
  l ++ List.replicate (missing n l) (code (missing n l))

theorem missing_pos {n : ℕ} (hn : 0 < n) (l : List α) : 0 < missing n l :=
  Nat.sub_pos_of_lt (Nat.mod_lt _ hn)

theorem missing_le (n : ℕ) (l : List α) : missing n l ≤ n := Nat.sub_le _ _

theorem length_padTo (code : ℕ → α) (n : ℕ) (l : List α) :
    (padTo code n l).length = l.length + missing n l := by
  rw [padTo, List.length_append, List.length_replicate]

theorem length_add_missing {n : ℕ} (hn : 0 < n) (l : List α) :
    l.length + missing n l = n * (l.length / n + 1) := by
  have hdiv := Nat.div_add_mod l.length n
  have hlt := Nat.mod_lt l.length hn
  rw [missing, Nat.mul_add, Nat.mul_one]
  omega

/-- A padded list is made of whole blocks. -/
theorem dvd_length_padTo (code : ℕ → α) {n : ℕ} (hn : 0 < n) (l : List α) :
    n ∣ (padTo code n l).length := by
  rw [length_padTo, length_add_missing hn]
  exact Nat.dvd_mul_right n _

/-- The last `p` symbols of a list, looked at from its end. -/
theorem eq_append_replicate_iff {l : List α} {p : ℕ} (hp : p ≤ l.length) (d b : α) :
    l = l.take (l.length - p) ++ List.replicate p b ↔
      ∀ i < p, l.getD (l.length - 1 - i) d = b := by
  have hdrop : l = l.take (l.length - p) ++ List.replicate p b ↔
      l.drop (l.length - p) = List.replicate p b := by
    have hcut := List.take_append_drop (l.length - p) l
    constructor
    · intro h
      exact List.append_cancel_left (hcut.trans h)
    · intro h
      rw [← h, hcut]
  rw [hdrop]
  constructor
  · intro h i hi
    have hget : l[l.length - 1 - i]? = (List.replicate p b)[p - 1 - i]? := by
      rw [← h, List.getElem?_drop]
      congr 1
      omega
    rw [List.getElem?_replicate, if_pos (by omega)] at hget
    rw [List.getD_eq_getElem?_getD, hget, Option.getD_some]
  · intro h
    refine List.ext_getElem? fun i => ?_
    rw [List.getElem?_drop, List.getElem?_replicate]
    split_ifs with hi
    · have hlt : l.length - p + i < l.length := by omega
      have hlast := h (p - 1 - i) (by omega)
      rw [List.getD_eq_getElem?_getD] at hlast
      have hindex : l.length - 1 - (p - 1 - i) = l.length - p + i := by omega
      rw [hindex, List.getElem?_eq_getElem hlt, Option.getD_some] at hlast
      rw [List.getElem?_eq_getElem hlt, hlast]
    · exact List.getElem?_eq_none (by omega)

end Library

end Tolkara
