import Mathlib.Tactic

/-!
# Moving blocks of cells

`put` writes a block of cells, `move` writes what another block holds at that
moment. A block may be written in two parts. So may it be moved, from the front
where the destination does not begin inside the source, and from the back where
it does not end inside it: then the part that goes first leaves the cells alone
that the other part still reads.
-/

namespace Tolkara

namespace Library

variable {α : Type*}

/-- The cells from `d` on become the first `n` cells of `f`. -/
def put (m : ℕ → α) (d n : ℕ) (f : ℕ → α) : ℕ → α :=
  fun x => if d ≤ x ∧ x < d + n then f (x - d) else m x

/-- The `n` cells from `d` on become those from `s` on. -/
def move (m : ℕ → α) (d s n : ℕ) : ℕ → α := put m d n fun j => m (s + j)

@[simp] theorem put_zero (m : ℕ → α) (d : ℕ) (f : ℕ → α) : put m d 0 f = m := by
  funext x
  rw [put, if_neg (by omega)]

@[simp] theorem move_zero (m : ℕ → α) (d s : ℕ) : move m d s 0 = m := put_zero m d _

theorem put_of_not_mem (m : ℕ → α) {d n x : ℕ} (f : ℕ → α) (hx : x < d ∨ d + n ≤ x) :
    put m d n f x = m x := by
  rw [put, if_neg (by omega)]

/-- Only the cells of the block count. -/
theorem put_congr (m : ℕ → α) {d n : ℕ} {f g : ℕ → α} (h : ∀ j < n, f j = g j) :
    put m d n f = put m d n g := by
  funext x
  unfold put
  split
  · exact h _ (by omega)
  · rfl

/-- A block in two parts, the first one first. -/
theorem put_add (m : ℕ → α) (d a b : ℕ) (f : ℕ → α) :
    put m d (a + b) f = put (put m d a f) (d + a) b fun j => f (a + j) := by
  funext x
  unfold put
  by_cases hb : d + a ≤ x ∧ x < d + a + b
  · rw [if_pos ⟨by omega, by omega⟩, if_pos hb]
    congr 1
    omega
  · rw [if_neg hb]
    by_cases ha : d ≤ x ∧ x < d + a
    · rw [if_pos ⟨ha.1, by omega⟩, if_pos ha]
    · rw [if_neg (by omega), if_neg ha]

/-- A block in two parts, the last one first. -/
theorem put_add_back (m : ℕ → α) (d a b : ℕ) (f : ℕ → α) :
    put m d (a + b) f = put (put m (d + a) b fun j => f (a + j)) d a f := by
  funext x
  unfold put
  by_cases ha : d ≤ x ∧ x < d + a
  · rw [if_pos ⟨ha.1, by omega⟩, if_pos ha]
  · rw [if_neg ha]
    by_cases hb : d + a ≤ x ∧ x < d + a + b
    · rw [if_pos ⟨by omega, by omega⟩, if_pos hb]
      congr 1
      omega
    · rw [if_neg (by omega), if_neg hb]

/-- From the front, where the destination does not begin inside the source. -/
theorem move_add (m : ℕ → α) {d s a b : ℕ} (h : d ≤ s ∨ s + (a + b) ≤ d) :
    move m d s (a + b) = move (move m d s a) (d + a) (s + a) b := by
  unfold move
  rw [put_add]
  apply put_congr
  intro j hj
  rw [put_of_not_mem _ _ (by omega), Nat.add_assoc]

/-- From the back, where the destination does not end inside the source. -/
theorem move_add_back (m : ℕ → α) {d s a b : ℕ} (h : s ≤ d) :
    move m d s (a + b) = move (move m (d + a) (s + a) b) d s a := by
  unfold move
  rw [put_add_back]
  have hlast : (put m (d + a) b fun j => m (s + (a + j))) =
      put m (d + a) b fun j => m (s + a + j) := by
    apply put_congr
    intro j _
    rw [Nat.add_assoc]
  rw [hlast]
  apply put_congr
  intro j hj
  rw [put_of_not_mem _ _ (by omega)]

end Library

end Tolkara
