import Mathlib.Data.List.Pairwise
import Mathlib.Tactic

/-!
# Tilings

A list of ranges, each an offset with a length, tiles `[start, stop)` when every range
starts where the one before it ends. The ranges of a tiling are disjoint and leave
nothing out.
-/

namespace Tolkara

namespace Library

/-- The ranges follow one another from `start` to `stop`. -/
def Tiles : ℕ → List (ℕ × ℕ) → ℕ → Prop
  | start, [], stop => start = stop
  | start, r :: rest, stop => r.1 = start ∧ Tiles (start + r.2) rest stop

/-- Two ranges with no point in common. -/
def Apart (r t : ℕ × ℕ) : Prop := r.1 + r.2 ≤ t.1 ∨ t.1 + t.2 ≤ r.1

namespace Tiles

theorem append {start middle stop : ℕ} {l l' : List (ℕ × ℕ)} (h : Tiles start l middle)
    (h' : Tiles middle l' stop) : Tiles start (l ++ l') stop := by
  induction l generalizing start with
  | nil =>
      cases h
      exact h'
  | cons r l ih => exact ⟨h.1, ih h.2⟩

theorem le {start stop : ℕ} {l : List (ℕ × ℕ)} (h : Tiles start l stop) : start ≤ stop := by
  induction l generalizing start with
  | nil => exact Nat.le_of_eq h
  | cons r l ih => exact (Nat.le_add_right _ _).trans (ih h.2)

/-- Every range lies between the two ends. -/
theorem mem_within {start stop : ℕ} {l : List (ℕ × ℕ)} (h : Tiles start l stop) :
    ∀ r ∈ l, start ≤ r.1 ∧ r.1 + r.2 ≤ stop := by
  induction l generalizing start with
  | nil => exact fun _ hr => absurd hr List.not_mem_nil
  | cons t l ih =>
      intro r hr
      have hstop := h.2.le
      have hstart := h.1
      rcases List.mem_cons.mp hr with rfl | hmem
      · omega
      · have hrest := ih h.2 r hmem
        omega

theorem pairwise_apart {start stop : ℕ} {l : List (ℕ × ℕ)} (h : Tiles start l stop) :
    l.Pairwise Apart := by
  induction l generalizing start with
  | nil => exact List.Pairwise.nil
  | cons t l ih =>
      refine List.pairwise_cons.mpr ⟨fun r hr => Or.inl ?_, ih h.2⟩
      have hrest := h.2.mem_within r hr
      have hstart := h.1
      omega

/-- Every point between the two ends lies in a range. -/
theorem exists_mem {start stop : ℕ} {l : List (ℕ × ℕ)} (h : Tiles start l stop) {x : ℕ}
    (hlow : start ≤ x) (hhigh : x < stop) : ∃ r ∈ l, r.1 ≤ x ∧ x < r.1 + r.2 := by
  induction l generalizing start with
  | nil =>
      have hend : start = stop := h
      omega
  | cons t l ih =>
      have hstart := h.1
      by_cases hx : x < start + t.2
      · exact ⟨t, List.mem_cons_self, by omega, by omega⟩
      · obtain ⟨r, hr, hin⟩ := ih h.2 (by omega)
        exact ⟨r, List.mem_cons_of_mem _ hr, hin⟩

end Tiles

end Library

end Tolkara
