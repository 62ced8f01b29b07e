import Mathlib.Order.Bounds.Basic
import Tolkara.Library.Intervals

/-!
# The first gap of a list of intervals

`firstGap n l c` walks a list of intervals from the candidate `c`: the
candidate stands when `n` points fit before the next interval, and otherwise
moves to the end of that interval. In an ordered list this greedy walk is
exact: it ends at the least point from `c` on with `n` free points after it.

A point is free when no interval contains it, so a gap is a run of points on
which `cover` is `none`.
-/

namespace Tolkara

namespace Library

namespace TaggedInterval

variable {α : Type*}

/-- The candidate for `n` free points, moved past the intervals in its way. -/
def firstGap (n : ℕ) : List (TaggedInterval α) → ℕ → ℕ
  | [], c => c
  | r :: l, c => if c + n ≤ r.start then c else firstGap n l r.stop

theorem firstGap_cons (n : ℕ) (r : TaggedInterval α) (l : List (TaggedInterval α)) (c : ℕ) :
    firstGap n (r :: l) c = if c + n ≤ r.start then c else firstGap n l r.stop := rfl

def Free (l : List (TaggedInterval α)) (a n : ℕ) : Prop :=
  ∀ x, a ≤ x → x < a + n → cover l x = none

/-- A run of free points keeps clear of every interval. -/
theorem free_iff {l : List (TaggedInterval α)} (h : ∀ r ∈ l, r.start < r.stop) {a n : ℕ}
    (hn : 0 < n) : Free l a n ↔ ∀ r ∈ l, a + n ≤ r.start ∨ r.stop ≤ a := by
  constructor
  · intro hfree r hr
    by_contra hno
    push Not at hno
    have hlt := h r hr
    have hnone := hfree (max a r.start) (le_max_left _ _) (by omega)
    rw [cover_eq_none_iff] at hnone
    exact hnone r hr ⟨le_max_right _ _, by omega⟩
  · intro hclear x hax hxn
    rw [cover_eq_none_iff]
    rintro r hr ⟨hstart, hstop⟩
    have := hclear r hr
    omega

/-- The walk never goes back. -/
theorem le_firstGap (n : ℕ) {l : List (TaggedInterval α)} (h : Ordered l) {c : ℕ}
    (hc : ∀ r ∈ l, c ≤ r.start) : c ≤ firstGap n l c := by
  induction l generalizing c with
  | nil => exact le_rfl
  | cons r l ih =>
      obtain ⟨hr, hnext, hl⟩ := ordered_cons.1 h
      rw [firstGap_cons]
      split
      · exact le_rfl
      · have hstart := hc r List.mem_cons_self
        have hrest := ih hl hnext
        omega

/-- The walk ends where it began or at the end of an interval. -/
theorem firstGap_eq (n : ℕ) (l : List (TaggedInterval α)) (c : ℕ) :
    firstGap n l c = c ∨ ∃ r ∈ l, firstGap n l c = r.stop := by
  induction l generalizing c with
  | nil => exact .inl rfl
  | cons r l ih =>
      rw [firstGap_cons]
      split
      · exact .inl rfl
      · right
        rcases ih r.stop with heq | ⟨q, hq, heq⟩
        · exact ⟨r, List.mem_cons_self, heq⟩
        · exact ⟨q, List.mem_cons_of_mem r hq, heq⟩

theorem firstGap_clear (n : ℕ) {l : List (TaggedInterval α)} (h : Ordered l) {c : ℕ}
    (hc : ∀ r ∈ l, c ≤ r.start) :
    ∀ r ∈ l, firstGap n l c + n ≤ r.start ∨ r.stop ≤ firstGap n l c := by
  induction l generalizing c with
  | nil => simp
  | cons r l ih =>
      obtain ⟨hr, hnext, hl⟩ := ordered_cons.1 h
      rw [firstGap_cons]
      split
      · rename_i hfits
        intro q hq
        rcases List.mem_cons.1 hq with rfl | hq
        · exact .inl hfits
        · have := hnext q hq
          exact .inl (by omega)
      · intro q hq
        rcases List.mem_cons.1 hq with rfl | hq
        · exact .inr (le_firstGap n hl hnext)
        · exact ih hl hnext q hq

theorem firstGap_le {n : ℕ} {l : List (TaggedInterval α)} {c a : ℕ} (hca : c ≤ a)
    (ha : ∀ r ∈ l, a + n ≤ r.start ∨ r.stop ≤ a) : firstGap n l c ≤ a := by
  induction l generalizing c with
  | nil => exact hca
  | cons r l ih =>
      rw [firstGap_cons]
      split
      · exact hca
      · -- The interval is in the candidate's way, so it ends before `a` begins.
        rename_i hno
        have hstop : r.stop ≤ a := (ha r List.mem_cons_self).resolve_left (by omega)
        exact ih hstop fun q hq => ha q (List.mem_cons_of_mem r hq)

/-- The walk finds the least point with `n` free points after it. -/
theorem firstGap_isLeast {n : ℕ} (hn : 0 < n) {l : List (TaggedInterval α)} (h : Ordered l)
    {c : ℕ} (hc : ∀ r ∈ l, c ≤ r.start) :
    IsLeast {a | c ≤ a ∧ Free l a n} (firstGap n l c) := by
  constructor
  · refine ⟨le_firstGap n h hc, ?_⟩
    rw [free_iff h.1 hn]
    exact firstGap_clear n h hc
  · rintro a ⟨hca, ha⟩
    rw [free_iff h.1 hn] at ha
    exact firstGap_le hca ha

end TaggedInterval

end Library

end Tolkara
