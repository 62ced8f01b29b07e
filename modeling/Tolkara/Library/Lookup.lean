import Mathlib.Data.List.Basic

/-!
# Dictionaries as association lists

How `List.lookup` goes with what a program does to a dictionary: removing a key, keeping
the entries whose value passes a test, changing the value of a key and adding an entry.
-/

namespace Tolkara

namespace Lookup

variable {α β : Type*} [DecidableEq α]

theorem lookup_cons (k : α) (v : β) (l : List (α × β)) (j : α) :
    ((k, v) :: l).lookup j = if j = k then some v else l.lookup j := by
  rw [List.lookup_cons]
  by_cases h : j = k
  · subst h
    simp
  · rw [if_neg h, beq_false_of_ne h]

theorem lookup_filter_key (l : List (α × β)) (k j : α) :
    (l.filter fun x => x.1 ≠ k).lookup j = if j = k then none else l.lookup j := by
  induction l with
  | nil => simp
  | cons x l ih =>
      obtain ⟨i, v⟩ := x
      by_cases hi : i = k
      · subst hi
        rw [List.filter_cons_of_neg (by simp), ih, lookup_cons]
        split
        · rfl
        · rfl
      · rw [List.filter_cons_of_pos (by simpa using hi), lookup_cons, lookup_cons, ih]
        by_cases hj : j = i
        · subst hj
          rw [if_pos rfl, if_pos rfl, if_neg hi]
        · rw [if_neg hj, if_neg hj]

/-- A value that passes the test is still found. -/
theorem lookup_filter_value {l : List (α × β)} {p : β → Bool} {k : α} {v : β}
    (h : l.lookup k = some v) (hp : p v = true) : (l.filter fun x => p x.2).lookup k = some v := by
  induction l with
  | nil => simp at h
  | cons x l ih =>
      obtain ⟨i, w⟩ := x
      rw [lookup_cons] at h
      by_cases hk : k = i
      · rw [if_pos hk] at h
        cases h
        rw [List.filter_cons_of_pos (by simpa using hp), lookup_cons, if_pos hk]
      · rw [if_neg hk] at h
        by_cases hw : p w = true
        · rw [List.filter_cons_of_pos (by simpa using hw), lookup_cons, if_neg hk]
          exact ih h
        · rw [List.filter_cons_of_neg (by simpa using hw)]
          exact ih h

theorem lookup_filter_none {l : List (α × β)} {k : α} (p : α × β → Bool)
    (h : l.lookup k = none) : (l.filter p).lookup k = none := by
  rw [List.lookup_eq_none_iff] at h ⊢
  intro x hx
  exact h x (List.mem_filter.mp hx).1

/-- Changing the values, each by a function of its key. -/
theorem lookup_map {γ : Type*} (l : List (α × β)) (f : α → β → γ) (k : α) :
    (l.map fun x => (x.1, f x.1 x.2)).lookup k = (l.lookup k).map (f k) := by
  induction l with
  | nil => rfl
  | cons x l ih =>
      obtain ⟨i, v⟩ := x
      rw [List.map_cons, lookup_cons, lookup_cons, ih]
      by_cases hk : k = i
      · subst hk
        simp
      · rw [if_neg hk, if_neg hk]

/-- Adding a new entry at the end. -/
theorem lookup_concat {l : List (α × β)} {k : α} (h : l.lookup k = none) (v : β) (j : α) :
    (l ++ [(k, v)]).lookup j = if j = k then some v else l.lookup j := by
  induction l with
  | nil => rw [List.nil_append, lookup_cons]
  | cons x l ih =>
      obtain ⟨i, w⟩ := x
      rw [lookup_cons] at h
      by_cases hk : k = i
      · rw [if_pos hk] at h
        cases h
      · rw [if_neg hk] at h
        rw [List.cons_append, lookup_cons, lookup_cons, ih h]
        by_cases hj : j = i
        · rw [if_pos hj, if_pos hj, if_neg]
          rw [hj]
          exact fun heq => hk heq.symm
        · rw [if_neg hj, if_neg hj]

theorem mem_of_lookup {l : List (α × β)} {k : α} {v : β} (h : l.lookup k = some v) :
    (k, v) ∈ l := by
  rw [List.lookup_eq_some_iff] at h
  obtain ⟨front, back, rfl, -⟩ := h
  exact List.mem_append_right _ List.mem_cons_self

end Lookup

end Tolkara
