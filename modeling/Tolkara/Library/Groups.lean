import Mathlib.Tactic

/-!
# Items with a key, taken one after the other

A reader that joins neighbouring items of a key, and refuses an item whose key it has seen
unless the item before it has that key too, takes exactly the lists in which the items
of every key are contiguous.
-/

namespace Tolkara

namespace Library

variable {α κ : Type}

/-- Between two items of a key there are only items of this key. -/
def Contiguous (key : α → κ) (l : List α) : Prop :=
  ∀ l₁ x l₂ y l₃, l = l₁ ++ x :: (l₂ ++ y :: l₃) → key x = key y → ∀ z ∈ l₂, key z = key x

/-- An item whose key has been seen follows an item of its key. -/
def Follows (key : α → κ) : List κ → Option κ → List α → Prop
  | _, _, [] => True
  | seen, previous, x :: l =>
    (key x ∈ seen → previous = some (key x)) ∧ Follows key (key x :: seen) (some (key x)) l

variable {key : α → κ}

theorem Follows.congr {seen seen' : List κ} {previous : Option κ} {l : List α}
    (h : Follows key seen previous l) (hseen : ∀ t, t ∈ seen' ↔ t ∈ seen) :
    Follows key seen' previous l := by
  induction l generalizing seen seen' previous with
  | nil => trivial
  | cons x l ih =>
      refine ⟨fun hx => h.1 ((hseen _).1 hx), ih h.2 fun t => ?_⟩
      rw [List.mem_cons, List.mem_cons, hseen]

/-- What an item asks of those before it. -/
theorem follows_iff {l before : List α} :
    Follows key (before.map key) (before.getLast?.map key) l ↔
      ∀ l₁ x l₂, l = l₁ ++ x :: l₂ → key x ∈ (before ++ l₁).map key →
        (before ++ l₁).getLast?.map key = some (key x) := by
  induction l generalizing before with
  | nil =>
      refine ⟨fun _ l₁ x l₂ h => ?_, fun _ => trivial⟩
      simp at h
  | cons y l ih =>
      have hnext := @ih (before ++ [y])
      rw [List.getLast?_concat, List.map_append] at hnext
      have hmem : ∀ t, t ∈ before.map key ++ [y].map key ↔ t ∈ key y :: before.map key := by
        intro t
        rw [List.mem_append, List.mem_cons, List.map_singleton, List.mem_singleton, or_comm]
      have hcongr : Follows key (key y :: before.map key) (some (key y)) l ↔
          Follows key (before.map key ++ [y].map key) (some (key y)) l :=
        ⟨fun h => h.congr hmem, fun h => h.congr fun t => (hmem t).symm⟩
      change (_ ∧ Follows key (key y :: before.map key) (some (key y)) l) ↔ _
      rw [hcongr]
      change (_ ∧ Follows key _ (Option.map key (some y)) l) ↔ _
      rw [hnext]
      constructor
      · rintro ⟨hfirst, hrest⟩ l₁ x l₂ heq
        cases l₁ with
        | nil =>
            cases heq
            rw [List.append_nil]
            exact hfirst
        | cons z l₁ =>
            cases heq
            rw [List.append_cons]
            exact hrest l₁ x l₂ rfl
      · intro h
        refine ⟨?_, fun l₁ x l₂ heq => ?_⟩
        · have := h [] y l rfl
          rwa [List.append_nil] at this
        · have := h (y :: l₁) x l₂ (by rw [heq]; rfl)
          rwa [List.append_cons] at this

/-- The check of the reader is contiguity. -/
theorem follows_iff_contiguous {l : List α} : Follows key [] none l ↔ Contiguous key l := by
  have hiff := @follows_iff _ _ key l []
  simp only [List.nil_append] at hiff
  refine hiff.trans ⟨fun h => ?_, fun h => ?_⟩
  · intro l₁ x l₂
    -- From the back: the item before `y` has the key of `y`, and takes its place.
    induction l₂ using List.reverseRecOn with
    | nil => exact fun _ _ _ _ _ hz => absurd hz List.not_mem_nil
    | append_singleton l₂ w ih =>
        intro y l₃ heq hkey z hz
        have hbefore := h (l₁ ++ x :: (l₂ ++ [w])) y l₃ (by rw [heq]; simp)
          (by rw [← hkey]; simp)
        have hw : key w = key x := by
          rw [List.getLast?_append, ← List.cons_append, List.getLast?_concat] at hbefore
          rw [hkey]
          simpa using hbefore
        rcases List.mem_append.1 hz with hold | hnew
        · exact ih w (y :: l₃) (by rw [heq]; simp) hw.symm z hold
        · rw [List.mem_singleton.1 hnew, hw]
  · intro l₁ x l₂ heq hmem
    obtain ⟨y, hy, hkey⟩ := List.mem_map.1 hmem
    obtain ⟨a, b, rfl⟩ := List.append_of_mem hy
    have hbetween := h a y b x l₂ (by rw [heq]; simp) hkey
    rcases List.eq_nil_or_concat b with rfl | ⟨b, w, rfl⟩
    · rw [List.getLast?_concat, Option.map_some, hkey]
    · rw [List.getLast?_append, List.concat_eq_append, ← List.cons_append, List.getLast?_concat,
        ← hkey]
      have hw := hbetween w (by simp)
      simp [hw]

end Library

end Tolkara
