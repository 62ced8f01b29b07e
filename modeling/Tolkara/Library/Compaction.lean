import Mathlib.Data.List.Perm.Basic
import Mathlib.Tactic

/-!
# Compacting an unordered array

An array whose order does not matter is thinned out in one pass: an element that
goes is overwritten by the last one, which is then looked at in its place. The
pass may replace the elements it keeps and carries a state along. What is left
is a permutation of the elements kept, whatever the order they were met in.
-/

namespace Tolkara

namespace Library

variable {α σ : Type*}

/-- The last element takes the place of element `i`. -/
def swapRemove (l : List α) (i : ℕ) : List α :=
  match l.getLast? with
  | none => l
  | some last => (l.set i last).dropLast

/-- One pass from index `i` on. `visit` is given the state and an element, and
says what becomes of them. -/
def compactLoop (visit : σ → α → σ × Option α) : ℕ → ℕ → σ → List α → σ × List α
  | 0, _, s, l => (s, l)
  | fuel + 1, i, s, l =>
    match l[i]? with
    | none => (s, l)
    | some a =>
      match visit s a with
      | (s, none) => compactLoop visit fuel i s (swapRemove l i)
      | (s, some a) => compactLoop visit fuel (i + 1) s (l.set i a)

def compact (visit : σ → α → σ × Option α) (s : σ) (l : List α) : σ × List α :=
  compactLoop visit l.length 0 s l

/-- Removing from the part that was not looked at yet. -/
theorem swapRemove_append (front : List α) (a : α) (rest : List α) :
    ∃ rest', swapRemove (front ++ a :: rest) front.length = front ++ rest' ∧ rest'.Perm rest := by
  rcases List.eq_nil_or_concat rest with rfl | ⟨init, last, rfl⟩
  · refine ⟨[], ?_, List.Perm.refl _⟩
    simp [swapRemove]
  · refine ⟨last :: init, ?_, ?_⟩
    · simp only [List.concat_eq_append]
      have hlast : (front ++ a :: (init ++ [last])).getLast? = some last := by
        rw [← List.cons_append, ← List.append_assoc, List.getLast?_concat]
      rw [swapRemove, hlast]
      dsimp only
      rw [List.set_append_right _ _ le_rfl, Nat.sub_self, List.set_cons_zero,
        ← List.cons_append, ← List.append_assoc, List.dropLast_concat]
    · rw [List.concat_eq_append]
      exact (List.perm_append_singleton last init).symm

/-- What is left is what `keep` says, up to order. -/
theorem compactLoop_perm {visit : σ → α → σ × Option α} {keep : α → Option α}
    (hvisit : ∀ s a, (visit s a).2 = keep a) (fuel : ℕ) :
    ∀ (front rest : List α) (s : σ), rest.length ≤ fuel →
      (compactLoop visit fuel front.length s (front ++ rest)).2.Perm
        (front ++ rest.filterMap keep) := by
  induction fuel with
  | zero =>
      intro front rest s hlen
      have hrest : rest = [] := List.eq_nil_of_length_eq_zero (Nat.le_zero.1 hlen)
      subst hrest
      simp [compactLoop]
  | succ fuel ih =>
      intro front rest s hlen
      cases rest with
      | nil => simp [compactLoop]
      | cons a rest =>
          rw [compactLoop]
          have hget : (front ++ a :: rest)[front.length]? = some a := by simp
          rw [hget]
          dsimp only
          have hkeep := hvisit s a
          cases hv : visit s a with
          | mk s' kept =>
              rw [hv] at hkeep
              dsimp only at hkeep
              cases kept with
              | none =>
                  obtain ⟨rest', heq, hperm⟩ := swapRemove_append front a rest
                  rw [heq, List.filterMap_cons_none hkeep.symm]
                  have hlen' : rest'.length ≤ fuel := by
                    rw [hperm.length_eq]
                    simpa using hlen
                  exact (ih front rest' s' hlen').trans
                    (List.Perm.append_left front (hperm.filterMap keep))
              | some a' =>
                  have hset : (front ++ a :: rest).set front.length a' =
                      (front ++ [a']) ++ rest := by
                    rw [List.set_append_right _ _ le_rfl]
                    simp
                  dsimp only
                  rw [hset, List.filterMap_cons_some hkeep.symm]
                  have hih := ih (front ++ [a']) rest s' (by simpa using hlen)
                  rw [List.length_append, List.length_singleton] at hih
                  simpa using hih

theorem compact_perm {visit : σ → α → σ × Option α} {keep : α → Option α}
    (hvisit : ∀ s a, (visit s a).2 = keep a) (s : σ) (l : List α) :
    (compact visit s l).2.Perm (l.filterMap keep) :=
  compactLoop_perm hvisit l.length [] l s le_rfl

/-- What every visit to an element preserves holds of the state at the end. -/
theorem compactLoop_state {visit : σ → α → σ × Option α} {P : σ → Prop} (fuel : ℕ) :
    ∀ (front rest : List α) (s : σ), (∀ s, ∀ a ∈ rest, P s → P (visit s a).1) → P s →
      P (compactLoop visit fuel front.length s (front ++ rest)).1 := by
  induction fuel with
  | zero =>
      intro front rest s _ h
      exact h
  | succ fuel ih =>
      intro front rest s hvisit h
      cases rest with
      | nil =>
          rw [compactLoop]
          simpa using h
      | cons a rest =>
          rw [compactLoop]
          have hget : (front ++ a :: rest)[front.length]? = some a := by simp
          rw [hget]
          dsimp only
          have hv := hvisit s a List.mem_cons_self h
          cases heq : visit s a with
          | mk s' kept =>
              rw [heq] at hv
              cases kept with
              | none =>
                  obtain ⟨rest', hrest, hperm⟩ := swapRemove_append front a rest
                  dsimp only
                  rw [hrest]
                  refine ih front rest' s' ?_ hv
                  intro t a' ha'
                  exact hvisit t a' (List.mem_cons_of_mem a (hperm.subset ha'))
              | some a' =>
                  have hset : (front ++ a :: rest).set front.length a' =
                      (front ++ [a']) ++ rest := by
                    rw [List.set_append_right _ _ le_rfl]
                    simp
                  have hih := ih (front ++ [a']) rest s'
                    (fun t c hc => hvisit t c (List.mem_cons_of_mem a hc)) hv
                  rw [List.length_append, List.length_singleton] at hih
                  dsimp only
                  rw [hset]
                  exact hih

theorem compact_state {visit : σ → α → σ × Option α} {P : σ → Prop} {s : σ} {l : List α}
    (hvisit : ∀ s, ∀ a ∈ l, P s → P (visit s a).1) (h : P s) : P (compact visit s l).1 :=
  compactLoop_state l.length [] l s hvisit h

end Library

end Tolkara
