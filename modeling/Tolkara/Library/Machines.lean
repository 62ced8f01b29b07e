import Mathlib.Data.List.Basic

/-!
# Machines that answer every symbol

A machine takes one symbol at a time and answers each of them. `respond` feeds a list and
collects the answers; a list may be cut anywhere, and what one symbol keeps, a list keeps.
-/

namespace Tolkara

namespace Library

variable {σ α ε : Type} {step : σ → α → σ × ε}

/-- Feeds the symbols in order, with the answer to each. -/
def respond (step : σ → α → σ × ε) : σ → List α → σ × List ε
  | s, [] => (s, [])
  | s, a :: l =>
    let r := step s a
    let t := respond step r.1 l
    (t.1, r.2 :: t.2)

@[simp] theorem respond_nil (s : σ) : respond step s [] = (s, []) := rfl

theorem respond_cons (s : σ) (a : α) (l : List α) :
    respond step s (a :: l) =
      ((respond step (step s a).1 l).1, (step s a).2 :: (respond step (step s a).1 l).2) := rfl

theorem respond_singleton (s : σ) (a : α) :
    respond step s [a] = ((step s a).1, [(step s a).2]) := rfl

theorem respond_append (s : σ) (l m : List α) :
    respond step s (l ++ m) = ((respond step (respond step s l).1 m).1,
      (respond step s l).2 ++ (respond step (respond step s l).1 m).2) := by
  induction l generalizing s with
  | nil => rfl
  | cons a l ih =>
      rw [List.cons_append, respond_cons, ih, respond_cons]
      rfl

/-- There are as many answers as symbols. -/
theorem length_respond (s : σ) (l : List α) : (respond step s l).2.length = l.length := by
  induction l generalizing s with
  | nil => rfl
  | cons a l ih => rw [respond_cons, List.length_cons, ih, List.length_cons]

theorem respond_keeps {P : σ → Prop} {Q : ε → Prop} {l : List α}
    (hstep : ∀ s, P s → ∀ a ∈ l, P (step s a).1 ∧ Q (step s a).2) {s : σ} (hs : P s) :
    P (respond step s l).1 ∧ ∀ e ∈ (respond step s l).2, Q e := by
  induction l generalizing s with
  | nil => exact ⟨hs, fun _ he => absurd he List.not_mem_nil⟩
  | cons a l ih =>
      obtain ⟨hnext, hanswer⟩ := hstep s hs a List.mem_cons_self
      obtain ⟨hend, hlater⟩ := ih (fun t ht b hb => hstep t ht b (List.mem_cons_of_mem a hb)) hnext
      rw [respond_cons]
      exact ⟨hend, List.forall_mem_cons.2 ⟨hanswer, hlater⟩⟩

end Library

end Tolkara
