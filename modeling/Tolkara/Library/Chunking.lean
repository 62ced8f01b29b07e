import Mathlib.Tactic

/-!
# Machines fed symbol by symbol

A machine takes one symbol at a time, and each symbol either fails or gives the
next state with some outputs. `feedAll` feeds a list; the outputs so far are lost
when a later symbol fails. The lemmas say how feeding composes: a list can be cut
anywhere, a list that is taken has only prefixes that are taken, and what one symbol
does to a state, if it composes, a list does.
-/

namespace Tolkara

namespace Chunking

variable {σ β γ ε : Type*} {step : σ → β → Except ε (σ × List γ)}

/-- A sequence of two computations that succeeds. -/
theorem ok_of_bind {α δ : Type} {ε : Type*} {x : Except ε α} {f : α → Except ε δ} {r : δ}
    (h : x >>= f = .ok r) : ∃ a, x = .ok a ∧ f a = .ok r := by
  cases x with
  | error e => cases h
  | ok a => exact ⟨a, rfl, h⟩

/-- Feeds the symbols in order, collecting the outputs. -/
def feedAll (step : σ → β → Except ε (σ × List γ)) : σ → List β → Except ε (σ × List γ)
  | s, [] => .ok (s, [])
  | s, b :: rest =>
    match step s b with
    | .error e => .error e
    | .ok (s', out) =>
      match feedAll step s' rest with
      | .error e => .error e
      | .ok (s'', out') => .ok (s'', out ++ out')

@[simp]
theorem feedAll_nil (s : σ) : feedAll step s [] = .ok (s, []) := rfl

theorem feedAll_cons_error {s : σ} {b : β} {e : ε} (rest : List β)
    (h : step s b = .error e) : feedAll step s (b :: rest) = .error e := by
  rw [feedAll, h]

theorem feedAll_cons_ok {s s' : σ} {b : β} {out : List γ} {rest : List β} {s'' : σ}
    {out' : List γ} (h : step s b = .ok (s', out)) (hr : feedAll step s' rest = .ok (s'', out')) :
    feedAll step s (b :: rest) = .ok (s'', out ++ out') := by
  rw [feedAll, h]
  simp only [hr]

theorem feedAll_cons_later_error {s s' : σ} {b : β} {out : List γ} {rest : List β} {e : ε}
    (h : step s b = .ok (s', out)) (hr : feedAll step s' rest = .error e) :
    feedAll step s (b :: rest) = .error e := by
  rw [feedAll, h]
  simp only [hr]

/-- What a taken list with a first symbol was made of. -/
theorem feedAll_cons_inv {s s'' : σ} {b : β} {rest : List β} {outs : List γ}
    (h : feedAll step s (b :: rest) = .ok (s'', outs)) :
    ∃ s' out out', step s b = .ok (s', out) ∧ feedAll step s' rest = .ok (s'', out') ∧
      outs = out ++ out' := by
  cases h₁ : step s b with
  | error e =>
      rw [feedAll_cons_error rest h₁] at h
      cases h
  | ok p =>
      obtain ⟨s', out⟩ := p
      cases h₂ : feedAll step s' rest with
      | error e =>
          rw [feedAll_cons_later_error h₁ h₂] at h
          cases h
      | ok q =>
          obtain ⟨t, out'⟩ := q
          rw [feedAll_cons_ok h₁ h₂] at h
          cases h
          exact ⟨s', out, out', rfl, h₂, rfl⟩

/-- A taken list followed by a taken list is taken, with both outputs. -/
theorem feedAll_append_ok {s s' s'' : σ} {xs ys : List β} {out out' : List γ}
    (hx : feedAll step s xs = .ok (s', out)) (hy : feedAll step s' ys = .ok (s'', out')) :
    feedAll step s (xs ++ ys) = .ok (s'', out ++ out') := by
  induction xs generalizing s out with
  | nil =>
      cases hx
      simpa using hy
  | cons b rest ih =>
      obtain ⟨t, out₁, out₂, hb, hrest, rfl⟩ := feedAll_cons_inv hx
      rw [List.cons_append, List.append_assoc]
      exact feedAll_cons_ok hb (ih hrest)

/-- A taken list can be cut anywhere. -/
theorem feedAll_append_inv {s s'' : σ} {xs ys : List β} {outs : List γ}
    (h : feedAll step s (xs ++ ys) = .ok (s'', outs)) :
    ∃ s' out out', feedAll step s xs = .ok (s', out) ∧ feedAll step s' ys = .ok (s'', out') ∧
      outs = out ++ out' := by
  induction xs generalizing s outs with
  | nil => exact ⟨s, [], outs, rfl, by simpa using h, rfl⟩
  | cons b rest ih =>
      rw [List.cons_append] at h
      obtain ⟨t, out₁, out₂, hb, hrest, rfl⟩ := feedAll_cons_inv h
      obtain ⟨s', out, out', hx, hy, rfl⟩ := ih hrest
      exact ⟨s', out₁ ++ out, out', feedAll_cons_ok hb hx, hy, by rw [List.append_assoc]⟩

/-- A list whose symbols lead through given states, all but the last without output. -/
theorem feedAll_states (state : ℕ → σ) {xs : List β} {s' : σ} {out : List γ} (hne : xs ≠ [])
    (hstep : ∀ n (hn : n < xs.length), n + 1 < xs.length →
      step (state n) xs[n] = .ok (state (n + 1), []))
    (hlast : ∀ n (hn : n < xs.length), n + 1 = xs.length →
      step (state n) xs[n] = .ok (s', out)) :
    feedAll step (state 0) xs = .ok (s', out) := by
  induction xs generalizing state with
  | nil => exact absurd rfl hne
  | cons b rest ih =>
      by_cases hrest : rest = []
      · subst hrest
        have hone := feedAll_cons_ok (hlast 0 (by simp) rfl) (feedAll_nil s')
        simpa using hone
      · have hpos : 0 < rest.length := List.length_pos_of_ne_nil hrest
        have hfirst : step (state 0) b = .ok (state 1, []) :=
          hstep 0 (by simp) (by simpa using hpos)
        refine feedAll_cons_ok hfirst (ih (fun n => state (n + 1)) hrest ?_ ?_)
        · intro n hn hmore
          exact hstep (n + 1) (by simpa using hn) (by simpa using hmore)
        · intro n hn hend
          exact hlast (n + 1) (by simpa using hn) (by simpa using hend)

/-- What every symbol does to a state with an invariant, and composes, a list does. -/
theorem feedAll_rel {P : σ → Prop} {R : σ → σ → List γ → Prop} (hrefl : ∀ s, R s s [])
    (htrans : ∀ s s' s'' out out', R s s' out → R s' s'' out' → R s s'' (out ++ out'))
    (hstep : ∀ s b s' out, P s → step s b = .ok (s', out) → P s' ∧ R s s' out)
    {s s' : σ} {xs : List β} {out : List γ} (hs : P s)
    (h : feedAll step s xs = .ok (s', out)) : P s' ∧ R s s' out := by
  induction xs generalizing s out with
  | nil =>
      cases h
      exact ⟨hs, hrefl _⟩
  | cons b rest ih =>
      obtain ⟨t, out₁, out₂, hb, hrest, rfl⟩ := feedAll_cons_inv h
      obtain ⟨ht, h₁⟩ := hstep s b t out₁ hs hb
      obtain ⟨hs', h₂⟩ := ih ht hrest
      exact ⟨hs', htrans s t s' out₁ out₂ h₁ h₂⟩

end Chunking

end Tolkara
