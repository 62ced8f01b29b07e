import Mathlib.Tactic

/-!
# Computations that keep their history

A computation over a state that can stop with an error, together with every value the
state took on the way. `andThen` goes on unless an error stopped the first part.
`Holds` is a property of every value of the state; it composes, so a property that each
part preserves is a property of every moment of the whole.
-/

namespace Tolkara

structure Walk (σ ε : Type*) where
  error : Option ε
  state : σ
  moments : List σ

namespace Walk

variable {σ ε : Type*}

def done (s : σ) : Walk σ ε := { error := none, state := s, moments := [] }

/-- An error that leaves the state alone. -/
def stop (s : σ) (e : ε) : Walk σ ε := { error := some e, state := s, moments := [] }

def change (s : σ) : Walk σ ε := { error := none, state := s, moments := [s] }

def andThen (w : Walk σ ε) (f : σ → Walk σ ε) : Walk σ ε :=
  match w.error with
  | some _ => w
  | none =>
    { error := (f w.state).error
      state := (f w.state).state
      moments := w.moments ++ (f w.state).moments }

theorem andThen_of_error {w : Walk σ ε} {e : ε} (h : w.error = some e) (f : σ → Walk σ ε) :
    w.andThen f = w := by
  rw [andThen, h]

theorem andThen_of_none {w : Walk σ ε} (h : w.error = none) (f : σ → Walk σ ε) :
    w.andThen f =
      { error := (f w.state).error
        state := (f w.state).state
        moments := w.moments ++ (f w.state).moments } := by
  rw [andThen, h]

/-- A walk in two parts that ends without an error. -/
theorem andThen_error_none {w : Walk σ ε} {f : σ → Walk σ ε} (h : (w.andThen f).error = none) :
    w.error = none ∧ (f w.state).error = none ∧ (w.andThen f).state = (f w.state).state := by
  cases hw : w.error with
  | some e =>
      rw [andThen_of_error hw, hw] at h
      cases h
  | none =>
      rw [andThen_of_none hw] at h ⊢
      exact ⟨rfl, h, rfl⟩

/-- A property of every value the state takes, the last one included. -/
def Holds (P : σ → Prop) (w : Walk σ ε) : Prop :=
  P w.state ∧ ∀ s ∈ w.moments, P s

theorem holds_done {P : σ → Prop} {s : σ} (h : P s) : Holds P (done s : Walk σ ε) :=
  ⟨h, fun _ hs => absurd hs List.not_mem_nil⟩

theorem holds_stop {P : σ → Prop} {s : σ} (h : P s) (e : ε) : Holds P (stop s e) :=
  ⟨h, fun _ hs => absurd hs List.not_mem_nil⟩

theorem holds_change {P : σ → Prop} {s : σ} (h : P s) : Holds P (change s : Walk σ ε) := by
  refine ⟨h, fun t ht => ?_⟩
  rw [List.mem_singleton.mp ht]
  exact h

theorem Holds.andThen {P : σ → Prop} {w : Walk σ ε} {f : σ → Walk σ ε} (h : Holds P w)
    (hf : ∀ s, P s → Holds P (f s)) : Holds P (w.andThen f) := by
  cases hw : w.error with
  | some e =>
      rw [andThen_of_error hw]
      exact h
  | none =>
      rw [andThen_of_none hw]
      refine ⟨(hf _ h.1).1, fun s hs => ?_⟩
      rcases List.mem_append.mp hs with hs | hs
      · exact h.2 s hs
      · exact (hf _ h.1).2 s hs

end Walk

end Tolkara
