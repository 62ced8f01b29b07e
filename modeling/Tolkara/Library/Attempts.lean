import Tolkara.Library.Readers

/-!
# Programs that fail and keep what they did

An `Attempt` changes a state and answers or fails, and what it changed before it failed
stays changed. `Meets` says of one that starts in a state what holds where it ends: one
condition for an answer, one for a failure. There is one rule for each way to put an
attempt together, so that the conditions of the parts give those of the whole.
-/

namespace Tolkara

namespace Library

variable {σ ε α β : Type}

def Attempt (σ ε α : Type) := σ → Except ε α × σ

namespace Attempt

def answer (a : α) : Attempt σ ε α := fun s => (.ok a, s)

/-- A failure of the first part is one of the whole. -/
def andThen (x : Attempt σ ε α) (f : α → Attempt σ ε β) : Attempt σ ε β := fun s =>
  match x s with
  | (.ok a, t) => f a t
  | (.error e, t) => (.error e, t)

instance : Monad (Attempt σ ε) where
  pure := answer
  bind := andThen

def lift (x : Except ε α) : Attempt σ ε α := fun s => (x, s)

def check (p : Prop) [Decidable p] (e : ε) : Attempt σ ε Unit := lift (need p e)

def observe (f : σ → α) : Attempt σ ε α := fun s => (.ok (f s), s)

def current : Attempt σ ε σ := fun s => (.ok s, s)

def change (f : σ → σ) : Attempt σ ε Unit := fun s => (.ok (), f s)

/-- What is done to the state after a failure, which is still reported. -/
def onFailure (x : Attempt σ ε α) (f : σ → σ) : Attempt σ ε α := fun s =>
  match x s with
  | (.ok a, t) => (.ok a, t)
  | (.error e, t) => (.error e, f t)

/-- What is done to the state in the end, however it comes. -/
def always (x : Attempt σ ε α) (f : σ → σ) : Attempt σ ε α := fun s => ((x s).1, f (x s).2)

/-- After a failure the handler goes on from where the first part stopped. -/
def rescue (x : Attempt σ ε α) (handler : ε → Attempt σ ε α) : Attempt σ ε α := fun s =>
  match x s with
  | (.ok a, t) => (.ok a, t)
  | (.error e, t) => handler e t

/-- From `s`, an answer satisfies `Q` and a failure `E`. -/
def Meets (x : Attempt σ ε α) (s : σ) (Q : α → σ → Prop) (E : ε → σ → Prop) : Prop :=
  match x s with
  | (.ok a, t) => Q a t
  | (.error e, t) => E e t

variable {s : σ} {Q Q' : α → σ → Prop} {E E' : ε → σ → Prop}

/-- Weaker conditions are met as well. -/
theorem Meets.imp {x : Attempt σ ε α} (h : x.Meets s Q E) (hQ : ∀ a t, Q a t → Q' a t)
    (hE : ∀ e t, E e t → E' e t) : x.Meets s Q' E' := by
  unfold Meets at h ⊢
  split
  · rename_i a t hrun
    rw [hrun] at h
    exact hQ a t h
  · rename_i e t hrun
    rw [hrun] at h
    exact hE e t h

/-- Two conditions at once. -/
theorem Meets.and {x : Attempt σ ε α} (h : x.Meets s Q E) (h' : x.Meets s Q' E') :
    x.Meets s (fun a t => Q a t ∧ Q' a t) fun e t => E e t ∧ E' e t := by
  unfold Meets at h h' ⊢
  split
  · rename_i a t hrun
    rw [hrun] at h h'
    exact ⟨h, h'⟩
  · rename_i e t hrun
    rw [hrun] at h h'
    exact ⟨h, h'⟩

theorem Meets.answered {x : Attempt σ ε α} (h : x.Meets s Q E) {a : α} (ha : (x s).1 = .ok a) :
    Q a (x s).2 := by
  unfold Meets at h
  split at h
  · rename_i a' t hrun
    rw [hrun] at ha ⊢
    obtain rfl : a' = a := Except.ok.inj ha
    exact h
  · rename_i e t hrun
    rw [hrun] at ha
    cases ha

theorem Meets.failed {x : Attempt σ ε α} (h : x.Meets s Q E) {e : ε}
    (he : (x s).1 = .error e) : E e (x s).2 := by
  unfold Meets at h
  split at h
  · rename_i a t hrun
    rw [hrun] at he
    cases he
  · rename_i e' t hrun
    rw [hrun] at he ⊢
    obtain rfl : e' = e := Except.error.inj he
    exact h

/-- What holds in either case holds of the state. -/
theorem Meets.ended {x : Attempt σ ε α} {R : σ → Prop}
    (h : x.Meets s (fun _ t => R t) fun _ t => R t) : R (x s).2 := by
  unfold Meets at h
  split at h
  · rename_i hrun
    rw [hrun]
    exact h
  · rename_i hrun
    rw [hrun]
    exact h

/-- After a first part whose run is known. -/
theorem run_bind {x : Attempt σ ε β} {f : β → Attempt σ ε α} {b : β} {t : σ}
    (h : x s = (.ok b, t)) : (x >>= f) s = f b t := by
  change (x.andThen f) s = _
  unfold andThen
  rw [h]

theorem run_lift {x : Except ε α} {a : α} (h : x = .ok a) : lift x s = (.ok a, s) := by
  rw [lift, h]

theorem run_check {p : Prop} [Decidable p] {e : ε} (hp : p) : check p e s = (.ok (), s) := by
  rw [check, lift, need, if_pos hp]

theorem meets_of_run {x : Attempt σ ε α} {a : α} {t : σ} (h : x s = (.ok a, t)) (ha : Q a t) :
    x.Meets s Q E := by
  unfold Meets
  rw [h]
  exact ha

@[simp] theorem meets_pure {a : α} : (pure a : Attempt σ ε α).Meets s Q E ↔ Q a s := Iff.rfl

@[simp] theorem meets_bind {x : Attempt σ ε β} {f : β → Attempt σ ε α} :
    (x >>= f).Meets s Q E ↔ x.Meets s (fun b t => (f b).Meets t Q E) E := by
  change (x.andThen f).Meets s Q E ↔ _
  unfold Meets andThen
  cases x s with
  | mk r t => cases r <;> rfl

@[simp] theorem meets_ok {a : α} : (lift (.ok a) : Attempt σ ε α).Meets s Q E ↔ Q a s := Iff.rfl

@[simp] theorem meets_error {e : ε} :
    (lift (.error e) : Attempt σ ε α).Meets s Q E ↔ E e s := Iff.rfl

theorem meets_lift {x : Except ε α} : (lift x : Attempt σ ε α).Meets s Q E ↔
    (∀ a, x = .ok a → Q a s) ∧ ∀ e, x = .error e → E e s := by
  cases x with
  | ok a => simp
  | error e => simp

theorem meets_check {p : Prop} [Decidable p] {e : ε} {Q : Unit → σ → Prop} :
    (check p e).Meets s Q E ↔ (p → Q () s) ∧ (¬ p → E e s) := by
  unfold check need
  split
  · rename_i hp
    simp [hp]
  · rename_i hp
    simp [hp]

@[simp] theorem meets_observe {f : σ → α} :
    (observe f : Attempt σ ε α).Meets s Q E ↔ Q (f s) s := Iff.rfl

@[simp] theorem meets_current {Q : σ → σ → Prop} :
    (current : Attempt σ ε σ).Meets s Q E ↔ Q s s := Iff.rfl

@[simp] theorem meets_change {f : σ → σ} {Q : Unit → σ → Prop} :
    (change f : Attempt σ ε Unit).Meets s Q E ↔ Q () (f s) := Iff.rfl

@[simp] theorem meets_onFailure {x : Attempt σ ε α} {f : σ → σ} :
    (x.onFailure f).Meets s Q E ↔ x.Meets s Q fun e t => E e (f t) := by
  unfold Meets onFailure
  cases x s with
  | mk r t => cases r <;> rfl

@[simp] theorem meets_rescue {x : Attempt σ ε α} {handler : ε → Attempt σ ε α} :
    (x.rescue handler).Meets s Q E ↔ x.Meets s Q fun e t => (handler e).Meets t Q E := by
  unfold Meets rescue
  cases x s with
  | mk r t => cases r <;> rfl

@[simp] theorem meets_always {x : Attempt σ ε α} {f : σ → σ} :
    (x.always f).Meets s Q E ↔ x.Meets s (fun a t => Q a (f t)) fun e t => E e (f t) := by
  unfold Meets always
  cases x s with
  | mk r t => cases r <;> rfl

end Attempt

end Library

end Tolkara
