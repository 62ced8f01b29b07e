import Mathlib.Tactic

/-!
# Searching in chunks

A test gives an answer at some indices and none at others. `firstFrom` is the
answer at the first index that has one, and `examined` counts the indices that
are looked at until then. `scanLoop` searches the same way but takes the values
from chunks, each of which has to be fetched first: a fetch may abort, and it
tells what it has read.

`scanLoop_returns` is the rule for such a loop: where every chunk up to the
deciding index can be fetched and agrees with the values, the search in chunks
ends with the answer of the whole search.
-/

namespace Tolkara

namespace Library

variable {α β ρ : Type*}

/-! ## The first answer -/

/-- The answer of `test` at the first index among the `n` from `i` on that has one. -/
def firstFrom (test : ℕ → Option α) : ℕ → ℕ → Option α
  | 0, _ => none
  | n + 1, i => (test i).orElse fun _ => firstFrom test n (i + 1)

/-- How many of the `n` indices from `i` on are looked at. -/
def examined (test : ℕ → Option α) : ℕ → ℕ → ℕ
  | 0, _ => 0
  | n + 1, i => if (test i).isSome then 1 else examined test n (i + 1) + 1

theorem examined_le (test : ℕ → Option α) (n i : ℕ) : examined test n i ≤ n := by
  induction n generalizing i with
  | zero => exact le_rfl
  | succ n ih =>
      rw [examined]
      split
      · omega
      · have := ih (i + 1)
        omega

theorem examined_pos (test : ℕ → Option α) {n : ℕ} (hn : n ≠ 0) (i : ℕ) :
    0 < examined test n i := by
  cases n with
  | zero => exact absurd rfl hn
  | succ n =>
      rw [examined]
      split <;> omega

/-- Before the last index that is looked at there is no answer. -/
theorem none_of_lt_examined {test : ℕ → Option α} {n i j : ℕ}
    (hj : j + 1 < examined test n i) : test (i + j) = none := by
  induction n generalizing i j with
  | zero => exact absurd hj (Nat.not_lt_zero _)
  | succ n ih =>
      rw [examined] at hj
      split at hj
      · omega
      · rename_i hno
        cases j with
        | zero => exact Option.not_isSome_iff_eq_none.1 hno
        | succ j =>
            have := ih (i := i + 1) (j := j) (by omega)
            rwa [show i + 1 + j = i + (j + 1) by omega] at this

/-- The last index that is looked at decides. -/
theorem firstFrom_eq (test : ℕ → Option α) {n : ℕ} (hn : n ≠ 0) (i : ℕ) :
    firstFrom test n i = test (i + (examined test n i - 1)) := by
  induction n generalizing i with
  | zero => exact absurd rfl hn
  | succ n ih =>
      rw [firstFrom, examined]
      cases htest : test i with
      | some a => simpa using htest.symm
      | none =>
          simp only [Option.orElse_none, Option.isSome_none, Bool.false_eq_true, if_false]
          by_cases h0 : n = 0
          · subst h0
            simp [firstFrom, examined, htest]
          · have hpos := examined_pos test h0 (i + 1)
            rw [ih h0 (i + 1)]
            congr 1
            omega

theorem firstFrom_eq_none_iff {test : ℕ → Option α} {n i : ℕ} :
    firstFrom test n i = none ↔ ∀ j < n, test (i + j) = none := by
  induction n generalizing i with
  | zero => simp [firstFrom]
  | succ n ih =>
      rw [firstFrom, Nat.forall_lt_succ_left, Nat.add_zero]
      cases test i with
      | some a => simp
      | none =>
          simp only [Option.orElse_none, ih, true_and]
          simp only [Nat.add_assoc, Nat.add_comm 1]

theorem firstFrom_eq_some {test : ℕ → Option α} {n i j : ℕ} {a : α} (hj : j < n)
    (hbefore : ∀ l < j, test (i + l) = none) (h : test (i + j) = some a) :
    firstFrom test n i = some a := by
  induction n generalizing i j with
  | zero => exact absurd hj (Nat.not_lt_zero _)
  | succ n ih =>
      rw [firstFrom]
      cases j with
      | zero =>
          rw [Nat.add_zero] at h
          rw [h]
          rfl
      | succ j =>
          have h0 := hbefore 0 (Nat.succ_pos j)
          rw [Nat.add_zero] at h0
          rw [h0, Option.orElse_none]
          apply ih (j := j) (by omega)
          · intro l hl
            rw [show i + 1 + l = i + (l + 1) by omega]
            exact hbefore (l + 1) (by omega)
          · rwa [show i + 1 + j = i + (j + 1) by omega]

/-- Without an answer everything is looked at. -/
theorem examined_of_none {test : ℕ → Option α} {n i : ℕ} (h : firstFrom test n i = none) :
    examined test n i = n := by
  induction n generalizing i with
  | zero => rfl
  | succ n ih =>
      rw [firstFrom] at h
      cases htest : test i with
      | some a =>
          rw [htest] at h
          cases h
      | none =>
          rw [htest, Option.orElse_none] at h
          rw [examined, htest, ih h]
          rfl

/-- An index with an answer is not passed. -/
theorem examined_le_of_isSome {test : ℕ → Option α} {i j : ℕ} (n : ℕ)
    (h : (test (i + j)).isSome) : examined test n i ≤ j + 1 := by
  by_contra hlt
  have hnone : test (i + j) = none := none_of_lt_examined (n := n) (by omega)
  rw [hnone] at h
  cases h

/-- Tests that agree where one of them looks. -/
theorem examined_congr {test test' : ℕ → Option α} {n i : ℕ}
    (h : ∀ j < examined test n i, test' (i + j) = test (i + j)) :
    examined test' n i = examined test n i ∧ firstFrom test' n i = firstFrom test n i := by
  induction n generalizing i with
  | zero => exact ⟨rfl, rfl⟩
  | succ n ih =>
      have hpos := examined_pos test (Nat.succ_ne_zero n) i
      have h0 := h 0 hpos
      rw [Nat.add_zero] at h0
      cases htest : test i with
      | some a =>
          rw [htest] at h0
          simp [examined, firstFrom, htest, h0]
      | none =>
          rw [htest] at h0
          have hnext : ∀ j < examined test n (i + 1), test' (i + 1 + j) = test (i + 1 + j) := by
            intro j hj
            have := h (j + 1) (by simp [examined, htest]; omega)
            rwa [show i + 1 + j = i + (j + 1) by omega]
          obtain ⟨hcount, hfirst⟩ := ih hnext
          simp [examined, firstFrom, htest, h0, hcount, hfirst]

/-! ## Scans -/

/-- How a computation that may abort ends; `unfinished` is one that needs more rounds. -/
inductive Ending (α : Type*) where
  | returned (a : α)
  | aborted
  | unfinished

/-- A computation that tells what it has read. -/
structure Scan (ρ α : Type*) where
  ending : Ending α
  reads : List ρ

namespace Scan

def andThen (s : Scan ρ α) (f : α → Scan ρ β) : Scan ρ β :=
  match s.ending with
  | .returned a => { f a with reads := s.reads ++ (f a).reads }
  | .aborted => ⟨.aborted, s.reads⟩
  | .unfinished => ⟨.unfinished, s.reads⟩

def pure (a : α) : Scan ρ α := ⟨.returned a, []⟩

/-- It returns `a`, and everything it reads is in `R`. -/
def Returns (s : Scan ρ α) (a : α) (R : ρ → Prop) : Prop :=
  s.ending = .returned a ∧ ∀ r ∈ s.reads, R r

theorem returns_pure (a : α) (R : ρ → Prop) : (pure a : Scan ρ α).Returns a R :=
  ⟨rfl, fun _ hr => absurd hr List.not_mem_nil⟩

theorem Returns.andThen {s : Scan ρ α} {a : α} {R : ρ → Prop} (h : s.Returns a R)
    {f : α → Scan ρ β} {b : β} (hf : (f a).Returns b R) : (s.andThen f).Returns b R := by
  unfold Scan.andThen
  rw [h.1]
  exact ⟨hf.1, fun r hr => (List.mem_append.1 hr).elim (h.2 r) (hf.2 r)⟩

theorem andThen_assoc {γ : Type*} (s : Scan ρ α) (f : α → Scan ρ β) (g : β → Scan ρ γ) :
    (s.andThen f).andThen g = s.andThen fun a => (f a).andThen g := by
  obtain ⟨ending, reads⟩ := s
  cases ending with
  | returned a =>
      unfold andThen
      dsimp only
      cases (f a).ending <;> simp [List.append_assoc]
  | aborted => rfl
  | unfinished => rfl

end Scan

/-- Chunk after chunk, until the test has an answer or there is no `more`. A chunk is its
length with the values in it. -/
def scanLoop (more : ℕ → Bool) (fetch : ℕ → Scan ρ (ℕ × (ℕ → β))) (test : ℕ → β → Option α)
    (finish : ℕ → α) : ℕ → ℕ → Scan ρ α
  | 0, _ => ⟨.unfinished, []⟩
  | fuel + 1, done =>
    if more done then
      (fetch done).andThen fun chunk =>
        match firstFrom (fun i => test (done + i) (chunk.2 i)) chunk.1 0 with
        | some a => .pure a
        | none => scanLoop more fetch test finish fuel (done + chunk.1)
    else .pure (finish done)

/-- A chunk at `done` that has the values `B` up to the last of the `limit` indices that `T`
looks at, and does not go beyond them where `T` has no answer. -/
structure Chunk (s : Scan ρ (ℕ × (ℕ → β))) (B : ℕ → β) (T : ℕ → Option α) (limit done : ℕ)
    (R : ρ → Prop) (chunk : ℕ × (ℕ → β)) : Prop where
  returns : s.Returns chunk R
  pos : 0 < chunk.1
  le : firstFrom T limit 0 = none → done + chunk.1 ≤ limit
  agrees : ∀ i < chunk.1, done + i < examined T limit 0 → chunk.2 i = B (done + i)

theorem scanLoop_returns {more : ℕ → Bool} {fetch : ℕ → Scan ρ (ℕ × (ℕ → β))}
    {test : ℕ → β → Option α} {finish : ℕ → α} {B : ℕ → β} {T : ℕ → Option α} {R : ρ → Prop}
    {limit : ℕ} (hT : ∀ i, T i = test i (B i))
    (hfetch : ∀ done < examined T limit 0, ∃ chunk, Chunk (fetch done) B T limit done R chunk)
    (hmore : ∀ done < examined T limit 0, more done = true)
    (hend : firstFrom T limit 0 = none → more limit = false) {fuel : ℕ}
    (hfuel : examined T limit 0 < fuel) :
    (scanLoop more fetch test finish fuel 0).Returns
      ((firstFrom T limit 0).getD (finish limit)) R := by
  have hbefore : ∀ j, j + 1 < examined T limit 0 → T j = none := by
    intro j hj
    have := none_of_lt_examined hj
    rwa [Nat.zero_add] at this
  -- The loop goes on from any index that the search reaches.
  have hloop : ∀ fuel done, done ≤ examined T limit 0 → (∀ i < done, T i = none) →
      examined T limit 0 - done < fuel →
      (scanLoop more fetch test finish fuel done).Returns
        ((firstFrom T limit 0).getD (finish limit)) R := by
    intro fuel
    induction fuel with
    | zero => exact fun done _ _ h => absurd h (Nat.not_lt_zero _)
    | succ fuel ih =>
        intro done hle hnone hfuel
        rw [scanLoop]
        rcases Nat.lt_or_eq_of_le hle with hlt | rfl
        · have hlimit : limit ≠ 0 := by
            have := examined_le T limit 0
            omega
          have hfirst := firstFrom_eq T hlimit 0
          rw [Nat.zero_add] at hfirst
          obtain ⟨chunk, hreturns, hpos, hbound, hagrees⟩ := hfetch done hlt
          rw [if_pos (hmore done hlt)]
          refine hreturns.andThen ?_
          have hvalue : ∀ i < chunk.1, done + i < examined T limit 0 →
              test (done + i) (chunk.2 i) = T (done + i) := by
            intro i hi hi'
            rw [hT, hagrees i hi hi']
          by_cases hdecides : ∃ a, T (examined T limit 0 - 1) = some a ∧
              examined T limit 0 ≤ done + chunk.1
          · -- The deciding index is in the chunk.
            obtain ⟨a, ha, hin⟩ := hdecides
            have hsome : firstFrom (fun i => test (done + i) (chunk.2 i)) chunk.1 0 = some a := by
              apply firstFrom_eq_some (j := examined T limit 0 - 1 - done) (by omega)
              · intro l hl
                rw [Nat.zero_add, hvalue l (by omega) (by omega)]
                exact hbefore _ (by omega)
              · rw [Nat.zero_add, hvalue _ (by omega) (by omega)]
                rw [show done + (examined T limit 0 - 1 - done) = examined T limit 0 - 1 by omega]
                exact ha
            rw [hsome, hfirst, ha]
            exact Scan.returns_pure a R
          · have hnext : done + chunk.1 ≤ examined T limit 0 := by
              cases ha : T (examined T limit 0 - 1) with
              | some a =>
                  by_contra hlt'
                  exact hdecides ⟨a, ha, by omega⟩
              | none =>
                  rw [ha] at hfirst
                  rw [examined_of_none hfirst]
                  exact hbound hfirst
            have hrest : ∀ i < done + chunk.1, T i = none := by
              intro i hi
              by_cases hlast : i + 1 < examined T limit 0
              · exact hbefore i hlast
              · rw [show i = examined T limit 0 - 1 by omega]
                cases ha : T (examined T limit 0 - 1) with
                | some a => exact absurd ⟨a, ha, by omega⟩ hdecides
                | none => rfl
            have hchunk : firstFrom (fun i => test (done + i) (chunk.2 i)) chunk.1 0 = none := by
              rw [firstFrom_eq_none_iff]
              intro j hj
              rw [Nat.zero_add, hvalue j hj (by omega)]
              exact hrest _ (by omega)
            rw [hchunk]
            exact ih _ hnext hrest (by omega)
        · -- Everything was looked at.
          have hno : firstFrom T limit 0 = none := by
            by_cases h0 : limit = 0
            · rw [h0]
              rfl
            · have hpos := examined_pos T h0 0
              rw [firstFrom_eq T h0, Nat.zero_add]
              exact hnone _ (by omega)
          rw [examined_of_none hno, hno, if_neg (by simp [hend hno])]
          exact Scan.returns_pure _ R
  exact hloop fuel 0 (Nat.zero_le _) (fun i hi => absurd hi (Nat.not_lt_zero i)) (by omega)

end Library

end Tolkara
