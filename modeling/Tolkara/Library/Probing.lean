import Mathlib.Data.Finset.Card
import Mathlib.Logic.Function.Basic
import Mathlib.Tactic

/-!
# Open addressing with tombstones

A ring of `n` slots, each empty, deleted (a tombstone) or holding a live key.
`probe` walks the ring from the key's home slot: it stops at the key itself or
at an empty slot, and remembers the first tombstone it passes, which an
insertion reuses.

The invariant is `Probed`: no empty slot lies between a live key's home and the
slot it is stored in, and no key is stored twice. It is what makes a lookup
exact (`probe_lookup_iff`), and both an insertion at the slot that `probe`
answers and a deletion keep it, since neither makes a slot empty.
-/

namespace Tolkara

namespace Library

/-- What a slot of the table holds. -/
inductive Slot (κ : Type*) where
  | empty
  | deleted
  | live (k : κ)
deriving DecidableEq, Repr

namespace Slot

variable {κ : Type*}

/-- The slot holds a key. -/
def IsLive (s : Slot κ) : Prop := ∃ k, s = live k

instance (s : Slot κ) : Decidable s.IsLive :=
  match s with
  | .empty => isFalse (by rintro ⟨k, h⟩; cases h)
  | .deleted => isFalse (by rintro ⟨k, h⟩; cases h)
  | .live k => isTrue ⟨k, rfl⟩

@[simp] theorem isLive_live (k : κ) : (live k).IsLive := ⟨k, rfl⟩

@[simp] theorem not_isLive_empty : ¬ (empty : Slot κ).IsLive := by
  rintro ⟨k, h⟩
  cases h

@[simp] theorem not_isLive_deleted : ¬ (deleted : Slot κ).IsLive := by
  rintro ⟨k, h⟩
  cases h

variable [DecidableEq κ]

/-- The walk over the ring: `first` is the first tombstone passed so far. An
insertion answers it, or else the empty slot the walk ends at; a lookup answers
only the slot of the key. -/
def probe (n : ℕ) (t : ℕ → Slot κ) (k : κ) (insertion : Bool) :
    ℕ → ℕ → Option ℕ → Option ℕ
  | 0, _, first => if insertion then first else none
  | fuel + 1, i, first =>
    match t i with
    | .empty => if insertion then first.or (some i) else none
    | .deleted => probe n t k insertion fuel ((i + 1) % n) (first.or (some i))
    | .live k' =>
      if k' = k then some i
      else probe n t k insertion fuel ((i + 1) % n) first

/-- Every slot between the home of a live key and the slot it is stored in is
occupied, and no key is stored twice. -/
structure Probed (n : ℕ) (home : κ → ℕ) (t : ℕ → Slot κ) : Prop where
  reach : ∀ j < n, ∀ k, t j = live k →
    ∃ d < n, (home k + d) % n = j ∧ ∀ e < d, t ((home k + e) % n) ≠ empty
  inj : ∀ i < n, ∀ j < n, ∀ k, t i = live k → t j = live k → i = j

omit [DecidableEq κ] in
theorem ring_succ (h d n : ℕ) : ((h + d) % n + 1) % n = (h + (d + 1)) % n := by
  rw [Nat.mod_add_mod, Nat.add_assoc]

/-! ## Lookup -/

theorem probe_lookup_sound (n : ℕ) (t : ℕ → Slot κ) (k : κ) :
    ∀ (fuel i : ℕ) (first : Option ℕ) (j : ℕ),
      probe n t k false fuel i first = some j → t j = live k
  | 0, _, _, _, h => by simp [probe] at h
  | fuel + 1, i, first, j, h => by
      rw [probe] at h
      cases ht : t i with
      | empty => simp [ht] at h
      | deleted =>
          rw [ht] at h
          exact probe_lookup_sound n t k fuel _ _ j h
      | live k' =>
          rw [ht] at h
          dsimp only at h
          split at h
          · rename_i hk
            cases h
            rw [ht, hk]
          · exact probe_lookup_sound n t k fuel _ _ j h

theorem probe_lookup_complete (n : ℕ) (t : ℕ → Slot κ) (k : κ) (h c : ℕ) (hc : c < n)
    (hk : t ((h + c) % n) = live k) (hocc : ∀ e < c, t ((h + e) % n) ≠ empty) :
    ∀ (fuel d : ℕ) (first : Option ℕ), fuel + d = n → d ≤ c →
      ∃ j, probe n t k false fuel ((h + d) % n) first = some j := by
  intro fuel
  induction fuel with
  | zero =>
      intro d first hd hle
      omega
  | succ fuel ih =>
      intro d first hd hle
      rw [probe]
      cases ht : t ((h + d) % n) with
      | empty =>
          rcases Nat.lt_or_ge d c with hlt | hge
          · exact absurd ht (hocc d hlt)
          · obtain rfl : d = c := by omega
            rw [hk] at ht
            cases ht
      | deleted =>
          dsimp only
          have hne : d ≠ c := by
            rintro rfl
            rw [hk] at ht
            cases ht
          rw [ring_succ]
          exact ih (d + 1) _ (by omega) (by omega)
      | live k' =>
          dsimp only
          by_cases hkk : k' = k
          · exact ⟨_, if_pos hkk⟩
          · rw [if_neg hkk, ring_succ]
            have hne : d ≠ c := by
              rintro rfl
              rw [hk] at ht
              cases ht
              exact hkk rfl
            exact ih (d + 1) _ (by omega) (by omega)

/-- Every slot a lookup answers lies in the ring. -/
theorem probe_lt {n : ℕ} (hn : 0 < n) (t : ℕ → Slot κ) (k : κ) (insertion : Bool) :
    ∀ (fuel i : ℕ) (first : Option ℕ) (j : ℕ), i < n → (∀ f ∈ first, f < n) →
      probe n t k insertion fuel i first = some j → j < n
  | 0, _, first, j, _, hf, h => by
      cases insertion
      · simp [probe] at h
      · exact hf j (by simpa [probe] using h)
  | fuel + 1, i, first, j, hi, hf, h => by
      have hnext : (i + 1) % n < n := Nat.mod_lt _ hn
      have hor : ∀ f ∈ first.or (some i), f < n := by
        intro f hfi
        cases first with
        | none =>
            obtain rfl : i = f := by simpa using hfi
            exact hi
        | some g => exact hf f (by simpa using hfi)
      rw [probe] at h
      cases ht : t i with
      | empty =>
          rw [ht] at h
          cases insertion
          · simp at h
          · exact hor j (by simpa using h)
      | deleted =>
          rw [ht] at h
          exact probe_lt hn t k insertion fuel _ _ j hnext hor h
      | live k' =>
          rw [ht] at h
          dsimp only at h
          split at h
          · cases h
            exact hi
          · exact probe_lt hn t k insertion fuel _ _ j hnext hf h

theorem probe_lookup_iff {n : ℕ} {home : κ → ℕ} {t : ℕ → Slot κ} (hp : Probed n home t)
    {k : κ} (hh : home k < n) (j : ℕ) :
    probe n t k false n (home k) none = some j ↔ j < n ∧ t j = live k := by
  have hn : 0 < n := by omega
  constructor
  · intro h
    exact ⟨probe_lt hn t k false n _ none j hh (by simp) h,
      probe_lookup_sound n t k n _ none j h⟩
  · rintro ⟨hj, hk⟩
    obtain ⟨c, hc, hcj, hocc⟩ := hp.reach j hj k hk
    have hfind := probe_lookup_complete n t k (home k) c hc (by rw [hcj, hk]) hocc
      n 0 none (by omega) (by omega)
    rw [Nat.add_zero, Nat.mod_eq_of_lt hh] at hfind
    obtain ⟨i, hi⟩ := hfind
    have hin := probe_lt hn t k false n _ none i hh (by simp) hi
    have hik := probe_lookup_sound n t k n _ none i hi
    rw [hi, hp.inj i hin j hj k hik hk]

/-! ## Insertion -/

/-- The slot an insertion is given: free, and with no empty slot before it. -/
theorem probe_insert_aux (n : ℕ) (t : ℕ → Slot κ) (k : κ) (h : ℕ)
    (hk : ∀ j < n, t j ≠ live k) (hn : 0 < n)
    (hvac : ∃ c < n, ¬ (t ((h + c) % n)).IsLive) :
    ∀ (fuel d : ℕ) (first : Option ℕ), fuel + d = n →
      (∀ e < d, t ((h + e) % n) ≠ empty) →
      (∀ f ∈ first, ∃ c < d, (h + c) % n = f ∧ t f = deleted) →
      (first = none → ∀ e < d, (t ((h + e) % n)).IsLive) →
      ∃ c < n, probe n t k true fuel ((h + d) % n) first = some ((h + c) % n) ∧
        ¬ (t ((h + c) % n)).IsLive ∧ ∀ e < c, t ((h + e) % n) ≠ empty := by
  intro fuel
  induction fuel with
  | zero =>
      intro d first hd hocc hfirst hnone
      cases first with
      | none =>
          obtain ⟨c, hc, hlive⟩ := hvac
          exact absurd (hnone rfl c (by omega)) hlive
      | some f =>
          obtain ⟨c, hc, rfl, hdel⟩ := hfirst f rfl
          refine ⟨c, by omega, by simp [probe], by simp [hdel], ?_⟩
          intro e he
          exact hocc e (by omega)
  | succ fuel ih =>
      intro d first hd hocc hfirst hnone
      rw [probe]
      cases ht : t ((h + d) % n) with
      | empty =>
          cases first with
          | none => exact ⟨d, by omega, by simp, by simp [ht], hocc⟩
          | some f =>
              obtain ⟨c, hc, rfl, hdel⟩ := hfirst f rfl
              refine ⟨c, by omega, by simp, by simp [hdel], ?_⟩
              intro e he
              exact hocc e (by omega)
      | deleted =>
          dsimp only
          rw [ring_succ]
          apply ih (d + 1) _ (by omega)
          · intro e he
            rcases Nat.lt_succ_iff_lt_or_eq.1 he with he | rfl
            · exact hocc e he
            · simp [ht]
          · intro f hf
            cases first with
            | none =>
                obtain rfl : (h + d) % n = f := by simpa using hf
                exact ⟨d, by omega, rfl, ht⟩
            | some g =>
                obtain ⟨c, hc, hcf⟩ := hfirst f (by simpa using hf)
                exact ⟨c, by omega, hcf⟩
          · intro hf
            cases first <;> simp at hf
      | live k' =>
          dsimp only
          have hne : k' ≠ k := by
            rintro rfl
            exact hk _ (Nat.mod_lt _ hn) ht
          rw [if_neg hne, ring_succ]
          apply ih (d + 1) _ (by omega)
          · intro e he
            rcases Nat.lt_succ_iff_lt_or_eq.1 he with he | rfl
            · exact hocc e he
            · simp [ht]
          · intro f hf
            obtain ⟨c, hc, hcf⟩ := hfirst f hf
            exact ⟨c, by omega, hcf⟩
          · intro hf e he
            rcases Nat.lt_succ_iff_lt_or_eq.1 he with he | rfl
            · exact hnone hf e he
            · simp [ht]

/-- Going round the ring from any home reaches every slot. -/
theorem exists_ring_eq {n j : ℕ} (h : ℕ) (hj : j < n) : ∃ c < n, (h + c) % n = j := by
  have hn : 0 < n := by omega
  have hmod := Nat.mod_lt h hn
  refine ⟨(j + (n - h % n)) % n, Nat.mod_lt _ hn, ?_⟩
  rw [Nat.add_mod_mod]
  have hsplit : h + (j + (n - h % n)) = j + n * (h / n + 1) := by
    have := Nat.div_add_mod h n
    rw [Nat.mul_add]
    omega
  rw [hsplit, Nat.add_mul_mod_self_left, Nat.mod_eq_of_lt hj]

theorem probe_insert {n : ℕ} {home : κ → ℕ} {t : ℕ → Slot κ} {k : κ}
    (hh : home k < n) (hk : ∀ j < n, t j ≠ live k) (hvac : ∃ j < n, ¬ (t j).IsLive) :
    ∃ j < n, probe n t k true n (home k) none = some j ∧ ¬ (t j).IsLive ∧
      ∃ d < n, (home k + d) % n = j ∧ ∀ e < d, t ((home k + e) % n) ≠ empty := by
  have hn : 0 < n := by omega
  have hvac' : ∃ c < n, ¬ (t ((home k + c) % n)).IsLive := by
    obtain ⟨j, hj, hlive⟩ := hvac
    obtain ⟨c, hc, rfl⟩ := exists_ring_eq (home k) hj
    exact ⟨c, hc, hlive⟩
  obtain ⟨c, hc, hprobe, hfree, hocc⟩ :=
    probe_insert_aux n t k (home k) hk hn hvac' n 0 none (by omega) (by simp)
      (by simp) (by simp)
  rw [Nat.add_zero, Nat.mod_eq_of_lt hh] at hprobe
  exact ⟨_, Nat.mod_lt _ hn, hprobe, hfree, c, hc, rfl, hocc⟩

/-- An insertion into a ring with a free slot is never refused. -/
theorem probe_insertion_ne_none {n : ℕ} {home : κ → ℕ} {t : ℕ → Slot κ} {k : κ}
    (hh : home k < n) (hvac : ∃ j < n, ¬ (t j).IsLive) :
    probe n t k true n (home k) none ≠ none := by
  by_cases hk : ∀ j < n, t j ≠ live k
  · obtain ⟨j, -, hj, -⟩ := probe_insert hh hk hvac
    simp [hj]
  · push Not at hk
    have hn : 0 < n := by omega
    obtain ⟨j, hj, hlive⟩ := hk
    obtain ⟨c, hc, rfl⟩ := exists_ring_eq (home k) hj
    have key : ∀ (fuel d : ℕ) (first : Option ℕ), fuel + d = n → d ≤ c →
        probe n t k true fuel ((home k + d) % n) first ≠ none := by
      intro fuel
      induction fuel with
      | zero =>
          intro d first hd hle
          omega
      | succ fuel ih =>
          intro d first hd hle
          have hstep : t ((home k + d) % n) ≠ live k → d + 1 ≤ c := by
            intro hne
            rcases Nat.lt_or_ge d c with hlt | hge
            · exact hlt
            · obtain rfl : d = c := by omega
              exact absurd hlive hne
          rw [probe]
          cases ht : t ((home k + d) % n) with
          | empty => cases first <;> simp
          | deleted =>
              dsimp only
              rw [ring_succ]
              exact ih (d + 1) _ (by omega) (hstep (by simp [ht]))
          | live k' =>
              dsimp only
              split
              · simp
              · rename_i hne
                rw [ring_succ]
                exact ih (d + 1) _ (by omega) (hstep (by simp [ht, hne]))
    have := key n 0 none (by omega) (by omega)
    rwa [Nat.add_zero, Nat.mod_eq_of_lt hh] at this

/-! ## The invariant under updates -/

omit [DecidableEq κ] in
theorem Probed.empty {n : ℕ} {home : κ → ℕ} :
    Probed n home fun _ => (.empty : Slot κ) := by
  constructor
  · intro j _ k h
    cases h
  · intro i _ j _ k h
    cases h

omit [DecidableEq κ] in
theorem Probed.insert {n : ℕ} {home : κ → ℕ} {t : ℕ → Slot κ} (hp : Probed n home t)
    {k : κ} (hk : ∀ j < n, t j ≠ live k) {i d : ℕ} (hd : d < n)
    (hi : (home k + d) % n = i) (hfree : ¬ (t i).IsLive)
    (hocc : ∀ e < d, t ((home k + e) % n) ≠ .empty) :
    Probed n home (Function.update t i (live k)) := by
  have hkeep : ∀ j, t j ≠ .empty → Function.update t i (live k) j ≠ .empty := by
    intro j hj
    by_cases hji : j = i
    · simp [hji]
    · simpa [Function.update_of_ne hji] using hj
  have hcases : ∀ j k', Function.update t i (live k) j = live k' →
      (j = i ∧ k' = k) ∨ (j ≠ i ∧ t j = live k') := by
    intro j k' h
    by_cases hji : j = i
    · subst hji
      exact .inl ⟨rfl, by simpa using h.symm⟩
    · exact .inr ⟨hji, by simpa [Function.update_of_ne hji] using h⟩
  constructor
  · intro j hj k' h
    rcases hcases j k' h with ⟨rfl, rfl⟩ | ⟨hji, hlive⟩
    · exact ⟨d, hd, hi, fun e he => hkeep _ (hocc e he)⟩
    · obtain ⟨c, hc, hcj, hco⟩ := hp.reach j hj k' hlive
      exact ⟨c, hc, hcj, fun e he => hkeep _ (hco e he)⟩
  · intro a ha b hb k' h1 h2
    rcases hcases a k' h1 with ⟨rfl, rfl⟩ | ⟨hai, hla⟩
    · rcases hcases b k' h2 with ⟨rfl, -⟩ | ⟨-, hlb⟩
      · rfl
      · exact absurd hlb (hk b hb)
    · rcases hcases b k' h2 with ⟨rfl, rfl⟩ | ⟨hbi, hlb⟩
      · exact absurd hla (hk a ha)
      · exact hp.inj a ha b hb k' hla hlb

omit [DecidableEq κ] in
theorem Probed.delete {n : ℕ} {home : κ → ℕ} {t : ℕ → Slot κ} (hp : Probed n home t)
    (i : ℕ) : Probed n home (Function.update t i deleted) := by
  have hkeep : ∀ j, t j ≠ .empty → Function.update t i deleted j ≠ .empty := by
    intro j hj
    by_cases hji : j = i
    · simp [hji]
    · simpa [Function.update_of_ne hji] using hj
  have hcases : ∀ j k', Function.update t i deleted j = live k' → t j = live k' := by
    intro j k' h
    by_cases hji : j = i
    · simp [hji] at h
    · simpa [Function.update_of_ne hji] using h
  constructor
  · intro j hj k' h
    obtain ⟨c, hc, hcj, hco⟩ := hp.reach j hj k' (hcases j k' h)
    exact ⟨c, hc, hcj, fun e he => hkeep _ (hco e he)⟩
  · intro a ha b hb k' h1 h2
    exact hp.inj a ha b hb k' (hcases a k' h1) (hcases b k' h2)

/-! ## Counting the live slots -/

def liveSlots (n : ℕ) (t : ℕ → Slot κ) : Finset ℕ :=
  (Finset.range n).filter fun j => (t j).IsLive

omit [DecidableEq κ] in
@[simp] theorem mem_liveSlots {n : ℕ} {t : ℕ → Slot κ} {j : ℕ} :
    j ∈ liveSlots n t ↔ j < n ∧ (t j).IsLive := by
  simp [liveSlots]

omit [DecidableEq κ] in
theorem exists_not_isLive {n : ℕ} {t : ℕ → Slot κ} (h : (liveSlots n t).card < n) :
    ∃ j < n, ¬ (t j).IsLive := by
  by_contra hall
  push Not at hall
  have : liveSlots n t = Finset.range n := by
    ext j
    simp only [mem_liveSlots, Finset.mem_range, and_iff_left_iff_imp]
    exact hall j
  rw [this, Finset.card_range] at h
  omega

omit [DecidableEq κ] in
theorem liveSlots_update_live {n : ℕ} {t : ℕ → Slot κ} {i : ℕ} (hi : i < n) (k : κ) :
    liveSlots n (Function.update t i (live k)) = insert i (liveSlots n t) := by
  ext j
  by_cases hji : j = i
  · subst hji
    simp [hi]
  · simp [hji]

omit [DecidableEq κ] in
theorem liveSlots_update_deleted {n : ℕ} {t : ℕ → Slot κ} (i : ℕ) :
    liveSlots n (Function.update t i deleted) = (liveSlots n t).erase i := by
  ext j
  by_cases hji : j = i
  · subst hji
    simp
  · simp [hji]

end Slot

end Library

end Tolkara
