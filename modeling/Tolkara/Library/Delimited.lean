import Mathlib.Tactic

/-!
# Items that say where they end

A format in which the first item can be taken off without looking beyond it. `Writes` says
that some symbols are an item whatever follows them. Two loops read such items: `each` treats
all items up to the end of the input, and `seek` passes over items until a marker stands where
the next one would begin, so that a marker inside an item is never seen.
-/

namespace Tolkara

namespace Library

/-- How the first item is taken off. What is left is shorter. -/
structure Delimited (α β : Type*) where
  next : List α → Option (β × List α)
  shorter : ∀ {l : List α} {x : β} {r : List α}, next l = some (x, r) → r.length < l.length

namespace Delimited

variable {α β σ ε : Type*} (D : Delimited α β)

/-- These symbols are the item `x`, whatever follows them. -/
def Writes (item : List α) (x : β) : Prop := ∀ s, D.next (item ++ s) = some (x, s)

variable {D} {item l s : List α} {items : List (List α)} {x : β}

theorem next_nil : D.next [] = none := by
  cases h : D.next [] with
  | none => rfl
  | some p => exact absurd (D.shorter h) (Nat.not_lt_zero _)

theorem Writes.next (h : D.Writes item x) : D.next item = some (x, []) := by
  have hend := h []
  rwa [List.append_nil] at hend

theorem Writes.ne_nil (h : D.Writes item x) : item ≠ [] := by
  intro hnil
  exact absurd (D.shorter (hnil ▸ h.next)) (Nat.lt_irrefl _)

/-! ## Every item up to the end -/

variable (D) (malformed : ε) (step : σ → β → Except ε σ)

/-- The loop over the items, of which there are no more than symbols. -/
def eachFrom : ℕ → List α → σ → Except ε σ
  | _, [], state => .ok state
  | 0, _ :: _, _ => .error malformed
  | n + 1, a :: l, state =>
    match D.next (a :: l) with
    | none => .error malformed
    | some (x, rest) => step state x >>= fun state => eachFrom n rest state

def each (l : List α) (state : σ) : Except ε σ := eachFrom D malformed step l.length l state

variable {D malformed step}

/-- The number of rounds does not matter. -/
theorem eachFrom_congr {n m : ℕ} (hn : l.length ≤ n) (hm : l.length ≤ m) (state : σ) :
    eachFrom D malformed step n l state = eachFrom D malformed step m l state := by
  induction n generalizing m l state with
  | zero =>
      obtain rfl := List.length_eq_zero_iff.1 (Nat.le_zero.1 hn)
      cases m with
      | zero => rfl
      | succ m => rfl
  | succ n ih =>
      cases l with
      | nil =>
          cases m with
          | zero => rfl
          | succ m => rfl
      | cons a l =>
          cases m with
          | zero => exact absurd hm (Nat.not_succ_le_zero _)
          | succ m =>
              rw [eachFrom, eachFrom]
              cases hnext : D.next (a :: l) with
              | none => rfl
              | some p =>
                  obtain ⟨x, rest⟩ := p
                  have hshorter := D.shorter hnext
                  rw [List.length_cons] at hshorter hn hm
                  change (step state x >>= fun state => eachFrom D malformed step n rest state) =
                    step state x >>= fun state => eachFrom D malformed step m rest state
                  congr 1
                  funext state
                  exact ih (by omega) (by omega) state

theorem each_nil (state : σ) : each D malformed step [] state = .ok state := rfl

theorem each_of_ne_nil (h : l ≠ []) (state : σ) :
    each D malformed step l state =
      match D.next l with
      | none => .error malformed
      | some (x, rest) => step state x >>= fun state => each D malformed step rest state := by
  obtain ⟨a, l, rfl⟩ := List.exists_cons_of_ne_nil h
  rw [each, List.length_cons, eachFrom]
  cases hnext : D.next (a :: l) with
  | none => rfl
  | some p =>
      obtain ⟨x, rest⟩ := p
      have hshorter := D.shorter hnext
      rw [List.length_cons] at hshorter
      change (step state x >>= fun state => eachFrom D malformed step l.length rest state) =
        step state x >>= fun state => each D malformed step rest state
      congr 1
      funext state
      exact eachFrom_congr (Nat.lt_succ_iff.1 hshorter) le_rfl state

theorem each_append (h : D.Writes item x) (s : List α) (state : σ) :
    each D malformed step (item ++ s) state =
      step state x >>= fun state => each D malformed step s state := by
  have hne : item ++ s ≠ [] := fun hnil => h.ne_nil (List.append_eq_nil_iff.1 hnil).1
  rw [each_of_ne_nil hne, h s]

/-- The loop over items one after another, where a step depends on the symbols of an item. -/
theorem each_flatten {f : σ → List α → Except ε σ}
    (h : ∀ i ∈ items, ∃ x, D.Writes i x ∧ ∀ state, step state x = f state i) (state : σ) :
    each D malformed step items.flatten state = items.foldlM f state := by
  induction items generalizing state with
  | nil => rfl
  | cons i items ih =>
      obtain ⟨x, hx, hstep⟩ := h i List.mem_cons_self
      rw [List.flatten_cons, each_append hx, List.foldlM_cons, hstep]
      congr 1
      funext state
      exact ih (fun j hj => h j (List.mem_cons_of_mem _ hj)) state

/-! ## Items up to a marker -/

variable [DecidableEq α] (D) (marker : List α)

/-- The loop that passes over items until the marker is there. -/
def seekFrom : ℕ → List α → Option (List α)
  | 0, l => if marker <+: l then some l else none
  | n + 1, l =>
    if marker <+: l then some l
    else
      match D.next l with
      | none => none
      | some (_, rest) => seekFrom n rest

def seek (l : List α) : Option (List α) := seekFrom D marker l.length l

variable {D marker}

theorem seekFrom_congr {n m : ℕ} (hn : l.length ≤ n) (hm : l.length ≤ m) :
    seekFrom D marker n l = seekFrom D marker m l := by
  induction n generalizing m l with
  | zero =>
      obtain rfl := List.length_eq_zero_iff.1 (Nat.le_zero.1 hn)
      cases m with
      | zero => rfl
      | succ m => rw [seekFrom, seekFrom, next_nil]
  | succ n ih =>
      cases m with
      | zero =>
          obtain rfl := List.length_eq_zero_iff.1 (Nat.le_zero.1 hm)
          rw [seekFrom, seekFrom, next_nil]
      | succ m =>
          rw [seekFrom, seekFrom]
          cases hnext : D.next l with
          | none => rfl
          | some p =>
              have hshorter := D.shorter hnext
              have hsame : seekFrom D marker n p.2 = seekFrom D marker m p.2 :=
                ih (by omega) (by omega)
              simp only [hsame]

theorem seek_of_marker (h : marker <+: l) : seek D marker l = some l := by
  unfold seek
  cases l.length with
  | zero => rw [seekFrom, if_pos h]
  | succ n => rw [seekFrom, if_pos h]

theorem seek_of_not_marker (h : ¬ marker <+: l) :
    seek D marker l =
      match D.next l with
      | none => none
      | some (_, rest) => seek D marker rest := by
  unfold seek
  cases hlength : l.length with
  | zero =>
      obtain rfl := List.length_eq_zero_iff.1 hlength
      rw [seekFrom, if_neg h, next_nil]
  | succ n =>
      rw [seekFrom, if_neg h]
      cases hnext : D.next l with
      | none => rfl
      | some p =>
          have hshorter := D.shorter hnext
          exact seekFrom_congr (by omega) le_rfl

theorem length_le_of_seek {q : List α} (h : seek D marker l = some q) : q.length ≤ l.length := by
  induction hlength : l.length using Nat.strong_induction_on generalizing l with
  | h n ih =>
      by_cases hmarker : marker <+: l
      · rw [seek_of_marker hmarker] at h
        rw [← Option.some.inj h, hlength]
      · rw [seek_of_not_marker hmarker] at h
        cases hnext : D.next l with
        | none =>
            rw [hnext] at h
            cases h
        | some p =>
            rw [hnext] at h
            have hshorter := D.shorter hnext
            have hrest := ih p.2.length (by omega) h rfl
            omega

/-- Items that do not begin like the marker are passed over. -/
theorem seek_flatten (h : ∀ i ∈ items, (∃ x, D.Writes i x) ∧ ∀ s, ¬ marker <+: i ++ s)
    (s : List α) : seek D marker (items.flatten ++ s) = seek D marker s := by
  induction items with
  | nil => rfl
  | cons i items ih =>
      obtain ⟨⟨x, hx⟩, hmarker⟩ := h i List.mem_cons_self
      rw [List.flatten_cons, List.append_assoc, seek_of_not_marker (hmarker _), hx]
      exact ih fun j hj => h j (List.mem_cons_of_mem _ hj)

end Delimited

end Library

end Tolkara
