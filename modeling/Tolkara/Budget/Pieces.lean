import Tolkara.Budget.Basic

/-!
# Pieces of a range

What `part` says about a piece, and what the functions around it do to regions
and claims, each said once. The order of regions and claims is never used beyond
this module: `forget`, `claim` and `sweep` are described up to permutation.
-/

namespace Tolkara

open Library

namespace GVBudget

/-! ## One piece -/

theorem missingLoop_cases (cursor stop : ℕ) (regions : List GVRegion) :
    ∀ (i next : ℕ), cursor < next →
      (∃ k r, missingLoop cursor stop regions i next = .error (min r.span stop, i + k) ∧
        regions[k]? = some r ∧ r.limit ≤ cursor ∧ cursor < r.span) ∨
      ∃ next', missingLoop cursor stop regions i next = .ok next' ∧ cursor < next' ∧
        next' ≤ next ∧
        ∀ r ∈ regions, ∀ x, cursor ≤ x → x < next' → ¬ (r.limit ≤ x ∧ x < r.span) := by
  induction regions with
  | nil =>
      intro i next h
      exact .inr ⟨next, rfl, h, le_rfl, by simp⟩
  | cons r rest ih =>
      intro i next h
      rw [missingLoop]
      by_cases hin : r.limit ≤ cursor ∧ cursor < r.span
      · rw [if_pos hin]
        exact .inl ⟨0, r, rfl, rfl, hin⟩
      rw [if_neg hin]
      have hnext : cursor < (if cursor < r.limit ∧ r.limit < r.span then min next r.limit
          else next) := by
        split
        · omega
        · exact h
      rcases ih (i + 1) _ hnext with ⟨k, t, heq, hk, ht⟩ | ⟨next', heq, h1, h2, h3⟩
      · refine .inl ⟨k + 1, t, ?_, hk, ht⟩
        rw [heq, Nat.add_right_comm, Nat.add_assoc]
      · refine .inr ⟨next', heq, h1, ?_, ?_⟩
        · refine le_trans h2 ?_
          split <;> omega
        · intro t ht x hx1 hx2
          rcases List.mem_cons.1 ht with rfl | ht
          · split at h2 <;> omega
          · exact h3 t ht x hx1 hx2

theorem ownLoop_cases {cursor : ℕ} (regions : List GVRegion) :
    ∀ (i next : ℕ), cursor < next →
      cursor < (ownLoop cursor regions i next).2.1 ∧
      (ownLoop cursor regions i next).2.1 ≤ next ∧
      ((ownLoop cursor regions i next).1 = .outside ∧
          (ownLoop cursor regions i next).2.2 = none ∧
          (∀ r ∈ regions, r.start ≤ cursor → r.limit ≤ cursor) ∧
          (∀ r ∈ regions, cursor < r.start → (ownLoop cursor regions i next).2.1 ≤ r.start) ∨
        ∃ k r, (ownLoop cursor regions i next).2.2 = some (i + k) ∧ regions[k]? = some r ∧
          r.start ≤ cursor ∧ cursor < r.limit ∧
          (cursor < r.stop ∧ (ownLoop cursor regions i next).1 = .granted ∧
              (ownLoop cursor regions i next).2.1 ≤ r.stop ∨
            r.stop ≤ cursor ∧ (ownLoop cursor regions i next).1 = .guard ∧
              (ownLoop cursor regions i next).2.1 ≤ r.limit)) := by
  induction regions with
  | nil =>
      intro i next h
      exact ⟨h, le_rfl, .inl ⟨rfl, rfl, by simp, by simp⟩⟩
  | cons r rest ih =>
      intro i next h
      rw [ownLoop]
      by_cases hin : r.start ≤ cursor ∧ cursor < r.limit
      · rw [if_pos hin]
        by_cases hstop : cursor < r.stop
        · rw [if_pos hstop]
          exact ⟨lt_min hstop h, min_le_right _ _, .inr ⟨0, r, rfl, rfl, hin.1, hin.2,
            .inl ⟨hstop, rfl, min_le_left _ _⟩⟩⟩
        · rw [if_neg hstop]
          exact ⟨lt_min hin.2 h, min_le_right _ _, .inr ⟨0, r, rfl, rfl, hin.1, hin.2,
            .inr ⟨by omega, rfl, min_le_left _ _⟩⟩⟩
      rw [if_neg hin]
      have hnext : cursor < (if cursor < r.start then min next r.start else next) := by
        split
        · omega
        · exact h
      have hle : (if cursor < r.start then min next r.start else next) ≤ next := by
        split
        · exact min_le_left _ _
        · exact le_rfl
      obtain ⟨h1, h2, h3⟩ := ih (i + 1) _ hnext
      refine ⟨h1, le_trans h2 hle, ?_⟩
      rcases h3 with ⟨hkind, hnone, hown, hstart⟩ | ⟨k, t, hsome, hk, ht1, ht2, ht3⟩
      · refine .inl ⟨hkind, hnone, ?_, ?_⟩
        · intro t ht
          rcases List.mem_cons.1 ht with rfl | ht
          · omega
          · exact hown t ht
        · intro t ht hlt
          rcases List.mem_cons.1 ht with rfl | ht
          · refine le_trans h2 ?_
            rw [if_pos hlt]
            exact min_le_right _ _
          · exact hstart t ht hlt
      · refine .inr ⟨k + 1, t, ?_, hk, ht1, ht2, ht3⟩
        rw [hsome, Nat.add_right_comm, Nat.add_assoc]

/-- The piece at `cursor`. It is not empty and does not pass `stop`; it is missing,
outside, or of the own part of a region. -/
inductive PartSpec (b : GVBudget) (cursor stop : ℕ) (anchor : ℕ × ℕ) :
    Part × ℕ × Option ℕ → Prop
  | missing {k : ℕ} {r : GVRegion} (hr : b.regions[k]? = some r) (h1 : r.limit ≤ cursor)
      (h2 : cursor < r.span) (ha : ¬ (anchor.1 ≤ cursor ∧ cursor < anchor.2))
      (hstop : cursor < stop) :
      PartSpec b cursor stop anchor (.missing, min r.span stop, some k)
  | outside {until' : ℕ} (hlt : cursor < until') (hle : until' ≤ stop)
      (hown : ∀ r ∈ b.regions, r.start ≤ cursor → r.limit ≤ cursor)
      (hstart : ∀ r ∈ b.regions, cursor < r.start → until' ≤ r.start)
      (hmiss : ∀ r ∈ b.regions, ∀ x, cursor ≤ x → x < until' → r.limit ≤ x → x < r.span →
        anchor.1 ≤ x ∧ x < anchor.2) :
      PartSpec b cursor stop anchor (.outside, until', none)
  | own {kind : Part} {until' k : ℕ} {r : GVRegion} (hlt : cursor < until') (hle : until' ≤ stop)
      (hr : b.regions[k]? = some r) (h1 : r.start ≤ cursor) (h2 : cursor < r.limit)
      (hkind : cursor < r.stop ∧ kind = .granted ∧ until' ≤ r.stop ∨
        r.stop ≤ cursor ∧ kind = .guard ∧ until' ≤ r.limit)
      (hmiss : ∀ r ∈ b.regions, ∀ x, cursor ≤ x → x < until' → r.limit ≤ x → x < r.span →
        anchor.1 ≤ x ∧ x < anchor.2) :
      PartSpec b cursor stop anchor (kind, until', some k)

theorem part_spec (b : GVBudget) {cursor stop : ℕ} (anchor : ℕ × ℕ) (h : cursor < stop) :
    PartSpec b cursor stop anchor (b.part cursor stop anchor) := by
  -- What the second loop adds, once the first has given `next`.
  have hown : ∀ next, cursor < next → next ≤ stop →
      (∀ r ∈ b.regions, ∀ x, cursor ≤ x → x < next → r.limit ≤ x → x < r.span →
        anchor.1 ≤ x ∧ x < anchor.2) →
      PartSpec b cursor stop anchor (ownLoop cursor b.regions 0 next) := by
    intro next h1 h2 hmiss
    obtain ⟨hlt, hle, hcases⟩ := ownLoop_cases b.regions 0 next h1
    generalize ownLoop cursor b.regions 0 next = p at *
    obtain ⟨kind, until', region⟩ := p
    have hmiss' : ∀ r ∈ b.regions, ∀ x, cursor ≤ x → x < until' → r.limit ≤ x → x < r.span →
        anchor.1 ≤ x ∧ x < anchor.2 := fun r hr x hx1 hx2 =>
      hmiss r hr x hx1 (lt_of_lt_of_le hx2 hle)
    rcases hcases with ⟨hkind, hnone, hown, hstart⟩ | ⟨k, r, hsome, hk, hr1, hr2, hkind⟩
    · dsimp only at hkind hnone
      subst hkind hnone
      exact .outside hlt (le_trans hle h2) hown hstart hmiss'
    · dsimp only at hsome
      subst hsome
      rw [Nat.zero_add]
      exact .own hlt (le_trans hle h2) hk hr1 hr2 hkind hmiss'
  unfold part
  split
  · rename_i ha
    apply hown
    · omega
    · exact min_le_left _ _
    · intro r _ x hx1 hx2 _ _
      omega
  · rename_i ha
    rcases missingLoop_cases cursor stop b.regions 0 stop h with
      ⟨k, r, heq, hk, hr1, hr2⟩ | ⟨next, heq, h1, h2, h3⟩
    · rw [heq, Nat.zero_add]
      exact .missing hk hr1 hr2 ha h
    · rw [heq]
      refine hown next h1 h2 ?_
      intro r hr x hx1 hx2 hl hs
      exact absurd ⟨hl, hs⟩ (h3 r hr x hx1 hx2)

theorem PartSpec.lt {b : GVBudget} {cursor stop : ℕ} {anchor : ℕ × ℕ} {p : Part × ℕ × Option ℕ}
    (h : PartSpec b cursor stop anchor p) : cursor < p.2.1 := by
  cases h with
  | missing _ _ h2 _ hstop => exact lt_min h2 hstop
  | outside hlt => exact hlt
  | own hlt => exact hlt

theorem PartSpec.le {b : GVBudget} {cursor stop : ℕ} {anchor : ℕ × ℕ} {p : Part × ℕ × Option ℕ}
    (h : PartSpec b cursor stop anchor p) : p.2.1 ≤ stop := by
  cases h with
  | missing => exact min_le_right _ _
  | outside _ hle => exact hle
  | own _ hle => exact hle

theorem min_of {Q : ℕ → Prop} {x y : ℕ} (hx : Q x) (hy : Q y) : Q (min x y) := by
  rcases min_choice x y with h | h
  · rw [h]
    exact hx
  · rw [h]
    exact hy

/-- The end of a piece is one of the bounds around it. -/
theorem ownLoop_bound {Q : ℕ → Prop} (cursor : ℕ) (regions : List GVRegion)
    (hregions : ∀ r ∈ regions, Q r.start ∧ Q r.stop ∧ Q r.limit) :
    ∀ (i next : ℕ), Q next → Q (ownLoop cursor regions i next).2.1 := by
  induction regions with
  | nil =>
      intro i next h
      exact h
  | cons r rest ih =>
      intro i next h
      obtain ⟨h1, h2, h3⟩ := hregions r List.mem_cons_self
      rw [ownLoop]
      split
      · split
        · exact min_of h2 h
        · exact min_of h3 h
      · apply ih fun t ht => hregions t (List.mem_cons_of_mem r ht)
        split
        · exact min_of h h1
        · exact h

theorem missingLoop_bound {Q : ℕ → Prop} (cursor : ℕ) {stop : ℕ} (hstop : Q stop)
    (regions : List GVRegion) (hregions : ∀ r ∈ regions, Q r.limit ∧ Q r.span) :
    ∀ (i next : ℕ), Q next →
      (∀ u k, missingLoop cursor stop regions i next = .error (u, k) → Q u) ∧
        ∀ u, missingLoop cursor stop regions i next = .ok u → Q u := by
  induction regions with
  | nil =>
      intro i next h
      refine ⟨fun u k hu => (by cases hu), fun u hu => ?_⟩
      cases hu
      exact h
  | cons r rest ih =>
      intro i next h
      obtain ⟨h1, h2⟩ := hregions r List.mem_cons_self
      rw [missingLoop]
      split
      · refine ⟨fun u k hu => ?_, fun u hu => by cases hu⟩
        cases hu
        exact min_of h2 hstop
      · apply ih fun t ht => hregions t (List.mem_cons_of_mem r ht)
        split
        · exact min_of h h1
        · exact h

/-- What holds of all bounds, such as being page aligned, holds of the ends of the
pieces. -/
theorem part_bound {Q : ℕ → Prop} (b : GVBudget) (cursor : ℕ) {stop : ℕ} {anchor : ℕ × ℕ}
    (hregions : ∀ r ∈ b.regions, Q r.start ∧ Q r.stop ∧ Q r.limit ∧ Q r.span) (hstop : Q stop)
    (hanchor : Q anchor.2) : Q (b.part cursor stop anchor).2.1 := by
  have hown := ownLoop_bound cursor b.regions
    fun r hr => ⟨(hregions r hr).1, (hregions r hr).2.1, (hregions r hr).2.2.1⟩
  obtain ⟨herror, hok⟩ := missingLoop_bound cursor hstop b.regions
    (fun r hr => (hregions r hr).2.2) 0 stop hstop
  unfold part
  split
  · exact hown 0 _ (min_of hstop hanchor)
  · split
    · rename_i u k heq
      exact herror u k heq
    · rename_i next heq
      exact hown 0 next (hok next heq)

/-! ## What is released -/

/-- What is left of a region when `[a, e)` of its own part is gone. -/
inductive Left (r : GVRegion) (a e : ℕ) : List GVRegion → Prop
  | head (h : a ≤ r.start) : Left r a e [{ r with start := e, stop := max r.stop e }]
  | tail (h1 : r.start < a) (h2 : r.limit ≤ e) :
      Left r a e [{ r with stop := min r.stop a, limit := a }]
  | hole (h1 : r.start < a) (h2 : e < r.limit) :
      Left r a e [{ r with start := e, stop := max r.stop e }, ⟨r.start, min r.stop a, a, a⟩]

theorem perm_of_getElem {α : Type*} {l : List α} {i : ℕ} {a : α} (h : l[i]? = some a) :
    ∃ rest, l.Perm (a :: rest) ∧ ∀ a', (l.set i a').Perm (a' :: rest) := by
  obtain ⟨hi, rfl⟩ := List.getElem?_eq_some_iff.1 h
  refine ⟨l.take i ++ l.drop (i + 1), ?_, ?_⟩
  · have hl : l = l.take i ++ l[i] :: l.drop (i + 1) := by simp
    nth_rewrite 1 [hl]
    exact List.perm_middle
  · intro a'
    rw [List.set_eq_take_append_cons_drop, if_pos hi]
    exact List.perm_middle

theorem forget_cases (b : GVBudget) {i a e : ℕ} {r : GVRegion} (h : b.regions[i]? = some r) :
    ∃ rest, b.regions.Perm (r :: rest) ∧
      (b.forget i a e = b ∧ r.start < a ∧ e < r.limit ∨
        ∃ left regions, Left r a e left ∧ regions.Perm (left ++ rest) ∧
          b.forget i a e = { b with
            regions := regions
            reserved := wrap (b.reserved + addressSpace - (e - a)) }) := by
  obtain ⟨rest, hperm, hset⟩ := perm_of_getElem h
  refine ⟨rest, hperm, ?_⟩
  unfold forget
  rw [h]
  dsimp only
  split
  · rename_i h1
    exact .inr ⟨_, _, .head h1, hset _, rfl⟩
  rename_i h1
  push Not at h1
  split
  · rename_i h2
    exact .inr ⟨_, _, .tail h1 h2, hset _, rfl⟩
  rename_i h2
  push Not at h2
  split
  · refine .inr ⟨_, _, .hole h1 h2, ?_, rfl⟩
    refine (List.Perm.append_right _ (hset _)).trans ?_
    exact List.Perm.cons _ (List.perm_append_singleton _ _)
  · exact .inl ⟨rfl, h1, h2⟩

/-! ## Claims -/

theorem mem_unclaim {claims : List GVClaim} {a e : ℕ} {c : GVClaim} :
    c ∈ unclaim claims a e ↔ ∃ c' ∈ claims, unclaimOne a e c' = some c := by
  have hkeep : ∀ (s : Unit) (c : GVClaim), ((), unclaimOne a e c).2 = unclaimOne a e c :=
    fun _ _ => rfl
  have hperm := compact_perm hkeep () claims
  rw [unclaim, hperm.mem_iff, List.mem_filterMap]

/-- A claim only shrinks, to a bound of what is unmapped. -/
theorem unclaimOne_cases {a e : ℕ} {c c' : GVClaim} (h : unclaimOne a e c' = some c) :
    (c.start = c'.start ∨ c.start = e ∧ c'.start < e) ∧
      (c.stop = c'.stop ∨ c.stop = a ∧ a < c'.stop) := by
  unfold unclaimOne at h
  split at h
  · cases h
  split at h
  · rename_i h1
    cases h
    exact ⟨.inr ⟨rfl, h1.2⟩, .inl rfl⟩
  split at h
  · rename_i h1
    cases h
    exact ⟨.inl rfl, .inr ⟨rfl, h1.1⟩⟩
  · cases h
    exact ⟨.inl rfl, .inl rfl⟩

/-- What `claim` does to a region when there is no room for the claim. -/
def cutSpan (address size : ℕ) (r : GVRegion) : GVRegion :=
  if wrap (address + size) ≤ r.limit ∨ address ≥ r.span then r
  else { r with span := if address > r.limit then address else r.limit }

/-- With room, the first region in question decides whether the claim is kept. -/
theorem claimLoop_room (b : GVBudget) (address size : ℕ) (hroom : b.claims.length < gvMaxClaims)
    (rest : List GVRegion) : ∀ done : List GVRegion,
      b.claimLoop address size done rest = { b with regions := done ++ rest } ∨
      b.claimLoop address size done rest =
        { b with
          regions := done ++ rest
          claims := b.claims ++ [⟨address, b.pageEnd address size⟩] } := by
  induction rest with
  | nil =>
      intro done
      left
      rw [claimLoop, List.append_nil]
  | cons r rest ih =>
      intro done
      rw [claimLoop]
      split
      · simpa using ih (done ++ [r])
      · exact .inr rfl

/-- Without room, spans are cut instead. -/
theorem claimLoop_full (b : GVBudget) (address size : ℕ)
    (hroom : ¬ b.claims.length < gvMaxClaims) (rest : List GVRegion) :
    ∀ done : List GVRegion, b.claimLoop address size done rest =
      { b with regions := done ++ rest.map (cutSpan address size) } := by
  induction rest with
  | nil =>
      intro done
      rw [claimLoop, List.map_nil, List.append_nil]
  | cons r rest ih =>
      intro done
      rw [claimLoop, List.map_cons, cutSpan]
      split
      · rw [ih]
        simp
      · rw [ih]
        simp

theorem claim_cases (b : GVBudget) (address size : ℕ) :
    b.claim address size = b ∨
    b.claims.length < gvMaxClaims ∧ b.claim address size =
      { b with claims := b.claims ++ [⟨address, b.pageEnd address size⟩] } ∨
    ¬ b.claims.length < gvMaxClaims ∧ b.claim address size =
      { b with regions := b.regions.map (cutSpan address size) } := by
  unfold claim
  by_cases hroom : b.claims.length < gvMaxClaims
  · rcases b.claimLoop_room address size hroom b.regions [] with heq | heq
    · exact .inl heq
    · exact .inr (.inl ⟨hroom, heq⟩)
  · exact .inr (.inr ⟨hroom, b.claimLoop_full address size hroom b.regions []⟩)

/-! ## Sweeping -/

theorem sweep_regions (b : GVBudget) :
    b.sweep.regions.Perm (b.regions.filter fun r => decide (r.start < r.limit)) := by
  have hkeep : ∀ (claims : List GVClaim) (r : GVRegion),
      (sweepOne claims r).2 = if r.start < r.limit then some r else none := by
    intro claims r
    unfold sweepOne
    split <;> rfl
  have hperm := compact_perm hkeep b.claims b.regions
  have hfilter : b.regions.filterMap (fun r => if r.start < r.limit then some r else none) =
      b.regions.filter fun r => decide (r.start < r.limit) := by
    rw [← List.filterMap_eq_filter]
    congr 1
    funext r
    simp [Option.guard]
  rw [hfilter] at hperm
  exact hperm

theorem mem_sweep_regions {b : GVBudget} {r : GVRegion} :
    r ∈ b.sweep.regions ↔ r ∈ b.regions ∧ r.start < r.limit := by
  rw [b.sweep_regions.mem_iff, List.mem_filter, decide_eq_true_eq]

theorem sweep_claims {b : GVBudget} {P : List GVClaim → Prop}
    (hunclaim : ∀ claims, ∀ r ∈ b.regions, P claims → P (unclaim claims r.limit r.span))
    (h : P b.claims) : P b.sweep.claims := by
  change P (compact sweepOne b.claims b.regions).1
  refine compact_state ?_ h
  intro claims r hr hc
  unfold sweepOne
  split
  · exact hc
  · exact hunclaim claims r hr hc

/-! ## The loops -/

/-- The budget does not change at the piece: it is missing, the call does not unmap,
or the kernel refuses it. -/
def Skipped (kernel : Kernel) (op : Operation) (cursor : ℕ) (p : Part × ℕ × Option ℕ) : Prop :=
  p.1 = .missing ∨ op ≠ .unmap ∨ kernel.munmap cursor (p.2.1 - cursor) ≠ none

theorem skipped_of_not {kernel : Kernel} {op : Operation} {cursor : ℕ}
    {p : Part × ℕ × Option ℕ}
    (h : ¬ (op.ask kernel cursor (p.2.1 - cursor) = none ∧ op = .unmap)) :
    Skipped kernel op cursor p := by
  by_cases hop : op = .unmap
  · subst hop
    exact .inr (.inr fun hnone => h ⟨hnone, rfl⟩)
  · exact .inr (.inl hop)

/-- An invariant of the main loop of `apply`, with the cursor. It must survive a
piece that is passed over and a piece that is released. -/
theorem applyLoop_rule {kernel : Kernel} {op : Operation} {anchor : ℕ × ℕ} {stop : ℕ}
    {P : GVBudget → ℕ → Prop}
    (hskip : ∀ b cursor p, P b cursor → cursor < stop → b.part cursor stop anchor = p →
      PartSpec b cursor stop anchor p → Skipped kernel op cursor p → P b p.2.1)
    (hrelease : ∀ b cursor p, P b cursor → cursor < stop → b.part cursor stop anchor = p →
      PartSpec b cursor stop anchor p → p.1 ≠ .missing → op = .unmap →
      kernel.munmap cursor (p.2.1 - cursor) = none → P (b.release p.2.2 cursor p.2.1) p.2.1) (fuel : ℕ) :
    ∀ (b : GVBudget) (cursor : ℕ) (code : Option ℕ), P b cursor → cursor ≤ stop →
      stop - cursor ≤ fuel → P (applyLoop kernel op anchor stop fuel b cursor code).1 stop := by
  induction fuel with
  | zero =>
      intro b cursor code h hle hfuel
      have heq : cursor = stop := by omega
      rw [← heq]
      exact h
  | succ fuel ih =>
      intro b cursor code h hle hfuel
      rw [applyLoop]
      by_cases hlt : cursor < stop
      swap
      · have heq : cursor = stop := by omega
        rw [if_neg hlt, ← heq]
        exact h
      have hp := b.part_spec anchor hlt
      have h1 := hp.lt
      have h2 := hp.le
      rw [if_pos hlt]
      dsimp only
      split
      · rename_i hkind
        exact ih _ _ _ (hskip b cursor _ h hlt rfl hp (hkind.imp_right fun hk => .inl hk.2)) h2
          (by omega)
      · rename_i hkind
        push Not at hkind
        refine ih _ _ _ ?_ h2 (by omega)
        split
        · rename_i hdone
          obtain ⟨hnone, rfl⟩ := hdone
          exact hrelease b cursor _ h hlt rfl hp hkind.1 rfl hnone
        · rename_i hdone
          exact hskip b cursor _ h hlt rfl hp (skipped_of_not hdone)

/-- What is true of every kernel call the main loop makes. -/
theorem applyLoop_calls {kernel : Kernel} {op : Operation} {anchor : ℕ × ℕ} {stop : ℕ}
    {P : GVBudget → ℕ → Prop} {Q : KernelCall → Prop}
    (hskip : ∀ b cursor p, P b cursor → cursor < stop → b.part cursor stop anchor = p →
      PartSpec b cursor stop anchor p → Skipped kernel op cursor p → P b p.2.1)
    (hrelease : ∀ b cursor p, P b cursor → cursor < stop → b.part cursor stop anchor = p →
      PartSpec b cursor stop anchor p → p.1 ≠ .missing → op = .unmap →
      kernel.munmap cursor (p.2.1 - cursor) = none → P (b.release p.2.2 cursor p.2.1) p.2.1)
    (hcall : ∀ b cursor p, P b cursor → cursor < stop → PartSpec b cursor stop anchor p →
      p.1 ≠ .missing → Q (op.call cursor (p.2.1 - cursor))) (fuel : ℕ) :
    ∀ (b : GVBudget) (cursor : ℕ) (code : Option ℕ), P b cursor →
      ∀ c ∈ (applyLoop kernel op anchor stop fuel b cursor code).2.2, Q c := by
  induction fuel with
  | zero =>
      intro b cursor code _ c hc
      cases hc
  | succ fuel ih =>
      intro b cursor code h
      rw [applyLoop]
      by_cases hlt : cursor < stop
      swap
      · rw [if_neg hlt]
        intro c hc
        cases hc
      have hp := b.part_spec anchor hlt
      rw [if_pos hlt]
      dsimp only
      split
      · rename_i hkind
        exact ih _ _ _ (hskip b cursor _ h hlt rfl hp (hkind.imp_right fun hk => .inl hk.2))
      · rename_i hkind
        push Not at hkind
        intro c hc
        rcases List.mem_cons.1 hc with rfl | hc
        · exact hcall b cursor _ h hlt hp hkind.1
        · refine ih _ _ _ ?_ c hc
          split
          · rename_i hdone
            obtain ⟨hnone, rfl⟩ := hdone
            exact hrelease b cursor _ h hlt rfl hp hkind.1 rfl hnone
          · rename_i hdone
            exact hskip b cursor _ h hlt rfl hp (skipped_of_not hdone)

end GVBudget

end Tolkara
