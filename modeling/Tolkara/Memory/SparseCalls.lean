import Tolkara.Memory.SparseOps

/-!
# Runs of calls on the sparse memory

`Call` lists the ten calls a client makes after `gm_sparse_init`, and `perform`
is one of them on a space. The calls hold the memory's lock, so whatever the
threads of the client do is one list of calls. `perform_cases` says once what a
call can do to a space, in terms of the write it makes (`writeOf`) and of
whether it changes the mappings (`remaps`); everything about runs follows from it.

`Representation` spells the invariant out on the fields of the source, and
`representation_run` proves it of every reachable space.
-/

namespace Tolkara

namespace Space

open Library TaggedInterval

/-- A call with its arguments. Null pointers are `none`, or `false` where only
the pointer matters; `μ` is how a call names its monitor. -/
inductive Call (μ : Type) where
  | map (a n : ℕ) (prot maxprot : Prot) (replace : Bool)
  | unmap (a n : ℕ)
  | protect (a n : ℕ) (prot : Prot)
  | read (a : ℕ) (buffer : Option Buffer) (n : ℕ)
  | write (a : ℕ) (buffer : Option Buffer) (n : ℕ)
  | prepare (a n : ℕ) (permissions : Prot)
  | loadExclusive (a : ℕ) (buffer : Option Buffer) (n : ℕ) (monitor : Option μ)
  | storeExclusive (a : ℕ) (buffer : Option Buffer) (n : ℕ) (monitor : Option μ) (stored : Bool)
  | compareExchange (a : ℕ) (expected desired : Option Buffer) (previous : Bool) (n : ℕ)
  | atomic (a n : ℕ) (operation : Option GMSparseAtomic) (operand : BitVec 64) (previous : Bool)

/-- What a call gives back: its answer, the space after it, the bytes it read,
the monitor it was given and what it wrote to `*stored`. -/
structure Reply where
  result : GMResult
  space : Space
  bytes : List UInt8
  monitor : Option GMSparseExclusive
  stored : Option Bool

def perform (s : Space) : Call GMSparseExclusive → Reply
  | .map a n prot maxprot replace =>
    let answer := s.gmSparseMap a n prot maxprot replace
    ⟨answer.1, answer.2, [], none, none⟩
  | .unmap a n =>
    let answer := s.gmSparseUnmap a n
    ⟨answer.1, answer.2, [], none, none⟩
  | .protect a n prot =>
    let answer := s.gmSparseProtect a n prot
    ⟨answer.1, answer.2, [], none, none⟩
  | .read a buffer n =>
    let answer := s.gmSparseRead a buffer n
    ⟨answer.1, s, answer.2, none, none⟩
  | .write a buffer n =>
    let answer := s.gmSparseWrite a buffer n
    ⟨answer.1, answer.2, [], none, none⟩
  | .prepare a n permissions =>
    let answer := s.gmSparsePrepare a n permissions
    ⟨answer.1, answer.2, [], none, none⟩
  | .loadExclusive a buffer n monitor =>
    let answer := s.gmSparseLoadExclusive a buffer n monitor
    ⟨answer.1, s, answer.2.1, answer.2.2, none⟩
  | .storeExclusive a buffer n monitor stored =>
    let answer := s.gmSparseStoreExclusive a buffer n monitor stored
    ⟨answer.1, answer.2.1, [], answer.2.2.1, answer.2.2.2⟩
  | .compareExchange a expected desired previous n =>
    let answer := s.gmSparseCompareExchange a expected desired previous n
    ⟨answer.1, answer.2.1, answer.2.2, none, none⟩
  | .atomic a n operation operand previous =>
    let answer := s.gmSparseAtomic a n operation operand previous
    ⟨answer.1, answer.2.1, [], none, none⟩

/-- The range of the successful nonempty write a call makes, if it makes one: a
plain write, a store that was not refused, a comparison that matched, an
atomic update. -/
def writeOf (s : Space) (c : Call GMSparseExclusive) : Option (ℕ × ℕ) :=
  match c with
  | .write a _ n => if (s.perform c).result = .ok ∧ n ≠ 0 then some (a, n) else none
  | .storeExclusive a _ n _ _ =>
    if (s.perform c).result = .ok ∧ (s.perform c).stored = some true then some (a, n) else none
  | .compareExchange a expected _ _ n =>
    if (s.perform c).result = .ok ∧
        expected.map (fun e => (List.range n).map e) = some (s.perform c).bytes then some (a, n)
    else none
  | .atomic a n _ _ _ => if (s.perform c).result = .ok then some (a, n) else none
  | _ => none

/-- The call is a map, an unmap or a protect that succeeds. -/
def remaps (s : Space) (c : Call GMSparseExclusive) : Bool :=
  match c with
  | .map .. | .unmap .. | .protect .. => (s.perform c).result == .ok
  | _ => false

/-- What a call can do. -/
inductive Effect (s : Space) : Option (ℕ × ℕ) → Bool → Space → Prop
  | same : Effect s none false s
  | wrote {a n : ℕ} {buffer : Buffer} {s' : Space} (hn : n ≠ 0) (h : Wrote s s' a n buffer) :
      Effect s (some (a, n)) false s'
  | prepared {s' : Space} (h : Prepared s s') : Effect s none false s'
  | changed {op : Operation} {a n : ℕ} {prot maxprot : Prot} {s' : Space}
      (h : Changed s s' op a n prot maxprot) : Effect s none true s'

theorem Effect.inv {s s' : Space} {w : Option (ℕ × ℕ)} {r : Bool} (h : s.Inv)
    (he : Effect s w r s') : s'.Inv := by
  cases he with
  | same => exact h
  | wrote _ hw => exact hw.inv
  | prepared hp => exact hp.inv
  | changed hc => exact hc.inv

theorem Effect.arena {s s' : Space} {w : Option (ℕ × ℕ)} {r : Bool}
    (he : Effect s w r s') : SameArena s s' := by
  cases he with
  | same => exact SameArena.refl s
  | wrote _ hw => exact hw.arena
  | prepared hp => exact hp.arena
  | changed hc => exact hc.arena

theorem change_effect {s : Space} (h : s.Inv) (a n : ℕ) (prot maxprot : Prot) (replace : Bool)
    (op : Operation) :
    Effect s none ((s.change a n prot maxprot replace op).1 == .ok)
      (s.change a n prot maxprot replace op).2 := by
  rcases change_spec h a n prot maxprot replace op with ⟨-, heq⟩ | ⟨-, result, hobs, heq⟩ |
    ⟨-, -, -, heq⟩ | ⟨-, -, -, s', heq, hc⟩
  · rw [heq]
    exact .same
  · have hne : result ≠ .ok := by
      cases op with
      | map => simp [hobs.2.1]
      | unmap => exact hobs.elim
      | protect => rcases hobs with ⟨rfl, -⟩ | ⟨rfl, -⟩ <;> simp
    have hb : (result == GMResult.ok) = false := by simpa using hne
    rw [heq, hb]
    exact .same
  · rw [heq]
    exact .same
  · rw [heq]
    exact .changed hc

theorem accessLocked_effect {s : Space} (h : s.Inv) (a : ℕ) (buffer : Option Buffer) (n : ℕ) :
    Effect s (if (s.accessLocked a buffer n true).1 = .ok ∧ n ≠ 0 then some (a, n) else none)
      false (s.accessLocked a buffer n true).2.1 := by
  cases buffer with
  | none =>
      unfold accessLocked
      dsimp only
      split
      · exact .same
      · rename_i h0
        rw [if_neg fun hc => h0 hc.2]
        exact .same
  | some buffer =>
      rcases accessLocked_write h a buffer n with ⟨heq, hno⟩ | ⟨heq, -, -, -⟩ |
        ⟨s', heq, -, h0, -, hw⟩
      · rw [heq, if_neg (by dsimp only; tauto)]
        exact .same
      · rw [heq, if_neg (by simp)]
        exact .same
      · rw [heq, if_pos ⟨rfl, h0⟩]
        exact .wrote h0 hw

theorem compareExchange_effect {s : Space} (h : s.Inv) (a : ℕ) (expected desired : Buffer)
    (previous : Bool) (n : ℕ) :
    let answer := s.gmSparseCompareExchange a (some expected) (some desired) previous n
    Effect s (if answer.1 = .ok ∧ some ((List.range n).map expected) = some answer.2.2
      then some (a, n) else none) false answer.2.1 := by
  intro answer
  have hanswer : answer = s.gmSparseCompareExchange a (some expected) (some desired) previous n :=
    rfl
  unfold gmSparseCompareExchange at hanswer
  dsimp only at hanswer
  split at hanswer
  · rw [hanswer, if_neg (by simp)]
    exact .same
  rename_i hargs
  push Not at hargs
  split at hanswer
  · rename_i hcheck
    rw [hanswer, if_neg fun hc => hcheck hc.1]
    exact .same
  split at hanswer
  · rename_i hread
    rw [hanswer, if_neg fun hc => hread hc.1]
    exact .same
  split at hanswer
  · rename_i hmatch
    have heff := accessLocked_effect h a (some desired) n
    by_cases hok : (s.accessLocked a (some desired) n true).1 = .ok
    · rw [if_pos ⟨hok, hargs.2.1⟩] at heff
      rw [hanswer, if_pos ⟨hok, by rw [if_pos hok, hmatch]⟩]
      exact heff
    · rw [if_neg (by tauto)] at heff
      rw [hanswer, if_neg fun hc => hok hc.1]
      exact heff
  · rename_i hmatch
    rw [hanswer, if_neg fun hc => hmatch (Option.some.inj hc.2).symm]
    exact .same

theorem atomic_effect {s : Space} (h : s.Inv) (a n : ℕ) (operation : Option GMSparseAtomic)
    (operand : BitVec 64) (previous : Bool) :
    let answer := s.gmSparseAtomic a n operation operand previous
    Effect s (if answer.1 = .ok then some (a, n) else none) false answer.2.1 := by
  intro answer
  have hanswer : answer = s.gmSparseAtomic a n operation operand previous := rfl
  cases operation with
  | none => exact .same
  | some operation =>
      unfold gmSparseAtomic at hanswer
      dsimp only at hanswer
      split at hanswer
      · rw [hanswer, if_neg (by simp)]
        exact .same
      rename_i hargs
      push Not at hargs
      split at hanswer
      · rename_i hread
        rw [hanswer, if_neg hread]
        exact .same
      · generalize hvalue : atomicValue operation n _ _ = value at hanswer
        have heff := accessLocked_effect h a (some fun i => byteOf value.toNat i) n
        by_cases hok : (s.accessLocked a (some fun i => byteOf value.toNat i) n true).1 = .ok
        · rw [if_pos ⟨hok, hargs.2.2.1⟩] at heff
          rw [hanswer, if_pos hok]
          exact heff
        · rw [if_neg (by tauto)] at heff
          rw [hanswer, if_neg hok]
          exact heff

theorem perform_effect {s : Space} (h : s.Inv) (c : Call GMSparseExclusive) :
    Effect s (s.writeOf c) (s.remaps c) (s.perform c).space := by
  cases c with
  | map a n prot maxprot replace => exact change_effect h a n prot maxprot replace .map
  | unmap a n => exact change_effect h a n 0#32 0#32 false .unmap
  | protect a n prot => exact change_effect h a n prot 7#32 false .protect
  | read a buffer n => exact .same
  | loadExclusive a buffer n monitor => exact .same
  | write a buffer n => exact accessLocked_effect h a buffer n
  | prepare a n permissions =>
      rcases gmSparsePrepare_spec h a n permissions with ⟨heq, -⟩ | ⟨-, hp, -⟩
      · change Effect s none false (s.gmSparsePrepare a n permissions).2
        rw [heq]
        exact .same
      · exact .prepared hp
  | storeExclusive a buffer n monitor stored =>
      simp only [writeOf, remaps, perform]
      cases monitor with
      | none => exact .same
      | some monitor =>
          cases buffer with
          | none => exact .same
          | some buffer =>
              simp only [gmSparseStoreExclusive]
              split
              · exact .same
              · rename_i hargs
                push Not at hargs
                cases hv : s.monitorHolds a n monitor with
                | false =>
                    simp only [Bool.false_eq_true, if_false, if_true, Option.some.injEq,
                      and_false]
                    exact .same
                | true =>
                    simp only [if_true]
                    have heff := accessLocked_effect h a (some buffer) n
                    by_cases hok : (s.accessLocked a (some buffer) n true).1 = .ok
                    · rw [if_pos ⟨hok, hargs.2.1⟩] at heff
                      rw [if_pos hok, if_pos ⟨rfl, rfl⟩]
                      exact heff
                    · rw [if_neg (by tauto)] at heff
                      rw [if_neg hok, if_neg (by dsimp only; tauto)]
                      exact heff
  | compareExchange a expected desired previous n =>
      simp only [writeOf, remaps, perform]
      cases expected with
      | none => simpa [gmSparseCompareExchange] using Effect.same
      | some expected =>
          cases desired with
          | none => simpa [gmSparseCompareExchange] using Effect.same
          | some desired => exact compareExchange_effect h a expected desired previous n
  | atomic a n operation operand previous => exact atomic_effect h a n operation operand previous

/-! ## Runs -/

def run (s : Space) (calls : List (Call GMSparseExclusive)) : Space :=
  calls.foldl (fun s c => (s.perform c).space) s

theorem inv_run {s : Space} (h : s.Inv) (calls : List (Call GMSparseExclusive)) :
    (s.run calls).Inv := by
  induction calls generalizing s with
  | nil => exact h
  | cons c calls ih => exact ih ((perform_effect h c).inv h)

theorem arena_run {s : Space} (h : s.Inv) (calls : List (Call GMSparseExclusive)) :
    SameArena s (s.run calls) := by
  induction calls generalizing s with
  | nil => exact SameArena.refl s
  | cons c calls ih =>
      have heffect := perform_effect h c
      exact heffect.arena.trans (ih (heffect.inv h))

/-- The invariant on the fields of the source. A slot is live when its address
is neither of the two reserved ones. -/
structure Representation (s : Space) : Prop where
  nonempty : ∀ r ∈ s.regions, r.start < r.stop
  sorted : s.regions.Pairwise fun r q => r.stop ≤ q.start
  aligned : ∀ r ∈ s.regions, r.start % pageSize = 0 ∧ r.stop % pageSize = 0
  inside : ∀ r ∈ s.regions, s.base ≤ r.start ∧ r.stop ≤ s.stop
  limit : s.regions.length ≤ regionLimit
  merged : s.regions.IsChain fun r q =>
    ¬ (r.stop = q.start ∧ r.prot = q.prot ∧ r.maxprot = q.maxprot)
  found : ∀ i < s.slotCount, PageKey (s.pages i).address →
    s.pageSlot (s.pages i).address false = some i
  unique : ∀ i < s.slotCount, ∀ j < s.slotCount, PageKey (s.pages i).address →
    (s.pages i).address = (s.pages j).address → i = j
  mapped : ∀ i < s.slotCount, PageKey (s.pages i).address →
    ∃ r ∈ s.regions, r.start ≤ (s.pages i).address ∧ (s.pages i).address + pageSize ≤ r.stop
  distinct : ∀ i < s.slotCount, ∀ j < s.slotCount, PageKey (s.pages i).address →
    PageKey (s.pages j).address → (s.pages i).backing = (s.pages j).backing → i = j
  apart : ∀ i < s.slotCount, PageKey (s.pages i).address → (s.pages i).backing ∉ s.freeBacking
  freeNodup : s.freeBacking.Nodup
  count : ((Finset.range s.slotCount).filter fun i =>
    PageKey (s.pages i).address).card = s.resident
  stack : s.resident + s.freeBacking.length = s.nextBacking
  bound : s.nextBacking ≤ s.capacity
  backed : (∀ i < s.slotCount, PageKey (s.pages i).address → (s.pages i).backing < s.capacity) ∧
    ∀ b ∈ s.freeBacking, b < s.capacity
  insertion : ∀ q, PageKey q → ∃ i < s.slotCount, s.pageSlot q true = some i
  next : s.resident < s.capacity → s.freeBacking.headD s.nextBacking < s.capacity

theorem representation_of_inv {s : Space} (h : s.Inv) : s.Representation where
  nonempty := h.normal.1.1
  sorted := h.normal.1.2
  aligned := h.aligned
  inside := h.inside
  limit := h.limit
  merged := by
    refine h.normal.2.imp ?_
    rintro r q hne ⟨h1, h2, h3⟩
    exact hne ⟨h1, Prod.ext h2 h3⟩
  found := by
    intro i hi hk
    exact (pageSlot_iff h.table hk i).2 ⟨hi, rfl⟩
  unique := by
    intro i hi j hj hk heq
    have h1 := (pageSlot_iff h.table hk i).2 ⟨hi, rfl⟩
    have h2 := (pageSlot_iff h.table hk j).2 ⟨hj, heq.symm⟩
    exact Option.some.inj (h1.symm.trans h2)
  mapped := by
    intro i hi hk
    have hres : s.residentAt (s.pages i).address ≠ none := by
      rw [Ne, residentAt_eq_none_iff h.table hk]
      exact fun hno => hno i hi rfl
    obtain ⟨hmod, hcov⟩ := h.mapped _ hk hres
    obtain ⟨t, ht⟩ := Option.ne_none_iff_exists'.1 hcov
    obtain ⟨r, hr, ⟨h1, h2⟩, -⟩ := mem_of_cover_eq_some ht
    refine ⟨r, hr, h1, ?_⟩
    have := (h.aligned r hr).2
    unfold pageSize at *
    omega
  distinct := h.table.distinct
  apart := h.table.freeApart
  freeNodup := h.table.freeNodup
  count := by
    rw [← h.table.count, Slot.liveSlots]
    congr 1
    ext i
    rw [Finset.mem_filter, Finset.mem_filter, table, isLive_slotState]
  stack := h.table.stack
  bound := h.table.bound
  backed := by
    have hb := h.table.bound
    constructor
    · intro i hi hk
      have := h.table.below i hi hk
      omega
    · intro b hmem
      have := h.table.freeBelow b hmem
      omega
  insertion := by
    intro q hq
    obtain ⟨i, hi⟩ := Option.ne_none_iff_exists'.1 (pageSlot_insertion_ne_none h.table hq)
    refine ⟨i, ?_, hi⟩
    rw [pageSlot_eq h.table hq] at hi
    exact Slot.probe_lt (slotCount_pos h.table) _ _ _ _ _ _ _ (home_lt h.table q) (by simp) hi
  next := by
    intro hroom
    obtain ⟨-, -, h1, h2, -⟩ := fresh_backing h.table hroom
    omega

/-- A map, an unmap or a protect runs out of regions exactly when it would go
through but no table of the allowed size describes its outcome; and whatever
it answers, other than success, it changes nothing. -/
def RefusesWhenFull (s : Space) : Prop :=
  ∀ (op : Operation) (a n : ℕ) (prot maxprot : Prot) (replace : Bool),
    ((s.change a n prot maxprot replace op).1 = .nomem ↔
      s.Admissible a n prot maxprot ∧ s.Clear op replace a n prot ∧
        ¬ s.Describable op a n prot maxprot) ∧
    ((s.change a n prot maxprot replace op).1 ≠ .ok →
      (s.change a n prot maxprot replace op).2 = s)

theorem Obstacle.not_clear {s : Space} {op : Operation} {replace : Bool} {a n : ℕ} {prot : Prot}
    {result : GMResult} (h : s.Obstacle op replace a n prot result) :
    ¬ s.Clear op replace a n prot ∧ result ≠ .nomem := by
  cases op with
  | map =>
      obtain ⟨hrep, rfl, x, h1, h2, hx⟩ := h
      exact ⟨fun hc => hx (hc hrep x h1 h2), by simp⟩
  | unmap => exact h.elim
  | protect =>
      rcases h with ⟨rfl, x, h1, h2, hx⟩ | ⟨rfl, -, x, t, h1, h2, ht, hbad⟩
      · refine ⟨fun hc => ?_, by simp⟩
        obtain ⟨t, ht, -⟩ := hc x h1 h2
        rw [hx] at ht
        cases ht
      · refine ⟨fun hc => ?_, by simp⟩
        obtain ⟨t', ht', hgood⟩ := hc x h1 h2
        rw [ht] at ht'
        cases ht'
        exact hbad hgood

theorem refusesWhenFull_of_inv {s : Space} (h : s.Inv) : s.RefusesWhenFull := by
  intro op a n prot maxprot replace
  rcases change_spec h a n prot maxprot replace op with ⟨hno, heq⟩ | ⟨-, result, hobs, heq⟩ |
    ⟨hadm, hclear, hfull, heq⟩ | ⟨-, -, hdesc, s', heq, -⟩
  · rw [heq]
    exact ⟨⟨by simp, fun hc => absurd hc.1 hno⟩, fun _ => rfl⟩
  · rw [heq]
    exact ⟨⟨fun hc => absurd hc hobs.not_clear.2, fun hc => absurd hc.2.1 hobs.not_clear.1⟩,
      fun _ => rfl⟩
  · rw [heq]
    exact ⟨⟨fun _ => ⟨hadm, hclear, hfull⟩, fun _ => rfl⟩, fun _ => rfl⟩
  · rw [heq]
    exact ⟨⟨by simp, fun hc => absurd hdesc hc.2.2⟩, by simp⟩

/-- Every space that `gm_sparse_init` and any calls lead to is consistent. -/
theorem representation_run {base size backingBytes : ℕ} {allocated : Bool}
    {arena : ℕ → PageBytes} {s : Space}
    (hinit : gmSparseInit base size backingBytes allocated arena = (.ok, some s))
    (calls : List (Call GMSparseExclusive)) :
    (s.run calls).Representation ∧ (s.run calls).RefusesWhenFull := by
  have hinv := inv_run (gmSparseInit_spec hinit).1 calls
  exact ⟨representation_of_inv hinv, refusesWhenFull_of_inv hinv⟩

/-- One page, mapped and written. -/
theorem representation_run_write :
    ∃ s, gmSparseInit 16384 16384 16384 true (fun _ => zeroPage) = (.ok, some s) ∧
      (s.run [.map 16384 16384 3#32 3#32 false, .write 16384 (some fun _ => 7) 1]).Representation :=
  have hinit : gmSparseInit 16384 16384 16384 true (fun _ => zeroPage) = (.ok, some _) := rfl
  ⟨_, hinit, (representation_run hinit _).1⟩

end Space

end Tolkara
