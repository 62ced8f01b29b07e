import Tolkara.Cpu.Exclusive
import Tolkara.Memory.SparseExclusive

/-!
# Rejected sequences

What a rejected exclusive sequence leaves behind. A memory instruction that does
not succeed leaves the space alone, and one that the source counts as a load
does so even when it succeeds, with one exception: the compare and swap
instructions `LoadLikeCas`, whose encoding the mask for LDAR also matches. They
compare with zero, so what one of them has stored no later one takes back. Hence
a rejected sequence leaves no trace exactly when none of the instructions it has
executed was such a one that stored a value.
-/

namespace Tolkara

open Library TaggedInterval

namespace Space

/-! ## Calls that fail -/

/-- A write that is refused changes nothing. -/
theorem accessLocked_refused (s : Space) (a n : ℕ) (buffer : Buffer) :
    (s.accessLocked a (some buffer) n true).1 = .ok ∨
      (s.accessLocked a (some buffer) n true).2.1 = s := by
  unfold accessLocked
  simp only [if_true]
  split
  · exact .inr rfl
  split
  · exact .inr rfl
  · exact .inl rfl

theorem gmSparseStoreExclusive_refused (s : Space) (a n : ℕ) (buffer : Buffer)
    (monitor : GMSparseExclusive) :
    (s.gmSparseStoreExclusive a (some buffer) n (some monitor) true).1 = .ok ∨
      (s.gmSparseStoreExclusive a (some buffer) n (some monitor) true).2.1 = s := by
  unfold gmSparseStoreExclusive
  dsimp only
  split
  · exact .inr rfl
  cases s.monitorHolds a n monitor with
  | false => exact .inl rfl
  | true =>
      simp only [if_true]
      split
      · exact .inl rfl
      · rename_i hno
        exact .inr ((s.accessLocked_refused a n buffer).resolve_left hno)

theorem gmSparseCompareExchange_refused (s : Space) (a n : ℕ) (expected desired : Buffer) :
    (s.gmSparseCompareExchange a (some expected) (some desired) true n).1 = .ok ∨
      (s.gmSparseCompareExchange a (some expected) (some desired) true n).2.1 = s := by
  unfold gmSparseCompareExchange
  dsimp only
  split
  · exact .inr rfl
  split
  · exact .inr rfl
  split
  · exact .inr rfl
  split
  · exact s.accessLocked_refused a n desired
  · exact .inl rfl

theorem gmSparseAtomic_refused (s : Space) (a n : ℕ) (operation : GMSparseAtomic)
    (operand : BitVec 64) :
    (s.gmSparseAtomic a n (some operation) operand true).1 = .ok ∨
      (s.gmSparseAtomic a n (some operation) operand true).2.1 = s := by
  unfold gmSparseAtomic
  dsimp only
  split
  · exact .inr rfl
  split
  · exact .inr rfl
  · exact s.accessLocked_refused a n _

end Space

/-! ## Memory instructions that fail -/

/-- The step succeeded, or nothing changed. -/
def Stepped.Refused (e : Stepped) (s : Space) (r : GMMemoryRegisters) : Prop :=
  e.step = .ok ∨ e.registers = r ∧ e.space = s

/-- The form in which all the instructions end. -/
theorem refused_ite {s s' : Space} {r r' : GMMemoryRegisters} {result fault fault' : GMResult}
    (h : result = .ok ∨ s' = s) :
    (if result ≠ .ok then (⟨.fault, fault, r, s'⟩ : Stepped)
      else ⟨.ok, fault', r', s'⟩).Refused s r := by
  split
  · rename_i hno
    exact .inr ⟨rfl, h.resolve_left hno⟩
  · exact .inl rfl

theorem structureStep_refused (s : Space) (i : BitVec 32) (r : GMMemoryRegisters)
    (fault : GMResult) : (structureStep s i r fault).Refused s r := by
  unfold structureStep
  dsimp only
  cases structureOf i with
  | none => exact .inr ⟨rfl, rfl⟩
  | some t =>
      by_cases hload : i.getLsbD 22 = true
      · simp only [if_pos hload]
        exact refused_ite (.inr rfl)
      · simp only [if_neg hload]
        exact refused_ite (s.accessLocked_refused _ _ _)

theorem atomicStep_refused (s : Space) (i : BitVec 32) (r : GMMemoryRegisters)
    (fault : GMResult) : (atomicStep s i r fault).Refused s r := by
  unfold atomicStep
  dsimp only
  split
  · split
    · exact .inr ⟨rfl, rfl⟩
    · exact refused_ite (s.gmSparseCompareExchange_refused _ _ _ _)
  split
  · exact refused_ite (s.gmSparseCompareExchange_refused _ _ _ _)
  split
  · split
    · exact .inr ⟨rfl, rfl⟩
    · exact refused_ite (s.gmSparseAtomic_refused _ _ _ _)
  · exact .inr ⟨rfl, rfl⟩

theorem perform_refused (d : Access) (s : Space) (rn : ℕ) (r : GMMemoryRegisters) :
    (d.perform s rn r).Refused s r := by
  unfold Access.perform
  dsimp only
  split
  · exact refused_ite (.inr rfl)
  · exact refused_ite (s.accessLocked_refused _ _ _)

/-- A memory instruction that does not succeed changes nothing. -/
theorem gmMemoryStep_refused (s : Space) (i : BitVec 32) (r : GMMemoryRegisters)
    (fault : GMResult) : (gmMemoryStep s i r fault).Refused s r := by
  unfold gmMemoryStep
  dsimp only
  split
  · exact .inr ⟨rfl, rfl⟩
  split
  · exact structureStep_refused s i r fault
  split
  · exact atomicStep_refused s i r fault
  split
  · split
    · exact .inr ⟨rfl, rfl⟩
    · exact perform_refused _ s _ r
  · split
    · exact .inr ⟨rfl, rfl⟩
    · exact perform_refused _ s _ r

/-! ## What counts as a load -/

/-- Two masks that ask for different bits are not both met. -/
theorem mask_ne {w m c m' c' : BitVec 32} (h : w &&& m = c) (hd : c &&& m' ≠ c' &&& m) :
    w &&& m' ≠ c' := by
  rintro rfl
  apply hd
  rw [← h, BitVec.and_assoc, BitVec.and_assoc, BitVec.and_comm m m']

theorem mask_or {w m c m' c' : BitVec 32} (h : w &&& m = c) (h' : w &&& m' = c') :
    w &&& (m ||| m') = c ||| c' := by
  rw [BitVec.and_or_distrib_left, h, h']

/-- A larger mask decides a smaller one. -/
theorem mask_sub {w m c : BitVec 32} (h : w &&& m = c) (m' : BitVec 32) (hm : m &&& m' = m') :
    w &&& m' = c &&& m' := by
  rw [← h, BitVec.and_assoc, hm]

theorem mask_bit {w : BitVec 32} {k : ℕ} (hk : k < 32) :
    w.getLsbD k = true ↔ w &&& BitVec.twoPow 32 k = BitVec.twoPow 32 k := by
  rw [BitVec.and_twoPow]
  cases hw : w.getLsbD k with
  | true => simp
  | false =>
      simp only [Bool.false_eq_true, if_false, false_iff]
      intro h
      have hbit := congrArg (fun v => v.getLsbD k) h
      simp [hk] at hbit

/-- CASAL of the zero register, in all four sizes: the mask for LDAR matches it. -/
def LoadLikeCas (i : BitVec 32) : Prop := i &&& 0x3ffffc00#32 = 0x08fffc00#32

instance (i : BitVec 32) : Decidable (LoadLikeCas i) := inferInstanceAs (Decidable (_ = _))

theorem loadLikeCas_of_isCas {i : BitVec 32} (hcas : IsCas i) (ho : IsOrdered i)
    (hbit : i.getLsbD 22 = true) : LoadLikeCas i := by
  have h := mask_or (mask_or hcas ho) ((mask_bit (by decide)).1 hbit)
  exact h

theorem mask_of_isSingle {i : BitVec 32} (h : IsSingle i) :
    i &&& 0x3a000000#32 = 0x38000000#32 := by
  rcases h with h | h
  · exact mask_sub h 0x3a000000#32 (by decide)
  · exact mask_sub h 0x3a000000#32 (by decide)

theorem singleAccess_load {i : BitVec 32} {r : GMMemoryRegisters} {d : Access}
    (h : singleAccess i r = some d) (hv : i.getLsbD 26 = false) :
    d.load = (field i 22 3 != 0) := by
  unfold singleAccess at h
  simp only [hv, Bool.false_eq_true, if_false, false_and] at h
  repeat' split at h
  all_goals first | contradiction | (cases h; rfl)

theorem pairAccess_load {i : BitVec 32} {r : GMMemoryRegisters} {d : Access}
    (h : pairAccess i r = some d) : d.load = i.getLsbD 22 := by
  unfold pairAccess at h
  dsimp only at h
  repeat' split at h
  all_goals first | contradiction | (cases h; rfl)

theorem orderedAccess_load {i : BitVec 32} {r : GMMemoryRegisters} {d : Access}
    (h : orderedAccess i r = some d) : d.load = (decide (IsRcpc i) || i.getLsbD 22) := by
  unfold orderedAccess at h
  dsimp only at h
  split at h
  · cases h
  · cases h
    rfl

theorem perform_of_load {d : Access} (h : d.load = true) (s : Space) (rn : ℕ)
    (r : GMMemoryRegisters) : (d.perform s rn r).space = s := by
  unfold Access.perform
  simp only [if_pos h]
  split <;> rfl

/-- What the source counts as a load leaves the space alone, but for
`LoadLikeCas`. -/
theorem gmMemoryStep_of_load {s : Space} {i : BitVec 32} {r : GMMemoryRegisters}
    {fault : GMResult} (hv : i.getLsbD 26 = false) (hload : countsAsLoad i = true)
    (hcas : ¬ LoadLikeCas i) : (gmMemoryStep s i r fault).space = s := by
  have hno : ¬ (¬ IsRcpc i ∧ IsUpdate i) := by
    intro h
    simp [countsAsLoad, h] at hload
  simp only [countsAsLoad, if_neg hno, Bool.or_eq_true, Bool.and_eq_true, decide_eq_true_eq]
    at hload
  unfold gmMemoryStep
  dsimp only
  split
  · rfl
  split
  · -- The structure accesses have the vector bit.
    rename_i hstructure
    have hbit := (mask_bit (k := 26) (by decide)).2 (mask_sub hstructure 0x04000000#32 (by decide))
    rw [hv] at hbit
    cases hbit
  split
  · rename_i hatomic
    obtain ⟨hrcpc, hcasp | hcas' | hupdate⟩ := hatomic
    · have h1 : ¬ IsOrdered i := mask_ne hcasp (by decide)
      have h2 : ¬ IsSingle i := fun h => mask_ne (mask_of_isSingle h) (by decide) hcasp
      have h3 : ¬ IsPair i := mask_ne hcasp (by decide)
      tauto
    · have h2 : ¬ IsSingle i := fun h => mask_ne (mask_of_isSingle h) (by decide) hcas'
      have h3 : ¬ IsPair i := mask_ne hcas' (by decide)
      have h4 : IsOrdered i → i.getLsbD 22 = true → False :=
        fun ho hb => hcas (loadLikeCas_of_isCas hcas' ho hb)
      tauto
    · exact absurd ⟨hrcpc, hupdate⟩ hno
  split
  · rename_i hordered
    split
    · rfl
    · rename_i d hd
      apply perform_of_load
      rw [orderedAccess_load hd, Bool.or_eq_true, decide_eq_true_eq]
      rcases hordered with hr | ho
      · exact .inl hr
      · have h2 : ¬ IsSingle i := fun h => mask_ne (mask_of_isSingle h) (by decide) ho
        have h3 : ¬ IsPair i := mask_ne ho (by decide)
        tauto
  · rename_i hordered
    push Not at hordered
    by_cases hsingle : IsSingle i
    · rw [if_pos hsingle]
      cases hd : singleAccess i r with
      | none => rfl
      | some d =>
          apply perform_of_load
          rw [singleAccess_load hd hv]
          have h3 : ¬ IsPair i := mask_ne (mask_of_isSingle hsingle) (by decide)
          tauto
    · rw [if_neg hsingle]
      by_cases hpair : IsPair i
      · rw [if_pos hpair]
        cases hd : pairAccess i r with
        | none => rfl
        | some d =>
            apply perform_of_load
            rw [pairAccess_load hd]
            tauto
      · rw [if_neg hpair]

/-! ## Spaces that read the same -/

namespace Space

/-- A space `gm_sparse_init` and calls lead to. -/
def Reachable (s : Space) : Prop :=
  ∃ (base size backingBytes : ℕ) (allocated : Bool) (arena : ℕ → PageBytes) (s₀ : Space)
    (calls : List (Call GMSparseExclusive)),
    gmSparseInit base size backingBytes allocated arena = (.ok, some s₀) ∧ s = s₀.run calls

theorem Reachable.inv {s : Space} (h : s.Reachable) : s.Inv := by
  obtain ⟨base, size, backingBytes, allocated, arena, s₀, calls, hinit, rfl⟩ := h
  exact inv_run (gmSparseInit_spec hinit).1 calls

/-- The mappings and the bytes are the same; other pages may be resident. -/
structure SameReads (s s' : Space) : Prop where
  inv : s'.Inv
  base : s'.base = s.base
  stop : s'.stop = s.stop
  regions : s'.regions = s.regions
  bytes : ∀ q, PageKey q → s'.bytesAt q = s.bytesAt q

theorem SameReads.refl {s : Space} (h : s.Inv) : SameReads s s := ⟨h, rfl, rfl, rfl, fun _ _ => rfl⟩

theorem SameReads.trans {s t u : Space} (h : SameReads s t) (h' : SameReads t u) :
    SameReads s u :=
  ⟨h'.inv, h'.base.trans h.base, h'.stop.trans h.stop, h'.regions.trans h.regions,
    fun q hq => (h'.bytes q hq).trans (h.bytes q hq)⟩

theorem SameReads.gmSparseRead {s s' : Space} (h : SameReads s s') (hs : s.Inv) (a : ℕ)
    (buffer : Buffer) (n : ℕ) :
    s'.gmSparseRead a (some buffer) n = s.gmSparseRead a (some buffer) n := by
  have hcheck := checkAccess_congr h.base h.stop h.regions a n GM.READ
  unfold Space.gmSparseRead
  dsimp only
  rw [accessLocked_read, accessLocked_read, hcheck]
  by_cases hok : s.checkAccess a n GM.READ = .ok
  · rw [if_pos hok, if_pos hok]
    have hbytes : ((List.range n).map fun i => s'.byteAt (a + i)) =
        (List.range n).map fun i => s.byteAt (a + i) := by
      apply List.map_congr_left
      intro i hi
      rw [List.mem_range] at hi
      rw [byteAt, byteAt, h.bytes _ (pageKey_of_checkAccess hs hok (by omega) (by omega))]
    rw [hbytes]
  · rw [if_neg hok, if_neg hok]

theorem Wrote.sameReads {s s' : Space} {a n : ℕ} {buffer : Buffer} (hw : Wrote s s' a n buffer)
    (hsame : ∀ i < n, s.byteAt (a + i) = buffer i) : SameReads s s' := by
  refine ⟨hw.inv, hw.arena.base, hw.arena.stop, hw.regions, ?_⟩
  intro q hq
  have hpage := hw.pages q hq
  by_cases ht : Touches a n q
  · rw [if_pos ht] at hpage
    rw [bytesAt, hpage]
    funext j
    change overwrite a n buffer q (s.bytesAt q) j = s.bytesAt q j
    unfold overwrite
    split
    · rename_i hin
      obtain ⟨hj, h1, h2⟩ := hin
      have hq0 := ht.1
      have hbase : pageBase (q + j) = q := by
        unfold pageBase pageSize at *
        omega
      have hmod : (q + j) % pageSize = j := by
        unfold pageSize at *
        omega
      rw [← hsame (q + j - a) (by omega), Nat.add_sub_cancel' h1, byteAt, hbase, hmod]
    · rfl
  · rw [if_neg ht] at hpage
    rw [bytesAt, bytesAt, hpage]

/-- The mappings are the same, and what is not zero stays as it is. -/
structure Fills (s s' : Space) : Prop where
  inv : s'.Inv
  base : s'.base = s.base
  stop : s'.stop = s.stop
  regions : s'.regions = s.regions
  bytes : ∀ x, cover s.regions x ≠ none → s.byteAt x ≠ 0 → s'.byteAt x = s.byteAt x

theorem SameReads.fills {s s' : Space} (h : SameReads s s') (hs : s.Inv) : Fills s s' where
  inv := h.inv
  base := h.base
  stop := h.stop
  regions := h.regions
  bytes := by
    intro x hx _
    rw [byteAt, byteAt, h.bytes _ (pageKey_of_cover hs hx)]

theorem Fills.trans {s t u : Space} (h : Fills s t) (h' : Fills t u) : Fills s u where
  inv := h'.inv
  base := h'.base.trans h.base
  stop := h'.stop.trans h.stop
  regions := h'.regions.trans h.regions
  bytes := by
    intro x hx hne
    have heq := h.bytes x hx hne
    rw [← heq] at hne ⊢
    exact h'.bytes x (by rwa [h.regions]) hne

theorem read_byte {s : Space} {x : ℕ} (h : s.checkAccess x 1 GM.READ = .ok) (buffer : Buffer) :
    s.gmSparseRead x (some buffer) 1 = (.ok, [s.byteAt x]) := by
  unfold gmSparseRead
  dsimp only
  rw [accessLocked_read, h, if_pos rfl]
  rfl

/-- A compare and exchange with zeros that goes through: it stored its data over
zeros, or did nothing. -/
theorem gmSparseCompareExchange_zeros {s : Space} (h : s.Inv) {a n : ℕ} {zeros data : Buffer}
    (hzeros : ∀ k < n, zeros k = 0)
    (hok : (s.gmSparseCompareExchange a (some zeros) (some data) true n).1 = .ok) :
    ((∀ k < n, s.byteAt (a + k) = 0) →
        Wrote s (s.gmSparseCompareExchange a (some zeros) (some data) true n).2.1 a n data) ∧
      ((¬ ∀ k < n, s.byteAt (a + k) = 0) →
        (s.gmSparseCompareExchange a (some zeros) (some data) true n).2.1 = s) ∧
      ∀ k < n, s.checkAccess (a + k) 1 GM.READ = .ok := by
  unfold gmSparseCompareExchange at hok ⊢
  dsimp only at hok ⊢
  by_cases hargs : true = false ∨ ¬ AtomicSize a n
  · rw [if_pos hargs] at hok
    cases hok
  rw [if_neg hargs] at hok ⊢
  by_cases hcheck : s.checkAccess a n (GM.READ ||| GM.WRITE) ≠ .ok
  · rw [if_pos hcheck] at hok
    exact absurd hok hcheck
  rw [if_neg hcheck] at hok ⊢
  rw [accessLocked_read] at hok ⊢
  dsimp only at hok ⊢
  by_cases hread : s.checkAccess a n GM.READ ≠ .ok
  · rw [if_pos hread] at hok
    exact absurd hok hread
  rw [if_neg hread] at hok ⊢
  rw [not_not] at hread
  rw [if_pos hread] at hok ⊢
  have hmatch : (List.range n).map (fun i => s.byteAt (a + i)) = (List.range n).map zeros ↔
      ∀ k < n, s.byteAt (a + k) = 0 := by
    rw [List.map_inj_left]
    refine forall_congr' fun k => ?_
    rw [List.mem_range]
    exact forall_congr' fun hk => by rw [hzeros k hk]
  have hbytes : ∀ k < n, s.checkAccess (a + k) 1 GM.READ = .ok := by
    intro k hk
    rw [checkAccess_ok_iff h] at hread ⊢
    obtain ⟨hin, hpermits⟩ := hread
    unfold Contains at hin ⊢
    exact ⟨by omega, fun x h1 h2 => hpermits x (by omega) (by omega)⟩
  by_cases hall : ∀ k < n, s.byteAt (a + k) = 0
  · rw [if_pos (hmatch.2 hall)] at hok ⊢
    refine ⟨fun _ => ?_, fun hno => absurd hall hno, hbytes⟩
    rcases accessLocked_write h a data n with ⟨heq, hno⟩ | ⟨heq, -⟩ | ⟨s', heq, -, -, -, hw⟩
    · rw [heq] at hok
      rcases hno with hno | rfl
      · exact absurd hok hno
      · exact absurd rfl (not_not.1 (not_or.1 hargs).2).1
    · rw [heq] at hok
      cases hok
    · rw [heq]
      exact hw
  · rw [if_neg fun hm => hall (hmatch.1 hm)]
    exact ⟨fun hyes => absurd hyes hall, fun _ => rfl, hbytes⟩

end Space

/-! ## Sequences -/

/-- `exclusive` writes only when it ends the sequence. -/
theorem exclusive_spec (s : Space) (i : BitVec 32) (r : GCRegisters) (monitor : GMSparseExclusive)
    (fault : GMResult) :
    (exclusive s i r monitor fault).space = s ∨
      (exclusive s i r monitor fault).step = .ok ∧
        (exclusive s i r monitor fault).finished = true := by
  unfold exclusive
  dsimp only
  split
  · exact .inl rfl
  split
  · exact .inl rfl
  generalize (if i.getLsbD 21 = true then 2 else 1) = count
  by_cases hload : i.getLsbD 22 = true
  · rw [if_pos hload]
    left
    split <;> rfl
  · rw [if_neg hload]
    split
    · rename_i hno
      exact .inl ((s.gmSparseStoreExclusive_refused _ _ _ _).resolve_left hno)
    · exact .inr ⟨rfl, rfl⟩

theorem field_of_mask {w m c : BitVec 32} (h : w &&& m = c) {low k : ℕ}
    (hm : (m.toNat >>> low) &&& k = k) : field w low k = (c.toNat >>> low) &&& k := by
  rw [field, ← h, BitVec.toNat_and, Nat.shiftRight_and_distrib, Nat.and_assoc, hm]

theorem atomicStep_loadLikeCas {i : BitVec 32} (h : LoadLikeCas i) (s : Space)
    (r : GMMemoryRegisters) (fault : GMResult) :
    atomicStep s i r fault =
      let size := 2 ^ field i 30 3
      let answer := s.gmSparseCompareExchange (r.get (field i 5 31) true).toNat
        (some (scalarBytes size fun _ => 0#64))
        (some (scalarBytes size fun _ => r.get (field i 0 31) false)) true size
      if answer.1 ≠ .ok then ⟨.fault, answer.1, r, answer.2.1⟩
      else ⟨.ok, .ok, r.next, answer.2.1⟩ := by
  have hcasp : ¬ IsCasp i := mask_ne h (by decide)
  have hcas : IsCas i := mask_sub h 0x3fa07c00#32 (by decide)
  have hrs : field i 16 31 = 31 := field_of_mask h (by decide)
  unfold atomicStep
  dsimp only
  rw [if_neg hcasp, if_pos hcas, hrs]
  rfl

theorem gmMemoryStep_loadLikeCas {i : BitVec 32} (h : LoadLikeCas i) (s : Space)
    (r : GMMemoryRegisters) (fault : GMResult) :
    gmMemoryStep s i r fault =
      if r.pc.toNat > uint64Max - 4 ∨ r.pc &&& 3#64 ≠ 0#64 ∨
          field i 5 31 = 31 ∧ r.sp &&& 15#64 ≠ 0#64 then ⟨.fault, .invalid, r, s⟩
      else atomicStep s i r fault := by
  have hstructure : i &&& 0xbe000000#32 ≠ 0x0c000000#32 := mask_ne h (by decide)
  have hrcpc : ¬ IsRcpc i := mask_ne h (by decide)
  have hcas : IsCas i := mask_sub h 0x3fa07c00#32 (by decide)
  have hatomic : ¬ IsRcpc i ∧ (IsCasp i ∨ IsCas i ∨ IsUpdate i) := ⟨hrcpc, .inr (.inl hcas)⟩
  unfold gmMemoryStep
  dsimp only
  rw [if_neg hstructure, if_pos hatomic]

theorem gcRegisterStep_loadLikeCas {i : BitVec 32} (h : LoadLikeCas i) (r : GCRegisters) :
    gcRegisterStep r i = none := by
  have hop : (decode r.pc i).op = .invalid := by
    have hnop : i ≠ 0xd503201f#32 := by
      rintro rfl
      exact absurd h (by decide)
    have hbranch : ¬ (i &&& 0xfffffc1f#32 = 0xd61f0000#32 ∨ i &&& 0xfffffc1f#32 = 0xd63f0000#32 ∨
        i &&& 0xfffffc1f#32 = 0xd65f0000#32) := by
      rintro (h' | h' | h')
      · exact mask_ne h (by decide) h'
      · exact mask_ne h (by decide) h'
      · exact mask_ne h (by decide) h'
    have hplain : ¬ (i &&& 0x3b000000#32 = 0x39000000#32 ∧ i &&& 0x04000000#32 = 0#32) :=
      fun h' => mask_ne h (by decide) h'.1
    unfold decode
    dsimp only
    rw [if_neg hnop, if_neg (mask_ne h (by decide)), if_neg (mask_ne h (by decide)),
      if_neg (mask_ne h (by decide)), if_neg (mask_ne h (by decide)),
      if_neg (mask_ne h (by decide)), if_neg (mask_ne h (by decide)),
      if_neg (mask_ne h (by decide)), if_neg (mask_ne h (by decide)), if_neg hbranch,
      if_neg (mask_ne h (by decide)), if_neg (mask_ne h (by decide)),
      if_neg (mask_ne h (by decide)), if_neg (mask_ne h (by decide)), if_neg hplain]
  unfold gcRegisterStep
  split
  · rfl
  · unfold registerDecoded
    rw [hop]

theorem sequenceStep_loadLikeCas {i : BitVec 32} (h : LoadLikeCas i) (s : Space) (r : GCRegisters)
    (monitor : GMSparseExclusive) (fault : GMResult) :
    sequenceStep s i r monitor fault =
      let access := gmMemoryStep s i r.access fault
      if access.step = .ok then
        ⟨.ok, access.fault, r.accessed access.registers, monitor, false, access.space⟩
      else ⟨access.step, access.fault, r, monitor, false, access.space⟩ := by
  have hexclusive : ¬ GmExclusiveInstruction i := fun h' => mask_ne h (by decide) h'.1
  have hclrex : i &&& 0xfffff0ff#32 ≠ 0xd503305f#32 := mask_ne h (by decide)
  have hv : i.getLsbD 26 ≠ true := fun h' =>
    mask_ne h (by decide) ((mask_bit (by decide)).1 h')
  have hordered : IsOrdered i := mask_sub h 0x3f9ffc00#32 (by decide)
  have hbit : i.getLsbD 22 = true :=
    (mask_bit (by decide)).2 (mask_sub h 0x00400000#32 (by decide))
  have hupdate : ¬ (¬ IsRcpc i ∧ IsUpdate i) := fun h' => mask_ne h (by decide) h'.2
  have hload : countsAsLoad i = true := by
    simp [countsAsLoad, hupdate, hordered, hbit]
  unfold sequenceStep
  rw [if_neg hexclusive, if_neg hclrex, gcRegisterStep_loadLikeCas h, if_neg hv, hload]
  rfl

/-! ## What a sequence executes -/

/-- An instruction that a sequence executes, with the memory and the registers
before it. -/
structure SequencePoint where
  space : Space
  word : BitVec 32
  registers : GCRegisters

namespace SequencePoint

variable (e : SequencePoint)

/-- The size, the address and the data of a compare and swap. -/
def size : ℕ := 2 ^ field e.word 30 3

def address : ℕ := (e.registers.access.get (field e.word 5 31) true).toNat

def data : Buffer := scalarBytes e.size fun _ => e.registers.access.get (field e.word 0 31) false

/-- A `LoadLikeCas` that is not refused finds zeros and stores something else. -/
def Stores : Prop :=
  LoadLikeCas e.word ∧ (gmMemoryStep e.space e.word e.registers.access .ok).step = .ok ∧
    (∀ k < e.size, e.space.byteAt (e.address + k) = 0) ∧ ∃ k < e.size, e.data k ≠ 0

instance : Decidable e.Stores := inferInstanceAs (Decidable (_ ∧ _ ∧ _ ∧ _))

end SequencePoint

/-- The instructions that the loop of `gm_exclusive_sequence` executes, in order. -/
def executedLoop (fetch : GMInstructionFetch) (registers : GCRegisters) :
    ℕ → Space → BitVec 32 → GCRegisters → GMSparseExclusive → GMResult → List SequencePoint
  | 0, _, _, _, _, _ => []
  | n + 1, s, i, r, monitor, fault =>
    let e := sequenceStep s i r monitor fault
    ⟨s, i, r⟩ ::
      if e.step ≠ .ok then []
      else if e.finished = true ∨ e.registers.pc < registers.pc ∨
          e.registers.pc ≥ registers.pc + 128#64 then []
      else
        match fetch n e.registers.pc with
        | none => []
        | some i => executedLoop fetch registers n e.space i e.registers e.monitor e.fault

/-- The instructions that `gm_exclusive_sequence` executes. -/
def executed (s : Space) (first : BitVec 32) (registers : GCRegisters)
    (fetch : GMInstructionFetch) (fault : GMResult) : List SequencePoint :=
  if ¬ GmExclusiveInstruction first then []
  else if registers.pc.toNat > uint64Max - 128 then []
  else executedLoop fetch registers 32 s first registers ⟨0, 0, 0, 0, false⟩ fault

/-- What an instruction that does not end the sequence has done to the space. -/
structure SequencePoint.Leaves (e : SequencePoint) (s' : Space) : Prop where
  fills : e.space.Fills s'
  same : ¬ e.Stores → e.space.SameReads s'
  stored : e.Stores → ∃ x, e.space.checkAccess x 1 GM.READ = .ok ∧ e.space.byteAt x = 0 ∧
    s'.byteAt x ≠ 0

theorem scalarBytes_zero (size : ℕ) : (scalarBytes size fun _ => 0#64) = fun _ => 0 := by
  funext k
  change byteOf 0 (k % size) = 0
  simp [byteOf]

theorem gmMemoryStep_exchange {e : SequencePoint} (hcas : LoadLikeCas e.word) {fault : GMResult}
    (hok : (gmMemoryStep e.space e.word e.registers.access fault).step = .ok) :
    (e.space.gmSparseCompareExchange e.address (some fun _ => 0) (some e.data) true
        e.size).1 = .ok ∧
      (gmMemoryStep e.space e.word e.registers.access fault).space =
        (e.space.gmSparseCompareExchange e.address (some fun _ => 0) (some e.data) true
          e.size).2.1 := by
  rw [gmMemoryStep_loadLikeCas hcas] at hok ⊢
  split at hok
  · cases hok
  rename_i hstate
  rw [if_neg hstate, atomicStep_loadLikeCas hcas]
  rw [atomicStep_loadLikeCas hcas] at hok
  dsimp only at hok ⊢
  rw [scalarBytes_zero] at hok ⊢
  split at hok
  · cases hok
  · rename_i hanswer
    rw [if_neg hanswer]
    exact ⟨not_not.1 hanswer, rfl⟩

theorem gmMemoryStep_leaves {e : SequencePoint} (hs : e.space.Inv) (hcas : LoadLikeCas e.word)
    {fault : GMResult} (hok : (gmMemoryStep e.space e.word e.registers.access fault).step = .ok) :
    e.Leaves (gmMemoryStep e.space e.word e.registers.access fault).space := by
  have hstep : (gmMemoryStep e.space e.word e.registers.access .ok).step = .ok := by
    rw [gmMemoryStep_loadLikeCas hcas, atomicStep_loadLikeCas hcas] at hok ⊢
    exact hok
  obtain ⟨hanswer, hspace⟩ := gmMemoryStep_exchange hcas hok
  rw [hspace]
  obtain ⟨hwrote, hkept, hread⟩ := Space.gmSparseCompareExchange_zeros hs (fun _ _ => rfl) hanswer
  by_cases hzero : ∀ k < e.size, e.space.byteAt (e.address + k) = 0
  · have hw := hwrote hzero
    have hbyte : ∀ k < e.size, _ := fun k hk => hw.byte hs (x := e.address + k) (by
      obtain ⟨t, ht, -⟩ := (Space.cover_of_checkAccess hs (hread k hk)).2 _ le_rfl (by omega)
      rw [ht]
      exact Option.some_ne_none t)
    refine ⟨⟨hw.inv, hw.arena.base, hw.arena.stop, hw.regions, ?_⟩, ?_, ?_⟩
    · intro x hx hne
      rw [hw.byte hs hx, if_neg]
      rintro ⟨h1, h2⟩
      refine hne ?_
      rw [← Nat.add_sub_cancel' h1]
      exact hzero _ (by omega)
    · intro hno
      refine hw.sameReads fun k hk => ?_
      by_contra hne
      exact hno ⟨hcas, hstep, hzero, k, hk, fun h0 => hne (by rw [hzero k hk, h0])⟩
    · rintro ⟨-, -, -, k, hk, hne⟩
      refine ⟨e.address + k, hread k hk, hzero k hk, ?_⟩
      rwa [hbyte k hk, if_pos (by omega), Nat.add_sub_cancel_left]
  · rw [hkept hzero]
    exact ⟨(Space.SameReads.refl hs).fills hs, fun _ => .refl hs,
      fun hstores => absurd hstores.2.2.1 hzero⟩

theorem sequenceStep_spec {s : Space} (h : s.Inv) (i : BitVec 32) (r : GCRegisters)
    (monitor : GMSparseExclusive) (fault : GMResult) :
    ((sequenceStep s i r monitor fault).step ≠ .ok →
        (sequenceStep s i r monitor fault).space = s ∧ ¬ (SequencePoint.mk s i r).Stores) ∧
      ((sequenceStep s i r monitor fault).step = .ok →
        (sequenceStep s i r monitor fault).finished = false →
        (SequencePoint.mk s i r).Leaves (sequenceStep s i r monitor fault).space) := by
  by_cases hcas : LoadLikeCas i
  · rw [sequenceStep_loadLikeCas hcas]
    have hleaves := @gmMemoryStep_leaves ⟨s, i, r⟩ h hcas fault
    dsimp only at hleaves ⊢
    split
    · rename_i hok
      exact ⟨fun hno => absurd rfl hno, fun _ _ => hleaves hok⟩
    · rename_i hno
      refine ⟨fun _ => ⟨((gmMemoryStep_refused s i r.access fault).resolve_left hno).2, ?_⟩,
        fun hok => absurd hok hno⟩
      rintro ⟨-, hok, -⟩
      refine hno ?_
      rw [gmMemoryStep_loadLikeCas hcas, atomicStep_loadLikeCas hcas] at hok ⊢
      exact hok
  have hstores : ¬ (SequencePoint.mk s i r).Stores := fun hs => hcas hs.1
  have hleaves : ∀ {s' : Space}, s' = s → (SequencePoint.mk s i r).Leaves s' := by
    rintro s' rfl
    exact ⟨(Space.SameReads.refl h).fills h, fun _ => .refl h, fun hs => absurd hs hstores⟩
  unfold sequenceStep
  split
  · rcases exclusive_spec s i r monitor fault with heq | ⟨hok, hfin⟩
    · exact ⟨fun _ => ⟨heq, hstores⟩, fun _ _ => hleaves heq⟩
    · exact ⟨fun hno => absurd hok hno, fun _ hno => by rw [hfin] at hno; cases hno⟩
  split
  · exact ⟨fun _ => ⟨rfl, hstores⟩, fun _ _ => hleaves rfl⟩
  split
  · exact ⟨fun _ => ⟨rfl, hstores⟩, fun _ _ => hleaves rfl⟩
  split
  · exact ⟨fun _ => ⟨rfl, hstores⟩, fun _ _ => hleaves rfl⟩
  rename_i hv
  rw [Bool.not_eq_true] at hv
  dsimp only
  split
  · refine ⟨fun hno => absurd rfl hno, fun _ hfin => hleaves ?_⟩
    dsimp only at hfin ⊢
    rw [Bool.not_eq_false'] at hfin
    exact gmMemoryStep_of_load hv hfin hcas
  · rename_i hno
    exact ⟨fun _ => ⟨((gmMemoryStep_refused s i r.access fault).resolve_left hno).2, hstores⟩,
      fun hok => absurd hok hno⟩

/-- What a rejected sequence has done to the space, from what it has executed. -/
structure Rejected (s s' : Space) (steps : List SequencePoint) : Prop where
  fills : s.Fills s'
  same : (∀ e ∈ steps, ¬ e.Stores) → s.SameReads s'
  stored : (∃ e ∈ steps, e.Stores) → ∃ x, s.checkAccess x 1 GM.READ = .ok ∧ s.byteAt x = 0 ∧
    s'.byteAt x ≠ 0

theorem Rejected.of_not {s : Space} (h : s.Inv) {steps : List SequencePoint}
    (hno : ∀ e ∈ steps, ¬ e.Stores) : Rejected s s steps where
  fills := (Space.SameReads.refl h).fills h
  same _ := .refl h
  stored := fun ⟨e, he, hstores⟩ => absurd hstores (hno e he)

/-- One more instruction before the others. -/
theorem Rejected.cons {e : SequencePoint} {s s' : Space} {steps : List SequencePoint} (he : e.Leaves s)
    (h : Rejected s s' steps) (hinv : e.space.Inv) : Rejected e.space s' (e :: steps) where
  fills := he.fills.trans h.fills
  same hno := by
    rw [List.forall_mem_cons] at hno
    exact (he.same hno.1).trans (h.same hno.2)
  stored := by
    rintro ⟨d, hd, hstores⟩
    have hmapped : ∀ x, e.space.checkAccess x 1 GM.READ = .ok → cover e.space.regions x ≠ none := by
      intro x hx
      obtain ⟨t, ht, -⟩ := (Space.cover_of_checkAccess hinv hx).2 x le_rfl (by omega)
      rw [ht]
      exact Option.some_ne_none t
    rcases List.mem_cons.1 hd with rfl | hd
    · obtain ⟨x, hread, hzero, hne⟩ := he.stored hstores
      refine ⟨x, hread, hzero, ?_⟩
      rwa [h.fills.bytes x (by rw [he.fills.regions]; exact hmapped x hread) hne]
    · obtain ⟨x, hread, hzero, hne⟩ := h.stored ⟨d, hd, hstores⟩
      rw [Space.checkAccess_congr he.fills.base he.fills.stop he.fills.regions] at hread
      refine ⟨x, hread, ?_, hne⟩
      by_contra hbefore
      rw [he.fills.bytes x (hmapped x hread) hbefore] at hzero
      exact hbefore hzero

theorem sequenceLoop_rejected (fetch : GMInstructionFetch) (registers : GCRegisters) (n : ℕ) :
    ∀ {s : Space}, s.Inv → ∀ (i : BitVec 32) (r : GCRegisters) (monitor : GMSparseExclusive)
      (fault : GMResult) (diagnostic : Option GMExclusiveDiagnostic),
      (sequenceLoop fetch registers n s i r monitor fault diagnostic).step ≠ .ok →
        (sequenceLoop fetch registers n s i r monitor fault diagnostic).registers = registers ∧
          Rejected s (sequenceLoop fetch registers n s i r monitor fault diagnostic).space
            (executedLoop fetch registers n s i r monitor fault) := by
  induction n with
  | zero =>
      intro s h i r monitor fault diagnostic _
      exact ⟨rfl, .of_not h (List.forall_mem_nil _)⟩
  | succ n ih =>
      intro s h i r monitor fault diagnostic
      obtain ⟨hno, hleaves⟩ := sequenceStep_spec h i r monitor fault
      rw [sequenceLoop, executedLoop]
      by_cases hstep : (sequenceStep s i r monitor fault).step ≠ .ok
      · obtain ⟨heq, hstores⟩ := hno hstep
        rw [if_pos hstep, if_pos hstep]
        intro _
        refine ⟨rfl, ?_⟩
        rw [heq]
        exact .of_not h (List.forall_mem_singleton.2 hstores)
      rw [if_neg hstep, if_neg hstep]
      split
      · intro hok
        exact absurd rfl hok
      rename_i hgo
      push Not at hgo
      have hfirst := hleaves (not_not.1 hstep) (by simpa using hgo.1)
      cases hf : fetch n (sequenceStep s i r monitor fault).registers.pc with
      | none =>
          intro _
          exact ⟨rfl, .cons hfirst (.of_not hfirst.fills.inv (List.forall_mem_nil _)) h⟩
      | some j =>
          intro hrej
          obtain ⟨h1, h2⟩ := ih hfirst.fills.inv _ _ _ _ _ hrej
          exact ⟨h1, .cons hfirst h2 h⟩

/-! ## Traces -/

/-- A page of zeros that may be read and written. -/
def pageSpace : Space where
  base := 16384
  stop := 32768
  generation := 0
  mappingGeneration := 1
  backing := fun _ => zeroPage
  capacity := 1
  resident := 0
  nextBacking := 0
  freeBacking := []
  slotCount := 16
  pages := fun _ => ⟨0, 0, 0⟩
  regions := [⟨16384, 32768, (3#32, 3#32)⟩]

theorem reachable_pageSpace : pageSpace.Reachable :=
  ⟨16384, 16384, 16384, true, fun _ => zeroPage, _, [.map 16384 16384 3#32 3#32 false], rfl, rfl⟩

def pageRegisters (pc : BitVec 64) : GCRegisters := ⟨fun _ => 16392#64, 16400#64, pc, 0#8⟩

/-- The caller's registers are as they were and every byte reads as before. -/
def SequenceReply.Unchanged (reply : SequenceReply) (s : Space) (registers : GCRegisters) : Prop :=
  reply.registers = registers ∧
    ∀ a buffer, reply.space.gmSparseRead a (some buffer) 1 = s.gmSparseRead a (some buffer) 1

/-- A rejected sequence leaves no trace exactly when no instruction that it has
executed was a `LoadLikeCas` that stored something over zeros. -/
theorem gmExclusiveSequence_unchanged_iff {s : Space} (hs : s.Reachable) (first : BitVec 32)
    (registers : GCRegisters) (fetch : GMInstructionFetch) (fault : GMResult)
    (diagnostic : Option GMExclusiveDiagnostic)
    (hrejected : (gmExclusiveSequence s first registers fetch fault diagnostic).step ≠ .ok) :
    (gmExclusiveSequence s first registers fetch fault diagnostic).Unchanged s registers ↔
      ∀ e ∈ executed s first registers fetch fault, ¬ e.Stores := by
  have hinv := hs.inv
  have hrejection : (gmExclusiveSequence s first registers fetch fault diagnostic).registers =
      registers ∧ Rejected s (gmExclusiveSequence s first registers fetch fault diagnostic).space
        (executed s first registers fetch fault) := by
    unfold gmExclusiveSequence executed at *
    by_cases hfirst : ¬ GmExclusiveInstruction first
    · rw [if_pos hfirst, if_pos hfirst]
      exact ⟨rfl, .of_not hinv (List.forall_mem_nil _)⟩
    rw [if_neg hfirst] at hrejected
    rw [if_neg hfirst, if_neg hfirst]
    by_cases hpc : registers.pc.toNat > uint64Max - 128
    · rw [if_pos hpc, if_pos hpc]
      exact ⟨rfl, .of_not hinv (List.forall_mem_nil _)⟩
    rw [if_neg hpc] at hrejected
    rw [if_neg hpc, if_neg hpc]
    exact sequenceLoop_rejected fetch registers 32 hinv first registers _ fault diagnostic hrejected
  obtain ⟨hregisters, hspace⟩ := hrejection
  constructor
  · rintro ⟨-, hreads⟩ e he hstores
    obtain ⟨x, hread, hzero, hne⟩ := hspace.stored ⟨e, he, hstores⟩
    have heq := hreads x fun _ => 0
    rw [Space.read_byte hread, Space.read_byte, Prod.mk.injEq, List.cons.injEq] at heq
    · exact hne (heq.2.1.trans hzero)
    · rw [Space.checkAccess_congr hspace.fills.base hspace.fills.stop hspace.fills.regions]
      exact hread
  · intro hno
    exact ⟨hregisters, fun a buffer => (hspace.same hno).gmSparseRead hinv a buffer 1⟩

/-- LDXR XZR, [X0], then CASAL XZR, XZR, [X0], which stores zeros over zeros, then nothing to
fetch. The CASAL XZR, X3, [X0] that the fetch function has for later steps is not executed. -/
theorem gmExclusiveSequence_unchanged_casal :
    let reply := gmExclusiveSequence pageSpace 0xc85f7c1f#32 (pageRegisters 0#64)
      (fun n _ => if n = 31 then some 0xc8fffc1f#32 else if n < 30 then some 0xc8fffc03#32
        else none) .ok none
    reply.step ≠ .ok ∧ reply.Unchanged pageSpace (pageRegisters 0#64) := by
  intro reply
  have hrejected : reply.step ≠ .ok := by decide
  exact ⟨hrejected, (gmExclusiveSequence_unchanged_iff reachable_pageSpace _ _ _ _ _
    hrejected).2 (by decide)⟩

/-- CASAL XZR, X3, [X0] after LDXR XZR, [X0]: the byte at X0 is 8 afterwards, and
the sequence is rejected. -/
theorem gmExclusiveSequence_casal :
    let reply := gmExclusiveSequence pageSpace 0xc85f7c1f#32 (pageRegisters 0#64)
      (fun n _ => if n = 31 then some 0xc8fffc03#32 else none) .ok none
    pageSpace.Reachable ∧ reply.step = .fault ∧
      pageSpace.gmSparseRead 16392 (some fun _ => 0) 1 = (.ok, [0]) ∧
      reply.space.gmSparseRead 16392 (some fun _ => 0) 1 = (.ok, [8]) :=
  ⟨reachable_pageSpace, by decide +kernel, by decide +kernel, by decide +kernel⟩

end Tolkara
