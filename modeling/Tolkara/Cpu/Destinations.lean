import Tolkara.Cpu.Rejection

/-!
# What a memory instruction writes

The registers a memory instruction may change, read off its encoding: the
general and the vector registers it loads into, and the base register it writes
back. `gmMemoryStep_writes` says that a step which succeeds changes nothing else
among the registers, and that one which does not changes nothing at all.
-/

namespace Tolkara

/-! ## Destinations -/

/-- A vector structure access. -/
def IsStructure (i : BitVec 32) : Prop := i &&& 0xbe000000#32 = 0x0c000000#32

/-- An instruction that reads and writes memory in one go. -/
def IsAtomic (i : BitVec 32) : Prop := ¬ IsRcpc i ∧ (IsCasp i ∨ IsCas i ∨ IsUpdate i)

instance (i : BitVec 32) : Decidable (IsStructure i) := inferInstanceAs (Decidable (_ = _))

instance (i : BitVec 32) : Decidable (IsAtomic i) := inferInstanceAs (Decidable (_ ∧ _))

/-- How many registers in a row a structure access names. -/
def structureCount (i : BitVec 32) : ℕ :=
  if i.getLsbD 24 then field i 13 1 * 2 + field i 21 1 + 1
  else
    match field i 12 15 with
    | 0 | 2 => 4
    | 4 | 6 => 3
    | 8 | 10 => 2
    | _ => 1

/-- The general registers an instruction loads into. -/
def generalDestinations (i : BitVec 32) : List ℕ :=
  let rt := field i 0 31
  let rs := field i 16 31
  if IsStructure i then []
  else if IsAtomic i then
    if IsCasp i then [rs, rs + 1] else if IsCas i then [rs] else [rt]
  else if IsRcpc i then [rt]
  else if IsOrdered i then if i.getLsbD 22 then [rt] else []
  else if i.getLsbD 26 then []
  else if IsSingle i then if field i 22 3 = 0 then [] else [rt]
  else if i.getLsbD 22 then [rt, field i 10 31] else []

/-- The vector registers an instruction loads into. -/
def vectorDestinations (i : BitVec 32) : List ℕ :=
  let rt := field i 0 31
  if IsStructure i then
    if i.getLsbD 22 then (List.range (structureCount i)).map fun n => (rt + n) % 32 else []
  else if i.getLsbD 26 = false ∨ i.getLsbD 22 = false then []
  else if IsSingle i then [rt]
  else [rt, field i 10 31]

/-- The base register, where an instruction writes it back. -/
def writtenBase (i : BitVec 32) : Option ℕ :=
  let rn := field i 5 31
  if IsStructure i then if i.getLsbD 23 then some rn else none
  else if IsAtomic i ∨ IsRcpc i ∨ IsOrdered i then none
  else if IsSingle i then
    if i.getLsbD 24 = false ∧ i.getLsbD 21 = false ∧ i.getLsbD 10 = true then some rn else none
  else if i.getLsbD 23 then some rn
  else none

namespace GMMemoryRegisters

/-! ## Frames -/

/-- Outside the general registers `gs`, the base register and the vector registers `vs`
nothing changed. Register 31 is the stack pointer only as a base. -/
structure Frame (gs : List ℕ) (base : Option ℕ) (vs : List ℕ) (r r' : GMMemoryRegisters) :
    Prop where
  pc : r'.pc = r.pc
  general : ∀ k : Fin 31, k.val ∉ gs → base ≠ some k.val → r'.x k = r.x k
  sp : base ≠ some 31 → r'.sp = r.sp
  vector : ∀ k : Fin 32, k.val ∉ vs → r'.vector k = r.vector k

variable {gs vs : List ℕ} {base : Option ℕ} {r r' : GMMemoryRegisters}

theorem Frame.refl (gs : List ℕ) (base : Option ℕ) (vs : List ℕ) (r : GMMemoryRegisters) :
    Frame gs base vs r r :=
  ⟨rfl, fun _ _ _ => rfl, fun _ => rfl, fun _ _ => rfl⟩

theorem Frame.set (h : Frame gs base vs r r') {index : ℕ} (hi : index ∈ gs) (v : BitVec 64) :
    Frame gs base vs r (r'.set index v) := by
  unfold GMMemoryRegisters.set
  split
  · rename_i hlt
    refine ⟨h.pc, ?_, h.sp, h.vector⟩
    intro k hk hbase
    have hne : k ≠ ⟨index, hlt⟩ := by
      rintro rfl
      exact hk hi
    rw [← h.general k hk hbase]
    exact Function.update_of_ne hne _ _
  · exact h

theorem Frame.setBase (h : Frame gs base vs r r') {index : ℕ} (hi : base = some index)
    (v : BitVec 64) : Frame gs base vs r (r'.setBase index v) := by
  unfold GMMemoryRegisters.setBase
  split
  · rename_i h31
    refine ⟨h.pc, h.general, ?_, h.vector⟩
    intro hbase
    exact absurd (hi.trans (congrArg some h31)) hbase
  · unfold GMMemoryRegisters.set
    split
    · rename_i hlt
      refine ⟨h.pc, ?_, h.sp, h.vector⟩
      intro k hk hbase
      have hne : k ≠ ⟨index, hlt⟩ := by
        rintro rfl
        exact hbase hi
      rw [← h.general k hk hbase]
      exact Function.update_of_ne hne _ _
    · exact h

theorem Frame.setVector (h : Frame gs base vs r r') {index : ℕ} (hi : index % 32 ∈ vs)
    (bytes : VectorBytes) : Frame gs base vs r (r'.setVector index bytes) := by
  refine ⟨h.pc, h.general, h.sp, ?_⟩
  intro k hk
  have hne : k ≠ Fin.ofNat 32 index := by
    rintro rfl
    exact hk hi
  rw [← h.vector k hk]
  exact Function.update_of_ne hne _ _

/-- A loop that stays inside a frame. -/
theorem Frame.foldl {β : Type*} {f : GMMemoryRegisters → β → GMMemoryRegisters} {l : List β}
    (hf : ∀ b ∈ l, ∀ r', Frame gs base vs r r' → Frame gs base vs r (f r' b))
    (h : Frame gs base vs r r') : Frame gs base vs r (l.foldl f r') := by
  induction l generalizing r' with
  | nil => exact h
  | cons b l ih =>
      rw [List.foldl_cons]
      exact ih (fun b' hb' => hf b' (List.mem_cons_of_mem _ hb')) (hf b List.mem_cons_self r' h)

theorem Frame.loadElements {t : Structure} {vectorBytes : ℕ} {bytes : Buffer}
    {l : List (ℕ × ℕ)} (hl : ∀ e ∈ l, e.1 % 32 ∈ vs) (offset : ℕ)
    (h : Frame gs base vs r r') :
    Frame gs base vs r (loadElements t vectorBytes bytes l offset r') := by
  induction l generalizing offset r' with
  | nil => exact h
  | cons e l ih =>
      obtain ⟨index, position⟩ := e
      rw [Tolkara.loadElements]
      exact ih (fun e' he' => hl e' (List.mem_cons_of_mem _ he')) _
        (h.setVector (hl (index, position) List.mem_cons_self) _)

end GMMemoryRegisters

open GMMemoryRegisters

/-! ## The families -/

/-- A field cut by a mask of ones. -/
theorem field_eq (i : BitVec 32) (low bits : ℕ) :
    field i low (2 ^ bits - 1) = i.toNat >>> low % 2 ^ bits :=
  Nat.and_two_pow_sub_one_eq_mod _ _

theorem field_mod_two (i : BitVec 32) (low : ℕ) : field i low 7 % 2 = field i low 1 := by
  have h3 : field i low 7 = i.toNat >>> low % 8 := field_eq i low 3
  have h1 : field i low 1 = i.toNat >>> low % 2 := field_eq i low 1
  omega

theorem getLsbD_of_field (i : BitVec 32) (low : ℕ) :
    i.getLsbD low = (field i low 3 % 2 == 1) := by
  have h2 : field i low 3 = i.toNat >>> low % 4 := field_eq i low 2
  have hmod : field i low 3 % 2 = i.toNat >>> low % 2 := by
    rw [h2]
    exact Nat.mod_mod_of_dvd _ (by decide)
  rw [BitVec.getLsbD, Nat.testBit_eq_decide_div_mod_eq, hmod, Nat.shiftRight_eq_div_pow]
  rfl

theorem structureOf_count {i : BitVec 32} {t : Structure} (h : structureOf i = some t) :
    t.registers * t.repeats = structureCount i := by
  unfold structureOf at h
  dsimp only at h
  rw [Option.ite_none_left_eq_some] at h
  replace h := h.2
  unfold structureCount
  split at h
  · rename_i hsingle
    rw [if_pos hsingle, ← field_mod_two]
    unfold singleStructure at h
    dsimp only at h
    repeat' split at h
    all_goals first | contradiction | (cases h; exact Nat.mul_one _)
  · rename_i hsingle
    rw [if_neg hsingle]
    unfold multipleStructure at h
    dsimp only at h
    generalize field i 12 15 = opcode at h ⊢
    split at h
    · cases h
    split at h
    · cases h
    · rename_i registers repeats hshape
      split at h
      · cases h
      cases h
      dsimp only
      split at hshape <;> first | contradiction | (cases hshape; rfl)

/-- The elements of a structure access lie in the registers it names. -/
theorem elements_index {t : Structure} {rt lanes : ℕ} {single : Bool} {e : ℕ × ℕ}
    (he : e ∈ elements t rt lanes single) :
    ∃ n < t.registers * t.repeats, e.1 = (rt + n) % 32 := by
  unfold elements at he
  simp only [List.mem_flatMap, List.mem_map, List.mem_range] at he
  obtain ⟨rep, hrep, lane, -, reg, hreg, rfl⟩ := he
  refine ⟨rep * t.registers + reg, ?_, ?_⟩
  · calc rep * t.registers + reg < (rep + 1) * t.registers := by rw [Nat.succ_mul]; omega
      _ ≤ t.repeats * t.registers := Nat.mul_le_mul_right _ hrep
      _ = t.registers * t.repeats := Nat.mul_comm _ _
  · rw [← Nat.add_assoc]

/-- What a step that succeeds leaves in the registers, before the program counter moves. -/
def Stepped.Within (e : Stepped) (i : BitVec 32) (r : GMMemoryRegisters) : Prop :=
  e.step = .ok → ∃ r', Frame (generalDestinations i) (writtenBase i) (vectorDestinations i) r r' ∧
    e.registers = r'.next

/-- The form in which all the instructions end. -/
theorem within_ite {i : BitVec 32} {s s' : Space} {r r' : GMMemoryRegisters}
    {result fault fault' : GMResult}
    (h : Frame (generalDestinations i) (writtenBase i) (vectorDestinations i) r r') :
    (if result ≠ .ok then (⟨.fault, fault, r, s⟩ : Stepped)
      else ⟨.ok, fault', r'.next, s'⟩).Within i r := by
  split
  · intro hstep
    cases hstep
  · exact fun _ => ⟨r', h, rfl⟩

theorem structureStep_within {i : BitVec 32} (hi : IsStructure i) (s : Space)
    (r : GMMemoryRegisters) (fault : GMResult) : (structureStep s i r fault).Within i r := by
  unfold structureStep
  dsimp only
  cases ht : structureOf i with
  | none =>
      intro hstep
      cases hstep
  | some t =>
      -- The end of both directions: the base moves behind the structure.
      have hback : ∀ {r' : GMMemoryRegisters} (v : BitVec 64),
          Frame (generalDestinations i) (writtenBase i) (vectorDestinations i) r r' →
            Frame (generalDestinations i) (writtenBase i) (vectorDestinations i) r
              (if i.getLsbD 23 then r'.setBase (field i 5 31) v else r') := by
        intro r' v h
        split
        · rename_i hpost
          exact h.setBase (by rw [writtenBase, if_pos hi, if_pos hpost]) v
        · exact h
      by_cases hload : i.getLsbD 22 = true
      · simp only [if_pos hload]
        have hnamed : ∀ n < t.registers * t.repeats,
            (field i 0 31 + n) % 32 ∈ vectorDestinations i := by
          intro n hn
          rw [vectorDestinations, if_pos hi, if_pos hload, ← structureOf_count ht]
          exact List.mem_map.2 ⟨n, List.mem_range.2 hn, rfl⟩
        refine within_ite (hback _ (Frame.loadElements ?_ 0 ?_))
        · intro e he
          obtain ⟨n, hn, heq⟩ := elements_index he
          rw [heq, Nat.mod_mod]
          exact hnamed n hn
        · split
          · refine Frame.foldl ?_ (Frame.refl ..)
            intro n hn r' hr'
            exact hr'.setVector (hnamed n (List.mem_range.1 hn)) _
          · exact Frame.refl ..
      · simp only [if_neg hload]
        exact within_ite (hback _ (Frame.refl ..))

theorem atomicStep_within {i : BitVec 32} (hs : ¬ IsStructure i) (hi : IsAtomic i) (s : Space)
    (r : GMMemoryRegisters) (fault : GMResult) : (atomicStep s i r fault).Within i r := by
  have hrefl := Frame.refl (generalDestinations i) (writtenBase i) (vectorDestinations i) r
  have hno : ∀ (result : GMResult), Stepped.Within ⟨.unsupported, result, r, s⟩ i r := by
    intro result hstep
    cases hstep
  have hg : generalDestinations i = if IsCasp i then [field i 16 31, field i 16 31 + 1]
      else if IsCas i then [field i 16 31] else [field i 0 31] := by
    unfold generalDestinations
    rw [if_neg hs, if_pos hi]
  unfold atomicStep
  dsimp only
  split
  · rename_i hcasp
    rw [if_pos hcasp] at hg
    split
    · exact hno _
    · refine within_ite ((hrefl.set ?_ _).set ?_ _)
      · rw [hg]
        exact List.mem_cons_self
      · rw [hg]
        exact List.mem_cons_of_mem _ List.mem_cons_self
  rename_i hcasp
  rw [if_neg hcasp] at hg
  split
  · rename_i hcas
    rw [if_pos hcas] at hg
    refine within_ite (hrefl.set ?_ _)
    rw [hg]
    exact List.mem_cons_self
  rename_i hcas
  rw [if_neg hcas] at hg
  split
  · split
    · exact hno _
    · refine within_ite (hrefl.set ?_ _)
      rw [hg]
      exact List.mem_cons_self
  · exact hno _

/-- The end of `gm_memory_step`, for an access that stays inside a frame. -/
theorem perform_within {d : Access} {i : BitVec 32} {s : Space} {rn : ℕ} {r : GMMemoryRegisters}
    (hgeneral : d.load = true → d.vector = false → ∀ part < (if d.pair then 2 else 1),
      d.index part ∈ generalDestinations i)
    (hvector : d.load = true → d.vector = true → ∀ part < (if d.pair then 2 else 1),
      d.index part % 32 ∈ vectorDestinations i)
    (hbase : d.writeback = true → writtenBase i = some rn) : (d.perform s rn r).Within i r := by
  have hback : ∀ {r' : GMMemoryRegisters},
      Frame (generalDestinations i) (writtenBase i) (vectorDestinations i) r r' →
        Frame (generalDestinations i) (writtenBase i) (vectorDestinations i) r
          (if d.writeback then r'.setBase rn d.newbase else r') := by
    intro r' h
    split
    · rename_i hw
      exact h.setBase (hbase hw) _
    · exact h
  unfold Access.perform
  dsimp only
  split
  · rename_i hload
    refine within_ite (hback (Frame.foldl ?_ (Frame.refl ..)))
    intro part hpart r' hr'
    rw [List.mem_range] at hpart
    unfold Access.loadPart
    split
    · rename_i hv
      exact hr'.setVector (hvector hload hv part hpart) _
    · rename_i hv
      exact hr'.set (hgeneral hload (by simpa using hv) part hpart) _
  · exact within_ite (hback (Frame.refl ..))

theorem orderedAccess_parts {i : BitVec 32} {r : GMMemoryRegisters} {d : Access}
    (h : orderedAccess i r = some d) :
    d.pair = false ∧ d.writeback = false ∧ d.vector = i.getLsbD 26 ∧ d.rt = field i 0 31 := by
  unfold orderedAccess at h
  dsimp only at h
  split at h
  · cases h
  · cases h
    exact ⟨rfl, rfl, rfl, rfl⟩

theorem singleAccess_parts {i : BitVec 32} {r : GMMemoryRegisters} {d : Access}
    (h : singleAccess i r = some d) :
    d.pair = false ∧ d.vector = i.getLsbD 26 ∧ d.rt = field i 0 31 ∧
      d.load = (if i.getLsbD 26 then i.getLsbD 22 else field i 22 3 != 0) ∧
      (d.writeback = true →
        i.getLsbD 24 = false ∧ i.getLsbD 21 = false ∧ i.getLsbD 10 = true) := by
  rw [getLsbD_of_field i 22, getLsbD_of_field i 10]
  unfold singleAccess at h
  dsimp only at h
  rw [Option.ite_none_left_eq_some, Option.ite_none_left_eq_some] at h
  replace h := h.2.2
  split at h
  · cases h
    exact ⟨rfl, rfl, rfl, rfl, nofun⟩
  rename_i h24
  split at h
  · rw [Option.ite_none_left_eq_some] at h
    cases h.2
    exact ⟨rfl, rfl, rfl, rfl, nofun⟩
  rename_i h21
  rw [Option.ite_none_left_eq_some, Option.ite_none_left_eq_some] at h
  cases h.2.2
  refine ⟨rfl, rfl, rfl, rfl, ?_⟩
  intro hw
  have hmode : field i 10 3 = 1 ∨ field i 10 3 = 3 := by simpa using hw
  refine ⟨by simpa using h24, by simpa using h21, ?_⟩
  rcases hmode with hmode | hmode <;> rw [hmode] <;> rfl

theorem pairAccess_parts {i : BitVec 32} {r : GMMemoryRegisters} {d : Access}
    (h : pairAccess i r = some d) :
    d.pair = true ∧ d.vector = i.getLsbD 26 ∧ d.rt = field i 0 31 ∧ d.rt2 = field i 10 31 ∧
      d.load = i.getLsbD 22 ∧ (d.writeback = true → i.getLsbD 23 = true) := by
  rw [getLsbD_of_field i 23]
  unfold pairAccess at h
  dsimp only at h
  split at h
  · cases h
  rw [Option.ite_none_left_eq_some, Option.ite_none_left_eq_some] at h
  cases h.2.2
  refine ⟨rfl, rfl, rfl, rfl, rfl, ?_⟩
  intro hw
  have hmode : field i 23 3 = 1 ∨ field i 23 3 = 3 := by simpa using hw
  rcases hmode with hmode | hmode <;> rw [hmode] <;> rfl

theorem field_lt (i : BitVec 32) (low : ℕ) : field i low 31 < 32 := by
  have h : field i low 31 = i.toNat >>> low % 32 := field_eq i low 5
  omega

section

variable {s : Space} {i : BitVec 32} {r : GMMemoryRegisters} {d : Access}

/-- LDAR, STLR and LDAPR: one general register, no writeback. -/
theorem orderedAccess_within (hs' : ¬ IsStructure i) (hatomic' : ¬ IsAtomic i)
    (hordered : IsRcpc i ∨ IsOrdered i) (hd : orderedAccess i r = some d) :
    (d.perform s (field i 5 31) r).Within i r := by
  obtain ⟨hpair, hback, hvector, hrt⟩ := orderedAccess_parts hd
  have hbit : i.getLsbD 26 = false := by
    cases hbit : i.getLsbD 26 with
    | false => rfl
    | true =>
        have hmask := (mask_bit (by decide)).1 hbit
        rcases hordered with h | h
        · exact absurd hmask (mask_ne h (by decide))
        · exact absurd hmask (mask_ne h (by decide))
  refine perform_within ?_ ?_ ?_
  · intro hload _ part hpart
    rw [hpair] at hpart
    obtain rfl : part = 0 := by simpa using hpart
    rw [orderedAccess_load hd] at hload
    unfold generalDestinations
    rw [if_neg hs', if_neg hatomic']
    by_cases hr : IsRcpc i
    · rw [if_pos hr]
      simp [Access.index, hrt]
    · rw [if_neg hr, if_pos (hordered.resolve_left hr), if_pos (by simpa [hr] using hload)]
      simp [Access.index, hrt]
  · intro _ hv
    rw [hvector, hbit] at hv
    cases hv
  · intro hw
    rw [hback] at hw
    cases hw

theorem singleAccess_within (hs' : ¬ IsStructure i) (hatomic' : ¬ IsAtomic i)
    (hordered' : ¬ IsRcpc i ∧ ¬ IsOrdered i) (hsingle : IsSingle i)
    (hd : singleAccess i r = some d) : (d.perform s (field i 5 31) r).Within i r := by
  obtain ⟨hpair, hvector, hrt, hload, hback⟩ := singleAccess_parts hd
  have hpart : ∀ part < (if d.pair then 2 else 1), d.index part = field i 0 31 := by
    intro part hp
    rw [hpair] at hp
    obtain rfl : part = 0 := by simpa using hp
    rw [← hrt]
    rfl
  refine perform_within ?_ ?_ ?_
  · intro hl hv part hp
    rw [hpart part hp]
    rw [hvector] at hv
    rw [hl, hv] at hload
    unfold generalDestinations
    rw [if_neg hs', if_neg hatomic', if_neg hordered'.1, if_neg hordered'.2,
      if_neg (by rw [hv]; exact Bool.false_ne_true), if_pos hsingle, if_neg (by simpa using hload.symm)]
    exact List.mem_cons_self
  · intro hl hv part hp
    rw [hpart part hp, Nat.mod_eq_of_lt (field_lt i 0)]
    rw [hvector] at hv
    rw [hl, if_pos hv] at hload
    unfold vectorDestinations
    rw [if_neg hs', if_neg (by simp [hv, ← hload]), if_pos hsingle]
    exact List.mem_cons_self
  · intro hw
    unfold writtenBase
    rw [if_neg hs', if_neg (by tauto), if_pos hsingle, if_pos (hback hw)]

theorem pairAccess_within (hs' : ¬ IsStructure i) (hatomic' : ¬ IsAtomic i)
    (hordered' : ¬ IsRcpc i ∧ ¬ IsOrdered i) (hsingle : ¬ IsSingle i)
    (hd : pairAccess i r = some d) : (d.perform s (field i 5 31) r).Within i r := by
  obtain ⟨-, hvector, hrt, hrt2, hload, hback⟩ := pairAccess_parts hd
  have hpart : ∀ part, d.index part ∈ [field i 0 31, field i 10 31] := by
    intro part
    unfold Access.index
    split
    · rw [hrt]
      exact List.mem_cons_self
    · rw [hrt2]
      exact List.mem_cons_of_mem _ List.mem_cons_self
  refine perform_within ?_ ?_ ?_
  · intro hl hv part _
    rw [hvector] at hv
    rw [hl] at hload
    unfold generalDestinations
    rw [if_neg hs', if_neg hatomic', if_neg hordered'.1, if_neg hordered'.2,
      if_neg (by rw [hv]; exact Bool.false_ne_true), if_neg hsingle, if_pos hload.symm]
    exact hpart part
  · intro hl hv part _
    rw [hvector] at hv
    rw [hl] at hload
    have hlt : d.index part < 32 := by
      rcases List.mem_pair.1 (hpart part) with h | h <;> rw [h] <;> exact field_lt _ _
    unfold vectorDestinations
    rw [Nat.mod_eq_of_lt hlt, if_neg hs', if_neg (by simp [hv, ← hload]), if_neg hsingle]
    exact hpart part
  · intro hw
    unfold writtenBase
    rw [if_neg hs', if_neg (by tauto), if_neg hsingle, if_pos (hback hw)]

end

theorem gmMemoryStep_within (s : Space) (i : BitVec 32) (r : GMMemoryRegisters)
    (fault : GMResult) : (gmMemoryStep s i r fault).Within i r := by
  have hno : ∀ (step : GMMemoryStep) (result : GMResult), step ≠ .ok →
      Stepped.Within ⟨step, result, r, s⟩ i r := fun step result h hstep => absurd hstep h
  unfold gmMemoryStep
  dsimp only
  split
  · exact hno _ _ nofun
  split
  · rename_i hs
    exact structureStep_within hs s r fault
  rename_i hs
  have hs' : ¬ IsStructure i := hs
  split
  · rename_i hatomic
    exact atomicStep_within hs' hatomic s r fault
  rename_i hatomic
  have hatomic' : ¬ IsAtomic i := hatomic
  split
  · rename_i hordered
    cases hd : orderedAccess i r with
    | none => exact hno _ _ nofun
    | some d => exact orderedAccess_within hs' hatomic' hordered hd
  rename_i hordered
  have hordered' := not_or.1 hordered
  by_cases hsingle : IsSingle i
  · rw [if_pos hsingle]
    cases hd : singleAccess i r with
    | none => exact hno _ _ nofun
    | some d => exact singleAccess_within hs' hatomic' hordered' hsingle hd
  · rw [if_neg hsingle]
    by_cases hpair : IsPair i
    · rw [if_pos hpair]
      cases hd : pairAccess i r with
      | none => exact hno _ _ nofun
      | some d => exact pairAccess_within hs' hatomic' hordered' hsingle hd
    · rw [if_neg hpair]
      exact hno _ _ nofun

/-! ## What a step writes -/

/-- The program counter moves on by one instruction, and outside the destinations and the
base register that is written back no register changes. -/
structure GMMemoryRegisters.RetiredWithin (i : BitVec 32) (r r' : GMMemoryRegisters) : Prop where
  pc : r'.pc.toNat = r.pc.toNat + 4
  general : ∀ k : Fin 31, k.val ∉ generalDestinations i → writtenBase i ≠ some k.val →
    r'.x k = r.x k
  sp : writtenBase i ≠ some 31 → r'.sp = r.sp
  vector : ∀ k : Fin 32, k.val ∉ vectorDestinations i → r'.vector k = r.vector k

theorem pc_of_gmMemoryStep {s : Space} {i : BitVec 32} {r : GMMemoryRegisters}
    {fault : GMResult} (h : (gmMemoryStep s i r fault).step = .ok) :
    r.pc.toNat ≤ uint64Max - 4 := by
  by_contra hlt
  unfold gmMemoryStep at h
  dsimp only at h
  rw [if_pos (Or.inl (by omega))] at h
  cases h

/-- A step that does not succeed changes nothing; one that does changes only its destinations,
the base register it writes back and the program counter. -/
theorem gmMemoryStep_writes (s : Space) (i : BitVec 32) (r : GMMemoryRegisters)
    (fault : GMResult) :
    ((gmMemoryStep s i r fault).step ≠ .ok →
      (gmMemoryStep s i r fault).registers = r ∧ (gmMemoryStep s i r fault).space = s) ∧
    ((gmMemoryStep s i r fault).step = .ok →
      r.RetiredWithin i (gmMemoryStep s i r fault).registers) := by
  constructor
  · intro hno
    exact (gmMemoryStep_refused s i r fault).resolve_left hno
  · intro hok
    obtain ⟨r', hframe, heq⟩ := gmMemoryStep_within s i r fault hok
    have hpc := pc_of_gmMemoryStep hok
    rw [heq]
    refine ⟨?_, hframe.general, hframe.sp, hframe.vector⟩
    change (r'.pc + 4#64).toNat = r.pc.toNat + 4
    rw [hframe.pc, BitVec.toNat_add_of_lt]
    · rfl
    · unfold uint64Max at hpc
      change r.pc.toNat + 4 < 2 ^ 64
      omega

end Tolkara
