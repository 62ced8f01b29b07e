import Tolkara.Cpu.Destinations
import Tolkara.Memory.Agreement
import Tolkara.Memory.Words

/-!
# A load undoes a store

Every store has a load that differs in the load bit alone. `loadOf_undoes` runs
it behind the store, with the base and the index register as they were: where
the stored range may be read, each destination register gets back the bytes the
store took from it. What a store takes is `storedPart`, the range it goes to is
`storedRange`; `Holds` is what the elements of a vector structure share between
the registers and the buffer.
-/

namespace Tolkara

open GMMemoryRegisters

/-! ## Stores and their loads -/

def loadOf (i : BitVec 32) : BitVec 32 := i ||| 0x00400000#32

/-- A store: the load bit is clear, and the encoding is none of those that load without it. -/
def IsStore (i : BitVec 32) : Prop :=
  ¬ IsAtomic i ∧ ¬ IsRcpc i ∧ i.getLsbD 22 = false ∧
    (IsSingle i → i.getLsbD 26 = false → field i 22 3 = 0)

instance (i : BitVec 32) : Decidable (IsStore i) := inferInstanceAs (Decidable (_ ∧ _))

/-- The bytes a store takes from each of its registers: the first one and how many. -/
def storedPart (i : BitVec 32) : ℕ × ℕ :=
  let scale := field i 30 3
  if IsStructure i then
    match structureOf i with
    | none => (0, 0)
    | some t =>
      if i.getLsbD 24 then (t.lane * t.element, t.element)
      else (0, if field i 30 1 = 1 then 16 else 8)
  else if IsOrdered i then (0, 2 ^ scale)
  else if IsSingle i then
    (0, if i.getLsbD 26 = true ∧ field i 22 3 ≥ 2 then 16 else 2 ^ scale)
  else (0, if i.getLsbD 26 then 4 * 2 ^ scale else if scale = 0 then 4 else 8)

/-- The registers a store takes its bytes from, counted. -/
def storedCount (i : BitVec 32) : ℕ :=
  if IsStructure i then structureCount i
  else if IsOrdered i ∨ IsSingle i then 1
  else 2

def plainOf (i : BitVec 32) (r : GMMemoryRegisters) : Option Access :=
  if IsOrdered i then orderedAccess i r
  else if IsSingle i then singleAccess i r
  else if IsPair i then pairAccess i r
  else none

/-- Where the bytes of a store go, and how many there are. -/
def storedRange (i : BitVec 32) (r : GMMemoryRegisters) : Option (ℕ × ℕ) :=
  let address :=
    if IsStructure i then some (r.get (field i 5 31) true) else (plainOf i r).map Access.address
  address.map fun a => (a.toNat, storedCount i * (storedPart i).2)

def indexRegister (i : BitVec 32) : Option ℕ :=
  if IsSingle i ∧ i.getLsbD 24 = false ∧ i.getLsbD 21 = true then some (field i 16 31) else none

/-- The registers that decide the address of `i` are the same. -/
structure Restored (i : BitVec 32) (r r' : GMMemoryRegisters) : Prop where
  base : r'.get (field i 5 31) true = r.get (field i 5 31) true
  index : ∀ k, indexRegister i = some k → r'.get k false = r.get k false

/-- The program counter is one from which an instruction can be executed. -/
def GMMemoryRegisters.AtInstruction (r : GMMemoryRegisters) : Prop :=
  r.pc.toNat ≤ uint64Max - 4 ∧ r.pc &&& 3#64 = 0#64

/-- Every destination of the load has the bytes the store took from it: the rest of a general
register is zero, and so is the rest of a vector register unless a single lane was loaded. -/
structure Reloaded (i : BitVec 32) (r r' r'' : GMMemoryRegisters) : Prop where
  general : ∀ k ∈ generalDestinations (loadOf i),
    (r''.get k false).toNat = (r.get k false).toNat % 256 ^ (storedPart i).2
  vector : ∀ k : Fin 32, k.val ∈ vectorDestinations (loadOf i) → ∀ p,
    r''.vector k p =
      if (storedPart i).1 ≤ p ∧ p < (storedPart i).1 + (storedPart i).2 then r.vector k p
      else if IsStructure i ∧ i.getLsbD 24 = true then r'.vector k p
      else 0

/-- How the load ends that was carried out behind the store: with a program counter it can be
executed from it goes through exactly where the stored range may be read, and then it puts the
bytes back. -/
def Undone (s : Space) (i : BitVec 32) (r r' : GMMemoryRegisters) (e : Stepped) : Prop :=
  ∃ a n, storedRange i r = some (a, n) ∧
    (e.step = .ok ↔ r'.AtInstruction ∧ s.Permits GM.READ a n) ∧
    (e.step = .ok → Reloaded i r r' e.registers)

/-! ## The load bit -/

theorem field_loadOf (i : BitVec 32) {low mask : ℕ} (h : 0x00400000 >>> low &&& mask = 0) :
    field (loadOf i) low mask = field i low mask := by
  unfold field loadOf
  rw [BitVec.toNat_or, Nat.shiftRight_or_distrib, Nat.and_or_distrib_right]
  have hbit : (0x00400000#32).toNat >>> low &&& mask = 0 := h
  rw [hbit, Nat.or_zero]

theorem getLsbD_loadOf (i : BitVec 32) {k : ℕ} (hk : k ≠ 22) :
    (loadOf i).getLsbD k = i.getLsbD k := by
  have hbit : (0x00400000#32) = BitVec.twoPow 32 22 := by decide
  rw [loadOf, hbit, BitVec.getLsbD_or, BitVec.getLsbD_twoPow]
  simp [Ne.symm hk]

theorem getLsbD_loadOf_self (i : BitVec 32) : (loadOf i).getLsbD 22 = true := by
  unfold loadOf
  rw [BitVec.getLsbD_or]
  exact Bool.or_true _

theorem mask_loadOf (i : BitVec 32) {m : BitVec 32} (h : 0x00400000#32 &&& m = 0#32) :
    loadOf i &&& m = i &&& m := by
  unfold loadOf
  rw [BitVec.and_comm, BitVec.and_or_distrib_left, BitVec.and_comm m, BitVec.and_comm m, h,
    BitVec.or_zero]

theorem isStructure_loadOf (i : BitVec 32) : IsStructure (loadOf i) ↔ IsStructure i := by
  unfold IsStructure
  rw [mask_loadOf i (by decide)]

theorem isOrdered_loadOf (i : BitVec 32) : IsOrdered (loadOf i) ↔ IsOrdered i := by
  unfold IsOrdered
  rw [mask_loadOf i (by decide)]

theorem isSingle_loadOf (i : BitVec 32) : IsSingle (loadOf i) ↔ IsSingle i := by
  unfold IsSingle
  rw [mask_loadOf i (by decide)]

theorem isPair_loadOf (i : BitVec 32) : IsPair (loadOf i) ↔ IsPair i := by
  unfold IsPair
  rw [mask_loadOf i (by decide)]

theorem not_isRcpc_loadOf (i : BitVec 32) : ¬ IsRcpc (loadOf i) := by
  intro h
  have hbit := (mask_bit (by decide)).1 (getLsbD_loadOf_self i)
  exact mask_ne h (by decide) hbit

theorem IsStore.not_isAtomic_loadOf {i : BitVec 32} (h : IsStore i) : ¬ IsAtomic (loadOf i) := by
  rintro ⟨-, hat⟩
  apply h.1
  refine ⟨h.2.1, ?_⟩
  unfold IsCasp IsCas IsUpdate at hat ⊢
  rwa [mask_loadOf i (by decide), mask_loadOf i (by decide), mask_loadOf i (by decide)] at hat

/-! ## Reading back -/

namespace Space

theorem read_back {s : Space} (h : s.Inv) {a n : ℕ} {buffer : Buffer}
    (hok : (s.gmSparseWrite a (some buffer) n).1 = .ok) (buffer' : Buffer) :
    s.Contains a n ∧
      (((s.gmSparseWrite a (some buffer) n).2.gmSparseRead a (some buffer') n).1 = .ok ↔
        s.Permits GM.READ a n) ∧
      (s.Permits GM.READ a n →
        ((s.gmSparseWrite a (some buffer) n).2.gmSparseRead a (some buffer') n).2 =
          (List.range n).map buffer) := by
  have hin : s.Contains a n := by
    unfold gmSparseWrite at hok
    rcases accessLocked_write h a buffer n with ⟨heq, -⟩ | ⟨heq, -⟩ | ⟨s', -, hok', -⟩
    · rw [heq] at hok
      exact (cover_of_checkAccess h hok).1
    · rw [heq] at hok
      cases hok
    · exact (cover_of_checkAccess h hok').1
  refine ⟨hin, ?_⟩
  unfold gmSparseWrite at hok ⊢
  unfold gmSparseRead
  simp only [accessLocked_read]
  rcases accessLocked_write h a buffer n with ⟨heq, hno⟩ | ⟨heq, -⟩ | ⟨s', heq, hok', -, -, hw⟩
  · rw [heq] at hok ⊢
    obtain rfl : n = 0 := hno.resolve_left (not_not.2 hok)
    refine ⟨(checkAccess_ok_iff h).trans (and_iff_right hin), ?_⟩
    intro hread
    rw [if_pos ((checkAccess_ok_iff h).2 ⟨hin, hread⟩)]
    rfl
  · rw [heq] at hok
    cases hok
  · rw [heq]
    have hin' : s'.Contains a n := by
      unfold Contains at hin ⊢
      rwa [hw.arena.base, hw.arena.stop]
    have hread : s'.Permits GM.READ a n ↔ s.Permits GM.READ a n := by
      unfold Permits
      rw [hw.regions]
    refine ⟨((checkAccess_ok_iff hw.inv).trans (and_iff_right hin')).trans hread, ?_⟩
    intro hr
    rw [if_pos ((checkAccess_ok_iff hw.inv).2 ⟨hin', hread.2 hr⟩)]
    apply List.map_congr_left
    intro x hx
    rw [List.mem_range] at hx
    obtain ⟨t, ht, -⟩ := (cover_of_checkAccess h hok').2 (a + x) (by omega) (by omega)
    rw [hw.byte h (by simp [ht]), if_pos ⟨by omega, by omega⟩, Nat.add_sub_cancel_left]

end Space

/-! ## Vector structures -/

/-- The elements lie in the buffer one after the other, with the bytes `v` has for them. -/
def Holds (v : ℕ → VectorBytes) (element : ℕ) : List (ℕ × ℕ) → ℕ → Buffer → Prop
  | [], _, _ => True
  | (index, position) :: rest, offset, bytes =>
    (∀ j < element, bytes (offset + j) = v index (position + j)) ∧
      Holds v element rest (offset + element) bytes

theorem Holds.congr {v : ℕ → VectorBytes} {element : ℕ} {l : List (ℕ × ℕ)} {offset : ℕ}
    {bytes bytes' : Buffer} (h : Holds v element l offset bytes)
    (hsame : ∀ x, offset ≤ x → x < offset + l.length * element → bytes' x = bytes x) :
    Holds v element l offset bytes' := by
  induction l generalizing offset with
  | nil => trivial
  | cons e l ih =>
      have hlen : (e :: l).length * element = element + l.length * element := by
        rw [List.length_cons, Nat.succ_mul, Nat.add_comm]
      rw [hlen] at hsame
      obtain ⟨hhead, htail⟩ := h
      refine ⟨?_, ih htail ?_⟩
      · intro j hj
        rw [hsame _ (by omega) (by omega)]
        exact hhead j hj
      · intro x h1 h2
        exact hsame x (by omega) (by omega)

theorem storeElements_before (t : Structure) (r : GMMemoryRegisters) (l : List (ℕ × ℕ))
    (offset : ℕ) (bytes : Buffer) {x : ℕ} (hx : x < offset) :
    storeElements t r l offset bytes x = bytes x := by
  induction l generalizing offset bytes with
  | nil => rfl
  | cons e l ih =>
      rw [storeElements, ih _ _ (by omega), copyInto, if_neg (by omega)]

theorem storeElements_holds (t : Structure) (r : GMMemoryRegisters) (l : List (ℕ × ℕ))
    (offset : ℕ) (bytes : Buffer) :
    Holds r.vectorAt t.element l offset (storeElements t r l offset bytes) := by
  induction l generalizing offset bytes with
  | nil => trivial
  | cons e l ih =>
      refine ⟨?_, ih _ _⟩
      intro j hj
      rw [storeElements, storeElements_before t r l _ _ (by omega), copyInto,
        if_pos ⟨by omega, by omega⟩, Nat.add_sub_cancel_left]

/-- A load spreads them: what it writes is what the elements hold. -/
theorem loadElements_vector {t : Structure} (ht : t.replicate = false) (vectorBytes : ℕ)
    {v : Fin 32 → VectorBytes} {bytes : Buffer} {l : List (ℕ × ℕ)} {offset : ℕ}
    (h : Holds (fun index => v (Fin.ofNat 32 index)) t.element l offset bytes)
    (r : GMMemoryRegisters) (k : Fin 32) (p : ℕ) :
    (Covered t.element l k p →
      (loadElements t vectorBytes bytes l offset r).vector k p = v k p) ∧
    (¬ Covered t.element l k p →
      (loadElements t vectorBytes bytes l offset r).vector k p = r.vector k p) := by
  induction l generalizing offset r with
  | nil =>
      refine ⟨?_, fun _ => rfl⟩
      rintro ⟨_, he, _⟩
      exact absurd he List.not_mem_nil
  | cons e l ih =>
      obtain ⟨index, position⟩ := e
      obtain ⟨hhead, htail⟩ := h
      rw [loadElements]
      simp only [ht, Bool.false_eq_true, if_false]
      generalize hr₁ : r.setVector index
        (copyInto (r.vectorAt index) position bytes offset t.element) = r₁
      obtain ⟨hin, hout⟩ := ih htail r₁
      -- The first element alone.
      have hfirst : r₁.vector k p =
          if Fin.ofNat 32 index = k ∧ position ≤ p ∧ p < position + t.element then v k p
          else r.vector k p := by
        rw [← hr₁]
        unfold setVector
        by_cases hk : Fin.ofNat 32 index = k
        · subst hk
          simp only [Function.update_self, true_and]
          rw [copyInto]
          split
          · rename_i hp
            obtain ⟨j, rfl⟩ := Nat.exists_eq_add_of_le hp.1
            rw [Nat.add_sub_cancel_left]
            exact hhead j (by omega)
          · rfl
        · simp only [Function.update_of_ne (Ne.symm hk), hk, false_and, if_false]
      constructor
      · rintro ⟨e, he, hk, hp⟩
        by_cases hlater : Covered t.element l k p
        · exact hin hlater
        · rcases List.mem_cons.1 he with rfl | he
          · rw [hout hlater, hfirst, if_pos ⟨hk, hp⟩]
          · exact absurd ⟨e, he, hk, hp⟩ hlater
      · intro hno
        have hlater : ¬ Covered t.element l k p := by
          rintro ⟨e, he, h⟩
          exact hno ⟨e, List.mem_cons_of_mem _ he, h⟩
        rw [hout hlater, hfirst, if_neg]
        exact fun h => hno ⟨(index, position), List.mem_cons_self, h⟩

theorem length_elements (t : Structure) (rt lanes : ℕ) (single : Bool) :
    (elements t rt lanes single).length = t.repeats * (lanes * t.registers) := by
  unfold elements
  simp [List.length_flatMap]

/-- The bytes of the registers that a structure access moves. -/
theorem covered_elements {t : Structure} {rt lanes : ℕ} {single : Bool} (helement : 0 < t.element)
    (k : Fin 32) (p : ℕ) :
    Covered t.element (elements t rt lanes single) k p ↔
      (∃ n < t.registers * t.repeats, (rt + n) % 32 = k.val) ∧
        (if single then t.lane * t.element ≤ p ∧ p < t.lane * t.element + t.element ∧ 0 < lanes
          else p < lanes * t.element) := by
  unfold Covered
  constructor
  · rintro ⟨e, he, hk, hp⟩
    constructor
    · obtain ⟨n, hn, heq⟩ := elements_index he
      refine ⟨n, hn, ?_⟩
      rw [← hk, heq]
      exact (Nat.mod_mod _ _).symm
    · simp only [elements, List.mem_flatMap, List.mem_map, List.mem_range] at he
      obtain ⟨rep, hrep, lane, hlane, reg, hreg, rfl⟩ := he
      cases single with
      | true => exact ⟨hp.1, hp.2, by omega⟩
      | false =>
          calc p < (lane + 1) * t.element := by rw [Nat.succ_mul]; exact hp.2
            _ ≤ lanes * t.element := Nat.mul_le_mul_right _ hlane
  · rintro ⟨⟨n, hn, hk⟩, hp⟩
    have hregisters : 0 < t.registers := by
      refine Nat.pos_of_ne_zero ?_
      intro h0
      rw [h0, Nat.zero_mul] at hn
      exact Nat.not_lt_zero _ hn
    have hn' : n = n / t.registers * t.registers + n % t.registers :=
      (Nat.div_add_mod' n t.registers).symm
    have hindex : Fin.ofNat 32 ((rt + n / t.registers * t.registers + n % t.registers) % 32) = k := by
      apply Fin.ext
      change (rt + n / t.registers * t.registers + n % t.registers) % 32 % 32 = k.val
      rw [Nat.mod_mod, Nat.add_assoc, ← hn', hk]
    simp only [elements, List.mem_flatMap, List.mem_map, List.mem_range]
    have hrep : n / t.registers < t.repeats := Nat.div_lt_of_lt_mul hn
    have hreg : n % t.registers < t.registers := Nat.mod_lt _ hregisters
    cases single with
    | true => exact ⟨_, ⟨_, hrep, 0, hp.2.2, _, hreg, rfl⟩, hindex, hp.1, hp.2.1⟩
    | false =>
        refine ⟨_, ⟨_, hrep, p / t.element, Nat.div_lt_of_lt_mul ?_, _, hreg, rfl⟩, hindex,
          Nat.div_mul_le_self _ _, ?_⟩
        · rwa [Nat.mul_comm]
        · exact Nat.lt_div_mul_add helement

theorem multipleStructure_shape {i : BitVec 32} {q size : ℕ} {t : Structure}
    (h : multipleStructure i q size = some t) : t.element = 2 ^ size ∧ t.replicate = false := by
  unfold multipleStructure at h
  dsimp only at h
  rw [Option.ite_none_left_eq_some] at h
  replace h := h.2
  split at h
  · cases h
  · rw [Option.ite_none_left_eq_some] at h
    cases h.2
    exact ⟨rfl, rfl⟩

theorem structureOf_loadOf {i : BitVec 32} (hbit : i.getLsbD 22 = false) {t : Structure}
    (h : structureOf i = some t) : structureOf (loadOf i) = some t ∧ t.replicate = false := by
  unfold structureOf at h ⊢
  dsimp only at h ⊢
  rw [mask_loadOf i (by decide), getLsbD_loadOf i (by decide), getLsbD_loadOf i (by decide),
    getLsbD_loadOf_self, field_loadOf i (by decide), field_loadOf i (by decide),
    field_loadOf i (by decide)]
  rw [Option.ite_none_left_eq_some] at h ⊢
  rw [hbit] at h
  obtain ⟨hmask, h⟩ := h
  by_cases hsingle : i.getLsbD 24 = true
  · simp only [if_pos hsingle] at hmask h ⊢
    unfold singleStructure at h ⊢
    rw [field_loadOf i (by decide), field_loadOf i (by decide), field_loadOf i (by decide)]
    dsimp only at h ⊢
    -- A store does not replicate.
    by_cases hscale : field i 13 7 / 2 = 3
    · rw [if_pos hscale, if_pos (Or.inl rfl)] at h
      cases h
    · rw [if_neg hscale] at h ⊢
      refine ⟨⟨hmask, h⟩, ?_⟩
      repeat' split at h
      all_goals first | contradiction | (cases h; rfl)
  · simp only [if_neg hsingle] at hmask h ⊢
    have hsame : ∀ q size, multipleStructure (loadOf i) q size = multipleStructure i q size := by
      intro q size
      unfold multipleStructure
      rw [field_loadOf i (by decide), field_loadOf i (by decide)]
    rw [hsame]
    exact ⟨⟨hmask, h⟩, (multipleStructure_shape h).2⟩

/-- The elements of a whole register fill it. -/
theorem structureOf_element {i : BitVec 32} {t : Structure} (h : structureOf i = some t) :
    0 < t.element ∧ (i.getLsbD 24 = false → ∀ q, q = 8 ∨ q = 16 → q / t.element * t.element = q) := by
  unfold structureOf at h
  dsimp only at h
  rw [Option.ite_none_left_eq_some] at h
  replace h := h.2
  split at h
  · rename_i hsingle
    refine ⟨?_, fun h24 => absurd (hsingle.symm.trans h24) nofun⟩
    unfold singleStructure at h
    dsimp only at h
    repeat' split at h
    all_goals first | contradiction | (cases h; first | exact Nat.two_pow_pos _ | exact Nat.succ_pos _)
  · have hsize : field i 10 3 < 4 := Nat.lt_succ_of_le Nat.and_le_right
    rw [(multipleStructure_shape h).1]
    refine ⟨Nat.two_pow_pos _, fun _ q hq => Nat.div_mul_cancel ?_⟩
    have hdvd : 2 ^ field i 10 3 ∣ 2 ^ 3 := Nat.pow_dvd_pow 2 (by omega)
    rcases hq with rfl | rfl
    · exact hdvd
    · exact hdvd.trans (by decide)

/-- How many elements of each register a structure access moves. -/
def lanesOf (i : BitVec 32) (t : Structure) : ℕ :=
  if i.getLsbD 24 then 1 else (if field i 30 1 = 1 then 16 else 8) / t.element

theorem storedPart_structure {i : BitVec 32} (hi : IsStructure i) {t : Structure}
    (ht : structureOf i = some t) :
    storedPart i = (if i.getLsbD 24 then t.lane * t.element else 0, lanesOf i t * t.element) := by
  unfold storedPart lanesOf
  rw [if_pos hi, ht]
  dsimp only
  by_cases hsingle : i.getLsbD 24 = true
  · rw [if_pos hsingle, if_pos hsingle, if_pos hsingle, Nat.one_mul]
  · rw [if_neg hsingle, if_neg hsingle, if_neg hsingle,
      (structureOf_element ht).2 (by simpa using hsingle)]
    split
    · exact Or.inr rfl
    · exact Or.inl rfl

theorem GMMemoryRegisters.set_vector (r : GMMemoryRegisters) (index : ℕ) (value : BitVec 64) :
    (r.set index value).vector = r.vector := by
  unfold GMMemoryRegisters.set
  split <;> rfl

theorem GMMemoryRegisters.setBase_vector (r : GMMemoryRegisters) (index : ℕ) (value : BitVec 64) :
    (r.setBase index value).vector = r.vector := by
  unfold GMMemoryRegisters.setBase
  split
  · rfl
  · exact r.set_vector index value

def elementsOf (i : BitVec 32) (t : Structure) : List (ℕ × ℕ) :=
  elements t (field i 0 31) (lanesOf i t) (i.getLsbD 24)

/-- How many bytes a structure access moves. -/
def totalOf (i : BitVec 32) (t : Structure) : ℕ :=
  t.registers * t.repeats * lanesOf i t * t.element

/-- The base register behind a structure access at `address`. -/
def movedBase (i : BitVec 32) (t : Structure) (address : BitVec 64) (r : GMMemoryRegisters) :
    GMMemoryRegisters :=
  if i.getLsbD 23 then
    r.setBase (field i 5 31) (address +
      (if field i 16 31 = 31 then BitVec.ofNat 64 (totalOf i t) else r.get (field i 16 31) false))
  else r

theorem movedBase_vector (i : BitVec 32) (t : Structure) (address : BitVec 64)
    (r : GMMemoryRegisters) : (movedBase i t address r).vector = r.vector := by
  unfold movedBase
  split
  · exact r.setBase_vector _ _
  · rfl

theorem structureStep_store (s : Space) {i : BitVec 32} (r : GMMemoryRegisters)
    (fault : GMResult) {t : Structure} (ht : structureOf i = some t)
    (hbit : i.getLsbD 22 = false) :
    structureStep s i r fault =
      let address := r.get (field i 5 31) true
      let answer := s.gmSparseWrite address.toNat
        (some (storeElements t r (elementsOf i t) 0 fun _ => 0)) (totalOf i t)
      if answer.1 ≠ .ok then ⟨.fault, answer.1, r, answer.2⟩
      else ⟨.ok, .ok, (movedBase i t address r).next, answer.2⟩ := by
  unfold structureStep
  rw [ht]
  simp only [hbit, Bool.false_eq_true, if_false]
  rfl

theorem structureStep_load (s : Space) {i : BitVec 32} (r : GMMemoryRegisters)
    (fault : GMResult) {t : Structure} (ht : structureOf i = some t)
    (hbit : i.getLsbD 22 = true) (hreplicate : t.replicate = false) :
    structureStep s i r fault =
      let address := r.get (field i 5 31) true
      let answer := s.gmSparseRead address.toNat (some fun _ => 0) (totalOf i t)
      let cleared :=
        if i.getLsbD 24 = false then
          (List.range (t.registers * t.repeats)).foldl
            (fun r n => r.setVector (field i 0 31 + n) fun _ => 0) r
        else r
      let loaded := loadElements t (if field i 30 1 = 1 then 16 else 8)
        (fun j => answer.2.getD j 0) (elementsOf i t) 0 cleared
      if answer.1 ≠ .ok then ⟨.fault, answer.1, r, s⟩
      else ⟨.ok, .ok, (movedBase i t address loaded).next, s⟩ := by
  unfold structureStep
  rw [ht]
  simp only [hbit, hreplicate, Bool.false_eq_true, or_false, if_true]
  rfl

theorem lanesOf_loadOf (i : BitVec 32) (t : Structure) : lanesOf (loadOf i) t = lanesOf i t := by
  unfold lanesOf
  rw [getLsbD_loadOf i (by decide), field_loadOf i (by decide)]

theorem elementsOf_loadOf (i : BitVec 32) (t : Structure) :
    elementsOf (loadOf i) t = elementsOf i t := by
  unfold elementsOf
  rw [lanesOf_loadOf, getLsbD_loadOf i (by decide), field_loadOf i (by decide)]

theorem totalOf_loadOf (i : BitVec 32) (t : Structure) : totalOf (loadOf i) t = totalOf i t := by
  unfold totalOf
  rw [lanesOf_loadOf]

/-- A loop that establishes a fact in one of its rounds and keeps it in the others. -/
theorem foldl_establishes {β γ : Type*} {f : β → γ → β} (P : β → Prop) (good : γ → Prop)
    {l : List γ} (hset : ∀ c ∈ l, good c → ∀ b, P (f b c)) (hkeep : ∀ c ∈ l, ∀ b, P b → P (f b c))
    {b : β} (h : (∃ c ∈ l, good c) ∨ P b) : P (l.foldl f b) := by
  induction l generalizing b with
  | nil => exact h.resolve_left fun ⟨_, hc, _⟩ => absurd hc List.not_mem_nil
  | cons c l ih =>
      rw [List.foldl_cons]
      apply ih (fun c' hc' => hset c' (List.mem_cons_of_mem _ hc'))
        (fun c' hc' => hkeep c' (List.mem_cons_of_mem _ hc'))
      rcases h with ⟨c', hc', hgood⟩ | hb
      · rcases List.mem_cons.1 hc' with rfl | hc'
        · exact .inr (hset c' List.mem_cons_self hgood b)
        · exact .inl ⟨c', hc', hgood⟩
      · exact .inr (hkeep c List.mem_cons_self b hb)

theorem cleared_vector (rt count : ℕ) (r : GMMemoryRegisters) {k : Fin 32}
    (hk : ∃ n < count, (rt + n) % 32 = k.val) :
    ((List.range count).foldl (fun r n => r.setVector (rt + n) fun _ => 0) r).vector k =
      fun _ => 0 := by
  obtain ⟨n, hn, heq⟩ := hk
  refine foldl_establishes (fun r : GMMemoryRegisters => r.vector k = fun _ => 0)
    (fun n => Fin.ofNat 32 (rt + n) = k) ?_ ?_ (.inl ⟨n, List.mem_range.2 hn, Fin.ext heq⟩)
  · rintro n - rfl r
    exact Function.update_self ..
  · intro n _ r hr
    by_cases hlast : Fin.ofNat 32 (rt + n) = k
    · subst hlast
      exact Function.update_self ..
    · exact (Function.update_of_ne (Ne.symm hlast) _ _).trans hr

theorem mem_vectorDestinations_loadOf {i : BitVec 32} (hi : IsStructure i) {t : Structure}
    (ht : structureOf (loadOf i) = some t) {k : Fin 32} :
    k.val ∈ vectorDestinations (loadOf i) ↔
      ∃ n < t.registers * t.repeats, (field i 0 31 + n) % 32 = k.val := by
  unfold vectorDestinations
  rw [if_pos ((isStructure_loadOf i).2 hi), if_pos (getLsbD_loadOf_self i), structureOf_count ht,
    field_loadOf i (by decide)]
  simp only [List.mem_map, List.mem_range]

theorem undone_ite {s s' : Space} {i : BitVec 32} {r r' r'' : GMMemoryRegisters} {a n : ℕ}
    {result fault : GMResult} (hpc : r'.AtInstruction) (hrange : storedRange i r = some (a, n))
    (hread : result = .ok ↔ s.Permits GM.READ a n) (hloaded : s.Permits GM.READ a n → Reloaded i r r' r'') :
    Undone s i r r'
      (if result ≠ .ok then (⟨.fault, fault, r', s'⟩ : Stepped) else ⟨.ok, .ok, r'', s'⟩) := by
  refine ⟨a, n, hrange, ?_⟩
  by_cases hok : result = .ok
  · rw [if_neg (not_not.2 hok)]
    exact ⟨⟨fun _ => ⟨hpc, hread.1 hok⟩, fun _ => rfl⟩, fun _ => hloaded (hread.1 hok)⟩
  · rw [if_pos hok]
    exact ⟨⟨nofun, fun h => absurd (hread.2 h.2) hok⟩, nofun⟩

theorem length_elementsOf (i : BitVec 32) (t : Structure) :
    (elementsOf i t).length * t.element = totalOf i t := by
  unfold elementsOf totalOf
  rw [length_elements]
  ring

/-- A named register is covered where the store took its bytes. -/
theorem covered_elementsOf {i : BitVec 32} (hi : IsStructure i) {t : Structure}
    (ht : structureOf i = some t) {k : Fin 32}
    (hk : ∃ n < t.registers * t.repeats, (field i 0 31 + n) % 32 = k.val) (p : ℕ) :
    Covered t.element (elementsOf i t) k p ↔
      (storedPart i).1 ≤ p ∧ p < (storedPart i).1 + (storedPart i).2 := by
  have helement := (structureOf_element ht).1
  rw [storedPart_structure hi ht, elementsOf, covered_elements helement, and_iff_right hk]
  unfold lanesOf
  by_cases hsingle : i.getLsbD 24 = true
  · simp only [if_pos hsingle, Nat.one_mul]
    exact ⟨fun h => ⟨h.1, h.2.1⟩, fun h => ⟨h.1, h.2, Nat.one_pos⟩⟩
  · simp only [if_neg hsingle, Nat.zero_add]
    exact ⟨fun h => ⟨Nat.zero_le p, h⟩, fun h => h.2⟩

theorem structureStep_undone {s : Space} (hs : s.Inv) {i : BitVec 32} (hi : IsStructure i)
    (hbit : i.getLsbD 22 = false) {r r' : GMMemoryRegisters} {fault : GMResult}
    (hok : (structureStep s i r fault).step = .ok) (hpc : r'.AtInstruction)
    (hbase : r'.get (field i 5 31) true = r.get (field i 5 31) true) (fault' : GMResult) :
    Undone s i r r'
      (structureStep (structureStep s i r fault).space (loadOf i) r' fault') := by
  obtain ⟨t, ht⟩ : ∃ t, structureOf i = some t := by
    cases ht : structureOf i with
    | some t => exact ⟨t, rfl⟩
    | none =>
        unfold structureStep at hok
        rw [ht] at hok
        cases hok
  obtain ⟨hload, hreplicate⟩ := structureOf_loadOf hbit ht
  have hpart := storedPart_structure hi ht
  have hcount : storedCount i = t.registers * t.repeats := by
    rw [storedCount, if_pos hi, structureOf_count ht]
  have hrange : storedRange i r = some ((r.get (field i 5 31) true).toNat, totalOf i t) := by
    unfold storedRange totalOf
    rw [if_pos hi, hcount, hpart, Nat.mul_assoc _ (lanesOf i t)]
    rfl
  rw [structureStep_store s r fault ht hbit] at hok ⊢
  dsimp only at hok ⊢
  split at hok
  · cases hok
  rename_i hwrite
  rw [if_neg hwrite]
  obtain ⟨-, hread, hbytes⟩ := Space.read_back hs (not_not.1 hwrite) fun _ => 0
  rw [structureStep_load _ r' fault' hload (getLsbD_loadOf_self i) hreplicate]
  dsimp only
  rw [field_loadOf i (by decide), hbase, totalOf_loadOf, elementsOf_loadOf,
    getLsbD_loadOf i (by decide), field_loadOf i (by decide), field_loadOf i (by decide)]
  refine undone_ite hpc hrange hread ?_
  intro hreadable
  rw [hbytes hreadable]
  constructor
  · intro k hk
    rw [generalDestinations, if_pos ((isStructure_loadOf i).2 hi)] at hk
    exact absurd hk List.not_mem_nil
  · intro k hk p
    rw [mem_vectorDestinations_loadOf hi hload] at hk
    change (movedBase _ _ _ _).vector k p = _
    rw [movedBase_vector]
    have hholds : Holds (fun index => r.vector (Fin.ofNat 32 index)) t.element (elementsOf i t) 0
        fun j => ((List.range (totalOf i t)).map
          (storeElements t r (elementsOf i t) 0 fun _ => 0)).getD j 0 := by
      refine (storeElements_holds t r (elementsOf i t) 0 fun _ => 0).congr ?_
      intro x _ hx
      rw [Nat.zero_add, length_elementsOf] at hx
      simp [List.getD_eq_getElem?_getD, hx]
    have hcover := covered_elementsOf hi ht hk p
    obtain ⟨hin, hout⟩ := loadElements_vector hreplicate (if field i 30 1 = 1 then 16 else 8)
      hholds (if i.getLsbD 24 = false then
        (List.range (t.registers * t.repeats)).foldl
          (fun r n => r.setVector (field i 0 31 + n) fun _ => 0) r'
        else r') k p
    by_cases hp : (storedPart i).1 ≤ p ∧ p < (storedPart i).1 + (storedPart i).2
    · rw [if_pos hp]
      exact hin (hcover.2 hp)
    · rw [if_neg hp]
      refine (hout (mt hcover.1 hp)).trans ?_
      by_cases hsingle : i.getLsbD 24 = true
      · rw [if_pos (And.intro hi hsingle), if_neg (show ¬ i.getLsbD 24 = false by simp [hsingle])]
      · rw [if_neg (fun h => hsingle h.2 : ¬ (IsStructure i ∧ i.getLsbD 24 = true)),
          if_pos (Bool.eq_false_of_not_eq_true hsingle), cleared_vector _ _ _ hk]

/-! ## Plain accesses -/

def Access.asLoad (d : Access) : Access := { d with load := true }

theorem field_opcode_loadOf {i : BitVec 32} (hbit : i.getLsbD 22 = false) :
    field (loadOf i) 22 3 = field i 22 3 + 1 := by
  have hor : field (loadOf i) 22 3 = field i 22 3 ||| 1 := by
    unfold field loadOf
    rw [BitVec.toNat_or, Nat.shiftRight_or_distrib, Nat.and_or_distrib_right]
    rfl
  have hlt : field i 22 3 < 4 := Nat.lt_succ_of_le Nat.and_le_right
  rw [getLsbD_of_field] at hbit
  rw [hor]
  generalize field i 22 3 = opcode at hbit hlt
  interval_cases opcode <;> simp_all

theorem orderedAccess_loadOf {i : BitVec 32} {r r' : GMMemoryRegisters} {d : Access}
    (hbase : r'.get (field i 5 31) true = r.get (field i 5 31) true)
    (h : orderedAccess i r = some d) : orderedAccess (loadOf i) r' = some d.asLoad := by
  unfold orderedAccess at h ⊢
  dsimp only at h ⊢
  simp (disch := decide) only [field_loadOf, getLsbD_loadOf]
  rw [hbase]
  split at h
  · cases h
  · rename_i hsize
    cases h
    rw [if_neg hsize, getLsbD_loadOf_self, Bool.or_true]
    rfl

theorem singleAccess_loadOf {i : BitVec 32} (hbit : i.getLsbD 22 = false)
    (hgeneral : i.getLsbD 26 = false → field i 22 3 = 0) {r r' : GMMemoryRegisters} {d : Access}
    (hbase : r'.get (field i 5 31) true = r.get (field i 5 31) true)
    (hindex : i.getLsbD 24 = false → i.getLsbD 21 = true →
      r'.get (field i 16 31) false = r.get (field i 16 31) false)
    (h : singleAccess i r = some d) :
    singleAccess (loadOf i) r' = some d.asLoad ∧ d.sign = false ∧ d.destinationWidth = 64 := by
  have heven : field i 22 3 % 2 = 0 := by
    rw [getLsbD_of_field] at hbit
    simpa using hbit
  -- The opcode of the load is the next odd one.
  have hge : field i 22 3 + 1 ≥ 2 ↔ field i 22 3 ≥ 2 := by omega
  have hload : (if i.getLsbD 26 = true then (field i 22 3 + 1) % 2 == 1
      else field i 22 3 + 1 != 0) = true := by
    split
    · exact beq_iff_eq.2 (by omega)
    · exact bne_iff_ne.2 (by omega)
  have hsign : (!i.getLsbD 26 && decide (field i 22 3 ≥ 2)) = false := by
    cases hv : i.getLsbD 26 with
    | true => rfl
    | false => simp [hgeneral hv]
  have hwidth : ¬ (i.getLsbD 26 = false ∧ field i 22 3 = 3) ∧
      ¬ (i.getLsbD 26 = false ∧ field i 22 3 + 1 = 3) := by
    constructor
    · rintro ⟨hv, h3⟩
      rw [hgeneral hv] at h3
      cases h3
    · rintro ⟨hv, h3⟩
      rw [hgeneral hv] at h3
      cases h3
  unfold singleAccess at h ⊢
  dsimp only at h ⊢
  simp (disch := decide) only [field_loadOf, getLsbD_loadOf]
  rw [hbase, field_opcode_loadOf hbit]
  simp only [hge, hload, hsign, if_neg hwidth.1, if_neg hwidth.2] at h ⊢
  rw [Option.ite_none_left_eq_some, Option.ite_none_left_eq_some] at h
  obtain ⟨hscale, hno, h⟩ := h
  rw [if_neg hscale, if_neg fun h => hno ⟨h.1, h.2.1, ?_⟩]
  · by_cases h24 : i.getLsbD 24 = true
    · rw [if_pos h24] at h ⊢
      cases h
      exact ⟨rfl, rfl, rfl⟩
    rw [if_neg h24] at h ⊢
    by_cases h21 : i.getLsbD 21 = true
    · rw [if_pos h21, Option.ite_none_left_eq_some] at h
      obtain ⟨hoption, h⟩ := h
      rw [if_pos h21, if_neg hoption, hindex (by simpa using h24) h21]
      cases h
      exact ⟨rfl, rfl, rfl⟩
    · rw [if_neg h21, Option.ite_none_left_eq_some, Option.ite_none_left_eq_some] at h
      obtain ⟨hmode, hback, h⟩ := h
      rw [if_neg h21, if_neg hmode, if_neg hback]
      cases h
      exact ⟨rfl, rfl, rfl⟩
  · exact absurd (hgeneral h.1) (by have := h.2.1; omega)

theorem pairAccess_loadOf {i : BitVec 32} (hbit : i.getLsbD 22 = false)
    (hdistinct : field i 0 31 ≠ field i 10 31) {r r' : GMMemoryRegisters} {d : Access}
    (hbase : r'.get (field i 5 31) true = r.get (field i 5 31) true)
    (h : pairAccess i r = some d) :
    pairAccess (loadOf i) r' = some d.asLoad ∧ d.sign = false ∧ d.destinationWidth = 64 := by
  unfold pairAccess at h ⊢
  dsimp only at h ⊢
  simp (disch := decide) only [field_loadOf, getLsbD_loadOf]
  rw [hbase, getLsbD_loadOf_self]
  simp only [hbit, Bool.false_eq_true, false_and, and_false, if_false, hdistinct] at h ⊢
  by_cases hv : i.getLsbD 26 = true
  · simp only [if_pos hv] at h ⊢
    by_cases h3 : field i 30 3 = 3
    · rw [if_pos h3] at h
      cases h
    · simp only [if_neg h3] at h ⊢
      rw [Option.ite_none_left_eq_some] at h
      obtain ⟨hback, h⟩ := h
      rw [if_neg hback]
      cases h
      exact ⟨rfl, rfl, rfl⟩
  · simp only [if_neg hv] at h ⊢
    by_cases h0 : field i 30 3 = 0
    · simp only [if_pos h0] at h ⊢
      rw [Option.ite_none_left_eq_some] at h
      obtain ⟨hback, h⟩ := h
      rw [if_neg hback]
      cases h
      exact ⟨rfl, rfl, rfl⟩
    · simp only [if_neg h0] at h ⊢
      by_cases h2 : field i 30 3 = 2
      · simp only [if_pos h2] at h ⊢
        rw [Option.ite_none_left_eq_some] at h
        obtain ⟨hback, h⟩ := h
        rw [if_neg hback]
        cases h
        exact ⟨rfl, rfl, rfl⟩
      · rw [if_neg h2] at h
        cases h

namespace Access

def parts (d : Access) : List ℕ := (List.range (if d.pair then 2 else 1)).map d.index

theorem bytes_part (d : Access) (r : GMMemoryRegisters) (part : ℕ) {j : ℕ} (hj : j < d.size) :
    d.bytes r (part * d.size + j) =
      if d.vector then r.vectorAt (d.index part) j
      else byteOf (r.get (d.index part) false).toNat j := by
  have hdiv : (part * d.size + j) / d.size = part := by
    rw [Nat.mul_comm, Nat.mul_add_div (by omega), Nat.div_eq_of_lt hj, Nat.add_zero]
  have hmod : (part * d.size + j) % d.size = j := by
    rw [Nat.mul_comm, Nat.mul_add_mod, Nat.mod_eq_of_lt hj]
  unfold bytes
  split
  · change r.vectorAt (d.index ((part * d.size + j) / d.size)) ((part * d.size + j) % d.size) = _
    rw [hdiv, hmod]
  · rw [scalarBytes, hdiv, hmod]

theorem stored_part (d : Access) (r : GMMemoryRegisters) {part : ℕ}
    (hpart : part < if d.pair then 2 else 1) :
    ((((List.range d.total).map (d.bytes r)).drop (part * d.size)).take d.size) =
      (List.range d.size).map fun j => d.bytes r (part * d.size + j) := by
  have htotal : part * d.size + d.size ≤ d.total := by
    rw [total, ← Nat.succ_mul]
    exact Nat.mul_le_mul_right _ hpart
  apply List.ext_getElem
  · simp
    omega
  · intro j h1 h2
    simp

end Access

theorem GMMemoryRegisters.get_set (r : GMMemoryRegisters) (index k : ℕ) (value : BitVec 64) :
    (r.set index value).get k false =
      if k = index ∧ k < 31 then value else r.get k false := by
  unfold GMMemoryRegisters.set GMMemoryRegisters.get
  by_cases hk : k < 31
  · rw [dif_pos hk, dif_pos hk]
    by_cases hindex : index < 31
    · rw [dif_pos hindex]
      by_cases heq : k = index
      · subst heq
        rw [if_pos ⟨rfl, hk⟩]
        exact Function.update_self ..
      · rw [if_neg fun h => heq h.1]
        exact Function.update_of_ne (fun h => heq (congrArg Fin.val h)) _ _
    · rw [dif_neg hindex, if_neg]
      exact fun h => hindex (h.1 ▸ hk)
  · rw [dif_neg hk, dif_neg hk, if_neg (fun h => hk h.2 : ¬ (k = index ∧ k < 31))]
    rfl

theorem GMMemoryRegisters.get_setBase (r : GMMemoryRegisters) {index k : ℕ}
    (h : index = 31 ∨ k ≠ index) (value : BitVec 64) :
    (r.setBase index value).get k false = r.get k false := by
  unfold GMMemoryRegisters.setBase
  split
  · rfl
  · rename_i h31
    rw [get_set, if_neg fun heq => h.resolve_left h31 heq.1]

/-- A plain store as its load sees it. -/
structure Access.Stores (d : Access) (i : BitVec 32) : Prop where
  load : d.load = false
  sign : d.sign = false
  width : d.destinationWidth = 64
  range : storedPart i = (0, d.size)
  count : storedCount i = if d.pair then 2 else 1
  base : d.writeback = true → d.vector = false → ∀ k ∈ d.parts, field i 5 31 = 31 ∨ k ≠ field i 5 31
  general : generalDestinations (loadOf i) = if d.vector then [] else d.parts
  vector : vectorDestinations (loadOf i) = if d.vector then d.parts else []

theorem loaded_general {d : Access} {i : BitVec 32} (h : d.Stores i) (hv : d.vector = false)
    (r r' : GMMemoryRegisters) {k : ℕ} (hk : k ∈ d.parts) :
    (((List.range (if d.pair then 2 else 1)).foldl
      (d.asLoad.loadPart ((List.range d.total).map (d.bytes r))) r').get k false).toNat =
        (r.get k false).toNat % 256 ^ d.size := by
  have hvalue : ∀ part ∈ List.range (if d.pair then 2 else 1),
      scalarValue ((List.range d.total).map (d.bytes r)) part d.size =
        BitVec.ofNat 64 ((r.get (d.index part) false).toNat % 256 ^ d.size) := by
    intro part hpart
    rw [scalarValue, d.stored_part r (List.mem_range.1 hpart), ← littleEndian_byteOf]
    congr 2
    apply List.map_congr_left
    intro j hj
    rw [d.bytes_part r part (List.mem_range.1 hj), hv]
    rfl
  have hstep : ∀ part ∈ List.range (if d.pair then 2 else 1), ∀ r',
      d.asLoad.loadPart ((List.range d.total).map (d.bytes r)) r' part =
        r'.set (d.index part) (BitVec.ofNat 64 ((r.get (d.index part) false).toNat % 256 ^ d.size)) := by
    intro part hpart r'
    rw [← hvalue part hpart]
    unfold Access.loadPart Access.asLoad
    dsimp only
    rw [hv, h.sign, h.width]
    rfl
  have hfits : ∀ v : BitVec 64, (BitVec.ofNat 64 (v.toNat % 256 ^ d.size)).toNat =
      v.toNat % 256 ^ d.size := by
    intro v
    rw [BitVec.toNat_ofNat]
    exact Nat.mod_eq_of_lt (lt_of_le_of_lt (Nat.mod_le _ _) v.isLt)
  obtain ⟨part, hpart, rfl⟩ := List.mem_map.1 hk
  generalize hindex : d.index part = k
  refine foldl_establishes (fun r' : GMMemoryRegisters => (r'.get k false).toNat =
    (r.get k false).toNat % 256 ^ d.size) (fun part => d.index part = k) ?_ ?_
    (.inl ⟨part, hpart, hindex⟩)
  · rintro part hpart rfl r'
    rw [hstep part hpart, get_set]
    by_cases h31 : d.index part < 31
    · rw [if_pos ⟨rfl, h31⟩, hfits]
    · rw [if_neg fun h => h31 h.2]
      unfold GMMemoryRegisters.get
      rw [dif_neg h31, dif_neg h31]
      exact (Nat.zero_mod _).symm
  · intro part hpart r' hr'
    rw [hstep part hpart, get_set]
    split
    · rename_i heq
      rw [← heq.1, hfits]
    · exact hr'

theorem loaded_vector {d : Access} (hv : d.vector = true) (r r' : GMMemoryRegisters) {k : Fin 32}
    (hk : ∃ part < if d.pair then 2 else 1, Fin.ofNat 32 (d.index part) = k) :
    ((List.range (if d.pair then 2 else 1)).foldl
      (d.asLoad.loadPart ((List.range d.total).map (d.bytes r))) r').vector k =
        fun p => if p < d.size then r.vector k p else 0 := by
  have hstep : ∀ part ∈ List.range (if d.pair then 2 else 1), ∀ r',
      d.asLoad.loadPart ((List.range d.total).map (d.bytes r)) r' part =
        r'.setVector (d.index part) fun p =>
          if p < d.size then r.vectorAt (d.index part) p else 0 := by
    intro part hpart r'
    rw [List.mem_range] at hpart
    have htotal : part * d.size + d.size ≤ d.total := by
      rw [Access.total, ← Nat.succ_mul]
      exact Nat.mul_le_mul_right _ hpart
    unfold Access.loadPart Access.asLoad
    dsimp only
    rw [if_pos hv]
    congr 1
    funext p
    unfold copyInto
    by_cases hp : p < d.size
    · rw [if_pos ⟨Nat.zero_le p, by omega⟩, if_pos hp, Nat.sub_zero]
      have hbyte := d.bytes_part r part hp
      rw [if_pos hv] at hbyte
      rw [← hbyte]
      simp [List.getD_eq_getElem?_getD, show part * d.size + p < d.total by omega]
    · rw [if_neg (by omega), if_neg hp]
  obtain ⟨part, hpart, hindex⟩ := hk
  refine foldl_establishes (fun r' : GMMemoryRegisters => r'.vector k =
    fun p => if p < d.size then r.vector k p else 0)
    (fun part => Fin.ofNat 32 (d.index part) = k) ?_ ?_
    (.inl ⟨part, List.mem_range.2 hpart, hindex⟩)
  · rintro part hpart rfl r'
    rw [hstep part hpart]
    exact Function.update_self ..
  · intro part hpart r' hr'
    rw [hstep part hpart]
    by_cases heq : Fin.ofNat 32 (d.index part) = k
    · subst heq
      exact Function.update_self ..
    · exact (Function.update_of_ne (Ne.symm heq) _ _).trans hr'

def Access.moved (d : Access) (rn : ℕ) (r : GMMemoryRegisters) : GMMemoryRegisters :=
  if d.writeback then r.setBase rn d.newbase else r

theorem perform_store {d : Access} (h : d.load = false) (s : Space) (rn : ℕ)
    (r : GMMemoryRegisters) :
    d.perform s rn r =
      let answer := s.gmSparseWrite d.address.toNat (some (d.bytes r)) d.total
      if answer.1 ≠ .ok then ⟨.fault, answer.1, r, answer.2⟩
      else ⟨.ok, .ok, (d.moved rn r).next, answer.2⟩ := by
  unfold Access.perform
  simp only [h, Bool.false_eq_true, if_false]
  rfl

theorem perform_asLoad (d : Access) (s : Space) (rn : ℕ) (r : GMMemoryRegisters) :
    d.asLoad.perform s rn r =
      let answer := s.gmSparseRead d.address.toNat (some fun _ => 0) d.total
      if answer.1 ≠ .ok then ⟨.fault, answer.1, r, s⟩
      else ⟨.ok, .ok, (d.moved rn ((List.range (if d.pair then 2 else 1)).foldl
        (d.asLoad.loadPart answer.2) r)).next, s⟩ := rfl

theorem perform_undone {s : Space} (hs : s.Inv) {i : BitVec 32} (hi : ¬ IsStructure i) {d : Access}
    (h : d.Stores i) {r r' : GMMemoryRegisters} (hpc : r'.AtInstruction)
    (haddress : plainOf i r = some d) (hok : (d.perform s (field i 5 31) r).step = .ok) :
    Undone s i r r'
      (d.asLoad.perform (d.perform s (field i 5 31) r).space (field i 5 31) r') := by
  have hrange : storedRange i r = some (d.address.toNat, d.total) := by
    unfold storedRange Access.total
    rw [if_neg hi, haddress, h.count, h.range]
    rfl
  rw [perform_store h.load] at hok ⊢
  dsimp only at hok ⊢
  split at hok
  · cases hok
  rename_i hwrite
  rw [if_neg hwrite]
  obtain ⟨-, hread, hbytes⟩ := Space.read_back hs (not_not.1 hwrite) fun _ => 0
  rw [perform_asLoad]
  refine undone_ite hpc hrange hread ?_
  intro hreadable
  rw [hbytes hreadable]
  constructor
  · intro k hk
    rw [h.general] at hk
    cases hv : d.vector with
    | true =>
        rw [if_pos hv] at hk
        exact absurd hk List.not_mem_nil
    | false =>
        rw [if_neg (Bool.eq_false_iff.1 hv)] at hk
        rw [h.range, ← loaded_general h hv r r' hk]
        unfold Access.moved
        split
        · rename_i hback
          exact congrArg BitVec.toNat (get_setBase _ (h.base hback hv k hk) _)
        · rfl
  · intro k hk p
    rw [h.vector] at hk
    cases hv : d.vector with
    | false =>
        rw [if_neg (Bool.eq_false_iff.1 hv)] at hk
        exact absurd hk List.not_mem_nil
    | true =>
        rw [if_pos hv] at hk
        obtain ⟨part, hpart, hindex⟩ := List.mem_map.1 hk
        have hnamed : Fin.ofNat 32 (d.index part) = k :=
          Fin.ext ((congrArg (· % 32) hindex).trans (Nat.mod_eq_of_lt k.isLt))
        have hloaded := loaded_vector hv r r' ⟨part, List.mem_range.1 hpart, hnamed⟩
        rw [h.range]
        simp only [Nat.zero_le, true_and, Nat.zero_add, hi, false_and, if_false]
        rw [← congrFun hloaded p]
        unfold Access.moved
        split
        · exact congrFun (congrFun (setBase_vector _ _ _) k) p
        · rfl

/-! ## Decoding -/

theorem singleAccess_shape {i : BitVec 32} {r : GMMemoryRegisters} {d : Access}
    (h : singleAccess i r = some d) :
    d.size = (if i.getLsbD 26 = true ∧ field i 22 3 ≥ 2 then 16 else 2 ^ field i 30 3) ∧
      (d.writeback = true → d.vector = false → field i 5 31 = 31 ∨ d.rt ≠ field i 5 31) := by
  unfold singleAccess at h
  dsimp only at h
  rw [Option.ite_none_left_eq_some, Option.ite_none_left_eq_some] at h
  replace h := h.2.2
  split at h
  · cases h
    exact ⟨rfl, nofun⟩
  split at h
  · rw [Option.ite_none_left_eq_some] at h
    cases h.2
    exact ⟨rfl, nofun⟩
  rw [Option.ite_none_left_eq_some, Option.ite_none_left_eq_some] at h
  obtain ⟨-, hback, h⟩ := h
  cases h
  refine ⟨rfl, ?_⟩
  intro hw hv
  by_contra hno
  rw [not_or, not_not] at hno
  exact hback ⟨hw, hv, hno.1, hno.2.symm⟩

theorem pairAccess_shape {i : BitVec 32} (hbit : i.getLsbD 22 = false) {r : GMMemoryRegisters}
    {d : Access} (h : pairAccess i r = some d) :
    d.size = (if i.getLsbD 26 then 4 * 2 ^ field i 30 3 else if field i 30 3 = 0 then 4 else 8) ∧
      (d.writeback = true → d.vector = false →
        field i 5 31 = 31 ∨ d.rt ≠ field i 5 31 ∧ d.rt2 ≠ field i 5 31) := by
  unfold pairAccess at h
  simp only [hbit, Bool.false_eq_true, false_and, and_false, if_false] at h
  split at h
  · cases h
  rename_i size sign hshape
  rw [Option.ite_none_left_eq_some] at h
  obtain ⟨hback, h⟩ := h
  cases h
  constructor
  · dsimp only
    by_cases hv : i.getLsbD 26 = true
    · rw [if_pos hv] at hshape ⊢
      rw [Option.ite_none_left_eq_some] at hshape
      cases hshape.2
      rfl
    · rw [if_neg hv] at hshape ⊢
      by_cases h0 : field i 30 3 = 0
      · rw [if_pos h0] at hshape ⊢
        cases hshape
        rfl
      · rw [if_neg h0, Option.ite_none_right_eq_some] at hshape
        rw [if_neg h0]
        cases hshape.2
        rfl
  · intro hw hv
    by_cases h31 : field i 5 31 = 31
    · exact .inl h31
    · exact .inr ⟨fun heq => hback ⟨hw, hv, h31, .inl heq.symm⟩,
        fun heq => hback ⟨hw, hv, h31, .inr heq.symm⟩⟩

theorem destinations_loadOf {i : BitVec 32} (hi : IsStore i) (hs : ¬ IsStructure i) :
    generalDestinations (loadOf i) =
        (if IsOrdered i then [field i 0 31]
        else if i.getLsbD 26 then []
        else if IsSingle i then [field i 0 31]
        else [field i 0 31, field i 10 31]) ∧
      vectorDestinations (loadOf i) =
        (if i.getLsbD 26 = false then []
        else if IsSingle i then [field i 0 31]
        else [field i 0 31, field i 10 31]) := by
  have hopcode : field (loadOf i) 22 3 ≠ 0 := by
    rw [field_opcode_loadOf hi.2.2.1]
    exact Nat.succ_ne_zero _
  unfold generalDestinations vectorDestinations
  simp (disch := decide) only [isStructure_loadOf, isOrdered_loadOf, isSingle_loadOf, hs,
    hi.not_isAtomic_loadOf, not_isRcpc_loadOf, field_loadOf, getLsbD_loadOf, getLsbD_loadOf_self,
    hopcode, if_true, if_false, Bool.true_eq_false, or_false]
  exact ⟨trivial, trivial⟩

theorem orderedAccess_stores {i : BitVec 32} (hi : IsStore i) (hs : ¬ IsStructure i)
    (hordered : IsOrdered i) {r : GMMemoryRegisters} {d : Access}
    (h : orderedAccess i r = some d) : d.Stores i := by
  have hv : i.getLsbD 26 = false := by
    refine Bool.eq_false_iff.2 ?_
    intro hbit
    exact mask_ne hordered (by decide) ((mask_bit (by decide)).1 hbit)
  obtain ⟨hgeneral, hvector⟩ := destinations_loadOf hi hs
  rw [if_pos hordered] at hgeneral
  rw [if_pos hv] at hvector
  have hload := orderedAccess_load h
  rw [hi.2.2.1, Bool.or_false, decide_eq_false hi.2.1] at hload
  unfold orderedAccess at h
  dsimp only at h
  rw [Option.ite_none_left_eq_some] at h
  cases h.2
  exact {
    load := hload
    sign := rfl
    width := rfl
    range := by rw [storedPart, if_neg hs, if_pos hordered]
    count := by rw [storedCount, if_neg hs, if_pos (Or.inl hordered)]; rfl
    base := nofun
    general := by rw [hgeneral]; simp only [hv]; rfl
    vector := by rw [hvector]; simp only [hv]; rfl }

theorem singleAccess_stores {i : BitVec 32} (hi : IsStore i) (hs : ¬ IsStructure i)
    (hordered : ¬ IsOrdered i) (hsingle : IsSingle i) {r : GMMemoryRegisters} {d : Access}
    (hsign : d.sign = false) (hwidth : d.destinationWidth = 64)
    (h : singleAccess i r = some d) : d.Stores i := by
  obtain ⟨hpair, hv, hrt, hload, -⟩ := singleAccess_parts h
  obtain ⟨hsize, hbase⟩ := singleAccess_shape h
  obtain ⟨hgeneral, hvector⟩ := destinations_loadOf hi hs
  rw [if_neg hordered, if_pos hsingle, ← hrt, ← hv] at hgeneral
  rw [if_pos hsingle, ← hrt, ← hv] at hvector
  have hparts : d.parts = [d.rt] := by
    unfold Access.parts
    rw [hpair]
    rfl
  exact {
    load := by
      rw [hload, hi.2.2.1]
      split
      · rfl
      · rename_i hno
        rw [hi.2.2.2 hsingle (by simpa using hno)]
        rfl
    sign := hsign
    width := hwidth
    range := by rw [storedPart, if_neg hs, if_neg hordered, if_pos hsingle, hsize]
    count := by rw [storedCount, if_neg hs, if_pos (Or.inr hsingle), hpair]; rfl
    base := by
      intro hw hv k hk
      rw [hparts, List.mem_singleton] at hk
      rw [hk]
      exact hbase hw hv
    general := by rw [hgeneral, hparts]
    vector := by
      rw [hvector, hparts]
      cases d.vector <;> rfl }

theorem pairAccess_stores {i : BitVec 32} (hi : IsStore i) (hs : ¬ IsStructure i)
    (hordered : ¬ IsOrdered i) (hsingle : ¬ IsSingle i) {r : GMMemoryRegisters} {d : Access}
    (hsign : d.sign = false) (hwidth : d.destinationWidth = 64)
    (h : pairAccess i r = some d) : d.Stores i := by
  obtain ⟨hpair, hv, hrt, hrt2, hload, -⟩ := pairAccess_parts h
  obtain ⟨hsize, hbase⟩ := pairAccess_shape hi.2.2.1 h
  obtain ⟨hgeneral, hvector⟩ := destinations_loadOf hi hs
  rw [if_neg hordered, if_neg hsingle, ← hrt, ← hrt2, ← hv] at hgeneral
  rw [if_neg hsingle, ← hrt, ← hrt2, ← hv] at hvector
  have hparts : d.parts = [d.rt, d.rt2] := by
    unfold Access.parts
    rw [hpair]
    rfl
  exact {
    load := hload.trans hi.2.2.1
    sign := hsign
    width := hwidth
    range := by rw [storedPart, if_neg hs, if_neg hordered, if_neg hsingle, hsize]
    count := by rw [storedCount, if_neg hs, if_neg (not_or.2 ⟨hordered, hsingle⟩), hpair]; rfl
    base := by
      intro hw hv k hk
      rw [hparts, List.mem_pair] at hk
      rcases hbase hw hv with h31 | hne
      · exact .inl h31
      · rcases hk with rfl | rfl
        · exact .inr hne.1
        · exact .inr hne.2
    general := by rw [hgeneral, hparts]
    vector := by
      rw [hvector, hparts]
      cases d.vector <;> rfl }

theorem plainOf_loadOf {i : BitVec 32} (hi : IsStore i) (hs : ¬ IsStructure i)
    (hpair : IsPair i → field i 0 31 ≠ field i 10 31) {r r' : GMMemoryRegisters} {d : Access}
    (hr : Restored i r r') (h : plainOf i r = some d) :
    plainOf (loadOf i) r' = some d.asLoad ∧ d.Stores i := by
  have hplain := h
  unfold plainOf at h ⊢
  simp only [isOrdered_loadOf, isSingle_loadOf, isPair_loadOf]
  by_cases hordered : IsOrdered i
  · rw [if_pos hordered] at h ⊢
    exact ⟨orderedAccess_loadOf hr.base h, orderedAccess_stores hi hs hordered h⟩
  rw [if_neg hordered] at h ⊢
  by_cases hsingle : IsSingle i
  · rw [if_pos hsingle] at h ⊢
    obtain ⟨hload, hsign, hwidth⟩ := singleAccess_loadOf hi.2.2.1 (hi.2.2.2 hsingle) hr.base
      (fun h24 h21 => hr.index _ (by rw [indexRegister, if_pos ⟨hsingle, h24, h21⟩])) h
    exact ⟨hload, singleAccess_stores hi hs hordered hsingle hsign hwidth h⟩
  rw [if_neg hsingle] at h ⊢
  rw [Option.ite_none_right_eq_some] at h
  obtain ⟨hp, h⟩ := h
  rw [if_pos hp]
  obtain ⟨hload, hsign, hwidth⟩ := pairAccess_loadOf hi.2.2.1 (hpair hp) hr.base h
  exact ⟨hload, pairAccess_stores hi hs hordered hsingle hsign hwidth h⟩

/-- The checks in front of every instruction are passed. -/
def Executable (i : BitVec 32) (r : GMMemoryRegisters) : Prop :=
  ¬ (r.pc.toNat > uint64Max - 4 ∨ r.pc &&& 3#64 ≠ 0#64 ∨
    field i 5 31 = 31 ∧ r.sp &&& 15#64 ≠ 0#64)

theorem executable_of_ok {s : Space} {i : BitVec 32} {r : GMMemoryRegisters} {fault : GMResult}
    (hok : (gmMemoryStep s i r fault).step = .ok) : Executable i r := by
  intro hno
  unfold gmMemoryStep at hok
  dsimp only at hok
  rw [if_pos hno] at hok
  cases hok

theorem Executable.atInstruction {i : BitVec 32} {r : GMMemoryRegisters} (h : Executable i r) :
    r.AtInstruction := by
  unfold Executable at h
  push Not at h
  exact ⟨h.1, h.2.1⟩

theorem Restored.executable_iff {i : BitVec 32} {r r' : GMMemoryRegisters} (hr : Restored i r r')
    (h : Executable i r) : Executable (loadOf i) r' ↔ r'.AtInstruction := by
  refine ⟨Executable.atInstruction, ?_⟩
  rintro hpc (hpc' | hpc' | ⟨h31, hsp⟩)
  · exact absurd hpc.1 (not_le.2 hpc')
  · exact hpc' hpc.2
  · rw [field_loadOf i (by decide)] at h31
    have hbase := hr.base
    rw [h31] at hbase
    apply h
    refine .inr (.inr ⟨h31, ?_⟩)
    rw [← show r'.sp = r.sp from hbase]
    exact hsp

theorem gmMemoryStep_structure (s : Space) {i : BitVec 32} {r : GMMemoryRegisters}
    (fault : GMResult) (h : Executable i r) (hs : IsStructure i) :
    gmMemoryStep s i r fault = structureStep s i r fault := by
  unfold gmMemoryStep
  dsimp only
  rw [if_neg h, if_pos (show i &&& 0xbe000000#32 = 0x0c000000#32 from hs)]

theorem gmMemoryStep_plainOf (s : Space) {i : BitVec 32} {r : GMMemoryRegisters}
    (fault : GMResult) (h : Executable i r) (hs : ¬ IsStructure i) (hatomic : ¬ IsAtomic i)
    (hrcpc : ¬ IsRcpc i) :
    gmMemoryStep s i r fault =
      match plainOf i r with
      | none => if IsOrdered i then ⟨.fault, .invalid, r, s⟩ else ⟨.unsupported, fault, r, s⟩
      | some d => d.perform s (field i 5 31) r := by
  unfold gmMemoryStep plainOf
  dsimp only
  rw [if_neg h, if_neg (show ¬ i &&& 0xbe000000#32 = 0x0c000000#32 from hs),
    if_neg (show ¬ (¬ IsRcpc i ∧ (IsCasp i ∨ IsCas i ∨ IsUpdate i)) from hatomic)]
  by_cases hordered : IsOrdered i
  · rw [if_pos (Or.inr hordered), if_pos hordered]
    cases orderedAccess i r with
    | none => exact (if_pos hordered).symm
    | some d => rfl
  · rw [if_neg (not_or.2 ⟨hrcpc, hordered⟩), if_neg hordered]
    cases (if IsSingle i then singleAccess i r else if IsPair i then pairAccess i r else none) with
    | none => exact (if_neg hordered).symm
    | some d => rfl

theorem undone_of_executable {s : Space} (hs : s.Inv) {i : BitVec 32} (hi : IsStore i)
    (hpair : IsPair i → field i 0 31 ≠ field i 10 31) {r r' : GMMemoryRegisters}
    (hr : Restored i r r') (hload : Executable (loadOf i) r') {fault : GMResult}
    (hok : (gmMemoryStep s i r fault).step = .ok) (fault' : GMResult) :
    Undone s i r r' (gmMemoryStep (gmMemoryStep s i r fault).space (loadOf i) r' fault') := by
  have hexec := executable_of_ok hok
  by_cases hstructure : IsStructure i
  · rw [gmMemoryStep_structure _ _ hload ((isStructure_loadOf i).2 hstructure)]
    rw [gmMemoryStep_structure _ _ hexec hstructure] at hok ⊢
    exact structureStep_undone hs hstructure hi.2.2.1 hok hload.atInstruction hr.base fault'
  · rw [gmMemoryStep_plainOf _ _ hload (mt (isStructure_loadOf i).1 hstructure)
      hi.not_isAtomic_loadOf (not_isRcpc_loadOf i)]
    rw [gmMemoryStep_plainOf _ _ hexec hstructure hi.1 hi.2.1] at hok ⊢
    cases hd : plainOf i r with
    | none =>
        rw [hd] at hok
        dsimp only at hok
        split at hok <;> cases hok
    | some d =>
        obtain ⟨hplain, hstores⟩ := plainOf_loadOf hi hstructure hpair hr hd
        rw [hd] at hok
        rw [hplain, field_loadOf i (by decide)]
        exact perform_undone hs hstructure hstores hload.atInstruction hd hok

/-- After a store, the load that differs in the load bit goes through exactly where the stored
range may be read, and then puts the stored bytes back. -/
theorem loadOf_undoes {s : Space} (hs : s.Reachable) {i : BitVec 32} (hi : IsStore i)
    (hpair : IsPair i → field i 0 31 ≠ field i 10 31) {r r' : GMMemoryRegisters}
    (hr : Restored i r r') {fault : GMResult} (hok : (gmMemoryStep s i r fault).step = .ok)
    (fault' : GMResult) :
    Undone s i r r' (gmMemoryStep (gmMemoryStep s i r fault).space (loadOf i) r' fault') := by
  have hexec := executable_of_ok hok
  by_cases hpc : r'.AtInstruction
  · exact undone_of_executable hs.inv hi hpair hr ((hr.executable_iff hexec).2 hpc) hok fault'
  · -- The range is the store's; the load stops at the program counter.
    have hself : Restored i r r := ⟨rfl, fun _ _ => rfl⟩
    obtain ⟨a, n, hrange, -⟩ := undone_of_executable hs.inv hi hpair hself
      ((hself.executable_iff hexec).2 hexec.atInstruction) hok fault'
    have hno : (gmMemoryStep (gmMemoryStep s i r fault).space (loadOf i) r' fault').step ≠ .ok :=
      fun hok' => hpc (executable_of_ok hok').atInstruction
    exact ⟨a, n, hrange, ⟨fun hok' => absurd hok' hno, fun h => absurd h.1 hpc⟩,
      fun hok' => absurd hok' hno⟩

/-- Registers that point into a page, with a different byte everywhere. -/
def storeRegisters : GMMemoryRegisters :=
  ⟨fun _ => 16384#64, 16400#64, 4096#64, fun k p => UInt8.ofNat (16 * k.val + p)⟩

/-- ST2 of V31 and V0, and LD2 behind it. -/
theorem loadOf_undoes_st2 :
    Undone pageSpace 0x4c00803f#32 storeRegisters
      (gmMemoryStep pageSpace 0x4c00803f#32 storeRegisters .ok).registers
      (gmMemoryStep (gmMemoryStep pageSpace 0x4c00803f#32 storeRegisters .ok).space
        (loadOf 0x4c00803f#32)
        (gmMemoryStep pageSpace 0x4c00803f#32 storeRegisters .ok).registers .ok) :=
  loadOf_undoes reachable_pageSpace (by decide) (by decide)
    ⟨by decide,
      fun _ h => absurd ((show indexRegister 0x4c00803f#32 = none by decide).symm.trans h) nofun⟩
    (by decide) .ok

def writePage : Space := { pageSpace with regions := [⟨16384, 32768, (2#32, 2#32)⟩] }

/-- Where the range may be written and not read, the store goes through and its load does not. -/
theorem loadOf_writePage :
    writePage.Reachable ∧ IsStore 0xf9000020#32 ∧
      Restored 0xf9000020#32 storeRegisters
        (gmMemoryStep writePage 0xf9000020#32 storeRegisters .ok).registers ∧
      (gmMemoryStep writePage 0xf9000020#32 storeRegisters .ok).step = .ok ∧
      (gmMemoryStep (gmMemoryStep writePage 0xf9000020#32 storeRegisters .ok).space
        (loadOf 0xf9000020#32)
        (gmMemoryStep writePage 0xf9000020#32 storeRegisters .ok).registers .ok).fault =
          .protection :=
  ⟨⟨16384, 16384, 16384, true, fun _ => zeroPage, _, [.map 16384 16384 2#32 2#32 false], rfl, rfl⟩,
    by decide,
    ⟨by decide,
      fun _ h => absurd ((show indexRegister 0xf9000020#32 = none by decide).symm.trans h) nofun⟩,
    by decide, by decide⟩

end Tolkara
