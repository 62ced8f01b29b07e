import Tolkara.Cpu.Cache
import Tolkara.Cpu.Rejection
import Tolkara.Memory.Agreement
import Tolkara.Memory.AllOrNothing
import Tolkara.Memory.Words

/-!
# Plain loads and stores on both memories

A load or store of one general register at an unsigned offset, without sign
extension, is executed by `gc_run` on the dense memory and by `gm_memory_step`
on the sparse one. The two decoders and register writers were written apart.
Both come down to one access of one address and size, and where the memories
agree on the bytes accessed the two steps agree.
-/

namespace Tolkara

open GuestMemory

/-! ## The two decoders -/

/-- A load or store of a general register at an unsigned offset, without sign
extension. -/
def IsPlain (i : BitVec 32) : Prop :=
  i &&& 0x3b000000#32 = 0x39000000#32 ∧ i &&& 0x04000000#32 = 0#32 ∧ field i 22 3 ≤ 1

instance (i : BitVec 32) : Decidable (IsPlain i) := inferInstanceAs (Decidable (_ ∧ _ ∧ _))

def plainSize (i : BitVec 32) : ℕ := 2 ^ field i 30 3

/-- The address of a plain access; it wraps at the end of the address space. -/
def plainAddress (i : BitVec 32) (base : BitVec 64) : BitVec 64 :=
  base + BitVec.ofNat 64 (field i 10 4095 * plainSize i)

theorem IsPlain.vector {i : BitVec 32} (h : IsPlain i) : i.getLsbD 26 = false := by
  by_contra hbit
  rw [Bool.not_eq_false, mask_bit (by decide)] at hbit
  have h2 := h.2.1
  rw [show (0x04000000#32) = BitVec.twoPow 32 26 by decide, hbit] at h2
  exact absurd h2 (by decide)

theorem IsPlain.unsigned {i : BitVec 32} (h : IsPlain i) : i.getLsbD 24 = true := by
  rw [mask_bit (by decide)]
  exact mask_sub h.1 _ (by decide)

theorem plainSize_cases (i : BitVec 32) : plainSize i = 1 ∨ plainSize i = 2 ∨ plainSize i = 4 ∨
    plainSize i = 8 := by
  have hlt : field i 30 3 ≤ 3 := Nat.and_le_right
  unfold plainSize
  interval_cases field i 30 3 <;> simp

def plainDecoded (pc : BitVec 64) (i : BitVec 32) : GCDecoded :=
  { pc := pc, immediate := BitVec.ofNat 64 (field i 10 4095 * plainSize i), instruction := i
    op := if field i 22 3 = 1 then .load else .store
    rd := field i 0 31, rn := field i 5 31, rm := field i 16 31, ra := field i 10 31
    width := if plainSize i = 8 then 64 else 32
    shift := 0, amount := plainSize i, flags := 0, valid := true }

theorem decode_plain {i : BitVec 32} (h : IsPlain i) (pc : BitVec 64) :
    decode pc i = plainDecoded pc i := by
  have hne : ∀ m c : BitVec 32, 0x39000000#32 &&& m ≠ c &&& 0x3b000000#32 → i &&& m ≠ c :=
    fun m c hd => mask_ne h.1 hd
  have hnop : i ≠ 0xd503201f#32 := by
    rintro rfl
    exact absurd h.1 (by decide)
  unfold decode
  dsimp only
  rw [if_neg hnop, if_neg (hne _ _ (by decide)), if_neg (hne _ _ (by decide)),
    if_neg (hne _ _ (by decide)), if_neg (hne _ _ (by decide)), if_neg (hne _ _ (by decide)),
    if_neg (hne _ _ (by decide)), if_neg (hne _ _ (by decide)), if_neg (hne _ _ (by decide)),
    if_neg (not_or.2 ⟨hne _ _ (by decide), not_or.2 ⟨hne _ _ (by decide), hne _ _ (by decide)⟩⟩),
    if_neg (hne _ _ (by decide)), if_neg (hne _ _ (by decide)), if_neg (hne _ _ (by decide)),
    if_neg (hne _ _ (by decide)), if_pos ⟨h.1, h.2.1⟩, if_pos h.2.2]
  rfl

/-- What `gm_memory_step` makes of a plain access. -/
def plainAccess (i : BitVec 32) (r : GMMemoryRegisters) : Access :=
  let base := r.get (field i 5 31) true
  { load := field i 22 3 != 0, vector := false, pair := false, sign := false, writeback := false
    size := plainSize i, rt := field i 0 31, rt2 := 0, destinationWidth := 64
    address := plainAddress i base, newbase := base }

theorem singleAccess_plain {i : BitVec 32} (h : IsPlain i) (r : GMMemoryRegisters) :
    singleAccess i r = some (plainAccess i r) := by
  have hopc := h.2.2
  unfold singleAccess
  rw [h.vector, h.unsigned]
  dsimp only
  have hsign : decide (field i 22 3 ≥ 2) = false := by simpa using by omega
  have hwidth : ¬ (false = false ∧ field i 22 3 = 3) := by omega
  rw [if_neg (by simp), if_neg (by omega), if_pos rfl, if_neg (by simp), if_neg (by simp), hsign,
    if_neg hwidth]
  rfl

theorem gmMemoryStep_plain {i : BitVec 32} (h : IsPlain i) (s : Space) {r : GMMemoryRegisters}
    (fault : GMResult) (hpc : r.pc.toNat ≤ uint64Max - 4) (hpc' : r.pc &&& 3#64 = 0#64)
    (hsp : field i 5 31 = 31 → r.sp &&& 15#64 = 0#64) :
    gmMemoryStep s i r fault = (plainAccess i r).perform s (field i 5 31) r := by
  have hne : ∀ m c : BitVec 32, 0x39000000#32 &&& m ≠ c &&& 0x3b000000#32 → i &&& m ≠ c :=
    fun m c hd => mask_ne h.1 hd
  have hguard : ¬ (r.pc.toNat > uint64Max - 4 ∨ r.pc &&& 3#64 ≠ 0#64 ∨
      field i 5 31 = 31 ∧ r.sp &&& 15#64 ≠ 0#64) := by
    rintro (hlt | hmod | ⟨hrn, hmod⟩)
    · omega
    · exact hmod hpc'
    · exact hmod (hsp hrn)
  have hrcpc : ¬ IsRcpc i := hne _ _ (by decide)
  have hcasp : ¬ IsCasp i := hne _ _ (by decide)
  have hcas : ¬ IsCas i := hne _ _ (by decide)
  have hupdate : ¬ IsUpdate i := hne _ _ (by decide)
  have hordered : ¬ IsOrdered i := hne _ _ (by decide)
  unfold gmMemoryStep
  dsimp only
  rw [if_neg hguard, if_neg (hne _ _ (by decide)), if_neg (by tauto), if_neg (by tauto),
    if_pos (show IsSingle i from Or.inl h.1), singleAccess_plain h]

/-! ## Memories that agree over a range -/

namespace Flat

/-- The memories have the same bytes and permissions on `[a, a + n)`. -/
structure SameOver (m m' : Flat) (a n : ℕ) : Prop where
  perm : ∀ x, a ≤ x → x < a + n →
    (m.perm (x / pageSize)).map Prod.fst = (m'.perm (x / pageSize)).map Prod.fst
  byte : ∀ x, a ≤ x → x < a + n → m.byte x = m'.byte x

variable {m m' : Flat} {a n : ℕ}

theorem SameOver.access (h : SameOver m m' a n) (permission : Prot) :
    m.access a n permission = m'.access a n permission := by
  unfold Flat.access
  apply checkPages_congr
  intro i hi
  obtain ⟨x, hax, hxn, hx⟩ := touched_iff.2 ⟨i, hi, rfl⟩
  have hlacks : lacks permission = (fun p => p &&& permission != permission) ∘ Prod.fst := rfl
  rw [hlacks, ← Option.map_map, ← Option.map_map, ← hx, h.perm x hax hxn]

theorem SameOver.read (h : SameOver m m' a n) : m.read a n = m'.read a n := by
  have hbytes : m.bytes a n = m'.bytes a n := by
    apply List.map_congr_left
    intro i hi
    rw [List.mem_range] at hi
    exact h.byte (a + i) (by omega) (by omega)
  unfold Flat.read
  rw [h.access, hbytes]

/-- Equal bytes are written alike, and nothing else changes. -/
theorem SameOver.write (h : SameOver m m' a n) {buffer buffer' : Buffer}
    (hbuffer : ∀ j < n, buffer j = buffer' j) :
    (m.write a (some buffer) n).1 = (m'.write a (some buffer') n).1 ∧
      SameOver (m.write a (some buffer) n).2 (m'.write a (some buffer') n).2 a n := by
  have haccess := h.access GM.WRITE
  unfold Flat.write
  refine ⟨haccess, ?_⟩
  dsimp only
  rw [← haccess]
  split
  · refine ⟨h.perm, ?_⟩
    intro x hax hxn
    dsimp only
    rw [if_pos ⟨hax, hxn⟩, if_pos ⟨hax, hxn⟩]
    exact hbuffer (x - a) (by omega)
  · exact h

theorem write_outside (m : Flat) (a n : ℕ) (buffer : Buffer) {x : ℕ}
    (hx : ¬ (a ≤ x ∧ x < a + n)) : (m.write a (some buffer) n).2.byte x = m.byte x := by
  unfold Flat.write
  dsimp only
  split
  · exact if_neg hx
  · rfl

end Flat

namespace GuestMemory

/-- No page of `[a, a + n)` is a JIT page. -/
def NoJit (m : GuestMemory) (a n : ℕ) : Prop :=
  ∀ x, a ≤ x → x < a + n → ∀ v, m.viewAt (pageBase x) = some v → v.jit = false

/-- Without JIT pages the thread does not matter. -/
theorem NoJit.answer {m : GuestMemory} {a n : ℕ} (h : m.NoJit a n) (hle : a + n ≤ uint64Max)
    (t : Option GMThread) (permission : Prot) :
    m.answer t a n permission = m.flat.access a n permission := by
  rw [← answer_flat m hle]
  unfold GuestMemory.answer
  rw [if_neg (by omega), if_neg (by omega)]
  apply checkPages_congr
  intro i hi
  obtain ⟨x, hax, hxn, hx⟩ := touched_iff.2 ⟨i, hi, rfl⟩
  have hjit := h x hax hxn
  rw [← look_div, hx] at hjit
  cases hv : m.look (a / pageSize + i) with
  | none => rfl
  | some v =>
      have hno := hjit v hv
      cases t <;> simp [deniedView, denied, hno]

/-- A write by a thread, on a heap that gives what is asked for. -/
theorem gmWrite_flat {m : GuestMemory} (hm : m.Wf) {heap : Heap} (hheap : ∀ k, heap k = true)
    {a n : ℕ} (hle : a + n ≤ uint64Max) (hjit : m.NoJit a n) (t : Option GMThread)
    (buffer : Buffer) :
    (m.gmWrite heap t a (some buffer) n).1 = (m.flat.write a (some buffer) n).1 ∧
      (m.gmWrite heap t a (some buffer) n).2.flat = (m.flat.write a (some buffer) n).2 := by
  obtain ⟨r, m', heq, -, hcases⟩ := copy_write hm heap t a (some buffer) n GM.WRITE
  have hanswer := hjit.answer hle t GM.WRITE
  unfold gmWrite Flat.write
  rw [heq, ← hanswer]
  dsimp only
  rcases hcases with ⟨hsame, hbad, rfl⟩ | ⟨-, -, -, ⟨hnull, -⟩ | ⟨-, k, hk⟩⟩ |
    ⟨b, hb, hn, hok, rfl, hw⟩
  · refine ⟨rfl, ?_⟩
    rw [flat_of_viewAt hsame.views]
    rcases hbad with hno | rfl
    · rw [if_neg hno]
    · have hzero := m.flat.write_zero a (some buffer)
      rw [Flat.write, ← hanswer] at hzero
      exact hzero.symm
  · cases hnull
  · rw [hheap k] at hk
    cases hk
  · cases hb
    refine ⟨hok.symm, ?_⟩
    rw [if_pos hok]
    exact hw.flat hok

end GuestMemory

/-! ## One step on each side -/

structure SameRegisters (c : GCRegisters) (r : GMMemoryRegisters) : Prop where
  x : r.x = c.x
  sp : r.sp = c.sp
  pc : r.pc = c.pc

theorem GCRegisters.put_pc (c : GCRegisters) (index : ℕ) (value : BitVec 64) (width : ℕ)
    (stack : Bool) : (c.put index value width stack).pc = c.pc := by
  unfold put
  dsimp only
  split_ifs <;> rfl

namespace SameRegisters

variable {c : GCRegisters} {r : GMMemoryRegisters}

theorem reg (h : SameRegisters c r) (index : ℕ) (stack : Bool) :
    c.reg index stack = r.get index stack := by
  unfold GCRegisters.reg GMMemoryRegisters.get
  rw [h.x, h.sp]

/-- A value that fits the width is written alike; the zero register takes none. -/
theorem put (h : SameRegisters c r) (index : ℕ) {value : BitVec 64} {width : ℕ}
    (hvalue : value &&& mask width = value) :
    SameRegisters (c.put index value width false) (r.set index value) := by
  unfold GCRegisters.put GMMemoryRegisters.set
  rw [hvalue]
  dsimp only
  split
  · exact ⟨by rw [h.x], h.sp, h.pc⟩
  · exact h

theorem next (h : SameRegisters c r) {pc : BitVec 64} (hpc : pc = c.pc) :
    SameRegisters { c with pc := pc + 4#64 } r.next :=
  ⟨h.x, h.sp, by rw [hpc, ← h.pc]; rfl⟩

end SameRegisters

/-- The memories after a step: the same bytes where the instruction looked, and
nothing else changed. -/
structure SameBytes (m : GuestMemory) (s : Space) (a n : ℕ) (m' : GuestMemory) (s' : Space) :
    Prop where
  touched : Flat.SameOver m'.flat s'.flat a n
  outside : ∀ x, ¬ (a ≤ x ∧ x < a + n) →
    m'.flat.byte x = m.flat.byte x ∧ s'.flat.byte x = s.flat.byte x

section Step

variable {m : GuestMemory} {s : Space} {i : BitVec 32} {c : GCRegisters} {r : GMMemoryRegisters}
  {heap : Heap} {a n : ℕ} {address : BitVec 64}

theorem store_same (hm : m.Wf) (hs : s.Inv) (hheap : ∀ k, heap k = true) (hin : s.Contains a n)
    (hfits : s.Fits a n) (hjit : m.NoJit a n) (h : Flat.SameOver m.flat s.flat a n)
    (t : Option GMThread) {buffer buffer' : Buffer} (hbuffer : ∀ j < n, buffer j = buffer' j) :
    (m.gmWrite heap t a (some buffer) n).1 = (s.gmSparseWrite a (some buffer') n).1 ∧
      SameBytes m s a n (m.gmWrite heap t a (some buffer) n).2
        (s.gmSparseWrite a (some buffer') n).2 := by
  have hle : a + n ≤ uint64Max := by
    have h1 := hs.stop_le
    have h2 := hin.2.1
    have h3 := hin.2.2
    omega
  obtain ⟨hresult, hflat⟩ := gmWrite_flat hm hheap hle hjit t buffer
  obtain ⟨hresult', hflat'⟩ := Space.gmSparseWrite_flat hs hin hfits buffer'
  obtain ⟨hsame, hover⟩ := h.write hbuffer
  refine ⟨by rw [hresult, hresult', hsame], ?_, ?_⟩
  · rw [hflat, hflat']
    exact hover
  · intro x hx
    rw [hflat, hflat']
    exact ⟨Flat.write_outside _ _ _ _ hx, Flat.write_outside _ _ _ _ hx⟩

theorem load_same (hm : m.Wf) (hs : s.Inv) (hin : s.Contains a n)
    (h : Flat.SameOver m.flat s.flat a n) (buffer buffer' : Buffer) :
    ((m.gmRead a (some buffer) n).1, (m.gmRead a (some buffer) n).2.2) =
        s.gmSparseRead a (some buffer') n ∧
      SameBytes m s a n (m.gmRead a (some buffer) n).2.1 s := by
  have hle : a + n ≤ uint64Max := by
    have h1 := hs.stop_le
    have h2 := hin.2.1
    have h3 := hin.2.2
    omega
  have hsome : ∀ b : Buffer, n ≠ 0 → some b ≠ none := fun b _ => Option.some_ne_none b
  obtain ⟨hread, -, hflat⟩ := GuestMemory.read_flat hm hle (hsome buffer)
  have hread' := Space.read_flat hs hin (hsome buffer')
  refine ⟨by rw [hread, hread', h.read], ?_, ?_⟩
  · rw [hflat]
    exact h
  · intro x _
    rw [hflat]
    exact ⟨rfl, rfl⟩

/-- A loaded value fits the register width. -/
theorem loaded_mask (i : BitVec 32) {bytes : List UInt8} (hlen : bytes.length ≤ plainSize i) :
    BitVec.ofNat 64 (littleEndian bytes) &&& mask (if plainSize i = 8 then 64 else 32) =
      BitVec.ofNat 64 (littleEndian bytes) := by
  by_cases h8 : plainSize i = 8
  · rw [if_pos h8, mask, if_pos rfl, BitVec.and_allOnes]
  · have hsize : plainSize i ≤ 4 := by
      have := plainSize_cases i
      omega
    have hlt : littleEndian bytes < 2 ^ 32 :=
      lt_of_lt_of_le (littleEndian_lt bytes)
        (le_trans (Nat.pow_le_pow_right (by decide) (hlen.trans hsize)) (by decide))
    rw [if_neg h8, mask, if_neg (by decide)]
    apply BitVec.eq_of_toNat_eq
    rw [BitVec.toNat_and, BitVec.toNat_ofNat, Nat.mod_eq_of_lt (by omega)]
    exact Nat.and_two_pow_sub_one_of_lt_two_pow hlt

theorem plainAccess_bytes (i : BitVec 32) (r : GMMemoryRegisters) {j : ℕ} (hj : j < plainSize i) :
    (plainAccess i r).bytes r j = byteOf (r.get (field i 0 31) false).toNat j := by
  change byteOf (r.get ((plainAccess i r).index (j / plainSize i)) false).toNat
    (j % plainSize i) = _
  rw [Nat.div_eq_of_lt hj, Nat.mod_eq_of_lt hj]
  rfl

theorem plainAccess_loadPart (i : BitVec 32) (r : GMMemoryRegisters) {bytes : List UInt8}
    (hlen : bytes.length = plainSize i) :
    (plainAccess i r).loadPart bytes r 0 =
      r.set (field i 0 31) (BitVec.ofNat 64 (littleEndian bytes)) := by
  have hvalue : scalarValue bytes 0 (plainSize i) = BitVec.ofNat 64 (littleEndian bytes) := by
    rw [scalarValue, Nat.zero_mul, List.drop_zero, List.take_of_length_le hlen.le]
  rw [← hvalue]
  rfl

theorem perform_plain_load (s : Space) (rn : ℕ) (r : GMMemoryRegisters)
    (hload : field i 22 3 = 1) :
    (plainAccess i r).perform s rn r =
      let answer := s.gmSparseRead (plainAccess i r).address.toNat (some fun _ => 0) (plainSize i)
      if answer.1 ≠ .ok then ⟨.fault, answer.1, r, s⟩
      else ⟨.ok, .ok, ((plainAccess i r).loadPart answer.2 r 0).next, s⟩ := by
  have hl : (plainAccess i r).load = true := by
    change (field i 22 3 != 0) = true
    rw [hload]
    rfl
  have htotal : (plainAccess i r).total = plainSize i := Nat.one_mul _
  unfold Access.perform
  rw [hl, htotal]
  rfl

theorem perform_plain_store (s : Space) (rn : ℕ) (r : GMMemoryRegisters)
    (hstore : field i 22 3 = 0) :
    (plainAccess i r).perform s rn r =
      let answer := s.gmSparseWrite (plainAccess i r).address.toNat
        (some ((plainAccess i r).bytes r)) (plainSize i)
      if answer.1 ≠ .ok then ⟨.fault, answer.1, r, answer.2⟩
      else ⟨.ok, .ok, r.next, answer.2⟩ := by
  have hl : (plainAccess i r).load = false := by
    change (field i 22 3 != 0) = false
    rw [hstore]
    rfl
  have htotal : (plainAccess i r).total = plainSize i := Nat.one_mul _
  unfold Access.perform
  rw [hl, htotal]
  rfl

theorem execute_plain_load (heap : Heap) (c : GCRegisters) (t : GMThread) (pc : BitVec 64)
    (m : GuestMemory) (hload : field i 22 3 = 1) :
    execute heap c t (plainDecoded pc i) m =
      let answer := m.gmRead (plainAddress i (c.reg (field i 5 31) true)).toNat
        (some fun _ => 0) (plainSize i)
      if answer.1 = .ok then
        (.retired { c.put (field i 0 31) (BitVec.ofNat 64 (littleEndian answer.2.2))
          (if plainSize i = 8 then 64 else 32) false with pc := c.pc + 4#64 }, answer.2.1)
      else (.fault answer.1, answer.2.1) := by
  have hop : (plainDecoded pc i).op = .load := if_pos hload
  unfold execute
  rw [hop]
  rfl

theorem execute_plain_store (heap : Heap) (c : GCRegisters) (t : GMThread) (pc : BitVec 64)
    (m : GuestMemory) (hload : ¬ field i 22 3 = 1) :
    execute heap c t (plainDecoded pc i) m =
      let answer := m.gmWrite heap (some t) (plainAddress i (c.reg (field i 5 31) true)).toNat
        (some fun j => byteOf (c.reg (field i 0 31) false).toNat j) (plainSize i)
      if answer.1 = .ok then (.retired { c with pc := c.pc + 4#64 }, answer.2)
      else (.fault answer.1, answer.2) := by
  have hop : (plainDecoded pc i).op = .store := if_neg hload
  unfold execute
  rw [hop]
  rfl

theorem execute_plain (hm : m.Wf) (hs : s.Inv) (hregs : SameRegisters c r)
    (hopc : field i 22 3 ≤ 1) (hheap : ∀ k, heap k = true) (t : GMThread)
    (ha : plainAddress i (r.get (field i 5 31) true) = address)
    (hin : s.Contains address.toNat (plainSize i))
    (hfits : field i 22 3 = 0 → s.Fits address.toNat (plainSize i))
    (hjit : m.NoJit address.toNat (plainSize i))
    (h : Flat.SameOver m.flat s.flat address.toNat (plainSize i))
    {e : Executed × GuestMemory} (he : execute heap c t (plainDecoded c.pc i) m = e)
    {k : Stepped} (hk : (plainAccess i r).perform s (field i 5 31) r = k) :
    SameBytes m s address.toNat (plainSize i) e.2 k.space ∧
      ((∃ c', e.1 = .retired c' ∧ k.step = .ok ∧ SameRegisters c' k.registers) ∨
        e.1 = .fault k.fault ∧ k.step = .fault ∧ k.fault ≠ .ok ∧ k.registers = r) := by
  have haddress : (plainAccess i r).address = address := ha
  rw [← hregs.reg] at ha
  by_cases hload : field i 22 3 = 1
  · obtain ⟨hread, hbytes⟩ := load_same hm hs hin h (fun _ => 0) fun _ => 0
    rw [perform_plain_load s _ r hload, haddress, ← hread] at hk
    rw [execute_plain_load heap c t _ m hload, ha] at he
    dsimp only at he hk
    by_cases hok : (m.gmRead address.toNat (some fun _ => 0) (plainSize i)).1 = .ok
    · have hlen : (m.gmRead address.toNat (some fun _ => 0) (plainSize i)).2.2.length =
          plainSize i := by
        have hbytes := (loads_copy hm (fun _ => true) none address.toNat (plainSize i)
          (fun _ => 0) GM.READ).bytes hok
        unfold gmRead
        rw [hbytes, List.length_map, List.length_range]
      rw [if_pos hok] at he
      rw [if_neg (not_not.2 hok), plainAccess_loadPart i r hlen] at hk
      rw [← he, ← hk]
      exact ⟨hbytes, .inl ⟨_, rfl, rfl, (hregs.put _ (loaded_mask i hlen.le)).next (GCRegisters.put_pc ..).symm⟩⟩
    · rw [if_neg hok] at he
      rw [if_pos hok] at hk
      rw [← he, ← hk]
      exact ⟨hbytes, .inr ⟨rfl, rfl, hok, rfl⟩⟩
  · have hstore : field i 22 3 = 0 := by omega
    have hbuffer : ∀ j < plainSize i,
        byteOf (c.reg (field i 0 31) false).toNat j = (plainAccess i r).bytes r j := by
      intro j hj
      rw [plainAccess_bytes i r hj, hregs.reg]
    obtain ⟨hresult, hbytes⟩ :=
      store_same hm hs hheap hin (hfits hstore) hjit h (some t) hbuffer
    rw [perform_plain_store s _ r hstore, haddress] at hk
    rw [execute_plain_store heap c t _ m hload, ha] at he
    dsimp only at he hk
    rw [← hresult] at hk
    by_cases hok : (m.gmWrite heap (some t) address.toNat
        (some fun j => byteOf (c.reg (field i 0 31) false).toNat j) (plainSize i)).1 = .ok
    · rw [if_pos hok] at he
      rw [if_neg (not_not.2 hok)] at hk
      rw [← he, ← hk]
      exact ⟨hbytes, .inl ⟨_, rfl, rfl, hregs.next rfl⟩⟩
    · rw [if_neg hok] at he
      rw [if_pos hok] at hk
      rw [← he, ← hk]
      exact ⟨hbytes, .inr ⟨rfl, rfl, hok, rfl⟩⟩

end Step

/-! ## One step of each interpreter -/

section Outcomes

variable {heap : Heap} {c c' : GuestCPU} {m m' m'' : GuestMemory} {d : GCDecoded}

theorem step_retired {registers : GCRegisters}
    (hlookup : (c.flush m).lookup m = (.ok d, c', m'))
    (h : execute heap c'.registers c'.thread d m' = (.retired registers, m'')) :
    c.step heap m =
      (none, { c' with
        registers := registers
        retired := c'.retired + 1#64
        memoryResult := if d.op = .load ∨ d.op = .store then .ok else c'.memoryResult }, m'') := by
  unfold GuestCPU.step
  rw [hlookup]
  dsimp only
  rw [h]

theorem step_fault {result : GMResult} (hlookup : (c.flush m).lookup m = (.ok d, c', m'))
    (h : execute heap c'.registers c'.thread d m' = (.fault result, m'')) :
    c.step heap m = (some .memory, { c' with memoryResult := result }, m'') := by
  unfold GuestCPU.step
  rw [hlookup]
  dsimp only
  rw [h]

end Outcomes

section OneStep

variable (heap : ℕ → Heap) {c c' : GuestCPU} {m m' : GuestMemory} {returnPc : BitVec 64}

theorem gcRun_one_none (hreturn : c.registers.pc ≠ returnPc)
    (h : c.step (heap 0) m = (none, c', m')) :
    gcRun heap (fun _ => []) returnPc 1 c m =
      (if c'.registers.pc = returnPc then .returned else .budget, c', m') := by
  rw [gcRun]
  dsimp only [outsideAll, List.foldl]
  rw [if_neg hreturn, h]
  rfl

theorem gcRun_one_some {result : GCResult} (hreturn : c.registers.pc ≠ returnPc)
    (h : c.step (heap 0) m = (some result, c', m')) :
    gcRun heap (fun _ => []) returnPc 1 c m = (result, c', m') := by
  rw [gcRun]
  dsimp only [outsideAll, List.foldl]
  rw [if_neg hreturn, h]

end OneStep

/-- One step of each interpreter: the memories end up the same where the
instruction looked, and the interpreters both went on with the same registers or
both failed with the same result and the registers they had. -/
structure SameOutcome (m : GuestMemory) (s : Space) (a n : ℕ) (r : GMMemoryRegisters)
    (g : GCResult × GuestCPU × GuestMemory) (k : Stepped) : Prop where
  bytes : SameBytes m s a n g.2.2 k.space
  registers : SameRegisters g.2.1.registers k.registers
  ended : (g.1 = .budget ∨ g.1 = .returned) ∧ k.step = .ok ∨
    g.1 = .memory ∧ k.step = .fault ∧ g.2.1.memoryResult = k.fault ∧ k.fault ≠ .ok ∧
      k.registers = r

theorem fetch_aligned {m : GuestMemory} (hm : m.Wf) {t : GMThread} {a : ℕ} {i : BitVec 32}
    (h : m.fetchOf t a = .ok i) : a % 4 = 0 ∧ a ≤ uint64Max - 4 := by
  unfold fetchOf at h
  dsimp only at h
  split at h
  swap
  · cases h
  rename_i hok
  unfold gmFetch at hok
  split at hok
  · cases hok
  rename_i hmod
  refine ⟨not_not.1 hmod, ?_⟩
  obtain ⟨f, heq⟩ := copy_read hm (fun _ => true) (some t) a (fun _ => 0) 4 GM.EXEC
  dsimp only at hok
  rw [heq] at hok
  unfold GuestMemory.answer at hok
  dsimp only at hok
  split at hok
  · cases hok
  · unfold uint64Max at *
    omega

/-- On a plain load or store one step of `gc_run` and one `gm_memory_step` agree,
where the memories do over the bytes it is about. -/
theorem plain_step_agrees {c : GuestCPU} {m : GuestMemory} {s : Space} {i : BitVec 32}
    {r : GMMemoryRegisters} {heap : ℕ → Heap} {returnPc : BitVec 64} (fault : GMResult)
    (hi : IsPlain i) (hm : m.Reachable) (hs : s.Reachable) (hcache : CacheOk c m)
    (hfetch : m.fetchOf c.thread c.registers.pc.toNat = .ok i)
    (hreturn : c.registers.pc ≠ returnPc) (hregs : SameRegisters c.registers r)
    (hsp : field i 5 31 = 31 → r.sp &&& 15#64 = 0#64) {address : BitVec 64}
    (ha : plainAddress i (r.get (field i 5 31) true) = address)
    (hin : s.Contains address.toNat (plainSize i))
    (hsame : Flat.SameOver m.flat s.flat address.toNat (plainSize i))
    (hjit : m.NoJit address.toNat (plainSize i)) (hheap : ∀ k, heap 0 k = true)
    (hfits : field i 22 3 = 0 → s.Fits address.toNat (plainSize i)) :
    SameOutcome m s address.toNat (plainSize i) r
      (gcRun heap (fun _ => []) returnPc 1 c m) (gmMemoryStep s i r fault) := by
  obtain ⟨hflush, hgen, hwp, hfr, -, hft⟩ := flush_spec hcache
  obtain ⟨c', m', hlookup, -, hbut, hr', -, ht'⟩ := lookup_spec hm.wf hflush hgen hwp
  rw [hfr, hft, hfetch] at hlookup
  rw [hfr] at hr'
  have hflat : m'.flat = m.flat := by
    rw [hbut.eq]
    exact flat_of_viewAt fun _ => rfl
  have hjit' : m'.NoJit address.toNat (plainSize i) := by
    rw [hbut.eq]
    exact hjit
  obtain ⟨hpc, hpc'⟩ := fetch_aligned hm.wf hfetch
  have hmask : r.pc &&& 3#64 = 0#64 := by
    apply BitVec.eq_of_toNat_eq
    rw [BitVec.toNat_and, hregs.pc]
    exact (Nat.and_two_pow_sub_one_eq_mod _ 2).trans hpc
  rw [← hregs.pc] at hpc'
  rw [gmMemoryStep_plain hi s fault hpc' hmask hsp]
  rw [← hr'] at hregs
  rw [← hflat] at hsame
  obtain ⟨hbytes, hended⟩ := execute_plain (hbut.wf hm.wf) hs.inv hregs hi.2.2 hheap c'.thread ha
    hin hfits hjit' hsame rfl rfl
  dsimp only [Except.map] at hlookup
  rw [decode_plain hi, ← hr'] at hlookup
  have hop : (plainDecoded c'.registers.pc i).op = .load ∨
      (plainDecoded c'.registers.pc i).op = .store := by
    unfold plainDecoded
    dsimp only
    split
    · exact .inl rfl
    · exact .inr rfl
  generalize he : execute (heap 0) c'.registers c'.thread (plainDecoded c'.registers.pc i) m' = e at *
  obtain ⟨x, m''⟩ := e
  have hbytes' : SameBytes m s address.toNat (plainSize i) m''
      ((plainAccess i r).perform s (field i 5 31) r).space :=
    ⟨hbytes.touched, fun y hy => ⟨(hbytes.outside y hy).1.trans (by rw [hflat]),
      (hbytes.outside y hy).2⟩⟩
  rcases hended with ⟨registers, hx, hok, hregs'⟩ | ⟨hx, hfault, hno, hr⟩
  · dsimp only at hx
    subst hx
    rw [gcRun_one_none heap hreturn (step_retired hlookup he), if_pos hop]
    refine ⟨hbytes', hregs', .inl ⟨?_, hok⟩⟩
    dsimp only
    split
    · exact .inr rfl
    · exact .inl rfl
  · dsimp only at hx
    subst hx
    rw [gcRun_one_some heap hreturn (step_fault hlookup he)]
    refine ⟨hbytes', ?_, .inr ⟨rfl, hfault, rfl, hno, hr⟩⟩
    rw [hr]
    exact hregs

section Fixture

private def plainWord : BitVec 32 := 0xf94003e1#32

private def plainWrite : MemoryOp :=
  .write (fun _ => true) none 16384 (some fun j => byteOf 0xf94003e1 j) 4

/-- A page that holds the instruction, and zeroes after it. -/
private def plainMemory : GuestMemory :=
  plainWrite.apply ((MemoryOp.map (fun _ => true) 16384 16384 7#32 7#32 false false).apply .fresh)

private theorem reachable_plainMemory : plainMemory.Reachable :=
  (Reachable.fresh.call (.map (fun _ => true) 16384 16384 7#32 7#32 false false)).call plainWrite

private def plainSpace : Space :=
  { base := 16384, stop := 32768, generation := 0, mappingGeneration := 1
    backing := fun _ => zeroPage, capacity := 1, resident := 0
    nextBacking := 0, freeBacking := [], slotCount := 16
    pages := fun _ => ⟨0, 0, 0⟩, regions := [⟨16384, 32768, (7#32, 7#32)⟩] }

private theorem reachable_plainSpace : plainSpace.Reachable :=
  ⟨16384, 16384, 16384, true, fun _ => zeroPage, _, [.map 16384 16384 7#32 7#32 false], rfl, rfl⟩

private def plainRegisters : GMMemoryRegisters := ⟨fun _ => 0#64, 16400#64, 16384#64, fun _ _ => 0⟩

private theorem plainMemory_fetch :
    plainMemory.fetchOf ⟨true⟩ 16384 = .ok plainWord := rfl

private theorem plain_sameOver : Flat.SameOver plainMemory.flat plainSpace.flat 16400 8 := by
  constructor
  · intro x h1 h2
    interval_cases x <;> rfl
  · intro x h1 h2
    interval_cases x <;> rfl

private theorem plain_noJit : plainMemory.NoJit 16400 8 := by
  intro x h1 h2 v hv
  interval_cases x <;> (cases hv; rfl)

/-- A load from the page of the instruction. -/
theorem plain_step_agrees_load :
    SameOutcome plainMemory plainSpace (16400#64).toNat (plainSize plainWord) plainRegisters
      (gcRun (fun _ _ => true) (fun _ => []) 0#64 1 (gcReset 16384#64 16400#64) plainMemory)
      (gmMemoryStep plainSpace plainWord plainRegisters .ok) :=
  plain_step_agrees .ok (by decide) reachable_plainMemory reachable_plainSpace
    (cacheOk_gcReset 16384#64 16400#64 plainMemory) plainMemory_fetch (by decide) ⟨rfl, rfl, rfl⟩
    (fun _ => rfl) rfl (by decide) plain_sameOver plain_noJit (fun _ => rfl)
    (by decide)

end Fixture

end Tolkara
