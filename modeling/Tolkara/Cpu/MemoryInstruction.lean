import Tolkara.Cpu.Decode
import Tolkara.Memory.Sparse

/-!
# Data-access instructions on the sparse memory

`gm_memory_step` of `runtime/GuestMemoryInstruction.c`: one load or store, one
atomic instruction or one vector structure access, on a register file with
general and vector registers. The plain accesses are decoded into an `Access`
first and performed after that. An answer carries everything the function
leaves behind: `*fault` keeps its old value where the source does not set it.
-/

namespace Tolkara

abbrev VectorBytes := ℕ → UInt8

structure GMMemoryRegisters where
  x : Fin 31 → BitVec 64
  sp : BitVec 64
  pc : BitVec 64
  vector : Fin 32 → VectorBytes

inductive GMMemoryStep where
  | ok
  | unsupported
  | fault
deriving DecidableEq, Repr

namespace GMMemoryRegisters

def get (r : GMMemoryRegisters) (index : ℕ) (stack : Bool) : BitVec 64 :=
  if h : index < 31 then r.x ⟨index, h⟩ else if stack then r.sp else 0#64

def set (r : GMMemoryRegisters) (index : ℕ) (value : BitVec 64) : GMMemoryRegisters :=
  if h : index < 31 then { r with x := Function.update r.x ⟨index, h⟩ value } else r

/-- A base register; register 31 is the stack pointer here. -/
def setBase (r : GMMemoryRegisters) (index : ℕ) (value : BitVec 64) : GMMemoryRegisters :=
  if index = 31 then { r with sp := value } else r.set index value

def setVector (r : GMMemoryRegisters) (index : ℕ) (bytes : VectorBytes) : GMMemoryRegisters :=
  { r with vector := Function.update r.vector (Fin.ofNat 32 index) bytes }

def vectorAt (r : GMMemoryRegisters) (index : ℕ) : VectorBytes := r.vector (Fin.ofNat 32 index)

def next (r : GMMemoryRegisters) : GMMemoryRegisters := { r with pc := r.pc + 4#64 }

end GMMemoryRegisters

/-- Byte `j` of the `size` bytes of each of two values, the first one first. -/
def scalarBytes (size : ℕ) (value : ℕ → BitVec 64) : Buffer :=
  fun j => byteOf (value (j / size)).toNat (j % size)

def scalarValue (bytes : List UInt8) (part size : ℕ) : BitVec 64 :=
  BitVec.ofNat 64 (littleEndian ((bytes.drop (part * size)).take size))

/-- What a step leaves behind. -/
structure Stepped where
  step : GMMemoryStep
  fault : GMResult
  registers : GMMemoryRegisters
  space : Space

/-! ## Vector structures -/

/-- The shape of a vector structure access. -/
structure Structure where
  element : ℕ
  registers : ℕ
  repeats : ℕ
  lane : ℕ
  replicate : Bool

def singleStructure (i : BitVec 32) (load : Bool) (q size : ℕ) : Option Structure :=
  let op := field i 13 7
  let s := field i 12 1
  let scale := op / 2
  let registers := op % 2 * 2 + field i 21 1 + 1
  if scale = 3 then
    if load = false ∨ s = 1 then none else some ⟨2 ^ size, registers, 1, 0, true⟩
  else if scale = 0 then some ⟨1, registers, 1, q * 8 + s * 4 + size, false⟩
  else if scale = 1 then
    if size % 2 = 1 then none else some ⟨2, registers, 1, q * 4 + s * 2 + size / 2, false⟩
  else if size / 2 = 1 ∨ size % 2 = 1 ∧ s = 1 then none
  else if size % 2 = 1 then some ⟨8, registers, 1, q, false⟩
  else some ⟨4, registers, 1, q * 2 + s, false⟩

def multipleStructure (i : BitVec 32) (q size : ℕ) : Option Structure :=
  let shape : Option (ℕ × ℕ) :=
    match field i 12 15 with
    | 0 => some (4, 1)
    | 2 => some (1, 4)
    | 4 => some (3, 1)
    | 6 => some (1, 3)
    | 7 => some (1, 1)
    | 8 => some (2, 1)
    | 10 => some (1, 2)
    | _ => none
  if field i 21 1 = 1 then none
  else match shape with
    | none => none
    | some (registers, repeats) =>
      if size = 3 ∧ q = 0 ∧ registers ≠ 1 then none
      else some ⟨2 ^ size, registers, repeats, 0, false⟩

/-- The register and the byte position in it of each element, in memory order. -/
def elements (t : Structure) (rt lanes : ℕ) (single : Bool) : List (ℕ × ℕ) :=
  (List.range t.repeats).flatMap fun rep =>
    (List.range lanes).flatMap fun e =>
      (List.range t.registers).map fun reg =>
        ((rt + rep * t.registers + reg) % 32, (if single then t.lane else e) * t.element)

/-- Byte `p` of register `k` belongs to one of the elements. -/
def Covered (element : ℕ) (l : List (ℕ × ℕ)) (k : Fin 32) (p : ℕ) : Prop :=
  ∃ e ∈ l, Fin.ofNat 32 e.1 = k ∧ e.2 ≤ p ∧ p < e.2 + element

def copyInto (v : VectorBytes) (position : ℕ) (bytes : Buffer) (offset n : ℕ) : VectorBytes :=
  fun p => if position ≤ p ∧ p < position + n then bytes (offset + (p - position)) else v p

def loadElements (t : Structure) (vectorBytes : ℕ) (bytes : Buffer) :
    List (ℕ × ℕ) → ℕ → GMMemoryRegisters → GMMemoryRegisters
  | [], _, r => r
  | (index, position) :: rest, offset, r =>
    let v :=
      if t.replicate then
        (List.range (vectorBytes / t.element)).foldl
          (fun v k => copyInto v (k * t.element) bytes offset t.element) (r.vectorAt index)
      else copyInto (r.vectorAt index) position bytes offset t.element
    loadElements t vectorBytes bytes rest (offset + t.element) (r.setVector index v)

def storeElements (t : Structure) (r : GMMemoryRegisters) :
    List (ℕ × ℕ) → ℕ → Buffer → Buffer
  | [], _, bytes => bytes
  | (index, position) :: rest, offset, bytes =>
    storeElements t r rest (offset + t.element)
      (copyInto bytes offset (r.vectorAt index) position t.element)

/-- The shape of a structure access, where the encoding is supported. -/
def structureOf (i : BitVec 32) : Option Structure :=
  let size := field i 10 3
  let q := field i 30 1
  if i &&& 0xbf000000#32 ≠ (if i.getLsbD 24 then 0x0d000000#32 else 0x0c000000#32) ∨
      i.getLsbD 23 = false ∧ field i 16 31 ≠ 0 then none
  else if i.getLsbD 24 then singleStructure i (i.getLsbD 22) q size
  else multipleStructure i q size

def structureStep (s : Space) (i : BitVec 32) (r : GMMemoryRegisters) (fault : GMResult) :
    Stepped :=
  let rt := field i 0 31
  let rn := field i 5 31
  let rm := field i 16 31
  let single := i.getLsbD 24
  match structureOf i with
  | none => ⟨.unsupported, fault, r, s⟩
  | some t =>
    let vectorBytes := if field i 30 1 = 1 then 16 else 8
    let lanes := if single then 1 else vectorBytes / t.element
    let total := t.registers * t.repeats * lanes * t.element
    let address := r.get rn true
    let list := elements t rt lanes single
    let back (r : GMMemoryRegisters) : GMMemoryRegisters :=
      if i.getLsbD 23 then
        r.setBase rn (address + (if rm = 31 then BitVec.ofNat 64 total else r.get rm false))
      else r
    if i.getLsbD 22 then
      let answer := s.gmSparseRead address.toNat (some fun _ => 0) total
      if answer.1 ≠ .ok then ⟨.fault, answer.1, r, s⟩
      else
        let cleared :=
          if single = false ∨ t.replicate then
            (List.range (t.registers * t.repeats)).foldl
              (fun r n => r.setVector (rt + n) fun _ => 0) r
          else r
        let bytes : Buffer := fun j => answer.2.getD j 0
        ⟨.ok, .ok, (back (loadElements t vectorBytes bytes list 0 cleared)).next, s⟩
    else
      let answer := s.gmSparseWrite address.toNat
        (some (storeElements t r list 0 fun _ => 0)) total
      if answer.1 ≠ .ok then ⟨.fault, answer.1, r, answer.2⟩
      else ⟨.ok, .ok, (back r).next, answer.2⟩

/-! ## Atomic instructions -/

/-- The operations of `gm_sparse_atomic` by their number. -/
def atomicOf : ℕ → Option GMSparseAtomic
  | 0 => some .add
  | 1 => some .clear
  | 2 => some .xor
  | 3 => some .set
  | 4 => some .signedMax
  | 5 => some .signedMin
  | 6 => some .unsignedMax
  | 7 => some .unsignedMin
  | 8 => some .swap
  | _ => none

/-- CASP: compare and swap a pair. -/
def IsCasp (i : BitVec 32) : Prop := i &&& 0xbfa07c00#32 = 0x08207c00#32

/-- CAS: compare and swap. -/
def IsCas (i : BitVec 32) : Prop := i &&& 0x3fa07c00#32 = 0x08a07c00#32

/-- The read-modify-write instructions. -/
def IsUpdate (i : BitVec 32) : Prop := i &&& 0x3f200c00#32 = 0x38200000#32

def IsRcpc (i : BitVec 32) : Prop := i &&& 0x3ffffc00#32 = 0x38bfc000#32

/-- LDAR and STLR. -/
def IsOrdered (i : BitVec 32) : Prop := i &&& 0x3f9ffc00#32 = 0x089ffc00#32

/-- An access to a single register. -/
def IsSingle (i : BitVec 32) : Prop :=
  i &&& 0x3b000000#32 = 0x39000000#32 ∨ i &&& 0x3b000000#32 = 0x38000000#32

/-- An access to a pair of registers. -/
def IsPair (i : BitVec 32) : Prop := i &&& 0x3a000000#32 = 0x28000000#32

instance (i : BitVec 32) : Decidable (IsCasp i) := inferInstanceAs (Decidable (_ = _))

instance (i : BitVec 32) : Decidable (IsCas i) := inferInstanceAs (Decidable (_ = _))

instance (i : BitVec 32) : Decidable (IsUpdate i) := inferInstanceAs (Decidable (_ = _))

instance (i : BitVec 32) : Decidable (IsRcpc i) := inferInstanceAs (Decidable (_ = _))

instance (i : BitVec 32) : Decidable (IsOrdered i) := inferInstanceAs (Decidable (_ = _))

instance (i : BitVec 32) : Decidable (IsSingle i) := inferInstanceAs (Decidable (_ ∨ _))

instance (i : BitVec 32) : Decidable (IsPair i) := inferInstanceAs (Decidable (_ = _))

def atomicStep (s : Space) (i : BitVec 32) (r : GMMemoryRegisters) (fault : GMResult) : Stepped :=
  let rt := field i 0 31
  let rn := field i 5 31
  let rs := field i 16 31
  let address := (r.get rn true).toNat
  if IsCasp i then
    if rs % 2 = 1 ∨ rt % 2 = 1 then ⟨.unsupported, fault, r, s⟩
    else
      let size := if field i 30 1 = 1 then 8 else 4
      let answer := s.gmSparseCompareExchange address
        (some (scalarBytes size fun j => r.get (rs + j) false))
        (some (scalarBytes size fun j => r.get (rt + j) false)) true (size * 2)
      if answer.1 ≠ .ok then ⟨.fault, answer.1, r, answer.2.1⟩
      else
        let r := (r.set rs (scalarValue answer.2.2 0 size)).set (rs + 1)
          (scalarValue answer.2.2 1 size)
        ⟨.ok, .ok, r.next, answer.2.1⟩
  else
    let size := 2 ^ field i 30 3
    if IsCas i then
      let answer := s.gmSparseCompareExchange address
        (some (scalarBytes size fun _ => r.get rs false))
        (some (scalarBytes size fun _ => r.get rt false)) true size
      if answer.1 ≠ .ok then ⟨.fault, answer.1, r, answer.2.1⟩
      else ⟨.ok, .ok, (r.set rs (scalarValue answer.2.2 0 size)).next, answer.2.1⟩
    else if IsUpdate i then
      match atomicOf (field i 12 15) with
      | none => ⟨.unsupported, fault, r, s⟩
      | some operation =>
        let answer := s.gmSparseAtomic address size (some operation) (r.get rs false) true
        if answer.1 ≠ .ok then ⟨.fault, answer.1, r, answer.2.1⟩
        else ⟨.ok, .ok, (r.set rt (answer.2.2.getD 0#64)).next, answer.2.1⟩
    else ⟨.unsupported, fault, r, s⟩

/-! ## Plain accesses -/

/-- A plain access with its addresses worked out. -/
structure Access where
  load : Bool
  vector : Bool
  pair : Bool
  sign : Bool
  writeback : Bool
  size : ℕ
  rt : ℕ
  rt2 : ℕ
  destinationWidth : ℕ
  address : BitVec 64
  newbase : BitVec 64

/-- LDAR, STLR and LDAPR; `none` is a misaligned address. -/
def orderedAccess (i : BitVec 32) (r : GMMemoryRegisters) : Option Access :=
  let address := r.get (field i 5 31) true
  let size := 2 ^ field i 30 3
  if address.toNat % size ≠ 0 then none
  else
    some
      { load := decide (IsRcpc i) || i.getLsbD 22, vector := i.getLsbD 26, pair := false
        sign := false, writeback := false, size := size, rt := field i 0 31, rt2 := 0
        destinationWidth := 64, address := address, newbase := address }

/-- An access to one register, by immediate or register addressing. -/
def singleAccess (i : BitVec 32) (r : GMMemoryRegisters) : Option Access :=
  let rt := field i 0 31
  let rn := field i 5 31
  let vector := i.getLsbD 26
  let scale := field i 30 3
  let opc := field i 22 3
  let base := r.get rn true
  if vector = true ∧ opc ≥ 2 ∧ scale ≠ 0 then none
  else if vector = false ∧ opc ≥ 2 ∧ (scale = 3 ∨ scale = 2 ∧ opc = 3) then none
  else
    let size := if vector = true ∧ opc ≥ 2 then 16 else 2 ^ scale
    let access : Access :=
      { load := if vector then opc % 2 == 1 else opc != 0
        vector := vector, pair := false, sign := !vector && decide (opc ≥ 2)
        writeback := false, size := size, rt := rt, rt2 := 0
        destinationWidth := if vector = false ∧ opc = 3 then 32 else 64
        address := base, newbase := base }
    if i.getLsbD 24 then
      some { access with address := base + BitVec.ofNat 64 (field i 10 4095 * size) }
    else
      let mode := field i 10 3
      if i.getLsbD 21 then
        let option := field i 13 7
        if mode ≠ 2 ∨ option / 2 % 2 = 0 then none
        else
          let offset := r.get (field i 16 31) false
          let offset := if option % 2 = 0 then offset &&& 0xffffffff#64 else offset
          let offset := if option = 6 then signExtend offset 32 else offset
          some { access with
            address := base + offset * (if i.getLsbD 12 then BitVec.ofNat 64 size else 1#64) }
      else if vector = true ∧ mode = 2 then none
      else
        let newbase := base + signExtend (BitVec.ofNat 64 (field i 12 511)) 9
        let writeback := mode == 1 || mode == 3
        if writeback = true ∧ vector = false ∧ rn ≠ 31 ∧ rn = rt then none
        else
          some { access with
            address := if mode ≠ 1 then newbase else base
            newbase := newbase
            writeback := writeback }

def pairAccess (i : BitVec 32) (r : GMMemoryRegisters) : Option Access :=
  let rt := field i 0 31
  let rn := field i 5 31
  let rt2 := field i 10 31
  let vector := i.getLsbD 26
  let opc := field i 30 3
  let mode := field i 23 3
  let load := i.getLsbD 22
  let base := r.get rn true
  let shape : Option (ℕ × Bool) :=
    if vector then if opc = 3 then none else some (4 * 2 ^ opc, false)
    else if opc = 0 then some (4, false)
    else if opc = 2 then some (8, false)
    else if opc = 1 ∧ load = true ∧ mode ≠ 0 then some (4, true)
    else none
  match shape with
  | none => none
  | some (size, sign) =>
    let writeback := mode == 1 || mode == 3
    if load = true ∧ rt = rt2 then none
    else if writeback = true ∧ vector = false ∧ rn ≠ 31 ∧ (rn = rt ∨ rn = rt2) then none
    else
      let newbase :=
        base + signExtend (BitVec.ofNat 64 (field i 15 127)) 7 * BitVec.ofNat 64 size
      some
        { load := load, vector := vector, pair := true, sign := sign, writeback := writeback
          size := size, rt := rt, rt2 := rt2, destinationWidth := 64
          address := if mode ≠ 1 then newbase else base, newbase := newbase }

namespace Access

def index (d : Access) (part : ℕ) : ℕ := if part = 0 then d.rt else d.rt2

def total (d : Access) : ℕ := (if d.pair then 2 else 1) * d.size

def bytes (d : Access) (r : GMMemoryRegisters) : Buffer :=
  if d.vector then fun j => r.vectorAt (d.index (j / d.size)) (j % d.size)
  else scalarBytes d.size fun part => r.get (d.index part) false

def loadPart (d : Access) (bytes : List UInt8) (r : GMMemoryRegisters) (part : ℕ) :
    GMMemoryRegisters :=
  if d.vector then
    r.setVector (d.index part)
      (copyInto (fun _ => 0) 0 (fun j => bytes.getD j 0) (part * d.size) d.size)
  else
    let value := scalarValue bytes part d.size
    let value := if d.sign then signExtend value (d.size * 8) else value
    r.set (d.index part) (if d.destinationWidth = 32 then value &&& 0xffffffff#64 else value)

/-- The end of `gm_memory_step`. -/
def perform (d : Access) (s : Space) (rn : ℕ) (r : GMMemoryRegisters) : Stepped :=
  let back (r : GMMemoryRegisters) : GMMemoryRegisters :=
    if d.writeback then r.setBase rn d.newbase else r
  if d.load then
    let answer := s.gmSparseRead d.address.toNat (some fun _ => 0) d.total
    if answer.1 ≠ .ok then ⟨.fault, answer.1, r, s⟩
    else
      let r := (List.range (if d.pair then 2 else 1)).foldl (d.loadPart answer.2) r
      ⟨.ok, .ok, (back r).next, s⟩
  else
    let answer := s.gmSparseWrite d.address.toNat (some (d.bytes r)) d.total
    if answer.1 ≠ .ok then ⟨.fault, answer.1, r, answer.2⟩
    else ⟨.ok, .ok, (back r).next, answer.2⟩

end Access

def gmMemoryStep (s : Space) (i : BitVec 32) (r : GMMemoryRegisters) (fault : GMResult) :
    Stepped :=
  let rn := field i 5 31
  if r.pc.toNat > uint64Max - 4 ∨ r.pc &&& 3#64 ≠ 0#64 ∨ rn = 31 ∧ r.sp &&& 15#64 ≠ 0#64 then
    ⟨.fault, .invalid, r, s⟩
  else if i &&& 0xbe000000#32 = 0x0c000000#32 then structureStep s i r fault
  else if ¬ IsRcpc i ∧ (IsCasp i ∨ IsCas i ∨ IsUpdate i) then atomicStep s i r fault
  else if IsRcpc i ∨ IsOrdered i then
    match orderedAccess i r with
    | none => ⟨.fault, .invalid, r, s⟩
    | some d => d.perform s rn r
  else
    match if IsSingle i then singleAccess i r else if IsPair i then pairAccess i r else none with
    | none => ⟨.unsupported, fault, r, s⟩
    | some d => d.perform s rn r

end Tolkara
