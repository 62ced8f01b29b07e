import Tolkara.Cpu.MemoryInstruction

/-!
# Exclusive sequences

`gm_exclusive_sequence` of `runtime/GuestExclusive.c`. Native code traps at an
exclusive instruction, and the runtime executes from there until the sequence is
over: up to 32 instructions, of which all but the last only read the memory.
The caller sees new registers only when the whole sequence succeeded.

The fetch function is a parameter that gives the word at an address, or nothing;
it may depend on how many steps are left, since the one of the source carries a
context along.
-/

namespace Tolkara

structure GMExclusiveDiagnostic where
  pc : BitVec 64
  reason : String
deriving DecidableEq

/-- LDXR, STXR and their pair and ordered forms. -/
def GmExclusiveInstruction (i : BitVec 32) : Prop :=
  i &&& 0x3f800000#32 = 0x08000000#32 ∧ (i.getLsbD 21 = false ∨ field i 30 3 ≥ 2)

instance (i : BitVec 32) : Decidable (GmExclusiveInstruction i) :=
  inferInstanceAs (Decidable (_ ∧ _))

def GCRegisters.set (r : GCRegisters) (index : ℕ) (value : BitVec 64) : GCRegisters :=
  if h : index < 31 then { r with x := Function.update r.x ⟨index, h⟩ value } else r

/-- What one instruction of a sequence leaves behind. -/
structure SequenceStep where
  step : GMMemoryStep
  fault : GMResult
  registers : GCRegisters
  monitor : GMSparseExclusive
  finished : Bool
  space : Space

/-- The encodings `exclusive` refuses. -/
def ExclusiveUnsupported (i : BitVec 32) : Prop :=
  let rt := field i 0 31
  let rn := field i 5 31
  let rt2 := field i 10 31
  let rs := field i 16 31
  let pair := i.getLsbD 21
  let load := i.getLsbD 22
  pair = false ∧ rt2 ≠ 31 ∨ load = true ∧ rs ≠ 31 ∨ load = true ∧ pair = true ∧ rt = rt2 ∨
    load = false ∧ rs ≠ 31 ∧ (rs = rn ∨ rs = rt ∨ pair = true ∧ rs = rt2)

instance (i : BitVec 32) : Decidable (ExclusiveUnsupported i) :=
  inferInstanceAs (Decidable (_ ∨ _ ∨ _ ∨ _))

def exclusive (s : Space) (i : BitVec 32) (r : GCRegisters) (monitor : GMSparseExclusive)
    (fault : GMResult) : SequenceStep :=
  let rt := field i 0 31
  let rn := field i 5 31
  let rt2 := field i 10 31
  let rs := field i 16 31
  let size := 2 ^ field i 30 3
  let count := if i.getLsbD 21 then 2 else 1
  let index (part : ℕ) : ℕ := if part = 0 then rt else rt2
  if ExclusiveUnsupported i then ⟨.unsupported, fault, r, monitor, false, s⟩
  else if rn = 31 ∧ r.sp &&& 15#64 ≠ 0#64 ∨ r.pc &&& 3#64 ≠ 0#64 ∨
      r.pc.toNat > uint64Max - 4 then
    ⟨.fault, .invalid, r, monitor, false, s⟩
  else
    let address := (r.reg rn true).toNat
    if i.getLsbD 22 then
      let answer := s.gmSparseLoadExclusive address (some fun _ => 0) (size * count) (some monitor)
      let monitor := answer.2.2.getD monitor
      if answer.1 ≠ .ok then ⟨.fault, answer.1, r, monitor, false, s⟩
      else
        let r := (List.range count).foldl
          (fun r part => r.set (index part) (scalarValue answer.2.1 part size)) r
        ⟨.ok, .ok, { r with pc := r.pc + 4#64 }, monitor, false, s⟩
    else
      let answer := s.gmSparseStoreExclusive address
        (some (scalarBytes size fun part => r.reg (index part) false)) (size * count)
        (some monitor) true
      let monitor := answer.2.2.1.getD monitor
      if answer.1 ≠ .ok then ⟨.fault, answer.1, r, monitor, false, answer.2.1⟩
      else
        let r := r.set rs (if answer.2.2.2 = some true then 0#64 else 1#64)
        ⟨.ok, .ok, { r with pc := r.pc + 4#64 }, monitor, true, answer.2.1⟩

/-- The source's test whether a scalar access that succeeded was only a load. -/
def countsAsLoad (i : BitVec 32) : Bool :=
  let load := decide (IsRcpc i) || decide (IsOrdered i) && i.getLsbD 22 ||
    decide (IsSingle i) && field i 22 3 != 0 || decide (IsPair i) && i.getLsbD 22
  if ¬ IsRcpc i ∧ IsUpdate i then false else load

def GCRegisters.access (r : GCRegisters) : GMMemoryRegisters :=
  ⟨r.x, r.sp, r.pc, fun _ _ => 0⟩

def GCRegisters.accessed (r : GCRegisters) (access : GMMemoryRegisters) : GCRegisters :=
  { r with x := access.x, sp := access.sp, pc := access.pc }

def sequenceStep (s : Space) (i : BitVec 32) (r : GCRegisters) (monitor : GMSparseExclusive)
    (fault : GMResult) : SequenceStep :=
  if GmExclusiveInstruction i then exclusive s i r monitor fault
  else if i &&& 0xfffff0ff#32 = 0xd503305f#32 then
    -- CLREX ends the monitor and the sequence.
    ⟨.ok, fault, { r with pc := r.pc + 4#64 }, monitor, true, s⟩
  else
    match gcRegisterStep r i with
    | some r => ⟨.ok, fault, r, monitor, false, s⟩
    | none =>
      if i.getLsbD 26 then ⟨.unsupported, fault, r, monitor, false, s⟩
      else
        let access := gmMemoryStep s i r.access fault
        if access.step = .ok then
          ⟨.ok, access.fault, r.accessed access.registers, monitor, !countsAsLoad i, access.space⟩
        else ⟨access.step, access.fault, r, monitor, false, access.space⟩

/-- Why a sequence was not supported, in the words of the source. -/
def rejectReason (i : BitVec 32) : String :=
  let loads (load store : String) : String := if i.getLsbD 22 then load else store
  if GmExclusiveInstruction i then "[software-vm] exclusive encoding at "
  else if i &&& 0x1f800000#32 = 0x13000000#32 then "[software-vm] bitfield operation at "
  else if i &&& 0x1f800000#32 = 0x13800000#32 then "[software-vm] extract operation at "
  else if IsSingle i then loads "intervening single load at " "intervening single store at "
  else if IsPair i then loads "intervening pair load at " "intervening pair store at "
  else if i &&& 0x3f000000#32 = 0x08000000#32 then "intervening ordered operation at "
  else if i &&& 0x0a000000#32 = 0x08000000#32 then "intervening other memory operation at "
  else if i &&& 0xfffff01f#32 = 0xd503201f#32 then "[software-vm] hint operation at "
  else "[software-vm] register operation at "

/-- What a sequence gives back. The diagnostic is `none` when the caller asked
for none. -/
structure SequenceReply where
  step : GMMemoryStep
  fault : GMResult
  registers : GCRegisters
  diagnostic : Option GMExclusiveDiagnostic
  space : Space

/-- A function that fetches instruction words, with the number of steps left. -/
abbrev GMInstructionFetch := ℕ → BitVec 64 → Option (BitVec 32)

/-- The loop of `gm_exclusive_sequence`, on its copy `r` of the registers. -/
def sequenceLoop (fetch : GMInstructionFetch) (registers : GCRegisters) :
    ℕ → Space → BitVec 32 → GCRegisters → GMSparseExclusive → GMResult →
      Option GMExclusiveDiagnostic → SequenceReply
  | 0, s, _, _, _, fault, diagnostic =>
    ⟨.unsupported, fault, registers,
      diagnostic.map fun d => { d with reason := "[software-vm] exclusive step budget at " }, s⟩
  | n + 1, s, i, r, monitor, fault, diagnostic =>
    let started := diagnostic.map fun _ => ⟨r.pc, "[software-vm] exclusive encoding at "⟩
    let e := sequenceStep s i r monitor fault
    if e.step ≠ .ok then
      ⟨e.step, e.fault, registers, diagnostic.map fun _ => ⟨r.pc, rejectReason i⟩, e.space⟩
    else if e.finished = true ∨ e.registers.pc < registers.pc ∨
        e.registers.pc ≥ registers.pc + 128#64 then
      ⟨.ok, .ok, e.registers, started, e.space⟩
    else
      match fetch n e.registers.pc with
      | none => ⟨.fault, .invalid, registers, started, e.space⟩
      | some i => sequenceLoop fetch registers n e.space i e.registers e.monitor e.fault started

def gmExclusiveSequence (s : Space) (first : BitVec 32) (registers : GCRegisters)
    (fetch : GMInstructionFetch) (fault : GMResult) (diagnostic : Option GMExclusiveDiagnostic) :
    SequenceReply :=
  if ¬ GmExclusiveInstruction first then ⟨.unsupported, fault, registers, diagnostic, s⟩
  else if registers.pc.toNat > uint64Max - 128 then
    ⟨.fault, .invalid, registers, diagnostic, s⟩
  else
    sequenceLoop fetch registers 32 s first registers ⟨0, 0, 0, 0, false⟩ fault diagnostic

end Tolkara
