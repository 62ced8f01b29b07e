import Tolkara.Cpu.Decode
import Tolkara.Memory.Dense

/-!
# Running the guest CPU

`gc_run` of `runtime/GuestCPU.c`, with its direct-mapped cache of decoded
instructions, and beside it `freshRun`, the interpreter that fetches and decodes
at every step. Both execute a decoded instruction with the same `execute`.

While a CPU runs, others may change the memory and the thread's write
protection between two instructions. `Outside` lists what they can do, and the
two runs take what happens before each instruction as a parameter. The answers
of the heap are a parameter too, one for each instruction.
-/

namespace Tolkara

inductive GCResult where
  | budget
  | returned
  | unsupported
  | memory
deriving DecidableEq, Repr

def gcCacheSize : ℕ := 4096

def GCDecoded.zero : GCDecoded :=
  ⟨0#64, 0#64, 0#32, .invalid, 0, 0, 0, 0, 0, 0, 0, 0, false⟩

structure GuestCPU where
  registers : GCRegisters
  retired : BitVec 64
  thread : GMThread
  memoryResult : GMResult
  faultInstruction : BitVec 32
  cacheGeneration : ℕ
  cacheWriteProtected : Bool
  cache : ℕ → GCDecoded

def gcReset (entry stack : BitVec 64) : GuestCPU where
  registers := ⟨fun _ => 0#64, stack, entry, 0#8⟩
  retired := 0#64
  thread := ⟨true⟩
  memoryResult := .ok
  faultInstruction := 0#32
  cacheGeneration := 0
  cacheWriteProtected := false
  cache := fun _ => .zero

/-! ## One instruction -/

/-- What a decoded instruction did: it retired with new registers, its memory
access failed, or it is not supported. -/
inductive Executed where
  | retired (registers : GCRegisters)
  | fault (result : GMResult)
  | unsupported
deriving DecidableEq

/-- The part of the loop of `gc_run` after the instruction is decoded. -/
def execute (heap : Heap) (c : GCRegisters) (thread : GMThread) (d : GCDecoded)
    (m : GuestMemory) : Executed × GuestMemory :=
  let a := c.reg d.rn true + d.immediate
  if d.op = .store then
    let b := c.reg d.rd false
    let answer := m.gmWrite heap (some thread) a.toNat (some fun j => byteOf b.toNat j) d.amount
    if answer.1 = .ok then (.retired { c with pc := c.pc + 4#64 }, answer.2)
    else (.fault answer.1, answer.2)
  else if d.op = .load then
    let answer := m.gmRead a.toNat (some fun _ => 0) d.amount
    if answer.1 = .ok then
      let value := BitVec.ofNat 64 (littleEndian answer.2.2)
      (.retired { c.put d.rd value d.width false with pc := c.pc + 4#64 }, answer.2.1)
    else (.fault answer.1, answer.2.1)
  else
    match registerDecoded c d with
    | some c => (.retired c, m)
    | none => (.unsupported, m)

namespace GuestCPU

/-- The cache is emptied when code or the thread's write protection changed. -/
def flush (c : GuestCPU) (m : GuestMemory) : GuestCPU :=
  if c.cacheGeneration ≠ m.codeGeneration ∨
      c.cacheWriteProtected ≠ c.thread.jitWriteProtected then
    { c with
      cache := fun _ => .zero
      cacheGeneration := m.codeGeneration
      cacheWriteProtected := c.thread.jitWriteProtected }
  else c

/-- The cache entry of a program counter. -/
def slot (pc : BitVec 64) : ℕ := (pc.toNat / 4) % gcCacheSize

/-- The decoded instruction at the program counter, from the cache or by a fetch.
A failed fetch gives its answer instead. -/
def lookup (c : GuestCPU) (m : GuestMemory) : Except GMResult GCDecoded × GuestCPU × GuestMemory :=
  let d := c.cache (slot c.registers.pc)
  if d.valid = false ∨ d.pc ≠ c.registers.pc then
    let fetched := m.gmFetch (some c.thread) c.registers.pc.toNat
    let c := { c with memoryResult := fetched.1 }
    if fetched.1 ≠ .ok then (.error fetched.1, c, fetched.2.1)
    else
      let d := decode c.registers.pc fetched.2.2
      (.ok d, { c with cache := Function.update c.cache (slot c.registers.pc) d }, fetched.2.1)
  else (.ok d, c, m)

/-- One pass of the loop of `gc_run`; a result ends the run. -/
def step (heap : Heap) (c : GuestCPU) (m : GuestMemory) :
    Option GCResult × GuestCPU × GuestMemory :=
  match (c.flush m).lookup m with
  | (.error _, c, m) => (some .memory, c, m)
  | (.ok d, c, m) =>
    match execute heap c.registers c.thread d m with
    | (.retired registers, m) =>
      (none, { c with
        registers := registers
        retired := c.retired + 1#64
        memoryResult := if d.op = .load ∨ d.op = .store then .ok else c.memoryResult }, m)
    | (.fault result, m) => (some .memory, { c with memoryResult := result }, m)
    | (.unsupported, m) =>
      (some .unsupported, { c with faultInstruction := d.instruction }, m)

end GuestCPU

/-! ## What happens outside -/

/-- A call on the memory from outside the CPU. -/
inductive MemoryOp where
  | map (heap : Heap) (a n : ℕ) (prot maxprot : Prot) (jit replace : Bool)
  | unmap (a n : ℕ)
  | protect (a n : ℕ) (prot : Prot)
  | write (heap : Heap) (thread : Option GMThread) (a : ℕ) (buffer : Option Buffer) (n : ℕ)
  | populate (heap : Heap) (a : ℕ) (buffer : Option Buffer) (n : ℕ)

def MemoryOp.apply (m : GuestMemory) : MemoryOp → GuestMemory
  | .map heap a n prot maxprot jit replace => (m.gmMap heap a n prot maxprot jit replace).2
  | .unmap a n => (m.gmUnmap a n).2
  | .protect a n prot => (m.gmProtect a n prot).2
  | .write heap thread a buffer n => (m.gmWrite heap thread a buffer n).2
  | .populate heap a buffer n => (m.gmPopulate heap a buffer n).2

/-- A call on the memory, or a change of the thread's write protection. -/
inductive Outside where
  | memory (op : MemoryOp)
  | jitWriteProtected (value : Bool)

def Outside.apply (s : GMThread × GuestMemory) : Outside → GMThread × GuestMemory
  | .memory op => (s.1, op.apply s.2)
  | .jitWriteProtected value => (⟨value⟩, s.2)

def outsideAll (s : GMThread × GuestMemory) (l : List Outside) : GMThread × GuestMemory :=
  l.foldl Outside.apply s

/-! ## Runs -/

/-- `gc_run`. Before the instruction with `n` more to go, `outside n` happens; its
allocations are answered by `heap n`. -/
def gcRun (heap : ℕ → Heap) (outside : ℕ → List Outside) (returnPc : BitVec 64) :
    ℕ → GuestCPU → GuestMemory → GCResult × GuestCPU × GuestMemory
  | 0, c, m => (if c.registers.pc = returnPc then .returned else .budget, c, m)
  | n + 1, c, m =>
    let s := outsideAll (c.thread, m) (outside n)
    let c := { c with thread := s.1 }
    if c.registers.pc = returnPc then (.returned, c, s.2)
    else match c.step (heap n) s.2 with
      | (some result, c, m) => (result, c, m)
      | (none, c, m) => gcRun heap outside returnPc n c m

/-- A CPU without a cache. -/
structure FreshCPU where
  registers : GCRegisters
  retired : BitVec 64
  thread : GMThread

namespace FreshCPU

def step (heap : Heap) (c : FreshCPU) (m : GuestMemory) :
    Option GCResult × FreshCPU × GuestMemory :=
  let fetched := m.gmFetch (some c.thread) c.registers.pc.toNat
  if fetched.1 ≠ .ok then (some .memory, c, fetched.2.1)
  else
    match execute heap c.registers c.thread (decode c.registers.pc fetched.2.2) fetched.2.1 with
    | (.retired registers, m) =>
      (none, { c with registers := registers, retired := c.retired + 1#64 }, m)
    | (.fault _, m) => (some .memory, c, m)
    | (.unsupported, m) => (some .unsupported, c, m)

end FreshCPU

/-- The run of a CPU that fetches and decodes at every step. -/
def freshRun (heap : ℕ → Heap) (outside : ℕ → List Outside) (returnPc : BitVec 64) :
    ℕ → FreshCPU → GuestMemory → GCResult × FreshCPU × GuestMemory
  | 0, c, m => (if c.registers.pc = returnPc then .returned else .budget, c, m)
  | n + 1, c, m =>
    let s := outsideAll (c.thread, m) (outside n)
    let c := { c with thread := s.1 }
    if c.registers.pc = returnPc then (.returned, c, s.2)
    else match c.step (heap n) s.2 with
      | (some result, c, m) => (result, c, m)
      | (none, c, m) => freshRun heap outside returnPc n c m

end Tolkara
