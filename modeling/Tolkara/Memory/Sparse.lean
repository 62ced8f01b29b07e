import Tolkara.Library.Intervals
import Tolkara.Memory.Basic

/-!
# The sparse guest memory

`runtime/GuestSparseMemory.c`: mappings are a short sorted list of regions, and
written pages are found through an open-addressing table that points into a
bounded arena of backing pages. Page address 0 marks a free slot of the table
and `UINT64_MAX` a deleted one. Backing pages given back wait on a stack.

Every call holds the memory's lock, so a call is a function of the space. Both
layouts of the backing arena give one page of bytes per index, which is how it
appears here. `SIZE_MAX` as the answer of `page_slot` is `none`. The two
generation counters are 64 bits wide in the source and are taken not to wrap.
-/

namespace Tolkara

open Library

/-- `[start, stop)` with its permissions and the permissions it may be given. -/
abbrev Region := TaggedInterval (Prot × Prot)

namespace Region

def prot (r : Region) : Prot := r.tag.1

def maxprot (r : Region) : Prot := r.tag.2

end Region

/-- A slot of the page table. -/
structure Page where
  address : ℕ
  generation : ℕ
  backing : ℕ
deriving DecidableEq, Repr

structure Space where
  base : ℕ
  stop : ℕ
  generation : ℕ
  mappingGeneration : ℕ
  backing : ℕ → PageBytes
  capacity : ℕ
  resident : ℕ
  nextBacking : ℕ
  freeBacking : List ℕ
  slotCount : ℕ
  pages : ℕ → Page
  regions : List Region

/-- A load's claim on an address, kept by the caller until its store. -/
structure GMSparseExclusive where
  address : ℕ
  generation : ℕ
  mappingGeneration : ℕ
  size : ℕ
  valid : Bool
deriving DecidableEq, Repr

inductive GMSparseAtomic where
  | add
  | clear
  | xor
  | set
  | signedMax
  | signedMin
  | unsignedMax
  | unsignedMin
  | swap
deriving DecidableEq, Repr

namespace Space

def regionLimit : ℕ := 256

def Contains (s : Space) (a n : ℕ) : Prop := a ≥ s.base ∧ a ≤ s.stop ∧ n ≤ s.stop - a

instance (s : Space) (a n : ℕ) : Decidable (s.Contains a n) :=
  inferInstanceAs (Decidable (_ ∧ _ ∧ _))

/-! ## The page table -/

/-- The mixing of a page number that `page_slot` starts from. -/
def pageHash (address : ℕ) : ℕ :=
  let h := address / pageSize
  let h := h ^^^ (h >>> 30)
  let h := h * 0xbf58476d1ce4e5b9 % 2 ^ 64
  let h := h ^^^ (h >>> 27)
  let h := h * 0x94d049bb133111eb % 2 ^ 64
  h ^^^ (h >>> 31)

/-- The slot a page's probe starts at. -/
def home (s : Space) (address : ℕ) : ℕ := pageHash address &&& (s.slotCount - 1)

def pageSlotLoop (s : Space) (address : ℕ) (insertion : Bool) :
    ℕ → ℕ → Option ℕ → Option ℕ
  | 0, _, firstDeleted => if insertion then firstDeleted else none
  | steps + 1, i, firstDeleted =>
    let found := (s.pages i).address
    if found = address then some i
    else if found = 0 then if insertion then firstDeleted.or (some i) else none
    else pageSlotLoop s address insertion steps ((i + 1) &&& (s.slotCount - 1))
      (if found = uint64Max then firstDeleted.or (some i) else firstDeleted)

def pageSlot (s : Space) (address : ℕ) (insertion : Bool) : Option ℕ :=
  s.pageSlotLoop address insertion s.slotCount (s.home address) none

def Holds (p : Page) (lo hi : ℕ) : Prop :=
  p.address ≠ 0 ∧ p.address ≠ uint64Max ∧ lo ≤ p.address ∧ p.address < hi

instance (p : Page) (lo hi : ℕ) : Decidable (Holds p lo hi) :=
  inferInstanceAs (Decidable (_ ∧ _ ∧ _ ∧ _))

/-- One slot of `discard_pages`: its backing page goes on the stack, the slot
becomes a deleted one. -/
def discardSlot (s : Space) (lo hi i : ℕ) : Space :=
  if Holds (s.pages i) lo hi then
    { s with
      freeBacking := (s.pages i).backing :: s.freeBacking
      pages := Function.update s.pages i { s.pages i with address := uint64Max }
      resident := s.resident - 1 }
  else s

def discardLoop (s : Space) (lo hi : ℕ) : ℕ → Space
  | 0 => s
  | count + 1 => (s.discardLoop lo hi count).discardSlot lo hi count

def discardPages (s : Space) (lo hi : ℕ) : Space := s.discardLoop lo hi s.slotCount

/-! ## Initialization -/

/-- The table size: the first power of two from 16 on that is at least
`capacity * 2`. -/
def slotsLoop (capacity : ℕ) : ℕ → ℕ → Option ℕ
  | 0, _ => none
  | fuel + 1, slots =>
    if slots < capacity * 2 then
      if slots > uint64Max / 2 then none else slotsLoop capacity fuel (slots * 2)
    else some slots

def sizeofPage : ℕ := 24

def sizeofSize : ℕ := 8

/-- `gm_sparse_init` and `gm_sparse_init_blocks` on a memory not yet
initialized. `allocated` says whether the host gives all that is asked for, and
`arena` is what the backing pages then hold. -/
def gmSparseInit (base size backingBytes : ℕ) (allocated : Bool) (arena : ℕ → PageBytes) :
    GMResult × Option Space :=
  if base = 0 ∨ ¬ PageRange base size ∨ backingBytes = 0 ∨ backingBytes % pageSize ≠ 0 then
    (.invalid, none)
  else
    let capacity := backingBytes / pageSize
    if capacity > uint64Max / 2 then (.nomem, none)
    else match slotsLoop capacity 64 16 with
      | none => (.nomem, none)
      | some slots =>
        if slots > uint64Max / sizeofPage ∨ capacity > uint64Max / sizeofSize then (.nomem, none)
        else if allocated then
          (.ok, some {
            base := base, stop := base + size, generation := 0, mappingGeneration := 0
            backing := arena, capacity := capacity, resident := 0
            nextBacking := 0, freeBacking := [], slotCount := slots
            pages := fun _ => ⟨0, 0, 0⟩, regions := [] })
        else (.nomem, none)

def findFreeLoop (size : ℕ) : List Region → ℕ → ℕ
  | [], candidate => candidate
  | r :: regions, candidate =>
    if size ≤ r.start - candidate then candidate
    else findFreeLoop size regions r.stop

def gmSparseFindFree (s : Space) (size : ℕ) : GMResult × Option ℕ :=
  if ¬ PageRange 0 size then (.invalid, none)
  else
    let candidate := findFreeLoop size s.regions s.base
    if size ≤ s.stop - candidate then (.ok, some candidate) else (.nomem, none)

/-! ## Mappings -/

/-- `append`, with the regions collected so far kept last one first. `none` is
the full table. -/
def append (next : List Region) (r : Region) : Option (List Region) :=
  if r.start = r.stop then some next
  else match next with
    | [] => some [r]
    | last :: rest =>
      if last.stop = r.start ∧ last.tag = r.tag then some ({ last with stop := r.stop } :: rest)
      else if (last :: rest).length = regionLimit then none
      else some (r :: last :: rest)

inductive Operation where
  | map
  | unmap
  | protect
deriving DecidableEq, Repr

/-- The first loop of `change`: an overlap, a gap, or how far `[a, stop)` is
covered. -/
def coverLoop (op : Operation) (replace : Bool) (a stop : ℕ) :
    List Region → ℕ → Except GMResult ℕ
  | [], covered => .ok covered
  | r :: regions, covered =>
    if r.stop ≤ a ∨ r.start ≥ stop then coverLoop op replace a stop regions covered
    else if op = .map ∧ replace = false then .error .overlap
    else if op = .protect then
      if r.start > covered then .error .unmapped
      else coverLoop op replace a stop regions (if r.stop < stop then r.stop else stop)
    else coverLoop op replace a stop regions covered

/-- `cond && !append(…)`: an `append` that happens under a condition. -/
def appendIf (cond : Prop) [Decidable cond] (next : List Region) (r : Region) :
    Option (List Region) :=
  if cond then append next r else some next

def rebuildLoop (op : Operation) (a stop : ℕ) (prot maxprot : Prot) :
    List Region → Bool → List Region → Option (Bool × List Region)
  | [], inserted, next => some (inserted, next)
  | r :: regions, inserted, next =>
    if r.stop ≤ a then do
      let next ← append next r
      rebuildLoop op a stop prot maxprot regions inserted next
    else do
      let next ← appendIf (inserted = false ∧ r.start < a) next ⟨r.start, a, r.tag⟩
      let next ← appendIf (inserted = false) next ⟨a, stop, (prot, maxprot)⟩
      if r.start ≥ stop then
        let next ← append next r
        rebuildLoop op a stop prot maxprot regions true next
      else
        let next ← appendIf (op ≠ .map ∧ r.start < a) next ⟨r.start, a, r.tag⟩
        let next ← appendIf (op = .protect) next ⟨if r.start > a then r.start else a,
          if r.stop < stop then r.stop else stop, (prot, r.maxprot)⟩
        let next ← appendIf (r.stop > stop) next ⟨stop, r.stop, r.tag⟩
        rebuildLoop op a stop prot maxprot regions true next

/-- The new region list of `change`, or `none` when it would be too long. -/
def rebuild (op : Operation) (a stop : ℕ) (prot maxprot : Prot) (regions : List Region) :
    Option (List Region) := do
  let (inserted, next) ← rebuildLoop op a stop prot maxprot regions (op ≠ .map) []
  let next ← appendIf (inserted = false) next ⟨a, stop, (prot, maxprot)⟩
  some next.reverse

def change (s : Space) (a n : ℕ) (prot maxprot : Prot) (replace : Bool) (op : Operation) :
    GMResult × Space :=
  if ¬ PageRange a n ∨ ¬ s.Contains a n ∨ ¬ ProtOk prot maxprot then (.invalid, s)
  else
    let stop := a + n
    match coverLoop op replace a stop s.regions a with
    | .error result => (result, s)
    | .ok covered =>
      if op = .protect ∧ covered ≠ stop then (.unmapped, s)
      else if op = .protect ∧ s.regions.any (fun r =>
          r.stop > a && r.start < stop && prot &&& ~~~r.maxprot != 0#32) then (.protection, s)
      else match rebuild op a stop prot maxprot s.regions with
        | none => (.nomem, s)
        | some regions =>
          let s := if s.resident ≠ 0 ∧ op ≠ .protect then s.discardPages a stop else s
          (.ok, { s with
            regions := regions
            mappingGeneration := s.mappingGeneration + 1 })

def gmSparseMap (s : Space) (a n : ℕ) (prot maxprot : Prot) (replace : Bool) :
    GMResult × Space := s.change a n prot maxprot replace .map

def gmSparseUnmap (s : Space) (a n : ℕ) : GMResult × Space :=
  s.change a n 0#32 0#32 false .unmap

def gmSparseProtect (s : Space) (a n : ℕ) (prot : Prot) : GMResult × Space :=
  s.change a n prot 7#32 false .protect

/-! ## Reads and writes -/

def checkLoop (permission : Prot) (stop : ℕ) : List Region → ℕ → GMResult
  | [], covered => if covered = stop then .ok else .unmapped
  | r :: regions, covered =>
    if covered < stop then
      if r.stop ≤ covered then checkLoop permission stop regions covered
      else if r.start > covered then .unmapped
      else if r.prot &&& permission ≠ permission then .protection
      else checkLoop permission stop regions (if r.stop < stop then r.stop else stop)
    else if covered = stop then .ok else .unmapped

def checkAccess (s : Space) (a n : ℕ) (permission : Prot) : GMResult :=
  if ¬ s.Contains a n then .invalid
  else if n = 0 then .ok
  else checkLoop permission (a + n) s.regions a

/-- The preflight of a write: whether the pages it would create fit. -/
def preflight (s : Space) (stop : ℕ) : ℕ → ℕ → ℕ → Bool
  | 0, _, _ => true
  | fuel + 1, page, needed =>
    if page < stop then
      if s.pageSlot page false = none then
        if needed + 1 > s.capacity - s.resident then false
        else s.preflight stop fuel (page + pageSize) (needed + 1)
      else s.preflight stop fuel (page + pageSize) needed
    else true

/-- A page given a slot of the table and a zeroed backing page. -/
def allocatePage (s : Space) (page : ℕ) : Option (ℕ × Space) :=
  match s.pageSlot page true with
  | none => none
  | some slot =>
    let backing := s.freeBacking.headD s.nextBacking
    some (slot, { s with
      freeBacking := s.freeBacking.tail
      nextBacking := if s.freeBacking = [] then s.nextBacking + 1 else s.nextBacking
      backing := Function.update s.backing backing zeroPage
      pages := Function.update s.pages slot ⟨page, 0, backing⟩
      resident := s.resident + 1 })

def slotFor (s : Space) (page : ℕ) : Option (ℕ × Space) :=
  match s.pageSlot page false with
  | some slot => some (slot, s)
  | none => s.allocatePage page

/-- `n` bytes of `buffer` copied to a resident page, which takes the current
generation. -/
def storeChunk (s : Space) (slot offset n : ℕ) (buffer : Buffer) : Space :=
  let p := s.pages slot
  { s with
    backing := Function.update s.backing p.backing
      (pageStore (s.backing p.backing) offset n buffer)
    pages := Function.update s.pages slot { p with generation := s.generation } }

/-- The copying loop of `access_locked` for a write. -/
def writeLoop : ℕ → Space → ℕ → Buffer → ℕ → Space
  | 0, s, _, _, _ => s
  | fuel + 1, s, a, buffer, n =>
    if n = 0 then s
    else
      let offset := a % pageSize
      let page := a - offset
      let chunk := min (pageSize - offset) n
      match s.slotFor page with
      | none => s
      | some (slot, s) =>
        writeLoop fuel (s.storeChunk slot offset chunk buffer) (a + chunk)
          (fun i => buffer (chunk + i)) (n - chunk)

def residentBytes (s : Space) (page : ℕ) : PageBytes :=
  match s.pageSlot page false with
  | some slot => s.backing (s.pages slot).backing
  | none => zeroPage

/-- The copying loop of `access_locked` for a read. -/
def readLoop (s : Space) : ℕ → ℕ → ℕ → List UInt8
  | 0, _, _ => []
  | fuel + 1, a, n =>
    if n = 0 then []
    else
      let offset := a % pageSize
      let page := a - offset
      let chunk := min (pageSize - offset) n
      pageLoad (s.residentBytes page) offset chunk ++ s.readLoop fuel (a + chunk) (n - chunk)

def accessLocked (s : Space) (a : ℕ) (buffer : Option Buffer) (n : ℕ) (write : Bool) :
    GMResult × Space × List UInt8 :=
  match buffer with
  | none =>
    if n ≠ 0 then (.invalid, s, [])
    else (s.checkAccess a n (if write then GM.WRITE else GM.READ), s, [])
  | some buffer =>
    let result := s.checkAccess a n (if write then GM.WRITE else GM.READ)
    if result ≠ .ok ∨ n = 0 then (result, s, [])
    else if write then
      if s.preflight (a + n) (pageCount a n) (pageBase a) 0 = false then (.nomem, s, [])
      else (.ok, writeLoop n { s with generation := s.generation + 1 } a buffer n, [])
    else (.ok, s, s.readLoop n a n)

def gmSparseRead (s : Space) (a : ℕ) (buffer : Option Buffer) (n : ℕ) :
    GMResult × List UInt8 :=
  let answer := s.accessLocked a buffer n false
  (answer.1, answer.2.2)

def gmSparseWrite (s : Space) (a : ℕ) (buffer : Option Buffer) (n : ℕ) : GMResult × Space :=
  let answer := s.accessLocked a buffer n true
  (answer.1, answer.2.1)

def prepareLoop (stop : ℕ) : ℕ → Space → ℕ → Space
  | 0, s, _ => s
  | fuel + 1, s, page =>
    if page < stop then
      match s.slotFor page with
      | none => s
      | some (_, s) => prepareLoop stop fuel s (page + pageSize)
    else s

def gmSparsePrepare (s : Space) (a n : ℕ) (permissions : Prot) : GMResult × Space :=
  if permissions &&& ~~~(GM.READ ||| GM.WRITE) ≠ 0#32 then (.invalid, s)
  else
    let result := s.checkAccess a n permissions
    if result ≠ .ok ∨ n = 0 ∨ permissions &&& GM.WRITE = 0#32 then (result, s)
    else if s.preflight (a + n) (pageCount a n) (pageBase a) 0 = false then (.nomem, s)
    else (.ok, prepareLoop (a + n) (pageCount a n) s (pageBase a))

/-! ## Exclusive and atomic accesses -/

def AtomicSize (address size : ℕ) : Prop :=
  size ≠ 0 ∧ size ≤ 16 ∧ size &&& (size - 1) = 0 ∧ address % size = 0

instance (address size : ℕ) : Decidable (AtomicSize address size) :=
  inferInstanceAs (Decidable (_ ∧ _ ∧ _ ∧ _))

def pageGeneration (s : Space) (address : ℕ) : ℕ :=
  match s.pageSlot (address - address % pageSize) false with
  | none => 0
  | some slot => (s.pages slot).generation

/-- The answer, the bytes loaded and the monitor, which only a successful load
fills. A null monitor is `none`. -/
def gmSparseLoadExclusive (s : Space) (a : ℕ) (buffer : Option Buffer) (n : ℕ)
    (monitor : Option GMSparseExclusive) :
    GMResult × List UInt8 × Option GMSparseExclusive :=
  match monitor with
  | none => (.invalid, [], none)
  | some monitor =>
    if ¬ AtomicSize a n then (.invalid, [], some monitor)
    else
      let answer := s.accessLocked a buffer n false
      if answer.1 = .ok then
        (.ok, answer.2.2, some ⟨a, s.pageGeneration a, s.mappingGeneration, n, true⟩)
      else (answer.1, answer.2.2, some monitor)

/-- The monitor still stands for `n` bytes at `a`. -/
def monitorHolds (s : Space) (a n : ℕ) (monitor : GMSparseExclusive) : Bool :=
  monitor.valid && monitor.address == a && monitor.size == n &&
    monitor.mappingGeneration == s.mappingGeneration && monitor.generation == s.pageGeneration a

/-- The answer, the space, the monitor and what is written to `*stored`, if
anything. `stored` says whether that pointer is non-null. -/
def gmSparseStoreExclusive (s : Space) (a : ℕ) (buffer : Option Buffer) (n : ℕ)
    (monitor : Option GMSparseExclusive) (stored : Bool) :
    GMResult × Space × Option GMSparseExclusive × Option Bool :=
  match monitor, buffer with
  | some monitor, some buffer =>
    if stored = false ∨ ¬ AtomicSize a n then (.invalid, s, some monitor, none)
    else
      let valid := s.monitorHolds a n monitor
      let answer := if valid then s.accessLocked a (some buffer) n true else (.ok, s, [])
      if answer.1 = .ok then
        (.ok, answer.2.1, some { monitor with valid := false }, some valid)
      else (answer.1, answer.2.1, some monitor, none)
  | monitor, _ => (.invalid, s, monitor, none)

/-- The answer, the space and the previous bytes. `previous` says whether that
pointer is non-null. -/
def gmSparseCompareExchange (s : Space) (a : ℕ) (expected desired : Option Buffer)
    (previous : Bool) (n : ℕ) : GMResult × Space × List UInt8 :=
  match expected, desired with
  | some expected, some desired =>
    if previous = false ∨ ¬ AtomicSize a n then (.invalid, s, [])
    else
      -- Both permissions are needed even when the comparison fails.
      let result := s.checkAccess a n (GM.READ ||| GM.WRITE)
      if result ≠ .ok then (result, s, [])
      else
        let old := s.accessLocked a (some fun _ => 0) n false
        if old.1 ≠ .ok then (old.1, s, [])
        else if old.2.2 = (List.range n).map expected then
          let answer := s.accessLocked a (some desired) n true
          (answer.1, answer.2.1, if answer.1 = .ok then old.2.2 else [])
        else (.ok, s, old.2.2)
  | _, _ => (.invalid, s, [])

/-- The new value of an atomic update of `n` bytes, before truncation. -/
def atomicValue (operation : GMSparseAtomic) (n : ℕ) (old operand : BitVec 64) : BitVec 64 :=
  let sign : BitVec 64 := 1#64 <<< (n * 8 - 1)
  match operation with
  | .add => old + operand
  | .clear => old &&& ~~~operand
  | .xor => old ^^^ operand
  | .set => old ||| operand
  | .signedMax => if (old ^^^ sign) > (operand ^^^ sign) then old else operand
  | .signedMin => if (old ^^^ sign) < (operand ^^^ sign) then old else operand
  | .unsignedMax => if old > operand then old else operand
  | .unsignedMin => if old < operand then old else operand
  | .swap => operand

/-- The answer, the space and the previous value. An operation outside the
enumeration is `none`; `previous` says whether that pointer is non-null. -/
def gmSparseAtomic (s : Space) (a n : ℕ) (operation : Option GMSparseAtomic)
    (operand : BitVec 64) (previous : Bool) : GMResult × Space × Option (BitVec 64) :=
  match operation with
  | none => (.invalid, s, none)
  | some operation =>
    if previous = false ∨ n > 8 ∨ ¬ AtomicSize a n then (.invalid, s, none)
    else
      let loaded := s.accessLocked a (some fun _ => 0) n false
      if loaded.1 ≠ .ok then (loaded.1, s, none)
      else
        let old := BitVec.ofNat 64 (littleEndian loaded.2.2)
        let mask : BitVec 64 := if n = 8 then BitVec.allOnes 64 else (1#64 <<< (n * 8)) - 1#64
        let value := atomicValue operation n old (operand &&& mask)
        let answer := s.accessLocked a (some fun i => byteOf value.toNat i) n true
        (answer.1, answer.2.1, if answer.1 = .ok then some old else none)

end Space

end Tolkara
