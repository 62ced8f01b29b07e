import Tolkara.Memory.Basic

/-!
# The dense guest memory

`runtime/GuestMemory.c`: a sorted array of mapped pages, found by binary search.
A page whose bytes were never written has no storage of its own and reads as
zero. The answers of the heap are a parameter: `heap k` says whether the `k`-th
allocation of the call succeeds. The two generation counters are 64 bits wide
in the source and are taken not to wrap.

`copy` is one function for reads, writes, fetches and the loader, with a fast
path for accesses inside one page; both paths are modelled.
-/

namespace Tolkara

structure GMPage where
  address : ℕ
  bytes : Option PageBytes
  prot : BitVec 8
  maxprot : BitVec 8
  jit : Bool

structure GuestMemory where
  pages : List GMPage
  generation : ℕ
  codeGeneration : ℕ
  faultAddress : ℕ

structure GMThread where
  jitWriteProtected : Bool
deriving DecidableEq, Repr

/-- Whether the allocations of a call succeed, in order. -/
abbrev Heap := ℕ → Bool

namespace GuestMemory

def fresh : GuestMemory := ⟨[], 0, 0, 0⟩

def count (m : GuestMemory) : ℕ := m.pages.length

def lowerLoop (pages : List GMPage) (a : ℕ) : ℕ → ℕ → ℕ → ℕ
  | 0, lo, _ => lo
  | fuel + 1, lo, hi =>
    if lo < hi then
      let mid := lo + (hi - lo) / 2
      match pages[mid]? with
      | some p =>
        if p.address < a then lowerLoop pages a fuel (mid + 1) hi
        else lowerLoop pages a fuel lo mid
      | none => lowerLoop pages a fuel lo mid
    else lo

/-- The index of the first page at or above `a`. -/
def lower (m : GuestMemory) (a : ℕ) : ℕ := lowerLoop m.pages a m.count 0 m.count

/-- The pages `gm_map` creates: demand-zero, one after the other. -/
def freshPages (a count : ℕ) (prot maxprot : Prot) (jit : Bool) : List GMPage :=
  (List.range count).map fun i =>
    { address := a + i * pageSize, bytes := none, prot := prot.setWidth 8,
      maxprot := maxprot.setWidth 8, jit := jit }

def sizeofGMPage : ℕ := 24

def gmMap (heap : Heap) (m : GuestMemory) (a n : ℕ) (prot maxprot : Prot)
    (jit replace : Bool) : GMResult × GuestMemory :=
  if ¬ PageRange a n ∨ ¬ ProtOk prot maxprot then (.invalid, m)
  else
    let first := m.lower a
    let last := m.lower (a + n)
    if replace = false ∧ first ≠ last then (.overlap, m)
    else
      let newpages := n / pageSize
      if newpages > uint64Max / sizeofGMPage - (m.count - (last - first)) then (.nomem, m)
      else if heap 0 = false then (.nomem, m)
      else (.ok, { m with
        pages := m.pages.take first ++ freshPages a newpages prot maxprot jit ++
          m.pages.drop last
        generation := m.generation + 1
        codeGeneration := m.codeGeneration + 1 })

def gmUnmap (m : GuestMemory) (a n : ℕ) : GMResult × GuestMemory :=
  if ¬ PageRange a n then (.invalid, m)
  else
    let first := m.lower a
    let last := m.lower (a + n)
    (.ok, { m with
      pages := m.pages.take first ++ m.pages.drop last
      generation := m.generation + 1
      codeGeneration := m.codeGeneration + 1 })

/-- The pages from `first` up to `last`, as the loops of `gm_protect` visit them. -/
def slice (m : GuestMemory) (first last : ℕ) : List GMPage :=
  (m.pages.take last).drop first

def gmProtect (m : GuestMemory) (a n : ℕ) (prot : Prot) : GMResult × GuestMemory :=
  if ¬ PageRange a n ∨ prot &&& ~~~7#32 ≠ 0#32 then (.invalid, m)
  else
    let first := m.lower a
    let last := m.lower (a + n)
    if last - first ≠ n / pageSize then (.unmapped, m)
    else if (m.slice first last).any
        (fun p => prot &&& ~~~(p.maxprot.setWidth 32) != 0#32) then (.protection, m)
    else (.ok, { m with
      pages := m.pages.take first ++
        (m.slice first last).map (fun p => { p with prot := prot.setWidth 8 }) ++
        m.pages.drop last
      generation := m.generation + 1
      codeGeneration := m.codeGeneration + 1 })

/-- The page at `base` and its index, as `access_range` and `copy` look it up. -/
def entry (m : GuestMemory) (base : ℕ) : Option (ℕ × GMPage) :=
  match m.pages[m.lower base]? with
  | some p => if p.address = base then some (m.lower base, p) else none
  | none => none

/-- The protection test of `access_range` and `copy`: a missing permission, or a
JIT page on the wrong side of the thread's write protection. -/
def denied (t : Option GMThread) (permission : Prot) (prot : BitVec 8) (jit : Bool) : Bool :=
  (prot.setWidth 32 &&& permission != permission) ||
    match t with
    | some thread => jit &&
        ((permission == GM.WRITE && thread.jitWriteProtected) ||
          (permission == GM.EXEC && !thread.jitWriteProtected))
    | none => false

/-- The loop of `access_range`; the answer and the fault address. -/
def accessLoop (m : GuestMemory) (t : Option GMThread) (permission : Prot) (stop : ℕ) :
    ℕ → ℕ → GMResult × ℕ
  | 0, _ => (.ok, 0)
  | fuel + 1, a =>
    if a < stop then
      match m.entry (pageBase a) with
      | none => (.unmapped, a)
      | some (_, p) =>
        if denied t permission p.prot p.jit then (.protection, a)
        else accessLoop m t permission stop fuel
          (a + min (pageSize - (a - pageBase a)) (stop - a))
    else (.ok, 0)

def accessRange (m : GuestMemory) (t : Option GMThread) (a n : ℕ) (permission : Prot) :
    GMResult × GuestMemory :=
  if n > uint64Max - a then (.invalid, { m with faultAddress := a })
  else
    let answer := m.accessLoop t permission (a + n) n a
    (answer.1, { m with faultAddress := answer.2 })

/-- The allocation loop of `copy`: every page below `stop` from index `i` on
gets storage, until an allocation fails. -/
def allocateLoop (heap : Heap) (stop : ℕ) : ℕ → ℕ → ℕ → List GMPage → Bool × List GMPage
  | 0, _, _, pages => (true, pages)
  | fuel + 1, k, i, pages =>
    match pages[i]? with
    | none => (true, pages)
    | some p =>
      if p.address < stop then
        match p.bytes with
        | some _ => allocateLoop heap stop fuel k (i + 1) pages
        | none =>
          if heap k then
            allocateLoop heap stop fuel (k + 1) (i + 1)
              (pages.set i { p with bytes := some zeroPage })
          else (false, pages)
      else (true, pages)

/-- `n` bytes of `buffer` copied to `offset` of the page with index `i`. -/
def storePage (m : GuestMemory) (i : ℕ) (p : GMPage) (offset n : ℕ) (buffer : Buffer) :
    GuestMemory :=
  let bytes := pageStore (p.bytes.getD zeroPage) offset n buffer
  { m with pages := m.pages.set i { p with bytes := some bytes } }

/-- The copying loop of `copy` for a write: the memory, and whether a page that
was written is executable. -/
def storeLoop : ℕ → GuestMemory → ℕ → Buffer → ℕ → Bool → GuestMemory × Bool
  | 0, m, _, _, _, executable => (m, executable)
  | fuel + 1, m, a, buffer, n, executable =>
    if n = 0 then (m, executable)
    else
      let offset := a - pageBase a
      let chunk := min (pageSize - offset) n
      match m.entry (pageBase a) with
      | none => (m, executable)
      | some (i, p) =>
        storeLoop fuel (m.storePage i p offset chunk buffer) (a + chunk)
          (fun j => buffer (chunk + j)) (n - chunk)
          (executable || (p.prot.setWidth 32 &&& GM.EXEC != 0#32))

def loadLoop (m : GuestMemory) : ℕ → ℕ → ℕ → List UInt8
  | 0, _, _ => []
  | fuel + 1, a, n =>
    if n = 0 then []
    else
      let offset := a - pageBase a
      let chunk := min (pageSize - offset) n
      match m.entry (pageBase a) with
      | none => []
      | some (_, p) =>
        pageLoad (p.bytes.getD zeroPage) offset chunk ++
          loadLoop m fuel (a + chunk) (n - chunk)

/-- The part of `copy` for an access inside one page. -/
def copyPage (heap : Heap) (m : GuestMemory) (t : Option GMThread) (a : ℕ)
    (buffer : Option Buffer) (n : ℕ) (permission : Prot) (write : Bool) :
    GMResult × GuestMemory × List UInt8 :=
  let offset := a % pageSize
  match m.entry (a - offset) with
  | none => (.unmapped, { m with faultAddress := a }, [])
  | some (i, p) =>
    if denied t permission p.prot p.jit then (.protection, { m with faultAddress := a }, [])
    else
      let m := { m with faultAddress := 0 }
      match buffer with
      | none => (.invalid, m, [])
      | some buffer =>
        if write then
          if p.bytes.isNone ∧ heap 0 = false then (.nomem, m, [])
          else (.ok, { m.storePage i p offset n buffer with
            generation := m.generation + 1
            codeGeneration :=
              if p.prot.setWidth 32 &&& GM.EXEC ≠ 0#32 then m.codeGeneration + 1
              else m.codeGeneration }, [])
        else (.ok, m, pageLoad (p.bytes.getD zeroPage) offset n)

/-- The general part of `copy`: check the whole range, allocate, then copy. -/
def copyRange (heap : Heap) (m : GuestMemory) (t : Option GMThread) (a : ℕ)
    (buffer : Option Buffer) (n : ℕ) (permission : Prot) (write : Bool) :
    GMResult × GuestMemory × List UInt8 :=
  let access := m.accessRange t a n permission
  let m := access.2
  if access.1 ≠ .ok ∨ n = 0 then (access.1, m, [])
  else
    match buffer with
    | none => (.invalid, m, [])
    | some buffer =>
      if write then
        let first := m.lower (pageBase a)
        let allocated := allocateLoop heap (a + n) (m.count - first) 0 first m.pages
        let m := { m with pages := allocated.2 }
        if allocated.1 = false then (.nomem, m, [])
        else
          let stored := storeLoop n m a buffer n false
          (.ok, { stored.1 with
            generation := stored.1.generation + 1
            codeGeneration :=
              if stored.2 then stored.1.codeGeneration + 1 else stored.1.codeGeneration }, [])
      else (.ok, m, m.loadLoop n a n)

def copy (heap : Heap) (m : GuestMemory) (t : Option GMThread) (a : ℕ)
    (buffer : Option Buffer) (n : ℕ) (permission : Prot) (write : Bool) :
    GMResult × GuestMemory × List UInt8 :=
  if n ≠ 0 ∧ n ≤ pageSize - a % pageSize ∧ n ≤ uint64Max - a then
    m.copyPage heap t a buffer n permission write
  else m.copyRange heap t a buffer n permission write

/-- `buffer` is only tested for being null; the bytes read are the last component. -/
def gmRead (m : GuestMemory) (a : ℕ) (buffer : Option Buffer) (n : ℕ) :
    GMResult × GuestMemory × List UInt8 :=
  m.copy (fun _ => true) none a buffer n GM.READ false

def gmWrite (heap : Heap) (m : GuestMemory) (t : Option GMThread) (a : ℕ)
    (buffer : Option Buffer) (n : ℕ) : GMResult × GuestMemory :=
  let answer := m.copy heap t a buffer n GM.WRITE true
  (answer.1, answer.2.1)

def gmPopulate (heap : Heap) (m : GuestMemory) (a : ℕ) (buffer : Option Buffer) (n : ℕ) :
    GMResult × GuestMemory :=
  let answer := m.copy heap none a buffer n 0#32 true
  (answer.1, answer.2.1)

def gmFetch (m : GuestMemory) (t : Option GMThread) (a : ℕ) :
    GMResult × GuestMemory × BitVec 32 :=
  if a % 4 ≠ 0 then (.invalid, { m with faultAddress := a }, 0#32)
  else
    let answer := m.copy (fun _ => true) t a (some fun _ => 0) 4 GM.EXEC false
    (answer.1, answer.2.1, BitVec.ofNat 32 (littleEndian answer.2.2))

/-- The search of `gm_find_free` over the pages at or above the hint. -/
def findFreeLoop (n : ℕ) : List GMPage → ℕ → Option ℕ
  | [], candidate => some candidate
  | p :: pages, candidate =>
    if p.address ≥ candidate + n then some candidate
    else if n > uint64Max - (p.address + pageSize) then none
    else findFreeLoop n pages (p.address + pageSize)

def gmFindFree (m : GuestMemory) (hint n : ℕ) : GMResult × Option ℕ :=
  if ¬ PageRange hint n then (.invalid, none)
  else match findFreeLoop n (m.pages.drop (m.lower hint)) hint with
    | some a => (.ok, some a)
    | none => (.nomem, none)

end GuestMemory

end Tolkara
