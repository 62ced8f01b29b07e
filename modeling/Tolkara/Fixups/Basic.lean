import Tolkara.Image.File
import Tolkara.Image.LEB128
import Tolkara.Library.Attempts

/-!
# Fixups

`runtime/GuestFixups.c`: the pointers of a loaded image are moved by the slide and bound to the
symbols of other images. A linker says which in one of two ways: streams of opcodes, one for
rebases and three for binds, or records that are chained through the pointers themselves. The
calls change the memory in place and keep what they changed when they fail.

The resolver and the heap are parameters (`GFHost`). Addresses and values are natural numbers
below `2 ^ 64`, and the sums that may wrap are cut there.
-/

namespace Tolkara

open Library

/-- What the calls ask of their surroundings: the resolver, with a state of its own, and whether
an allocation succeeds, for the k-th buffer and for the k-th pointer that is written. -/
structure GFHost (σ : Type) where
  resolve : σ → CString → ℤ → Bool → Bool → (Bool × ℕ) × σ
  malloc : ℕ → Bool
  heap : ℕ → Heap

/-- A pointer that was written and reported. -/
structure GFObservation where
  address : ℕ
  value : ℕ
  symbol : Option CString
deriving DecidableEq, Repr

inductive GFError
  | bothFormats
  | streamOutside
  | invalid (consumed : ℕ)
  | stream (i consumed rebases binds : ℕ)
  | bindTarget (segment offset type : ℕ) (ordinal : ℤ)
  | unresolved (symbol : CString) (ordinal : ℤ)
  | chainedOutside
  | chainedHeader
  | chainedVersion (version : ℕ)
  | compressedNames
  | importsFormat (format : ℕ)
  | importsOutside
  | importTable
  | importOutside (i : ℕ)
  | importAddend (i : ℕ)
  | importName (i : ℕ)
  | importOrdinal (ordinal : ℤ)
  | startsOutside
  | startsOf (i : ℕ)
  | startsBeyond (i count : ℕ)
  | startsTruncated (i : ℕ)
  | pointerFormat (format : ℕ)
  | chainPageSize (size : ℕ)
  | pageTable (i : ℕ)
  | startList (i : ℕ)
  | startBeyondPage
  | pageOutside (page : ℕ) (segment : CString)
  | endless
  | leavesPage
  | pointerOutside
  | bindReserved (address : ℕ)
  | bindImport (ordinal count : ℕ)
  | rebaseReserved (address : ℕ)
  | cannotWrite
deriving DecidableEq, Repr

/-- What the calls change: the memory of the image, the state of the resolver, `GFStats` and
what was reported. -/
structure Fixing (σ : Type) where
  memory : GuestMemory
  context : σ
  rebases : ℕ
  binds : ℕ
  observed : List GFObservation

abbrev Fix (σ α : Type) := Attempt (Fixing σ) GFError α

namespace GuestFixups

variable {σ : Type}

/-! ## Memory -/

def readBytes (address n : ℕ) : Fix σ (Option (List UInt8)) := fun s =>
  let r := s.memory.gmRead address (some fun _ => 0) n
  (.ok (if r.1 = .ok then some r.2.2 else none), { s with memory := r.2.1 })

def readWord (address : ℕ) : Fix σ (Option ℕ) := do
  let bytes ← readBytes address 8
  return bytes.map littleEndian

def writeWord (host : GFHost σ) (address value : ℕ) : Fix σ Bool := fun s =>
  let r := s.memory.gmPopulate (host.heap s.observed.length) address (some (byteOf value)) 8
  (.ok (r.1 = .ok), { s with memory := r.2 })

def notify (address value : ℕ) (symbol : Option CString) : Fix σ Unit :=
  .change fun s => { s with observed := s.observed ++ [⟨address, value, symbol⟩] }

/-- The resolver's answer, and what it left in `*value`. -/
def ask (host : GFHost σ) (symbol : CString) (ordinal : ℤ) (weak lazy : Bool) :
    Fix σ (Bool × ℕ) := fun s =>
  let r := host.resolve s.context symbol ordinal weak lazy
  (.ok r.1, { s with context := r.2 })

def streamSegment (image : LoadedImage) (offset size : ℕ) : Option GISegment :=
  image.segments.find? fun s => s.fileOffset ≤ offset ∧ offset - s.fileOffset ≤ s.fileSize ∧
    size ≤ s.fileSize - (offset - s.fileOffset)

/-- The bytes of a range of the file, as they are in memory. -/
def stream (host : GFHost σ) (image : LoadedImage) (buffer offset size : ℕ) :
    Fix σ (Option (List UInt8)) :=
  if 32 * 1024 * 1024 < size then return none
  else
    match streamSegment image offset size with
    | none => return none
    | some s =>
      if host.malloc buffer then readBytes ((s.address + (offset - s.fileOffset)) % 2 ^ 64) size
      else return none

def target (image : LoadedImage) (segment offset : ℕ) : Option ℕ :=
  match image.segments[segment]? with
  | none => none
  | some s =>
    if s.prot = 0#32 ∨ s.size < offset ∨ s.size - offset < 8 ∨ offset % 8 ≠ 0 then none
    else some ((s.address + offset) % 2 ^ 64)

/-! ## Opcodes -/

/-- `leb` without a sign; it never reads a byte that is not there (`leb_false_eq`). -/
def uleb (c : Cursor) : ℕ × Cursor :=
  match leb c false with
  | some (value, c) => (value.toNat, c)
  | none => (0, { c with bad := true })

def sleb (c : Cursor) : ℕ × Cursor :=
  match leb c true with
  | some (value, c) => (value.toNat, c)
  | none => (0, { c with bad := true })

/-- What an opcode asks for: the end of the stream, or `count` fixups with `skip` bytes after
each. -/
inductive Decoded (ρ : Type)
  | done
  | invalid (c : Cursor)
  | run (c : Cursor) (r : ρ) (count skip : ℕ)

structure Rebasing where
  segment : ℕ
  offset : ℕ
  type : ℕ

/-- The end of a loop that returns false. -/
def stop {α : Type} (c : Cursor) : Fix σ α := .lift (.error (.invalid c.p))

def add (a b : ℕ) : Option ℕ := if uint64Max - a < b then none else some (a + b)

/-- The cases of `rebases`, on the high and the low half of the opcode. -/
def rebaseOpcode (op imm : ℕ) (c : Cursor) (r : Rebasing) : Decoded Rebasing :=
  match op with
  | 0 => .done
  | 1 => .run c { r with type := imm } 0 0
  | 2 =>
    let n := uleb c
    .run n.2 { r with segment := imm, offset := n.1 } 0 0
  | 3 =>
    let n := uleb c
    match add r.offset n.1 with
    | none => .invalid n.2
    | some offset => .run n.2 { r with offset := offset } 0 0
  | 4 =>
    match add r.offset (imm * 8) with
    | none => .invalid c
    | some offset => .run c { r with offset := offset } 0 0
  | 5 => .run c r imm 0
  | 6 =>
    let n := uleb c
    .run n.2 r n.1 0
  | 7 =>
    let n := uleb c
    .run n.2 r 1 n.1
  | 8 =>
    let n := uleb c
    let m := uleb n.2
    .run m.2 r n.1 m.1
  | _ => .invalid c

def rebaseOnce (host : GFHost σ) (image : LoadedImage) (slide : ℕ) (c : Cursor) (skip : ℕ)
    (r : Rebasing) : Fix σ Rebasing := do
  -- REBASE_TYPE_POINTER
  .check (r.type = 1) (.invalid c.p)
  .change fun s => { s with rebases := s.rebases + 1 }
  let rebases ← .observe (·.rebases)
  .check (rebases ≤ 1000000) (.invalid c.p)
  let address ← .lift (obtained (target image r.segment r.offset) (.invalid c.p))
  let read ← readWord address
  let old ← .lift (obtained read (.invalid c.p))
  let value := (old + slide) % 2 ^ 64
  let written ← writeWord host address value
  .check (written = true) (.invalid c.p)
  let offset ← .lift (obtained (add r.offset (8 + skip)) (.invalid c.p))
  notify address value none
  return { r with offset := offset }

def rebaseRun (host : GFHost σ) (image : LoadedImage) (slide : ℕ) (c : Cursor) (skip : ℕ) :
    ℕ → Rebasing → Fix σ Rebasing
  | 0, r => return r
  | count + 1, r => do
    let r ← rebaseOnce host image slide c skip r
    rebaseRun host image slide c skip count r

/-- The loop of `rebases`; an opcode takes a byte, so that the bytes bound the rounds. -/
def rebaseLoop (host : GFHost σ) (image : LoadedImage) (slide : ℕ) :
    ℕ → Cursor → Rebasing → Fix σ Unit
  | 0, c, _ => stop c
  | fuel + 1, c, r =>
    match c.bytes[c.p]? with
    | none => stop c -- Missing DONE.
    | some byte =>
      match rebaseOpcode (byte.toNat / 16) (byte.toNat % 16) { c with p := c.p + 1 } r with
      | .done => return ()
      | .invalid c => stop c
      | .run c r count skip =>
        if c.bad = true ∨ 1000000 < count ∨ uint64Max - 8 < skip then stop c
        else do
          let r ← rebaseRun host image slide c skip count r
          rebaseLoop host image slide fuel c r

def rebases (host : GFHost σ) (image : LoadedImage) (slide : ℕ) (bytes : List UInt8) :
    Fix σ Unit :=
  rebaseLoop host image slide (bytes.length + 1) ⟨bytes, 0, false⟩ ⟨uint64Max, 0, 0⟩

structure Binding where
  segment : ℕ
  offset : ℕ
  addend : ℕ
  ordinal : ℤ
  type : ℕ
  flags : ℕ
  symbol : Option CString
  ended : Bool

/-- The registers of `binds` at the start of a lazy pointer. -/
def Binding.fresh (ordinal : ℤ) (ended : Bool) : Binding :=
  ⟨uint64Max, 0, 0, ordinal, 1, 0, none, ended⟩

/-- The cases of `binds`, on the high and the low half of the opcode. Apple's linkers encode
backward moves as wrapping deltas; the target is checked before it is used. -/
def bindOpcode (dylibCount : ℕ) (lazy : Bool) (op imm : ℕ) (c : Cursor) (r : Binding) :
    Decoded Binding :=
  match op with
  | 0 => if lazy then .run c (.fresh 0 true) 0 0 else .done
  | 1 => .run c { r with ordinal := imm } 0 0
  | 2 =>
    let n := uleb c
    if dylibCount < n.1 then .invalid n.2 else .run n.2 { r with ordinal := n.1 } 0 0
  | 3 => .run c { r with ordinal := if imm = 0 then 0 else (imm : ℤ) - 16 } 0 0
  | 4 =>
    let rest := c.bytes.drop c.p
    let length := rest.findIdx (· = 0)
    if rest.length ≤ length then .invalid c
    else .run { c with p := c.p + length + 1 }
      { r with symbol := some (rest.take length), flags := imm } 0 0
  | 5 => .run c { r with type := imm } 0 0
  | 6 =>
    let n := sleb c
    .run n.2 { r with addend := n.1 } 0 0
  | 7 =>
    let n := uleb c
    .run n.2 { r with segment := imm, offset := n.1 } 0 0
  | 8 =>
    let n := uleb c
    .run n.2 { r with offset := (r.offset + n.1) % 2 ^ 64 } 0 0
  | 9 => .run c r 1 0
  | 10 =>
    let n := uleb c
    .run n.2 r 1 n.1
  | 11 => .run c r 1 (imm * 8)
  | 12 =>
    let n := uleb c
    let m := uleb n.2
    .run m.2 r n.1 m.1
  | _ => .invalid c

def bindOnce (host : GFHost σ) (image : LoadedImage) (lazy weakStream : Bool) (c : Cursor)
    (skip : ℕ) (r : Binding) : Fix σ Binding := do
  let wrong : GFError := .bindTarget r.segment r.offset r.type r.ordinal
  -- BIND_TYPE_POINTER, BIND_SPECIAL_DYLIB_WEAK_LOOKUP
  .check (r.type = 1) wrong
  let symbol ← .lift (obtained r.symbol wrong)
  .check (r.ordinal ≤ image.dylibs.length ∧ -3 ≤ r.ordinal) wrong
  .change fun s => { s with binds := s.binds + 1 }
  let binds ← .observe (·.binds)
  .check (binds ≤ 1000000) wrong
  let address ← .lift (obtained (target image r.segment r.offset) wrong)
  -- BIND_SYMBOL_FLAGS_WEAK_IMPORT
  let found ← ask host symbol r.ordinal (r.flags % 2 = 1 || weakStream) lazy
  .check (found.1 = true) (.unresolved symbol r.ordinal)
  let value := (found.2 + r.addend) % 2 ^ 64
  let written ← writeWord host address value
  .check (written = true) (.invalid c.p)
  notify address value (some symbol)
  return { r with offset := (r.offset + 8 + skip) % 2 ^ 64 }

def bindRun (host : GFHost σ) (image : LoadedImage) (lazy weakStream : Bool) (c : Cursor)
    (skip : ℕ) : ℕ → Binding → Fix σ Binding
  | 0, r => return r
  | count + 1, r => do
    let r ← bindOnce host image lazy weakStream c skip r
    bindRun host image lazy weakStream c skip count r

def bindLoop (host : GFHost σ) (image : LoadedImage) (lazy weakStream : Bool) :
    ℕ → Cursor → Binding → Fix σ Unit
  | 0, c, r => if lazy && r.ended then return () else stop c
  | fuel + 1, c, r =>
    match c.bytes[c.p]? with
    | none => if lazy && r.ended then return () else stop c
    | some byte =>
      match bindOpcode image.dylibs.length lazy (byte.toNat / 16) (byte.toNat % 16)
          { c with p := c.p + 1 } { r with ended := false } with
      | .done => return ()
      | .invalid c => stop c
      | .run c r count skip =>
        if c.bad = true ∨ 1000000 < count then stop c
        else do
          let r ← bindRun host image lazy weakStream c skip count r
          bindLoop host image lazy weakStream fuel c r

def binds (host : GFHost σ) (image : LoadedImage) (lazy weakStream : Bool)
    (bytes : List UInt8) : Fix σ Unit :=
  bindLoop host image lazy weakStream (bytes.length + 1) ⟨bytes, 0, false⟩
    (.fresh (if weakStream then -3 else 0) false)

/-! ## Chained fixups

The pointers hold the records. A blob lists the imports and where the chains start. -/

def blobNumber (blob : List UInt8) (offset n : ℕ) : Option ℕ :=
  if blob.length < offset ∨ blob.length - offset < n then none
  else some (littleEndian ((blob.drop offset).take n))

def blobString (blob : List UInt8) (offset : ℕ) : Option CString :=
  let text := blob.drop offset
  let length := text.findIdx (· = 0)
  if text.length ≤ length then none else some (text.take length)

structure ChainedImport where
  name : CString
  ordinal : ℤ
  weak : Bool
  addend : ℕ
deriving DecidableEq, Repr

/-- Stored unsigned; the top sixteen values are special and negative. -/
def chainedOrdinal (raw limit : ℕ) : ℤ :=
  if limit - 15 < raw then (raw : ℤ) - limit - 1 else raw

structure ChainedHeader where
  startsOffset : ℕ
  importsOffset : ℕ
  symbolsOffset : ℕ
  importsCount : ℕ
  importsFormat : ℕ

def chainedHeader (blob : List UInt8) : Except GFError ChainedHeader := do
  let field (i : ℕ) := obtained (blobNumber blob (4 * i) 4) GFError.chainedHeader
  let version ← field 0
  let startsOffset ← field 1
  let importsOffset ← field 2
  let symbolsOffset ← field 3
  let importsCount ← field 4
  let importsFormat ← field 5
  let symbolsFormat ← field 6
  need (version = 0) (.chainedVersion version)
  need (symbolsFormat = 0) .compressedNames
  return ⟨startsOffset, importsOffset, symbolsOffset, importsCount, importsFormat⟩

/-- The bytes of an import: DYLD_CHAINED_IMPORT, its form with an addend and the wide one. -/
def entrySize (importsFormat : ℕ) : ℕ :=
  if importsFormat = 1 then 4 else if importsFormat = 2 then 8
  else if importsFormat = 3 then 16 else 0

/-- The numbers of an import: its ordinal, whether it is weak, where its name is and its addend. -/
def importFields (blob : List UInt8) (format i place : ℕ) : Except GFError (ℤ × Bool × ℕ × ℕ) :=
  if format = 3 then do
    let raw ← obtained (blobNumber blob place 8) (.importOutside i)
    let addend ← obtained (blobNumber blob (place + 8) 8) (.importOutside i)
    return (chainedOrdinal (raw % 2 ^ 16) 0xffff, raw / 2 ^ 16 % 2 = 1, raw / 2 ^ 32, addend)
  else do
    let raw ← obtained (blobNumber blob place 4) (.importOutside i)
    let addend ← if format = 2 then obtained (blobNumber blob (place + 4) 4) (.importAddend i)
      else .ok 0
    return (chainedOrdinal (raw % 2 ^ 8) 0xff, raw / 2 ^ 8 % 2 = 1, raw / 2 ^ 9,
      if 2 ^ 31 ≤ addend then addend + (2 ^ 64 - 2 ^ 32) else addend)

def readImport (image : LoadedImage) (blob : List UInt8) (h : ChainedHeader) (i : ℕ) :
    Except GFError ChainedImport := do
  let fields ← importFields blob h.importsFormat i
    (h.importsOffset + i * entrySize h.importsFormat)
  let name ← obtained (blobString blob (h.symbolsOffset + fields.2.2.1)) (.importName i)
  need (-3 ≤ fields.1 ∧ fields.1 ≤ image.dylibs.length) (.importOrdinal fields.1)
  return ⟨name, fields.1, fields.2.1, fields.2.2.2⟩

def importLoop (image : LoadedImage) (blob : List UInt8) (h : ChainedHeader) :
    ℕ → ℕ → List ChainedImport → Except GFError (List ChainedImport)
  | 0, _, imports => .ok imports
  | left + 1, i, imports => do
    let x ← readImport image blob h i
    importLoop image blob h left (i + 1) (imports ++ [x])

def readImports (host : GFHost σ) (image : LoadedImage) (blob : List UInt8) (h : ChainedHeader) :
    Except GFError (List ChainedImport) := do
  need (entrySize h.importsFormat ≠ 0) (.importsFormat h.importsFormat)
  need (h.importsCount ≤ blob.length / entrySize h.importsFormat) .importsOutside
  need (host.malloc 1 = true) .importTable
  importLoop image blob h h.importsCount 0 []

/-- What all chains of a segment share. -/
structure Chains where
  image : LoadedImage
  slide : ℕ
  imports : List ChainedImport
  segment : GISegment
  format : ℕ
  pageSize : ℕ

def chainedBind (host : GFHost σ) (x : Chains) (address raw : ℕ) :
    Fix σ (ℕ × Option CString) := do
  let ordinal := raw % 2 ^ 24
  .check (raw / 2 ^ 32 % 2 ^ 19 = 0) (.bindReserved address)
  let found ← .lift (obtained x.imports[ordinal]? (.bindImport ordinal x.imports.length))
  let answer ← ask host found.name found.ordinal found.weak false
  .check (answer.1 = true ∨ found.weak = true) (.unresolved found.name found.ordinal)
  .change fun s => { s with binds := s.binds + 1 }
  return ((answer.2 + found.addend + raw / 2 ^ 24 % 2 ^ 8) % 2 ^ 64, some found.name)

/-- The value of a rebase record; DYLD_CHAINED_PTR_64_OFFSET counts from the header. -/
def chainedRebase (x : Chains) (address raw : ℕ) : Fix σ (ℕ × Option CString) := do
  .check (raw / 2 ^ 44 % 2 ^ 7 = 0) (.rebaseReserved address)
  let target := raw % 2 ^ 36 + raw / 2 ^ 36 % 2 ^ 8 * 2 ^ 56
  let base := if x.format = 6 then x.image.headerAddress else 0
  .change fun s => { s with rebases := s.rebases + 1 }
  return ((target + base + x.slide) % 2 ^ 64, none)

/-- The top bit tells a bind from a rebase. -/
def chainedValue (host : GFHost σ) (x : Chains) (address raw : ℕ) :
    Fix σ (ℕ × Option CString) :=
  if 2 ^ 63 ≤ raw then chainedBind host x address raw else chainedRebase x address raw

/-- Where the next record is, so many steps of four bytes on. -/
def nextRecord (address next : ℕ) : Option ℕ :=
  if next = 0 then none else some ((address + next * 4) % 2 ^ 64)

/-- One record; the answer is where the next one is. -/
def chainedOnce (host : GFHost σ) (x : Chains) (pageStart pageEnd address : ℕ) :
    Fix σ (Option ℕ) := do
  .check (address ≤ (pageEnd + 2 ^ 64 - 8) % 2 ^ 64 ∧ pageStart ≤ address) .leavesPage
  let read ← readWord address
  let raw ← .lift (obtained read .pointerOutside)
  let value ← chainedValue host x address raw
  let written ← writeWord host address value.1
  .check (written = true) .cannotWrite
  notify address value.1 value.2
  return nextRecord address (raw / 2 ^ 51 % 2 ^ 12)

/-- The records of a chain, as many as the steps allowed. -/
def pointerLoop (host : GFHost σ) (x : Chains) (pageStart pageEnd : ℕ) : ℕ → ℕ → Fix σ Unit
  | 0, _ => .lift (.error .endless)
  | steps + 1, address => do
    let next ← chainedOnce host x pageStart pageEnd address
    match next with
    | none => return ()
    | some address => pointerLoop host x pageStart pageEnd steps address

def stepsAllowed (image : LoadedImage) : ℕ := image.mappedSize / 4 + 2

/-- One chain of a page. It stays on its own page, inside its own segment. -/
def chain (host : GFHost σ) (x : Chains) (segmentOffset page offset : ℕ) : Fix σ Unit := do
  .check (offset % 2 ^ 15 < x.pageSize) .startBeyondPage
  let pageStart := (x.image.headerAddress + segmentOffset + page * x.pageSize) % 2 ^ 64
  let segmentEnd := (x.segment.address + x.segment.size) % 2 ^ 64
  .check (x.segment.address ≤ pageStart ∧ pageStart < segmentEnd)
    (.pageOutside page x.segment.name)
  let pageEnd := min ((pageStart + x.pageSize) % 2 ^ 64) segmentEnd
  pointerLoop host x pageStart pageEnd (stepsAllowed x.image)
    ((pageStart + offset % 2 ^ 15) % 2 ^ 64)

/-- The chains of a page that has several, listed from `place` on up to the one that is marked as
the last; the bytes of the blob bound them. -/
def startList (host : GFHost σ) (x : Chains) (blob : List UInt8) (i segmentOffset page : ℕ) :
    ℕ → ℕ → Fix σ Unit
  | 0, _ => .lift (.error (.startList i))
  | fuel + 1, place => do
    let offset ← .lift (obtained (blobNumber blob place 2) (.startList i))
    chain host x segmentOffset page offset
    if 2 ^ 15 ≤ offset then return ()
    else startList host x blob i segmentOffset page fuel (place + 2)

/-- A page with this start: DYLD_CHAINED_PTR_START_NONE, DYLD_CHAINED_PTR_START_MULTI or the
offset of its one chain. -/
def pageChains (host : GFHost σ) (x : Chains) (blob : List UInt8)
    (i place segmentOffset page start : ℕ) : Fix σ Unit :=
  if start = 0xffff then return ()
  else if 2 ^ 15 ≤ start then
    startList host x blob i segmentOffset page (blob.length + 1) (place + 22 + start % 2 ^ 15 * 2)
  else chain host x segmentOffset page start

def pageLoop (host : GFHost σ) (x : Chains) (blob : List UInt8) (i place segmentOffset : ℕ) :
    ℕ → ℕ → Fix σ Unit
  | 0, _ => return ()
  | left + 1, page => do
    let start ← .lift (obtained (blobNumber blob (place + 22 + page * 2) 2) (.pageTable i))
    pageChains host x blob i place segmentOffset page start
    pageLoop host x blob i place segmentOffset left (page + 1)

/-- The chains of a segment, whose starts are at `info` behind those of the segments. -/
def chainedSegment (host : GFHost σ) (image : LoadedImage) (slide : ℕ) (blob : List UInt8)
    (h : ChainedHeader) (imports : List ChainedImport) (i info : ℕ) : Fix σ Unit := do
  let segment ← .lift (obtained image.segments[i]? (.startsBeyond i image.segments.length))
  let place := h.startsOffset + info
  let pageSize ← .lift (obtained (blobNumber blob (place + 4) 2) (.startsTruncated i))
  let format ← .lift (obtained (blobNumber blob (place + 6) 2) (.startsTruncated i))
  let segmentOffset ← .lift (obtained (blobNumber blob (place + 8) 8) (.startsTruncated i))
  let pageCount ← .lift (obtained (blobNumber blob (place + 20) 2) (.startsTruncated i))
  -- DYLD_CHAINED_PTR_64, DYLD_CHAINED_PTR_64_OFFSET
  .check (format = 2 ∨ format = 6) (.pointerFormat format)
  .check (pageSize = 4096 ∨ pageSize = 16384) (.chainPageSize pageSize)
  pageLoop host ⟨image, slide, imports, segment, format, pageSize⟩ blob i place segmentOffset
    pageCount 0

def startsOf (host : GFHost σ) (image : LoadedImage) (slide : ℕ) (blob : List UInt8)
    (h : ChainedHeader) (imports : List ChainedImport) (i info : ℕ) : Fix σ Unit :=
  if info = 0 then return () else chainedSegment host image slide blob h imports i info

def segmentLoop (host : GFHost σ) (image : LoadedImage) (slide : ℕ) (blob : List UInt8)
    (h : ChainedHeader) (imports : List ChainedImport) : ℕ → ℕ → Fix σ Unit
  | 0, _ => return ()
  | left + 1, i => do
    let info ← .lift (obtained (blobNumber blob (h.startsOffset + 4 + i * 4) 4) (.startsOf i))
    startsOf host image slide blob h imports i info
    segmentLoop host image slide blob h imports left (i + 1)

def chained (host : GFHost σ) (image : LoadedImage) (slide : ℕ) (range : ℕ × ℕ) : Fix σ Unit := do
  let bytes ← stream host image 0 range.1 range.2
  let blob ← .lift (obtained bytes .chainedOutside)
  let h ← .lift (chainedHeader blob)
  let imports ← .lift (readImports host image blob h)
  let segmentCount ← .lift (obtained (blobNumber blob h.startsOffset 4) .startsOutside)
  segmentLoop host image slide blob h imports segmentCount 0

/-! ## Images -/

/-- The failure of a stream that has said nothing itself. -/
def describe (i : ℕ) (x : Fix σ Unit) : Fix σ Unit :=
  x.rescue fun e => do
    let s ← .current
    match e with
    | .invalid consumed => .lift (.error (.stream i consumed s.rebases s.binds))
    | e => .lift (.error e)

def opcodeStream (host : GFHost σ) (image : LoadedImage) (slide i : ℕ) (range : ℕ × ℕ) :
    Fix σ Unit :=
  if range.2 = 0 then return ()
  else do
    let read ← stream host image i range.1 range.2
    let bytes ← .lift (obtained read .streamOutside)
    describe i (if i = 0 then rebases host image slide bytes
      else binds host image (i = 1) (i = 3) bytes)

/-- Lazy binds come first: a name bound both ways is a call. -/
def opcodes (host : GFHost σ) (image : LoadedImage) (slide : ℕ) : Fix σ Unit := do
  opcodeStream host image slide 0 image.dyldInfo.rebase
  opcodeStream host image slide 1 image.dyldInfo.lazyBind
  opcodeStream host image slide 2 image.dyldInfo.bind
  opcodeStream host image slide 3 image.dyldInfo.weakBind

/-- Linkers emit one format or the other; both are a malformed image. -/
def apply (host : GFHost σ) (image : LoadedImage) (slide : ℕ) : Fix σ Unit :=
  match image.chained with
  | some range => do
    .check (image.dyldInfo.rebase.2 = 0 ∧ image.dyldInfo.bind.2 = 0 ∧
      image.dyldInfo.lazyBind.2 = 0 ∧ image.dyldInfo.weakBind.2 = 0) .bothFormats
    chained host image slide range
  | none => opcodes host image slide

def start (image : LoadedImage) (context : σ) : Fixing σ := ⟨image.memory, context, 0, 0, []⟩

def gfApplyObserved (host : GFHost σ) (image : LoadedImage) (slide : ℕ) (context : σ) :
    Except GFError Unit × Fixing σ :=
  apply host image slide (start image context)

end GuestFixups

end Tolkara
