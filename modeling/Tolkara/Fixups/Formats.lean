import Tolkara.Fixups.Writes

/-!
# What the two formats say

Both formats ask for the same: some pointers of the image become places that move with the slide,
others symbols. `opcodesSaid` and `chainedSaid` read that off the memory before anything is
written. Where the pointers are apart, the call that reads and writes in turn does what was said:
no record and no target that it has still to read is one that it has written.
-/

namespace Tolkara

open Library

/-- What becomes of a pointer. -/
inductive GFMeaning
  | rebase (target : ℕ)
  | bind (symbol : CString) (ordinal : ℤ) (addend : ℕ)
deriving DecidableEq, Repr

structure GFPointer where
  address : ℕ
  meaning : GFMeaning
deriving DecidableEq, Repr

def GFMeaning.isRebase : GFMeaning → Bool
  | .rebase _ => true
  | .bind _ _ _ => false

def GFMeaning.symbol : GFMeaning → Option CString
  | .rebase _ => none
  | .bind symbol _ _ => some symbol

def GFMeaning.value (resolve : CString → ℤ → ℕ) (slide : ℕ) : GFMeaning → ℕ
  | .rebase target => (target + slide) % 2 ^ 64
  | .bind symbol ordinal addend => (resolve symbol ordinal + addend) % 2 ^ 64

def GFPointer.observation (resolve : CString → ℤ → ℕ) (slide : ℕ) (p : GFPointer) :
    GFObservation :=
  ⟨p.address, p.meaning.value resolve slide, p.meaning.symbol⟩

namespace GuestFixups

/-! ## Opcodes -/

def rebaseOnceSaid (image : LoadedImage) (m : Flat) (skip : ℕ) (r : Rebasing) :
    Option (GFPointer × Rebasing) :=
  if r.type = 1 then do
    let address ← target image r.segment r.offset
    let offset ← add r.offset (8 + skip)
    return (⟨address, .rebase (m.word address)⟩, { r with offset := offset })
  else none

def bindOnceSaid (image : LoadedImage) (skip : ℕ) (r : Binding) : Option (GFPointer × Binding) :=
  if r.type = 1 ∧ r.ordinal ≤ image.dylibs.length ∧ -3 ≤ r.ordinal then do
    let symbol ← r.symbol
    let address ← target image r.segment r.offset
    return (⟨address, .bind symbol r.ordinal (r.addend % 2 ^ 64)⟩,
      { r with offset := (r.offset + 8 + skip) % 2 ^ 64 })
  else none

def runSaid {ρ : Type} (once : ρ → Option (GFPointer × ρ)) : ℕ → ρ → Option (List GFPointer × ρ)
  | 0, r => some ([], r)
  | count + 1, r => do
    let first ← once r
    let rest ← runSaid once count first.2
    return (first.1 :: rest.1, rest.2)

def rebaseLoopSaid (image : LoadedImage) (m : Flat) :
    ℕ → Cursor → Rebasing → Option (List GFPointer)
  | 0, _, _ => none
  | fuel + 1, c, r =>
    match c.bytes[c.p]? with
    | none => none
    | some byte =>
      match rebaseOpcode (byte.toNat / 16) (byte.toNat % 16) { c with p := c.p + 1 } r with
      | .done => some []
      | .invalid _ => none
      | .run c r count skip =>
        if c.bad = true ∨ 1000000 < count ∨ uint64Max - 8 < skip then none
        else do
          let run ← runSaid (rebaseOnceSaid image m skip) count r
          let rest ← rebaseLoopSaid image m fuel c run.2
          return run.1 ++ rest

def bindLoopSaid (image : LoadedImage) (lazy : Bool) :
    ℕ → Cursor → Binding → Option (List GFPointer)
  | 0, _, r => if lazy && r.ended then some [] else none
  | fuel + 1, c, r =>
    match c.bytes[c.p]? with
    | none => if lazy && r.ended then some [] else none
    | some byte =>
      match bindOpcode image.dylibs.length lazy (byte.toNat / 16) (byte.toNat % 16)
          { c with p := c.p + 1 } { r with ended := false } with
      | .done => some []
      | .invalid _ => none
      | .run c r count skip =>
        if c.bad = true ∨ 1000000 < count then none
        else do
          let run ← runSaid (bindOnceSaid image skip) count r
          let rest ← bindLoopSaid image lazy fuel c run.2
          return run.1 ++ rest

def streamPlace (image : LoadedImage) (range : ℕ × ℕ) : Option ℕ :=
  (streamSegment image range.1 range.2).map fun s =>
    (s.address + (range.1 - s.fileOffset)) % 2 ^ 64

def streamSaid (image : LoadedImage) (m : Flat) (range : ℕ × ℕ) : Option (List UInt8) := do
  let place ← streamPlace image range
  if range.2 ≤ 32 * 1024 * 1024 ∧ place + range.2 ≤ uint64Max ∧
      m.access place range.2 GM.READ = .ok then
    some (m.bytes place range.2)
  else none

def opcodeStreamSaid (image : LoadedImage) (m : Flat) (i : ℕ) (range : ℕ × ℕ) :
    Option (List GFPointer) :=
  if range.2 = 0 then some []
  else do
    let bytes ← streamSaid image m range
    if i = 0 then
      rebaseLoopSaid image m (bytes.length + 1) ⟨bytes, 0, false⟩ ⟨uint64Max, 0, 0⟩
    else
      bindLoopSaid image (i = 1) (bytes.length + 1) ⟨bytes, 0, false⟩
        (.fresh (if i = 3 then -3 else 0) false)

/-- The pointers of the four streams, in the order of the call. -/
def opcodesSaid (image : LoadedImage) (m : Flat) : Option (List GFPointer) := do
  let rebases ← opcodeStreamSaid image m 0 image.dyldInfo.rebase
  let lazy ← opcodeStreamSaid image m 1 image.dyldInfo.lazyBind
  let binds ← opcodeStreamSaid image m 2 image.dyldInfo.bind
  let weak ← opcodeStreamSaid image m 3 image.dyldInfo.weakBind
  return rebases ++ lazy ++ binds ++ weak

/-! ## Chains -/

def recordSaid (x : Chains) (raw : ℕ) : Option GFMeaning :=
  if 2 ^ 63 ≤ raw then
    if raw / 2 ^ 32 % 2 ^ 19 = 0 then
      (x.imports[raw % 2 ^ 24]?).map fun found =>
        .bind found.name found.ordinal ((found.addend + raw / 2 ^ 24 % 2 ^ 8) % 2 ^ 64)
    else none
  else if raw / 2 ^ 44 % 2 ^ 7 = 0 then
    some (.rebase ((raw % 2 ^ 36 + raw / 2 ^ 36 % 2 ^ 8 * 2 ^ 56 +
      if x.format = 6 then x.image.headerAddress else 0) % 2 ^ 64))
  else none

def pointerLoopSaid (x : Chains) (m : Flat) (pageStart pageEnd : ℕ) :
    ℕ → ℕ → Option (List GFPointer)
  | 0, _ => none
  | steps + 1, address =>
    if address ≤ (pageEnd + 2 ^ 64 - 8) % 2 ^ 64 ∧ pageStart ≤ address then do
      let meaning ← recordSaid x (m.word address)
      match nextRecord address (m.word address / 2 ^ 51 % 2 ^ 12) with
      | none => return [⟨address, meaning⟩]
      | some next => do
        let rest ← pointerLoopSaid x m pageStart pageEnd steps next
        return ⟨address, meaning⟩ :: rest
    else none

def chainSaid (x : Chains) (m : Flat) (segmentOffset page offset : ℕ) :
    Option (List GFPointer) :=
  let pageStart := (x.image.headerAddress + segmentOffset + page * x.pageSize) % 2 ^ 64
  let segmentEnd := (x.segment.address + x.segment.size) % 2 ^ 64
  if offset % 2 ^ 15 < x.pageSize ∧ x.segment.address ≤ pageStart ∧ pageStart < segmentEnd then
    pointerLoopSaid x m pageStart (min ((pageStart + x.pageSize) % 2 ^ 64) segmentEnd)
      (stepsAllowed x.image) ((pageStart + offset % 2 ^ 15) % 2 ^ 64)
  else none

def startListSaid (x : Chains) (m : Flat) (blob : List UInt8) (segmentOffset page : ℕ) :
    ℕ → ℕ → Option (List GFPointer)
  | 0, _ => none
  | fuel + 1, place => do
    let offset ← blobNumber blob place 2
    let first ← chainSaid x m segmentOffset page offset
    if 2 ^ 15 ≤ offset then return first
    else
      let rest ← startListSaid x m blob segmentOffset page fuel (place + 2)
      return first ++ rest

def pageChainsSaid (x : Chains) (m : Flat) (blob : List UInt8)
    (place segmentOffset page start : ℕ) : Option (List GFPointer) :=
  if start = 0xffff then some []
  else if 2 ^ 15 ≤ start then
    startListSaid x m blob segmentOffset page (blob.length + 1) (place + 22 + start % 2 ^ 15 * 2)
  else chainSaid x m segmentOffset page start

def pageLoopSaid (x : Chains) (m : Flat) (blob : List UInt8) (place segmentOffset : ℕ) :
    ℕ → ℕ → Option (List GFPointer)
  | 0, _ => some []
  | left + 1, page => do
    let start ← blobNumber blob (place + 22 + page * 2) 2
    let first ← pageChainsSaid x m blob place segmentOffset page start
    let rest ← pageLoopSaid x m blob place segmentOffset left (page + 1)
    return first ++ rest

def chainedSegmentSaid (image : LoadedImage) (m : Flat) (blob : List UInt8) (h : ChainedHeader)
    (imports : List ChainedImport) (i info : ℕ) : Option (List GFPointer) := do
  let segment ← image.segments[i]?
  let place := h.startsOffset + info
  let pageSize ← blobNumber blob (place + 4) 2
  let format ← blobNumber blob (place + 6) 2
  let segmentOffset ← blobNumber blob (place + 8) 8
  let pageCount ← blobNumber blob (place + 20) 2
  if (format = 2 ∨ format = 6) ∧ (pageSize = 4096 ∨ pageSize = 16384) then
    pageLoopSaid ⟨image, 0, imports, segment, format, pageSize⟩ m blob place segmentOffset
      pageCount 0
  else none

def startsSaid (image : LoadedImage) (m : Flat) (blob : List UInt8) (h : ChainedHeader)
    (imports : List ChainedImport) (i info : ℕ) : Option (List GFPointer) :=
  if info = 0 then some [] else chainedSegmentSaid image m blob h imports i info

def segmentLoopSaid (image : LoadedImage) (m : Flat) (blob : List UInt8) (h : ChainedHeader)
    (imports : List ChainedImport) : ℕ → ℕ → Option (List GFPointer)
  | 0, _ => some []
  | left + 1, i => do
    let info ← blobNumber blob (h.startsOffset + 4 + i * 4) 4
    let first ← startsSaid image m blob h imports i info
    let rest ← segmentLoopSaid image m blob h imports left (i + 1)
    return first ++ rest

def importsSaid (image : LoadedImage) (blob : List UInt8) (h : ChainedHeader) :
    Option (List ChainedImport) :=
  if entrySize h.importsFormat ≠ 0 ∧ h.importsCount ≤ blob.length / entrySize h.importsFormat then
    (importLoop image blob h h.importsCount 0 []).toOption
  else none

/-- The pointers of all chains, in the order of the call. -/
def chainedSaid (image : LoadedImage) (m : Flat) (range : ℕ × ℕ) : Option (List GFPointer) := do
  let blob ← streamSaid image m range
  let h ← (chainedHeader blob).toOption
  let imports ← importsSaid image blob h
  let segmentCount ← blobNumber blob h.startsOffset 4
  segmentLoopSaid image m blob h imports segmentCount 0

end GuestFixups

end Tolkara
