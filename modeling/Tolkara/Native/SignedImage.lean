import Tolkara.Image.File
import Tolkara.Native.Layout

/-!
# The signed page container

`runtime/SignedImage.c`: where a mapped container holds its image of the guest, whether
that image was made for this guest, and how much of it the guest rewrites. The
container is read through a reader that starts at its header, since only its first page
may be looked at. The image is a place in the memory of the host.
-/

namespace Tolkara

open Library

structure SIImage where
  bytes : ℕ
  size : ℕ
deriving DecidableEq

/-! ## The container -/

/-- How `si_locate_image` fails. `fault` is a read of memory that is not there. -/
inductive LocateError where
  | fault
  | lacksV1
  | lacksFinal
  | markersDiffer
  | headerNotAligned
  | notArm64
  | commandsExceedPage
  | commandPastEnd (c : ℕ)
  | invalidCommand (c cmdsize : ℕ)
  | truncatedSegment (c : ℕ)
  | sectionsExceedCommand (segname : CString)
  | moreThanOneText
  | twoSections
  | commandsDisagree (sizeofcmds ncmds : ℕ)
  | noText
  | textNotReadExecute
  | markerNotAtSection
  | sectionOutsideText (sectname : CString)
  | sectionNotAligned (sectname : CString)
  | partialPage (size : ℕ)

/-- What the loop over the commands has found: `text` and `section`. -/
structure Locating where
  text : Option SegmentCommand
  found : Option Section

section

variable (read : Reader) (header v1 : ℕ)

/-- The loop over the sections of `__TEXT`. The match may wrap: it only picks the section. -/
def markerLoop (s : SegmentCommand) :
    ℕ → ℕ → Option Section → Except LocateError (Option Section)
  | 0, _, found => .ok found
  | left + 1, cursor, found => do
    let b ← obtained (read cursor 80) .fault
    let candidate := Section.decode b
    if candidate.size = 0 ∨ wrap64 (header + sub64 candidate.addr s.vmaddr) ≠ v1 then
      markerLoop s left (cursor + 80) found
    else do
      need (found.isNone) .twoSections
      markerLoop s left (cursor + 80) (some candidate)

def locateSegment (c cursor cmdsize : ℕ) (l : Locating) : Except LocateError Locating := do
  need (72 ≤ cmdsize) (.truncatedSegment c)
  let b ← obtained (read cursor 72) .fault
  let s := SegmentCommand.decode b
  let nsects := little b 64 4
  need (nsects ≤ (cmdsize - 72) / 80) (.sectionsExceedCommand s.segname)
  if s.segname = ascii "__TEXT" then do
    need (l.text.isNone) .moreThanOneText
    let found ← markerLoop read header v1 s nsects (cursor + 72) l.found
    .ok ⟨some s, found⟩
  else .ok l

/-- The command `c`, with the code `cmd`. Those of other kinds do not matter. -/
def locateCommand (c cursor cmdsize cmd : ℕ) (l : Locating) : Except LocateError Locating :=
  if cmd = LC.SEGMENT_64 then locateSegment read header v1 c cursor cmdsize l else .ok l

def locateLoop (commandsEnd : ℕ) :
    ℕ → ℕ → ℕ → Locating → Except LocateError (Locating × ℕ)
  | 0, _, cursor, l => .ok (l, cursor)
  | left + 1, c, cursor, l => do
    need (isWithin cursor 8 commandsEnd) (.commandPastEnd c)
    let lc ← obtained (read cursor 8) .fault
    let cmdsize := little lc 4 4
    need (8 ≤ cmdsize ∧ cmdsize % 8 = 0 ∧ isWithin cursor cmdsize commandsEnd)
      (.invalidCommand c cmdsize)
    let l ← locateCommand read header v1 c cursor cmdsize (little lc 0 4) l
    locateLoop commandsEnd left (c + 1) (cursor + cmdsize) l

def acceptImage (l : Locating) : Except LocateError SIImage := do
  let text ← obtained l.text .noText
  need (text.fileoff = 0 ∧ text.initprot &&& (GM.READ ||| GM.WRITE ||| GM.EXEC) =
    GM.READ ||| GM.EXEC) .textNotReadExecute
  let x ← obtained l.found .markerNotAtSection
  let limit := if text.filesize < text.vmsize then text.filesize else text.vmsize
  let offset := sub64 x.addr text.vmaddr
  need (text.vmaddr ≤ x.addr ∧ isWithin offset x.size limit) (.sectionOutsideText x.sectname)
  need (offset % pageSize = 0) (.sectionNotAligned x.sectname)
  need (x.size % pageSize = 0) (.partialPage x.size)
  .ok ⟨v1, x.size⟩

def siLocateImage (final : ℕ) : Except LocateError SIImage := do
  need (v1 ≠ 0) .lacksV1
  need (final ≠ 0) .lacksFinal
  need (v1 = final) .markersDiffer
  need (header ≠ 0 ∧ header % pageSize = 0) .headerNotAligned
  let b ← obtained (read 0 32) .fault
  let mh : MachHeader := ⟨b⟩
  -- MH_MAGIC_64, CPU_TYPE_ARM64
  need (mh.magic = 0xfeedfacf ∧ mh.cputype = 0x0100000c) .notArm64
  need (mh.sizeofcmds ≤ pageSize - 32) .commandsExceedPage
  let commandsEnd := 32 + mh.sizeofcmds
  let (l, cursor) ← locateLoop read header v1 commandsEnd mh.ncmds 0 32 ⟨none, none⟩
  need (cursor = commandsEnd) (.commandsDisagree mh.sizeofcmds mh.ncmds)
  acceptImage v1 l

end

/-! ## The guest -/

def originalPage (m : GuestMemory) (address : ℕ) : PageBytes :=
  match m.pages[m.lower address]? with
  | some p => if p.address = address then p.bytes.getD zeroPage else zeroPage
  | none => zeroPage

/-- The bytes of a chunk that differ, added to the count and the first one found so far. -/
def mismatchLoop (x y : Buffer) : ℕ → ℕ → ℕ × ℕ → ℕ × ℕ
  | 0, _, found => found
  | left + 1, i, (count, first) =>
    mismatchLoop x y left (i + 1)
      (if x i ≠ y i then (count + 1, if count = 0 then i else first) else (count, first))

/-- The loop over the chunks, of which those that are equal are passed over. -/
def chunkLoop (x y : Buffer) (size : ℕ) : ℕ → ℕ → ℕ × ℕ → ℕ × ℕ
  | 0, _, found => found
  | turns + 1, chunk, found =>
    if chunk < size then
      let n := if size - chunk < 4096 then size - chunk else 4096
      chunkLoop x y size turns (chunk + 4096)
        (if (List.range n).all fun i => x (chunk + i) = y (chunk + i) then found
        else mismatchLoop x y n chunk found)
    else found

/-- `si_count_mismatches`: how many bytes differ, and the first of them. -/
def siCountMismatches (x y : Buffer) (size : ℕ) : ℕ × ℕ :=
  chunkLoop x y size size 0 (0, size)

inductive MatchError where
  | notOnlyText
  | sizeDiffers (image text : ℕ)
  | headerNotStaged
  | commandsExceedPage (bytes : ℕ)
  | differentExecutable (differing bytes first : ℕ)

/-- The number of executable segments, and the last of them that is `__TEXT`. -/
def textLoop : List GISegment → ℕ → Option GISegment → ℕ × Option GISegment
  | [], executable, text => (executable, text)
  | s :: rest, executable, text =>
    if s.prot &&& GM.EXEC = 0#32 then textLoop rest executable text
    else textLoop rest (executable + 1) (if s.name = ascii "__TEXT" then some s else text)

section

variable (host : Buffer) (image : SIImage) (guest : LoadedImage)

def siMatchGuest : Except MatchError Unit := do
  let (executable, text) := textLoop guest.segments 0 none
  need (executable = 1) .notOnlyText
  let text ← obtained text .notOnlyText
  need (text.size ≠ 0 ∧ text.address = guest.headerAddress ∧ text.address % pageSize = 0 ∧
    text.size % pageSize = 0) .notOnlyText
  need (image.size = text.size) (.sizeDiffers image.size text.size)
  let page := originalPage guest.memory guest.headerAddress
  let mh : MachHeader := ⟨page⟩
  need (mh.magic = 0xfeedfacf) .headerNotStaged
  need (mh.sizeofcmds ≤ pageSize - 32) (.commandsExceedPage (32 + mh.sizeofcmds))
  let (differing, first) :=
    siCountMismatches page (fun i => host (image.bytes + i)) (32 + mh.sizeofcmds)
  need (differing = 0) (.differentExecutable differing (32 + mh.sizeofcmds) first)

inductive ShadowError where
  | invalidTextRange
  | initializerOutsideText (initializer : ℕ)
  | initializerRewritten (initializer shadow : ℕ)

/-- `memcmp` of a page of the image with the guest's. -/
def pageDiffers (offset : ℕ) : Bool :=
  (List.range pageSize).any fun i =>
    originalPage guest.memory (guest.headerAddress + offset) i ≠ host (image.bytes + offset + i)

def shadowLoop (differs : ℕ → Bool) : ℕ → ℕ → ℕ → ℕ
  | 0, _, shadow => shadow
  | left + 1, offset, shadow =>
    shadowLoop differs left (offset + pageSize)
      (if differs offset then offset + pageSize else shadow)

def siShadowSize : Except ShadowError ℕ := do
  let base := guest.headerAddress
  let size := image.size
  need (size ≠ 0 ∧ size % pageSize = 0 ∧ base % pageSize = 0 ∧ size ≤ uint64Max - base)
    .invalidTextRange
  let shadow := shadowLoop (pageDiffers host image guest) (size / pageSize) 0 0
  let initializer := sub64 guest.firstInitializer base
  need (guest.initializerCount ≠ 0 ∧ base ≤ guest.firstInitializer ∧ initializer < size)
    (.initializerOutsideText guest.firstInitializer)
  need (shadow ≤ initializer) (.initializerRewritten initializer shadow)
  .ok shadow

end

end Tolkara
