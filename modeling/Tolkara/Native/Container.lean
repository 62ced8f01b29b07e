import Tolkara.Image.File

/-!
# The page container

`tools/build_signed_container.py`: it reads the executable with a parser of its own, takes
the final pages of its `__TEXT` from the file or from a capture, and puts them into a library of
one section behind the two markers. Signing is not part of it. The fields of a library are
packed without a check: what does not fit is longer than `TEXT_LIMIT` allows.
-/

namespace Tolkara

open Library

/-- `BuildError`. `structError` is a field that the data does not have. -/
inductive BuildError where
  | structError
  | fileTooSmall
  | malformedFatHeader
  | sliceOutsideFile
  | noArm64Slice
  | truncatedHeader
  | notArm64
  | notExecutable
  | commandsPastEnd
  | commandPastEnd (index : ℕ)
  | invalidCommand (index cmdsize : ℕ)
  | chainedFixups
  | truncatedSegment (index : ℕ)
  | sectionsExceedCommand (name : CString)
  | segmentOutsideFile (name : CString)
  | truncatedSymtab
  | commandsDisagree
  | executableNotOnlyText
  | textLayout
  | textTooLarge (vmsize : ℕ)
  | headerExceedsPage
  | expectedOneInitializer
  | initializerOutsideText
  | noSymbolTable
  | symbolTableOutsideFile
  | symbolNotDefined (name : List UInt8)
  | captureSize (capture text : ℕ)
  | captureOfDifferentBuild
  | initializerRewritten (initializer rewritten : ℕ)
  | probeOutsideText (offset : ℤ)

/-- `struct.unpack_from`, for fields of `n` bytes together. -/
def unpackFrom (data : List UInt8) : Reader := fun offset n =>
  if offset + n ≤ data.length then some fun i => data.getD (offset + i) 0 else none

namespace Builder

/-! ## The executable -/

/-- The loop over the architectures of a fat file. -/
def archLoop (data : List UInt8) (wide : Bool) : ℕ → ℕ → Except BuildError (List UInt8)
  | 0, _ => .error .noArm64Slice
  | left + 1, i => do
    let at' := 8 + i * (if wide then 32 else 20)
    let arch ← obtained (unpackFrom data at' (if wide then 24 else 16)) .structError
    let offset := if wide then be64 arch 8 else be32 arch 8
    let size := if wide then be64 arch 16 else be32 arch 12
    -- CPU_ARM64, CPU_SUBTYPE_ARM64E
    if be32 arch 0 = 0x0100000c ∧ be32 arch 4 % 256 ≠ 2 then do
      need (isWithin offset size data.length) .sliceOutsideFile
      .ok ((data.drop offset).take size)
    else archLoop data wide left (i + 1)

def arm64Slice (data : List UInt8) : Except BuildError (List UInt8) := do
  need (8 ≤ data.length) .fileTooSmall
  let head ← obtained (unpackFrom data 0 8) .structError
  let magic := be32 head 0
  if magic ≠ 0xcafebabe ∧ magic ≠ 0xcafebabf then .ok data
  else do
    let count := be32 head 4
    let wide := decide (magic = 0xcafebabf)
    need (count ≤ 64 ∧ isWithin 8 (count * (if wide then 32 else 20)) data.length)
      .malformedFatHeader
    archLoop data wide count 0

def SYMTAB : ℕ := 0x2

structure Symtab where
  symoff : ℕ
  nsyms : ℕ
  stroff : ℕ
  strsize : ℕ

/-- What the loop over the commands has found. -/
structure Parsing where
  segments : List SegmentCommand
  symtab : Option Symtab
  initializers : List Section

/-- The loop over the sections of a segment, for those with initializers. -/
def sectionLoop (data : List UInt8) : ℕ → ℕ → List Section → Except BuildError (List Section)
  | 0, _, found => .ok found
  | left + 1, cursor, found => do
    let b ← obtained (unpackFrom data cursor 68) .structError
    let x := Section.decode b
    sectionLoop data left (cursor + 80)
      (if x.type = S.MOD_INIT_FUNC_POINTERS then found ++ [x] else found)

def parseSegment (data : List UInt8) (index cursor cmdsize : ℕ) (p : Parsing) :
    Except BuildError Parsing := do
  need (72 ≤ cmdsize) (.truncatedSegment index)
  let b ← obtained (unpackFrom data cursor 72) .structError
  let s := SegmentCommand.decode b
  let nsects := little b 64 4
  need (nsects ≤ (cmdsize - 72) / 80) (.sectionsExceedCommand s.segname)
  need (isWithin s.fileoff s.filesize data.length) (.segmentOutsideFile s.segname)
  let found ← sectionLoop data nsects (cursor + 72) p.initializers
  .ok { p with segments := p.segments ++ [s], initializers := found }

def parseSymtab (data : List UInt8) (cursor cmdsize : ℕ) (p : Parsing) :
    Except BuildError Parsing := do
  need (24 ≤ cmdsize) .truncatedSymtab
  let b ← obtained (unpackFrom data (cursor + 8) 16) .structError
  .ok { p with symtab := some ⟨little b 0 4, little b 4 4, little b 8 4, little b 12 4⟩ }

/-- The command `index`, with the code `cmd`. Those of other kinds do not matter. -/
def parseCommand (data : List UInt8) (index cursor cmdsize cmd : ℕ) (p : Parsing) :
    Except BuildError Parsing :=
  if cmd = LC.DYLD_CHAINED_FIXUPS then .error .chainedFixups
  else if cmd = LC.SEGMENT_64 then parseSegment data index cursor cmdsize p
  else if cmd = SYMTAB then parseSymtab data cursor cmdsize p
  else .ok p

def parseLoop (data : List UInt8) (stop : ℕ) :
    ℕ → ℕ → ℕ → Parsing → Except BuildError (Parsing × ℕ)
  | 0, _, cursor, p => .ok (p, cursor)
  | left + 1, index, cursor, p => do
    need (isWithin cursor 8 stop) (.commandPastEnd index)
    let lc ← obtained (unpackFrom data cursor 8) .structError
    let cmdsize := little lc 4 4
    need (8 ≤ cmdsize ∧ cmdsize % 8 = 0 ∧ isWithin cursor cmdsize stop)
      (.invalidCommand index cmdsize)
    let p ← parseCommand data index cursor cmdsize (little lc 0 4) p
    parseLoop data stop left (index + 1) (cursor + cmdsize) p

/-- What is known of the executable. `initializer` is an offset in its `__TEXT`. -/
structure Guest where
  data : List UInt8
  text : SegmentCommand
  headerSize : ℕ
  initializer : ℕ
  symtab : Option Symtab

def onlyText (segments : List SegmentCommand) : Option SegmentCommand :=
  match segments.filter fun s => s.initprot &&& GM.EXEC ≠ 0#32 with
  | [s] => if s.segname = ascii "__TEXT" then some s else none
  | _ => none

def onlySection : List Section → Option Section
  | [x] => some x
  | _ => none

def acceptGuest (data : List UInt8) (headerSize : ℕ) (p : Parsing) : Except BuildError Guest := do
  let text ← obtained (onlyText p.segments) .executableNotOnlyText
  need (text.fileoff = 0 ∧ text.vmsize ≠ 0 ∧ text.vmsize % pageSize = 0 ∧
    text.vmaddr % pageSize = 0 ∧ text.filesize ≤ text.vmsize) .textLayout
  -- TEXT_LIMIT
  need (text.vmsize ≤ 2 ^ 31) (.textTooLarge text.vmsize)
  need (headerSize ≤ min pageSize text.filesize) .headerExceedsPage
  let x ← obtained (onlySection p.initializers) .expectedOneInitializer
  need (8 ≤ x.size ∧ x.size % 8 = 0 ∧ isWithin x.offset 8 data.length) .expectedOneInitializer
  let b ← obtained (unpackFrom data x.offset 8) .structError
  let first := little b 0 8
  need (text.vmaddr ≤ first ∧ first - text.vmaddr < text.vmsize) .initializerOutsideText
  .ok ⟨data, text, headerSize, first - text.vmaddr, p.symtab⟩

def parseSlice (data : List UInt8) : Except BuildError Guest := do
  need (32 ≤ data.length) .truncatedHeader
  let b ← obtained (unpackFrom data 0 24) .structError
  let mh : MachHeader := ⟨b⟩
  -- MH_MAGIC_64, CPU_ARM64, MH_EXECUTE
  need (mh.magic = 0xfeedfacf ∧ mh.cputype = 0x0100000c) .notArm64
  need (mh.filetype = 2) .notExecutable
  need (isWithin 32 mh.sizeofcmds data.length) .commandsPastEnd
  let stop := 32 + mh.sizeofcmds
  let (p, cursor) ← parseLoop data stop mh.ncmds 0 32 ⟨[], none, []⟩
  need (cursor = stop) .commandsDisagree
  acceptGuest data stop p

def parseGuest (file : List UInt8) : Except BuildError Guest := do
  let data ← arm64Slice file
  parseSlice data

/-- The loop over the symbols, for those that are defined in a section and not for a debugger. -/
def symbolLoop (guest : Guest) (table : Symtab) (name : List UInt8) :
    ℕ → ℕ → Except BuildError ℤ
  | 0, _ => .error (.symbolNotDefined name)
  | left + 1, i => do
    let b ← obtained (unpackFrom guest.data (table.symoff + 16 * i) 16) .structError
    let strx := little b 0 4
    let kind := little b 4 1
    -- kind & 0xE0, kind & 0x0E
    if kind / 32 ≠ 0 ∨ kind / 2 % 8 ≠ 7 ∨ table.strsize ≤ strx then
      symbolLoop guest table name left (i + 1)
    else
      let text := (guest.data.drop (table.stroff + strx)).take (table.strsize - strx)
      if 0 ∈ text ∧ text.takeWhile (· ≠ 0) = name then
        .ok ((little b 8 8 : ℤ) - guest.text.vmaddr)
      else symbolLoop guest table name left (i + 1)

def resolveSymbol (guest : Guest) (name : List UInt8) : Except BuildError ℤ := do
  let table ← obtained guest.symtab .noSymbolTable
  need (isWithin table.symoff (table.nsyms * 16) guest.data.length ∧
    isWithin table.stroff table.strsize guest.data.length) .symbolTableOutsideFile
  symbolLoop guest table name table.nsyms 0

/-! ## The final pages -/

def onDisk (guest : Guest) : List UInt8 :=
  guest.data.take guest.text.filesize ++
    List.replicate (guest.text.vmsize - guest.text.filesize) 0

/-- `final_image`, without the pages on disk. -/
def finalImage (guest : Guest) (capture : Option (List UInt8)) :
    Except BuildError (List UInt8) :=
  match capture with
  | none => .ok (onDisk guest)
  | some image => do
    need (image.length = guest.text.vmsize) (.captureSize image.length guest.text.vmsize)
    need (image.take guest.headerSize = guest.data.take guest.headerSize) .captureOfDifferentBuild
    .ok image

def page (image : List UInt8) (offset : ℕ) : List UInt8 := (image.drop offset).take pageSize

def rewrittenEnd (image onDisk : List UInt8) : ℕ :=
  (List.range ((image.length + pageSize - 1) / pageSize)).foldl
    (fun stop k =>
      if page image (k * pageSize) ≠ page onDisk (k * pageSize) then k * pageSize + pageSize
      else stop) 0

/-! ## The library -/

/-- `n` bytes of a number, the lowest first. -/
def le (n v : ℕ) : List UInt8 := (List.range n).map (byteOf v)

def field (n : ℕ) (s : List UInt8) : List UInt8 := s ++ List.replicate (n - s.length) 0

def roundUp (n unit : ℕ) : ℕ := (n + unit - 1) / unit * unit

inductive Platform where
  | ios
  | iossimulator
  | macos
deriving DecidableEq

namespace Platform

/-- The platform and its oldest system, as `LC_BUILD_VERSION` has them. -/
def version : Platform → ℕ × ℕ
  | ios => (2, 0x110000)
  | iossimulator => (7, 0x110000)
  | macos => (1, 0x0E0000)

end Platform

def symbols (probe : Option ℕ) : List (List UInt8 × ℕ) :=
  (probe.map fun offset => (ascii "_guest_test", pageSize + offset)).toList ++
    [(ascii "_tolkara_container_final", pageSize), (ascii "_tolkara_container_v1", pageSize)]

def strings (table : List (List UInt8 × ℕ)) : List UInt8 :=
  0 :: table.flatMap fun s => s.1 ++ [0]

/-- The entries of the symbol table; `offset` is where the next name begins. -/
def nlist : List (List UInt8 × ℕ) → ℕ → List UInt8
  | [], _ => []
  | (name, value) :: rest, offset =>
    le 4 offset ++ le 1 0x0F ++ le 1 1 ++ le 2 0 ++ le 8 value ++
      nlist rest (offset + name.length + 1)

/-- The sizes of the parts behind the image. -/
structure Linkedit where
  symoff : ℕ
  count : ℕ
  stroff : ℕ
  strsize : ℕ
  stop : ℕ

def linkedit (size : ℕ) (table : List (List UInt8 × ℕ)) : Linkedit :=
  let symoff := pageSize + size
  let stroff := symoff + 16 * table.length
  let strsize := roundUp (strings table).length 8
  ⟨symoff, table.length, stroff, strsize, roundUp (stroff + strsize) 16⟩

def textCommand (size : ℕ) : List UInt8 :=
  le 4 0x19 ++ le 4 152 ++ field 16 (ascii "__TEXT") ++ le 8 0 ++ le 8 (pageSize + size) ++
    le 8 0 ++ le 8 (pageSize + size) ++ le 4 5 ++ le 4 5 ++ le 4 1 ++ le 4 0 ++
    (field 16 (ascii "__text") ++ field 16 (ascii "__TEXT") ++ le 8 pageSize ++ le 8 size ++
      le 4 pageSize ++ le 4 14 ++ le 4 0 ++ le 4 0 ++ le 4 0x80000400 ++ le 4 0 ++ le 4 0 ++
      le 4 0)

def linkeditCommand (l : Linkedit) : List UInt8 :=
  le 4 0x19 ++ le 4 72 ++ field 16 (ascii "__LINKEDIT") ++ le 8 l.symoff ++
    le 8 (roundUp (l.stop - l.symoff) pageSize) ++ le 8 l.symoff ++ le 8 (l.stop - l.symoff) ++
    le 4 1 ++ le 4 1 ++ le 4 0 ++ le 4 0

/-- The commands about the library itself: its name, what it is built for, its symbols and the
identifier, the first half of the digest of the image. -/
def otherCommands (platform : Platform) (digest : Vector UInt8 32) (l : Linkedit) : List UInt8 :=
  le 4 0xD ++ le 4 56 ++ le 4 24 ++ le 4 0 ++ le 4 0x10000 ++ le 4 0x10000 ++
      field 32 (ascii "/tolkara/page-container.dylib") ++
    (le 4 0x32 ++ le 4 24 ++ le 4 platform.version.1 ++ le 4 platform.version.2 ++
      le 4 platform.version.2 ++ le 4 0) ++
    (le 4 0x2 ++ le 4 24 ++ le 4 l.symoff ++ le 4 l.count ++ le 4 l.stroff ++ le 4 l.strsize) ++
    (le 4 0xB ++ le 4 80 ++ le 4 0 ++ le 4 0 ++ le 4 0 ++ le 4 l.count ++ le 4 l.count ++ le 4 0 ++
      (List.replicate 12 (le 4 0)).flatten) ++
    (le 4 0x1B ++ le 4 24 ++ digest.toList.take 16)

def header (platform : Platform) (digest : Vector UInt8 32) (size : ℕ) (l : Linkedit) :
    List UInt8 :=
  le 4 0xfeedfacf ++ le 4 0x0100000c ++ le 4 0 ++ le 4 6 ++ le 4 7 ++ le 4 432 ++
    le 4 0x00100085 ++ le 4 0 ++ textCommand size ++ linkeditCommand l ++
    otherCommands platform digest l

def container (sha256 : List UInt8 → Vector UInt8 32) (image : List UInt8) (platform : Platform)
    (probe : Option ℕ) : List UInt8 :=
  let table := symbols probe
  let l := linkedit image.length table
  field pageSize (header platform (sha256 image) image.length l) ++ image ++ nlist table 1 ++
    field (l.stop - l.stroff) (strings table)

/-! ## A build -/

/-- The function that is exported for a probe. -/
inductive Probe where
  | none
  | symbol (name : List UInt8)
  | offset (offset : ℤ)

def Probe.resolve (guest : Guest) : Probe → Except BuildError (Option ℤ)
  | .none => .ok Option.none
  | .symbol name => (resolveSymbol guest name).map some
  | .offset k => .ok (some k)

def Probe.Valid (image : List UInt8) (offset : ℤ) : Prop :=
  0 ≤ offset ∧ offset % 4 = 0 ∧ offset + 4 ≤ image.length

instance (image : List UInt8) (offset : ℤ) : Decidable (Probe.Valid image offset) :=
  inferInstanceAs (Decidable (_ ∧ _))

def checkProbe (image : List UInt8) : Option ℤ → Except BuildError (Option ℕ)
  | none => .ok none
  | some offset => do
    need (Probe.Valid image offset) (.probeOutsideText offset)
    .ok (some offset.toNat)

structure Built where
  image : List UInt8
  rewritten : ℕ
  container : List UInt8

/-- `main`, up to the container before it is signed. -/
def build (sha256 : List UInt8 → Vector UInt8 32) (file : List UInt8)
    (capture : Option (List UInt8)) (platform : Platform) (probe : Probe) :
    Except BuildError Built := do
  let guest ← parseGuest file
  let image ← finalImage guest capture
  let rewritten := rewrittenEnd image (onDisk guest)
  need (rewritten ≤ guest.initializer) (.initializerRewritten guest.initializer rewritten)
  let offset ← probe.resolve guest
  let offset ← checkProbe image offset
  .ok ⟨image, rewritten, container sha256 image platform offset⟩

end Builder

end Tolkara
