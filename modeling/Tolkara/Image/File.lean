import Tolkara.Image.Load
import Tolkara.Library.Readers
import Tolkara.Memory.Words

/-!
# The file of an image

`load` of `runtime/GuestImage.c` from the bytes of a file on: the slice of a fat file,
the header, the load commands with their sections, the segments, the entry and the
initializers. `loadPath` is what a caller sees. Offsets are natural numbers; the
checks keep those that are added up below the size of the file.
-/

namespace Tolkara

open Library

/-! ## Numbers and strings in a buffer -/

def little (b : Buffer) (offset n : ℕ) : ℕ :=
  littleEndian ((List.range n).map fun i => b (offset + i))

theorem little_lt (b : Buffer) (offset n : ℕ) : little b offset n < 256 ^ n := by
  have h := littleEndian_lt ((List.range n).map fun i => b (offset + i))
  simpa [little] using h

def be32 (b : Buffer) (offset : ℕ) : ℕ :=
  littleEndian [b (offset + 3), b (offset + 2), b (offset + 1), b offset]

def be64 (b : Buffer) (offset : ℕ) : ℕ := be32 b offset * 2 ^ 32 + be32 b (offset + 4)

/-- The C string in a field of `n` bytes. -/
def cstring (b : Buffer) (offset n : ℕ) : CString :=
  ((List.range n).map fun i => b (offset + i)).takeWhile (· ≠ 0)

def readFile (file : List UInt8) : Reader := fun offset n =>
  if offset ≤ 2 ^ 63 - 1 ∧ (n = 0 ∨ offset + n ≤ file.length) then
    some fun i => file.getD (offset + i) 0
  else none

/-! ## What an image records -/

inductive ImageError where
  | alreadyLoaded
  | cannotOpen
  | truncatedExecutable
  | cannotReadHeader
  | invalidFatTable
  | truncatedFatArchitecture
  | ambiguousSlices
  | invalidSliceRange
  | noPlainSlice
  | truncatedHeader
  | unexpectedKind
  | invalidCommandRange
  | invalidCommand
  | invalidSegmentCommand
  | segments (e : LoadError)
  | cannotReadSection
  | sectionOutsideSegment
  | invalidFileBackedSection
  | unsupportedInitializerLayout
  | invalidUnwindSection
  | duplicateUnwindSection
  | unsupportedTLSAlignment
  | tlsTemplateTooLarge
  | unsupportedTLSDescriptors
  | invalidDylib
  | unterminatedDylibName
  | invalidRpath
  | tooManyRpaths
  | unterminatedRpath
  | invalidMain
  | invalidDyldInfo
  | dyldInfoOutsideSlice
  | duplicateExportTrie
  | invalidExportTrie
  | invalidChainedFixups
  | invalidEncryptionInfo
  | encrypted
  | inconsistentCommands
  | exportTrieTooLarge
  | cannotReadExportTrie
  | entryNotExecutable
  | initializerNotExecutable (i : ℕ)
  | cannotReadInitializer
  | firstInitializerNotExecutable
  | headerDiffers

/-- The ranges of `dyld_info_command`, each an offset and a size; the exports are apart. -/
structure DyldInfo where
  rebase : ℕ × ℕ
  bind : ℕ × ℕ
  weakBind : ℕ × ℕ
  lazyBind : ℕ × ℕ

/-- The initializers of an image: a list if they are given as offsets, else pointers in memory. -/
structure Initializers where
  initializerOffsets : Bool
  initializerAddress : ℕ
  initializerCount : ℕ
  initializers : List ℕ
  firstInitializer : ℕ

/-- `GuestImage` with the fields that only the loader and its callers use. `chained` is the range
of the chained fixups, for an image that has them. -/
structure LoadedImage extends GuestImage, Initializers where
  sliceOffset : ℕ
  sliceSize : ℕ
  fileType : ℕ
  entry : ℕ
  mappedSize : ℕ
  fileBackedSize : ℕ
  dyldInfo : DyldInfo
  chained : Option (ℕ × ℕ)
  unwindAddress : ℕ
  unwindSize : ℕ
  ehFrameAddress : ℕ
  ehFrameSize : ℕ
  tlsAddress : ℕ
  tlsSize : ℕ
  tlsAlignment : ℕ
  hasTls : Bool

def LoadedImage.empty : LoadedImage :=
  { GuestImage.empty with
    initializerOffsets := false
    initializerAddress := 0
    initializerCount := 0
    initializers := []
    firstInitializer := 0
    sliceOffset := 0
    sliceSize := 0
    fileType := 0
    entry := 0
    mappedSize := 0
    fileBackedSize := 0
    dyldInfo := ⟨(0, 0), (0, 0), (0, 0), (0, 0)⟩
    chained := none
    unwindAddress := 0
    unwindSize := 0
    ehFrameAddress := 0
    ehFrameSize := 0
    tlsAddress := 0
    tlsSize := 0
    tlsAlignment := 0
    hasTls := false }

/-- A section with initializers, which are offsets or pointers. -/
structure InitSection where
  offsets : Bool
  address : ℕ
  size : ℕ

/-- What the loop over the commands has found. The segments and the address of the header are with
the other checks of a segment command, the rest of the image is `image`. -/
structure Loading where
  commands : Commands
  image : LoadedImage
  entryOffset : Option ℕ
  init : Option InitSection
  exportRange : Option (ℕ × ℕ)

def ImageKind.filetype : ImageKind → ℕ
  | .execute => 2
  | .dylib => 6

/-! ## The slice -/

def fatLoop (read : Reader) (fileSize count recordSize : ℕ) :
    ℕ → ℕ → Option (ℕ × ℕ) → Except ImageError (Option (ℕ × ℕ))
  | 0, _, found => .ok found
  | left + 1, i, found => do
    let arch ← obtained (read (8 + i * recordSize) recordSize) .truncatedFatArchitecture
    -- CPU_TYPE_ARM64, CPU_SUBTYPE_ARM64_ALL
    if be32 arch 0 ≠ 0x0100000c ∨ be32 arch 4 % 2 ^ 24 ≠ 0 then
      fatLoop read fileSize count recordSize left (i + 1) found
    else do
      need (found = none) .ambiguousSlices
      let slice := if recordSize = 32 then be64 arch 8 else be32 arch 8
      let size := if recordSize = 32 then be64 arch 16 else be32 arch 12
      let alignment := be32 arch (if recordSize = 32 then 24 else 16)
      need (alignment < 63 ∧ slice % 2 ^ alignment = 0 ∧ 8 + count * recordSize ≤ slice ∧
        isWithin slice size fileSize) .invalidSliceRange
      fatLoop read fileSize count recordSize left (i + 1) (some (slice, size))

def chooseSlice (read : Reader) (fileSize : ℕ) : Except ImageError (ℕ × ℕ) := do
  let head ← obtained (read 0 8) .cannotReadHeader
  let magic := be32 head 0
  if magic = 0xcafebabe ∨ magic = 0xcafebabf then do
    let count := be32 head 4
    let recordSize := if magic = 0xcafebabf then 32 else 20
    need (count ≠ 0 ∧ count ≤ 128 ∧ isWithin 8 (count * recordSize) fileSize) .invalidFatTable
    let found ← fatLoop read fileSize count recordSize count 0 none
    obtained found .noPlainSlice
  else .ok (0, fileSize)

/-! ## Sections -/

/-- The fields of `section_64`. -/
structure Section where
  sectname : CString
  addr : ℕ
  size : ℕ
  offset : ℕ
  align : ℕ
  type : ℕ

def Section.decode (b : Buffer) : Section :=
  { sectname := cstring b 0 16
    addr := little b 32 8
    size := little b 40 8
    offset := little b 48 4
    align := little b 52 4
    type := little b 64 4 % 256 }

namespace S

def REGULAR : ℕ := 0x0
def ZEROFILL : ℕ := 0x1
def MOD_INIT_FUNC_POINTERS : ℕ := 0x9
def COALESCED : ℕ := 0xb
def GB_ZEROFILL : ℕ := 0xc
def THREAD_LOCAL_REGULAR : ℕ := 0x11
def THREAD_LOCAL_ZEROFILL : ℕ := 0x12
def THREAD_LOCAL_VARIABLES : ℕ := 0x13
def THREAD_LOCAL_INIT_FUNCTION_POINTERS : ℕ := 0x15
def INIT_FUNC_OFFSETS : ℕ := 0x16

end S

namespace Loading

def addInitializers (l : Loading) (x : Section) : Except ImageError Loading :=
  if x.type = S.MOD_INIT_FUNC_POINTERS ∨ x.type = S.INIT_FUNC_OFFSETS then do
    let offsets := decide (x.type = S.INIT_FUNC_OFFSETS)
    need (l.init.isNone ∧ x.size % (if offsets then 4 else 8) = 0) .unsupportedInitializerLayout
    .ok { l with init := some ⟨offsets, x.addr, x.size⟩ }
  else .ok l

def addUnwind (l : Loading) (s : SegmentCommand) (x : Section) : Except ImageError Loading :=
  let compact := x.sectname = ascii "__unwind_info"
  let dwarf := x.sectname = ascii "__eh_frame"
  if compact ∨ dwarf then do
    need (s.segname = ascii "__TEXT" ∧ s.initprot &&& GM.READ ≠ 0#32 ∧
      (x.type = S.REGULAR ∨ dwarf ∧ x.type = S.COALESCED) ∧ x.size ≠ 0) .invalidUnwindSection
    if compact then do
      need (l.image.unwindSize = 0) .duplicateUnwindSection
      .ok { l with image := { l.image with unwindAddress := x.addr, unwindSize := x.size } }
    else do
      need (l.image.ehFrameSize = 0) .duplicateUnwindSection
      .ok { l with image := { l.image with ehFrameAddress := x.addr, ehFrameSize := x.size } }
  else .ok l

def addTemplate (l : Loading) (x : Section) : Except ImageError Loading :=
  if x.type = S.THREAD_LOCAL_REGULAR ∨ x.type = S.THREAD_LOCAL_ZEROFILL then do
    need (x.align ≤ 20) .unsupportedTLSAlignment
    let alignment := 2 ^ x.align
    let start := l.image.tlsAddress
    let stop := start + l.image.tlsSize
    let start := if l.image.tlsSize = 0 ∨ x.addr < start then x.addr else start
    let stop := if stop < x.addr + x.size then x.addr + x.size else stop
    need (stop - start ≤ 16 * 1024 * 1024) .tlsTemplateTooLarge
    .ok { l with
      image := { l.image with
        tlsAlignment := max alignment l.image.tlsAlignment
        tlsAddress := start
        tlsSize := stop - start } }
  else .ok l

def addDescriptors (l : Loading) (x : Section) : Except ImageError Loading :=
  if x.type = S.THREAD_LOCAL_VARIABLES then do
    need (l.image.tlsDescriptorsSize = 0 ∧ x.size % 24 = 0) .unsupportedTLSDescriptors
    .ok { l with
      image := { l.image with tlsDescriptors := x.addr, tlsDescriptorsSize := x.size } }
  else .ok l

def addCounts (l : Loading) (x : Section) : Loading :=
  { l with
    image := { l.image with
      tlsInitializerCount :=
        if x.type = S.THREAD_LOCAL_INIT_FUNCTION_POINTERS then
          (l.image.tlsInitializerCount + x.size / 8) % 2 ^ 64
        else l.image.tlsInitializerCount
      hasTls := l.image.hasTls || decide (S.THREAD_LOCAL_REGULAR ≤ x.type ∧
        x.type ≤ S.THREAD_LOCAL_INIT_FUNCTION_POINTERS) } }

def addSection (sliceSize : ℕ) (s : SegmentCommand) (l : Loading) (x : Section) :
    Except ImageError Loading := do
  need (s.vmaddr ≤ x.addr ∧ isWithin (x.addr - s.vmaddr) x.size s.vmsize) .sectionOutsideSegment
  need (x.type = S.ZEROFILL ∨ x.type = S.GB_ZEROFILL ∨ x.type = S.THREAD_LOCAL_ZEROFILL ∨
    isWithin x.offset x.size sliceSize ∧ s.fileoff ≤ x.offset ∧
      isWithin (x.offset - s.fileoff) x.size s.filesize ∧
      x.addr - s.vmaddr = x.offset - s.fileoff) .invalidFileBackedSection
  let l ← l.addInitializers x
  let l ← l.addUnwind s x
  let l ← l.addTemplate x
  let l ← l.addDescriptors x
  .ok (l.addCounts x)

def sectionLoop (read : Reader) (sliceSize : ℕ) (s : SegmentCommand) :
    ℕ → ℕ → Loading → Except ImageError Loading
  | 0, _, l => .ok l
  | left + 1, cursor, l => do
    let b ← obtained (read cursor 80) .cannotReadSection
    let l ← addSection sliceSize s l (Section.decode b)
    sectionLoop read sliceSize s left (cursor + 80) l

end Loading

/-! ## Load commands -/

/-- `segment_command_64`, without the number of its sections. -/
def SegmentCommand.decode (b : Buffer) : SegmentCommand where
  segname := cstring b 8 16
  vmaddr := little b 24 8
  vmaddr_le := Nat.le_of_lt_succ (little_lt b 24 8)
  vmsize := little b 32 8
  fileoff := little b 40 8
  filesize := little b 48 8
  maxprot := BitVec.ofNat 32 (little b 56 4)
  initprot := BitVec.ofNat 32 (little b 60 4)

namespace LC

def LOAD_DYLIB : ℕ := 0xc
def SEGMENT_64 : ℕ := 0x19
def DYLD_INFO : ℕ := 0x22
def ENCRYPTION_INFO_64 : ℕ := 0x2c
def LOAD_WEAK_DYLIB : ℕ := 0x80000018
def RPATH : ℕ := 0x8000001c
def REEXPORT_DYLIB : ℕ := 0x8000001f
def DYLD_INFO_ONLY : ℕ := 0x80000022
def LOAD_UPWARD_DYLIB : ℕ := 0x80000023
def MAIN : ℕ := 0x80000028
def DYLD_EXPORTS_TRIE : ℕ := 0x80000033
def DYLD_CHAINED_FIXUPS : ℕ := 0x80000034

end LC

namespace Loading

/-- The slice of a command, with the end of the commands, and the place of the command. -/
structure Context where
  sliceSize : ℕ
  commandsEnd : ℕ
  cursor : ℕ
  cmdsize : ℕ

variable (read : Reader) (x : Context) (l : Loading)

def addSegment : Except ImageError Loading := do
  need (72 ≤ x.cmdsize) .invalidSegmentCommand
  let b ← obtained (read x.cursor 72) .invalidSegmentCommand
  let nsects := little b 64 4
  need (nsects ≤ (x.cmdsize - 72) / 80) .invalidSegmentCommand
  let s := SegmentCommand.decode b
  let c ← (l.commands.add x.sliceSize x.commandsEnd s).mapError .segments
  sectionLoop read x.sliceSize s nsects (x.cursor + 72) { l with commands := c }

/-- The four commands that name a library. -/
def addDylib (reexport : Bool) : Except ImageError Loading := do
  need (l.image.dylibs.length ≠ 128 ∧ 24 ≤ x.cmdsize) .invalidDylib
  let b ← obtained (read x.cursor 24) .invalidDylib
  let offset := little b 8 4
  need (24 ≤ offset ∧ offset < x.cmdsize) .invalidDylib
  let length := x.cmdsize - offset
  let name ← obtained (read (x.cursor + offset) length) .unterminatedDylibName
  need (∃ i < length, name i = 0) .unterminatedDylibName
  .ok { l with
    image := { l.image with dylibs := l.image.dylibs ++ [⟨cstring name 0 length, reexport⟩] } }

def addRpath : Except ImageError Loading := do
  need (12 ≤ x.cmdsize) .invalidRpath
  let b ← obtained (read x.cursor 12) .invalidRpath
  let offset := little b 8 4
  need (12 ≤ offset ∧ offset < x.cmdsize) .invalidRpath
  need (l.image.rpaths.length ≠ 32) .tooManyRpaths
  let length := x.cmdsize - offset
  let path ← obtained (read (x.cursor + offset) length) .unterminatedRpath
  need (∃ i < length, path i = 0) .unterminatedRpath
  .ok { l with image := { l.image with rpaths := l.image.rpaths ++ [cstring path 0 length] } }

def addMain : Except ImageError Loading := do
  need (l.entryOffset.isNone ∧ 24 ≤ x.cmdsize) .invalidMain
  let b ← obtained (read x.cursor 24) .invalidMain
  .ok { l with entryOffset := some (little b 8 8) }

def addDyldInfo : Except ImageError Loading := do
  need (48 ≤ x.cmdsize) .invalidDyldInfo
  let b ← obtained (read x.cursor 48) .invalidDyldInfo
  let pair (i : ℕ) := (little b (8 + 8 * i) 4, little b (12 + 8 * i) 4)
  need ((List.range 5).all fun i => isWithin (pair i).1 (pair i).2 x.sliceSize)
    .dyldInfoOutsideSlice
  let l := { l with image := { l.image with dyldInfo := ⟨pair 0, pair 1, pair 2, pair 3⟩ } }
  if (pair 4).2 ≠ 0 then do
    need (l.exportRange.isNone) .duplicateExportTrie
    .ok { l with exportRange := some (pair 4) }
  else .ok l

/-- `linkedit_data_command`: the offset and the size of the data. -/
def linkeditData (e : ImageError) : Except ImageError (ℕ × ℕ) := do
  need (16 ≤ x.cmdsize) e
  let b ← obtained (read x.cursor 16) e
  need (isWithin (little b 8 4) (little b 12 4) x.sliceSize) e
  .ok (little b 8 4, little b 12 4)

def addExportsTrie : Except ImageError Loading := do
  need (l.exportRange.isNone) .invalidExportTrie
  let range ← linkeditData read x .invalidExportTrie
  .ok { l with exportRange := some range }

def addChainedFixups : Except ImageError Loading := do
  need (l.image.chained.isNone) .invalidChainedFixups
  let range ← linkeditData read x .invalidChainedFixups
  .ok { l with image := { l.image with chained := some range } }

def addEncryptionInfo : Except ImageError Loading := do
  need (24 ≤ x.cmdsize) .invalidEncryptionInfo
  let b ← obtained (read x.cursor 24) .invalidEncryptionInfo
  need (little b 16 4 = 0) .encrypted
  .ok l

/-- A command with the code `cmd`. Those of other kinds do not matter. -/
def addCommand (cmd : ℕ) : Except ImageError Loading :=
  if cmd = LC.SEGMENT_64 then addSegment read x l
  else if cmd = LC.LOAD_DYLIB ∨ cmd = LC.LOAD_WEAK_DYLIB ∨ cmd = LC.REEXPORT_DYLIB ∨
      cmd = LC.LOAD_UPWARD_DYLIB then addDylib read x l (cmd = LC.REEXPORT_DYLIB)
  else if cmd = LC.RPATH then addRpath read x l
  else if cmd = LC.MAIN then addMain read x l
  else if cmd = LC.DYLD_INFO ∨ cmd = LC.DYLD_INFO_ONLY then addDyldInfo read x l
  else if cmd = LC.DYLD_EXPORTS_TRIE then addExportsTrie read x l
  else if cmd = LC.DYLD_CHAINED_FIXUPS then addChainedFixups read x l
  else if cmd = LC.ENCRYPTION_INFO_64 then addEncryptionInfo read x l
  else .ok l

end Loading

def commandLoop (read : Reader) (sliceSize commandsEnd : ℕ) :
    ℕ → ℕ → Loading → Except ImageError (Loading × ℕ)
  | 0, cursor, l => .ok (l, cursor)
  | left + 1, cursor, l => do
    need (isWithin cursor 8 commandsEnd) .invalidCommand
    let lc ← obtained (read cursor 8) .invalidCommand
    let cmdsize := little lc 4 4
    need (8 ≤ cmdsize ∧ cmdsize % 8 = 0 ∧ isWithin cursor cmdsize commandsEnd) .invalidCommand
    let l ← Loading.addCommand read ⟨sliceSize, commandsEnd, cursor, cmdsize⟩ l (little lc 0 4)
    commandLoop read sliceSize commandsEnd left (cursor + cmdsize) l

/-! ## The image -/

/-- The header, as far as it is looked at. -/
structure MachHeader where
  bytes : Buffer

namespace MachHeader

def magic (h : MachHeader) : ℕ := little h.bytes 0 4
def cputype (h : MachHeader) : ℕ := little h.bytes 4 4
def cpusubtype (h : MachHeader) : ℕ := little h.bytes 8 4
def filetype (h : MachHeader) : ℕ := little h.bytes 12 4
def ncmds (h : MachHeader) : ℕ := little h.bytes 16 4
def sizeofcmds (h : MachHeader) : ℕ := little h.bytes 20 4
def flags (h : MachHeader) : ℕ := little h.bytes 24 4

end MachHeader

def Loading.start (kind : ImageKind) (slice : ℕ × ℕ) (h : MachHeader) : Loading :=
  { commands := ⟨[], none⟩
    image := { LoadedImage.empty with
      fileType := kind.filetype
      -- MH_WEAK_DEFINES
      weakDefines := decide (h.flags / 0x8000 % 2 = 1)
      sliceOffset := slice.1
      sliceSize := slice.2 }
    entryOffset := none
    init := none
    exportRange := none }

def readExports (read : Reader) (range : Option (ℕ × ℕ)) : Except ImageError (List UInt8) :=
  match range with
  | none => .ok []
  | some (offset, size) =>
    if size = 0 then .ok []
    else do
      need (size ≤ 32 * 1024 * 1024) .exportTrieTooLarge
      let b ← obtained (read offset size) .cannotReadExportTrie
      .ok ((List.range size).map b)

def findEntry (segments : List GISegment) (entryOffset : Option ℕ) : Except ImageError ℕ :=
  match entryOffset with
  | none => .ok 0
  | some offset => do
    let s ← obtained (segments.find? fun s => s.prot &&& GM.EXEC ≠ 0#32 ∧ s.fileOffset ≤ offset ∧
      isWithin (offset - s.fileOffset) 4 s.fileSize) .entryNotExecutable
    let entry := s.address + (offset - s.fileOffset)
    need (entry % 4 = 0) .entryNotExecutable
    .ok entry

def initializerLoop (header address : ℕ) :
    ℕ → ℕ → GuestMemory → List ℕ → Except ImageError (GuestMemory × List ℕ)
  | 0, _, memory, found => .ok (memory, found)
  | left + 1, i, memory, found => do
    let offset := memory.gmRead (address + i * 4) (some fun _ => 0) 4
    need (offset.1 = .ok) (.initializerNotExecutable i)
    let a := (header + littleEndian offset.2.2) % 2 ^ 64
    let instruction := offset.2.1.gmFetch none a
    need (instruction.1 = .ok) (.initializerNotExecutable i)
    initializerLoop header address left (i + 1) instruction.2.1 (found ++ [a])

def firstPointer (x : InitSection) (memory : GuestMemory) : Except ImageError (GuestMemory × ℕ) :=
  if x.size = 0 then .ok (memory, 0)
  else do
    let first := memory.gmRead x.address (some fun _ => 0) 8
    need (first.1 = .ok) .cannotReadInitializer
    .ok (first.2.1, littleEndian first.2.2)

/-- Pointers may still need fixups, so of these only the first is looked at. -/
def readInitializers (header : ℕ) (section_ : Option InitSection) (chained : Bool)
    (memory : GuestMemory) : Except ImageError (GuestMemory × Initializers) :=
  let x := section_.getD ⟨false, 0, 0⟩
  let count := x.size / (if x.offsets then 4 else 8)
  if x.offsets then do
    let (memory, list) ← initializerLoop header x.address count 0 memory []
    .ok (memory, ⟨true, x.address, count, list, list.headD 0⟩)
  else do
    let (memory, first) ← firstPointer x memory
    if first ≠ 0 ∧ chained = false then do
      let instruction := memory.gmFetch none first
      need (instruction.1 = .ok) .firstInitializerNotExecutable
      .ok (instruction.2.1, ⟨false, x.address, count, [], first⟩)
    else .ok (memory, ⟨false, x.address, count, [], first⟩)

def mappedTotal (size : GISegment → ℕ) (segments : List GISegment) : ℕ :=
  ((segments.filter fun s => s.size ≠ 0 ∧ s.name ≠ pageZero).map size).sum

def assemble (read : Reader) (kind : ImageKind) (mh : MachHeader) (l : Loading) (header : ℕ) :
    Except ImageError LoadedImage := do
  let segments := l.commands.segments
  let exports ← readExports read l.exportRange
  let memory ← (mapLoop kind read [] segments GuestMemory.fresh 0).mapError .segments
  let entry ← findEntry segments l.entryOffset
  let (memory, initializers) ← readInitializers header l.init l.image.chained.isSome memory
  let guest := memory.gmRead header (some fun _ => 0) 32
  need (guest.1 = .ok ∧ guest.2.2 = (List.range 32).map mh.bytes) .headerDiffers
  .ok { l.image with
    toInitializers := initializers
    memory := guest.2.1
    segments := segments
    headerAddress := header
    exports := exports
    entry := entry
    mappedSize := mappedTotal GISegment.size segments
    fileBackedSize := mappedTotal GISegment.fileSize segments }

def loadSlice (read : Reader) (kind : ImageKind) (slice : ℕ × ℕ) :
    Except ImageError LoadedImage := do
  need (32 ≤ slice.2) .truncatedHeader
  let b ← obtained (read 0 32) .truncatedHeader
  let mh : MachHeader := ⟨b⟩
  -- MH_MAGIC_64, CPU_TYPE_ARM64, CPU_SUBTYPE_ARM64_ALL
  need (mh.magic = 0xfeedfacf ∧ mh.cputype = 0x0100000c ∧ mh.cpusubtype % 2 ^ 24 = 0 ∧
    mh.filetype = kind.filetype) .unexpectedKind
  need (mh.ncmds ≠ 0 ∧ mh.ncmds ≤ 65536 ∧ mh.sizeofcmds ≤ 16 * 1024 * 1024 ∧
    isWithin 32 mh.sizeofcmds slice.2) .invalidCommandRange
  let commandsEnd := 32 + mh.sizeofcmds
  let (l, cursor) ← commandLoop read slice.2 commandsEnd mh.ncmds 32 (Loading.start kind slice mh)
  need (cursor = commandsEnd ∧ (kind = .execute ↔ l.entryOffset.isSome)) .inconsistentCommands
  let header ← obtained l.commands.header .inconsistentCommands
  assemble read kind mh l header

def load (read : Reader) (fileSize : ℕ) (kind : ImageKind) : Except ImageError LoadedImage := do
  need (32 ≤ fileSize) .truncatedExecutable
  let slice ← chooseSlice read fileSize
  loadSlice (read.skip slice.1) kind slice

/-- `load_path`: how it ends, and the caller's image. A file that cannot be opened is `none`. -/
def loadPath (file : Option (List UInt8)) (image : LoadedImage) (kind : ImageKind) :
    Except ImageError Unit × LoadedImage :=
  if image.memory.pages ≠ [] ∨ image.segments ≠ [] then (.error .alreadyLoaded, image)
  else
    match file with
    | none => (.error .cannotOpen, image)
    | some bytes =>
      match load (readFile bytes) bytes.length kind with
      | .error e => (.error e, image)
      | .ok staged => (.ok (), staged)

def giLoad (file : Option (List UInt8)) (image : LoadedImage) : Except ImageError Unit × LoadedImage :=
  loadPath file image .execute

def giLoadLibrary (file : Option (List UInt8)) (image : LoadedImage) :
    Except ImageError Unit × LoadedImage :=
  loadPath file image .dylib

end Tolkara
