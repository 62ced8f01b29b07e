import Tolkara.Image.Load
import Tolkara.Library.Tiling

/-!
# The arena of a native guest

Where `NativeGuest` puts an executable, the libraries it carries, a code pool and the
probe page, and the calls that place them: the pages copied into the arena and the
ranges given to `mprotect`. Sums of `size_t` and `uint64_t` go through `wrap`; with the
identity in its place `layout` computes the sums without a bound.
-/

namespace Tolkara

/-- The value kept in a 64-bit integer. -/
def wrap64 (n : ℕ) : ℕ := n % (uint64Max + 1)

/-- The difference of two 64-bit integers. -/
def sub64 (a b : ℕ) : ℕ := wrap64 (a + (uint64Max + 1 - b))

/-- A library with its `library_offset` and `library_low`. -/
structure LibraryPlace where
  image : GuestImage
  offset : ℕ
  low : ℕ

/-- The offsets and sizes of everything in the arena. -/
structure Layout where
  libraries : List LibraryPlace
  poolOffset : ℕ
  poolSize : ℕ
  probeOffset : ℕ
  probeSize : ℕ
  total : ℕ

def GuestImage.accessibleEnd (image : GuestImage) : ℕ :=
  image.segments.foldl (fun stop s =>
    if s.prot ≠ 0#32 ∧ stop < s.address + s.size then s.address + s.size else stop)
    image.headerAddress

/-- The loop over the carried libraries: their places, and the total after them. -/
def placeLibraries (wrap : ℕ → ℕ) : ℕ → List GuestImage → List LibraryPlace × ℕ
  | total, [] => ([], total)
  | total, image :: rest =>
    let (size, low) := image.giExtent
    let (places, total') := placeLibraries wrap (wrap (total + size)) rest
    (⟨image, total, low⟩ :: places, total')

def placeRest (wrap : ℕ → ℕ) (codePoolSize : ℕ) (jitProbe : Bool)
    (places : List LibraryPlace × ℕ) : Layout :=
  let poolSize := if codePoolSize ≠ 0 then wrap (codePoolSize + pageSize - 1) / pageSize * pageSize
    else 0
  let probeSize := if jitProbe then pageSize else 0
  { libraries := places.1
    poolOffset := places.2
    poolSize := poolSize
    probeOffset := wrap (places.2 + poolSize)
    probeSize := probeSize
    total := wrap (wrap (places.2 + poolSize) + probeSize) }

def layout (wrap : ℕ → ℕ) (executable : GuestImage) (libraries : List GuestImage)
    (codePoolSize : ℕ) (jitProbe : Bool) : Layout :=
  placeRest wrap codePoolSize jitProbe
    (placeLibraries wrap (executable.accessibleEnd - executable.headerAddress) libraries)

/-- `NativeCodeMemory`: the executable view of an arena and its size. -/
structure NativeCodeMemory where
  executable : ℕ
  size : ℕ
  fits : executable + size ≤ uint64Max + 1

def ncMaxArena : ℕ := 1073741824

/-- `signed_image`, when it is active: the rewritten range and the size of `__TEXT`. -/
structure SignedImage where
  shadowSize : ℕ
  size : ℕ

/-- One call of the placement, with the library it is made for. -/
inductive PlacementCall where
  | write (owner : Option LibraryPlace) (offset : ℕ) (bytes : PageBytes)
  | protect (owner : Option LibraryPlace) (address size : ℕ) (prot : Prot)

namespace PlacementCall

/-- The library a call is made for; none for the executable. -/
def owner : PlacementCall → Option LibraryPlace
  | write o _ _ => o
  | protect o _ _ _ => o

def range (arena : NativeCodeMemory) : PlacementCall → ℕ × ℕ
  | write _ offset _ => (arena.executable + offset, pageSize)
  | protect _ address size _ => (address, size)

end PlacementCall

/-- The protection given to a segment: writable or executable, not both. -/
def placedProt (prot : Prot) : Prot :=
  prot &&& (if prot &&& GM.EXEC ≠ 0#32 then ~~~GM.WRITE else BitVec.allOnes 32)

def NativeCodeMemory.ncWriteFits (arena : NativeCodeMemory) (offset size : ℕ) : Bool :=
  offset ≤ arena.size ∧ size ≤ arena.size - offset

def executableWrite (signed : Option SignedImage) (executable : GuestImage) (page : GMPage) :
    Option PlacementCall :=
  page.bytes.bind fun bytes =>
    let offset := sub64 page.address executable.headerAddress
    -- The signed container backs what follows the rewritten range.
    if signed.any (fun i => i.shadowSize ≤ offset ∧ offset < i.size) then none
    else some (.write none offset bytes)

def libraryWrite (place : LibraryPlace) (page : GMPage) : Option PlacementCall :=
  page.bytes.map (PlacementCall.write (some place)
    (wrap64 (sub64 page.address place.low + place.offset)))

def segmentProtect (owner : Option LibraryPlace) (slide : ℕ) (s : GISegment) :
    Option PlacementCall :=
  if s.prot = 0#32 then none
  else some (.protect owner (wrap64 (s.address + slide)) s.size (placedProt s.prot))

def executableCalls (arena : NativeCodeMemory) (signed : Option SignedImage)
    (executable : GuestImage) : List PlacementCall :=
  let slide := sub64 arena.executable executable.headerAddress
  executable.memory.pages.filterMap (executableWrite signed executable) ++
    executable.segments.filterMap fun s =>
      if signed.isSome ∧ s.prot &&& GM.EXEC ≠ 0#32 then none else segmentProtect none slide s

def libraryCalls (arena : NativeCodeMemory) (place : LibraryPlace) : List PlacementCall :=
  let slide := sub64 (wrap64 (arena.executable + place.offset)) place.low
  place.image.memory.pages.filterMap (libraryWrite place) ++
    place.image.segments.filterMap (segmentProtect (some place) slide)

def placementCalls (arena : NativeCodeMemory) (signed : Option SignedImage)
    (executable : GuestImage) (libraries : List LibraryPlace) : List PlacementCall :=
  executableCalls arena signed executable ++ libraries.flatMap (libraryCalls arena)

/-- The calls that are made: a page outside the arena is not written, and the placement
ends there, or after a protection the kernel refuses. -/
def performed (arena : NativeCodeMemory) (mprotect : ℕ → ℕ → Prot → Bool) :
    List PlacementCall → List PlacementCall
  | [] => []
  | .write owner offset bytes :: rest =>
    if arena.ncWriteFits offset pageSize then
      .write owner offset bytes :: performed arena mprotect rest
    else []
  | .protect owner address size prot :: rest =>
    .protect owner address size prot ::
      if mprotect address size prot then performed arena mprotect rest else []

/-- The calls a run makes. With `--jit-probe` it leaves before anything is placed. -/
def placed (arena : NativeCodeMemory) (mprotect : ℕ → ℕ → Prot → Bool)
    (signed : Option SignedImage) (executable : GuestImage) (libraries : List LibraryPlace)
    (jitProbe : Bool) : List PlacementCall :=
  if jitProbe then []
  else performed arena mprotect (placementCalls arena signed executable libraries)

end Tolkara
