import Tolkara.Library.Readers
import Tolkara.Memory.Words

/-!
# Metal libraries

`translation/Metal/LibraryContainer.m`. A library for macOS is made into one for iOS by
changing its header, once everything that the header says about it is found to be true.
Offsets and sizes of the file are numbers of 64 bits, and sums and differences are
taken modulo `2 ^ 64` as in the source; SHA-256 is a parameter.
-/

namespace Tolkara

open Library

namespace Metal

/-- Why there is no derived library: the source reads what is not there, its loop has not ended
after as many rounds as there are bytes, or it returns `nil`. -/
inductive Stop where
  | outside
  | endless
  | refused
deriving DecidableEq, Repr

def plus (a b : ℕ) : ℕ := (a + b) % 2 ^ 64

def minus (a b : ℕ) : ℕ := (a + 2 ^ 64 - b) % 2 ^ 64

def byteAt (b : List UInt8) (p : ℕ) : Except Stop UInt8 := obtained b[p]? .outside

def bytesAt (b : List UInt8) (p count : ℕ) : Except Stop (List UInt8) :=
  obtained (if p + count ≤ b.length then some ((b.drop p).take count) else none) .outside

def number (b : List UInt8) (p count : ℕ) : Except Stop ℕ := do
  let bytes ← bytesAt b p count
  .ok (littleEndian bytes)

def sectionFits (offset size length : ℕ) : Bool :=
  decide (88 ≤ offset ∧ offset ≤ length ∧ size ≤ minus length offset)

def airMinor (container : UInt8) : Option ℕ :=
  if container = 2 ∨ container = 3 ∨ container = 5 then some (container.toNat - 2)
  else if container = 7 ∨ container = 8 then some (container.toNat - 1)
  else none

/-- The offsets and sizes of the header. -/
structure Sections where
  table : ℕ
  tableSize : ℕ
  pub : ℕ
  pubSize : ℕ
  priv : ℕ
  privSize : ℕ
  code : ℕ
  codeSize : ℕ
deriving Repr

def readSections (b : List UInt8) : Except Stop Sections := do
  let table ← number b 24 8
  let tableSize ← number b 32 8
  let pub ← number b 40 8
  let pubSize ← number b 48 8
  let priv ← number b 56 8
  let privSize ← number b 64 8
  let code ← number b 72 8
  let codeSize ← number b 80 8
  .ok ⟨table, tableSize, pub, pubSize, priv, privSize, code, codeSize⟩

/-- The sections are in the file, one behind the other. -/
def Sections.ordered (s : Sections) (length : ℕ) : Bool :=
  sectionFits s.table s.tableSize length && sectionFits s.pub s.pubSize length &&
    sectionFits s.priv s.privSize length && sectionFits s.code s.codeSize length &&
    !decide (s.table > s.pub ∨ minus s.pub s.table < 4 ∨ s.tableSize > minus s.pub s.table ∨
      s.priv < s.pub ∨ s.pubSize > minus s.priv s.pub ∨
      s.code < s.priv ∨ s.privSize > minus s.code s.priv)

/-- What the header says about the operating system. -/
def checkSystem (b : List UInt8) (legacy : Bool) : Except Stop Unit :=
  if legacy then do
    let others ← number b 9 7
    need (others = 0) .refused
  else do
    let b9 ← byteAt b 9
    need (b9 = 0) .refused
    let b10 ← byteAt b 10
    need (b10 = 0) .refused
    let b11 ← byteAt b 11
    need (b11 = 0x81) .refused
    let b12 ← byteAt b 12
    need (b12 ≠ 0) .refused
    let others ← number b 13 3
    need (others = 0) .refused

/-! ## The records of functions -/

/-- The tags that a record must have. -/
inductive Field where
  | hash
  | offsets
  | moduleSize
  | version
deriving DecidableEq, Repr

def Field.name : Field → List UInt8
  | .hash => ascii "HASH"
  | .offsets => ascii "OFFT"
  | .moduleSize => ascii "MDSZ"
  | .version => ascii "VERS"

def Field.required : Field → ℕ
  | .hash => 32
  | .offsets => 24
  | .moduleSize => 8
  | .version => 8

def endTag : List UInt8 := ascii "ENDT"

def fieldOf (tag : List UInt8) : Option Field :=
  if tag = Field.hash.name then some .hash
  else if tag = Field.offsets.name then some .offsets
  else if tag = Field.moduleSize.name then some .moduleSize
  else if tag = Field.version.name then some .version
  else none

/-- Where the loop over the tags ended, and where the fields are. -/
structure Walk where
  pos : ℕ
  terminated : Bool
  found : Field → Option ℕ

def tagLoop (b : List UInt8) (stop : ℕ) : ℕ → ℕ → (Field → Option ℕ) → Except Stop Walk
  | 0, _, _ => .error .endless
  | fuel + 1, pos, found =>
    if 4 ≤ minus stop pos then do
      let tag ← bytesAt b pos 4
      let pos := plus pos 4
      if tag = endTag then .ok ⟨pos, true, found⟩
      else do
        need (2 ≤ minus stop pos) .refused
        let n ← number b pos 2
        let pos := plus pos 2
        need (n ≤ minus stop pos) .refused
        match fieldOf tag with
        | some field => do
          need (found field = none ∧ n = field.required) .refused
          tagLoop b stop fuel (plus pos n) (Function.update found field (some pos))
        | none => tagLoop b stop fuel (plus pos n) found
    else .ok ⟨pos, false, found⟩

/-- The bitcode wrapper at the start of a module of `n` bytes. -/
def checkModule (b : List UInt8) (module n : ℕ) : Except Stop Unit := do
  let start ← number b (module + 8) 4
  let bitcode ← number b (module + 12) 4
  let magic ← number b module 4
  need (magic = 0x0b17c0de) .refused
  let version ← number b (module + 4) 4
  need (version = 0 ∧ 20 ≤ start ∧ start ≤ n ∧ 4 ≤ bitcode ∧ bitcode ≤ minus n start) .refused
  let bc ← bytesAt b (module + start) 4
  need (bc = [0x42, 0x43, 0xC0, 0xDE]) .refused

/-- One round of the loop over the records: the place of the next one. -/
def record (sha256 : List UInt8 → List UInt8) (b : List UInt8) (s : Sections) (minor pos : ℕ) :
    Except Stop ℕ := do
  need (pos ≤ s.pub ∧ 4 ≤ minus s.pub pos) .refused
  let size ← number b pos 4
  need (8 ≤ size ∧ size ≤ minus s.pub pos) .refused
  let stop := plus pos size
  let walk ← tagLoop b stop b.length (plus pos 4) fun _ => none
  need (walk.terminated ∧ walk.pos = stop) .refused
  let hash ← obtained (walk.found .hash) .refused
  let offsets ← obtained (walk.found .offsets) .refused
  let moduleSize ← obtained (walk.found .moduleSize) .refused
  let version ← obtained (walk.found .version) .refused
  let airMajor ← number b version 2
  need (airMajor = 2) .refused
  let airMinor ← number b (version + 2) 2
  need (airMinor = minor) .refused
  let offset ← number b (offsets + 16) 8
  let n ← number b moduleSize 8
  need (offset ≤ s.codeSize ∧ n ≤ minus s.codeSize offset ∧ 24 ≤ n) .refused
  checkModule b (s.code + offset) n
  let module ← bytesAt b (s.code + offset) (n % 2 ^ 32)
  let expected ← bytesAt b hash 32
  need (sha256 module = expected) .refused
  .ok walk.pos

def records (sha256 : List UInt8 → List UInt8) (b : List UInt8) (s : Sections) (minor : ℕ) :
    ℕ → ℕ → Except Stop Unit
  | 0, _ => .ok ()
  | left + 1, pos => do
    let pos ← record sha256 b s minor pos
    records sha256 b s minor left pos

def derive (simulator legacy : Bool) (minor : ℕ) (original : List UInt8) : List UInt8 :=
  let derived := (original.set 5 0).set 11 (if simulator then 0x87 else 0x82)
  if legacy then derived else derived.set 12 (UInt8.ofNat (11 + minor))

def localMetalLibraryData (sha256 : List UInt8 → List UInt8) (simulator : Bool)
    (original : List UInt8) : Except Stop (List UInt8) := do
  let b := original
  let length := b.length
  need (88 ≤ length ∧ length ≤ 64 * 1024 * 1024) .refused
  let magic ← bytesAt b 0 8
  need (magic = ascii "MTLB" ++ [1, 0x80, 2, 0]) .refused
  let container ← byteAt b 8
  let minor ← obtained (airMinor container) .refused
  let legacy := decide (container < 7)
  let size ← number b 16 8
  need (size = length) .refused
  checkSystem b legacy
  let s ← readSections b
  need (s.ordered length = true) .refused
  let count ← number b s.table 4
  need (count ≠ 0 ∧ count ≤ 65536) .refused
  records sha256 b s minor count (plus s.table 4)
  .ok (derive simulator legacy minor original)

end Metal

end Tolkara
