import Tolkara.Library.Chunking
import Tolkara.Memory.Basic

/-!
# The RemoteXPC wire format

`RemoteXPCWire`: the bounded codec of the values a discovery exchanges, and
`RemoteXPCStream`, which assembles the messages of one channel. `Data` is a list of
bytes and a `String` its UTF-8 bytes. Swift compares strings up to canonical
equivalence, so whatever compares two of them takes the normal form `canonical` as
a parameter. A `Double` is kept by its bit pattern.
-/

namespace Tolkara

inductive PairingError where
  | malformed
  | oversized
  | invalidState
  | invalidKey
  | authenticationFailed
  | exhausted
deriving DecidableEq, Repr

/-- A dictionary is kept as its entries, in the order they were inserted. -/
inductive RemoteXPCValue where
  | null
  | bool (b : Bool)
  | int (n : Int64)
  | uint (n : UInt64)
  | double (bitPattern : UInt64)
  | date (n : UInt64)
  | data (d : List UInt8)
  | string (s : List UInt8)
  | uuid (d : List UInt8)
  | array (values : List RemoteXPCValue)
  | dictionary (entries : List (List UInt8 × RemoteXPCValue))

namespace RemoteXPCValue

def dictionary? : RemoteXPCValue → Option (List (List UInt8 × RemoteXPCValue))
  | dictionary d => some d
  | _ => none

def string? : RemoteXPCValue → Option (List UInt8)
  | string s => some s
  | _ => none

end RemoteXPCValue

/-- A key of a dictionary, found by canonical equivalence. -/
def valueOf {α : Type} (canonical : List UInt8 → List UInt8) (key : List UInt8) :
    List (List UInt8 × α) → Option α
  | [] => none
  | (k, v) :: rest =>
    if canonical k = canonical key then some v else valueOf canonical key rest

structure RemoteXPCMessage where
  flags : ℕ
  identifier : ℕ
  value : Option RemoteXPCValue

/-- What the next byte of UTF-8 may be: how many bytes of the scalar are missing,
and the bounds of the next one. -/
def utf8Next : ℕ × ℕ × ℕ → UInt8 → Option (ℕ × ℕ × ℕ)
  | (0, _, _), b =>
    let n := b.toNat
    if n ≤ 0x7f then some (0, 0x80, 0xbf)
    else if 0xc2 ≤ n ∧ n ≤ 0xdf then some (1, 0x80, 0xbf)
    else if n = 0xe0 then some (2, 0xa0, 0xbf)
    else if n = 0xed then some (2, 0x80, 0x9f)
    else if 0xe1 ≤ n ∧ n ≤ 0xef then some (2, 0x80, 0xbf)
    else if n = 0xf0 then some (3, 0x90, 0xbf)
    else if 0xf1 ≤ n ∧ n ≤ 0xf3 then some (3, 0x80, 0xbf)
    else if n = 0xf4 then some (3, 0x80, 0x8f)
    else none
  | (missing + 1, low, high), b =>
    if low ≤ b.toNat ∧ b.toNat ≤ high then some (missing, 0x80, 0xbf) else none

/-- `String(bytes:encoding:.utf8)` gives a string. -/
def isUTF8 (bytes : List UInt8) : Bool :=
  match bytes.foldlM utf8Next (0, 0x80, 0xbf) with
  | some (0, _, _) => true
  | _ => false

namespace RemoteXPCWire

def maximumPayload : ℕ := 1048576

def maximumNodes : ℕ := 16384

/-- The fields `bytes`, `at` and `nodes` of a reader. -/
structure Reader where
  bytes : List UInt8
  position : ℕ
  nodes : ℕ

namespace Reader

def take (r : Reader) (count limit : ℕ) : Except PairingError (List UInt8 × Reader) :=
  if r.position ≤ limit ∧ count ≤ limit - r.position then
    .ok ((r.bytes.drop r.position).take count, { r with position := r.position + count })
  else .error .malformed

def number (r : Reader) (count limit : ℕ) : Except PairingError (ℕ × Reader) := do
  let (b, r) ← r.take count limit
  return (littleEndian b, r)

def padding (r : Reader) (length limit : ℕ) : Except PairingError Reader := do
  let (pad, r) ← r.take ((4 - length % 4) % 4) limit
  if pad.all (· == 0) then return r else throw .malformed

def text (b : List UInt8) : Except PairingError (List UInt8) :=
  if b.getLast? = some 0 ∧ ¬ b.dropLast.contains 0 ∧ isUTF8 b.dropLast then .ok b.dropLast
  else .error .malformed

/-- The length of a key up to its zero byte, none when the limit comes first. -/
def keyLength : List UInt8 → ℕ → Option ℕ
  | _, 0 => none
  | [], _ => none
  | b :: rest, space + 1 => if b = 0 then some 0 else (keyLength rest space).map (· + 1)

def key (r : Reader) (limit : ℕ) : Except PairingError (List UInt8 × Reader) :=
  match keyLength (r.bytes.drop r.position) (limit - r.position) with
  | none => .error .malformed
  | some length => do
    let k ← text ((r.bytes.drop r.position).take (length + 1))
    let r ← padding { r with position := r.position + (length + 1) } (length + 1) limit
    return (k, r)

def elements (object : Reader → ℕ → Except PairingError (RemoteXPCValue × Reader)) (limit : ℕ) :
    ℕ → Reader → List RemoteXPCValue → Except PairingError (List RemoteXPCValue × Reader)
  | 0, r, array => .ok (array, r)
  | count + 1, r, array => do
    let (value, r) ← object r limit
    elements object limit count r (array ++ [value])

def entries (canonical : List UInt8 → List UInt8)
    (object : Reader → ℕ → Except PairingError (RemoteXPCValue × Reader)) (limit : ℕ) :
    ℕ → Reader → List (List UInt8 × RemoteXPCValue) →
      Except PairingError (List (List UInt8 × RemoteXPCValue) × Reader)
  | 0, r, dictionary => .ok (dictionary, r)
  | count + 1, r, dictionary => do
    let (k, r) ← r.key limit
    if (valueOf canonical k dictionary).isSome then throw .malformed
    let (value, r) ← object r limit
    entries canonical object limit count r (dictionary ++ [(k, value)])

/-- `object`, with the depths that are left in place of the depth: none is left
below depth 32. -/
def object (canonical : List UInt8 → List UInt8) :
    ℕ → Reader → ℕ → Except PairingError (RemoteXPCValue × Reader)
  | 0, _, _ => .error .oversized
  | depths + 1, r, limit => do
    let r := { r with nodes := r.nodes + 1 }
    if maximumNodes < r.nodes then throw .oversized
    let (kind, r) ← r.number 4 limit
    if kind = 0x1000 then return (.null, r)
    else if kind = 0x2000 then
      let (n, r) ← r.number 4 limit
      if n ≤ 1 then return (.bool (n == 1), r) else throw .malformed
    else if kind = 0x3000 then
      let (n, r) ← r.number 8 limit
      return (.int (UInt64.ofNat n).toInt64, r)
    else if kind = 0x4000 then
      let (n, r) ← r.number 8 limit
      return (.uint (UInt64.ofNat n), r)
    else if kind = 0x5000 then
      let (n, r) ← r.number 8 limit
      return (.double (UInt64.ofNat n), r)
    else if kind = 0x7000 then
      let (n, r) ← r.number 8 limit
      return (.date (UInt64.ofNat n), r)
    else if kind = 0x8000 ∨ kind = 0x9000 then
      let (length, r) ← r.number 4 limit
      let (b, r) ← r.take length limit
      let r ← r.padding length limit
      if kind = 0x8000 then return (.data b, r)
      else
        let s ← text b
        return (.string s, r)
    else if kind = 0xa000 then
      let (d, r) ← r.take 16 limit
      return (.uuid d, r)
    else if kind = 0xe000 ∨ kind = 0xf000 then
      let (length, r) ← r.number 4 limit
      if length < 4 ∨ limit - r.position < length then throw .malformed
      let inner := r.position + length
      let (count, r) ← r.number 4 inner
      if maximumNodes - r.nodes < count then throw .oversized
      if kind = 0xf000 then
        let (dictionary, r) ← entries canonical (object canonical depths) inner count r []
        if r.position = inner then return (.dictionary dictionary, r) else throw .malformed
      else
        let (array, r) ← elements (object canonical depths) inner count r []
        if r.position = inner then return (.array array, r) else throw .malformed
    else throw .malformed

end Reader

/-- The fields `bytes` and `nodes` of a writer. -/
structure Writer where
  bytes : List UInt8
  nodes : ℕ

namespace Writer

def add (w : Writer) (b : List UInt8) : Except PairingError Writer :=
  if b.length ≤ maximumPayload - w.bytes.length then .ok { w with bytes := w.bytes ++ b }
  else .error .oversized

def number (w : Writer) (n count : ℕ) : Except PairingError Writer :=
  w.add ((List.range count).map fun i => UInt8.ofNat (n / 256 ^ i % 256))

def text (w : Writer) (s : List UInt8) (prefixed : Bool) : Except PairingError Writer := do
  if s.contains 0 ∨ maximumPayload ≤ s.length then throw .malformed
  let d := s ++ [0]
  let w ← if prefixed then w.number d.length 4 else pure w
  let w ← w.add d
  w.add (List.replicate ((4 - d.length % 4) % 4) 0)

/-- The length of a collection, written over the zeros that stand for it. -/
def patchLength (w : Writer) (start : ℕ) : Writer :=
  let count := w.bytes.length - start - 4
  { w with
    bytes := w.bytes.take start ++
      (List.range 4).map (fun i => UInt8.ofNat (count / 256 ^ i % 256)) ++
      w.bytes.drop (start + 4) }

def kind : RemoteXPCValue → ℕ
  | .null => 0x1000
  | .bool _ => 0x2000
  | .int _ => 0x3000
  | .uint _ => 0x4000
  | .double _ => 0x5000
  | .date _ => 0x7000
  | .data _ => 0x8000
  | .string _ => 0x9000
  | .uuid _ => 0xa000
  | .array _ => 0xe000
  | .dictionary _ => 0xf000

def object (canonical : List UInt8 → List UInt8) :
    ℕ → Writer → RemoteXPCValue → Except PairingError Writer
  | 0, _, _ => .error .oversized
  | depths + 1, w, value => do
    let w := { w with nodes := w.nodes + 1 }
    if maximumNodes < w.nodes then throw .oversized
    let w ← w.number (kind value) 4
    match value with
    | .null => return w
    | .bool b => w.number (if b then 1 else 0) 4
    | .int n => w.number n.toUInt64.toNat 8
    | .uint n | .date n | .double n => w.number n.toNat 8
    | .uuid d => if d.length = 16 then w.add d else throw .malformed
    | .data d =>
      if maximumPayload < d.length then throw .oversized
      let w ← w.number d.length 4
      let w ← w.add d
      w.add (List.replicate ((4 - d.length % 4) % 4) 0)
    | .string s => w.text s true
    | .array values =>
      if maximumNodes - w.nodes < values.length then throw .oversized
      let start := w.bytes.length
      let w ← w.number 0 4
      let w ← w.number values.length 4
      let w ← values.foldlM (object canonical depths) w
      return w.patchLength start
    | .dictionary values =>
      if maximumNodes - w.nodes < values.length then throw .oversized
      let start := w.bytes.length
      let w ← w.number 0 4
      let w ← w.number values.length 4
      -- The keys are written in the order of their canonical forms.
      let sorted := values.insertionSort fun a b => canonical a.1 ≤ canonical b.1
      let w ← sorted.foldlM (fun w entry => do
        let w ← w.text entry.1 false
        object canonical depths w entry.2) w
      return w.patchLength start

end Writer

def encode (canonical : List UInt8 → List UInt8) (message : RemoteXPCMessage) :
    Except PairingError (List UInt8) := do
  let w : Writer ← match message.value with
    | none => pure { bytes := [], nodes := 0 }
    | some value => do
      let w ← Writer.number { bytes := [], nodes := 0 } 0x42133742 4
      let w ← w.number 5 4
      w.object canonical 33 value
  let payload := w.bytes
  let w ← Writer.number { bytes := [], nodes := 0 } 0x29b00b92 4
  let w ← w.number message.flags 4
  let w ← w.number payload.length 8
  let w ← w.number message.identifier 8
  return w.bytes ++ payload

def decode (canonical : List UInt8 → List UInt8) (data : List UInt8) :
    Except PairingError RemoteXPCMessage := do
  if data.length < 24 ∨ maximumPayload + 24 < data.length then throw .oversized
  let limit := data.length
  let (magic, r) ← Reader.number { bytes := data, position := 0, nodes := 0 } 4 limit
  if magic ≠ 0x29b00b92 then throw .malformed
  let (flags, r) ← r.number 4 limit
  let (length, r) ← r.number 8 limit
  let (id, r) ← r.number 8 limit
  if length ≠ limit - 24 ∨ flags % 2 ≠ 1 then throw .malformed
  if length = 0 then
    if r.position ≠ limit then throw .malformed
    return { flags := flags, identifier := id, value := none }
  else
    let (head, r) ← r.number 4 limit
    if head ≠ 0x42133742 then throw .malformed
    let (version, r) ← r.number 4 limit
    if version ≠ 5 then throw .malformed
    let (value, r) ← r.object canonical 33 limit
    if r.position ≠ limit then throw .malformed
    return { flags := flags, identifier := id, value := some value }

end RemoteXPCWire

structure RemoteXPCStream where
  bytes : List UInt8
  length : Option ℕ
  failed : Bool

namespace RemoteXPCStream

def init : RemoteXPCStream := { bytes := [], length := none, failed := false }

def hasPartialMessage (s : RemoteXPCStream) : Bool := !s.bytes.isEmpty

def take (canonical : List UInt8 → List UInt8) (s : RemoteXPCStream) (b : UInt8) :
    Except PairingError (RemoteXPCStream × List RemoteXPCMessage) := do
  let bytes := s.bytes ++ [b]
  let length ←
    if bytes.length = 16 then
      let n := littleEndian (bytes.drop 8)
      if n ≤ RemoteXPCWire.maximumPayload then pure (some (n + 24)) else throw .oversized
    else pure s.length
  if length = some bytes.length then
    let message ← RemoteXPCWire.decode canonical bytes
    return ({ s with bytes := [], length := none }, [message])
  else return ({ s with bytes := bytes, length := length }, [])

/-- `consume`. A stream that throws is discarded with the discovery that owns it, so
its failed state is not returned. -/
def consume (canonical : List UInt8 → List UInt8) (s : RemoteXPCStream) (input : List UInt8) :
    Except PairingError (RemoteXPCStream × List RemoteXPCMessage) := do
  if s.failed then throw .invalidState
  if 65536 < input.length then throw .oversized
  Chunking.feedAll (take canonical) s input

end RemoteXPCStream

end Tolkara
