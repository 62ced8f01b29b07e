import Tolkara.Library.Readers
import Tolkara.Memory.Words
import Mathlib.Data.List.DropRight

/-!
# The two readers of a NIB archive

`AKReadNibArchive` of `translation/AppKit/NibArchive.m` reads an archive at run time and `parse` of
`tools/inspect_nib.py` at build time. Both take four tables (objects, keys, values, class names) to
the graph of the objects. The first counts in 64 bits behind a cursor that goes bad, the second in
numbers without a bound and raises. One `decode` stands for the UTF-8 decoders of `NSString` and of
Python, and floating-point numbers are kept as their bits.
-/

namespace Tolkara

open Library

/-- A value of an archive. Data is its hex text. -/
inductive NibValue
  | int (value : ℤ)
  | bool (value : Bool)
  | null
  | data (hex : List UInt8)
  | float (bits : ℕ)
  | double (bits : ℕ)
  | ref (index : ℕ)
deriving DecidableEq, Repr

structure NibObject (τ : Type) where
  cls : τ
  values : List (τ × NibValue)
deriving DecidableEq, Repr

namespace Nib

variable {τ α : Type}

def signed (bits value : ℕ) : ℤ := (BitVec.ofNat bits value).toInt

def numberAt (data : List UInt8) (offset width : ℕ) : ℕ :=
  littleEndian ((data.drop offset).take width)

def hexDigit (n : ℕ) : UInt8 := UInt8.ofNat (if n < 10 then 48 + n else 87 + n)

def hexText (bytes : List UInt8) : List UInt8 :=
  bytes.flatMap fun b => [hexDigit (b.toNat / 16), hexDigit (b.toNat % 16)]

/-- A word of the header: the version, its revision, and the count and the offset of each
table. -/
def header (data : List UInt8) (i : ℕ) : ℕ := numberAt data (10 + 4 * i) 4

def magic : List UInt8 := ascii "NIBArchive"

/-! ## At run time -/

structure AKNibCursor where
  bytes : List UInt8
  offset : ℕ
  bad : Bool
deriving DecidableEq, Repr

def AKNibCursor.fail (c : AKNibCursor) : AKNibCursor := { c with bad := true }

/-- The loop of `nib_varint`. The last byte is the one with the high bit. -/
def nibVarintLoop : ℕ → ℕ → AKNibCursor → ℕ → ℕ × AKNibCursor
  | 0, _, c, _ => (0, c.fail)
  | left + 1, shift, c, value =>
    match c.bytes[c.offset]? with
    | none => (0, c.fail)
    | some byte =>
      let c := { c with offset := c.offset + 1 }
      let value := value + byte.toNat % 128 * 2 ^ shift % 2 ^ 64
      if 128 ≤ byte.toNat then (value, c) else nibVarintLoop left (shift + 7) c value

def nibVarint (c : AKNibCursor) : ℕ × AKNibCursor := nibVarintLoop 10 0 c 0

/-- The length of a name without its padding of zeros. -/
def trimmed (bytes : List UInt8) : ℕ → ℕ
  | 0 => 0
  | length + 1 => if bytes.getD length 0 = 0 then trimmed bytes length else length + 1

def nibString (decode : List UInt8 → Option τ) (c : AKNibCursor) (length : ℕ) :
    Option τ × AKNibCursor :=
  if c.bad = true ∨ c.bytes.length - c.offset < length then (none, c.fail)
  else
    let start := c.bytes.drop c.offset
    let c := { c with offset := c.offset + length }
    match decode (start.take (trimmed start length)) with
    | some text => (some text, c)
    | none => (none, c.fail)

def width : ℕ → ℕ
  | 0 => 1
  | 1 => 2
  | 2 | 6 | 10 => 4
  | 3 | 7 => 8
  | _ => 0

/-- The `switch` over the types of a fixed width. -/
def scalar (type value : ℕ) : NibValue :=
  match type with
  | 0 => .int (signed 8 value)
  | 1 => .int (signed 16 value)
  | 2 => .int (signed 32 value)
  | 3 => .int (signed 64 value)
  | 6 => .float value
  | 7 => .double value
  | _ => .ref value

/-- `heap` says which sizes `malloc` has room for. -/
def nibData (heap : ℕ → Bool) (c : AKNibCursor) : Option NibValue × AKNibCursor :=
  let size := nibVarint c
  let c := size.2
  if c.bad = true ∨ c.bytes.length - c.offset < size.1 then (none, c.fail)
  else if size.1 ≠ 0 ∧ heap (size.1 * 2) = false then (none, c.fail)
  else (some (.data (hexText ((c.bytes.drop c.offset).take size.1))),
    { c with offset := c.offset + size.1 })

def nibValue (heap : ℕ → Bool) (c : AKNibCursor) : Option NibValue × AKNibCursor :=
  match c.bytes[c.offset]? with
  | none => (none, c.fail)
  | some byte =>
    let type := byte.toNat
    let c := { c with offset := c.offset + 1 }
    if type = 4 then (some (.bool true), c)
    else if type = 5 then (some (.bool false), c)
    else if type = 9 then (some .null, c)
    else if type = 8 then nibData heap c
    else if width type = 0 ∨ c.bytes.length - c.offset < width type then (none, c.fail)
    else (some (scalar type (numberAt c.bytes c.offset (width type))),
      { c with offset := c.offset + width type })

/-- The class, the start and the count of an object. -/
def objectEntry (c : AKNibCursor) : Option (ℕ × ℕ × ℕ) × AKNibCursor :=
  let cls := nibVarint c
  let start := nibVarint cls.2
  let count := nibVarint start.2
  (some (cls.1, start.1, count.1), count.2)

def keyEntry (decode : List UInt8 → Option τ) (c : AKNibCursor) : Option τ × AKNibCursor :=
  let size := nibVarint c
  nibString decode size.2 size.1

/-- A class entry may name the classes it extends. -/
def classEntry (decode : List UInt8 → Option τ) (c : AKNibCursor) : Option τ × AKNibCursor :=
  let size := nibVarint c
  let extras := nibVarint size.2
  let c := extras.2
  if c.bad = true ∨ (c.bytes.length - c.offset) / 4 < extras.1 then (none, c)
  else nibString decode { c with offset := c.offset + extras.1 * 4 } size.1

def valueEntry (heap : ℕ → Bool) (c : AKNibCursor) : Option (ℕ × NibValue) × AKNibCursor :=
  let key := nibVarint c
  if key.2.bad then (none, key.2)
  else
    let value := nibValue heap key.2
    (value.1.map fun v => (key.1, v), value.2)

def tableLoop (entry : AKNibCursor → Option α × AKNibCursor) :
    ℕ → AKNibCursor → List α → Option (List α)
  | 0, _, table => some table
  | left + 1, c, table =>
    match entry c with
    | (some x, c) => if c.bad then none else tableLoop entry left c (table ++ [x])
    | (none, _) => none

def readTable (data : List UInt8) (kind : ℕ) (entry : AKNibCursor → Option α × AKNibCursor) :
    Option (List α) :=
  let count := header data (2 + kind * 2)
  let offset := header data (3 + kind * 2)
  if 100000 < count ∨ offset < 50 ∨ data.length < offset then none
  else tableLoop entry count ⟨data, offset, false⟩ []

def dangles (value : NibValue) (objectCount : ℕ) : Bool :=
  match value with
  | .ref index => decide (objectCount ≤ index)
  | _ => false

def fieldLoop (keys : List τ) (values : List (ℕ × NibValue)) (objectCount : ℕ) :
    ℕ → ℕ → List (τ × NibValue) → Option (List (τ × NibValue))
  | 0, _, fields => some fields
  | left + 1, i, fields => do
    let pair ← values[i]?
    let key ← keys[pair.1]?
    if dangles pair.2 objectCount then none
    else fieldLoop keys values objectCount left (i + 1) (fields ++ [(key, pair.2)])

def resolveObject (keys : List τ) (values : List (ℕ × NibValue)) (classes : List τ)
    (objectCount : ℕ) (object : ℕ × ℕ × ℕ) : Option (NibObject τ) := do
  let cls ← classes[object.1]?
  if values.length < object.2.1 ∨ values.length - object.2.1 < object.2.2 then none
  else
    let fields ← fieldLoop keys values objectCount object.2.2 object.2.1 []
    return ⟨cls, fields⟩

def akReadNibArchive (heap : ℕ → Bool) (decode : List UInt8 → Option τ) (data : List UInt8) :
    Option (List (NibObject τ)) :=
  if data.length < 50 ∨ data.take 10 ≠ magic then none
  else if header data 0 ≠ 1 ∨ (header data 1 ≠ 9 ∧ header data 1 ≠ 10) then none
  else do
    let objects ← readTable data 0 objectEntry
    let keys ← readTable data 1 (keyEntry decode)
    let values ← readTable data 2 (valueEntry heap)
    let classes ← readTable data 3 (classEntry decode)
    objects.mapM (resolveObject keys values classes objects.length)

/-! ## At build time -/

/-- What `parse` raises. `overlong` is only for `strictVarint`. -/
inductive NibError
  | notArchive | unsupportedVersion | truncatedVarint | oversizedVarint | invalidTable
  | truncatedString | notText | truncatedType | truncatedData | unknownType | truncatedValue
  | invalidObject | invalidKey | invalidReference | overlong
deriving DecidableEq, Repr

/-- Where a number is read from, with the offset after it. -/
abbrev Varint := List UInt8 → ℕ → Except NibError (ℕ × ℕ)

def varintLoop (data : List UInt8) : ℕ → ℕ → ℕ → ℕ → Except NibError (ℕ × ℕ)
  | 0, _, _, _ => .error .oversizedVarint
  | left + 1, shift, offset, value =>
    match data[offset]? with
    | none => .error .truncatedVarint
    | some byte =>
      let value := value + byte.toNat % 128 * 2 ^ shift
      if 128 ≤ byte.toNat then .ok (value, offset + 1)
      else varintLoop data left (shift + 7) (offset + 1) value

def varint : Varint := fun data offset => varintLoop data 10 0 offset 0

/-- The reader of numbers that refuses those of more than 64 bits. -/
def strictVarint : Varint := fun data offset => do
  let r ← varint data offset
  need (r.1 < 2 ^ 64) .overlong
  return r

def parseObject (varint : Varint) (data : List UInt8) (offset : ℕ) :
    Except NibError ((ℕ × ℕ × ℕ) × ℕ) := do
  let cls ← varint data offset
  let start ← varint data cls.2
  let count ← varint data start.2
  return ((cls.1, start.1, count.1), count.2)

/-- `data[offset:offset+length].rstrip(b'\0').decode('utf8')`. -/
def parseString (decode : List UInt8 → Option τ) (data : List UInt8) (offset length : ℕ) :
    Except NibError (τ × ℕ) := do
  need (offset + length ≤ data.length) .truncatedString
  let text ← obtained (decode (((data.drop offset).take length).rdropWhile (· = 0))) .notText
  return (text, offset + length)

def parseKey (varint : Varint) (decode : List UInt8 → Option τ) (data : List UInt8)
    (offset : ℕ) : Except NibError (τ × ℕ) := do
  let length ← varint data offset
  parseString decode data length.2 length.1

def parseClass (varint : Varint) (decode : List UInt8 → Option τ) (data : List UInt8)
    (offset : ℕ) : Except NibError (τ × ℕ) := do
  let length ← varint data offset
  let extras ← varint data length.2
  parseString decode data (extras.2 + 4 * extras.1) length.1

def formats : ℕ → Option (ℕ × (ℕ → NibValue))
  | 0 => some (1, fun v => .int (signed 8 v))
  | 1 => some (2, fun v => .int (signed 16 v))
  | 2 => some (4, fun v => .int (signed 32 v))
  | 3 => some (8, fun v => .int (signed 64 v))
  | 6 => some (4, .float)
  | 7 => some (8, .double)
  | 10 => some (4, .ref)
  | _ => none

def parseValue (varint : Varint) (data : List UInt8) (offset : ℕ) :
    Except NibError (NibValue × ℕ) := do
  let byte ← obtained data[offset]? .truncatedType
  let type := byte.toNat
  let offset := offset + 1
  if type = 4 then return (.bool true, offset)
  else if type = 5 then return (.bool false, offset)
  else if type = 9 then return (.null, offset)
  else if type = 8 then do
    let length ← varint data offset
    need (length.1 ≤ data.length - length.2) .truncatedData
    return (.data (hexText ((data.drop length.2).take length.1)), length.2 + length.1)
  else do
    let format ← obtained (formats type) .unknownType
    need (offset + format.1 ≤ data.length) .truncatedValue
    return (format.2 (numberAt data offset format.1), offset + format.1)

def parsePair (varint : Varint) (data : List UInt8) (offset : ℕ) :
    Except NibError ((ℕ × NibValue) × ℕ) := do
  let key ← varint data offset
  let value ← parseValue varint data key.2
  return ((key.1, value.1), value.2)

def parseLoop (entry : List UInt8 → ℕ → Except NibError (α × ℕ)) (data : List UInt8) :
    ℕ → ℕ → List α → Except NibError (List α)
  | 0, _, table => .ok table
  | left + 1, offset, table => do
    let x ← entry data offset
    parseLoop entry data left x.2 (table ++ [x.1])

def parseTable (data : List UInt8) (kind : ℕ)
    (entry : List UInt8 → ℕ → Except NibError (α × ℕ)) : Except NibError (List α) := do
  let count := header data (2 + kind * 2)
  let offset := header data (3 + kind * 2)
  need (count ≤ 100000 ∧ 50 ≤ offset ∧ offset ≤ data.length) .invalidTable
  parseLoop entry data count offset []

/-- The loop over `values[start:start+count]`. -/
def parseFields (keys : List τ) (objectCount : ℕ) :
    List (ℕ × NibValue) → List (τ × NibValue) → Except NibError (List (τ × NibValue))
  | [], fields => .ok fields
  | pair :: rest, fields => do
    let key ← obtained keys[pair.1]? .invalidKey
    need (dangles pair.2 objectCount = false) .invalidReference
    parseFields keys objectCount rest (fields ++ [(key, pair.2)])

def parseGraphObject (keys : List τ) (values : List (ℕ × NibValue)) (classes : List τ)
    (objectCount : ℕ) (object : ℕ × ℕ × ℕ) : Except NibError (NibObject τ) := do
  let cls ← obtained classes[object.1]? .invalidObject
  need (object.2.1 ≤ values.length ∧ object.2.2 ≤ values.length - object.2.1) .invalidObject
  let fields ← parseFields keys objectCount ((values.drop object.2.1).take object.2.2) []
  return ⟨cls, fields⟩

def parseWith (varint : Varint) (decode : List UInt8 → Option τ) (data : List UInt8) :
    Except NibError (List (NibObject τ)) := do
  need (50 ≤ data.length ∧ data.take 10 = magic) .notArchive
  need (header data 0 = 1 ∧ (header data 1 = 9 ∨ header data 1 = 10)) .unsupportedVersion
  let objects ← parseTable data 0 (parseObject varint)
  let keys ← parseTable data 1 (parseKey varint decode)
  let values ← parseTable data 2 (parsePair varint)
  let classes ← parseTable data 3 (parseClass varint decode)
  objects.mapM (parseGraphObject keys values classes objects.length)

def parse (decode : List UInt8 → Option τ) (data : List UInt8) :
    Except NibError (List (NibObject τ)) := parseWith varint decode data

end Nib

end Tolkara
