import Mathlib

/-!
# Packets of the debugger

The codec of `DebugWire`: a parser fed byte by byte that writes a payload into a buffer
of bounded size, and the encoder of whole packets. The payload of a parser never exceeds
its buffer.
-/

namespace Tolkara

namespace DebugWire

inductive DWEvent
  | more | packet | notification | ack | nack | badChecksum | malformed | overflow
deriving DecidableEq, Repr

inductive DWState
  | seek | body | escape | repeating | checkHigh | checkLow
deriving DecidableEq, Repr

/-- The parser. `payload` are the first `length` bytes of the buffer of `capacity` bytes. -/
structure DWParser where
  payload : List UInt8
  capacity : ℕ
  state : DWState
  sum : UInt8
  expected : UInt8
  notification : Bool
  zeroChecksum : Bool
  fits : payload.length ≤ capacity

def hex (c : UInt8) : Option ℕ :=
  if 48 ≤ c ∧ c ≤ 57 then some (c.toNat - 48)
  else if 97 ≤ c ∧ c ≤ 102 then some (c.toNat - 97 + 10)
  else if 65 ≤ c ∧ c ≤ 70 then some (c.toNat - 65 + 10)
  else none

/-- A parser over a buffer of `capacity` bytes; without a buffer there is no room. -/
def dwInit (buffer : Bool) (capacity : ℕ) : DWParser where
  payload := []
  capacity := if buffer then capacity else 0
  state := .seek
  sum := 0
  expected := 0
  notification := false
  zeroChecksum := false
  fits := Nat.zero_le _

namespace DWParser

def fail (p : DWParser) (event : DWEvent) : DWParser × DWEvent :=
  ({ p with state := .seek, payload := [], fits := Nat.zero_le _ }, event)

def append (p : DWParser) (byte : UInt8) : DWParser × DWEvent :=
  if h : p.payload.length = p.capacity then p.fail .overflow
  else
    ({ p with
        payload := p.payload ++ [byte]
        fits := by
          have := p.fits
          rw [List.length_append, List.length_singleton]
          omega }, .more)

/-- The bytes that may not be the count of a repeat. -/
def badRepeat (b : UInt8) : Bool :=
  b < 32 || b > 126 || b == 36 || b == 35 || b == 43 || b == 45

/-- The `memset` of a repeat: the last byte again. -/
def memset (p : DWParser) (count : ℕ) (h : ¬ p.capacity - p.payload.length < count) :
    DWParser :=
  { p with
    payload := p.payload ++ List.replicate count (p.payload.getLastD 0)
    fits := by
      have := p.fits
      rw [List.length_append, List.length_replicate]
      omega }

end DWParser

/-- One byte, in ASCII: `$` 36, `%` 37, `#` 35, `}` 125, `*` 42, `+` 43, `-` 45. -/
def dwFeed (p : DWParser) (b : UInt8) : DWParser × DWEvent :=
  match p.state with
  | .seek =>
    if b = 43 then (p, .ack)
    else if b = 45 then (p, .nack)
    else if b = 36 ∨ b = 37 then
      ({ p with
          state := .body, payload := [], sum := 0, notification := b == 37
          fits := Nat.zero_le _ }, .more)
    else (p, .more)
  | .body =>
    if b = 36 then
      ({ p with payload := [], sum := 0, notification := false, fits := Nat.zero_le _ }, .malformed)
    else if b = 35 then ({ p with state := .checkHigh }, .more)
    else
      let p := { p with sum := p.sum + b }
      if b = 125 then ({ p with state := .escape }, .more)
      else if b = 42 then ({ p with state := .repeating }, .more)
      else p.append b
  | .escape => { p with sum := p.sum + b, state := .body }.append (b ^^^ 0x20)
  | .repeating =>
    let p := { p with sum := p.sum + b, state := .body }
    if p.payload.isEmpty || DWParser.badRepeat b then p.fail .malformed
    else if h : p.capacity - p.payload.length < b.toNat - 29 then p.fail .overflow
    else (p.memset (b.toNat - 29) h, .more)
  | .checkHigh =>
    match hex b with
    | none => p.fail .malformed
    | some digit => ({ p with expected := UInt8.ofNat (digit <<< 4), state := .checkLow }, .more)
  | .checkLow =>
    match hex b with
    | none => p.fail .malformed
    | some digit =>
      let p := { p with state := .seek }
      let sum := UInt8.ofNat (p.expected.toNat ||| digit)
      if sum ≠ p.sum ∧ ¬ (p.zeroChecksum = true ∧ sum = 0) then p.fail .badChecksum
      else (p, if p.notification then .notification else .packet)

def needsEscape (b : UInt8) : Bool := b == 36 || b == 35 || b == 125 || b == 42

/-- The loop that counts the bytes needed, and gives up at the capacity. -/
def dwNeeded (capacity : ℕ) : List UInt8 → ℕ → Option ℕ
  | [], needed => some needed
  | b :: rest, needed =>
    if needsEscape b then
      if needed = capacity then none else dwNeeded capacity rest (needed + 1)
    else dwNeeded capacity rest needed

/-- The loop that writes the payload, with the sum of what it wrote. -/
def dwBody : List UInt8 → List UInt8 → UInt8 → List UInt8 × UInt8
  | [], out, sum => (out, sum)
  | b :: rest, out, sum =>
    if needsEscape b then dwBody rest (out ++ [125] ++ [b ^^^ 0x20]) (sum + 125 + (b ^^^ 0x20))
    else dwBody rest (out ++ [b]) (sum + b)

def digits : List UInt8 :=
  [48, 49, 50, 51, 52, 53, 54, 55, 56, 57, 97, 98, 99, 100, 101, 102]

/-- The packet of a payload, or nothing where the destination (`none` for a null pointer)
is too small for it. -/
def dwEncode (payload : List UInt8) (destination : Option ℕ) : Option (List UInt8) :=
  match destination with
  | none => none
  | some capacity =>
    if capacity < 4 ∨ capacity - 4 < payload.length then none
    else
      match dwNeeded capacity payload (payload.length + 4) with
      | none => none
      | some _ =>
        let r := dwBody payload [36] 0
        some (r.1 ++ [35, digits.getD (r.2 >>> 4).toNat 0, digits.getD (r.2 &&& 15).toNat 0])

end DebugWire

end Tolkara
