import Tolkara.Debugger.Request
import Tolkara.Debugger.Wire
import Tolkara.Library.Places
import Tolkara.Library.Readers

/-!
# The texts of the debugger's protocol

`DebugProtocolWire`: what the session makes of the bytes of a server. A packet becomes a
text, and a text a number, some bytes or named fields. All texts are ASCII, so that a
character is a byte; a CR LF, which Swift takes for one character, is part of nothing that
is accepted.
-/

namespace Tolkara

open Library

abbrev Text := List UInt8

namespace DebugProtocolWire

inductive Event where
  | packet (payload : Text)
  | ack
  | nack
  | badChecksum
deriving DecidableEq

def capacity : ℕ := 32768

def feed (parser : DebugWire.DWParser) (b : UInt8) :
    Except PairingError (Option Event) × DebugWire.DWParser :=
  let r := DebugWire.dwFeed parser b
  (match r.2 with
    | .more => .ok none
    | .packet => .ok (some (.packet r.1.payload))
    | .ack => .ok (some .ack)
    | .nack => .ok (some .nack)
    | .badChecksum => .ok (some .badChecksum)
    | _ => .error .malformed, r.1)

def encode (command : Text) : Except PairingError (List UInt8) :=
  if capacity < command.length then .error .oversized
  else obtained (DebugWire.dwEncode command (some (command.length * 2 + 4))) .malformed

def digit (b : UInt8) : Option UInt8 :=
  if 48 ≤ b ∧ b ≤ 57 then some (b - 48)
  else if 65 ≤ b ∧ b ≤ 70 then some (b - 55)
  else if 97 ≤ b ∧ b ≤ 102 then some (b - 87)
  else none

/-- The loop of `unhex`, two digits at a time. -/
def unhexPairs : List UInt8 → Except PairingError (List UInt8)
  | high :: low :: rest => do
    let h ← obtained (digit high) .malformed
    let l ← obtained (digit low) .malformed
    let bytes ← unhexPairs rest
    return (h <<< 4 ||| l) :: bytes
  | _ => .ok []

def unhex (text : Text) (count : ℕ) : Except PairingError (List UInt8) := do
  need (count ≤ capacity / 2 ∧ text.length = count * 2) .malformed
  unhexPairs text

def radix16 (text : Text) : ℕ :=
  text.foldl (fun v b => v * 16 + ((digit b).getD 0).toNat) 0

def number (text : Option Text) : Except PairingError ℕ := do
  let text ← obtained text .malformed
  need (text ≠ [] ∧ text.length ≤ 16 ∧ ∀ b ∈ text, (digit b).isSome = true) .malformed
  return radix16 text

/-- The loop over the pairs of `fields`; a dictionary is kept as its entries. -/
def fieldLoop : List Text → List (Text × Text) → Except PairingError (List (Text × Text))
  | [], fields => .ok fields
  | pair :: rest, fields => do
    need (fields.length < 128 ∧ 58 ∈ pair) .malformed
    let key := pair.takeWhile (· ≠ 58)
    need (key ≠ [] ∧ fields.lookup key = none) .malformed
    fieldLoop rest (fields ++ [(key, (pair.dropWhile (· ≠ 58)).drop 1)])

/-- `text.split(separator:)`, without the empty parts. -/
def split (separator : UInt8) (text : Text) : List Text :=
  (text.splitOn separator).filter (· ≠ [])

def fields (text : Text) : Except PairingError (List (Text × Text)) := do
  need (text.length ≤ capacity) .oversized
  fieldLoop (split 59 text) []

def hexText (value : ℕ) : Text :=
  if value = 0 then [48] else (places 16 16 value).map fun d => DebugWire.digits.getD d 0

/-! ## Numbers are written and read back -/

theorem digit_digits {d : ℕ} (hd : d < 16) :
    (digit (DebugWire.digits.getD d 0)).map UInt8.toNat = some d := by
  interval_cases d <;> rfl

theorem radix16_places {v : ℕ} (hv : v < 16 ^ 16) :
    radix16 ((places 16 16 v).map fun d => DebugWire.digits.getD d 0) = v := by
  rw [radix16, List.foldl_map]
  conv_rhs => rw [← placesValue_places (by decide : 1 < 16) hv]
  rw [placesValue]
  refine List.foldl_ext _ _ 0 fun n d hd => ?_
  have h := digit_digits (lt_of_mem_places (by decide) d hd)
  cases hdigit : digit (DebugWire.digits.getD d 0) with
  | none =>
      rw [hdigit] at h
      cases h
  | some x =>
      rw [hdigit] at h
      rw [Option.getD_some, Option.some.inj h]

theorem radix16_hexText {v : ℕ} (hv : v < 2 ^ 64) : radix16 (hexText v) = v := by
  unfold hexText
  split
  · rename_i hzero
    rw [hzero]
    rfl
  · exact radix16_places hv

theorem hexText_inj {v w : ℕ} (hv : v < 2 ^ 64) (hw : w < 2 ^ 64)
    (h : hexText v = hexText w) : v = w := by
  rw [← radix16_hexText hv, h, radix16_hexText hw]

end DebugProtocolWire

end Tolkara
