import Tolkara.Library.Chunking
import Tolkara.Discovery.Wire

/-!
# The wire formats of pairing

`PairingTLV`, the fields of a pairing message, and `PairingFrameDecoder`, the frames
that carry one payload each. A decoder that fails keeps the state it failed in, so the
error of its step carries that state.
-/

namespace Tolkara

namespace PairingTLV

def limit : ℕ := 16384

def fragments (type : UInt8) : ℕ → List UInt8 → List UInt8
  | 0, _ => []
  | rounds + 1, bytes =>
    if bytes = [] then []
    else type :: UInt8.ofNat (min 255 bytes.length) ::
      (bytes.take 255 ++ fragments type rounds (bytes.drop 255))

def encodeLoop : List (UInt8 × List UInt8) → List UInt8 → List UInt8 →
    Except PairingError (List UInt8)
  | [], _, result => .ok result
  | (type, value) :: rest, seen, result =>
    if type ∈ seen then .error .malformed
    else if limit < value.length then .error .oversized
    else if limit < result.length + value.length + max 1 ((value.length + 254) / 255) * 2 then
      .error .oversized
    else
      let result := if value = [] then result ++ [type, 0] else result
      encodeLoop rest (type :: seen) (result ++ fragments type value.length value)

def encode (entries : List (UInt8 × List UInt8)) : Except PairingError (List UInt8) :=
  encodeLoop entries [] []

def field (fields : List (UInt8 × List UInt8)) (type : UInt8) : Option (List UInt8) :=
  fields.lookup type

/-- `fields[type, default: Data()].append(contentsOf:)`. -/
def append (fields : List (UInt8 × List UInt8)) (type : UInt8) (bytes : List UInt8) :
    List (UInt8 × List UInt8) :=
  match fields with
  | [] => [(type, bytes)]
  | (t, value) :: rest =>
    if t = type then (t, value ++ bytes) :: rest else (t, value) :: append rest type bytes

/-- The loop of `decode`. Every round reads two bytes, so the bytes bound the rounds. -/
def decodeLoop : ℕ → List UInt8 → List (UInt8 × List UInt8) → Option UInt8 →
    Except PairingError (List (UInt8 × List UInt8))
  | 0, _, fields, _ => .ok fields
  | rounds + 1, bytes, fields, previous =>
    match bytes with
    | [] => .ok fields
    | [_] => .error .malformed
    | type :: count :: rest =>
      if rest.length < count.toNat then .error .malformed
      else if (field fields type).isSome ∧ previous ≠ some type then .error .malformed
      else
        decodeLoop rounds (rest.drop count.toNat) (append fields type (rest.take count.toNat))
          (some type)

def decode (data : List UInt8) : Except PairingError (List (UInt8 × List UInt8)) :=
  if limit < data.length then .error .oversized else decodeLoop data.length data [] none

def message (data : List UInt8) (state : UInt8) :
    Except PairingError (List (UInt8 × List UInt8)) := do
  let fields ← decode data
  if (field fields 7).isSome then throw .authenticationFailed
  if field fields 6 ≠ some [state] then throw .invalidState
  return fields

end PairingTLV

/-- What `JSONSerialization` reads. A number has its text and says whether it is one of the
two Booleans; `other` is an array or null. -/
inductive JSONValue where
  | string (text : List UInt8)
  | number (stringValue : List UInt8) (isBoolean : Bool)
  | dictionary (entries : List (List UInt8 × JSONValue))
  | other

namespace JSONValue

def string? : JSONValue → Option (List UInt8)
  | .string text => some text
  | _ => none

def dictionary? : JSONValue → Option (List (List UInt8 × JSONValue))
  | .dictionary entries => some entries
  | _ => none

/-- The number of a text of digits, when it is below a bound. -/
def decimal (bound : ℕ) (text : List UInt8) : Option ℕ :=
  if text ≠ [] ∧ text.all (fun b => 48 ≤ b && b ≤ 57) then
    let n := text.foldl (fun n b => n * 10 + (b.toNat - 48)) 0
    if n < bound then some n else none
  else none

def natural? (bound : ℕ) : JSONValue → Option ℕ
  | .number text false => decimal bound text
  | _ => none

end JSONValue

inductive PairingFrameDecoder.Format where
  | pairing
  | tunnel
deriving DecidableEq

structure PairingFrameDecoder where
  magic : List UInt8
  header : List UInt8
  body : List UInt8
  expected : Option ℕ
  failed : Bool
deriving DecidableEq

namespace PairingFrameDecoder

def magicOf : Format → List UInt8
  | .pairing => ascii "RPPairing"
  | .tunnel => ascii "CDTunnel"

def init (format : Format) : PairingFrameDecoder :=
  { magic := magicOf format
    header := []
    body := []
    expected := none
    failed := false }

def encode (payload : List UInt8) (format : Format) : Except PairingError (List UInt8) :=
  if payload = [] ∨ 65535 < payload.length then .error .oversized
  else
    .ok (magicOf format ++
      [UInt8.ofNat (payload.length / 256), UInt8.ofNat (payload.length % 256)] ++ payload)

def consume (d : PairingFrameDecoder) (byte : UInt8) :
    Except (PairingFrameDecoder × PairingError) (PairingFrameDecoder × Option (List UInt8)) :=
  if d.failed then .error (d, .invalidState)
  else
    match d.expected with
    | some size =>
      if (d.body ++ [byte]).length = size then
        .ok ({ d with body := [], header := [], expected := none }, some (d.body ++ [byte]))
      else .ok ({ d with body := d.body ++ [byte] }, none)
    | none =>
      if d.header.length < d.magic.length ∧ byte ≠ d.magic.getD d.header.length 0 then
        .error ({ d with failed := true }, .malformed)
      else
        let header := d.header ++ [byte]
        if header.length = d.magic.length + 2 then
          let size := (header.getD d.magic.length 0).toNat * 256 +
            (header.getD (d.magic.length + 1) 0).toNat
          if size = 0 then .error ({ d with header := header, failed := true }, .malformed)
          else .ok ({ d with header := header, expected := some size }, none)
        else .ok ({ d with header := header }, none)

variable (format : Format) (payload : List UInt8)

/-- The text and the length in front of a payload. -/
def headerOf : List UInt8 :=
  magicOf format ++ [UInt8.ofNat (payload.length / 256), UInt8.ofNat (payload.length % 256)]

def reading (n : ℕ) : PairingFrameDecoder :=
  { magic := magicOf format
    header := (headerOf format payload).take n
    body := payload.take (n - (headerOf format payload).length)
    expected := if (headerOf format payload).length ≤ n then some payload.length else none
    failed := false }

theorem length_headerOf :
    (headerOf format payload).length = (magicOf format).length + 2 := by
  simp [headerOf]

theorem reading_zero : reading format payload 0 = init format := by
  have hpos := length_headerOf format payload
  simp [reading, init, hpos]

variable {format payload}

theorem consume_header (hpos : payload ≠ []) (hlimit : payload.length ≤ 65535) {n : ℕ}
    (hn : n < (headerOf format payload).length) :
    (reading format payload n).consume (headerOf format payload)[n] =
      .ok (reading format payload (n + 1), none) := by
  have hlength := length_headerOf format payload
  have htake : (headerOf format payload).take n ++ [(headerOf format payload)[n]] =
      (headerOf format payload).take (n + 1) := List.take_append_getElem hn
  have hcount : ∀ k ≤ (headerOf format payload).length,
      ((headerOf format payload).take k).length = k := by
    intro k hk
    rw [List.length_take, min_eq_left hk]
  have hmagic : ¬ (n < (magicOf format).length ∧
      (headerOf format payload)[n] ≠ (magicOf format).getD n 0) := by
    rintro ⟨hlt, hne⟩
    refine hne ?_
    simp [headerOf, List.getElem_append_left hlt, List.getD_eq_getElem?_getD, hlt]
  have hnone : ¬ (headerOf format payload).length ≤ n := by omega
  have hfront : ∀ k ≤ (headerOf format payload).length,
      payload.take (k - (headerOf format payload).length) = [] := by
    intro k hk
    rw [Nat.sub_eq_zero_of_le hk, List.take_zero]
  unfold consume
  simp only [reading, Bool.false_eq_true, if_false, if_neg hnone, htake, hcount n hn.le,
    hcount (n + 1) hn, if_neg hmagic]
  by_cases hend : n + 1 = (headerOf format payload).length
  · -- The last byte of the length.
    have hwhole : (headerOf format payload).take (n + 1) = headerOf format payload := by
      rw [hend, List.take_length]
    have hsize : ((headerOf format payload).getD (magicOf format).length 0).toNat * 256 +
        ((headerOf format payload).getD ((magicOf format).length + 1) 0).toNat =
          payload.length := by
      simp [headerOf, List.getD_eq_getElem?_getD]
      omega
    have hsome : payload.length ≠ 0 := by simpa using hpos
    rw [if_pos (by omega), hwhole, hsize, if_neg hsome, if_pos hend.ge, hfront n hn.le,
      hfront (n + 1) hend.le]
  · rw [if_neg (by omega), if_neg (by omega), hfront n hn.le, hfront (n + 1) (by omega)]

theorem consume_payload {k : ℕ} (hk : k < payload.length) :
    (reading format payload ((headerOf format payload).length + k)).consume payload[k] =
      if k + 1 = payload.length then .ok (init format, some payload)
      else .ok (reading format payload ((headerOf format payload).length + k + 1), none) := by
  have hle : ∀ j, (headerOf format payload).length ≤ (headerOf format payload).length + j :=
    fun j => Nat.le_add_right _ j
  have hheader : ∀ j, (headerOf format payload).take ((headerOf format payload).length + j) =
      headerOf format payload := fun j => List.take_of_length_le (hle j)
  have hbody : payload.take k ++ [payload[k]] = payload.take (k + 1) :=
    List.take_append_getElem hk
  have hcount : (payload.take (k + 1)).length = k + 1 := by
    rw [List.length_take]
    omega
  unfold consume
  simp only [reading, Bool.false_eq_true, if_false, if_pos (hle _), Nat.add_sub_cancel_left,
    Nat.add_assoc, hheader, hbody, hcount]
  split
  · rename_i hend
    rw [hend, List.take_length]
    rfl
  · rfl

/-- A byte of a frame that is not its last. -/
theorem consume_more (hpos : payload ≠ []) (hlimit : payload.length ≤ 65535) {n : ℕ}
    (hn : n < (headerOf format payload ++ payload).length)
    (hmore : n + 1 < (headerOf format payload ++ payload).length) :
    (reading format payload n).consume (headerOf format payload ++ payload)[n] =
      .ok (reading format payload (n + 1), none) := by
  rw [List.length_append] at hmore
  by_cases hheader : n < (headerOf format payload).length
  · rw [List.getElem_append_left hheader]
    exact consume_header hpos hlimit hheader
  · obtain ⟨k, rfl⟩ := Nat.exists_eq_add_of_le (not_lt.mp hheader)
    simp only [List.getElem_append_right (Nat.le_add_right _ k), Nat.add_sub_cancel_left]
    rw [consume_payload (by omega), if_neg (by omega)]

/-- The last byte of a frame completes the payload. -/
theorem consume_last {n : ℕ} (hpos : payload ≠ [])
    (hn : n < (headerOf format payload ++ payload).length)
    (hend : n + 1 = (headerOf format payload ++ payload).length) :
    (reading format payload n).consume (headerOf format payload ++ payload)[n] =
      .ok (init format, some payload) := by
  have hlength : 0 < payload.length := List.length_pos_of_ne_nil hpos
  rw [List.length_append] at hend
  obtain ⟨k, rfl⟩ := Nat.exists_eq_add_of_le (by omega : (headerOf format payload).length ≤ n)
  simp only [List.getElem_append_right (Nat.le_add_right _ k), Nat.add_sub_cancel_left]
  rw [consume_payload (by omega), if_pos (by omega)]

theorem encode_ok {frame : List UInt8} (h : encode payload format = .ok frame) :
    payload ≠ [] ∧ payload.length ≤ 65535 ∧ frame = headerOf format payload ++ payload := by
  unfold encode at h
  split_ifs at h with hsize
  push Not at hsize
  cases h
  exact ⟨hsize.1, hsize.2, rfl⟩

end PairingFrameDecoder

end Tolkara
