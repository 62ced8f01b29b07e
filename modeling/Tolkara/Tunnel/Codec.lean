import Mathlib.Tactic

/-!
# Segments of the tunnel

`TunnelTCPCodec`: a segment is carried in one IPv6 packet without extension
headers. Sequence numbers, ports and windows are machine words, since they wrap;
the bytes of a packet are a list.
-/

namespace Tolkara

/-- `IPv6Address`, by its raw value. -/
structure IPv6Address where
  rawValue : List UInt8
  length_rawValue : rawValue.length = 16
deriving DecidableEq

structure TunnelTCPSegment where
  sequence : BitVec 32
  acknowledgement : BitVec 32
  flags : UInt8
  window : BitVec 16
  payload : List UInt8
  mss : Option (BitVec 16)
deriving DecidableEq

namespace TunnelTCPSegment

def fin : UInt8 := 1

def syn : UInt8 := 2

def rst : UInt8 := 4

def psh : UInt8 := 8

def ack : UInt8 := 16

def has (segment : TunnelTCPSegment) (flag : UInt8) : Bool :=
  segment.flags &&& flag != 0

end TunnelTCPSegment

structure TunnelTCPEndpoints where
  localAddress : IPv6Address
  remoteAddress : IPv6Address
  localPort : BitVec 16
  remotePort : BitVec 16
deriving DecidableEq

namespace TunnelTCPCodec

/-- The sum of the big-endian 16-bit words of `checksum`, an odd last byte being
the high one. -/
def wordSum : List UInt8 → ℕ
  | [] => 0
  | [high] => high.toNat * 256
  | high :: low :: rest => high.toNat * 256 + low.toNat + wordSum rest

/-- The end-around carries of `checksum`. A packet has at most 65535 bytes, so
two of them are enough. -/
def carryLoop : ℕ → ℕ → ℕ
  | 0, sum => sum
  | fuel + 1, sum =>
    if sum / 65536 = 0 then sum else carryLoop fuel (sum % 65536 + sum / 65536)

def checksum (bytes : List UInt8) : BitVec 16 :=
  ~~~ BitVec.ofNat 16 (carryLoop 16 (wordSum bytes))

def highByte (n : ℕ) : UInt8 := UInt8.ofNat (n / 256)

def lowByte (n : ℕ) : UInt8 := UInt8.ofNat (n % 256)

def add16 (n : BitVec 16) : List UInt8 := [highByte n.toNat, lowByte n.toNat]

def add32 (n : BitVec 32) : List UInt8 :=
  [UInt8.ofNat (n.toNat / 16777216), UInt8.ofNat (n.toNat / 65536 % 256),
    UInt8.ofNat (n.toNat / 256 % 256), UInt8.ofNat (n.toNat % 256)]

def pseudo (source destination : List UInt8) (count : ℕ) : List UInt8 :=
  source ++ destination ++ [0, 0, highByte count, lowByte count, 0, 0, 0, 6]

/-- The TCP part of a packet before its checksum is filled in. -/
def header (segment : TunnelTCPSegment) (sourcePort destinationPort : BitVec 16) : List UInt8 :=
  add16 sourcePort ++ add16 destinationPort ++ add32 segment.sequence ++
    add32 segment.acknowledgement ++
    [if segment.mss.isNone then 0x50 else 0x60, segment.flags] ++ add16 segment.window ++
    [0, 0, 0, 0] ++
    (match segment.mss with
      | none => []
      | some mss => [2, 4] ++ add16 mss)

def encode (segment : TunnelTCPSegment) (endpoints : TunnelTCPEndpoints) (incoming : Bool) :
    List UInt8 :=
  let source :=
    if incoming then endpoints.remoteAddress.rawValue else endpoints.localAddress.rawValue
  let destination :=
    if incoming then endpoints.localAddress.rawValue else endpoints.remoteAddress.rawValue
  let sourcePort := if incoming then endpoints.remotePort else endpoints.localPort
  let destinationPort := if incoming then endpoints.localPort else endpoints.remotePort
  let tcp := header segment sourcePort destinationPort ++ segment.payload
  let check := checksum (pseudo source destination tcp.length ++ tcp)
  let checked := (tcp.set 16 (highByte check.toNat)).set 17 (lowByte check.toNat)
  [0x60, 0, 0, 0, highByte tcp.length, lowByte tcp.length, 6, 64] ++ source ++ destination ++
    checked

/-- The fixed part of a packet is 60 bytes, and the segment size option four more. -/
theorem length_encode (segment : TunnelTCPSegment) (endpoints : TunnelTCPEndpoints)
    (incoming : Bool) :
    (encode segment endpoints incoming).length =
      60 + (if segment.mss.isNone then 0 else 4) + segment.payload.length := by
  have hl := endpoints.localAddress.length_rawValue
  have hr := endpoints.remoteAddress.length_rawValue
  cases hm : segment.mss with
  | none =>
      cases incoming <;>
        simp [encode, header, add16, add32, hm, hl, hr] <;> omega
  | some mss =>
      cases incoming <;>
        simp [encode, header, add16, add32, hm, hl, hr] <;> omega

def byteAt (b : List UInt8) (i : ℕ) : UInt8 := b.getD i 0

theorem byteAt_encode_flags (segment : TunnelTCPSegment) (endpoints : TunnelTCPEndpoints)
    (incoming : Bool) : byteAt (encode segment endpoints incoming) 53 = segment.flags := by
  have hl := endpoints.localAddress.length_rawValue
  have hr := endpoints.remoteAddress.length_rawValue
  cases incoming <;>
    simp [byteAt, encode, header, add16, add32, List.getElem?_append, hl, hr]

def u16 (b : List UInt8) (i : ℕ) : BitVec 16 :=
  (byteAt b i).toBitVec ++ (byteAt b (i + 1)).toBitVec

def u32 (b : List UInt8) (i : ℕ) : BitVec 32 := u16 b i ++ u16 b (i + 2)

/-- The option loop of `decode` up to `stop`. Every turn but the last passes at
least one byte. -/
def options (b : List UInt8) (stop : ℕ) :
    ℕ → ℕ → Option (BitVec 16) → Option (Option (BitVec 16))
  | 0, _, mss => some mss
  | fuel + 1, i, mss =>
    if i < stop then
      let kind := byteAt b i
      if kind = 0 then some mss
      else if kind = 1 then options b stop fuel (i + 1) mss
      else
        let size := (byteAt b (i + 1)).toNat
        if ¬(i + 1 < stop ∧ 2 ≤ size ∧ i + size ≤ stop) then none
        else if kind = 2 then
          if size = 4 ∧ mss = none ∧ 0 < (u16 b (i + 2)).toNat then
            options b stop fuel (i + size) (some (u16 b (i + 2)))
          else none
        else options b stop fuel (i + size) mss
    else some mss

def decode (packet : List UInt8) (endpoints : TunnelTCPEndpoints) (mtu : ℕ) :
    Option TunnelTCPSegment :=
  let b := packet
  if ¬(60 ≤ b.length ∧ b.length ≤ mtu) then none
  else if ¬((byteAt b 0).toNat / 16 = 6 ∧ byteAt b 6 = 6 ∧ byteAt b 7 ≠ 0 ∧
      (u16 b 4).toNat + 40 = b.length ∧
      (b.drop 8).take 16 = endpoints.remoteAddress.rawValue ∧
      (b.drop 24).take 16 = endpoints.localAddress.rawValue ∧
      u16 b 40 = endpoints.remotePort ∧ u16 b 42 = endpoints.localPort) then none
  else
    let header := (byteAt b 52).toNat / 16 * 4
    if ¬(20 ≤ header ∧ header ≤ b.length - 40 ∧ (byteAt b 52).toNat % 16 = 0 ∧
        checksum (pseudo ((b.drop 8).take 16) ((b.drop 24).take 16) (b.length - 40) ++ b.drop 40) =
          0) then none
    else
      (options b (40 + header) header 60 none).map fun mss =>
        { sequence := u32 b 44
          acknowledgement := u32 b 48
          flags := byteAt b 53
          window := u16 b 54
          payload := b.drop (40 + header)
          mss := mss }

/-- A segment size a packet names is not zero. -/
theorem options_pos {b : List UInt8} {stop fuel i : ℕ} {mss : Option (BitVec 16)}
    (hmss : ∀ n, mss = some n → 0 < n.toNat) {found : Option (BitVec 16)}
    (h : options b stop fuel i mss = some found) : ∀ n, found = some n → 0 < n.toNat := by
  induction fuel generalizing i mss with
  | zero =>
      rw [options, Option.some.injEq] at h
      rw [← h]
      exact hmss
  | succ fuel ih =>
      rw [options] at h
      split at h
      · dsimp only at h
        split at h
        · rw [Option.some.injEq] at h
          rw [← h]
          exact hmss
        · split at h
          · exact ih hmss h
          · split at h
            · cases h
            · split at h
              · split at h
                · rename_i hnew
                  refine ih ?_ h
                  intro n hn
                  rw [Option.some.injEq] at hn
                  rw [← hn]
                  exact hnew.2.2
                · cases h
              · exact ih hmss h
      · rw [Option.some.injEq] at h
        rw [← h]
        exact hmss

theorem decode_mss_pos {packet : List UInt8} {endpoints : TunnelTCPEndpoints} {mtu : ℕ}
    {segment : TunnelTCPSegment} (h : decode packet endpoints mtu = some segment) :
    ∀ n, segment.mss = some n → 0 < n.toNat := by
  unfold decode at h
  dsimp only at h
  split at h
  · cases h
  · split at h
    · cases h
    · split at h
      · cases h
      · rw [Option.map_eq_some_iff] at h
        obtain ⟨mss, hmss, rfl⟩ := h
        exact options_pos (fun n hn => by cases hn) hmss

theorem decode_payload_le {packet : List UInt8} {endpoints : TunnelTCPEndpoints} {mtu : ℕ}
    {segment : TunnelTCPSegment} (h : decode packet endpoints mtu = some segment) :
    segment.payload.length + 60 ≤ mtu := by
  unfold decode at h
  dsimp only at h
  split at h
  · cases h
  · rename_i hsize
    split at h
    · cases h
    · split at h
      · cases h
      · rename_i hheader
        rw [Option.map_eq_some_iff] at h
        obtain ⟨mss, hmss, rfl⟩ := h
        rw [not_not] at hsize hheader
        rw [List.length_drop]
        omega

end TunnelTCPCodec

end Tolkara
