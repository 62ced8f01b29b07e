import Tolkara.Tunnel.RoundTrip

/-!
# The private IPv4 link

`LocalTCPIPv4`: the TCP part of a packet moves between the IPv4 link of the packet
provider and the IPv6 packets of the stream. Its checksum is taken over the other
pseudo-header each time.
-/

namespace Tolkara

open TunnelTCPCodec

structure LocalTCPIPv4 where
  endpoints : TunnelTCPEndpoints
deriving DecidableEq

namespace LocalTCPIPv4

def client : List UInt8 := [10, 7, 0, 1]

def device : List UInt8 := [10, 7, 0, 2]

def init (clientPort servicePort : BitVec 16) : LocalTCPIPv4 :=
  ⟨{ localAddress := ⟨[0xfd, 0, 0, 0, 0, 0, 0, 0, 0, 0, 0, 0, 0, 0, 0, 1], rfl⟩
     remoteAddress := ⟨[0xfd, 0, 0, 0, 0, 0, 0, 0, 0, 0, 0, 0, 0, 0, 0, 2], rfl⟩
     localPort := clientPort
     remotePort := servicePort }⟩

def pseudo (source destination : List UInt8) (count : ℕ) : List UInt8 :=
  source ++ destination ++ [0, 6, highByte count, lowByte count]

def headerLength (b : List UInt8) : ℕ := (byteAt b 0).toNat % 16 * 4

def matched (link : LocalTCPIPv4) (b : List UInt8) : Bool :=
  if ¬(40 ≤ b.length ∧ (byteAt b 0).toNat / 16 = 4 ∧ byteAt b 9 = 6 ∧
      (b.drop 12).take 4 = device ∧ (b.drop 16).take 4 = client) then false
  else
    let h := headerLength b
    if ¬(20 ≤ h ∧ h + 20 ≤ b.length) then false
    else u16 b h = link.endpoints.remotePort ∧ u16 b (h + 2) = link.endpoints.localPort

def incoming (link : LocalTCPIPv4) (data : List UInt8) : Option (List UInt8) :=
  if ¬(link.matched data = true ∧ data.length ≤ 1500) then none
  else
    let h := headerLength data
    if ¬((u16 data 2).toNat = data.length ∧ 0 < (byteAt data 8).toNat ∧
        byteAt data 6 &&& 0xbf = 0 ∧ byteAt data 7 = 0 ∧ checksum (data.take h) = 0) then none
    else
      let tcp := data.drop h
      if checksum (pseudo device client tcp.length ++ tcp) ≠ 0 then none
      else
        let tcp := (tcp.set 16 0).set 17 0
        let source := link.endpoints.remoteAddress.rawValue
        let destination := link.endpoints.localAddress.rawValue
        let front := source ++ destination ++
          [0, 0, highByte tcp.length, lowByte tcp.length, 0, 0, 0, 6]
        let sum := checksum (front ++ tcp)
        let tcp := (tcp.set 16 (highByte sum.toNat)).set 17 (lowByte sum.toNat)
        some ([0x60, 0, 0, 0, highByte tcp.length, lowByte tcp.length, 6, 64] ++ source ++
          destination ++ tcp)

/-- The endpoints as the device sees them. -/
def reverse (link : LocalTCPIPv4) : TunnelTCPEndpoints :=
  { localAddress := link.endpoints.remoteAddress
    remoteAddress := link.endpoints.localAddress
    localPort := link.endpoints.remotePort
    remotePort := link.endpoints.localPort }

def outgoing (link : LocalTCPIPv4) (data : List UInt8) : Option (List UInt8) :=
  if ¬(60 ≤ data.length ∧ data.length ≤ 1500) then none
  else
    match TunnelTCPCodec.decode data link.reverse 1500 with
    | none => none
    | some _ =>
      let tcp := data.drop 40
      let tcp := (tcp.set 16 0).set 17 0
      let sum := checksum (pseudo client device tcp.length ++ tcp)
      let tcp := (tcp.set 16 (highByte sum.toNat)).set 17 (lowByte sum.toNat)
      let size := tcp.length + 20
      let header := [0x45, 0, highByte size, lowByte size, 0, 0, 0x40, 0, 64, 6, 0, 0] ++ client ++
        device
      let ipSum := checksum header
      let header := (header.set 10 (highByte ipSum.toNat)).set 11 (lowByte ipSum.toNat)
      some (header ++ tcp)

/-! ## Incoming packets -/

/-- The TCP part of an IPv4 packet. -/
def transport (data : List UInt8) : List UInt8 := data.drop (headerLength data)

theorem u16_drop (b : List UInt8) (h i : ℕ) : u16 (b.drop h) i = u16 b (h + i) := by
  simp only [u16, byteAt, List.getD_eq_getElem?_getD, List.getElem?_drop, Nat.add_assoc]

/-- A packet of the flow has a header with no more than the fixed part of TCP behind it,
and the ports of the link. -/
theorem matched_flow {link : LocalTCPIPv4} {b : List UInt8} (h : link.matched b = true) :
    headerLength b + 20 ≤ b.length ∧ u16 (transport b) 0 = link.endpoints.remotePort ∧
      u16 (transport b) 2 = link.endpoints.localPort := by
  rw [transport, u16_drop, u16_drop]
  rw [matched] at h
  dsimp only at h
  split at h
  · cases h
  · split at h
    · cases h
    · rename_i hheader
      exact ⟨(not_not.1 hheader).2, of_decide_eq_true h⟩

/-- An accepted packet of the flow is rewritten for the stream: the same TCP part, with
its checksum over the addresses of the stream. -/
theorem incoming_eq {link : LocalTCPIPv4} {data result : List UInt8}
    (h : link.incoming data = some result) :
    20 ≤ (transport data).length ∧ u16 (transport data) 0 = link.endpoints.remotePort ∧
      u16 (transport data) 2 = link.endpoints.localPort ∧
      result = ipv6 link.endpoints.remoteAddress.rawValue link.endpoints.localAddress.rawValue
        (fill 16 (transport data) (checksum (TunnelTCPCodec.pseudo
          link.endpoints.remoteAddress.rawValue link.endpoints.localAddress.rawValue
          (transport data).length ++ blank 16 (transport data)))) := by
  rw [incoming] at h
  dsimp only at h
  split_ifs at h with hmatched hheader hchecksum
  obtain ⟨hlength, hports⟩ := matched_flow hmatched.1
  have htransport : 20 ≤ (transport data).length := by
    rw [transport, List.length_drop]
    omega
  have hresult : result =
      ipv6 link.endpoints.remoteAddress.rawValue link.endpoints.localAddress.rawValue
        (fill 16 (blank 16 (transport data)) (checksum (TunnelTCPCodec.pseudo
          link.endpoints.remoteAddress.rawValue link.endpoints.localAddress.rawValue
          (blank 16 (transport data)).length ++ blank 16 (transport data)))) :=
    (Option.some.inj h).symm
  refine ⟨htransport, hports.1, hports.2, ?_⟩
  rw [hresult, fill_blank, length_blank]

/-- An accepted packet whose TCP part is well formed is decoded to the fields of that part. -/
theorem decode_incoming {link : LocalTCPIPv4} {data result : List UInt8}
    {mss : Option (BitVec 16)} (h : link.incoming data = some result)
    (hlength : (transport data).length ≤ 1460) (hw : WellFormed (transport data) mss) :
    TunnelTCPCodec.decode result link.endpoints 1500 = some (segmentOf (transport data) mss) ∧
      Alike (transport data) (result.drop 40) := by
  obtain ⟨-, hsource, hdestination, rfl⟩ := incoming_eq h
  refine ⟨decode_sealed hw (by omega) (by omega) hsource hdestination, ?_⟩
  rw [drop_ipv6 link.endpoints.remoteAddress.length_rawValue
    link.endpoints.localAddress.length_rawValue]
  exact alike_fill _ _

/-! ## Outgoing packets -/

/-- What leaves on the IPv4 link: an IPv4 packet from the client to the device whose
header and TCP part carry their checksums. -/
structure Carries (tcp result : List UInt8) : Prop where
  length : result.length = 20 + tcp.length
  version : (byteAt result 0).toNat / 16 = 4
  header : headerLength result = 20
  size : (u16 result 2).toNat = result.length
  whole : byteAt result 6 &&& 0xbf = 0 ∧ byteAt result 7 = 0
  hops : byteAt result 8 ≠ 0
  protocol : byteAt result 9 = 6
  source : (result.drop 12).take 4 = client
  destination : (result.drop 16).take 4 = device
  header_checked : Checked (result.take 20)
  transport_checked :
    Checked (pseudo client device (result.drop 20).length ++ result.drop 20)
  transport : Alike tcp (result.drop 20)

/-- The IPv4 header of a packet of so many bytes, with its checksum not yet filled in. -/
def ipv4Header (size : ℕ) : List UInt8 :=
  [0x45, 0, highByte size, lowByte size, 0, 0, 0x40, 0, 64, 6, 0, 0] ++ client ++ device

def ipv4 (tcp : List UInt8) : List UInt8 :=
  fill 10 (ipv4Header (tcp.length + 20)) (checksum (ipv4Header (tcp.length + 20))) ++ tcp

theorem length_header (tcp : List UInt8) :
    (fill 10 (ipv4Header (tcp.length + 20)) (checksum (ipv4Header (tcp.length + 20)))).length =
      20 := by
  rw [length_fill]
  rfl

theorem drop_ipv4 (tcp : List UInt8) : (ipv4 tcp).drop 20 = tcp :=
  List.drop_left' (length_header tcp)

theorem length_ipv4 (tcp : List UInt8) : (ipv4 tcp).length = 20 + tcp.length := by
  rw [ipv4, List.length_append, length_header]

theorem header_checked (tcp : List UInt8) : Checked ((ipv4 tcp).take 20) := by
  have hmem : (0x45 : UInt8) ∈ ipv4Header (tcp.length + 20) := List.mem_cons_self
  have hlength : (ipv4Header (tcp.length + 20)).length = 20 := rfl
  have hchecked : Checked ([] ++ fill 10 (ipv4Header (tcp.length + 20))
      (checksum ([] ++ blank 10 (ipv4Header (tcp.length + 20))))) :=
    checked_fill rfl rfl (by rw [hlength]; decide) (by rw [List.nil_append, hlength]; decide)
      (wordSum_pos hmem (by decide))
  rw [ipv4, List.take_left' (length_header tcp)]
  exact hchecked

theorem carries_ipv4 {tcp : List UInt8} (hfixed : 20 ≤ tcp.length) (hlength : tcp.length ≤ 65515) :
    Carries tcp (ipv4 (fill 16 tcp
      (checksum (pseudo client device tcp.length ++ blank 16 tcp)))) := by
  set sent := fill 16 tcp (checksum (pseudo client device tcp.length ++ blank 16 tcp)) with hsent
  have hlong : sent.length = tcp.length := length_fill _ _ _
  have hprotocol : (6 : UInt8) ∈ pseudo client device tcp.length := by
    simp [pseudo]
  have hfront : (pseudo client device tcp.length).length = 12 := rfl
  refine ⟨?_, ?_, ?_, ?_, ⟨?_, rfl⟩, ?_, rfl, rfl, rfl, header_checked sent, ?_, ?_⟩
  · rw [length_ipv4, hlong]
  · change (0x45 : UInt8).toNat / 16 = 4
    decide
  · change (0x45 : UInt8).toNat % 16 * 4 = 20
    decide
  · rw [length_ipv4, hlong, Nat.add_comm]
    refine (toNat_bytes _ _).trans ((toNat_word ?_).trans ?_)
    · omega
    · rw [hlong]
  · change (0x40 : UInt8) &&& 0xbf = 0
    decide
  · change (64 : UInt8) ≠ 0
    decide
  · rw [drop_ipv4, hlong]
    exact checked_tcp (by rw [hfront]) hprotocol (by decide) hfixed
      (by rw [List.length_append, hfront]; omega)
  · rw [drop_ipv4]
    exact alike_fill _ _

/-- A packet the device's side of the stream accepts goes out on the link. -/
theorem outgoing_carries {link : LocalTCPIPv4} {data : List UInt8} {segment : TunnelTCPSegment}
    (h : TunnelTCPCodec.decode data link.reverse 1500 = some segment) (hlow : 60 ≤ data.length)
    (hhigh : data.length ≤ 1500) :
    ∃ result, link.outgoing data = some result ∧ Carries (data.drop 40) result := by
  have htcp : (data.drop 40).length = data.length - 40 := List.length_drop
  refine ⟨_, ?_, carries_ipv4 (by omega) (by omega)⟩
  rw [outgoing, if_neg (not_not.2 ⟨hlow, hhigh⟩), h]
  dsimp only
  rw [← fill_blank, ← length_blank 16 (data.drop 40)]
  rfl

end LocalTCPIPv4

end Tolkara
