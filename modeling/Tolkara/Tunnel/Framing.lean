import Tolkara.Pairing.Wire

/-!
# The tunnel stream

`CDTunnelStream`: the stream of a tunnel changes its format once, from a framed handshake
to IPv6 packets. A chunk may end anywhere in a header or a packet and may hold both
formats. The reading of JSON and of the texts of IPv6 addresses is a parameter.
-/

namespace Tolkara

namespace CDTunnelWire

/-- What the stream uses of Foundation and Network. -/
structure Platform where
  json : List UInt8 → Option JSONValue
  ipv6Address : List UInt8 → Option (List UInt8)
  containsPercent : List UInt8 → Bool

structure CDTunnelConfiguration where
  clientAddress : List UInt8
  serverAddress : List UInt8
  prefixLength : ℕ
  mtu : ℕ
  rsdPort : ℕ
deriving DecidableEq

namespace CDTunnelConfiguration

variable (platform : Platform)

/-- `address`: neither multicast nor zero, loopback or mapped from IPv4. -/
def address (value : Option JSONValue) : Option (List UInt8) := do
  let text ← value.bind (·.string?)
  if platform.containsPercent text then none
  let bytes ← platform.ipv6Address text
  if bytes.length = 16 ∧ bytes.getD 0 0 ≠ 255 ∧ bytes.any (· ≠ 0) ∧
      ¬ ((bytes.take 15).all (· = 0) ∧ bytes.getD 15 0 = 1) ∧
      ¬ ((bytes.take 10).all (· = 0) ∧ bytes.getD 10 0 = 255 ∧ bytes.getD 11 0 = 255) then
    some bytes
  else none

def integer (value : Option JSONValue) : Option ℕ := value.bind (·.natural? (2 ^ 63))

def bits (byte : UInt8) : List Bool :=
  [byte &&& 128 ≠ 0, byte &&& 64 ≠ 0, byte &&& 32 ≠ 0, byte &&& 16 ≠ 0, byte &&& 8 ≠ 0,
    byte &&& 4 ≠ 0, byte &&& 2 ≠ 0, byte &&& 1 ≠ 0]

def maskLoop : List Bool → ℕ → Bool → Except PairingError ℕ
  | [], ones, _ => .ok ones
  | bit :: rest, ones, zeroSeen =>
    if bit then
      if zeroSeen then .error .malformed else maskLoop rest (ones + 1) zeroSeen
    else maskLoop rest ones true

def make (response : List UInt8) (requestedMTU : ℕ) :
    Except PairingError CDTunnelConfiguration := do
  if 16384 < response.length then throw .oversized
  let some object := platform.json response | throw .malformed
  let some root := object.dictionary? | throw .malformed
  let some client := (root.lookup (ascii "clientParameters")).bind (·.dictionary?)
    | throw .malformed
  let some source := address platform (client.lookup (ascii "address")) | throw .malformed
  let some destination := address platform (root.lookup (ascii "serverAddress"))
    | throw .malformed
  if source = destination then throw .malformed
  let some maskText := (client.lookup (ascii "netmask")).bind (·.string?) | throw .malformed
  if platform.containsPercent maskText then throw .malformed
  let some mask := platform.ipv6Address maskText | throw .malformed
  let some mtu := integer (client.lookup (ascii "mtu")) | throw .malformed
  if mtu < 1280 ∨ requestedMTU < mtu then throw .malformed
  let some port := integer (root.lookup (ascii "serverRSDPort")) | throw .malformed
  if port = 0 ∨ 65535 < port then throw .malformed
  let ones ← maskLoop (mask.flatMap bits) 0 false
  if ones = 0 then throw .malformed
  return ⟨source, destination, ones, mtu, port⟩

def validatePacket (c : CDTunnelConfiguration) (packet : List UInt8) (outgoing : Bool) :
    Except PairingError Unit :=
  if packet.length < 40 ∨ c.mtu < packet.length then .error .oversized
  else if packet.getD 0 0 >>> 4 = 6 ∧
      40 + (packet.getD 4 0).toNat * 256 + (packet.getD 5 0).toNat = packet.length ∧
      (packet.drop 8).take 16 = (if outgoing then c.clientAddress else c.serverAddress) ∧
      (packet.drop 24).take 16 = (if outgoing then c.serverAddress else c.clientAddress) then
    .ok ()
  else .error .malformed

def isIncomingEndpoint (c : CDTunnelConfiguration) (packet : List UInt8) : Bool :=
  40 ≤ packet.length && (packet.drop 8).take 16 == c.serverAddress &&
    (packet.drop 24).take 16 == c.clientAddress

end CDTunnelConfiguration

namespace CDTunnelStream

inductive Event where
  | configured (configuration : CDTunnelConfiguration)
  | packet (bytes : List UInt8)
deriving DecidableEq

end CDTunnelStream

/-- `CDTunnelStream`. The requested size is one that `init` accepts. -/
structure CDTunnelStream where
  configuration : Option CDTunnelConfiguration
  handshake : PairingFrameDecoder
  handshakeBytes : ℕ
  packet : List UInt8
  packetLength : Option ℕ
  started : Bool
  failed : Bool
  requestedMTU : ℕ
  requestedMTU_ok : 1280 ≤ requestedMTU ∧ requestedMTU ≤ 16000

namespace CDTunnelStream

variable (platform : Platform)

def init (mtu : ℕ) : Except PairingError CDTunnelStream :=
  if h : 1280 ≤ mtu ∧ mtu ≤ 16000 then
    .ok
      { configuration := none
        handshake := PairingFrameDecoder.init .tunnel
        handshakeBytes := 0
        packet := []
        packetLength := none
        started := false
        failed := false
        requestedMTU := mtu
        requestedMTU_ok := h }
  else .error .oversized

/-- `begin`. The request is the text of a dictionary, which JSON can always write. -/
def start (s : CDTunnelStream) : Except PairingError (CDTunnelStream × List UInt8) :=
  if s.started ∨ s.failed then .error .invalidState
  else do
    let data ← PairingFrameDecoder.encode
      (ascii "\x7b\"mtu\":" ++ ascii (toString s.requestedMTU) ++
        ascii ",\"type\":\"clientHandshakeRequest\"\x7d") .tunnel
    return ({ s with started := true }, data)

def takePacket (c : CDTunnelConfiguration) (s : CDTunnelStream) (byte : UInt8) :
    Except (CDTunnelStream × PairingError) (CDTunnelStream × List Event) :=
  if s.packet = [] ∧ byte >>> 4 ≠ 6 then .error (s, .malformed)
  else
    let packet := s.packet ++ [byte]
    let length := 40 + (packet.getD 4 0).toNat * 256 + (packet.getD 5 0).toNat
    if packet.length = 6 ∧ c.mtu < length then .error ({ s with packet := packet }, .oversized)
    else
      let packetLength := if packet.length = 6 then some length else s.packetLength
      if packetLength = some packet.length then
        if c.isIncomingEndpoint packet then
          match c.validatePacket packet false with
          | .error e => .error ({ s with packet := packet, packetLength := packetLength }, e)
          | .ok () => .ok ({ s with packet := [], packetLength := none }, [.packet packet])
        else .ok ({ s with packet := [], packetLength := none }, [])
      else .ok ({ s with packet := packet, packetLength := packetLength }, [])

def takeHandshake (s : CDTunnelStream) (byte : UInt8) :
    Except (CDTunnelStream × PairingError) (CDTunnelStream × List Event) :=
  let s := { s with handshakeBytes := s.handshakeBytes + 1 }
  if 16394 < s.handshakeBytes then .error (s, .oversized)
  else
    match s.handshake.consume byte with
    | .error (d, e) => .error ({ s with handshake := d }, e)
    | .ok (d, none) => .ok ({ s with handshake := d }, [])
    | .ok (d, some response) =>
      match CDTunnelConfiguration.make platform response s.requestedMTU with
      | .error e => .error ({ s with handshake := d }, e)
      | .ok parsed =>
        .ok ({ s with handshake := d, configuration := some parsed }, [.configured parsed])

def take (s : CDTunnelStream) (byte : UInt8) :
    Except (CDTunnelStream × PairingError) (CDTunnelStream × List Event) :=
  match s.configuration with
  | some c => takePacket c s byte
  | none => takeHandshake platform s byte

/-- `consume`: the new state and what the call returns or throws. -/
def consume (s : CDTunnelStream) (data : List UInt8) :
    CDTunnelStream × Except PairingError (List Event) :=
  if ¬ s.started ∨ s.failed then (s, .error .invalidState)
  else if 65536 < data.length then ({ s with failed := true, packet := [] }, .error .oversized)
  else
    match Chunking.feedAll (take platform) s data with
    | .error (s', e) => ({ s' with failed := true, packet := [] }, .error e)
    | .ok (s', events) => (s', .ok events)

def finish (s : CDTunnelStream) : CDTunnelStream × Except PairingError Unit :=
  if s.started ∧ ¬ s.failed ∧ s.configuration.isSome ∧ s.packet = [] then
    ({ s with failed := true }, .ok ())
  else ({ s with failed := true, packet := [] }, .error .malformed)

/-- What each of some calls of `consume` returns or throws. -/
def consumeAll : CDTunnelStream → List (List UInt8) → List (Except PairingError (List Event))
  | _, [] => []
  | s, chunk :: rest => (consume platform s chunk).2 :: consumeAll (consume platform s chunk).1 rest

inductive Call where
  | start
  | consume (data : List UInt8)
  | finish

/-- The stream after a call, whether it returns or throws. -/
def call (s : CDTunnelStream) : Call → CDTunnelStream
  | .start =>
    match s.start with
    | .error _ => s
    | .ok (s', _) => s'
  | .consume data => (consume platform s data).1
  | .finish => s.finish.1

end CDTunnelStream

/-- A packet of IPv6 whose length field is right. -/
structure IPv6Packet (mtu : ℕ) where
  bytes : List UInt8
  version : bytes.getD 0 0 >>> 4 = 6
  length_eq : bytes.length = 40 + (bytes.getD 4 0).toNat * 256 + (bytes.getD 5 0).toNat
  length_le : bytes.length ≤ mtu

namespace IPv6Packet

variable {mtu : ℕ}

def source (p : IPv6Packet mtu) : List UInt8 := (p.bytes.drop 8).take 16

def destination (p : IPv6Packet mtu) : List UInt8 := (p.bytes.drop 24).take 16

theorem length_ge (p : IPv6Packet mtu) : 40 ≤ p.bytes.length := by
  have h := p.length_eq
  omega

end IPv6Packet

namespace CDTunnelConfiguration

variable {platform : Platform}

theorem make_length {response : List UInt8} {mtu : ℕ} {c : CDTunnelConfiguration}
    (h : make platform response mtu = .ok c) : response.length ≤ 16384 := by
  by_contra hlong
  rw [make, if_pos (by omega)] at h
  cases h

end CDTunnelConfiguration

namespace CDTunnelStream

open Chunking

variable {platform : Platform} {s : CDTunnelStream} {c : CDTunnelConfiguration}

/-- The stream after the first bytes of the handshake. -/
def shaking (s : CDTunnelStream) (response : List UInt8) (n : ℕ) : CDTunnelStream :=
  { s with
    handshake := PairingFrameDecoder.reading .tunnel response n
    handshakeBytes := n }

/-- The stream after the handshake and between two packets. -/
def shaken (s : CDTunnelStream) (c : CDTunnelConfiguration) (n : ℕ) : CDTunnelStream :=
  { s with
    configuration := some c
    handshake := PairingFrameDecoder.init .tunnel
    handshakeBytes := n }

theorem feedAll_handshake {response frame : List UInt8} (hnew : s.configuration = none)
    (hdecoder : s.handshake = PairingFrameDecoder.init .tunnel) (hcount : s.handshakeBytes = 0)
    (hframe : PairingFrameDecoder.encode response .tunnel = .ok frame)
    (hmake : CDTunnelConfiguration.make platform response s.requestedMTU = .ok c) :
    feedAll (take platform) s frame = .ok (s.shaken c frame.length, [.configured c]) := by
  obtain ⟨hpos, hlimit, rfl⟩ := PairingFrameDecoder.encode_ok hframe
  have hresponse := CDTunnelConfiguration.make_length hmake
  have hheader : (PairingFrameDecoder.headerOf .tunnel response).length = 10 :=
    PairingFrameDecoder.length_headerOf .tunnel response
  have hlength : (PairingFrameDecoder.headerOf .tunnel response ++ response).length ≤ 16394 := by
    rw [List.length_append]
    omega
  have hzero : s.shaking response 0 = s := by
    rw [shaking, PairingFrameDecoder.reading_zero, ← hdecoder, ← hcount]
  have hne : PairingFrameDecoder.headerOf .tunnel response ++ response ≠ [] := by
    simp [hpos]
  rw [← hzero]
  refine feedAll_states (s.shaking response) hne ?_ ?_
  · intro n hn hmore
    have hdecode := PairingFrameDecoder.consume_more hpos hlimit hn hmore
    have hroom : ¬ 16394 < n + 1 := by omega
    simp only [take, shaking, hnew, takeHandshake, if_neg hroom, hdecode]
  · intro n hn hend
    have hdecode := PairingFrameDecoder.consume_last hpos hn hend
    have hroom : ¬ 16394 < n + 1 := by omega
    simp only [take, shaking, hnew, takeHandshake, if_neg hroom, hdecode, hmake]
    rw [hend]
    rfl

def carrying (s : CDTunnelStream) {mtu : ℕ} (p : IPv6Packet mtu) (n : ℕ) : CDTunnelStream :=
  { s with
    packet := p.bytes.take n
    packetLength := if 6 ≤ n then some p.bytes.length else none }

def arrival (c : CDTunnelConfiguration) (p : IPv6Packet c.mtu) : List Event :=
  if p.source = c.serverAddress ∧ p.destination = c.clientAddress then [.packet p.bytes] else []

theorem takePacket_carrying (p : IPv6Packet c.mtu) {n : ℕ} (hn : n < p.bytes.length) :
    takePacket c (s.carrying p n) p.bytes[n] =
      if n + 1 = p.bytes.length then
        .ok ({ s with packet := [], packetLength := none }, arrival c p)
      else .ok (s.carrying p (n + 1), []) := by
  have hlength := p.length_eq
  have hmtu := p.length_le
  have hgrown : p.bytes.take n ++ [p.bytes[n]] = p.bytes.take (n + 1) :=
    List.take_append_getElem hn
  have hcount : (p.bytes.take (n + 1)).length = n + 1 := by
    rw [List.length_take]
    omega
  have hversion : ¬ (p.bytes.take n = [] ∧ p.bytes[n] >>> 4 ≠ 6) := by
    rintro ⟨hempty, hother⟩
    have hzero : n = 0 := by
      rcases List.take_eq_nil_iff.mp hempty with hzero | hnil
      · exact hzero
      · rw [hnil] at hn
        exact absurd hn (by simp)
    subst hzero
    have hfirst := p.version
    rw [List.getD_eq_getElem?_getD, List.getElem?_eq_getElem hn] at hfirst
    exact hother hfirst
  have hfield : ∀ i < n + 1, (p.bytes.take (n + 1)).getD i 0 = p.bytes.getD i 0 := by
    intro i hi
    simp only [List.getD_eq_getElem?_getD, List.getElem?_take_of_lt hi]
  have hroom : ¬ (n + 1 = 6 ∧ c.mtu < 40 + ((p.bytes.take (n + 1)).getD 4 0).toNat * 256 +
      ((p.bytes.take (n + 1)).getD 5 0).toNat) := by
    rintro ⟨hsix, hover⟩
    rw [hfield 4 (by omega), hfield 5 (by omega)] at hover
    omega
  have hknown : (if n + 1 = 6 then some (40 + ((p.bytes.take (n + 1)).getD 4 0).toNat * 256 +
      ((p.bytes.take (n + 1)).getD 5 0).toNat) else if 6 ≤ n then some p.bytes.length else none) =
      if 6 ≤ n + 1 then some p.bytes.length else none := by
    by_cases hsix : n + 1 = 6
    · rw [if_pos hsix, if_pos hsix.ge, hfield 4 (by omega), hfield 5 (by omega), hlength]
    · rw [if_neg hsix]
      by_cases hlater : 6 ≤ n
      · rw [if_pos hlater, if_pos (by omega)]
      · rw [if_neg hlater, if_neg (by omega)]
  unfold takePacket
  simp only [carrying, hgrown, hcount, if_neg hversion, if_neg hroom, hknown]
  by_cases hend : n + 1 = p.bytes.length
  · have hwhole : p.bytes.take (n + 1) = p.bytes := by rw [hend, List.take_length]
    rw [if_pos (by omega : 6 ≤ n + 1), if_pos (by rw [hend]), if_pos hend, hwhole]
    unfold arrival
    by_cases hours : p.source = c.serverAddress ∧ p.destination = c.clientAddress
    · have hincoming : c.isIncomingEndpoint p.bytes = true := by
        have hge := p.length_ge
        simpa [CDTunnelConfiguration.isIncomingEndpoint, hge, IPv6Packet.source,
          IPv6Packet.destination] using hours
      have hvalid : c.validatePacket p.bytes false = .ok () := by
        rw [CDTunnelConfiguration.validatePacket, if_neg (by omega),
          if_pos ⟨p.version, hlength.symm, hours.1, hours.2⟩]
      rw [if_pos hincoming, if_pos hours]
      simp only [hvalid]
    · have hforeign : ¬ c.isIncomingEndpoint p.bytes = true := by
        intro hincoming
        refine hours ?_
        simp only [CDTunnelConfiguration.isIncomingEndpoint, Bool.and_eq_true, beq_iff_eq]
          at hincoming
        exact ⟨hincoming.1.2, hincoming.2⟩
      rw [if_neg hforeign, if_neg hours]
  · have hmid : ¬ (if 6 ≤ n + 1 then some p.bytes.length else none) = some (n + 1) := by
      intro hwhole
      split at hwhole
      · exact hend (Option.some.inj hwhole).symm
      · cases hwhole
    rw [if_neg hmid, if_neg hend]

/-- A packet is delivered or skipped, and the stream is again between packets. -/
theorem feedAll_packet (hconfigured : s.configuration = some c) (hnone : s.packet = [])
    (hlength : s.packetLength = none) (p : IPv6Packet c.mtu) :
    feedAll (take platform) s p.bytes = .ok (s, arrival c p) := by
  have hge := p.length_ge
  have hne : p.bytes ≠ [] := by
    rw [← List.length_pos_iff_ne_nil]
    omega
  have hzero : s.carrying p 0 = s := by
    simp [carrying, ← hnone, ← hlength]
  have hback : ({ s with packet := [], packetLength := none } : CDTunnelStream) = s := by
    rw [← hnone, ← hlength]
  have htake : ∀ n (hn : n < p.bytes.length),
      take platform (s.carrying p n) p.bytes[n] = takePacket c (s.carrying p n) p.bytes[n] := by
    intro n hn
    simp only [take, carrying, hconfigured]
  rw [← hzero]
  refine feedAll_states (s.carrying p) hne ?_ ?_
  · intro n hn hmore
    rw [htake n hn, takePacket_carrying p hn, if_neg (by omega)]
  · intro n hn hend
    rw [htake n hn, takePacket_carrying p hn, if_pos hend, hback, hzero]

theorem feedAll_packets (hconfigured : s.configuration = some c) (hnone : s.packet = [])
    (hlength : s.packetLength = none) (packets : List (IPv6Packet c.mtu)) :
    feedAll (take platform) s (packets.flatMap IPv6Packet.bytes) =
      .ok (s, packets.flatMap (arrival c)) := by
  induction packets with
  | nil => rfl
  | cons p packets ih =>
      rw [List.flatMap_cons, List.flatMap_cons]
      exact feedAll_append_ok (feedAll_packet hconfigured hnone hlength p) ih

theorem take_kept {s' : CDTunnelStream} {byte : UInt8} {events : List Event}
    (h : take platform s byte = .ok (s', events)) :
    s'.started = s.started ∧ s'.failed = s.failed := by
  unfold take at h
  split at h
  · unfold takePacket at h
    dsimp only at h
    split at h
    · cases h
    · split at h
      · cases h
      · generalize (if (s.packet ++ [byte]).length = 6 then _ else s.packetLength) = length at h
        split_ifs at h
        · split at h
          · cases h
          · cases h
            exact ⟨rfl, rfl⟩
        · cases h
          exact ⟨rfl, rfl⟩
        · cases h
          exact ⟨rfl, rfl⟩
  · unfold takeHandshake at h
    dsimp only at h
    split_ifs at h
    split at h
    · cases h
    · cases h
      exact ⟨rfl, rfl⟩
    · split at h
      · cases h
      · cases h
        exact ⟨rfl, rfl⟩

/-- Bytes that are taken do not end the stream. -/
theorem feedAll_kept {s' : CDTunnelStream} {data : List UInt8} {events : List Event}
    (h : feedAll (take platform) s data = .ok (s', events)) :
    s'.started = s.started ∧ s'.failed = s.failed := by
  induction data generalizing s events with
  | nil =>
      cases h
      exact ⟨rfl, rfl⟩
  | cons byte data ih =>
      obtain ⟨t, out, out', hbyte, hdata, rfl⟩ := feedAll_cons_inv h
      have hfirst := take_kept hbyte
      have hrest := ih hdata
      exact ⟨hrest.1.trans hfirst.1, hrest.2.trans hfirst.2⟩

/-- Chunks whose bytes are taken are taken one by one, with the same events. -/
theorem consumeAll_of_feedAll {chunks : List (List UInt8)} {s' : CDTunnelStream}
    {events : List Event} (hstarted : s.started = true) (hrunning : s.failed = false)
    (hsmall : ∀ chunk ∈ chunks, chunk.length ≤ 65536)
    (h : feedAll (take platform) s chunks.flatten = .ok (s', events)) :
    ∃ outs : List (List Event),
      consumeAll platform s chunks = outs.map .ok ∧ outs.flatten = events := by
  induction chunks generalizing s events with
  | nil =>
      cases h
      exact ⟨[], rfl, rfl⟩
  | cons chunk chunks ih =>
      rw [List.flatten_cons] at h
      obtain ⟨t, out, out', hchunk, hrest, rfl⟩ := feedAll_append_inv h
      have hconsume : consume platform s chunk = (t, .ok out) := by
        have hsize := hsmall chunk List.mem_cons_self
        rw [consume, if_neg (by simp [hstarted, hrunning]), if_neg (by omega), hchunk]
      obtain ⟨ht, ht'⟩ := feedAll_kept hchunk
      obtain ⟨outs, houts, hflat⟩ := ih (ht.trans hstarted) (ht'.trans hrunning)
        (fun x hx => hsmall x (List.mem_cons_of_mem _ hx)) hrest
      refine ⟨out :: outs, ?_, ?_⟩
      · rw [consumeAll, hconsume, List.map_cons, houts]
      · rw [List.flatten_cons, hflat]

/-- A failed stream stays failed, whatever is called. -/
theorem call_failed (h : s.failed = true) (x : Call) : (call platform s x).failed = true := by
  cases x with
  | start => simp [call, start, h]
  | consume data => simp [call, consume, h]
  | finish => simp [call, finish, h]

theorem calls_failed (h : s.failed = true) (xs : List Call) :
    (xs.foldl (call platform) s).failed = true := by
  induction xs generalizing s with
  | nil => exact h
  | cons x xs ih => exact ih (call_failed h x)

/-- A call that throws after `begin` ends the stream. -/
theorem failed_of_throw {s' : CDTunnelStream} {data : List UInt8} {e : PairingError}
    (hstarted : s.started = true) (h : consume platform s data = (s', .error e)) :
    s'.failed = true := by
  unfold consume at h
  split_ifs at h with hstate hsize
  · cases h
    rcases hstate with hstate | hstate
    · exact absurd hstarted hstate
    · exact hstate
  · cases h
    rfl
  · split at h
    · cases h
      rfl
    · cases h

theorem filter_arrival (packets : List (IPv6Packet c.mtu)) :
    packets.flatMap (arrival c) = (packets.filter fun p =>
      p.source = c.serverAddress ∧ p.destination = c.clientAddress).map (.packet ·.bytes) := by
  induction packets with
  | nil => rfl
  | cons p packets ih =>
      rw [List.flatMap_cons, ih, List.filter_cons, arrival]
      by_cases hours : p.source = c.serverAddress ∧ p.destination = c.clientAddress
      · simp [hours]
      · rw [if_neg hours, if_neg (by simpa using hours), List.nil_append]

theorem start_fresh {mtu : ℕ} {s₀ : CDTunnelStream} {request : List UInt8}
    (hinit : init mtu = .ok s₀) (hstart : s₀.start = .ok (s, request)) :
    s.configuration = none ∧ s.handshake = PairingFrameDecoder.init .tunnel ∧
      s.handshakeBytes = 0 ∧ s.packet = [] ∧ s.packetLength = none ∧ s.started = true ∧
      s.failed = false ∧ s.requestedMTU = mtu := by
  unfold init at hinit
  split_ifs at hinit
  cases hinit
  rw [start, if_neg (by simp)] at hstart
  obtain ⟨data, hdata, hreturn⟩ := ok_of_bind hstart
  cases hreturn
  exact ⟨rfl, rfl, rfl, rfl, rfl, rfl, rfl, rfl⟩

/-- **The framing of a tunnel.** The frame of an accepted response and then packets, cut
in any way, give the configuration and then the packets for this end, in order; and a
stream on which a call has thrown after `begin` gives no event any more. -/
theorem framing_of_chunks {mtu : ℕ} {s₀ : CDTunnelStream} {request response frame : List UInt8}
    {chunks : List (List UInt8)} (hinit : init mtu = .ok s₀)
    (hstart : s₀.start = .ok (s, request))
    (hframe : PairingFrameDecoder.encode response .tunnel = .ok frame)
    (hmake : CDTunnelConfiguration.make platform response mtu = .ok c)
    (packets : List (IPv6Packet c.mtu))
    (hcut : chunks.flatten = frame ++ packets.flatMap IPv6Packet.bytes)
    (hsmall : ∀ chunk ∈ chunks, chunk.length ≤ 65536) :
    (∃ outs : List (List Event), consumeAll platform s chunks = outs.map .ok ∧
      outs.flatten = .configured c :: (packets.filter fun p =>
        p.source = c.serverAddress ∧ p.destination = c.clientAddress).map (.packet ·.bytes)) ∧
    ∀ (t t' : CDTunnelStream) (data : List UInt8) (e : PairingError), t.started = true →
      consume platform t data = (t', .error e) →
      ∀ (xs : List Call) (later : List UInt8),
        ∃ e', (consume platform (xs.foldl (call platform) t') later).2 = .error e' := by
  obtain ⟨hnew, hdecoder, hcount, hnone, hlength, hstarted, hrunning, rfl⟩ :=
    start_fresh hinit hstart
  constructor
  · have hhandshake := feedAll_handshake hnew hdecoder hcount hframe hmake
    have hbetween : (s.shaken c frame.length).packet = [] ∧
        (s.shaken c frame.length).packetLength = none := ⟨hnone, hlength⟩
    have hall := feedAll_append_ok hhandshake
      (feedAll_packets rfl hbetween.1 hbetween.2 packets)
    rw [← hcut] at hall
    obtain ⟨outs, houts, hflat⟩ := consumeAll_of_feedAll hstarted hrunning hsmall hall
    refine ⟨outs, houts, ?_⟩
    rw [hflat, filter_arrival]
    rfl
  · intro t t' data e ht hthrow xs later
    have hfailed : (xs.foldl (call platform) t').failed = true :=
      calls_failed (failed_of_throw ht hthrow) xs
    exact ⟨.invalidState, by simp [consume, hfailed]⟩

def localAddress (n : UInt8) : List UInt8 := 0xfd :: List.replicate 14 0 ++ [n]

/-- A response of a device that offers a tunnel. -/
def responseText : List UInt8 :=
  ascii "\x7b\"clientParameters\":\x7b\"address\":\"fd00::2\",\"mtu\":1280,\"netmask\":\"ffff::\"\x7d," ++
    ascii "\"serverAddress\":\"fd00::1\",\"serverRSDPort\":1000\x7d"

def responsePlatform : Platform :=
  { json := fun text =>
      if text = responseText then
        some (.dictionary
          [(ascii "clientParameters", .dictionary
            [(ascii "address", .string (ascii "fd00::2")),
              (ascii "mtu", .number (ascii "1280") false),
              (ascii "netmask", .string (ascii "ffff::"))]),
            (ascii "serverAddress", .string (ascii "fd00::1")),
            (ascii "serverRSDPort", .number (ascii "1000") false)])
      else none
    ipv6Address := fun text =>
      if text = ascii "fd00::1" then some (localAddress 1)
      else if text = ascii "fd00::2" then some (localAddress 2)
      else if text = ascii "ffff::" then some ([255, 255] ++ List.replicate 14 0)
      else none
    containsPercent := fun text => text.contains 37 }

def responseConfiguration : CDTunnelConfiguration :=
  ⟨localAddress 2, localAddress 1, 16, 1280, 1000⟩

def emptyPacket (source destination : UInt8) : IPv6Packet responseConfiguration.mtu :=
  { bytes := [0x60, 0, 0, 0, 0, 0, 59, 64] ++ localAddress source ++ localAddress destination
    version := by
      simp only [List.cons_append, List.getD_cons_zero]
      decide
    length_eq := by simp [localAddress]
    length_le := by simp [localAddress, responseConfiguration] }

def begun (mtu : ℕ) (h : 1280 ≤ mtu ∧ mtu ≤ 16000) : CDTunnelStream :=
  { configuration := none
    handshake := PairingFrameDecoder.init .tunnel
    handshakeBytes := 0
    packet := []
    packetLength := none
    started := true
    failed := false
    requestedMTU := mtu
    requestedMTU_ok := h }

/-- A response and two packets, of which one is for another address, cut in the middle of
the header and of the first packet. -/
theorem framing_of_chunks_fixture :
    ∃ outs : List (List Event), consumeAll responsePlatform (begun 1280 (by omega))
        [(PairingFrameDecoder.headerOf .tunnel responseText).take 3,
          (PairingFrameDecoder.headerOf .tunnel responseText).drop 3 ++ responseText ++
            (emptyPacket 1 3).bytes.take 20,
          (emptyPacket 1 3).bytes.drop 20 ++ (emptyPacket 1 2).bytes] = outs.map .ok ∧
      outs.flatten = [.configured responseConfiguration, .packet (emptyPacket 1 2).bytes] := by
  have hinit : init 1280 = .ok { begun 1280 (by omega) with started := false } := rfl
  have hstart : CDTunnelStream.start { begun 1280 (by omega) with started := false } =
      .ok (begun 1280 (by omega), _) := rfl
  have hframe : PairingFrameDecoder.encode responseText .tunnel =
      .ok (PairingFrameDecoder.headerOf .tunnel responseText ++ responseText) := by
    decide +kernel
  have hmake : CDTunnelConfiguration.make responsePlatform responseText 1280 =
      .ok responseConfiguration := by
    decide +kernel
  exact (framing_of_chunks hinit hstart hframe hmake [emptyPacket 1 3, emptyPacket 1 2]
    (by decide +kernel) (by decide +kernel)).1

/-- A call before `begin` throws and does not end the stream. -/
theorem throw_before_start :
    ¬ ∀ (t t' : CDTunnelStream) (data : List UInt8) (e : PairingError),
      consume responsePlatform t data = (t', .error e) →
      ∀ (xs : List Call) (later : List UInt8),
        ∃ e', (consume responsePlatform (xs.foldl (call responsePlatform) t') later).2 =
          .error e' := by
  intro hall
  obtain ⟨e', he'⟩ := hall { begun 1280 (by omega) with started := false } _ [] .invalidState rfl
    [.start] []
  have hok : (consume responsePlatform (begun 1280 (by omega)) []).2 = .ok [] := rfl
  have hstart : [Call.start].foldl (call responsePlatform)
      { begun 1280 (by omega) with started := false } = begun 1280 (by omega) := rfl
  rw [hstart, hok] at he'
  cases he'

end CDTunnelStream

end CDTunnelWire

end Tolkara
