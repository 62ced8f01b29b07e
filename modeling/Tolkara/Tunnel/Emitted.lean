import Tolkara.Tunnel.LocalTCPIPv4
import Tolkara.Tunnel.Sending

/-!
# The stream on the IPv4 link

Every packet the stream emits is the encoding of a segment that names no segment size or
one that is not zero, and it fits the link. So it is accepted, translated and checked on
its way out.
-/

namespace Tolkara

namespace TunnelTCP

open TunnelTCPSegment (fin syn rst psh)

variable {T : Type} {s s' : TunnelTCP T}

/-- The packet of an event encodes a segment that its receiver can decode. -/
def Event.Proper (endpoints : TunnelTCPEndpoints) : Event → Prop
  | .packet bytes => ∃ seg : TunnelTCPSegment,
      bytes = TunnelTCPCodec.encode seg endpoints false ∧ seg.mss ≠ some 0
  | _ => True

/-- A segment in flight names no segment size, or one that is not zero. -/
def Named (s : TunnelTCP T) : Prop := ∀ p, s.pending = some p → p.mss ≠ some 0

/-- A step of the stream, whose packets and whose segment in flight stay decodable. -/
structure Announces (s : TunnelTCP T) (r : TunnelTCP T × List Event) : Prop where
  endpoints : r.1.endpoints = s.endpoints
  named : s.Named → r.1.Named
  events : s.Named → ∀ event ∈ r.2, event.Proper s.endpoints

/-- The segment in flight is the one before, or a shorter one, or it names no size. -/
theorem Announces.of {events : List Event} (hendpoints : s'.endpoints = s.endpoints)
    (hpending : ∀ p, s'.pending = some p →
      p.mss = none ∨ ∃ q, s.pending = some q ∧ p.mss = q.mss)
    (hevents : ∀ event ∈ events, event.Proper s.endpoints) : Announces s (s', events) := by
  refine ⟨hendpoints, fun hs p hp => ?_, fun _ => hevents⟩
  rcases hpending p hp with hnone | ⟨q, hq, hmss⟩
  · rw [hnone]
    exact (Option.some_ne_none _).symm
  · rw [hmss]
    exact hs q hq

theorem Announces.kept {events : List Event} (hendpoints : s'.endpoints = s.endpoints)
    (hpending : s'.pending = s.pending) (hevents : ∀ event ∈ events, event.Proper s.endpoints) :
    Announces s (s', events) :=
  .of hendpoints (fun p hp => .inr ⟨p, hpending ▸ hp, rfl⟩) hevents

theorem Announces.quiet (hendpoints : s'.endpoints = s.endpoints)
    (hpending : s'.pending = s.pending) : Announces s (s', []) :=
  .kept hendpoints hpending (fun _ h => absurd h List.not_mem_nil)

theorem Announces.refl (s : TunnelTCP T) : Announces s (s, []) := .quiet rfl rfl

theorem Announces.trans {r r' : TunnelTCP T × List Event} (h : Announces s r)
    (h' : Announces r.1 r') : Announces s (r'.1, r.2 ++ r'.2) := by
  refine ⟨h'.endpoints.trans h.endpoints, fun hs => h'.named (h.named hs), fun hs => ?_⟩
  refine List.forall_mem_append.2 ⟨h.events hs, ?_⟩
  rw [← h.endpoints]
  exact h'.events (h.named hs)

/-- A packet without the segment size option. -/
theorem proper_packet {endpoints : TunnelTCPEndpoints} (h : s.endpoints = endpoints)
    (sequence : BitVec 32) (flags : UInt8) (payload : List UInt8) :
    (s.packet sequence flags payload none).Proper endpoints :=
  ⟨s.segment sequence flags payload none, by rw [h], (Option.some_ne_none _).symm⟩

theorem proper_ack {endpoints : TunnelTCPEndpoints} (h : s.endpoints = endpoints) :
    s.ackPacket.Proper endpoints :=
  proper_packet h s.next TunnelTCPSegment.ack []

theorem Announces.before {r : TunnelTCP T × List Event} {events : List Event}
    (h : Announces s r) (hevents : ∀ event ∈ events, event.Proper s.endpoints) :
    Announces s (r.1, events ++ r.2) :=
  ⟨h.endpoints, h.named, fun hs => List.forall_mem_append.2 ⟨hevents, h.events hs⟩⟩

theorem Announces.after {r : TunnelTCP T × List Event} {events : List Event}
    (h : Announces s r) (hevents : ∀ event ∈ events, event.Proper s.endpoints) :
    Announces s (r.1, r.2 ++ events) :=
  ⟨h.endpoints, h.named, fun hs => List.forall_mem_append.2 ⟨h.events hs, hevents⟩⟩

theorem announces_fail (s : TunnelTCP T) (reason : Failure) : Announces s (s.fail reason) :=
  .of rfl (fun p hp => by cases hp) (List.forall_mem_singleton.2 trivial)

variable [Clock T]

theorem announces_flush (s : TunnelTCP T) (now : T) : Announces s (s.flush now) := by
  have hwait : Announces s (s.awaitWindow now, []) := by
    rw [awaitWindow]
    split_ifs
    · exact .quiet rfl rfl
    · exact .refl s
  -- What is sent now names no segment size.
  have hnew : ∀ {q p : Pending T}, some q = some p → q.mss = none →
      p.mss = none ∨ ∃ r, s.pending = some r ∧ p.mss = r.mss := by
    intro q p hp hq
    rw [← Option.some.inj hp]
    exact .inl hq
  rw [flush]
  dsimp only
  split
  · exact .refl s
  · split
    · split
      · exact hwait
      · exact .of rfl (fun p hp => hnew hp rfl)
          (List.forall_mem_singleton.2 (proper_packet rfl _ _ _))
    · split
      · split
        · exact hwait
        · exact .of rfl (fun p hp => hnew hp rfl)
            (List.forall_mem_singleton.2 (proper_packet rfl _ _ _))
      · exact .refl s

theorem announces_write (s : TunnelTCP T) (data : List UInt8) (now : T) :
    Announces s (s.outcome (s.write data now)) := by
  rw [write]
  split
  · exact .refl s
  · split
    · exact .refl s
    · have hflush := announces_flush { s with sendBuffer := s.sendBuffer ++ data } now
      exact ⟨hflush.endpoints, hflush.named, hflush.events⟩

theorem announces_shutdownWrite (s : TunnelTCP T) (now : T) :
    Announces s (s.outcome (s.shutdownWrite now)) := by
  rw [shutdownWrite]
  split_ifs
  · have hflush := announces_flush { s with closeRequested := true } now
    exact ⟨hflush.endpoints, hflush.named, hflush.events⟩
  · exact .refl s

/-- The SYN names the segment size of the link, which is never zero. -/
theorem announces_connect (s : TunnelTCP T) (now : T) :
    Announces s (s.outcome (s.connect now)) := by
  have hbounds := s.mtu_bounds
  have hmss : some (BitVec.ofNat 16 (s.mtu - 60)) ≠ some 0 := by
    intro h
    have hzero := congrArg BitVec.toNat (Option.some.inj h)
    rw [BitVec.toNat_ofNat, Nat.mod_eq_of_lt (by omega)] at hzero
    change s.mtu - 60 = 0 at hzero
    omega
  rw [connect]
  split_ifs
  · refine ⟨rfl, fun _ p hp => ?_, fun _ => List.forall_mem_singleton.2 ⟨_, rfl, hmss⟩⟩
    rw [← Option.some.inj hp]
    exact hmss
  · exact .refl s

omit [Clock T] in
theorem announces_read (s : TunnelTCP T) (maximum : ℕ) : Announces s (s.read maximum).2 := by
  rw [read]
  dsimp only
  split
  · exact .refl s
  · split
    · exact .quiet rfl rfl
    · exact .kept rfl rfl (List.forall_mem_singleton.2 (proper_ack rfl))

/-! ## Receiving -/

omit [Clock T] in
/-- The answer to a packet that changes nothing. -/
theorem announces_ack (s : TunnelTCP T) : Announces s (s, [s.ackPacket]) :=
  .kept rfl rfl (List.forall_mem_singleton.2 (proper_ack rfl))

omit [Clock T] in
theorem announces_receiveSynSent (s : TunnelTCP T) (seg : TunnelTCPSegment) :
    Announces s (s.receiveSynSent seg) := by
  rw [receiveSynSent]
  split
  · split
    · exact announces_fail s .reset
    · exact .refl s
  · split
    · exact .refl s
    · refine .of rfl (fun p hp => absurd hp.symm (Option.some_ne_none p)) ?_
      exact List.forall_mem_cons.2 ⟨proper_ack rfl, List.forall_mem_singleton.2 trivial⟩

theorem announces_retire (s : TunnelTCP T) (acknowledgement : BitVec 32) (now : T) :
    Announces s (s.retire acknowledgement now, []) := by
  cases hp : s.pending with
  | none =>
      have hretire : s.retire acknowledgement now = { s with una := acknowledgement } := by
        rw [retire, hp]
      rw [hretire]
      exact .quiet rfl rfl
  | some p =>
      refine .of ?_ (fun q hq => .inr ⟨p, hp, ?_⟩) (fun _ h => absurd h List.not_mem_nil)
      · rw [retire, hp]
      · rw [retire, hp] at hq
        dsimp only at hq
        split_ifs at hq
        · rw [← Option.some.inj hq]
        · rw [← Option.some.inj hq]

theorem announces_advanceClose (s : TunnelTCP T) (now : T) : Announces s (s.advanceClose now) := by
  rw [advanceClose]
  split
  · exact .refl s
  · split
    · exact .quiet rfl rfl
    · split
      · exact .quiet rfl rfl
      · split
        · exact .kept rfl rfl (List.forall_mem_singleton.2 trivial)
        · exact .refl s

theorem announces_acknowledge (s : TunnelTCP T) (seg : TunnelTCPSegment) (now : T) :
    Announces s (s.acknowledge seg now) := by
  have hupdate : Announces s (s.updateWindow seg, []) := by
    rw [updateWindow]
    split
    · exact .quiet rfl rfl
    · exact .refl s
  rw [acknowledge]
  split
  · exact .refl s
  · dsimp only
    split
    · have hretire := announces_retire (s.updateWindow seg) seg.acknowledgement now
      have hclose := hupdate.trans (hretire.trans (announces_advanceClose _ now))
      have hwritable : ∀ event ∈ [Event.writable], event.Proper s.endpoints :=
        List.forall_mem_singleton.2 trivial
      exact hclose.before hwritable
    · exact hupdate

omit [Clock T] in
theorem announces_takeData (s : TunnelTCP T) (seg : TunnelTCPSegment) :
    Announces s (s.takeData seg) := by
  rw [takeData]
  split
  · exact .kept rfl rfl (List.forall_mem_singleton.2 trivial)
  · exact .refl s

theorem announces_takeFin (s : TunnelTCP T) (seg : TunnelTCPSegment) (reach available : ℤ)
    (now : T) : Announces s (s.takeFin seg reach available now) := by
  rw [takeFin]
  split
  · dsimp only
    split
    · exact .kept rfl rfl (List.forall_mem_singleton.2 trivial)
    · split
      · exact .kept rfl rfl (List.forall_mem_singleton.2 trivial)
      · split
        · exact .kept rfl rfl (List.forall_mem_singleton.2 trivial)
        · exact .kept rfl rfl (List.forall_mem_singleton.2 trivial)
  · exact .refl s

omit [Clock T] in
/-- The acknowledgement of a segment that occupies sequence numbers. -/
theorem announces_answer (s : TunnelTCP T) (seg : TunnelTCPSegment) :
    Announces s (s, if 0 < occupied seg then [s.ackPacket] else []) := by
  split
  · exact announces_ack s
  · exact .refl s

theorem announces_takeSegment (s : TunnelTCP T) (seg : TunnelTCPSegment) (now : T) :
    Announces s (s.takeSegment seg now) := by
  have hdata := announces_takeData s seg
  have hended := announces_takeFin (s.takeData seg).1 seg ((occupied seg : ℤ) + s.offset seg)
    s.window.toNat now
  exact ((hdata.trans hended).trans (announces_answer _ seg)).trans (announces_flush _ now)

theorem announces_receiveOpen (s : TunnelTCP T) (seg : TunnelTCPSegment) (now : T) :
    Announces s (s.receiveOpen seg now) := by
  have hr := announces_acknowledge s seg now
  rw [receiveOpen]
  split
  · exact announces_ack s
  · split
    · exact announces_ack s
    · dsimp only
      split
      · exact hr
      · split
        · exact (hr.trans (announces_ack _)).trans (announces_flush _ now)
        · split
          · exact (hr.trans (announces_answer _ seg)).trans (announces_flush _ now)
          · exact hr.trans (announces_takeSegment _ seg now)

theorem announces_receive (s : TunnelTCP T) (bytes : List UInt8) (now : T) :
    Announces s (s.receive bytes now) := by
  rw [receive]
  split
  · exact .refl s
  · split
    · exact .refl s
    · rename_i seg _
      rw [receiveSegment]
      split
      · exact announces_receiveSynSent s seg
      · split
        · split
          · exact announces_fail s .reset
          · split
            · exact announces_ack s
            · exact .refl s
        · split
          · split
            · exact .kept rfl rfl (List.forall_mem_singleton.2 (proper_ack rfl))
            · exact .refl s
          · split
            · exact announces_ack s
            · split
              · exact .refl s
              · exact announces_receiveOpen s seg now

/-! ## Timers -/

/-- A segment is sent again as it was. -/
theorem announces_retransmit {p : Pending T} (hp : s.pending = some p) (now : T) :
    Announces s (s.retransmit p now) := by
  rw [retransmit]
  split
  · exact announces_fail s .timeout
  · refine ⟨rfl, fun hs q hq => ?_, fun hs => List.forall_mem_singleton.2 ⟨_, rfl, hs p hp⟩⟩
    rw [← Option.some.inj hq]
    exact hs p hp

theorem announces_probe (s : TunnelTCP T) (now : T) : Announces s (s.probe now) := by
  rw [probe]
  split
  · exact .refl s
  · split
    · exact announces_fail s .timeout
    · split
      · exact .kept rfl rfl (List.forall_mem_singleton.2 (proper_packet rfl _ _ _))
      · exact .refl s

theorem announces_tick (s : TunnelTCP T) (now : T) : Announces s (s.tick now) := by
  rw [tick]
  split
  · exact .refl s
  · split
    · split
      · exact .kept rfl rfl (List.forall_mem_singleton.2 trivial)
      · exact announces_fail s .timeout
    · split
      · exact announces_probe s now
      · rename_i p hp
        split
        · exact announces_retransmit hp now
        · exact announces_probe s now

omit [Clock T] in
theorem announces_abort (s : TunnelTCP T) : Announces s s.abort := by
  rw [abort]
  split
  · exact .refl s
  · refine .of rfl (fun p hp => absurd hp.symm (Option.some_ne_none p)) ?_
    exact List.forall_mem_cons.2
      ⟨proper_packet rfl _ _ _, List.forall_mem_singleton.2 trivial⟩

theorem announces_perform (s : TunnelTCP T) (call : Call T) : Announces s (s.perform call) := by
  cases call with
  | connect now => exact announces_connect s now
  | write data now => exact announces_write s data now
  | shutdownWrite now => exact announces_shutdownWrite s now
  | receive bytes now => exact announces_receive s bytes now
  | read maximum => exact announces_read s maximum
  | tick now => exact announces_tick s now
  | abort => exact announces_abort s

/-! ## Runs -/

theorem named_init {endpoints : TunnelTCPEndpoints} {mtu : ℕ} {i : BitVec 32}
    (h : init endpoints mtu i = some s) : s.Named := by
  rw [init] at h
  split at h
  · split at h
    · obtain rfl := Option.some.inj h
      intro p hp
      cases hp
    · cases h
  · cases h

theorem named_run {o : Observed T} (h : o.tcp.Named) (calls : List (Call T)) :
    (o.run calls).tcp.Named := by
  induction calls using List.reverseRecOn with
  | nil => exact h
  | append_singleton calls call ih =>
      rw [Observed.run_concat]
      exact (announces_perform _ call).named ih

/-- What a stream emits, whatever is called: the encoding of a segment its receiver can
decode, in a packet that fits the link. -/
theorem emitted {endpoints : TunnelTCPEndpoints} {mtu : ℕ} {i : BitVec 32}
    (hinit : init endpoints mtu i = some s) (calls : List (Call T)) {call : Call T}
    {bytes : List UInt8} (hb : .packet bytes ∈ ((Observed.start s).run calls).events call) :
    bytes.length ≤ mtu ∧ ∃ seg : TunnelTCPSegment,
      bytes = TunnelTCPCodec.encode seg endpoints false ∧ seg.mss ≠ some 0 := by
  obtain ⟨hsends, -, hendpoints, hmtu⟩ := sends_init hinit
  have hstart : (Observed.start s).Sends i := ⟨hsends, fun h => by cases h⟩
  obtain ⟨hrun, he, hm⟩ := hstart.run calls
  have hkept := hrun.tcp.perform call
  constructor
  · obtain ⟨seg, rfl, hsent⟩ := hkept.emits bytes hb
    have hle := hsent.mtu
    rwa [hkept.mtu, hm, show (Observed.start s).tcp.mtu = s.mtu from rfl, hmtu] at hle
  · have hnamed : (Observed.start s).tcp.Named := named_init hinit
    have hproper := (announces_perform _ call).events (named_run hnamed calls) _ hb
    rwa [he, show (Observed.start s).tcp.endpoints = s.endpoints from rfl, hendpoints] at hproper

end TunnelTCP

namespace LocalTCPIPv4

open TunnelTCPCodec

variable {T : Type} [Clock T]

theorem outgoing_emitted {link : LocalTCPIPv4} {i : BitVec 32} {s : TunnelTCP T}
    (hinit : TunnelTCP.init link.endpoints 1500 i = some s) (calls : List (TunnelTCP.Call T))
    {call : TunnelTCP.Call T} {bytes : List UInt8}
    (hb : .packet bytes ∈ ((TunnelTCP.Observed.start s).run calls).events call) :
    ∃ result, link.outgoing bytes = some result ∧ Carries (bytes.drop 40) result := by
  obtain ⟨hmtu, seg, rfl, hmss⟩ := TunnelTCP.emitted hinit calls hb
  have hlow := length_encode seg link.endpoints false
  have hpacket : packetOf seg link.reverse true = some (encode seg link.endpoints false) := by
    rw [packetOf, if_pos]
    · rfl
    · change ((encode seg link.endpoints false).drop 40).length ≤ 65535
      rw [List.length_drop]
      omega
  exact outgoing_carries (decode_encode hpacket hmss hmtu) (by omega) hmtu

/-- The codecs and the translation between the two links lose nothing of a segment. -/
theorem survives :
    (∀ (endpoints : TunnelTCPEndpoints) (segment : TunnelTCPSegment) (mtu : ℕ)
        (packet : List UInt8), segment.mss ≠ some 0 →
      packetOf segment endpoints true = some packet → packet.length ≤ mtu →
      TunnelTCPCodec.decode packet endpoints mtu = some segment) ∧
    (∀ (clientPort servicePort : BitVec 16) (data result : List UInt8)
        (mss : Option (BitVec 16)),
      (init clientPort servicePort).incoming data = some result →
      (transport data).length ≤ 1460 → WellFormed (transport data) mss →
      TunnelTCPCodec.decode result (init clientPort servicePort).endpoints 1500 =
          some (segmentOf (transport data) mss) ∧
        Alike (transport data) (result.drop 40)) ∧
    ∀ (clientPort servicePort : BitVec 16) (i : BitVec 32) (s : TunnelTCP T),
      TunnelTCP.init (init clientPort servicePort).endpoints 1500 i = some s →
      ∀ (calls : List (TunnelTCP.Call T)) (call : TunnelTCP.Call T) (bytes : List UInt8),
        .packet bytes ∈ ((TunnelTCP.Observed.start s).run calls).events call →
        ∃ result, (init clientPort servicePort).outgoing bytes = some result ∧
          Carries (bytes.drop 40) result := by
  refine ⟨?_, ?_, ?_⟩
  · intro endpoints segment mtu packet hmss hpacket hmtu
    exact decode_encode hpacket hmss hmtu
  · intro clientPort servicePort data result mss h hlength hw
    exact decode_incoming h hlength hw
  · intro clientPort servicePort i s hinit calls call bytes hb
    exact outgoing_emitted hinit calls hb

/-- The packet of the source's tests. -/
def fixture : List UInt8 :=
  [0x45, 0x00, 0x00, 0x2b, 0x00, 0x00, 0x40, 0x00, 0x40, 0x06, 0x26, 0xbd, 0x0a, 0x07, 0x00, 0x02,
    0x0a, 0x07, 0x00, 0x01, 0xc0, 0x00, 0xd6, 0xd8, 0x00, 0x00, 0x03, 0xe9, 0x00, 0x00, 0x00, 0x65,
    0x50, 0x18, 0x80, 0x00, 0xbc, 0x2e, 0x00, 0x00, 0x61, 0x62, 0x63]

/-- The answer to a SYN, and the SYN that a stream of the local link begins with. -/
def answerSegment : TunnelTCPSegment := ⟨1000, 101, 18, 32768, [], some 1220⟩

def openingPacket : List UInt8 :=
  TunnelTCPCodec.encode ⟨100, 0, 2, 32768, [], some 1440⟩ (init 55000 49152).endpoints false

theorem survives_fixture :
    (∃ packet, packetOf answerSegment TunnelTCP.fixtureEndpoints true = some packet ∧
      TunnelTCPCodec.decode packet TunnelTCP.fixtureEndpoints 1280 = some answerSegment) ∧
    (∃ result, (init 55000 49152).incoming fixture = some result ∧
      TunnelTCPCodec.decode result (init 55000 49152).endpoints 1500 =
        some ⟨1001, 101, 24, 32768, [97, 98, 99], none⟩) ∧
    ∃ s : TunnelTCP ℕ, TunnelTCP.init (init 55000 49152).endpoints 1500 100 = some s ∧
      .packet openingPacket ∈ ((TunnelTCP.Observed.start s).run []).events (.connect 0) ∧
      ∃ result, (init 55000 49152).outgoing openingPacket = some result ∧
        Carries (openingPacket.drop 40) result := by
  obtain ⟨hcodec, hincoming, houtgoing⟩ := survives (T := ℕ)
  refine ⟨?_, ?_, ?_⟩
  · have hencoded : (packetOf answerSegment TunnelTCP.fixtureEndpoints true).isSome = true := by
      decide
    have hshort : ((packetOf answerSegment TunnelTCP.fixtureEndpoints true).getD []).length ≤
        1280 := by
      decide
    obtain ⟨packet, hpacket⟩ := Option.isSome_iff_exists.1 hencoded
    rw [hpacket] at hshort
    exact ⟨packet, hpacket, hcodec _ _ 1280 packet (by decide) hpacket hshort⟩
  · have hw : WellFormed (transport fixture) none :=
      ⟨by decide, by decide, by decide, Options.nil⟩
    have haccepted : ((init 55000 49152).incoming fixture).isSome = true := by decide
    obtain ⟨result, hresult⟩ := Option.isSome_iff_exists.1 haccepted
    refine ⟨result, hresult, ?_⟩
    rw [(hincoming _ _ _ _ _ hresult (by decide) hw).1]
    decide
  · obtain ⟨s, hinit⟩ : ∃ s : TunnelTCP ℕ,
        TunnelTCP.init (init 55000 49152).endpoints 1500 100 = some s := ⟨_, rfl⟩
    have hpacket : .packet openingPacket ∈
        ((TunnelTCP.Observed.start s).run []).events (.connect 0) := by
      cases hinit
      decide
    exact ⟨s, hinit, hpacket, houtgoing _ _ _ s hinit [] (.connect 0) openingPacket hpacket⟩

end LocalTCPIPv4

end Tolkara
