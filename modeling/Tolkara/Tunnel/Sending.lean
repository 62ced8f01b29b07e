import Tolkara.Library.SerialNumbers
import Tolkara.Tunnel.Negotiation

/-!
# What the stream sends

The sending side goes through six stages. In each of them the sequence numbers
say exactly how many of the written bytes were acknowledged, which of them are in
flight and which are queued. The invariant is indexed by the initial sequence
number and by everything `write` accepted.
-/

namespace Tolkara

namespace TunnelTCP

open TunnelTCPSegment (fin syn rst psh)

inductive Stage where
  | idle
  | opening
  | streaming
  | finishing
  | finished
  | ended
deriving DecidableEq

def Stage.rank : Stage → ℕ
  | .idle => 0
  | .opening => 1
  | .streaming => 2
  | .finishing => 3
  | .finished => 4
  | .ended => 5

/-- How far the sending side has come. -/
def State.stage : State → Stage
  | .idle => .idle
  | .synSent => .opening
  | .established => .streaming
  | .closeWait => .streaming
  | .finWait1 => .finishing
  | .closing => .finishing
  | .lastAck => .finishing
  | .finWait2 => .finished
  | .timeWait => .finished
  | .closed => .ended
  | .failed => .ended

variable {T : Type} {i : BitVec 32} {W : List UInt8} {s s' : TunnelTCP T}

structure Idle (i : BitVec 32) (W : List UInt8) (s : TunnelTCP T) : Prop where
  una : s.una = i
  next : s.next = i
  pending : s.pending = none
  queue : s.sendBuffer = []
  written : W = []
  quiet : s.zeroWindowSince = none

/-- The SYN is in flight. -/
structure Opening (i : BitVec 32) (W : List UInt8) (s : TunnelTCP T) : Prop where
  una : s.una = i
  next : s.next = i + 1
  pending : ∃ p, s.pending = some p ∧ p.sequence = i ∧ p.payload = [] ∧ p.flags = syn
  queue : s.sendBuffer = []
  written : W = []
  quiet : s.zeroWindowSince = none

/-- A segment of data is in flight, or nothing is. -/
def Flight (s : TunnelTCP T) : Prop :=
  (s.pending = none ∧ s.next = s.una) ∨
    ∃ p, s.pending = some p ∧ p.sequence = s.una ∧ p.payload ≠ [] ∧
      s.next = s.una + BitVec.ofNat 32 p.payload.length ∧
      p.flags = TunnelTCPSegment.ack ||| psh ∧ p.mss = none ∧
      p.payload.length ≤ s.sendMSS

/-- The first `a` bytes written were acknowledged, the next ones are in flight and
the others queued. -/
structure Streaming (i : BitVec 32) (W : List UInt8) (s : TunnelTCP T) (a : ℕ) : Prop where
  una : s.una = i + 1 + BitVec.ofNat 32 a
  le : a ≤ W.length
  rest : W.drop a = s.inFlight ++ s.sendBuffer
  flight : s.Flight
  last : 0 < a → W[a - 1]? = some s.lastAcknowledgedByte
  quiet : s.zeroWindowSince.isSome → s.peerWindow = 0 ∧ s.pending = none
  capacity : s.sendBuffer.length + s.inFlight.length ≤ sendCapacity

/-- Every written byte was acknowledged and the FIN is in flight. -/
structure Finishing (i : BitVec 32) (W : List UInt8) (s : TunnelTCP T) : Prop where
  una : s.una = i + 1 + BitVec.ofNat 32 W.length
  next : s.next = s.una + 1
  pending : ∃ p, s.pending = some p ∧ p.sequence = s.una ∧ p.payload = [] ∧
    p.flags = TunnelTCPSegment.ack ||| fin ∧ p.mss = none
  queue : s.sendBuffer = []
  quiet : s.zeroWindowSince = none

/-- The FIN was acknowledged too. -/
structure Finished (i : BitVec 32) (W : List UInt8) (s : TunnelTCP T) : Prop where
  una : s.una = i + 1 + BitVec.ofNat 32 W.length + 1
  next : s.next = s.una
  pending : s.pending = none
  queue : s.sendBuffer = []
  quiet : s.zeroWindowSince = none

structure Ended (s : TunnelTCP T) : Prop where
  pending : s.pending = none
  queue : s.sendBuffer = []

def AtStage (i : BitVec 32) (W : List UInt8) (s : TunnelTCP T) : Stage → Prop
  | .idle => Idle i W s
  | .opening => Opening i W s
  | .streaming => ∃ a, Streaming i W s a
  | .finishing => Finishing i W s
  | .finished => Finished i W s
  | .ended => Ended s

/-- The sending side of the stream, from its initial sequence number and the
bytes it was given. -/
structure Sends (i : BitVec 32) (W : List UInt8) (s : TunnelTCP T) : Prop where
  mss : 1 ≤ s.sendMSS ∧ s.sendMSS ≤ s.mtu - 60
  stage : AtStage i W s s.state.stage

theorem Sends.at (h : Sends i W s) {stage : Stage} (hs : s.state.stage = stage) :
    AtStage i W s stage := by
  rw [← hs]
  exact h.stage

theorem Sends.idle (h : Sends i W s) (hs : s.state.stage = .idle) : Idle i W s := by
  have hat := h.at hs
  exact hat

theorem Sends.opening (h : Sends i W s) (hs : s.state.stage = .opening) : Opening i W s := by
  have hat := h.at hs
  exact hat

theorem Sends.finishing (h : Sends i W s) (hs : s.state.stage = .finishing) :
    Finishing i W s := by
  have hat := h.at hs
  exact hat

theorem Sends.finished (h : Sends i W s) (hs : s.state.stage = .finished) : Finished i W s := by
  have hat := h.at hs
  exact hat

theorem Sends.of (hm : 1 ≤ s.sendMSS ∧ s.sendMSS ≤ s.mtu - 60) {stage : Stage}
    (hs : s.state.stage = stage) (h : AtStage i W s stage) : Sends i W s := by
  refine ⟨hm, ?_⟩
  rw [hs]
  exact h

theorem stage_streaming_iff (state : State) :
    state.stage = .streaming ↔ state = .established ∨ state = .closeWait := by
  cases state <;> decide

/-! ## Packets -/

/-- What a packet carries: nothing, the first bytes that were not acknowledged, or
the byte before them again. -/
def Carries (i : BitVec 32) (W : List UInt8) (s : TunnelTCP T) (seg : TunnelTCPSegment) : Prop :=
  seg.payload = [] ∨ ∃ a ≤ W.length, s.una = i + 1 + BitVec.ofNat 32 a ∧
    ((seg.sequence = s.una ∧ seg.payload <+: W.drop a) ∨
      (s.next = s.una ∧ seg.sequence + 1 = s.una ∧
        ∃ byte, seg.payload = [byte] ∧ (0 < a → W[a - 1]? = some byte)))

/-- A packet sent by a call that leaves the stream in `s`. -/
structure Sent (i : BitVec 32) (W : List UInt8) (s : TunnelTCP T) (seg : TunnelTCPSegment) :
    Prop where
  mtu : (TunnelTCPCodec.encode seg s.endpoints false).length ≤ s.mtu
  mss : seg.payload.length ≤ s.sendMSS
  carries : Carries i W s seg
  streaming : s.state.stage ≠ .streaming → seg.payload = []
  fin : seg.has fin = true → s.state.stage = .finishing ∧ seg.payload = [] ∧
    seg.sequence = s.una ∧ s.una = i + 1 + BitVec.ofNat 32 W.length

def Emits (i : BitVec 32) (W : List UInt8) (s : TunnelTCP T) (events : List Event) : Prop :=
  ∀ bytes, .packet bytes ∈ events →
    ∃ seg, bytes = TunnelTCPCodec.encode seg s.endpoints false ∧ Sent i W s seg

/-- The packets among the events carry neither bytes nor a FIN. -/
def Plain (endpoints : TunnelTCPEndpoints) (events : List Event) : Prop :=
  ∀ bytes, .packet bytes ∈ events →
    ∃ seg, bytes = TunnelTCPCodec.encode seg endpoints false ∧ seg.payload = [] ∧
      seg.has fin = false

theorem Plain.nil (endpoints : TunnelTCPEndpoints) : Plain endpoints [] := by
  intro bytes h
  cases h

theorem Plain.append {endpoints : TunnelTCPEndpoints} {e e' : List Event}
    (h : Plain endpoints e) (h' : Plain endpoints e') : Plain endpoints (e ++ e') := by
  intro bytes hb
  rcases List.mem_append.1 hb with hb | hb
  · exact h bytes hb
  · exact h' bytes hb

theorem length_encode_le (s : TunnelTCP T) (seg : TunnelTCPSegment)
    (h : seg.payload.length ≤ s.mtu - 64) :
    (TunnelTCPCodec.encode seg s.endpoints false).length ≤ s.mtu := by
  rw [TunnelTCPCodec.length_encode]
  have := s.mtu_bounds
  split <;> omega

theorem Plain.emits {events : List Event} (h : Plain s.endpoints events) :
    Emits i W s events := by
  intro bytes hb
  obtain ⟨seg, rfl, hp, hf⟩ := h bytes hb
  refine ⟨seg, rfl, ?_, ?_, .inl hp, fun _ => hp, ?_⟩
  · refine length_encode_le s seg ?_
    rw [hp]
    exact Nat.zero_le _
  · rw [hp]
    exact Nat.zero_le _
  · intro h
    rw [hf] at h
    cases h

theorem Emits.append {e e' : List Event} (h : Emits i W s e) (h' : Emits i W s e') :
    Emits i W s (e ++ e') := by
  intro bytes hb
  rcases List.mem_append.1 hb with hb | hb
  · exact h bytes hb
  · exact h' bytes hb

theorem Emits.single {seg : TunnelTCPSegment} (h : Sent i W s seg) :
    Emits i W s [.packet (TunnelTCPCodec.encode seg s.endpoints false)] := by
  intro bytes hb
  rw [List.mem_singleton, Event.packet.injEq] at hb
  exact ⟨seg, hb, h⟩

/-- A step of the sending side: the invariant holds after it, and of the packets
it sent. -/
structure Kept (i : BitVec 32) (W : List UInt8) (s : TunnelTCP T)
    (r : TunnelTCP T × List Event) : Prop where
  sends : Sends i W r.1
  endpoints : r.1.endpoints = s.endpoints
  mtu : r.1.mtu = s.mtu
  rank : s.state.stage.rank ≤ r.1.state.stage.rank
  emits : Emits i W r.1 r.2

theorem Kept.refl (h : Sends i W s) : Kept i W s (s, []) :=
  ⟨h, rfl, rfl, le_refl _, (Plain.nil _).emits⟩

/-- Packets without bytes may precede a step. -/
theorem Kept.before {r : TunnelTCP T × List Event} {events : List Event}
    (h : Kept i W s r) (hp : Plain s.endpoints events) :
    Kept i W s (r.1, events ++ r.2) := by
  refine ⟨h.sends, h.endpoints, h.mtu, h.rank, Emits.append ?_ h.emits⟩
  refine Plain.emits ?_
  rw [h.endpoints]
  exact hp

/-- Two steps, the first of which sends no bytes. -/
theorem Kept.trans {r r' : TunnelTCP T × List Event} (h : Kept i W s r)
    (hp : Plain s.endpoints r.2) (h' : Kept i W r.1 r') :
    Kept i W s (r'.1, r.2 ++ r'.2) := by
  refine ⟨h'.sends, h'.endpoints.trans h.endpoints, h'.mtu.trans h.mtu,
    h.rank.trans h'.rank, Emits.append ?_ h'.emits⟩
  refine Plain.emits ?_
  rw [h'.endpoints, h.endpoints]
  exact hp

/-! ## Sending -/

theorem plain_failed (endpoints : TunnelTCPEndpoints) (reason : Failure) :
    Plain endpoints [.failed reason] := by
  intro bytes hb
  rw [List.mem_singleton] at hb
  cases hb

theorem Sends.ended (h : Sends i W s) (hs : s'.state.stage = .ended) (hp : s'.pending = none)
    (hq : s'.sendBuffer = []) (hmss : s'.sendMSS = s.sendMSS) (hmtu : s'.mtu = s.mtu) :
    Sends i W s' := by
  refine Sends.of ?_ hs ⟨hp, hq⟩
  rw [hmss, hmtu]
  exact h.mss

theorem rank_le_ended (state : State) : state.stage.rank ≤ 5 := by
  cases state <;> decide

theorem Sends.fail (h : Sends i W s) (reason : Failure) : Kept i W s (s.fail reason) :=
  ⟨h.ended rfl rfl rfl rfl rfl, rfl, rfl, rank_le_ended _, (plain_failed _ _).emits⟩

theorem Streaming.awaitWindow {a : ℕ} (h : Streaming i W s a) (hp : s.pending = none)
    (hw : s.peerWindow = 0) (now : T) : Streaming i W (s.awaitWindow now) a := by
  unfold TunnelTCP.awaitWindow
  split
  · exact ⟨h.una, h.le, h.rest, h.flight, h.last, fun _ => ⟨hw, hp⟩, h.capacity⟩
  · exact h

theorem awaitWindow_fixed (s : TunnelTCP T) (now : T) :
    (s.awaitWindow now).state = s.state ∧ (s.awaitWindow now).endpoints = s.endpoints ∧
      (s.awaitWindow now).mtu = s.mtu ∧ (s.awaitWindow now).sendMSS = s.sendMSS := by
  unfold TunnelTCP.awaitWindow
  split
  · exact ⟨rfl, rfl, rfl, rfl⟩
  · exact ⟨rfl, rfl, rfl, rfl⟩

theorem Sends.awaitWindow {a : ℕ} (h : Sends i W s) (hs : s.state.stage = .streaming)
    (ha : Streaming i W s a) (hp : s.pending = none) (hw : s.peerWindow = 0) (now : T) :
    Kept i W s (s.awaitWindow now, []) := by
  obtain ⟨hstate, he, hm, hmss⟩ := s.awaitWindow_fixed now
  have hstage : (s.awaitWindow now).state.stage = .streaming := by
    rw [hstate]
    exact hs
  refine ⟨Sends.of ?_ hstage ⟨a, ha.awaitWindow hp hw now⟩, he, hm, ?_, (Plain.nil _).emits⟩
  · dsimp only
    rw [hmss, hm]
    exact h.mss
  · dsimp only
    rw [hstate]

theorem segment_has (s : TunnelTCP T) (sequence : BitVec 32) (flags flag : UInt8)
    (payload : List UInt8) (mss : Option (BitVec 16)) :
    (s.segment sequence flags payload mss).has flag = (flags &&& flag != 0) := rfl

theorem plain_ackPacket (s : TunnelTCP T) : Plain s.endpoints [s.ackPacket] := by
  intro bytes hb
  rw [List.mem_singleton, ackPacket, packet, Event.packet.injEq] at hb
  refine ⟨s.segment s.next TunnelTCPSegment.ack [] none, hb, rfl, ?_⟩
  rw [segment_has]
  decide

theorem Streaming.next_of_none {a : ℕ} (h : Streaming i W s a) (hp : s.pending = none) :
    s.next = s.una := by
  rcases h.flight with hf | ⟨p, hf, -⟩
  · exact hf.2
  · rw [hp] at hf
    cases hf

theorem Streaming.rest_of_none {a : ℕ} (h : Streaming i W s a) (hp : s.pending = none) :
    W.drop a = s.sendBuffer := by
  rw [h.rest, inFlight, hp]
  rfl

/-- Queued bytes extend what was written. -/
theorem Streaming.queued {a : ℕ} (h : Streaming i W s a) {data : List UInt8}
    (hroom : (data.length : ℤ) ≤ (sendCapacity : ℤ) - s.sendBuffer.length - s.inFlight.length) :
    Streaming i (W ++ data) { s with sendBuffer := s.sendBuffer ++ data } a := by
  have hflight : ({ s with sendBuffer := s.sendBuffer ++ data } : TunnelTCP T).inFlight =
      s.inFlight := rfl
  refine ⟨h.una, ?_, ?_, h.flight, ?_, h.quiet, ?_⟩
  · have := h.le
    rw [List.length_append]
    omega
  · rw [List.drop_append_of_le_length h.le, h.rest, hflight]
    exact List.append_assoc _ _ _
  · intro ha
    have := h.le
    rw [List.getElem?_append_left (by omega)]
    exact h.last ha
  · rw [hflight]
    dsimp only
    rw [List.length_append]
    omega

/-! ## Acknowledgements -/

theorem Sends.receiveSynSent (h : Sends i W s) (hs : s.state = .synSent) {seg : TunnelTCPSegment}
    (hmss : ∀ n, seg.mss = some n → 0 < n.toNat) : Kept i W s (s.receiveSynSent seg) := by
  have ho : Opening i W s := h.opening (by rw [hs]; rfl)
  unfold TunnelTCP.receiveSynSent
  split
  · split
    · exact h.fail _
    · exact Kept.refl h
  · split
    · exact Kept.refl h
    · refine ⟨Sends.of ?_ rfl ⟨0, ?_, Nat.zero_le _, ?_, .inl ⟨rfl, rfl⟩, ?_, ?_, ?_⟩, rfl, rfl, ?_,
        Plain.emits ?_⟩
      · have := s.mtu_bounds
        dsimp only
        cases hm : seg.mss with
        | none =>
            simp only [Option.map_none, Option.getD_none]
            omega
        | some n =>
            have := hmss n hm
            simp only [Option.map_some, Option.getD_some]
            omega
      · dsimp only
        rw [ho.next, BitVec.ofNat_eq_ofNat, BitVec.add_zero]
      · rw [ho.written]
        exact ho.queue.symm
      · intro h
        cases h
      · dsimp only
        rw [ho.quiet]
        intro h
        cases h
      · dsimp only [inFlight]
        rw [ho.queue]
        exact Nat.zero_le _
      · rw [hs]
        exact (by decide : Stage.opening.rank ≤ Stage.streaming.rank)
      · refine Plain.append (plain_ackPacket _) ?_
        intro bytes hb
        rw [List.mem_singleton] at hb
        cases hb

/-- A new acknowledgement that does not pass the end of the flight covers the first
bytes of it. -/
theorem amount_of_window {una next x : BitVec 32} {n : ℕ} (hn : 2 * n < 2 ^ 32)
    (hnext : next = una + BitVec.ofNat 32 n) (hend : before next x = false)
    (hold : before x una = false) (hnew : before una x = true) :
    0 < (x - una).toNat ∧ (x - una).toNat ≤ n ∧ x = una + BitVec.ofNat 32 (x - una).toNat := by
  rw [before, decide_eq_false_iff_not] at hend hold
  rw [before, decide_eq_true_iff] at hnew
  obtain ⟨hle, hx⟩ := SerialNumber.exists_of_window hn hnext hold hend
  refine ⟨?_, hle, hx⟩
  by_contra hzero
  have hzero : (x - una).toNat = 0 := by
    omega
  rw [hzero, BitVec.add_zero] at hx
  rw [hx, BitVec.sub_self] at hnew
  exact absurd hnew (by decide)

theorem updateWindow_fixed (s : TunnelTCP T) (seg : TunnelTCPSegment) :
    (s.updateWindow seg).state = s.state ∧ (s.updateWindow seg).endpoints = s.endpoints ∧
      (s.updateWindow seg).mtu = s.mtu ∧ (s.updateWindow seg).una = s.una ∧
      (s.updateWindow seg).next = s.next := by
  unfold updateWindow
  split
  · exact ⟨rfl, rfl, rfl, rfl, rfl⟩
  · exact ⟨rfl, rfl, rfl, rfl, rfl⟩

theorem Streaming.updateWindow {a : ℕ} (h : Streaming i W s a) (seg : TunnelTCPSegment) :
    Streaming i W (s.updateWindow seg) a := by
  unfold TunnelTCP.updateWindow
  split
  · refine ⟨h.una, h.le, h.rest, h.flight, h.last, ?_, h.capacity⟩
    dsimp only
    split
    · intro hsome
      cases hsome
    · rename_i hzero
      intro hsome
      exact ⟨by omega, (h.quiet hsome).2⟩
  · exact h

theorem Finishing.updateWindow (h : Finishing i W s) (seg : TunnelTCPSegment) :
    Finishing i W (s.updateWindow seg) := by
  unfold TunnelTCP.updateWindow
  split
  · refine ⟨h.una, h.next, h.pending, h.queue, ?_⟩
    dsimp only
    rw [h.quiet, ite_self]
  · exact h

theorem Finished.updateWindow (h : Finished i W s) (seg : TunnelTCPSegment) :
    Finished i W (s.updateWindow seg) := by
  unfold TunnelTCP.updateWindow
  split
  · refine ⟨h.una, h.next, h.pending, h.queue, ?_⟩
    dsimp only
    rw [h.quiet, ite_self]
  · exact h

/-- The stages in which the peer's acknowledgements count. -/
def Synchronized (s : TunnelTCP T) : Prop :=
  s.state.stage = .streaming ∨ s.state.stage = .finishing ∨ s.state.stage = .finished

theorem Sends.updateWindow (h : Sends i W s) (hs : s.Synchronized) (seg : TunnelTCPSegment) :
    Sends i W (s.updateWindow seg) := by
  obtain ⟨hstate, -⟩ := s.updateWindow_fixed seg
  have hmss : 1 ≤ (s.updateWindow seg).sendMSS ∧
      (s.updateWindow seg).sendMSS ≤ (s.updateWindow seg).mtu - 60 := by
    unfold TunnelTCP.updateWindow
    split
    · exact h.mss
    · exact h.mss
  rcases hs with hs | hs | hs
  · obtain ⟨a, ha⟩ := h.at hs
    refine ⟨hmss, ?_⟩
    rw [hstate, hs]
    exact ⟨a, ha.updateWindow seg⟩
  · refine ⟨hmss, ?_⟩
    rw [hstate, hs]
    exact (h.finishing hs).updateWindow seg
  · refine ⟨hmss, ?_⟩
    rw [hstate, hs]
    exact (h.finished hs).updateWindow seg

/-- What was received does not matter to the sending side, nor which of the states
of a stage it is in. -/
theorem Sends.received (h : Sends i W s) {state : State} (hs : state.stage = s.state.stage)
    (buffer : List UInt8) (next : BitVec 32) (deadline : Option T) :
    Sends i W
      { s with
        state := state
        receiveBuffer := buffer
        receiveNext := next
        closeDeadline := deadline } := by
  refine ⟨h.mss, ?_⟩
  dsimp only
  rw [hs]
  have hat := h.stage
  cases hstage : s.state.stage with
  | idle =>
      have hi := h.idle hstage
      exact ⟨hi.una, hi.next, hi.pending, hi.queue, hi.written, hi.quiet⟩
  | opening =>
      have ho := h.opening hstage
      exact ⟨ho.una, ho.next, ho.pending, ho.queue, ho.written, ho.quiet⟩
  | streaming =>
      obtain ⟨a, ha⟩ := h.at hstage
      exact ⟨a, ha.una, ha.le, ha.rest, ha.flight, ha.last, ha.quiet, ha.capacity⟩
  | finishing =>
      have hf := h.finishing hstage
      exact ⟨hf.una, hf.next, hf.pending, hf.queue, hf.quiet⟩
  | finished =>
      have hf := h.finished hstage
      exact ⟨hf.una, hf.next, hf.pending, hf.queue, hf.quiet⟩
  | ended =>
      rw [hstage] at hat
      exact ⟨hat.pending, hat.queue⟩

section

variable [Clock T]

/-- The segment in flight shrinks by what was acknowledged. -/
theorem Streaming.retire {a : ℕ} (h : Streaming i W s a) (hmss : s.sendMSS ≤ s.mtu - 60)
    {x : BitVec 32} (hend : before s.next x = false) (hold : before x s.una = false)
    (hnew : before s.una x = true) (now : T) :
    Streaming i W (s.retire x now) (a + (x - s.una).toNat) := by
  rcases h.flight with ⟨-, hnext⟩ | ⟨p, hp, hseq, hne, hnext, hflags, hpmss, hlen⟩
  · have hwindow := amount_of_window (n := 0) (by decide) (by rw [hnext, BitVec.add_zero])
      hend hold hnew
    omega
  · have hbounds := s.mtu_bounds
    obtain ⟨hpos, hle, hx⟩ := amount_of_window (by omega) hnext hend hold hnew
    generalize hm : (x - s.una).toNat = m at hpos hle hx ⊢
    have hinflight : s.inFlight = p.payload := by
      rw [inFlight, hp]
      rfl
    have hrest : W.drop (a + m) = p.payload.drop m ++ s.sendBuffer := by
      rw [← List.drop_drop, h.rest, hinflight, List.drop_append_of_le_length hle]
    have hall : x = s.next ↔ m = p.payload.length := by
      rw [hx, hnext]
      constructor
      · intro heq
        exact SerialNumber.eq_of_ofNat_eq (w := 32) (by omega) (by omega) (add_left_cancel heq)
      · intro heq
        rw [heq]
    have hretired : s.retire x now =
        { s with
          una := x
          lastAcknowledgedByte := p.payload.getD (m - 1) 0
          pending :=
            if m = p.payload.length then none
            else some
              { p with
                payload := p.payload.drop m
                sequence := x
                sent := now
                rto := Clock.seconds 1
                retries := 0 } } := by
      rw [TunnelTCP.retire, hp]
      dsimp only
      rw [hm]
      have hlast : m ≤ p.payload.length ∧ 0 < m := ⟨hle, hpos⟩
      by_cases heq : m = p.payload.length
      · simp only [if_pos (hall.2 heq), if_pos heq, if_pos hlast]
      · simp only [if_neg (fun h => heq (hall.1 h)), if_neg heq, if_pos hlast, if_pos hle]
    have hbyte : W[a + m - 1]? = some (p.payload.getD (m - 1) 0) := by
      have hindex : a + m - 1 = a + (m - 1) := by
        omega
      rw [hindex, ← List.getElem?_drop, h.rest, hinflight,
        List.getElem?_append_left (by omega), List.getD_eq_getElem?_getD,
        List.getElem?_eq_getElem (by omega), Option.getD_some]
    have hlength : a + m ≤ W.length := by
      have hle' := h.le
      have hcount := congrArg List.length h.rest
      rw [List.length_drop, List.length_append, hinflight] at hcount
      omega
    have hquiet : s.zeroWindowSince.isSome = true → False := by
      intro hz
      have := (h.quiet hz).2
      rw [hp] at this
      cases this
    have hcap := h.capacity
    rw [hinflight] at hcap
    rw [hretired]
    refine ⟨?_, hlength, ?_, ?_, fun _ => hbyte, fun hz => (hquiet hz).elim, ?_⟩
    · dsimp only
      rw [hx, h.una, BitVec.ofNat_add, BitVec.add_assoc]
    · rw [hrest, inFlight]
      dsimp only
      split
      · rename_i heq
        rw [heq, List.drop_length]
        rfl
      · rfl
    · by_cases heq : m = p.payload.length
      · refine .inl ⟨?_, ?_⟩
        · dsimp only
          rw [if_pos heq]
        · exact (hall.2 heq).symm
      · refine .inr ⟨_, if_neg heq, rfl, ?_, ?_, hflags, hpmss, ?_⟩
        · intro hnil
          rw [List.drop_eq_nil_iff] at hnil
          omega
        · dsimp only
          rw [List.length_drop, hnext, hx, BitVec.add_assoc, ← BitVec.ofNat_add]
          congr 2
          omega
        · dsimp only
          rw [List.length_drop]
          omega
    · rw [inFlight]
      dsimp only
      split
      · simp only [Option.map_none, Option.getD_none, List.length_nil]
        omega
      · simp only [Option.map_some, Option.getD_some, List.length_drop]
        omega

omit [Clock T] in
/-- The only thing left to acknowledge is the FIN. -/
theorem Finishing.eq_next (h : Finishing i W s) {x : BitVec 32} (hend : before s.next x = false)
    (hold : before x s.una = false) (hnew : before s.una x = true) : x = s.next := by
  obtain ⟨hpos, hle, hx⟩ := amount_of_window (n := 1) (by decide) h.next hend hold hnew
  have hone : (x - s.una).toNat = 1 := by
    omega
  rw [hone] at hx
  rw [hx, h.next]
  rfl

theorem Finishing.retire (h : Finishing i W s) {x : BitVec 32} (hend : before s.next x = false)
    (hold : before x s.una = false) (hnew : before s.una x = true) (now : T) :
    (s.retire x now).pending = none ∧
      (s.retire x now).una = i + 1 + BitVec.ofNat 32 W.length + 1 ∧
      (s.retire x now).next = (s.retire x now).una := by
  obtain ⟨p, hp, -⟩ := h.pending
  have hxnext := h.eq_next hend hold hnew
  rw [TunnelTCP.retire, hp]
  refine ⟨?_, ?_, hxnext.symm⟩
  · dsimp only
    rw [if_pos hxnext]
  · dsimp only
    rw [hxnext, h.next, h.una]

theorem retire_fixed (s : TunnelTCP T) (x : BitVec 32) (now : T) :
    (s.retire x now).state = s.state ∧ (s.retire x now).endpoints = s.endpoints ∧
      (s.retire x now).mtu = s.mtu ∧ (s.retire x now).sendMSS = s.sendMSS ∧
      (s.retire x now).sendBuffer = s.sendBuffer ∧
      (s.retire x now).zeroWindowSince = s.zeroWindowSince := by
  unfold retire
  split
  · exact ⟨rfl, rfl, rfl, rfl, rfl, rfl⟩
  · exact ⟨rfl, rfl, rfl, rfl, rfl, rfl⟩

theorem plain_of_no_packet {endpoints : TunnelTCPEndpoints} {events : List Event}
    (h : ∀ bytes, .packet bytes ∉ events) : Plain endpoints events :=
  fun bytes hb => absurd hb (h bytes)

/-- Data acknowledged while the stream is open changes nothing else. -/
theorem advanceClose_streaming (hs : s.state.stage = .streaming) (now : T) :
    s.advanceClose now = (s, []) := by
  rw [stage_streaming_iff] at hs
  unfold advanceClose
  rcases hs with hs | hs <;> simp [hs]

/-- With the FIN acknowledged the close moves on. -/
theorem Sends.advanceClose (hmss : 1 ≤ s.sendMSS ∧ s.sendMSS ≤ s.mtu - 60)
    (hs : s.state.stage = .finishing) (h : Finished i W s) (now : T) :
    Kept i W s (s.advanceClose now) := by
  unfold TunnelTCP.advanceClose
  have hfinished : Stage.finishing.rank ≤ Stage.finished.rank := by
    decide
  have hover : Stage.finishing.rank ≤ Stage.ended.rank := by
    decide
  rw [if_neg (by rw [h.pending]; exact Bool.false_ne_true)]
  split
  · refine ⟨Sends.of hmss rfl ⟨h.una, h.next, h.pending, h.queue, h.quiet⟩, rfl, rfl, ?_,
      (Plain.nil _).emits⟩
    rw [hs]
    exact hfinished
  · split
    · refine ⟨Sends.of hmss rfl ⟨h.una, h.next, h.pending, h.queue, h.quiet⟩, rfl, rfl, ?_,
        (Plain.nil _).emits⟩
      rw [hs]
      exact hfinished
    · split
      · refine ⟨Sends.of hmss rfl ⟨h.pending, h.queue⟩, rfl, rfl, ?_,
          (plain_of_no_packet (by simp)).emits⟩
        rw [hs]
        exact hover
      · rename_i h1 h2 h3
        cases hstate : s.state <;> simp_all [State.stage]

theorem plain_advanceClose (s : TunnelTCP T) (now : T) (endpoints : TunnelTCPEndpoints) :
    Plain endpoints (s.advanceClose now).2 := by
  refine plain_of_no_packet ?_
  unfold TunnelTCP.advanceClose
  split_ifs <;> simp

theorem plain_acknowledge (s : TunnelTCP T) (seg : TunnelTCPSegment) (now : T)
    (endpoints : TunnelTCPEndpoints) : Plain endpoints (s.acknowledge seg now).2 := by
  unfold acknowledge
  split
  · exact Plain.nil _
  · dsimp only
    split
    · have hwritable : Plain endpoints [.writable] := plain_of_no_packet (by simp)
      exact hwritable.append (plain_advanceClose _ _ _)
    · exact Plain.nil _

theorem Sends.acknowledge (h : Sends i W s) (hs : s.Synchronized) {seg : TunnelTCPSegment}
    (hend : before s.next seg.acknowledgement = false) (now : T) :
    Kept i W s (s.acknowledge seg now) := by
  obtain ⟨hstate, hendpoints, hmtu, huna, hnext⟩ := s.updateWindow_fixed seg
  have h1 := h.updateWindow hs seg
  unfold TunnelTCP.acknowledge
  split
  · exact Kept.refl h
  · rename_i hold
    rw [Bool.not_eq_true] at hold
    dsimp only
    split
    · rename_i hnew
      rw [← hnext] at hend
      rw [← huna] at hold
      obtain ⟨hstate2, hendpoints2, hmtu2, hmss2, hqueue2, hquiet2⟩ :=
        (s.updateWindow seg).retire_fixed seg.acknowledgement now
      have hmss : 1 ≤ ((s.updateWindow seg).retire seg.acknowledgement now).sendMSS ∧
          ((s.updateWindow seg).retire seg.acknowledgement now).sendMSS ≤
            ((s.updateWindow seg).retire seg.acknowledgement now).mtu - 60 := by
        rw [hmss2, hmtu2]
        exact h1.mss
      have hwritable : Plain s.endpoints [.writable] := plain_of_no_packet (by simp)
      rw [← hstate2] at hstate
      rw [← hendpoints2] at hendpoints
      rw [← hmtu2] at hmtu
      rcases hs with hs | hs | hs
      · obtain ⟨a, ha⟩ := h1.at (by rw [← hstate2, hstate, hs])
        have hstage : ((s.updateWindow seg).retire seg.acknowledgement now).state.stage =
            .streaming := by
          rw [hstate, hs]
        rw [advanceClose_streaming hstage]
        refine ⟨Sends.of hmss hstage ⟨_, ha.retire h1.mss.2 hend hold hnew now⟩, hendpoints, hmtu,
          ?_, ?_⟩
        · dsimp only
          rw [hstate]
        · refine Plain.emits ?_
          rw [hendpoints]
          exact hwritable
      · have hf := h1.finishing (by rw [← hstate2, hstate, hs])
        obtain ⟨hp, hu, hn⟩ := hf.retire hend hold hnew now
        have hstage : ((s.updateWindow seg).retire seg.acknowledgement now).state.stage =
            .finishing := by
          rw [hstate, hs]
        have hk := Sends.advanceClose hmss hstage
          ⟨hu, hn, hp, hqueue2.trans hf.queue, hquiet2.trans hf.quiet⟩ now
        refine ⟨hk.sends, hk.endpoints.trans hendpoints, hk.mtu.trans hmtu, ?_, ?_⟩
        · have := hk.rank
          rwa [hstate] at this
        · refine Plain.emits ?_
          rw [hk.endpoints, hendpoints]
          exact hwritable.append (plain_advanceClose _ _ _)
      · have hf := h1.finished (by rw [← hstate2, hstate, hs])
        have hwindow := amount_of_window (n := 0) (by decide)
          (by rw [hf.next, BitVec.add_zero]) hend hold hnew
        omega
    · refine ⟨h1, hendpoints, hmtu, ?_, (Plain.nil _).emits⟩
      dsimp only
      rw [hstate]

/-- The first queued bytes go out. -/
theorem Sends.flush_data {a : ℕ} (h : Sends i W s) (hs : s.state.stage = .streaming)
    (ha : Streaming i W s a) (hp : s.pending = none) (hq : s.sendBuffer ≠ [])
    (hw : s.peerWindow ≠ 0) {count : ℕ}
    (hcount : count = min (min s.sendBuffer.length s.sendMSS) s.peerWindow) (now : T) :
    ∀ s' : TunnelTCP T, s' =
      { s with
        zeroWindowSince := none
        sendBuffer := s.sendBuffer.drop count
        next := s.next + BitVec.ofNat 32 count
        pending := some
          ⟨s.next, TunnelTCPSegment.ack ||| psh, s.sendBuffer.take count, none, now,
            Clock.seconds 1, 0⟩ } →
      Kept i W s
        (s', [s'.packet s.next (TunnelTCPSegment.ack ||| psh) (s.sendBuffer.take count) none]) := by
  intro s' hs'
  have hpos : 0 < s.sendBuffer.length := List.length_pos_of_ne_nil hq
  have hmss := h.mss
  have hlen : (s.sendBuffer.take count).length = count := by
    rw [List.length_take]
    omega
  have hnext := ha.next_of_none hp
  have hrest := ha.rest_of_none hp
  have hinflight : s'.inFlight = s.sendBuffer.take count := by
    rw [hs']
    rfl
  have hstate : s'.state.stage = .streaming := by
    rw [hs']
    exact hs
  have hsent : Sent i W s'
      (s'.segment s.next (TunnelTCPSegment.ack ||| psh) (s.sendBuffer.take count) none) := by
    refine ⟨?_, ?_, .inr ⟨a, ha.le, ?_, .inl ⟨?_, ?_⟩⟩, fun h => absurd hstate h, ?_⟩
    · rw [TunnelTCPCodec.length_encode]
      simp only [segment, Option.isNone_none, if_true]
      rw [hlen, hs']
      dsimp only
      have := s.mtu_bounds
      omega
    · simp only [segment]
      rw [hlen, hs']
      dsimp only
      omega
    · rw [hs']
      exact ha.una
    · simp only [segment]
      rw [hs']
      exact hnext
    · simp only [segment]
      rw [hrest]
      exact List.take_prefix _ _
    · intro h
      rw [segment_has] at h
      exact absurd h (by decide)
  refine ⟨Sends.of ?_ hstate ⟨a, ?_⟩, ?_, ?_, ?_, Emits.single hsent⟩
  · rw [hs']
    exact hmss
  · refine ⟨?_, ha.le, ?_, ?_, ?_, ?_, ?_⟩
    · rw [hs']
      exact ha.una
    · rw [hinflight, hs', hrest]
      exact (List.take_append_drop _ _).symm
    · refine .inr ⟨_, by rw [hs'], ?_, ?_, ?_, rfl, rfl, ?_⟩
      · rw [hs']
        exact hnext
      · intro hnil
        have hzero := congrArg List.length hnil
        dsimp only at hzero
        rw [hlen, List.length_nil] at hzero
        omega
      · rw [hs', hlen]
        dsimp only
        rw [hnext]
      · rw [hs', hlen]
        dsimp only
        omega
    · rw [hs']
      exact ha.last
    · rw [hs']
      intro h
      cases h
    · have hcap := ha.capacity
      rw [hinflight, hlen, hs']
      dsimp only
      rw [List.length_drop]
      omega
  · rw [hs']
  · rw [hs']
  · dsimp only
    rw [hstate, hs]

/-- With nothing queued or in flight, the FIN goes out. -/
theorem Sends.flush_fin {a : ℕ} (h : Sends i W s)
    (hs : s.state = .established ∨ s.state = .closeWait) (ha : Streaming i W s a)
    (hp : s.pending = none) (hq : s.sendBuffer = []) (hw : s.peerWindow ≠ 0) (now : T) :
    ∀ s' : TunnelTCP T, s' =
      { s with
        next := s.next + 1
        pending := some ⟨s.next, TunnelTCPSegment.ack ||| fin, [], none, now, Clock.seconds 1, 0⟩
        state := if s.state = .closeWait then .lastAck else .finWait1 } →
      Kept i W s (s', [s'.packet s.next (TunnelTCPSegment.ack ||| fin) [] none]) := by
  intro s' hs'
  have hnext := ha.next_of_none hp
  have hall : a = W.length := by
    have hrest := ha.rest_of_none hp
    rw [hq, List.drop_eq_nil_iff] at hrest
    have := ha.le
    omega
  have hquiet : s.zeroWindowSince = none := by
    cases hz : s.zeroWindowSince with
    | none => rfl
    | some since => exact absurd (ha.quiet (by rw [hz]; rfl)).1 hw
  have hstate : s'.state.stage = .finishing := by
    rw [hs']
    dsimp only
    split
    · rfl
    · rfl
  have huna : s'.una = i + 1 + BitVec.ofNat 32 W.length := by
    rw [hs', ← hall]
    exact ha.una
  have hsent : Sent i W s' (s'.segment s.next (TunnelTCPSegment.ack ||| fin) [] none) := by
    refine ⟨length_encode_le s' _ (Nat.zero_le _), Nat.zero_le _, .inl rfl, fun _ => rfl, ?_⟩
    intro _
    refine ⟨hstate, rfl, ?_, huna⟩
    simp only [segment]
    rw [hs', hnext]
  have hfinishing : Finishing i W s' := by
    refine ⟨huna, ?_, ⟨_, by rw [hs'], ?_, rfl, rfl, rfl⟩, ?_, ?_⟩
    · rw [hs']
      dsimp only
      rw [hnext]
    · rw [hs']
      exact hnext
    · rw [hs']
      exact hq
    · rw [hs']
      exact hquiet
  refine ⟨Sends.of ?_ hstate hfinishing, ?_, ?_, ?_, Emits.single hsent⟩
  · rw [hs']
    exact h.mss
  · rw [hs']
  · rw [hs']
  · dsimp only
    rw [hstate, (stage_streaming_iff _).2 hs]
    decide

theorem Sends.flush (h : Sends i W s) (now : T) : Kept i W s (s.flush now) := by
  unfold TunnelTCP.flush
  split
  · exact Kept.refl h
  · rename_i hopen
    rw [not_or, not_not] at hopen
    obtain ⟨hp, hs⟩ := hopen
    rw [Option.not_isSome_iff_eq_none] at hp
    obtain ⟨a, ha⟩ := h.at ((stage_streaming_iff _).2 hs)
    split
    · rename_i hq
      split
      · rename_i hw
        exact h.awaitWindow ((stage_streaming_iff _).2 hs) ha hp hw now
      · rename_i hw
        exact h.flush_data ((stage_streaming_iff _).2 hs) ha hp hq hw rfl now _ rfl
    · rename_i hq
      rw [not_not] at hq
      split
      · split
        · rename_i hw
          exact h.awaitWindow ((stage_streaming_iff _).2 hs) ha hp hw now
        · rename_i hw
          exact h.flush_fin hs ha hp hq hw now _ rfl
      · exact Kept.refl h

theorem Sends.write (h : Sends i W s) (data : List UInt8) (now : T) :
    Kept i (W ++ s.accepted (.write data now)) s (s.perform (.write data now)) := by
  have hcall : s.perform (.write data now) = s.outcome (s.write data now) := rfl
  have haccepted : s.accepted (.write data now) =
      if (s.write data now).isOk then data else [] := rfl
  rw [hcall, haccepted]
  unfold TunnelTCP.write
  split
  · simpa [outcome, Except.isOk, Except.toBool] using Kept.refl h
  · rename_i hopen
    split
    · simpa [outcome, Except.isOk, Except.toBool] using Kept.refl h
    · rename_i hroom
      rw [not_not] at hopen hroom
      have hs := (stage_streaming_iff _).2 hopen.1
      obtain ⟨a, ha⟩ := h.at hs
      have hqueued : Sends i (W ++ data) { s with sendBuffer := s.sendBuffer ++ data } :=
        Sends.of h.mss hs ⟨a, ha.queued hroom⟩
      have hflushed := hqueued.flush now
      simpa [outcome, Except.isOk, Except.toBool] using
        (⟨hflushed.sends, hflushed.endpoints, hflushed.mtu, hflushed.rank, hflushed.emits⟩ :
          Kept i (W ++ data) s _)

theorem Sends.shutdownWrite (h : Sends i W s) (now : T) :
    Kept i W s (s.outcome (s.shutdownWrite now)) := by
  unfold TunnelTCP.shutdownWrite
  split
  · rename_i hopen
    have hs := (stage_streaming_iff _).2 hopen.1
    obtain ⟨a, ha⟩ := h.at hs
    have hclosing : Sends i W { s with closeRequested := true } :=
      Sends.of h.mss hs ⟨a, ha.una, ha.le, ha.rest, ha.flight, ha.last, ha.quiet, ha.capacity⟩
    have hflushed := hclosing.flush now
    exact ⟨hflushed.sends, hflushed.endpoints, hflushed.mtu, hflushed.rank, hflushed.emits⟩
  · exact Kept.refl h

theorem Sends.connect (h : Sends i W s) (now : T) : Kept i W s (s.outcome (s.connect now)) := by
  unfold TunnelTCP.connect
  split
  · rename_i hidle
    have hi : Idle i W s := h.idle (by rw [hidle.1]; rfl)
    dsimp only [outcome]
    refine ⟨Sends.of h.mss rfl ⟨hi.una, ?_, ⟨_, rfl, hi.next, rfl, rfl⟩, hi.queue, hi.written,
      hi.quiet⟩, rfl, rfl, ?_, Emits.single ⟨length_encode_le _ _ (Nat.zero_le _), Nat.zero_le _,
      .inl rfl, fun _ => rfl, ?_⟩⟩
    · dsimp only
      rw [hi.next]
    · rw [hidle.1]
      exact Nat.zero_le _
    · intro hfin
      rw [segment_has] at hfin
      exact absurd hfin (by decide)
  · exact Kept.refl h

/-! ## Receiving -/

omit [Clock T] in
theorem takeData_cases (s : TunnelTCP T) (seg : TunnelTCPSegment) :
    (∃ buffer next, (s.takeData seg).1 =
      { s with receiveBuffer := buffer, receiveNext := next }) ∧
      ∀ bytes, .packet bytes ∉ (s.takeData seg).2 := by
  unfold takeData
  dsimp only
  split
  · exact ⟨⟨_, _, rfl⟩, by simp⟩
  · exact ⟨⟨s.receiveBuffer, s.receiveNext, rfl⟩, by simp⟩

theorem takeFin_cases (s : TunnelTCP T) (seg : TunnelTCPSegment) (reach available : ℤ) (now : T) :
    (∃ state next deadline, state.stage = s.state.stage ∧
      (s.takeFin seg reach available now).1 =
        { s with state := state, receiveNext := next, closeDeadline := deadline }) ∧
      ∀ bytes, .packet bytes ∉ (s.takeFin seg reach available now).2 := by
  unfold takeFin
  split
  · dsimp only
    split
    · rename_i hs
      exact ⟨⟨_, _, _, by rw [hs]; rfl, rfl⟩, by simp⟩
    · split
      · rename_i hs
        exact ⟨⟨_, _, _, by rw [hs]; rfl, rfl⟩, by simp⟩
      · split
        · rename_i hs
          exact ⟨⟨_, _, _, by rw [hs]; rfl, rfl⟩, by simp⟩
        · exact ⟨⟨_, _, _, rfl, rfl⟩, by simp⟩
  · exact ⟨⟨s.state, s.receiveNext, s.closeDeadline, rfl, rfl⟩, by simp⟩

theorem Plain.ite {endpoints : TunnelTCPEndpoints} {c : Prop} [Decidable c] {e : List Event}
    (h : Plain endpoints e) : Plain endpoints (if c then e else []) := by
  split
  · exact h
  · exact Plain.nil _

theorem Sends.takeSegment (h : Sends i W s) (seg : TunnelTCPSegment) (now : T) :
    Kept i W s (s.takeSegment seg now) := by
  obtain ⟨⟨buffer, next, hdata⟩, hplain⟩ := s.takeData_cases seg
  have hended := (s.takeData seg).1.takeFin_cases seg
    ((occupied seg : ℤ) + s.offset seg) s.window.toNat now
  unfold TunnelTCP.takeSegment
  dsimp only
  obtain ⟨⟨state, next', deadline, hstage, hfin⟩, hplain'⟩ := hended
  have hstage' : state.stage = s.state.stage := by
    rw [hstage, hdata]
  have hpass := h.received hstage' buffer next' deadline
  rw [hfin]
  have hack := plain_ackPacket
    { (s.takeData seg).1 with state := state, receiveNext := next', closeDeadline := deadline }
  rw [hdata] at hack ⊢
  have hflushed := hpass.flush now
  have hall := hflushed.before (((plain_of_no_packet hplain).append
    (plain_of_no_packet hplain')).append (hack.ite (c := 0 < occupied seg)))
  refine ⟨hall.sends, hall.endpoints, hall.mtu, ?_, ?_⟩
  · have := hall.rank
    dsimp only at this
    rwa [hstage'] at this
  · have := hall.emits
    rw [hdata] at this
    exact this

theorem Sends.receiveOpen (h : Sends i W s) (hs : s.Synchronized) (seg : TunnelTCPSegment)
    (now : T) : Kept i W s (s.receiveOpen seg now) := by
  have hack : Kept i W s (s, [s.ackPacket]) := (Kept.refl h).before (plain_ackPacket s)
  unfold TunnelTCP.receiveOpen
  split
  · exact hack
  · split
    · exact hack
    · rename_i hend
      rw [Bool.not_eq_true] at hend
      have hk := h.acknowledge hs hend now
      have hplain := s.plain_acknowledge seg now s.endpoints
      dsimp only
      split
      · exact hk
      · split
        · have hflushed := (hk.sends.flush now).before (plain_ackPacket _)
          have := hk.trans hplain hflushed
          rw [← List.append_assoc] at this
          exact this
        · split
          · have hflushed := (hk.sends.flush now).before
              ((plain_ackPacket _).ite (c := 0 < occupied seg))
            have := hk.trans hplain hflushed
            rw [← List.append_assoc] at this
            exact this
          · exact hk.trans hplain (hk.sends.takeSegment seg now)

omit [Clock T] in
theorem synchronized_of (h1 : s.state ≠ .idle) (h2 : s.state ≠ .closed) (h3 : s.state ≠ .failed)
    (h4 : s.state ≠ .synSent) : s.Synchronized := by
  unfold Synchronized
  cases hstate : s.state <;> simp_all [State.stage]

theorem Sends.receive (h : Sends i W s) (bytes : List UInt8) (now : T) :
    Kept i W s (s.receive bytes now) := by
  have hack : Kept i W s (s, [s.ackPacket]) := (Kept.refl h).before (plain_ackPacket s)
  unfold TunnelTCP.receive
  split
  · exact Kept.refl h
  · rename_i hopen
    rw [not_not] at hopen
    cases hdecode : TunnelTCPCodec.decode bytes s.endpoints s.mtu with
    | none => exact Kept.refl h
    | some seg =>
        dsimp only
        unfold TunnelTCP.receiveSegment
        split
        · rename_i hs
          exact h.receiveSynSent hs (TunnelTCPCodec.decode_mss_pos hdecode)
        · rename_i hs
          split
          · split
            · exact h.fail _
            · split
              · exact hack
              · exact Kept.refl h
          · split
            · split
              · have hsame := h.received (rfl : s.state.stage = s.state.stage) s.receiveBuffer s.receiveNext
                  (some (Clock.add now (Clock.seconds 120)))
                refine ⟨hsame, rfl, rfl, le_refl _, Plain.emits (plain_ackPacket s)⟩
              · exact Kept.refl h
            · split
              · exact hack
              · split
                · exact Kept.refl h
                · exact h.receiveOpen
                    (synchronized_of hopen.2.1 hopen.2.2.1 hopen.2.2.2 hs) seg now

/-! ## Timers -/

/-- The segment in flight, sent again. -/
theorem Sends.retransmit (h : Sends i W s) (hs : s.state.stage ≠ .ended) {p : Pending T}
    (hp : s.pending = some p) (now : T) : Kept i W s (s.retransmit p now) := by
  unfold TunnelTCP.retransmit
  split
  · exact h.fail _
  · dsimp only
    generalize (if Clock.lt (Clock.twice p.rto) (Clock.seconds 8) = true then Clock.twice p.rto
      else Clock.seconds 8) = rto
    cases hstage : s.state.stage with
    | idle =>
        have hnone := (h.idle hstage).pending
        rw [hp] at hnone
        cases hnone
    | opening =>
        have ho := h.opening hstage
        obtain ⟨q, hq, hseq, hpayload, hflags⟩ := ho.pending
        rw [hp, Option.some.injEq] at hq
        rw [← hq] at hseq hpayload hflags
        refine ⟨Sends.of h.mss hstage ⟨ho.una, ho.next, ⟨_, rfl, hseq, hpayload, hflags⟩, ho.queue,
          ho.written, ho.quiet⟩, rfl, rfl, le_refl _, Emits.single ?_⟩
        refine ⟨length_encode_le _ _ ?_, ?_, .inl hpayload, fun _ => hpayload, ?_⟩
        · simp only [segment, hpayload]
          exact Nat.zero_le _
        · simp only [segment, hpayload]
          exact Nat.zero_le _
        · intro hfin
          rw [segment_has, hflags] at hfin
          exact absurd hfin (by decide)
    | streaming =>
        obtain ⟨a, ha⟩ := h.at hstage
        rcases ha.flight with ⟨hnone, -⟩ | ⟨q, hq, hseq, hne, hnext, hflags, hqmss, hlen⟩
        · rw [hp] at hnone
          cases hnone
        · rw [hp, Option.some.injEq] at hq
          rw [← hq] at hseq hne hnext hflags hqmss hlen
          have hinflight : s.inFlight = p.payload := by
            rw [inFlight, hp]
            rfl
          have hrest := ha.rest
          have hcap := ha.capacity
          have hquiet : s.zeroWindowSince.isSome = true → False := by
            intro hz
            have := (ha.quiet hz).2
            rw [hp] at this
            cases this
          rw [hinflight] at hrest hcap
          refine ⟨Sends.of h.mss hstage ⟨a, ha.una, ha.le, hrest, .inr ⟨_, rfl, hseq, hne, hnext,
            hflags, hqmss, hlen⟩, ha.last, fun hz => (hquiet hz).elim, hcap⟩, rfl, rfl, le_refl _,
            Emits.single ?_⟩
          refine ⟨?_, hlen, .inr ⟨a, ha.le, ha.una, .inl ⟨hseq, ?_⟩⟩, fun hne => absurd hstage hne,
            ?_⟩
          · rw [TunnelTCPCodec.length_encode]
            simp only [segment, hqmss, Option.isNone_none, if_true]
            have := s.mtu_bounds
            have := h.mss
            omega
          · rw [hrest]
            exact List.prefix_append _ _
          · intro hfin
            rw [segment_has, hflags] at hfin
            exact absurd hfin (by decide)
    | finishing =>
        have hf := h.finishing hstage
        obtain ⟨q, hq, hseq, hpayload, hflags, hqmss⟩ := hf.pending
        rw [hp, Option.some.injEq] at hq
        rw [← hq] at hseq hpayload hflags hqmss
        refine ⟨Sends.of h.mss hstage ⟨hf.una, hf.next, ⟨_, rfl, hseq, hpayload, hflags, hqmss⟩,
          hf.queue, hf.quiet⟩, rfl, rfl, le_refl _, Emits.single ?_⟩
        refine ⟨length_encode_le _ _ ?_, ?_, .inl hpayload, fun _ => hpayload, ?_⟩
        · simp only [segment, hpayload]
          exact Nat.zero_le _
        · simp only [segment, hpayload]
          exact Nat.zero_le _
        · intro _
          exact ⟨hstage, hpayload, hseq, hf.una⟩
    | finished =>
        have hnone := (h.finished hstage).pending
        rw [hp] at hnone
        cases hnone
    | ended => exact absurd hstage hs

/-- A probe repeats the last byte that was acknowledged. -/
theorem Sends.probe (h : Sends i W s) (hs : s.state.stage ≠ .ended) (now : T) :
    Kept i W s (s.probe now) := by
  unfold TunnelTCP.probe
  split
  · exact Kept.refl h
  · rename_i since hsince
    split
    · exact h.fail _
    · split
      · cases hstage : s.state.stage with
        | idle =>
            have hnone := (h.idle hstage).quiet
            rw [hsince] at hnone
            cases hnone
        | opening =>
            have hnone := (h.opening hstage).quiet
            rw [hsince] at hnone
            cases hnone
        | streaming =>
            obtain ⟨a, ha⟩ := h.at hstage
            have hp := (ha.quiet (by rw [hsince]; rfl)).2
            have hnext := ha.next_of_none hp
            have hmss := h.mss
            refine ⟨Sends.of h.mss hstage ⟨a, ha.una, ha.le, ha.rest, ha.flight, ha.last, ha.quiet,
              ha.capacity⟩, rfl, rfl, le_refl _, Emits.single ?_⟩
            refine ⟨length_encode_le _ _ ?_, hmss.1, .inr ⟨a, ha.le, ha.una, .inr ⟨hnext, ?_,
              _, rfl, ha.last⟩⟩, fun hne => absurd hstage hne, ?_⟩
            · have := s.mtu_bounds
              simp only [segment, List.length_singleton]
              omega
            · simp only [segment]
              rw [BitVec.sub_add_cancel]
              exact hnext
            · intro hfin
              rw [segment_has] at hfin
              exact absurd hfin (by decide)
        | finishing =>
            have hnone := (h.finishing hstage).quiet
            rw [hsince] at hnone
            cases hnone
        | finished =>
            have hnone := (h.finished hstage).quiet
            rw [hsince] at hnone
            cases hnone
        | ended => exact absurd hstage hs
      · exact Kept.refl h

theorem Sends.tick (h : Sends i W s) (now : T) : Kept i W s (s.tick now) := by
  unfold TunnelTCP.tick
  split
  · exact Kept.refl h
  · rename_i hopen
    rw [not_not] at hopen
    have hs : s.state.stage ≠ .ended := by
      intro hended
      cases hstate : s.state <;> simp_all [State.stage]
    split
    · split
      · rename_i htime
        have hf := h.finished (by rw [htime]; rfl)
        refine ⟨Sends.of h.mss rfl ⟨hf.pending, hf.queue⟩, rfl, rfl, rank_le_ended _,
          (plain_of_no_packet (by simp)).emits⟩
      · exact h.fail _
    · split
      · exact h.probe hs now
      · rename_i p hp
        split
        · exact h.retransmit hs hp now
        · exact h.probe hs now

omit [Clock T] in
theorem Sends.abort (h : Sends i W s) : Kept i W s s.abort := by
  unfold TunnelTCP.abort
  split
  · exact Kept.refl h
  · refine ⟨Sends.of h.mss rfl ⟨rfl, rfl⟩, rfl, rfl, rank_le_ended _, Plain.emits ?_⟩
    intro bytes hb
    rw [List.mem_cons, List.mem_singleton, packet, Event.packet.injEq] at hb
    rcases hb with hb | hb
    · refine ⟨s.segment s.next (rst ||| TunnelTCPSegment.ack) [] none, hb, rfl, ?_⟩
      rw [segment_has]
      decide
    · cases hb

omit [Clock T] in
theorem Sends.read (h : Sends i W s) (maximum : ℕ) : Kept i W s (s.read maximum).2 := by
  unfold TunnelTCP.read
  split
  · exact Kept.refl h
  · have hpass := h.received (rfl : s.state.stage = s.state.stage)
      (s.receiveBuffer.drop (min maximum s.receiveBuffer.length)) s.receiveNext s.closeDeadline
    dsimp only
    split
    · exact ⟨hpass, rfl, rfl, le_refl _, (Plain.nil _).emits⟩
    · exact ⟨hpass, rfl, rfl, le_refl _, (plain_ackPacket _).emits⟩

/-! ## Runs -/

/-- Every call keeps the sending side right. -/
theorem Sends.perform (h : Sends i W s) (call : Call T) :
    Kept i (W ++ s.accepted call) s (s.perform call) := by
  cases call with
  | write data now => exact h.write data now
  | connect now =>
      rw [show s.accepted (.connect now) = [] from rfl, List.append_nil]
      exact h.connect now
  | shutdownWrite now =>
      rw [show s.accepted (.shutdownWrite now) = [] from rfl, List.append_nil]
      exact h.shutdownWrite now
  | receive bytes now =>
      rw [show s.accepted (.receive bytes now) = [] from rfl, List.append_nil]
      exact h.receive bytes now
  | read maximum =>
      rw [show s.accepted (.read maximum) = [] from rfl, List.append_nil]
      exact h.read maximum
  | tick now =>
      rw [show s.accepted (.tick now) = [] from rfl, List.append_nil]
      exact h.tick now
  | abort =>
      rw [show s.accepted .abort = [] from rfl, List.append_nil]
      exact h.abort

theorem sends_init {endpoints : TunnelTCPEndpoints} {mtu : ℕ}
    (h : init endpoints mtu i = some s) :
    Sends i [] s ∧ s.state = .idle ∧ s.endpoints = endpoints ∧ s.mtu = mtu := by
  unfold init at h
  split at h
  · rename_i hmtu
    split at h
    · rw [Option.some.injEq] at h
      rw [← h]
      refine ⟨Sends.of ?_ rfl ⟨rfl, rfl, rfl, rfl, rfl, rfl⟩, rfl, rfl, rfl⟩
      dsimp only
      omega
    · cases h
  · cases h

namespace Observed

/-- The invariant of a stream together with what was seen of it. -/
structure Sends (i : BitVec 32) (o : Observed T) : Prop where
  tcp : TunnelTCP.Sends i o.written o.tcp
  finSent : o.finSent = true → Stage.finishing.rank ≤ o.tcp.state.stage.rank

variable {o : Observed T}

theorem Sends.fin_of_event (h : o.Sends i) {call : Call T}
    (hf : (o.events call).any Event.isFin = true) :
    (o.step call).tcp.state.stage = .finishing := by
  obtain ⟨event, hmem, hfin⟩ := List.any_eq_true.1 hf
  cases event with
  | packet bytes =>
      obtain ⟨seg, rfl, hsent⟩ := (h.tcp.perform call).emits bytes hmem
      have hflag : seg.has fin = true := by
        rw [Event.isFin, packetFlags, TunnelTCPCodec.byteAt_encode_flags] at hfin
        exact hfin
      exact (hsent.fin hflag).1
  | connected => cases hfin
  | readable => cases hfin
  | writable => cases hfin
  | peerClosed => cases hfin
  | closed => cases hfin
  | failed reason => cases hfin

theorem Sends.step (h : o.Sends i) (call : Call T) : (o.step call).Sends i := by
  refine ⟨(h.tcp.perform call).sends, ?_⟩
  intro hf
  rw [Observed.step, Bool.or_eq_true] at hf
  rcases hf with hf | hf
  · exact (h.finSent hf).trans (h.tcp.perform call).rank
  · rw [h.fin_of_event hf]

theorem Sends.run (h : o.Sends i) (calls : List (Call T)) :
    (o.run calls).Sends i ∧ (o.run calls).tcp.endpoints = o.tcp.endpoints ∧
      (o.run calls).tcp.mtu = o.tcp.mtu := by
  induction calls using List.reverseRecOn with
  | nil => exact ⟨h, rfl, rfl⟩
  | append_singleton calls call ih =>
      rw [run_concat]
      obtain ⟨hs, he, hm⟩ := ih
      exact ⟨hs.step call, (hs.tcp.perform call).endpoints.trans he,
        (hs.tcp.perform call).mtu.trans hm⟩

end Observed

/-! ## The size of a segment -/

section

variable {calls : List (Call T)} {answer : TunnelTCPSegment}

theorem Opened.concat (h : Opened s calls answer) (call : Call T) :
    Opened s (calls ++ [call]) answer := by
  obtain ⟨before, bytes, now, after, rfl, hdecode, hbefore, hafter⟩ := h
  exact ⟨before, bytes, now, after ++ [call], by simp, hdecode, hbefore, hafter⟩

/-- The segment that opened the connection came earlier, or with the last call. -/
theorem Opened.of_concat {call : Call T} (h : Opened s (calls ++ [call]) answer) :
    Opened s calls answer ∨ ∃ bytes now, call = .receive bytes now ∧
      TunnelTCPCodec.decode bytes s.endpoints s.mtu = some answer ∧
      ((Observed.start s).run calls).tcp.state = .synSent ∧
      ((Observed.start s).run (calls ++ [call])).tcp.state = .established := by
  obtain ⟨before, bytes, now, after, hcalls, hdecode, hbefore, hafter⟩ := h
  rcases List.eq_nil_or_concat after with rfl | ⟨after, last, rfl⟩
  · obtain ⟨rfl, hcall⟩ := List.append_inj' hcalls rfl
    cases hcall
    exact .inr ⟨bytes, now, rfl, hdecode, hbefore, hafter⟩
  · rw [List.concat_eq_append, ← List.cons_append, ← List.append_assoc] at hcalls
    obtain ⟨rfl, -⟩ := List.append_inj' hcalls rfl
    exact .inl ⟨before, bytes, now, after, rfl, hdecode, hbefore, hafter⟩

/-- What is known of the size after some calls. -/
structure Negotiated (s : TunnelTCP T) (calls : List (Call T)) : Prop where
  size : ∀ answer, Opened s calls answer →
    ((Observed.start s).run calls).tcp.sendMSS = negotiatedMSS s.mtu answer
  past : ∀ answer, Opened s calls answer →
    Stage.streaming.rank ≤ ((Observed.start s).run calls).tcp.state.stage.rank
  answered : ((Observed.start s).run calls).tcp.state.stage = .streaming →
    ∃ answer, Opened s calls answer

theorem Negotiated.nil (h : s.state = .idle) : Negotiated s [] := by
  have hnot : ∀ answer, ¬ Opened s [] answer := by
    rintro answer ⟨before, bytes, now, after, hcalls, -⟩
    exact absurd hcalls.symm (by simp)
  refine ⟨fun answer h => absurd h (hnot answer), fun answer h => absurd h (hnot answer), ?_⟩
  intro hstage
  change s.state.stage = .streaming at hstage
  rw [h] at hstage
  cases hstage

theorem state_of_rank {state : State} (h : state.stage.rank < Stage.streaming.rank) :
    state = .idle ∨ state = .synSent := by
  cases state <;> first
    | exact .inl rfl
    | exact .inr rfl
    | exact absurd h (by decide)

theorem Negotiated.step (h : Negotiated s calls) (hs : (Observed.start s).Sends i)
    (call : Call T) : Negotiated s (calls ++ [call]) := by
  obtain ⟨hrun, he, hm⟩ := hs.run calls
  have hrank := (hrun.tcp.perform call).rank
  have hstep : ((Observed.start s).run (calls ++ [call])).tcp =
      (((Observed.start s).run calls).tcp.perform call).1 := by
    rw [Observed.run_concat]
    rfl
  have hopens : ∀ bytes now, call = .receive bytes now →
      ((Observed.start s).run calls).tcp.state = .synSent →
      ((Observed.start s).run (calls ++ [call])).tcp.state = .established →
      ∃ answer, TunnelTCPCodec.decode bytes s.endpoints s.mtu = some answer ∧
        ((Observed.start s).run (calls ++ [call])).tcp.sendMSS = negotiatedMSS s.mtu answer := by
    intro bytes now hcall hbefore hafter
    subst hcall
    rw [hstep] at hafter ⊢
    obtain ⟨answer, hdecode, hsize⟩ := receive_opens hbefore hafter
    rw [he, hm] at hdecode
    rw [hm] at hsize
    exact ⟨answer, hdecode, hsize⟩
  refine ⟨fun answer hanswer => ?_, fun answer hanswer => ?_, fun hstage => ?_⟩
  · rcases hanswer.of_concat with hearlier | ⟨bytes, now, hcall, hdecode, hbefore, hafter⟩
    · rw [hstep, sendMSS_perform, h.size answer hearlier]
      intro hopening
      have hpast := h.past answer hearlier
      rw [hopening] at hpast
      exact absurd hpast (by decide)
    · obtain ⟨answer', hdecode', hsize⟩ := hopens bytes now hcall hbefore hafter
      rw [hdecode] at hdecode'
      cases hdecode'
      exact hsize
  · rcases hanswer.of_concat with hearlier | ⟨bytes, now, -, -, -, hafter⟩
    · rw [hstep]
      exact (h.past answer hearlier).trans hrank
    · rw [hafter]
      exact le_refl _
  · by_cases hbefore : ((Observed.start s).run calls).tcp.state.stage = .streaming
    · obtain ⟨answer, hanswer⟩ := h.answered hbefore
      exact ⟨answer, hanswer.concat call⟩
    · rw [hstep] at hstage
      rw [hstage] at hrank
      have hless : ((Observed.start s).run calls).tcp.state.stage.rank < Stage.streaming.rank := by
        refine lt_of_le_of_ne hrank fun heq => hbefore ?_
        cases hstate : ((Observed.start s).run calls).tcp.state <;> rw [hstate] at heq <;>
          first
            | rfl
            | exact absurd heq (by decide)
      rcases perform_opens (state_of_rank hless) call with hnot | ⟨hopening, hopen, bytes, now, hcall⟩
      · rcases hnot with heq | heq | heq | heq <;> rw [heq] at hstage <;> cases hstage
      · rw [← hstep] at hopen
        obtain ⟨answer, hdecode, -⟩ := hopens bytes now hcall hopening hopen
        subst hcall
        exact ⟨answer, calls, bytes, now, [], rfl, hdecode, hopening, hopen⟩

theorem Negotiated.run (hs : (Observed.start s).Sends i) (hidle : s.state = .idle)
    (calls : List (Call T)) : Negotiated s calls := by
  induction calls using List.reverseRecOn with
  | nil => exact .nil hidle
  | append_singleton calls call ih => exact ih.step hs call

end

/-- What is in flight is what lies between `una` and `next`, and the bytes that
wait or fly are bounded. -/
structure Bounded (s : TunnelTCP T) : Prop where
  pending_none_iff : s.state ≠ .closed → s.state ≠ .failed → (s.pending = none ↔ s.una = s.next)
  pending_covers : s.state ≠ .closed → s.state ≠ .failed → ∀ p, s.pending = some p →
    p.sequence = s.una ∧ s.next = s.una + BitVec.ofNat 32
      (p.payload.length + if p.flags &&& (syn ||| fin) ≠ 0 then 1 else 0)
  capacity : s.sendBuffer.length + s.inFlight.length ≤ 65536

omit [Clock T] in
theorem add_ofNat_ne {x : BitVec 32} {n : ℕ} (hpos : 0 < n) (hn : n < 2 ^ 32) :
    x ≠ x + BitVec.ofNat 32 n := by
  intro h
  have hzero : BitVec.ofNat 32 0 = BitVec.ofNat 32 n := by
    refine add_left_cancel (a := x) ?_
    rw [BitVec.add_zero]
    exact h
  have := SerialNumber.eq_of_ofNat_eq (w := 32) (by decide) hn hzero
  omega

omit [Clock T] in
/-- A single segment in flight, of `n` sequence numbers. -/
theorem Bounded.of_some {p : Pending T} (hp : s.pending = some p) {n : ℕ} (hpos : 0 < n)
    (hn : n < 2 ^ 32) (hseq : p.sequence = s.una) (hnext : s.next = s.una + BitVec.ofNat 32 n)
    (hcount : n = p.payload.length + if p.flags &&& (syn ||| fin) ≠ 0 then 1 else 0)
    (hcap : s.sendBuffer.length + s.inFlight.length ≤ 65536) : s.Bounded := by
  refine ⟨fun _ _ => ⟨?_, ?_⟩, ?_, hcap⟩
  · intro hnone
    rw [hp] at hnone
    cases hnone
  · intro heq
    rw [hnext] at heq
    exact absurd heq (add_ofNat_ne hpos hn)
  · intro _ _ q hq
    rw [hp, Option.some.injEq] at hq
    rw [← hq, ← hcount]
    exact ⟨hseq, hnext⟩

omit [Clock T] in
theorem Bounded.of_none (hp : s.pending = none) (hnext : s.next = s.una)
    (hcap : s.sendBuffer.length + s.inFlight.length ≤ 65536) : s.Bounded := by
  refine ⟨fun _ _ => ⟨fun _ => hnext.symm, fun _ => hp⟩, ?_, hcap⟩
  intro _ _ q hq
  rw [hp] at hq
  cases hq

omit [Clock T] in
theorem Sends.bounded (h : Sends i W s) : s.Bounded := by
  have hbounds := s.mtu_bounds
  have hmss := h.mss
  cases hstage : s.state.stage with
  | idle =>
      have hi := h.idle hstage
      refine Bounded.of_none hi.pending (hi.next.trans hi.una.symm) ?_
      rw [inFlight, hi.pending, hi.queue]
      exact Nat.zero_le _
  | opening =>
      have ho := h.opening hstage
      obtain ⟨p, hp, hseq, hpayload, hflags⟩ := ho.pending
      refine Bounded.of_some hp (n := 1) (by decide) (by decide) (hseq.trans ho.una.symm) ?_ ?_ ?_
      · rw [ho.next, ho.una]
        rfl
      · rw [hpayload, hflags]
        decide
      · rw [inFlight, hp, ho.queue, Option.map_some, hpayload]
        exact Nat.zero_le _
  | streaming =>
      obtain ⟨a, ha⟩ := h.at hstage
      rcases ha.flight with ⟨hp, hnext⟩ | ⟨p, hp, hseq, hne, hnext, hflags, -, hlen⟩
      · exact Bounded.of_none hp hnext ha.capacity
      · have hpos : 0 < p.payload.length := List.length_pos_of_ne_nil hne
        refine Bounded.of_some hp hpos (by omega) hseq hnext ?_ ha.capacity
        rw [hflags, if_neg (by decide)]
        rfl
  | finishing =>
      have hf := h.finishing hstage
      obtain ⟨p, hp, hseq, hpayload, hflags, -⟩ := hf.pending
      refine Bounded.of_some hp (n := 1) (by decide) (by decide) hseq hf.next ?_ ?_
      · rw [hpayload, hflags]
        decide
      · rw [inFlight, hp, hf.queue, Option.map_some, hpayload]
        exact Nat.zero_le _
  | finished =>
      have hf := h.finished hstage
      refine Bounded.of_none hf.pending hf.next ?_
      rw [inFlight, hf.pending, hf.queue]
      exact Nat.zero_le _
  | ended =>
      have hat := h.stage
      rw [hstage] at hat
      have hterminal : s.state = .closed ∨ s.state = .failed := by
        cases hstate : s.state <;> simp_all [State.stage]
      refine ⟨?_, ?_, ?_⟩
      · intro h1 h2
        exact absurd hterminal (by simp [h1, h2])
      · intro h1 h2
        exact absurd hterminal (by simp [h1, h2])
      · rw [inFlight, hat.pending, hat.queue]
        exact Nat.zero_le _

/-- A packet that a call sent, in terms of the bytes written and the packets sent
until then. -/
structure Faithful (i : BitVec 32) (before after : Observed T) (seg : TunnelTCPSegment) :
    Prop where
  mss : seg.payload.length ≤ after.tcp.sendMSS
  carries : Carries i after.written after.tcp seg
  fin : seg.has fin = true → seg.payload = [] ∧ after.tcp.inFlight = [] ∧
    after.tcp.sendBuffer = [] ∧ seg.sequence = i + 1 + BitVec.ofNat 32 after.written.length
  after_fin : before.finSent = true → seg.payload = []

theorem Observed.Sends.faithful {o : Observed T} (h : o.Sends i) {call : Call T}
    {seg : TunnelTCPSegment} (hsent : Sent i (o.step call).written (o.step call).tcp seg) :
    Faithful i o (o.step call) seg := by
  have hafter := h.step call
  refine ⟨hsent.mss, hsent.carries, ?_, ?_⟩
  · intro hfin
    obtain ⟨hstage, hpayload, hseq, huna⟩ := hsent.fin hfin
    have hf := hafter.tcp.finishing hstage
    obtain ⟨p, hp, -, hempty, -⟩ := hf.pending
    refine ⟨hpayload, ?_, hf.queue, hseq.trans huna⟩
    rw [inFlight, hp, Option.map_some, hempty]
    rfl
  · intro hbefore
    refine hsent.streaming ?_
    intro hstage
    have hrank := (h.finSent hbefore).trans (h.tcp.perform call).rank
    rw [show (o.tcp.perform call).1 = (o.step call).tcp from rfl, hstage] at hrank
    exact absurd hrank (by decide)

/-- The opening of the source's tests, with a peer that takes 1220 bytes in a segment. -/
def fixtureOpening : List (Call ℕ) :=
  [.connect 0, .receive (incoming 1000 101 18 32768 [] (some 1220)) 0]

/-- The packet with the three bytes that are written then. -/
def fixturePacket : List UInt8 :=
  TunnelTCPCodec.encode ⟨101, 1001, 24, 32768, [97, 98, 99], none⟩ fixtureEndpoints false

end

end TunnelTCP

end Tolkara
