import Tolkara.Tunnel.Codec

/-!
# The TCP stream of the tunnel

`TunnelTCP`: one active-open stream with at most one segment in flight. The
object's fields are a record and every method returns the new record with the
events it reports; a method that throws changes nothing.

Time is a parameter. The code adds seconds to a `TimeInterval`, a double, and compares two
of them, and nothing below depends on how that rounds.
-/

namespace Tolkara

/-- What the code does with a `TimeInterval`. -/
class Clock (T : Type) where
  isFinite : T → Bool
  seconds : ℕ → T
  add : T → T → T
  twice : T → T
  ge : T → T → Bool
  lt : T → T → Bool

instance : Clock Float where
  isFinite := Float.isFinite
  seconds := Float.ofNat
  add a b := a + b
  twice a := a * 2
  ge a b := decide (b ≤ a)
  lt a b := decide (a < b)

instance : Clock ℕ where
  isFinite _ := true
  seconds n := n
  add := (· + ·)
  twice n := 2 * n
  ge a b := decide (b ≤ a)
  lt a b := decide (a < b)

namespace TunnelTCP

inductive State where
  | idle
  | synSent
  | established
  | closeWait
  | finWait1
  | finWait2
  | closing
  | lastAck
  | timeWait
  | closed
  | failed
deriving DecidableEq, Repr

inductive Failure where
  | invalidState
  | backpressure
  | timeout
  | reset
deriving DecidableEq, Repr

inductive Event where
  | packet (bytes : List UInt8)
  | connected
  | readable
  | writable
  | peerClosed
  | closed
  | failed (reason : Failure)
deriving DecidableEq

/-- The segment in flight. -/
structure Pending (T : Type) where
  sequence : BitVec 32
  flags : UInt8
  payload : List UInt8
  mss : Option (BitVec 16)
  sent : T
  rto : T
  retries : ℕ
deriving DecidableEq

def receiveCapacity : ℕ := 32768

def sendCapacity : ℕ := 65536

/-- `before`: `a` precedes `b` in sequence space. -/
def before (a b : BitVec 32) : Bool := (a - b).toInt < 0

end TunnelTCP

structure TunnelTCP (T : Type) where
  state : TunnelTCP.State
  endpoints : TunnelTCPEndpoints
  mtu : ℕ
  mtu_bounds : 1280 ≤ mtu ∧ mtu ≤ 16000
  una : BitVec 32
  next : BitVec 32
  receiveNext : BitVec 32
  peerWindow : ℕ
  windowSequence : BitVec 32
  windowACK : BitVec 32
  sendMSS : ℕ
  receiveBuffer : List UInt8
  sendBuffer : List UInt8
  pending : Option (TunnelTCP.Pending T)
  closeRequested : Bool
  closeDeadline : Option T
  zeroWindowSince : Option T
  lastProbe : T
  lastAcknowledgedByte : UInt8
deriving DecidableEq

namespace TunnelTCP

open TunnelTCPSegment (fin syn rst psh)

variable {T : Type} [Clock T]

def init (endpoints : TunnelTCPEndpoints) (mtu : ℕ) (initialSequence : BitVec 32) :
    Option (TunnelTCP T) :=
  if h : 1280 ≤ mtu ∧ mtu ≤ 16000 then
    if 0 < endpoints.localPort.toNat ∧ 0 < endpoints.remotePort.toNat ∧
        endpoints.localAddress ≠ endpoints.remoteAddress then
      some
        { state := .idle
          endpoints := endpoints
          mtu := mtu
          mtu_bounds := h
          una := initialSequence
          next := initialSequence
          receiveNext := 0
          peerWindow := 0
          windowSequence := 0
          windowACK := 0
          sendMSS := 1220
          receiveBuffer := []
          sendBuffer := []
          pending := none
          closeRequested := false
          closeDeadline := none
          zeroWindowSince := none
          lastProbe := Clock.seconds 0
          lastAcknowledgedByte := 0 }
    else none
  else none

/-- The conversion to `UInt16` traps when the buffer is longer than its capacity. -/
def window (s : TunnelTCP T) : BitVec 16 :=
  BitVec.ofNat 16 (receiveCapacity - s.receiveBuffer.length)

def segment (s : TunnelTCP T) (sequence : BitVec 32) (flags : UInt8) (payload : List UInt8)
    (mss : Option (BitVec 16)) : TunnelTCPSegment :=
  { sequence := sequence
    acknowledgement := s.receiveNext
    flags := flags
    window := s.window
    payload := payload
    mss := mss }

def packet (s : TunnelTCP T) (sequence : BitVec 32) (flags : UInt8) (payload : List UInt8)
    (mss : Option (BitVec 16)) : Event :=
  .packet (TunnelTCPCodec.encode (s.segment sequence flags payload mss) s.endpoints false)

def ackPacket (s : TunnelTCP T) : Event := s.packet s.next TunnelTCPSegment.ack [] none

def fail (s : TunnelTCP T) (reason : Failure) : TunnelTCP T × List Event :=
  ({ s with state := .failed, pending := none, sendBuffer := [], receiveBuffer := [] },
    [.failed reason])

def connect (s : TunnelTCP T) (now : T) : Except Failure (TunnelTCP T × List Event) :=
  if s.state = .idle ∧ Clock.isFinite now = true then
    let mss := BitVec.ofNat 16 (s.mtu - 60)
    let s' :=
      { s with
        pending := some ⟨s.next, syn, [], some mss, now, Clock.seconds 1, 0⟩
        next := s.next + 1
        state := .synSent }
    .ok (s', [s'.packet s'.una syn [] (some mss)])
  else .error .invalidState

def inFlight (s : TunnelTCP T) : List UInt8 := (s.pending.map Pending.payload).getD []

/-- The peer's window is closed: probes start, unless they already have. -/
def awaitWindow (s : TunnelTCP T) (now : T) : TunnelTCP T :=
  if s.zeroWindowSince.isNone then { s with zeroWindowSince := some now, lastProbe := now } else s

def flush (s : TunnelTCP T) (now : T) : TunnelTCP T × List Event :=
  if s.pending.isSome ∨ ¬(s.state = .established ∨ s.state = .closeWait) then (s, [])
  else if s.sendBuffer ≠ [] then
    if s.peerWindow = 0 then (s.awaitWindow now, [])
    else
      let count := min (min s.sendBuffer.length s.sendMSS) s.peerWindow
      let data := s.sendBuffer.take count
      let s' :=
        { s with
          zeroWindowSince := none
          sendBuffer := s.sendBuffer.drop count
          next := s.next + BitVec.ofNat 32 count
          pending :=
            some ⟨s.next, TunnelTCPSegment.ack ||| psh, data, none, now, Clock.seconds 1, 0⟩ }
      (s', [s'.packet s.next (TunnelTCPSegment.ack ||| psh) data none])
  else if s.closeRequested = true then
    if s.peerWindow = 0 then (s.awaitWindow now, [])
    else
      let s' :=
        { s with
          next := s.next + 1
          pending := some ⟨s.next, TunnelTCPSegment.ack ||| fin, [], none, now, Clock.seconds 1, 0⟩
          state := if s.state = .closeWait then .lastAck else .finWait1 }
      (s', [s'.packet s.next (TunnelTCPSegment.ack ||| fin) [] none])
  else (s, [])

def write (s : TunnelTCP T) (data : List UInt8) (now : T) :
    Except Failure (TunnelTCP T × List Event) :=
  if ¬((s.state = .established ∨ s.state = .closeWait) ∧ s.closeRequested = false ∧
      Clock.isFinite now = true) then .error .invalidState
  else if ¬((data.length : ℤ) ≤
      (sendCapacity : ℤ) - s.sendBuffer.length - s.inFlight.length) then .error .backpressure
  else .ok (flush { s with sendBuffer := s.sendBuffer ++ data } now)

/-- `read`: what it returns, with the new state and the events. -/
def read (s : TunnelTCP T) (maximum : ℕ) : List UInt8 × TunnelTCP T × List Event :=
  if ¬(0 < maximum ∧ s.receiveBuffer ≠ []) then ([], s, [])
  else
    let count := min maximum s.receiveBuffer.length
    let output := s.receiveBuffer.take count
    let s' := { s with receiveBuffer := s.receiveBuffer.drop count }
    if s.state = .failed ∨ s.state = .closed then (output, s', [])
    else (output, s', [s'.ackPacket])

def shutdownWrite (s : TunnelTCP T) (now : T) : Except Failure (TunnelTCP T × List Event) :=
  if (s.state = .established ∨ s.state = .closeWait) ∧ s.closeRequested = false ∧
      Clock.isFinite now = true then
    .ok (flush { s with closeRequested := true } now)
  else .error .invalidState

/-! ## Receiving -/

/-- The answer to a segment while the connection is being opened. -/
def receiveSynSent (s : TunnelTCP T) (seg : TunnelTCPSegment) : TunnelTCP T × List Event :=
  if seg.has rst = true then
    if seg.has TunnelTCPSegment.ack = true ∧ seg.acknowledgement = s.next then s.fail .reset
    else (s, [])
  else if ¬(seg.has syn = true ∧ seg.has TunnelTCPSegment.ack = true ∧ seg.has fin = false ∧
      seg.acknowledgement = s.next ∧ seg.payload = []) then (s, [])
  else
    let s' :=
      { s with
        una := s.next
        receiveNext := seg.sequence + 1
        pending := none
        peerWindow := seg.window.toNat
        windowSequence := seg.sequence
        windowACK := seg.acknowledgement
        sendMSS := min ((seg.mss.map BitVec.toNat).getD 1220) (s.mtu - 60)
        state := .established }
    (s', [s'.ackPacket, .connected])

def occupied (seg : TunnelTCPSegment) : ℕ :=
  seg.payload.length + if seg.has fin = true then 1 else 0

/-- Where a segment starts, from the next byte that is expected. -/
def offset (s : TunnelTCP T) (seg : TunnelTCPSegment) : ℤ := (seg.sequence - s.receiveNext).toInt

def acceptable (s : TunnelTCP T) (seg : TunnelTCPSegment) : Bool :=
  let length : ℤ := occupied seg
  let offset := s.offset seg
  let available : ℤ := s.window.toNat
  if available = 0 then length = 0 ∧ offset = 0
  else if length = 0 then 0 ≤ offset ∧ offset < available
  else (0 ≤ offset ∧ offset < available) ∨
    (0 ≤ offset + length - 1 ∧ offset + length - 1 < available)

/-- A window the peer advertises is taken from the newest segment. -/
def updateWindow (s : TunnelTCP T) (seg : TunnelTCPSegment) : TunnelTCP T :=
  if before s.windowSequence seg.sequence = true ∨
      (s.windowSequence = seg.sequence ∧ before seg.acknowledgement s.windowACK = false) then
    { s with
      peerWindow := seg.window.toNat
      windowSequence := seg.sequence
      windowACK := seg.acknowledgement
      zeroWindowSince := if 0 < seg.window.toNat then none else s.zeroWindowSince }
  else s

/-- The segment in flight after `amount` of it was acknowledged. -/
def retire (s : TunnelTCP T) (acknowledgement : BitVec 32) (now : T) : TunnelTCP T :=
  let amount := (acknowledgement - s.una).toNat
  match s.pending with
  | none => { s with una := acknowledgement }
  | some p =>
    { s with
      una := acknowledgement
      lastAcknowledgedByte :=
        if amount ≤ p.payload.length ∧ 0 < amount then p.payload.getD (amount - 1) 0
        else s.lastAcknowledgedByte
      pending :=
        if acknowledgement = s.next then none
        else if amount ≤ p.payload.length then
          some
            { p with
              payload := p.payload.drop amount
              sequence := acknowledgement
              sent := now
              rto := Clock.seconds 1
              retries := 0 }
        else some p }

/-- The close moves on once everything sent was acknowledged. -/
def advanceClose (s : TunnelTCP T) (now : T) : TunnelTCP T × List Event :=
  if s.pending.isSome then (s, [])
  else if s.state = .finWait1 then
    ({ s with state := .finWait2, closeDeadline := some (Clock.add now (Clock.seconds 30)) }, [])
  else if s.state = .closing then
    ({ s with state := .timeWait, closeDeadline := some (Clock.add now (Clock.seconds 120)) }, [])
  else if s.state = .lastAck then ({ s with state := .closed }, [.closed])
  else (s, [])

def acknowledge (s : TunnelTCP T) (seg : TunnelTCPSegment) (now : T) :
    TunnelTCP T × List Event :=
  if before seg.acknowledgement s.una = true then (s, [])
  else
    let s' := s.updateWindow seg
    if before s'.una seg.acknowledgement = true then
      let r := (s'.retire seg.acknowledgement now).advanceClose now
      (r.1, .writable :: r.2)
    else (s', [])

/-- The new bytes of a segment that starts at or before the expected one. -/
def takeData (s : TunnelTCP T) (seg : TunnelTCPSegment) : TunnelTCP T × List Event :=
  let skipped := min seg.payload.length (max 0 (-s.offset seg)).toNat
  let dataCount := min (seg.payload.length - skipped) s.window.toNat
  if 0 < dataCount then
    ({ s with
        receiveBuffer := s.receiveBuffer ++ (seg.payload.drop skipped).take dataCount
        receiveNext := s.receiveNext + BitVec.ofNat 32 dataCount }, [.readable])
  else (s, [])

/-- The end of the peer's stream, once every byte before it was taken. `reach` is
the end of the segment from the byte that was expected, `available` the window
before its bytes were taken. -/
def takeFin (s : TunnelTCP T) (seg : TunnelTCPSegment) (reach available : ℤ) (now : T) :
    TunnelTCP T × List Event :=
  if seg.has fin = true ∧
      seg.sequence + BitVec.ofNat 32 seg.payload.length = s.receiveNext ∧ reach ≤ available then
    let s' := { s with receiveNext := s.receiveNext + 1 }
    if s.state = .established then ({ s' with state := .closeWait }, [.peerClosed])
    else if s.state = .finWait1 then ({ s' with state := .closing }, [.peerClosed])
    else if s.state = .finWait2 then
      ({ s' with
          state := .timeWait
          closeDeadline := some (Clock.add now (Clock.seconds 120)) }, [.peerClosed])
    else (s', [.peerClosed])
  else (s, [])

/-- A segment's bytes and FIN, after its acknowledgement. -/
def takeSegment (s : TunnelTCP T) (seg : TunnelTCPSegment) (now : T) :
    TunnelTCP T × List Event :=
  let data := s.takeData seg
  let ended := data.1.takeFin seg ((occupied seg : ℤ) + s.offset seg) s.window.toNat now
  let flushed := ended.1.flush now
  (flushed.1,
    data.2 ++ ended.2 ++ (if 0 < occupied seg then [ended.1.ackPacket] else []) ++ flushed.2)

/-- The answer to a segment of an open connection. -/
def receiveOpen (s : TunnelTCP T) (seg : TunnelTCPSegment) (now : T) : TunnelTCP T × List Event :=
  if s.acceptable seg = false then (s, [s.ackPacket])
  else if before s.next seg.acknowledgement = true then (s, [s.ackPacket])
  else
    let r := s.acknowledge seg now
    if r.1.state = .closed then r
    else if 0 < r.1.offset seg then
      let flushed := r.1.flush now
      (flushed.1, r.2 ++ [r.1.ackPacket] ++ flushed.2)
    else if r.1.state = .closeWait ∨ r.1.state = .lastAck ∨ r.1.state = .closing ∨
        r.1.state = .timeWait then
      let flushed := r.1.flush now
      (flushed.1, r.2 ++ (if 0 < occupied seg then [r.1.ackPacket] else []) ++ flushed.2)
    else
      let taken := r.1.takeSegment seg now
      (taken.1, r.2 ++ taken.2)

def receiveSegment (s : TunnelTCP T) (seg : TunnelTCPSegment) (now : T) :
    TunnelTCP T × List Event :=
  if s.state = .synSent then s.receiveSynSent seg
  else if seg.has rst = true then
    if seg.sequence = s.receiveNext then s.fail .reset
    else if (seg.sequence - s.receiveNext).toNat < s.window.toNat then (s, [s.ackPacket])
    else (s, [])
  else if s.state = .timeWait then
    if seg.has fin = true ∧
        seg.sequence + BitVec.ofNat 32 seg.payload.length + 1 = s.receiveNext then
      ({ s with closeDeadline := some (Clock.add now (Clock.seconds 120)) }, [s.ackPacket])
    else (s, [])
  else if seg.has syn = true then (s, [s.ackPacket])
  else if seg.has TunnelTCPSegment.ack = false then (s, [])
  else s.receiveOpen seg now

def receive (s : TunnelTCP T) (bytes : List UInt8) (now : T) : TunnelTCP T × List Event :=
  if ¬(Clock.isFinite now = true ∧ s.state ≠ .idle ∧ s.state ≠ .closed ∧ s.state ≠ .failed) then
    (s, [])
  else
    match TunnelTCPCodec.decode bytes s.endpoints s.mtu with
    | none => (s, [])
    | some seg => s.receiveSegment seg now

/-! ## Timers -/

def passed (now : T) (deadline : Option T) : Bool := (deadline.map (Clock.ge now)).getD false

/-- The retransmission of the segment in flight. -/
def retransmit (s : TunnelTCP T) (p : Pending T) (now : T) : TunnelTCP T × List Event :=
  if 5 ≤ p.retries then s.fail .timeout
  else
    let rto := if Clock.lt (Clock.twice p.rto) (Clock.seconds 8) then Clock.twice p.rto
      else Clock.seconds 8
    let p' := { p with retries := p.retries + 1, sent := now, rto := rto }
    let s' := { s with pending := some p' }
    (s', [s'.packet p.sequence p.flags p.payload p.mss])

def probe (s : TunnelTCP T) (now : T) : TunnelTCP T × List Event :=
  match s.zeroWindowSince with
  | none => (s, [])
  | some since =>
    if Clock.ge now (Clock.add since (Clock.seconds 30)) then s.fail .timeout
    else if Clock.ge now (Clock.add s.lastProbe (Clock.seconds 1)) then
      let s' := { s with lastProbe := now }
      (s', [s'.packet (s.next - 1) TunnelTCPSegment.ack [s.lastAcknowledgedByte] none])
    else (s, [])

def tick (s : TunnelTCP T) (now : T) : TunnelTCP T × List Event :=
  if ¬(Clock.isFinite now = true ∧ s.state ≠ .failed ∧ s.state ≠ .closed) then (s, [])
  else if passed now s.closeDeadline = true then
    if s.state = .timeWait then ({ s with state := .closed }, [.closed]) else s.fail .timeout
  else
    match s.pending with
    | none => s.probe now
    | some p =>
      if Clock.ge now (Clock.add p.sent p.rto) then s.retransmit p now else s.probe now

def abort (s : TunnelTCP T) : TunnelTCP T × List Event :=
  if s.state = .closed ∨ s.state = .failed then (s, [])
  else
    let reset := s.packet s.next (rst ||| TunnelTCPSegment.ack) [] none
    ({ s with state := .closed, pending := none, sendBuffer := [], receiveBuffer := [] },
      [reset, .closed])

/-! ## Runs -/

/-- A call of the stream's owner. -/
inductive Call (T : Type) where
  | connect (now : T)
  | write (data : List UInt8) (now : T)
  | shutdownWrite (now : T)
  | receive (bytes : List UInt8) (now : T)
  | read (maximum : ℕ)
  | tick (now : T)
  | abort

/-- A method that throws leaves the stream as it was. -/
def outcome (s : TunnelTCP T) (r : Except Failure (TunnelTCP T × List Event)) :
    TunnelTCP T × List Event :=
  match r with
  | .ok r => r
  | .error _ => (s, [])

def perform (s : TunnelTCP T) : Call T → TunnelTCP T × List Event
  | .connect now => s.outcome (s.connect now)
  | .write data now => s.outcome (s.write data now)
  | .shutdownWrite now => s.outcome (s.shutdownWrite now)
  | .receive bytes now => s.receive bytes now
  | .read maximum => (s.read maximum).2
  | .tick now => s.tick now
  | .abort => s.abort

def accepted (s : TunnelTCP T) : Call T → List UInt8
  | .write data now => if (s.write data now).isOk then data else []
  | _ => []

/-- The bytes a call takes out of the stream. -/
def returned (s : TunnelTCP T) : Call T → List UInt8
  | .read maximum => (s.read maximum).1
  | _ => []

def packetFlags (bytes : List UInt8) : UInt8 := TunnelTCPCodec.byteAt bytes 53

/-- The packet closes our side of the stream. -/
def Event.isFin : Event → Bool
  | .packet bytes => packetFlags bytes &&& fin != 0
  | _ => false

/-- A stream with what its owner has seen of it so far. -/
structure Observed (T : Type) where
  tcp : TunnelTCP T
  /-- The bytes `write` accepted. -/
  written : List UInt8
  /-- The bytes `read` returned. -/
  delivered : List UInt8
  /-- A packet with a FIN was sent. -/
  finSent : Bool
  /-- How often `peerClosed` was reported. -/
  peerCloses : ℕ

namespace Observed

def start (s : TunnelTCP T) : Observed T := ⟨s, [], [], false, 0⟩

def events (o : Observed T) (call : Call T) : List Event := (o.tcp.perform call).2

def step (o : Observed T) (call : Call T) : Observed T :=
  { tcp := (o.tcp.perform call).1
    written := o.written ++ o.tcp.accepted call
    delivered := o.delivered ++ o.tcp.returned call
    finSent := o.finSent || (o.events call).any Event.isFin
    peerCloses := o.peerCloses + (o.events call).count .peerClosed }

def run (o : Observed T) (calls : List (Call T)) : Observed T := calls.foldl step o

theorem run_concat (o : Observed T) (calls : List (Call T)) (call : Call T) :
    o.run (calls ++ [call]) = (o.run calls).step call := by
  rw [run, List.foldl_append]
  rfl

end Observed

def fixtureAddress (last : UInt8) : IPv6Address :=
  ⟨[0xfd, 0, 0, 0, 0, 0, 0, 0, 0, 0, 0, 0, 0, 0, 0, last], rfl⟩

/-- The endpoints of the source's tests, `fd00::1` and `fd00::2`. -/
def fixtureEndpoints : TunnelTCPEndpoints :=
  { localAddress := fixtureAddress 1
    remoteAddress := fixtureAddress 2
    localPort := 49160
    remotePort := 58783 }

/-- `incoming` of the source's tests: a packet of the peer. -/
def incoming (sequence acknowledgement : BitVec 32) (flags : UInt8) (window : BitVec 16)
    (data : List UInt8) (mss : Option (BitVec 16)) : List UInt8 :=
  TunnelTCPCodec.encode ⟨sequence, acknowledgement, flags, window, data, mss⟩ fixtureEndpoints true

end TunnelTCP

end Tolkara
