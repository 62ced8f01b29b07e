import Tolkara.Tunnel.TCP

/-!
# The streams of one tunnel

`TunnelStreams` owns the TCP streams of a tunnel and hands every packet to the
stream of its port. A stream leaves the table with the event that ends it. The
dictionaries of the source are association lists, and a fresh identifier is the
next number. A method that throws may still have advanced the clock.
-/

namespace Tolkara

namespace TunnelStreams

inductive Failure where
  | invalidState
  | capacity
  | invalidTime
  | cancelled
  | malformed
  | tcp (reason : TunnelTCP.Failure)
deriving DecidableEq, Repr

inductive StreamEvent where
  | connected
  | readable
  | writable
  | peerClosed
  | closed (error : Option Failure)
deriving DecidableEq

inductive Event where
  | packet (bytes : List UInt8)
  | stream (id : ℕ) (event : StreamEvent)
deriving DecidableEq

structure Entry (T : Type) where
  port : BitVec 16
  tcp : TunnelTCP T
deriving DecidableEq

end TunnelStreams

/-- The part of `CDTunnelConfiguration` the streams use. -/
structure CDTunnelConfiguration where
  clientAddress : IPv6Address
  serverAddress : IPv6Address
  mtu : ℕ
deriving DecidableEq

structure TunnelStreams (T : Type) where
  configuration : CDTunnelConfiguration
  entries : List (ℕ × TunnelStreams.Entry T)
  ports : List (BitVec 16 × ℕ)
  retired : List (BitVec 16 × T)
  lastTime : T
  stopped : Bool
  /-- The next identifier `UUID()` gives. -/
  nextID : ℕ
deriving DecidableEq

namespace TunnelStreams

variable {T : Type} [Clock T]

def init (configuration : CDTunnelConfiguration) : TunnelStreams T :=
  { configuration := configuration
    entries := []
    ports := []
    retired := []
    lastTime := Clock.seconds 0
    stopped := false
    nextID := 0 }

def entry (t : TunnelStreams T) (id : ℕ) : Option (Entry T) := t.entries.lookup id

def setTCP (t : TunnelStreams T) (id : ℕ) (tcp : TunnelTCP T) : TunnelStreams T :=
  { t with
    entries := t.entries.map fun e => if e.1 = id then (e.1, { e.2 with tcp := tcp }) else e }

def advance (t : TunnelStreams T) (now : T) : Except Failure (TunnelStreams T) :=
  if t.stopped = true then .error .invalidState
  else if ¬(Clock.isFinite now = true ∧ Clock.ge now t.lastTime = true) then .error .invalidTime
  else .ok { t with lastTime := now, retired := t.retired.filter fun r => Clock.lt now r.2 }

def terminal : TunnelTCP.Event → Bool
  | .closed => true
  | .failed _ => true
  | _ => false

def translateEvent (id : ℕ) (cancellation ended : Bool) : TunnelTCP.Event → List Event
  | .packet bytes => [.packet bytes]
  | .connected => if ended then [] else [.stream id .connected]
  | .readable => if ended then [] else [.stream id .readable]
  | .writable => if ended then [] else [.stream id .writable]
  | .peerClosed => if ended then [] else [.stream id .peerClosed]
  | .closed => [.stream id (.closed (if cancellation then some .cancelled else none))]
  | .failed reason => [.stream id (.closed (some (.tcp reason)))]

/-- The entry of a stream that ended is dropped and its port retired. -/
def drop (t : TunnelStreams T) (id : ℕ) (now : T) : TunnelStreams T :=
  match t.entry id with
  | none => t
  | some e =>
    { t with
      entries := t.entries.filter fun x => x.1 ≠ id
      ports := t.ports.filter fun p => p.1 ≠ e.port
      retired := (e.port, Clock.add now (Clock.seconds 120)) ::
        t.retired.filter fun r => r.1 ≠ e.port }

def translate (t : TunnelStreams T) (events : List TunnelTCP.Event) (id : ℕ) (now : T)
    (cancellation : Bool) : TunnelStreams T × List Event :=
  let ended := events.any terminal
  (if ended then t.drop id now else t, events.flatMap (translateEvent id cancellation ended))

def freePort (t : TunnelStreams T) (start : ℕ) : ℕ → Option (BitVec 16)
  | 0 => none
  | fuel + 1 =>
    let port := BitVec.ofNat 16 (49152 + (start + (16384 - (fuel + 1))) % 16384)
    if t.ports.lookup port = none ∧ (t.retired.lookup port).isNone then some port
    else t.freePort start fuel

/-- `open`, with the two numbers `random()` gives. -/
def openStream (t : TunnelStreams T) (port : BitVec 16) (now : T) (start isn : BitVec 32) :
    TunnelStreams T × Except Failure (ℕ × List Event) :=
  match t.advance now with
  | .error e => (t, .error e)
  | .ok t =>
    if port.toNat = 0 then (t, .error .invalidState)
    else if 8 ≤ t.entries.length then (t, .error .capacity)
    else
      match t.freePort (start.toNat % 16384) 16384 with
      | none => (t, .error .capacity)
      | some localPort =>
        let endpoints : TunnelTCPEndpoints :=
          ⟨t.configuration.clientAddress, t.configuration.serverAddress, localPort, port⟩
        match (TunnelTCP.init endpoints t.configuration.mtu isn : Option (TunnelTCP T)) with
        | none => (t, .error .malformed)
        | some tcp =>
          let id := t.nextID
          let opened :=
            { t with
              entries := t.entries ++ [(id, ⟨localPort, tcp⟩)]
              ports := (localPort, id) :: t.ports
              nextID := id + 1 }
          match tcp.connect now with
          | .error e => (opened, .error (.tcp e))
          | .ok r =>
            let translated := (opened.setTCP id r.1).translate r.2 id now false
            (translated.1, .ok (id, translated.2))

def route (t : TunnelStreams T) (packet : List UInt8) : Option (ℕ × Entry T) :=
  if 60 ≤ packet.length ∧ packet.length ≤ t.configuration.mtu then
    match t.ports.lookup (TunnelTCPCodec.u16 packet 42) with
    | none => none
    | some id => (t.entry id).map fun e => (id, e)
  else none

def receive (t : TunnelStreams T) (packet : List UInt8) (now : T) :
    TunnelStreams T × Except Failure (List Event) :=
  match t.advance now with
  | .error e => (t, .error e)
  | .ok t =>
    match t.route packet with
    | none => (t, .ok [])
    | some (id, e) =>
      let r := e.tcp.receive packet now
      let translated := (t.setTCP id r.1).translate r.2 id now false
      (translated.1, .ok translated.2)

def callTCP (t : TunnelStreams T) (id : ℕ) (now : T)
    (f : TunnelTCP T → Except TunnelTCP.Failure (TunnelTCP T × List TunnelTCP.Event)) :
    TunnelStreams T × Except Failure (List Event) :=
  match t.advance now with
  | .error e => (t, .error e)
  | .ok t =>
    match t.entry id with
    | none => (t, .error .invalidState)
    | some e =>
      match f e.tcp with
      | .error e => (t, .error (.tcp e))
      | .ok r =>
        let translated := (t.setTCP id r.1).translate r.2 id now false
        (translated.1, .ok translated.2)

def write (t : TunnelStreams T) (id : ℕ) (data : List UInt8) (now : T) :
    TunnelStreams T × Except Failure (List Event) :=
  t.callTCP id now fun tcp => tcp.write data now

def shutdownWrite (t : TunnelStreams T) (id : ℕ) (now : T) :
    TunnelStreams T × Except Failure (List Event) :=
  t.callTCP id now fun tcp => tcp.shutdownWrite now

def read (t : TunnelStreams T) (id maximum : ℕ) (now : T) :
    TunnelStreams T × Except Failure (List UInt8 × List Event) :=
  match t.advance now with
  | .error e => (t, .error e)
  | .ok t =>
    if ¬(0 < maximum ∧ maximum ≤ 32768) then (t, .error .invalidState)
    else
      match t.entry id with
      | none => (t, .error .invalidState)
      | some e =>
        let r := e.tcp.read maximum
        let translated := (t.setTCP id r.2.1).translate r.2.2 id now false
        (translated.1, .ok (r.1, translated.2))

def cancel (t : TunnelStreams T) (id : ℕ) (now : T) :
    TunnelStreams T × Except Failure (List Event) :=
  match t.advance now with
  | .error e => (t, .error e)
  | .ok t =>
    match t.entry id with
    | none => (t, .ok [])
    | some e =>
      let r := e.tcp.abort
      let translated := (t.setTCP id r.1).translate r.2 id now true
      (translated.1, .ok translated.2)

def tickLoop (now : T) : List ℕ → TunnelStreams T → TunnelStreams T × List Event
  | [], t => (t, [])
  | id :: ids, t =>
    match t.entry id with
    | none => tickLoop now ids t
    | some e =>
      let r := e.tcp.tick now
      let translated := (t.setTCP id r.1).translate r.2 id now false
      let rest := tickLoop now ids translated.1
      (rest.1, translated.2 ++ rest.2)

/-- The keys of the table in the order a dictionary happens to have them. -/
def ordered (t : TunnelStreams T) (order : List ℕ) : List ℕ :=
  if order.Perm (t.entries.map Prod.fst) then order else t.entries.map Prod.fst

def tick (t : TunnelStreams T) (order : List ℕ) (now : T) :
    TunnelStreams T × Except Failure (List Event) :=
  match t.advance now with
  | .error e => (t, .error e)
  | .ok t =>
    let r := tickLoop now (t.ordered order) t
    (r.1, .ok r.2)

def stopLoop (now : T) : List ℕ → TunnelStreams T → TunnelStreams T × Except Failure (List Event)
  | [], t => (t, .ok [])
  | id :: ids, t =>
    match t.cancel id now with
    | (t, .error e) => (t, .error e)
    | (t, .ok events) =>
      match stopLoop now ids t with
      | (t, .error e) => (t, .error e)
      | (t, .ok more) => (t, .ok (events ++ more))

def stop (t : TunnelStreams T) (order : List ℕ) (now : T) :
    TunnelStreams T × Except Failure (List Event) :=
  match t.advance now with
  | .error e => (t, .error e)
  | .ok t =>
    match stopLoop now (t.ordered order) t with
    | (t, .error e) => (t, .error e)
    | (t, .ok events) => ({ t with stopped := true }, .ok events)

end TunnelStreams

end Tolkara
