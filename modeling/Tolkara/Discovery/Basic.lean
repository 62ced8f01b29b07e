import Tolkara.Discovery.Wire
import Tolkara.Tunnel.TCP

/-!
# Remote discovery

`RemoteDiscovery`: the exchange that ends with the catalog of the device's services,
and the loop of `TunnelDiscoveryClient` that feeds it. What the frames of the peer
change is the record `Connection`; the count of bytes and the deadline, which only
`receive` looks at, stand beside it. A method that throws leaves the discovery failed.
-/

namespace Tolkara

namespace RemoteServiceCatalog

structure Service where
  port : ℕ
  usesRemoteXPC : Bool
deriving DecidableEq, Repr

end RemoteServiceCatalog

structure RemoteServiceCatalog where
  deviceIdentifier : List UInt8
  services : List (List UInt8 × RemoteServiceCatalog.Service)
deriving DecidableEq, Repr

namespace RemoteServiceCatalog

def portOf (text : List UInt8) : Option ℕ :=
  let port := text.foldl (fun n b => n * 10 + (b.toNat - 48)) 0
  if port ≤ 65535 then some port else none

/-- The flag `UsesRemoteXPC` of a service, false when it is absent. -/
def usesXPC (canonical : List UInt8 → List UInt8) (entry : List (List UInt8 × RemoteXPCValue)) :
    Except PairingError Bool :=
  match valueOf canonical (ascii "Properties") entry with
  | none => .ok false
  | some p =>
    match p.dictionary? with
    | none => .error .malformed
    | some d =>
      match valueOf canonical (ascii "UsesRemoteXPC") d with
      | none => .ok false
      | some (.bool b) => .ok b
      | some _ => .error .malformed

def service (canonical : List UInt8 → List UInt8) (entry : List UInt8 × RemoteXPCValue) :
    Except PairingError (List UInt8 × Service) := do
  let (name, value) := entry
  if name = [] ∨ 512 < name.length then throw .malformed
  let some entry := value.dictionary? | throw .malformed
  let some portText := (valueOf canonical (ascii "Port") entry).bind (·.string?)
    | throw .malformed
  if portText = [] ∨ 5 < portText.length ∨ ¬ portText.all (fun b => 48 ≤ b && b ≤ 57) then
    throw .malformed
  let some port := portOf portText | throw .malformed
  if port = 0 then throw .malformed
  let usesXPC ← usesXPC canonical entry
  return (name, { port := port, usesRemoteXPC := usesXPC })

def make (canonical : List UInt8 → List UInt8) (value : RemoteXPCValue)
    (expectedDeviceIdentifier : List UInt8) : Except PairingError RemoteServiceCatalog := do
  if expectedDeviceIdentifier = [] then throw .authenticationFailed
  let some root := value.dictionary? | throw .authenticationFailed
  let some properties := (valueOf canonical (ascii "Properties") root).bind (·.dictionary?)
    | throw .authenticationFailed
  let some identifier := (valueOf canonical (ascii "UniqueDeviceID") properties).bind (·.string?)
    | throw .authenticationFailed
  if canonical identifier ≠ canonical expectedDeviceIdentifier then throw .authenticationFailed
  let some entries := (valueOf canonical (ascii "Services") root).bind (·.dictionary?)
    | throw .malformed
  if 2048 < entries.length then throw .malformed
  let services ← entries.mapM (service canonical)
  return { deviceIdentifier := identifier, services := services }

end RemoteServiceCatalog

namespace RemoteDiscovery

inductive State where
  | idle
  | negotiating
  | discovering
  | complete
  | failed
deriving DecidableEq, Repr

inductive Event where
  | send (bytes : List UInt8)
  | catalog (catalog : RemoteServiceCatalog)
deriving DecidableEq

/-- What the frames of the peer are handled with. The dictionary `windows` has the
keys 1 and 3 from the start and never another one. -/
structure Connection where
  state : State
  frame : List UInt8
  frameLength : Option ℕ
  root : RemoteXPCStream
  reply : RemoteXPCStream
  settingsSeen : Bool
  settingsAcknowledged : Bool
  connectionWindow : ℤ
  initialWindow : ℤ
  window1 : ℤ
  window3 : ℤ
  pending : List UInt8
  pendingOffset : ℕ
  frames : ℕ
  expectedIdentifier : List UInt8
  hostUUID : List UInt8

def be (n : ℕ) : List UInt8 :=
  [UInt8.ofNat (n / 16777216 % 256), UInt8.ofNat (n / 65536 % 256), UInt8.ofNat (n / 256 % 256),
    UInt8.ofNat (n % 256)]

def frameOf (type flags : UInt8) (stream : ℕ) (payload : List UInt8) : List UInt8 :=
  [UInt8.ofNat (payload.length / 65536), UInt8.ofNat (payload.length / 256 % 256),
    UInt8.ofNat (payload.length % 256), type, flags] ++ be stream ++ payload

/-- `u32`: the big-endian number at an offset. -/
def u32 (b : List UInt8) (offset : ℕ) : ℕ :=
  (b.getD offset 0).toNat * 16777216 + (b.getD (offset + 1) 0).toNat * 65536 +
    (b.getD (offset + 2) 0).toNat * 256 + (b.getD (offset + 3) 0).toNat

namespace Connection

variable (canonical : List UInt8 → List UInt8)

/-- The loop of `flush`. Each round sends at least one byte, so the bytes that are
left bound the rounds. -/
def flushLoop : ℕ → Connection → List Event → Connection × List Event
  | 0, c, events => (c, events)
  | rounds + 1, c, events =>
    if c.pendingOffset < c.pending.length then
      let count := min (min 16384 ((c.pending.length - c.pendingOffset : ℕ) : ℤ))
        (min c.connectionWindow c.window1)
      if count ≤ 0 then (c, events)
      else
        let bytes := (c.pending.drop c.pendingOffset).take count.toNat
        flushLoop rounds
          { c with
            connectionWindow := c.connectionWindow - count
            window1 := c.window1 - count
            pendingOffset := c.pendingOffset + count.toNat }
          (events ++ [.send (frameOf 0 0 1 bytes)])
    else (c, events)

def flush (c : Connection) : Connection × List Event :=
  let (c, events) := flushLoop (c.pending.length - c.pendingOffset) c []
  if c.pendingOffset = c.pending.length then
    ({ c with pending := [], pendingOffset := 0 }, events)
  else (c, events)

def setting (c : Connection) (key value : ℕ) : Except PairingError Connection := do
  if key = 2 ∧ 1 < value then throw .malformed
  let c ←
    if key = 4 then
      if 0x7fffffff < value then throw .malformed
      let delta : ℤ := value - c.initialWindow
      if 0x7fffffff < c.window1 + delta then throw .malformed
      let c := { c with window1 := c.window1 + delta }
      if 0x7fffffff < c.window3 + delta then throw .malformed
      pure { c with window3 := c.window3 + delta, initialWindow := value }
    else pure c
  if key = 5 ∧ (value < 16384 ∨ 16777215 < value) then throw .malformed
  return c

/-- The entries of a SETTINGS frame, six bytes each. -/
def settings : List UInt8 → Connection → Except PairingError Connection
  | k₁ :: k₀ :: v₃ :: v₂ :: v₁ :: v₀ :: rest, c => do
    let c ← c.setting (k₁.toNat * 256 + k₀.toNat) (u32 [v₃, v₂, v₁, v₀] 0)
    settings rest c
  | _, c => .ok c

/-- The handshake sent after the first SETTINGS frame. -/
def handshake (c : Connection) : RemoteXPCMessage :=
  { flags := 0x101
    identifier := 1
    value := some (.dictionary
      [(ascii "MessageType", .string (ascii "Handshake")),
        (ascii "MessagingProtocolVersion", .uint 7),
        (ascii "UUID", .uuid c.hostUUID),
        (ascii "Properties", .dictionary
          [(ascii "RemoteXPCVersionFlags", .uint 0x0100000000000006),
            (ascii "SensitivePropertiesVisible", .bool true)]),
        (ascii "Services", .dictionary [])]) }

def handleSettings (c : Connection) (flags : UInt8) (stream : ℕ) (payload : List UInt8) :
    Except PairingError (Connection × List Event) := do
  if stream ≠ 0 ∨ flags &&& ~~~1 ≠ 0 then throw .malformed
  if flags &&& 1 ≠ 0 then
    if payload.length ≠ 0 ∨ c.settingsAcknowledged then throw .malformed
    return ({ c with settingsAcknowledged := true }, [])
  else
    if payload.length % 6 ≠ 0 then throw .malformed
    let c ← settings payload c
    let c ←
      if c.settingsSeen then pure c
      else
        let pending ← RemoteXPCWire.encode canonical c.handshake
        pure { c with settingsSeen := true, state := .discovering, pending := pending }
    let (c, sent) := c.flush
    return (c, .send (frameOf 4 1 0 []) :: sent)

def handleWindowUpdate (c : Connection) (stream : ℕ) (payload : List UInt8) :
    Except PairingError (Connection × List Event) := do
  if payload.length ≠ 4 ∨ ¬ (stream = 0 ∨ stream = 1 ∨ stream = 3) then throw .malformed
  let increment : ℤ := (u32 payload 0 % 0x80000000 : ℕ)
  if increment ≤ 0 then throw .malformed
  if stream = 0 then
    if 0x7fffffff < c.connectionWindow + increment then throw .malformed
    return flush { c with connectionWindow := c.connectionWindow + increment }
  else if stream = 1 then
    if 0x7fffffff < c.window1 + increment then throw .malformed
    return flush { c with window1 := c.window1 + increment }
  else
    if 0x7fffffff < c.window3 + increment then throw .malformed
    return flush { c with window3 := c.window3 + increment }

def handlePing (c : Connection) (flags : UInt8) (stream : ℕ) (payload : List UInt8) :
    Except PairingError (Connection × List Event) := do
  if stream ≠ 0 ∨ payload.length ≠ 8 ∨ flags &&& ~~~1 ≠ 0 then throw .malformed
  if flags &&& 1 = 0 then return (c, [.send (frameOf 6 1 0 payload)]) else return (c, [])

def handleMessage (c : Connection) (message : RemoteXPCMessage) :
    Except PairingError (Connection × List Event) :=
  match message.value with
  | none => .ok (c, [])
  | some value =>
    match value.dictionary? with
    | none => .error .malformed
    | some [] => .ok (c, [])
    | some (_ :: _) =>
      if c.state = .discovering ∧ c.pending = [] ∧ ¬ c.root.hasPartialMessage ∧
          ¬ c.reply.hasPartialMessage then
        match RemoteServiceCatalog.make canonical value c.expectedIdentifier with
        | .error e => .error e
        | .ok catalog => .ok ({ c with state := .complete }, [.catalog catalog])
      else .error .invalidState

/-- The bytes of a DATA frame without their padding. -/
def unpadded (flags : UInt8) (payload : List UInt8) : Except PairingError (List UInt8) :=
  if flags &&& 8 = 0 then .ok payload
  else
    match payload with
    | [] => .error .malformed
    | pad :: rest =>
      if pad.toNat < payload.length then .ok (rest.take (rest.length - pad.toNat))
      else .error .malformed

/-- The channel a DATA frame belongs to, after taking its bytes. -/
def consume (c : Connection) (stream : ℕ) (data : List UInt8) :
    Except PairingError (Connection × List RemoteXPCMessage) := do
  if stream = 1 then
    let (root, messages) ← c.root.consume canonical data
    return ({ c with root := root }, messages)
  else
    let (reply, messages) ← c.reply.consume canonical data
    return ({ c with reply := reply }, messages)

def handleData (c : Connection) (flags : UInt8) (stream : ℕ) (payload : List UInt8) :
    Except PairingError (Connection × List Event) := do
  if ¬ c.settingsSeen ∨ ¬ (stream = 1 ∨ stream = 3) ∨ flags &&& ~~~8 ≠ 0 then throw .malformed
  let data ← unpadded flags payload
  let (c, messages) ← c.consume canonical stream data
  let (c, events) ← Chunking.feedAll (handleMessage canonical) c messages
  if payload.length = 0 then return (c, events)
  else
    return (c, events ++ [.send (frameOf 8 0 0 (be payload.length)),
      .send (frameOf 8 0 stream (be payload.length))])

def handle (c : Connection) (frame : List UInt8) :
    Except PairingError (Connection × List Event) :=
  let type := (frame.getD 3 0).toNat
  let flags := frame.getD 4 0
  let stream := u32 frame 5 % 0x80000000
  let payload := frame.drop 9
  if type = 4 then handleSettings canonical c flags stream payload
  else if type = 8 then handleWindowUpdate c stream payload
  else if type = 6 then handlePing c flags stream payload
  else if type = 1 then
    if c.settingsSeen ∧ (stream = 1 ∨ stream = 3) ∧ flags = 4 ∧ payload.length = 0 then .ok (c, [])
    else .error .malformed
  else if type = 0 then handleData canonical c flags stream payload
  else if type = 2 then
    if stream ≠ 0 ∧ payload.length = 5 ∧ u32 payload 0 % 0x80000000 ≠ stream then .ok (c, [])
    else .error .malformed
  else if type = 3 ∨ type = 7 ∨ type = 5 ∨ type = 9 then .error .invalidState
  else .ok (c, [])

def take (c : Connection) (b : UInt8) : Except PairingError (Connection × List Event) := do
  let frame := c.frame ++ [b]
  let frameLength ←
    if frame.length = 9 then
      let size := (frame.getD 0 0).toNat * 65536 + (frame.getD 1 0).toNat * 256 +
        (frame.getD 2 0).toNat
      if size ≤ 16384 then pure (some (size + 9)) else throw .oversized
    else pure c.frameLength
  if frameLength = some frame.length then
    if 4096 < c.frames + 1 then throw .oversized
    handle canonical { c with frame := [], frameLength := none, frames := c.frames + 1 } frame
  else return ({ c with frame := frame, frameLength := frameLength }, [])

def fail (c : Connection) : Connection :=
  { c with
    state := .failed
    frame := []
    pending := []
    root := RemoteXPCStream.init
    reply := RemoteXPCStream.init }

def xpc (c : Connection) (value : Option RemoteXPCValue) (flags id stream : ℕ) :
    Except PairingError (Connection × List UInt8) := do
  let bytes ← RemoteXPCWire.encode canonical { flags := flags, identifier := id, value := value }
  let window := if stream = 1 then c.window1 else c.window3
  if min c.connectionWindow window < bytes.length then throw .invalidState
  let c := { c with connectionWindow := c.connectionWindow - bytes.length }
  if stream = 1 then
    return ({ c with window1 := c.window1 - bytes.length }, frameOf 0 0 stream bytes)
  else return ({ c with window3 := c.window3 - bytes.length }, frameOf 0 0 stream bytes)

end Connection

end RemoteDiscovery

structure RemoteDiscovery (T : Type) where
  connection : RemoteDiscovery.Connection
  receivedBytes : ℕ
  deadline : T

namespace RemoteDiscovery

variable {T : Type} [Clock T] (canonical : List UInt8 → List UInt8)

def init (expectedDeviceIdentifier hostUUID : List UInt8) : RemoteDiscovery T :=
  { connection :=
      { state := .idle
        frame := []
        frameLength := none
        root := RemoteXPCStream.init
        reply := RemoteXPCStream.init
        settingsSeen := false
        settingsAcknowledged := false
        connectionWindow := 65535
        initialWindow := 65535
        window1 := 65535
        window3 := 65535
        pending := []
        pendingOffset := 0
        frames := 0
        expectedIdentifier := expectedDeviceIdentifier
        hostUUID := hostUUID }
    receivedBytes := 0
    deadline := Clock.seconds 0 }

def start (d : RemoteDiscovery T) (now : T) :
    Except PairingError (RemoteDiscovery T × List Event) := do
  if d.connection.state ≠ .idle ∨ ¬ Clock.isFinite now ∨ d.connection.expectedIdentifier = [] then
    throw .invalidState
  let c := { d.connection with state := .negotiating }
  let bytes := ascii "PRI * HTTP/2.0\r\n\r\nSM\r\n\r\n" ++
    frameOf 4 0 0 ([0, 3] ++ be 100 ++ [0, 4] ++ be 1048576) ++
    frameOf 8 0 0 (be (1048576 - 65535)) ++ frameOf 1 4 1 []
  let (c, opening) ← c.xpc canonical (some (.dictionary [])) 1 0 1
  let (c, flags) ← c.xpc canonical none 0x201 0 1
  let (c, reply) ← c.xpc canonical none 0x400001 0 3
  return ({ d with connection := c, deadline := Clock.add now (Clock.seconds 20) },
    [.send (bytes ++ opening ++ frameOf 1 4 3 [] ++ flags ++ reply)])

def active (d : RemoteDiscovery T) : Bool :=
  d.connection.state == .negotiating || d.connection.state == .discovering

/-- The time a call is made at is before the deadline, as `tick` checks it. -/
def onTime (d : RemoteDiscovery T) (now : T) : Bool :=
  Clock.isFinite now && Clock.lt now d.deadline

def receiveBody (d : RemoteDiscovery T) (bytes : List UInt8) (now : T) :
    Except PairingError (RemoteDiscovery T × List Event) := do
  if ¬ d.onTime now then throw .exhausted
  if 65536 < bytes.length ∨ 2097152 - d.receivedBytes < bytes.length then throw .oversized
  let (c, events) ← Chunking.feedAll (Connection.take canonical) d.connection bytes
  return ({ d with connection := c, receivedBytes := d.receivedBytes + bytes.length }, events)

/-- `receive`: the new state and what the call returns or throws. -/
def receive (d : RemoteDiscovery T) (bytes : List UInt8) (now : T) :
    RemoteDiscovery T × Except PairingError (List Event) :=
  if d.active then
    match d.receiveBody canonical bytes now with
    | .ok (d', events) => (d', .ok events)
    | .error e => ({ d with connection := d.connection.fail }, .error e)
  else (d, .error .invalidState)

def finish (d : RemoteDiscovery T) : RemoteDiscovery T × Except PairingError Unit :=
  if d.connection.state = .complete then (d, .ok ())
  else ({ d with connection := d.connection.fail }, .error .malformed)

def keep (found : Option RemoteServiceCatalog) : Event → Option RemoteServiceCatalog
  | .send _ => found
  | .catalog value => some value

/-- The last catalog of a list of events, which `process` ends with. -/
def catalogOf (events : List Event) : Option RemoteServiceCatalog := events.foldl keep none

/-- The reads of `TunnelDiscoveryClient`, until a catalog is reported or an error
thrown: the catalog that the completion gets. -/
def discover : RemoteDiscovery T → List (List UInt8 × T) → Option RemoteServiceCatalog
  | _, [] => none
  | d, (bytes, now) :: rest =>
    match d.receive canonical bytes now with
    | (_, .error _) => none
    | (d', .ok events) =>
      match catalogOf events with
      | none => discover d' rest
      | some catalog =>
        match d'.finish with
        | (_, .error _) => none
        | (_, .ok _) => some catalog

end RemoteDiscovery

end Tolkara
