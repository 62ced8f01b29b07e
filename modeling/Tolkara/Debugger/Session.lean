import Tolkara.Debugger.ProtocolWire
import Tolkara.Library.Attempts
import Tolkara.Tunnel.TCP

/-!
# The session that prepares an arena

`DebugArenaSession` speaks to a debugserver over a byte stream: it attaches to the process,
checks who it is, reads every byte of the requested regions, writes one zero to each page and
lets go of the process. Every call is a total function of the state, and what a failing call
changed before it failed stays changed.

`Act` is what happens at the session's end of the stream, in order: what it emits and, in
between, the replies it takes as answers. `Act.event` is what the source returns of it.
-/

namespace Tolkara

open Library

namespace DebugArenaSession

inductive Phase
  | idle | supported | noAck | detachPolicy | attach | process | challenge | region | preflight
  | prepare | draining | finalProcess | finalChallenge | detach | cleanup | complete | failed
deriving DecidableEq, Repr

inductive Reason
  | protocolFailure | wrongProcess | wrongChallenge | unsafeRegion | nonzeroMemory
  | serverFailure | timedOut | cancelled | disconnected
deriving DecidableEq, Repr

structure Failure where
  reason : Reason
  detachConfirmed : Bool
deriving DecidableEq, Repr

structure Receipt where
  pid : ℕ
  challenge : List UInt8
  regions : List DebugArenaRequest.Region
deriving DecidableEq, Repr

inductive Event
  | send (packets : List UInt8)
  | finished (result : Except Failure Receipt)

/-- What each command of a preflight or preparation batch must answer. -/
inductive Reply
  | ok
  | zeros (count : ℕ)
deriving DecidableEq, Repr

inductive Act
  | sent (texts : List Text) (packets : List UInt8)
  | resent (packets : List UInt8)
  | control (byte : UInt8)
  | answered (text : Text)
  | finished (result : Except Failure Receipt)

def Act.event : Act → Option Event
  | .sent _ packets => some (.send packets)
  | .resent packets => some (.send packets)
  | .control byte => some (.send [byte])
  | .answered _ => none
  | .finished result => some (.finished result)

def page : ℕ := 16384

def readsPerBatch : ℕ := 4

def pagesPerBatch : ℕ := 128

end DebugArenaSession

open DebugArenaSession in
structure DebugArenaSession (T : Type) where
  request : DebugArenaRequest
  phase : Phase
  wire : DebugWire.DWParser
  outstanding : ℕ
  noAck : Bool
  acknowledged : Bool
  retries : ℕ
  badPackets : ℕ
  consolePackets : ℕ
  lastPacket : List UInt8
  commandDeadline : T
  totalDeadline : T
  lastTime : T
  packetSize : ℕ
  chunk : ℕ
  index : ℕ
  offset : ℕ
  regionCursor : ℕ
  replies : List Reply
  replied : ℕ
  attached : Bool
  pendingFailure : Option Reason

namespace DebugArenaSession

variable {T : Type} [Clock T]

def init (request : DebugArenaRequest) : DebugArenaSession T where
  request := request
  phase := .idle
  wire := DebugWire.dwInit true DebugProtocolWire.capacity
  outstanding := 0
  noAck := false
  acknowledged := false
  retries := 0
  badPackets := 0
  consolePackets := 0
  lastPacket := []
  commandDeadline := Clock.seconds 0
  totalDeadline := Clock.seconds 0
  lastTime := Clock.seconds 0
  packetSize := 1024
  chunk := 480
  index := 0
  offset := 0
  regionCursor := 0
  replies := []
  replied := 0
  attached := false
  pendingFailure := none

def terminal (s : DebugArenaSession T) : Bool := s.phase == .complete || s.phase == .failed

/-- `request.regions[index]`. The source stops past the last region; no call gets there
(`Stage`). -/
def range (s : DebugArenaSession T) : DebugArenaRequest.Region :=
  s.request.regions.getD s.index ⟨0, 0⟩

/-- What a call does to the session: it answers with its acts, or throws. -/
abbrev Call (T α : Type) := Attempt (DebugArenaSession T) Reason α

/-! ## Commands -/

def finish (reason : Reason) (detached : Bool) : Call T (List Act) := do
  .change fun s => { s with phase := .failed, outstanding := 0, lastPacket := [] }
  return [.finished (.error ⟨reason, detached⟩)]

def time (now : T) : Call T Unit := do
  let lastTime ← .observe (·.lastTime)
  .check (Clock.isFinite now ∧ Clock.ge now lastTime) .protocolFailure
  .change fun s => { s with lastTime := now }

def encodeAll (packetSize : ℕ) : List Text → Except Reason (List UInt8)
  | [] => .ok []
  | text :: rest => do
    need (text.length ≤ packetSize) .protocolFailure
    let packet ← (DebugProtocolWire.encode text).mapError fun _ => .protocolFailure
    let packets ← encodeAll packetSize rest
    return packet ++ packets

/-- `send`: one command at a time until acknowledgements are off. -/
def send (texts : List Text) (phase : Phase) (now : T) : Call T (List Act) := do
  let s ← .current
  .check (s.outstanding = 0 ∧ texts ≠ [] ∧ (s.noAck = true ∨ texts.length = 1)) .protocolFailure
  let packets ← .lift (encodeAll s.packetSize texts)
  .change fun s => { s with
    lastPacket := packets
    outstanding := texts.length
    acknowledged := s.noAck
    retries := 0
    badPackets := 0
    phase := phase
    commandDeadline := Clock.add now (Clock.seconds 10) }
  return [.sent texts packets]

def command (text : Text) (phase : Phase) (now : T) : Call T (List Act) := send [text] phase now

def readText (address count : ℕ) : Text :=
  ascii "m" ++ DebugProtocolWire.hexText address ++ ascii "," ++ DebugProtocolWire.hexText count

def writeText (address : ℕ) : Text :=
  ascii "M" ++ DebugProtocolWire.hexText address ++ ascii ",1:00"

def regionText (address : ℕ) : Text :=
  ascii "qMemoryRegionInfo:" ++ DebugProtocolWire.hexText address

def attachText (pid : ℕ) : Text := ascii "vAttach;" ++ DebugProtocolWire.hexText pid

/-! ## Batches -/

def preflightLoop (range : DebugArenaRequest.Region) (chunk : ℕ) :
    ℕ → ℕ → List (Text × Reply) → List (Text × Reply) × ℕ
  | 0, offset, batch => (batch, offset)
  | fuel + 1, offset, batch =>
    if batch.length < readsPerBatch ∧ offset < range.size then
      let count := min chunk (range.size - offset)
      preflightLoop range chunk fuel (offset + count)
        (batch ++ [(readText (range.address + offset) count, .zeros count)])
    else (batch, offset)

/-- Reads the current arena from `offset`; every byte must be zero. -/
def preflightBatch (now : T) : Call T (List Act) := do
  let s ← .current
  let r := preflightLoop s.range s.chunk readsPerBatch s.offset []
  .change fun s => { s with replies := r.1.map (·.2), replied := 0, offset := r.2 }
  send (r.1.map (·.1)) .preflight now

/-- The loop of `prepareBatch`, with the index and the offset where it stops. -/
def prepareLoop (regions : List DebugArenaRequest.Region) :
    ℕ → ℕ × ℕ → List (Text × Reply) → List (Text × Reply) × (ℕ × ℕ)
  | 0, place, batch => (batch, place)
  | fuel + 1, place, batch =>
    if batch.length < 2 * pagesPerBatch then
      match regions[place.1]? with
      | none => (batch, place)
      | some range =>
        let address := range.address + place.2
        prepareLoop regions fuel
          (if place.2 + page = range.size then (place.1 + 1, 0) else (place.1, place.2 + page))
          (batch ++ [(writeText address, .ok), (readText address 1, .zeros 1)])
    else (batch, place)

/-- Writes one zero byte at the start of each page and reads it back. -/
def prepareBatch (now : T) : Call T (List Act) := do
  let s ← .current
  let r := prepareLoop s.request.regions pagesPerBatch (s.index, s.offset) []
  .change fun s => { s with
    replies := r.1.map (·.2)
    replied := 0
    index := r.2.1
    offset := r.2.2 }
  send (r.1.map (·.1)) .prepare now

/-! ## Replies -/

/-- What the source throws that is no `Reason` fails the protocol. -/
def parsed {α : Type} (x : Except PairingError α) : Call T α :=
  .lift (x.mapError fun _ => .protocolFailure)

def supportedLoop : List Text → Bool → Call T Unit
  | [], _ => return ()
  | feature :: rest, seen =>
    if ascii "PacketSize=" <+: feature then do
      .check (seen = false) .protocolFailure
      let maximum ← parsed (DebugProtocolWire.number (some (feature.drop 11)))
      .check (256 ≤ maximum) .protocolFailure
      .change fun s => { s with packetSize := min maximum DebugProtocolWire.capacity }
      supportedLoop rest true
    else supportedLoop rest seen

def supportedReply (text : Text) (now : T) : Call T (List Act) := do
  supportedLoop (DebugProtocolWire.split 59 text) false
  .change fun s => { s with chunk := (s.packetSize - 64) / 2 }
  command (ascii "QStartNoAckMode") .noAck now

def noAckReply (text : Text) (now : T) : Call T (List Act) := do
  .check (text = ascii "OK") .serverFailure
  .change fun s => { s with noAck := true, wire := { s.wire with zeroChecksum := true } }
  command (ascii "QSetDetachOnError:1") .detachPolicy now

def detachPolicyReply (text : Text) (now : T) : Call T (List Act) := do
  .check (text = ascii "OK") .serverFailure
  let request ← .observe (·.request)
  command (attachText request.pid) .attach now

/-- Darwin may stop with SIGSTOP or SIGTRAP. -/
def attachReply (text : Text) (now : T) : Call T (List Act) := do
  .check (ascii "T" <+: text ∧ 3 ≤ text.length ∨ ascii "S" <+: text ∧ text.length = 3)
    .protocolFailure
  let _ ← parsed (DebugProtocolWire.number (some ((text.drop 1).take 2)))
  .change fun s => { s with attached := true }
  command (ascii "qProcessInfo") .process now

/-- The guard on the answer to `qProcessInfo`. -/
def checkProcess (request : DebugArenaRequest) (text : Text) : Except Reason Unit := do
  let info ← (DebugProtocolWire.fields text).mapError fun _ => .protocolFailure
  let number (name : String) :=
    (DebugProtocolWire.number (info.lookup (ascii name))).mapError fun _ => Reason.protocolFailure
  let pid ← number "pid"
  need (pid = request.pid) .wrongProcess
  let uid ← number "effective-uid"
  need (uid = request.uid) .wrongProcess
  let cputype ← number "cputype"
  need (cputype = 0x100000c) .wrongProcess
  let ptrsize ← number "ptrsize"
  need (ptrsize = 8) .wrongProcess
  need (info.lookup (ascii "endian") = some (ascii "little")) .wrongProcess

def processReply (text : Text) (now : T) : Call T (List Act) := do
  let s ← .current
  .lift (checkProcess s.request text)
  command (readText s.request.challengeAddress 32)
    (if s.phase = .finalProcess then .finalChallenge else .challenge) now

/-- The guard on the answer to the read of the challenge. -/
def checkChallenge (request : DebugArenaRequest) (text : Text) : Except Reason Unit := do
  let bytes ← (DebugProtocolWire.unhex text 32).mapError fun _ => .protocolFailure
  need (bytes = request.challenge) .wrongChallenge

def challengeReply (text : Text) (now : T) : Call T (List Act) := do
  let s ← .current
  .lift (checkChallenge s.request text)
  if s.phase = .finalChallenge then command (ascii "D") .detach now
  else do
    let cursor := (s.request.regions.getD 0 ⟨0, 0⟩).address
    .change fun s => { s with index := 0, regionCursor := cursor }
    command (regionText cursor) .region now

/-- The guard on the answer to `qMemoryRegionInfo`, with the end of the region. -/
def checkRegion (cursor : ℕ) (text : Text) : Except Reason (ℕ × ℕ) := do
  let info ← (DebugProtocolWire.fields text).mapError fun _ => .protocolFailure
  let number (name : String) :=
    (DebugProtocolWire.number (info.lookup (ascii name))).mapError fun _ => Reason.protocolFailure
  let base ← number "start"
  let size ← number "size"
  let permissions := (info.lookup (ascii "permissions")).getD []
  need (0 < size ∧ base ≤ cursor ∧ size ≤ uint64Max - base ∧ cursor < base + size ∧
    info.lookup (ascii "error") = none ∧ permissions.toFinset = (ascii "rx").toFinset ∧
    (info.lookup (ascii "name")).getD [] = []) .unsafeRegion
  return (base, size)

def regionReply (text : Text) (now : T) : Call T (List Act) := do
  let s ← .current
  let reported ← .lift (checkRegion s.regionCursor text)
  let stop := s.range.address + s.range.size
  let cursor := min (reported.1 + reported.2) stop
  .change fun s => { s with regionCursor := cursor }
  if cursor < stop then command (regionText cursor) .region now
  else do
    .change fun s => { s with offset := 0 }
    preflightBatch now

/-- The guard on the answer to a command of a batch. -/
def checkReply (reply : Reply) (text : Text) : Except Reason Unit :=
  match reply with
  | .ok => need (text = ascii "OK") .serverFailure
  | .zeros count => do
    let bytes ← (DebugProtocolWire.unhex text count).mapError fun _ => .protocolFailure
    need (∀ b ∈ bytes, b = 0) .nonzeroMemory

def batchReply (text : Text) (now : T) : Call T (List Act) := do
  let s ← .current
  let reply ← .lift (obtained s.replies[s.replied]? .protocolFailure)
  .lift (checkReply reply text)
  .change fun s => { s with replied := s.replied + 1 }
  if s.outstanding ≠ 0 then return []
  else if s.phase = .prepare then
    if s.index < s.request.regions.length then prepareBatch now
    else command (ascii "qProcessInfo") .finalProcess now
  else if s.offset < s.range.size then preflightBatch now
  else do
    .change fun s => { s with index := s.index + 1 }
    let s ← .current
    if s.index < s.request.regions.length then do
      .change fun s => { s with regionCursor := s.range.address }
      command (regionText s.range.address) .region now
    else do
      -- All arenas passed the full preflight before the first write.
      .change fun s => { s with index := 0, offset := 0 }
      prepareBatch now

def detachReply (text : Text) : Call T (List Act) := do
  .check (text = ascii "OK") .serverFailure
  .change fun s => { s with attached := false }
  let s ← .current
  match s.pendingFailure with
  | some reason => finish reason true
  | none => do
    .change fun s => { s with phase := .complete, outstanding := 0, lastPacket := [] }
    return [.finished (.ok ⟨s.request.pid, s.request.challenge, s.request.regions⟩)]

def reply (text : Text) (now : T) : Call T (List Act) := do
  let s ← .current
  if s.phase = .draining then
    if s.outstanding = 0 then command (ascii "D") .cleanup now else return []
  else do
    .check (¬ ascii "E" <+: text) .serverFailure
    match s.phase with
    | .supported => supportedReply text now
    | .noAck => noAckReply text now
    | .detachPolicy => detachPolicyReply text now
    | .attach => attachReply text now
    | .process | .finalProcess => processReply text now
    | .challenge | .finalChallenge => challengeReply text now
    | .region => regionReply text now
    | .preflight | .prepare => batchReply text now
    | .detach | .cleanup => detachReply text
    | _ => .lift (.error .protocolFailure)

/-! ## Calls -/

/-- What follows an error of `reply`: what is left of the batch is answered first, then the
process is let go. -/
def replyFailed (now : T) (reason : Reason) : Call T (List Act) := do
  let s ← .current
  if s.attached = true ∧ s.phase ≠ .detach ∧ s.phase ≠ .cleanup then do
    .change fun s => { s with pendingFailure := some reason }
    if 0 < s.outstanding then do
      .change fun s => { s with phase := .draining }
      return []
    else command (ascii "D") .cleanup now
  else finish reason false

/-- A packet with a text; the answer says how many replies are still to come. -/
def packet (now : T) (answerable : ℕ) (text : Text) : Call T (ℕ × List Act) := do
  .check (∀ b ∈ text, b < 128) .protocolFailure
  let s ← .current
  let control : List Act := if s.noAck then [] else [.control 43]
  if ascii "O" <+: text ∧ text ≠ ascii "OK" then do
    .change fun s => { s with consolePackets := s.consolePackets + 1 }
    .check (s.consolePackets + 1 ≤ 64 ∧ text.length % 2 = 1) .protocolFailure
    let _ ← parsed (DebugProtocolWire.unhex (text.drop 1) ((text.length - 1) / 2))
    return (answerable, control)
  else do
    .check (s.acknowledged = true) .protocolFailure
    .change fun s => { s with outstanding := s.outstanding - 1 }
    let acts ← (reply text now).rescue (replyFailed now)
    return (answerable - 1, control ++ .answered text :: acts)

def feed (b : UInt8) : Call T (Option DebugProtocolWire.Event) := fun s =>
  let r := DebugProtocolWire.feed s.wire b
  (r.1.mapError fun _ => .protocolFailure, { s with wire := r.2 })

def takeByte (now : T) (answerable : ℕ) (b : UInt8) : Call T (ℕ × List Act) := do
  .check (0 < answerable) .protocolFailure
  let event ← feed b
  let s ← .current
  match event with
  | none => return (answerable, [])
  | some .ack => do
    .check (s.noAck = false ∧ s.acknowledged = false) .protocolFailure
    .change fun s => { s with acknowledged := true }
    return (answerable, [])
  | some .nack => do
    .check (s.noAck = false ∧ s.acknowledged = false ∧ s.retries < 2) .protocolFailure
    .change fun s => { s with retries := s.retries + 1 }
    return (answerable, [.resent s.lastPacket])
  | some .badChecksum => do
    .check (s.noAck = false ∧ s.badPackets < 2) .protocolFailure
    .change fun s => { s with badPackets := s.badPackets + 1 }
    return (answerable, [.control 45])
  | some (.packet text) => packet now answerable text

def takeAll (now : T) : ℕ → List UInt8 → Call T (List Act)
  | _, [] => return []
  | answerable, b :: rest => do
    let r ← takeByte now answerable b
    let later ← takeAll now r.1 rest
    return r.2 ++ later

/-- What the body of `receive` does, errors included. Replies answer only commands sent
before the call. -/
def receiveBody (bytes : List UInt8) (now : T) : Call T (List Act) := do
  time now
  let s ← .current
  if Clock.ge now s.commandDeadline ∨ Clock.ge now s.totalDeadline then finish .timedOut false
  else do
    .check (bytes.length ≤ 65536) .protocolFailure
    takeAll now s.outstanding bytes

/-- A call that throws returns nothing of what it did, but the failure. -/
def receive (bytes : List UInt8) (now : T) : Call T (List Act) := do
  let s ← .current
  if s.terminal ∨ s.phase = .idle then return []
  else (receiveBody bytes now).rescue fun _ => finish .protocolFailure false

def start (now : T) : Call T (List Act) := do
  let s ← .current
  .check (s.phase = .idle) .protocolFailure
  time now
  .change fun s => { s with totalDeadline := Clock.add now (Clock.seconds 900) }
  command (ascii "qSupported") .supported now

def tick (now : T) : Call T (List Act) := do
  let s ← .current
  if s.terminal ∨ s.phase = .idle then return []
  else if Clock.isFinite now ∧ Clock.ge now s.lastTime ∧ Clock.lt now s.commandDeadline ∧
      Clock.lt now s.totalDeadline then do
    .change fun s => { s with lastTime := now }
    return []
  else finish .timedOut false

def cancel : Call T (List Act) := do
  let s ← .current
  if s.terminal then return [] else finish .cancelled false

def disconnected : Call T (List Act) := do
  let s ← .current
  if s.terminal then return [] else finish .disconnected false

end DebugArenaSession

end Tolkara
