import Tolkara.Debugger.Request
import Tolkara.Handoff.Control

/-!
# The arena hand-off

The two ends of the hand-off of an arena and the transport between them. The poller of
the app submits a request once and then asks for its result; the service of the provider
starts one debugger for it. The transport keeps everything sent: a message or a reply in
it can arrive any number of times, in any order, or never.
-/

namespace Tolkara

/-- What the client of the debugger returns. -/
inductive ClientResult where
  | success (pid : ℕ) (challenge : List UInt8) (regions : List DebugArenaRequest.Region)
  | failure (detachConfirmed : Bool)
deriving DecidableEq, Repr

/-- What happens at the debugger: an attachment is started because of a command, and a
client returns. -/
inductive DebuggerEvent where
  | attached (command : TKACCommand) (request : DebugArenaRequest)
  | returned (result : ClientResult)

/-- The attachments among some events, each with the command that caused it. -/
def attachmentsOf (events : List DebuggerEvent) : List (TKACCommand × DebugArenaRequest) :=
  events.filterMap fun event =>
    match event with
    | .attached command request => some (command, request)
    | .returned _ => none

/-- `ArenaPreparationService`. `deferred` holds the calls of `prepare` on the queue, with
the command that put them there, and `clientCompletion` what the callback given to the
client has captured. -/
structure ArenaPreparationService where
  pid : ℕ
  euid : ℕ
  manager : Option ℕ
  used : Bool
  closed : Bool
  client : Option DebugArenaRequest
  clientCompletion : Option DebugArenaRequest
  message : Option (List UInt8)
  pollingRequest : Option (List UInt8)
  pollingReply : Option (List UInt8)
  deferred : List (TKACCommand × List UInt8)

namespace ArenaPreparationService

/-- A service that has received nothing, in a process, with or without a debug service. -/
def fresh (pid euid : ℕ) (manager : Option ℕ) (closed : Bool) : ArenaPreparationService :=
  { pid := pid
    euid := euid
    manager := manager
    used := false
    closed := closed
    client := none
    clientCompletion := none
    message := none
    pollingRequest := none
    pollingReply := none
    deferred := [] }

def setVerifiedDebugService (s : ArenaPreparationService) (port : ℕ) : ArenaPreparationService :=
  if s.used ∨ s.closed ∨ s.manager.isSome ∨ port = 0 then s else { s with manager := some port }

def handleAsync (s : ArenaPreparationService) (data : List UInt8) :
    ArenaPreparationService × Option (List UInt8) :=
  match tkacNormalize data with
  | none => (s, none)
  | some (operation, request) =>
    if operation = .submit then
      if s.pollingRequest.isSome then (s, tkacReply request .uncertain)
      else
        ({ s with pollingRequest := some request, deferred := s.deferred ++ [(operation, request)] },
          tkacReply request .pending)
    else if s.pollingRequest ≠ some request then (s, tkacReply request .uncertain)
    else (s, s.pollingReply.or (tkacReply request .pending))

/-- The callback `handleAsync` gives to `prepare`. -/
def complete (s : ArenaPreparationService) (request : List UInt8) (result : Option (List UInt8)) :
    ArenaPreparationService :=
  { s with pollingReply := result.or (tkacReply request .uncertain) }

/-- `prepare`, at the time `now` in milliseconds: the service after it, and the attachment
it has started. -/
def prepare (s : ArenaPreparationService) (now : ℕ) (command : TKACCommand) (data : List UInt8) :
    ArenaPreparationService × List DebuggerEvent :=
  match tkacDecode data with
  | none => (s.complete data none, [])
  | some raw =>
    if s.used ∨ s.closed ∨ s.manager = none ∨ raw.pid = s.pid ∨ raw.uid ≠ s.euid ∨
        raw.deadlineMs ≤ now ∨ 950000 < raw.deadlineMs - now then
      (s.complete data (tkacReply data .rejected), [])
    else
      match DebugArenaRequest.make s.pid raw.pid s.pid raw.uid raw.challengeAddress raw.challenge
          [⟨raw.address, raw.size⟩] with
      | .error _ => (s.complete data (tkacReply data .rejected), [])
      | .ok request =>
        ({ s with
            used := true
            message := some data
            client := some request
            clientCompletion := some request },
          [.attached command request])

def runDeferred (s : ArenaPreparationService) (now : ℕ) :
    ArenaPreparationService × List DebuggerEvent :=
  match s.deferred with
  | [] => (s, [])
  | (command, data) :: rest => prepare { s with deferred := rest } now command data

def finish (s : ArenaPreparationService) (outcome : TKACOutcome) : ArenaPreparationService :=
  match s.message with
  | none => s
  | some data =>
    { s with message := none, client := none }.complete data (tkacReply data outcome)

def clientReturned (s : ArenaPreparationService) (result : ClientResult) :
    ArenaPreparationService × List DebuggerEvent :=
  match s.clientCompletion with
  | none => (s, [])
  | some request =>
    match result with
    | .success pid challenge regions =>
      (s.finish (if pid = request.pid ∧ challenge = request.challenge ∧
          regions = request.regions then .prepared else .uncertain), [.returned result])
    | .failure detachConfirmed =>
      (s.finish (if detachConfirmed then .failedDetached else .uncertain), [.returned result])

/-- `invalidate`. What its cancellation makes the client return is a return of its own. -/
def invalidate (s : ArenaPreparationService) : ArenaPreparationService :=
  { ({ s with closed := true }).finish .uncertain with manager := none }

end ArenaPreparationService

/-- `TKLocalArenaPoller`, with the calls of its completion. -/
structure LocalArenaPoller where
  request : List UInt8
  deadline : ℕ
  timer : Bool
  finished : Bool
  inflight : Bool
  generation : ℕ
  sentAt : ℕ
  completions : List (Option (List UInt8))

namespace LocalArenaPoller

def finish (p : LocalArenaPoller) (reply : Option (List UInt8)) : LocalArenaPoller :=
  if p.finished then p
  else { p with finished := true, timer := false, completions := p.completions ++ [reply] }

/-- `send`: the poller after it, and the message given to the transport. -/
def send (p : LocalArenaPoller) (command : TKACCommand) (now : ℕ) (sent : Bool) :
    LocalArenaPoller × List (List UInt8) :=
  match tkacCommand p.request command with
  | none => (p.finish none, [])
  | some bytes =>
    ({ p with inflight := sent, sentAt := now, generation := p.generation + 1 }, [bytes])

/-- The callback given to the transport with a message. -/
def receive (p : LocalArenaPoller) (generation : ℕ) (reply : Option (List UInt8)) :
    LocalArenaPoller :=
  if p.finished ∨ generation ≠ p.generation then p
  else
    let p := { p with inflight := false }
    match reply.bind (tkacMatch p.request) with
    | none => p
    | some outcome => if outcome = .pending then p else p.finish reply

def unstarted (request : List UInt8) : LocalArenaPoller :=
  { request := request
    deadline := 0
    timer := false
    finished := false
    inflight := false
    generation := 0
    sentAt := 0
    completions := [] }

def start (request : List UInt8) (now : ℕ) (sent : Bool) :
    LocalArenaPoller × List (List UInt8) :=
  match tkacDecode request with
  | none => ((unstarted request).finish none, [])
  | some raw =>
    if raw.deadlineMs ≤ now then ((unstarted request).finish none, [])
    else
      send { unstarted request with deadline := raw.deadlineMs, timer := true } .submit now sent

def tick (p : LocalArenaPoller) (now : ℕ) (sent : Bool) : LocalArenaPoller × List (List UInt8) :=
  if ¬ p.timer then (p, [])
  else if p.deadline ≤ now then (p.finish none, [])
  else if ¬ p.inflight ∨ 5000 ≤ now - p.sentAt then p.send .poll now sent
  else (p, [])

end LocalArenaPoller

/-- The two ends, what the transport has taken, and what happened at the debugger. -/
structure Handoff where
  poller : LocalArenaPoller
  service : ArenaPreparationService
  messages : List (List UInt8)
  replies : List (Option (List UInt8))
  debugger : List DebuggerEvent

/-- One event of a hand-off. -/
inductive HandoffEvent where
  /-- A message arrives at the service, whose reply goes to the transport. -/
  | deliver (index : ℕ)
  /-- A reply, or none, arrives at the callback of a message. -/
  | answer (generation : ℕ) (index : Option ℕ)
  | pollerTimer (now : ℕ) (sent : Bool)
  | runDeferred (now : ℕ)
  /-- The client returns, by itself or because the timer of the service cancelled it. -/
  | clientReturned (result : ClientResult)
  | invalidate
  | setVerifiedDebugService (port : ℕ)

namespace Handoff

def start (service : ArenaPreparationService) (request : List UInt8) (now : ℕ) (sent : Bool) :
    Handoff :=
  { poller := (LocalArenaPoller.start request now sent).1
    service := service
    messages := (LocalArenaPoller.start request now sent).2
    replies := []
    debugger := [] }

def step (h : Handoff) : HandoffEvent → Handoff
  | .deliver index =>
    match h.messages[index]? with
    | none => h
    | some message =>
      { h with
        service := (h.service.handleAsync message).1
        replies := h.replies ++ [(h.service.handleAsync message).2] }
  | .answer generation index =>
    { h with poller := h.poller.receive generation ((index.bind (h.replies[·]?)).join) }
  | .pollerTimer now sent =>
    { h with
      poller := (h.poller.tick now sent).1
      messages := h.messages ++ (h.poller.tick now sent).2 }
  | .runDeferred now =>
    { h with
      service := (h.service.runDeferred now).1
      debugger := h.debugger ++ (h.service.runDeferred now).2 }
  | .clientReturned result =>
    { h with
      service := (h.service.clientReturned result).1
      debugger := h.debugger ++ (h.service.clientReturned result).2 }
  | .invalidate => { h with service := h.service.invalidate }
  | .setVerifiedDebugService port => { h with service := h.service.setVerifiedDebugService port }

def run (h : Handoff) (events : List HandoffEvent) : Handoff := events.foldl step h

def attachments (h : Handoff) : List (TKACCommand × DebugArenaRequest) := attachmentsOf h.debugger

end Handoff

end Tolkara
