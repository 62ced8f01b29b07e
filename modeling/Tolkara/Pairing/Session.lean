import Tolkara.Pairing.Wire

/-!
# The pairing session

`PairingSession`, the verification of an existing pair, and the `PairingEncryptedChannel`
that carries its one request. JSON, base64 and the primitives of CryptoKit are parameters.
A method that throws after it looked at the message leaves the session closed, whatever it
had changed before.
-/

namespace Tolkara

/-- What the session uses of Foundation and CryptoKit. Keys and secrets are their bytes. -/
structure PairingPlatform where
  json : List UInt8 → Option JSONValue
  jsonData : JSONValue → Option (List UInt8)
  base64 : List UInt8 → Option (List UInt8)
  base64EncodedString : List UInt8 → List UInt8
  /-- The public key of an ephemeral private key. -/
  publicKey : List UInt8 → List UInt8
  /-- The shared secret of a private key and the bytes of a public one. -/
  keyAgreement : List UInt8 → List UInt8 → Option (List UInt8)
  /-- HKDF of a secret with a salt and an info. -/
  hkdf : List UInt8 → List UInt8 → List UInt8 → List UInt8
  /-- ChaChaPoly with a key and a nonce: the ciphertext and its tag. -/
  chaChaSeal : List UInt8 → List UInt8 → List UInt8 → Option (List UInt8)
  chaChaOpen : List UInt8 → List UInt8 → List UInt8 → Option (List UInt8)
  /-- The signature of data under a private key. -/
  signature : List UInt8 → List UInt8 → Option (List UInt8)
  /-- The signature of data is valid under a public key. -/
  isValidSignature : List UInt8 → List UInt8 → List UInt8 → Bool

/-- What a method throws: an error of pairing or one of CryptoKit. -/
inductive Thrown where
  | pairing (error : PairingError)
  | cryptoKit
deriving DecidableEq

/-- A call of a function that throws errors of pairing. -/
def attempt {α : Type} : Except PairingError α → Except Thrown α
  | .ok a => .ok a
  | .error e => .error (.pairing e)

namespace PairingCrypto

variable (platform : PairingPlatform)

def derive (secret info : List UInt8) : List UInt8 := platform.hkdf secret [] info

def nonce (label : List UInt8) : Except PairingError (List UInt8) :=
  if label.length = 8 then .ok (List.replicate 4 0 ++ label) else .error .malformed

def sealBox (plaintext key nonce : List UInt8) : Except Thrown (List UInt8) :=
  if PairingTLV.limit < plaintext.length then .error (.pairing .oversized)
  else
    match platform.chaChaSeal plaintext key nonce with
    | none => .error .cryptoKit
    | some box => .ok box

def openBox (ciphertext key nonce : List UInt8) : Except PairingError (List UInt8) :=
  if ciphertext.length < 16 ∨ PairingTLV.limit + 16 < ciphertext.length then .error .malformed
  else
    match platform.chaChaOpen ciphertext key nonce with
    | none => .error .authenticationFailed
    | some plaintext => .ok plaintext

def verifyKey (shared : List UInt8) : List UInt8 :=
  platform.hkdf shared (ascii "Pair-Verify-Encrypt-Salt") (ascii "Pair-Verify-Encrypt-Info")

def sharedSecret (privateKey peerPublicKey : List UInt8) : Except PairingError (List UInt8) :=
  if peerPublicKey.length ≠ 32 then .error .invalidKey
  else
    match platform.keyAgreement privateKey peerPublicKey with
    | none => .error .invalidKey
    | some shared => .ok shared

def hostProof (signingKey identifier hostEphemeral deviceEphemeral : List UInt8) :
    Except Thrown (List UInt8) :=
  if identifier = [] ∨ 1024 < identifier.length ∨ ¬ isUTF8 identifier ∨ 0 ∈ identifier ∨
      hostEphemeral.length ≠ 32 ∨ deviceEphemeral.length ≠ 32 then .error (.pairing .malformed)
  else
    match platform.signature signingKey (hostEphemeral ++ identifier ++ deviceEphemeral) with
    | none => .error .cryptoKit
    | some signature => attempt (PairingTLV.encode [(1, identifier), (10, signature)])

end PairingCrypto

structure PairingEncryptedChannel where
  clientKey : Option (List UInt8)
  serverKey : Option (List UInt8)
  next : ℕ
  pending : Option (List UInt8)
  closed : Bool
deriving DecidableEq

namespace PairingEncryptedChannel

variable (platform : PairingPlatform)

def init (sessionKey : List UInt8) : PairingEncryptedChannel :=
  { clientKey := some (PairingCrypto.derive platform sessionKey (ascii "ClientEncrypt-main"))
    serverKey := some (PairingCrypto.derive platform sessionKey (ascii "ServerEncrypt-main"))
    next := 0
    pending := none
    closed := false }

def close (c : PairingEncryptedChannel) : PairingEncryptedChannel :=
  { c with
    closed := true
    pending := none
    clientKey := none
    serverKey := none }

/-- The nonce of a counter: eight bytes, the low one first, and four zeros. -/
def counterNonce (n : ℕ) : List UInt8 :=
  (List.range 8).map (fun i => UInt8.ofNat (n / 256 ^ i)) ++ List.replicate 4 0

def sealRequest (c : PairingEncryptedChannel) (plaintext : List UInt8) :
    PairingEncryptedChannel × Except Thrown (List UInt8) :=
  match c.clientKey with
  | none => (c, .error (.pairing .invalidState))
  | some key =>
    if c.closed ∨ c.pending.isSome then (c, .error (.pairing .invalidState))
    else if ¬ c.next < 2 ^ 64 - 1 then (c.close, .error (.pairing .exhausted))
    else
      let nonce := counterNonce c.next
      let c := { c with next := c.next + 1 }
      match PairingCrypto.sealBox platform plaintext key nonce with
      | .error e => (c.close, .error e)
      | .ok result => ({ c with pending := some nonce }, .ok result)

def openResponse (c : PairingEncryptedChannel) (ciphertext : List UInt8) :
    PairingEncryptedChannel × Except Thrown (List UInt8) :=
  match c.pending, c.serverKey with
  | some nonce, some key =>
    if c.closed then (c, .error (.pairing .invalidState))
    else
      match PairingCrypto.openBox platform ciphertext key nonce with
      | .error e => (c.close, .error (.pairing e))
      | .ok result => ({ c with pending := none }, .ok result)
  | _, _ => (c, .error (.pairing .invalidState))

end PairingEncryptedChannel

/-- The record of a pair that both sides trust. -/
structure PairingIdentity where
  hostIdentifier : List UInt8
  signingKey : List UInt8
  peerIdentifier : List UInt8
  peerPublicKey : List UInt8
deriving DecidableEq

namespace PairingSession

inductive Phase where
  | idle
  | handshake
  | deviceProof
  | verification
  | listener
  | complete
  | closed
deriving DecidableEq

structure TunnelOffer where
  port : ℕ
  sessionKey : List UInt8
deriving DecidableEq

inductive Step where
  | send (data : List UInt8)
  | tunnel (offer : TunnelOffer)
deriving DecidableEq

end PairingSession

structure PairingSession where
  phase : PairingSession.Phase
  identity : Option PairingIdentity
  ephemeral : Option (List UInt8)
  sessionKey : Option (List UInt8)
  channel : Option PairingEncryptedChannel
  sequence : ℕ
  lastPeerSequence : Option ℕ
deriving DecidableEq

namespace PairingSession

variable (platform : PairingPlatform)

def init (identity : PairingIdentity) : PairingSession :=
  { phase := .idle
    identity := some identity
    ephemeral := none
    sessionKey := none
    channel := none
    sequence := 0
    lastPeerSequence := none }

def close (s : PairingSession) : PairingSession :=
  { s with
    phase := .closed
    ephemeral := none
    identity := none
    sessionKey := none
    channel := none }

def json (object : JSONValue) : Except PairingError (List UInt8) :=
  match platform.jsonData object with
  | none => .error .malformed
  | some data => if data.length ≤ 65535 then .ok data else .error .oversized

def object (data : List UInt8) : Except PairingError (List (List UInt8 × JSONValue)) :=
  if 65535 < data.length then .error .oversized
  else
    match (platform.json data).bind (·.dictionary?) with
    | none => .error .malformed
    | some entries => .ok entries

def unsigned (value : Option JSONValue) : Option ℕ := value.bind (·.natural? (2 ^ 64))

/-- The entry of a dictionary that is a dictionary itself. -/
def inner (entries : List (List UInt8 × JSONValue)) (key : String) :
    Option (List (List UInt8 × JSONValue)) :=
  (entries.lookup (ascii key)).bind (·.dictionary?)

def envelope (s : PairingSession) (kind : String) (payload : JSONValue) :
    Except PairingError (PairingSession × List UInt8) :=
  if ¬ s.sequence < 2 ^ 64 - 1 then .error .exhausted
  else do
    let output ← json platform (.dictionary
      [(ascii "message", .dictionary [(ascii kind, .dictionary [(ascii "_0", payload)])]),
        (ascii "originatedBy", .string (ascii "host")),
        (ascii "sequenceNumber", .number (ascii (toString s.sequence)) false)])
    return ({ s with sequence := s.sequence + 1 }, output)

def jsonBool (b : Bool) : JSONValue := .number (ascii (if b then "1" else "0")) true

def pairingData (s : PairingSession) (data : List UInt8) (start : Bool) :
    Except PairingError (PairingSession × List UInt8) :=
  envelope platform s "plain" (.dictionary [(ascii "event", .dictionary [(ascii "_0", .dictionary
    [(ascii "pairingData", .dictionary [(ascii "_0", .dictionary
      [(ascii "data", .string (platform.base64EncodedString data)),
        (ascii "kind", .string (ascii "verifyManualPairing")),
        (ascii "startNewSession", jsonBool start)])])])])])

def pairingBytes (payload : List (List UInt8 × JSONValue)) : Except PairingError (List UInt8) := do
  let some event := inner payload "event" | throw .malformed
  let some detail := inner event "_0" | throw .malformed
  if (detail.lookup (ascii "pairingRejectedWithError")).isSome ∨
      (detail.lookup (ascii "pairVerifyFailed")).isSome then
    throw .authenticationFailed
  let some pairing := inner detail "pairingData" | throw .malformed
  let some value := inner pairing "_0" | throw .malformed
  let some text := (value.lookup (ascii "data")).bind (·.string?) | throw .malformed
  if 24000 < text.length then throw .malformed
  let some data := platform.base64 text | throw .malformed
  if PairingTLV.limit < data.length then throw .malformed
  return data

/-- `begin`, with the ephemeral key it makes. -/
def start (s : PairingSession) (key : List UInt8) : PairingSession × Except Thrown (List UInt8) :=
  if s.phase ≠ .idle then (s.close, .error (.pairing .invalidState))
  else
    let s := { s with ephemeral := some key }
    match envelope platform s "plain" (.dictionary [(ascii "request", .dictionary
        [(ascii "_0", .dictionary [(ascii "handshake", .dictionary [(ascii "_0", .dictionary
          [(ascii "hostOptions", .dictionary [(ascii "attemptPairVerify", jsonBool true)]),
            (ascii "wireProtocolVersion", .number (ascii "19") false)])])])])]) with
    | .error e => (s.close, .error (.pairing e))
    | .ok (s, message) => ({ s with phase := .handshake }, .ok message)

/-- What `receive` reads of a message before it looks at the phase: the sequence number
and the content. -/
def header (bytes : List UInt8) : Except PairingError (ℕ × List (List UInt8 × JSONValue)) := do
  let envelope ← object platform bytes
  if (envelope.lookup (ascii "originatedBy")).bind (·.string?) ≠ some (ascii "device") then
    throw .malformed
  let some peerSequence := unsigned (envelope.lookup (ascii "sequenceNumber")) | throw .malformed
  let some message := inner envelope "message" | throw .malformed
  if message.length ≠ 1 then throw .malformed
  return (peerSequence, message)

def plainPayload (message : List (List UInt8 × JSONValue)) :
    Except PairingError (List (List UInt8 × JSONValue)) := do
  let some plain := inner message "plain" | throw .malformed
  if plain.length ≠ 1 then throw .malformed
  let some payload := inner plain "_0" | throw .malformed
  return payload

def isHandshakeResponse (payload : List (List UInt8 × JSONValue)) : Bool :=
  ((inner payload "response").bind fun response =>
    (inner response "_1").bind fun result =>
      (inner result "handshake").bind fun handshake => inner handshake "_0").isSome

def receiveHandshake (s : PairingSession) (payload : List (List UInt8 × JSONValue)) :
    Except Thrown (PairingSession × Step) :=
  match s.ephemeral with
  | none => .error (.pairing .malformed)
  | some ephemeral =>
    if ¬ isHandshakeResponse payload then .error (.pairing .malformed)
    else do
      let start ← attempt (PairingTLV.encode [(6, [1]), (3, platform.publicKey ephemeral)])
      let (s, output) ← attempt (pairingData platform s start true)
      return ({ s with phase := .deviceProof }, .send output)

/-- The proof of the device: its ephemeral key, the secret shared with it and the fields
that it sealed. -/
def readProof (ephemeral data : List UInt8) :
    Except PairingError (List UInt8 × List UInt8 × List (UInt8 × List UInt8)) := do
  let fields ← PairingTLV.message data 2
  let some deviceEphemeral := PairingTLV.field fields 3 | throw .malformed
  let some encrypted := PairingTLV.field fields 5 | throw .malformed
  let shared ← PairingCrypto.sharedSecret platform ephemeral deviceEphemeral
  let nonce ← PairingCrypto.nonce (ascii "PV-Msg02")
  let opened ← PairingCrypto.openBox platform encrypted (PairingCrypto.verifyKey platform shared)
    nonce
  let proof ← PairingTLV.decode opened
  return (deviceEphemeral, shared, proof)

/-- The proof names the stored peer and its signature is one of the stored key. -/
def proves (identity : PairingIdentity) (ephemeral deviceEphemeral : List UInt8)
    (proof : List (UInt8 × List UInt8)) : Bool :=
  match PairingTLV.field proof 7, PairingTLV.field proof 1, PairingTLV.field proof 10 with
  | none, some peerID, some signature =>
    peerID == identity.peerIdentifier && signature.length == 64 &&
      platform.isValidSignature identity.peerPublicKey signature
        (deviceEphemeral ++ peerID ++ platform.publicKey ephemeral)
  | _, _, _ => false

def receiveProof (s : PairingSession) (data : List UInt8) :
    Except Thrown (PairingSession × Step) :=
  match s.ephemeral, s.identity with
  | some ephemeral, some identity => do
    let (deviceEphemeral, shared, proof) ← attempt (readProof platform ephemeral data)
    if ¬ proves platform identity ephemeral deviceEphemeral proof then
      throw (.pairing .authenticationFailed)
    let hostProof ← PairingCrypto.hostProof platform identity.signingKey identity.hostIdentifier
      (platform.publicKey ephemeral) deviceEphemeral
    let nonce ← attempt (PairingCrypto.nonce (ascii "PV-Msg03"))
    let box ← PairingCrypto.sealBox platform hostProof (PairingCrypto.verifyKey platform shared)
      nonce
    let fields ← attempt (PairingTLV.encode [(6, [3]), (5, box)])
    let (s, response) ← attempt (pairingData platform s fields false)
    return ({ s with sessionKey := some shared, phase := .verification }, .send response)
  | _, _ => do
    let _ ← attempt (PairingTLV.message data 2)
    throw (.pairing .malformed)

def listenerRequest (sessionKey : List UInt8) : JSONValue :=
  .dictionary [(ascii "request", .dictionary [(ascii "_0", .dictionary
    [(ascii "createListener", .dictionary
      [(ascii "key", .string (platform.base64EncodedString sessionKey)),
        (ascii "transportProtocolType", .string (ascii "tcp"))])])])]

def receiveVerification (s : PairingSession) (data : List UInt8) :
    Except Thrown (PairingSession × Step) := do
  let _ ← attempt (PairingTLV.message data 4)
  let some sessionKey := s.sessionKey | throw (.pairing .invalidState)
  let request ← attempt (json platform (listenerRequest platform sessionKey))
  match (PairingEncryptedChannel.init platform sessionKey).sealRequest platform request with
  | (_, .error e) => throw e
  | (channel, .ok ciphertext) =>
    let (s, output) ← attempt (envelope platform s "streamEncrypted"
      (.string (platform.base64EncodedString ciphertext)))
    let s :=
      { s with
        channel := some channel
        phase := .listener
        ephemeral := none
        identity := none }
    return (s, .send output)

def listenerCiphertext (message : List (List UInt8 × JSONValue)) :
    Except PairingError (List UInt8) := do
  let some encrypted := inner message "streamEncrypted" | throw .malformed
  if encrypted.length ≠ 1 then throw .malformed
  let some text := (encrypted.lookup (ascii "_0")).bind (·.string?) | throw .malformed
  if 24000 < text.length then throw .malformed
  let some ciphertext := platform.base64 text | throw .malformed
  return ciphertext

def listenerPort (reply : List UInt8) : Except PairingError ℕ := do
  let object ← object platform reply
  let some response := inner object "response" | throw .malformed
  let some result := inner response "_1" | throw .malformed
  let some listener := inner result "createListener" | throw .malformed
  let some port := unsigned (listener.lookup (ascii "port")) | throw .malformed
  if port = 0 ∨ 65535 < port then throw .malformed
  return port

def receiveListener (s : PairingSession) (message : List (List UInt8 × JSONValue)) :
    Except Thrown (PairingSession × Step) := do
  let ciphertext ← attempt (listenerCiphertext platform message)
  let some channel := s.channel | throw (.pairing .malformed)
  let some sessionKey := s.sessionKey | throw (.pairing .malformed)
  let reply ← (channel.openResponse platform ciphertext).2
  let port ← attempt (listenerPort platform reply)
  return ({ s with sessionKey := none, channel := none, phase := .complete },
    .tunnel { port := port, sessionKey := sessionKey })

def handle (s : PairingSession) (message : List (List UInt8 × JSONValue)) :
    Except Thrown (PairingSession × Step) :=
  if s.phase = .listener then receiveListener platform s message
  else do
    let payload ← attempt (plainPayload message)
    match s.phase with
    | .handshake => receiveHandshake platform s payload
    | .deviceProof =>
      let data ← attempt (pairingBytes platform payload)
      receiveProof platform s data
    | .verification =>
      let data ← attempt (pairingBytes platform payload)
      receiveVerification platform s data
    | _ => throw (.pairing .invalidState)

def receive (s : PairingSession) (bytes : List UInt8) : PairingSession × Except Thrown Step :=
  if s.phase = .idle ∨ s.phase = .closed ∨ s.phase = .complete then
    (s.close, .error (.pairing .invalidState))
  else
    match header platform bytes with
    | .error e => (s.close, .error (.pairing e))
    | .ok (peerSequence, message) =>
      if s.lastPeerSequence.any (fun last => peerSequence ≤ last) then
        (s.close, .error (.pairing .malformed))
      else
        let s := { s with lastPeerSequence := some peerSequence }
        match handle platform s message with
        | .error e => (s.close, .error e)
        | .ok (s, step) => (s, .ok step)

end PairingSession

end Tolkara
