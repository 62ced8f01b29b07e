import Tolkara.Pairing.Session

/-!
# What stands behind a tunnel offer

Every error closes a session for good, so a session that offers a tunnel has seen the four
messages of the exchange and nothing else. `Progress` says which messages a session in each
phase has seen; a call moves it to the next phase or closes the session.
-/

namespace Tolkara

open Chunking

theorem attempt_ok {α : Type} {x : Except PairingError α} {a : α} (h : attempt x = .ok a) :
    x = .ok a := by
  cases x with
  | error e => cases h
  | ok b =>
      cases h
      rfl

namespace PairingTLV

theorem message_ok {data : List UInt8} {state : UInt8} {fields : List (UInt8 × List UInt8)}
    (h : message data state = .ok fields) :
    decode data = .ok fields ∧ field fields 7 = none ∧ field fields 6 = some [state] := by
  obtain ⟨decoded, hdecoded, h⟩ := ok_of_bind h
  simp only [bind, Except.bind, pure, Except.pure, throw, throwThe, MonadExceptOf.throw] at h
  split_ifs at h with herror hstate
  cases h
  refine ⟨hdecoded, ?_, not_not.mp hstate⟩
  simpa using herror

end PairingTLV

namespace PairingEncryptedChannel

variable {platform : PairingPlatform}

theorem sealRequest_ok {c c' : PairingEncryptedChannel} {plaintext box : List UInt8}
    (h : c.sealRequest platform plaintext = (c', .ok box)) :
    ∃ key, c.clientKey = some key ∧
      (c.closed = false ∧ c.pending = none ∧ c.next < 2 ^ 64 - 1) ∧
      PairingCrypto.sealBox platform plaintext key (counterNonce c.next) = .ok box ∧
      c' = { c with next := c.next + 1, pending := some (counterNonce c.next) } := by
  unfold sealRequest at h
  split at h
  · cases h
  · rename_i key hkey
    split at h
    · cases h
    · rename_i hstate
      rw [not_or, Bool.not_eq_true, Option.not_isSome_iff_eq_none] at hstate
      split at h
      · cases h
      · rename_i hnext
        dsimp only at h
        split at h
        · cases h
        · rename_i result hbox
          cases h
          exact ⟨key, hkey, ⟨hstate.1, hstate.2, not_not.mp hnext⟩, hbox, rfl⟩

theorem openResponse_ok {c : PairingEncryptedChannel} {ciphertext reply : List UInt8}
    (h : (c.openResponse platform ciphertext).2 = .ok reply) :
    ∃ nonce key, c.pending = some nonce ∧ c.serverKey = some key ∧ c.closed = false ∧
      PairingCrypto.openBox platform ciphertext key nonce = .ok reply := by
  unfold openResponse at h
  split at h
  · rename_i nonce key hpending hkey
    split at h
    · cases h
    · rename_i hclosed
      split at h
      · cases h
      · rename_i result hopen
        cases h
        exact ⟨nonce, key, hpending, hkey, by simpa using hclosed, hopen⟩
  · cases h

theorem sealRequest_error {c c' : PairingEncryptedChannel} {plaintext : List UInt8} {e : Thrown}
    (h : c.sealRequest platform plaintext = (c', .error e)) :
    c' = c ∨ c' = c.close ∨ (c.next < 2 ^ 64 - 1 ∧ c' = { c with next := c.next + 1 }.close) := by
  unfold sealRequest at h
  split at h
  · cases h
    exact Or.inl rfl
  · split at h
    · cases h
      exact Or.inl rfl
    · split at h
      · cases h
        exact Or.inr (Or.inl rfl)
      · rename_i hnext
        dsimp only at h
        split at h
        · cases h
          exact Or.inr (Or.inr ⟨not_not.mp hnext, rfl⟩)
        · cases h

theorem openResponse_cases {c c' : PairingEncryptedChannel} {ciphertext : List UInt8}
    {result : Except Thrown (List UInt8)}
    (h : c.openResponse platform ciphertext = (c', result)) :
    (∃ e, result = .error e ∧ (c' = c ∨ c' = c.close)) ∨ c' = { c with pending := none } := by
  unfold openResponse at h
  split at h
  · split at h
    · cases h
      exact Or.inl ⟨_, rfl, Or.inl rfl⟩
    · split at h
      · cases h
        exact Or.inl ⟨_, rfl, Or.inr rfl⟩
      · cases h
        exact Or.inr rfl
  · cases h
    exact Or.inl ⟨_, rfl, Or.inl rfl⟩

/-- Different counters have different nonces. -/
theorem counterNonce_injective {m n : ℕ} (hm : m < 2 ^ 64) (hn : n < 2 ^ 64)
    (h : counterNonce m = counterNonce n) : m = n := by
  have hbytes := List.append_inj_left' h rfl
  simp only [List.range, List.range.loop, List.map_cons, List.map_nil, List.cons.injEq,
    ← UInt8.toNat_inj, UInt8.toNat_ofNat', and_true] at hbytes
  norm_num at hbytes
  omega

/-! ### Runs of a channel -/

inductive Use where
  | sealRequest (plaintext : List UInt8)
  | openResponse (ciphertext : List UInt8)
  | close

/-- What the owner of a channel has seen: the nonces of the requests that were sealed, and
the one of a request that has no response yet. -/
structure Seen where
  nonces : List (List UInt8)
  outstanding : Option (List UInt8)

variable (platform) in
/-- A call of a channel, with what its owner sees of it. -/
def use (state : PairingEncryptedChannel × Seen) : Use → PairingEncryptedChannel × Seen
  | .sealRequest plaintext =>
    match state.1.sealRequest platform plaintext with
    | (c, .error _) => (c, state.2)
    | (c, .ok _) =>
      (c, { nonces := state.2.nonces ++ [counterNonce state.1.next]
            outstanding := some (counterNonce state.1.next) })
  | .openResponse ciphertext =>
    match state.1.openResponse platform ciphertext with
    | (c, .error _) => (c, state.2)
    | (c, .ok _) => (c, { state.2 with outstanding := none })
  | .close => (state.1.close, state.2)

variable (platform) in
def uses (sessionKey : List UInt8) (calls : List Use) : PairingEncryptedChannel × Seen :=
  calls.foldl (use platform) (init platform sessionKey, ⟨[], none⟩)

/-- The nonces are those of counters that are spent, and the request that the channel waits
for is the outstanding one. -/
structure Fresh (state : PairingEncryptedChannel × Seen) : Prop where
  bound : state.1.next < 2 ^ 64
  spent : state.2.nonces.Sublist ((List.range state.1.next).map counterNonce)
  waits : ∀ nonce, state.1.pending = some nonce → state.2.outstanding = some nonce

theorem Fresh.nodup {state : PairingEncryptedChannel × Seen} (h : Fresh state) :
    state.2.nonces.Nodup := by
  refine h.spent.nodup (List.Nodup.map_on ?_ List.nodup_range)
  intro m hm n hn heq
  rw [List.mem_range] at hm hn
  exact counterNonce_injective (hm.trans h.bound) (hn.trans h.bound) heq

theorem Fresh.close {state : PairingEncryptedChannel × Seen} (h : Fresh state) :
    Fresh (state.1.close, state.2) := by
  refine ⟨h.bound, h.spent, ?_⟩
  intro nonce hnonce
  cases hnonce

theorem Fresh.sealRequest {state : PairingEncryptedChannel × Seen} (h : Fresh state)
    (plaintext : List UInt8) : Fresh (use platform state (.sealRequest plaintext)) := by
  have hmore : (List.range (state.1.next + 1)).map counterNonce =
      (List.range state.1.next).map counterNonce ++ [counterNonce state.1.next] := by
    rw [List.range_succ, List.map_append, List.map_singleton]
  unfold use
  dsimp only
  split
  · rename_i c e hseal
    rcases sealRequest_error hseal with rfl | rfl | ⟨hnext, rfl⟩
    · exact h
    · exact h.close
    · refine ⟨?_, ?_, ?_⟩
      · change state.1.next + 1 < 2 ^ 64
        omega
      · change state.2.nonces.Sublist ((List.range (state.1.next + 1)).map counterNonce)
        rw [hmore]
        exact h.spent.trans (List.sublist_append_left _ _)
      · intro nonce hnonce
        cases hnonce
  · rename_i c box hseal
    obtain ⟨key, -, ⟨-, -, hnext⟩, -, rfl⟩ := sealRequest_ok hseal
    refine ⟨?_, ?_, ?_⟩
    · change state.1.next + 1 < 2 ^ 64
      omega
    · change (state.2.nonces ++ [counterNonce state.1.next]).Sublist
        ((List.range (state.1.next + 1)).map counterNonce)
      rw [hmore]
      exact h.spent.append (List.Sublist.refl _)
    · intro nonce hnonce
      exact hnonce

theorem Fresh.openResponse {state : PairingEncryptedChannel × Seen} (h : Fresh state)
    (ciphertext : List UInt8) : Fresh (use platform state (.openResponse ciphertext)) := by
  have hanswered : ∀ seen : Seen, seen.nonces = state.2.nonces →
      Fresh ({ state.1 with pending := none }, seen) := by
    intro seen hseen
    refine ⟨h.bound, ?_, ?_⟩
    · rw [hseen]
      exact h.spent
    · intro nonce hnonce
      cases hnonce
  unfold use
  dsimp only
  split
  · rename_i c e hopen
    rcases openResponse_cases hopen with ⟨-, -, rfl | rfl⟩ | rfl
    · exact h
    · exact h.close
    · exact hanswered state.2 rfl
  · rename_i c reply hopen
    rcases openResponse_cases hopen with ⟨e, herror, -⟩ | rfl
    · cases herror
    · exact hanswered _ rfl

/-- Every use of a channel keeps its nonces fresh. -/
theorem Fresh.run (sessionKey : List UInt8) (calls : List Use) :
    Fresh (uses platform sessionKey calls) := by
  unfold uses
  induction calls using List.reverseRecOn with
  | nil =>
      refine ⟨Nat.two_pow_pos 64, List.Sublist.refl _, ?_⟩
      intro nonce hnonce
      cases hnonce
  | append_singleton calls c ih =>
      rw [List.foldl_append]
      cases c with
      | sealRequest plaintext => exact ih.sealRequest plaintext
      | openResponse ciphertext => exact ih.openResponse ciphertext
      | close => exact ih.close

variable (platform) in
/-- No two requests of a channel have one nonce, and a response is opened only with the nonce
of the outstanding request. -/
def NoncesOnce (sessionKey : List UInt8) (calls : List Use) : Prop :=
  (uses platform sessionKey calls).2.nonces.Nodup ∧
    (∀ plaintext c box,
      (uses platform sessionKey calls).1.sealRequest platform plaintext = (c, .ok box) →
        counterNonce (uses platform sessionKey calls).1.next ∉
            (uses platform sessionKey calls).2.nonces ∧
          ∃ key, (uses platform sessionKey calls).1.clientKey = some key ∧
            PairingCrypto.sealBox platform plaintext key
              (counterNonce (uses platform sessionKey calls).1.next) = .ok box) ∧
    (∀ ciphertext reply,
      ((uses platform sessionKey calls).1.openResponse platform ciphertext).2 = .ok reply →
        ∃ nonce key, (uses platform sessionKey calls).2.outstanding = some nonce ∧
          (uses platform sessionKey calls).1.serverKey = some key ∧
          PairingCrypto.openBox platform ciphertext key nonce = .ok reply)

theorem noncesOnce (sessionKey : List UInt8) (calls : List Use) :
    NoncesOnce platform sessionKey calls := by
  have hfresh : Fresh (uses platform sessionKey calls) := Fresh.run sessionKey calls
  refine ⟨hfresh.nodup, ?_, ?_⟩
  · intro plaintext c box hseal
    obtain ⟨key, hkey, ⟨-, -, hnext⟩, hbox, -⟩ := sealRequest_ok hseal
    refine ⟨?_, key, hkey, hbox⟩
    intro hmem
    obtain ⟨m, hm, heq⟩ := List.mem_map.mp (hfresh.spent.subset hmem)
    rw [List.mem_range] at hm
    have hsame := counterNonce_injective (hm.trans hfresh.bound) hfresh.bound heq
    omega
  · intro ciphertext reply hopen
    obtain ⟨nonce, key, hpending, hkey, -, hreply⟩ := openResponse_ok hopen
    exact ⟨nonce, key, hfresh.waits nonce hpending, hkey, hreply⟩

end PairingEncryptedChannel

namespace PairingSession

variable (platform : PairingPlatform)

inductive Call where
  | start (key : List UInt8)
  | receive (bytes : List UInt8)
  | close

/-- The session after a call, whether it returns or throws. -/
def call (s : PairingSession) : Call → PairingSession
  | .start key => (s.start platform key).1
  | .receive bytes => (s.receive platform bytes).1
  | .close => s.close

def stepOf (s : PairingSession) : Call → Option Step
  | .receive bytes =>
    match (s.receive platform bytes).2 with
    | .ok step => some step
    | .error _ => none
  | _ => none

def steps : PairingSession → List Call → List Step
  | _, [] => []
  | s, c :: rest => (stepOf platform s c).toList ++ steps (call platform s c) rest

/-- The response to the handshake, with its sequence number. -/
def HandshakeSeen (bytes : List UInt8) (q : ℕ) : Prop :=
  ∃ message payload, header platform bytes = .ok (q, message) ∧
    plainPayload message = .ok payload ∧ isHandshakeResponse payload = true

/-- The proof of the stored peer: a message of state 2 whose sealed part names the peer and
signs both ephemeral keys with the stored key. -/
def ProofSeen (identity : PairingIdentity) (key bytes : List UInt8) (q : ℕ)
    (shared : List UInt8) : Prop :=
  ∃ message payload data fields deviceEphemeral encrypted opened proof signature,
    header platform bytes = .ok (q, message) ∧ plainPayload message = .ok payload ∧
    pairingBytes platform payload = .ok data ∧ PairingTLV.decode data = .ok fields ∧
    PairingTLV.field fields 7 = none ∧ PairingTLV.field fields 6 = some [2] ∧
    PairingTLV.field fields 3 = some deviceEphemeral ∧
    PairingTLV.field fields 5 = some encrypted ∧
    PairingCrypto.sharedSecret platform key deviceEphemeral = .ok shared ∧
    PairingCrypto.openBox platform encrypted (PairingCrypto.verifyKey platform shared)
      (List.replicate 4 0 ++ ascii "PV-Msg02") = .ok opened ∧
    PairingTLV.decode opened = .ok proof ∧ PairingTLV.field proof 7 = none ∧
    PairingTLV.field proof 1 = some identity.peerIdentifier ∧
    PairingTLV.field proof 10 = some signature ∧ signature.length = 64 ∧
    platform.isValidSignature identity.peerPublicKey signature
      (deviceEphemeral ++ identity.peerIdentifier ++ platform.publicKey key) = true

/-- A message of state 4 without an error. -/
def VerificationSeen (bytes : List UInt8) (q : ℕ) : Prop :=
  ∃ message payload data fields, header platform bytes = .ok (q, message) ∧
    plainPayload message = .ok payload ∧ pairingBytes platform payload = .ok data ∧
    PairingTLV.decode data = .ok fields ∧ PairingTLV.field fields 7 = none ∧
    PairingTLV.field fields 6 = some [4]

/-- The request for a listener was sealed with the client's key and a nonce. -/
def RequestSealed (shared nonce : List UInt8) : Prop :=
  ∃ request box, json platform (listenerRequest platform shared) = .ok request ∧
    PairingCrypto.sealBox platform request
      (PairingCrypto.derive platform shared (ascii "ClientEncrypt-main")) nonce = .ok box

/-- The reply of the listener: it opens with the server's key and a nonce and has a port. -/
def ListenerSeen (shared nonce bytes : List UInt8) (q port : ℕ) : Prop :=
  ∃ message ciphertext reply, header platform bytes = .ok (q, message) ∧
    listenerCiphertext platform message = .ok ciphertext ∧
    PairingCrypto.openBox platform ciphertext
      (PairingCrypto.derive platform shared (ascii "ServerEncrypt-main")) nonce = .ok reply ∧
    listenerPort platform reply = .ok port

/-- Nothing secret is left. -/
def Dropped (s : PairingSession) : Prop :=
  s.identity = none ∧ s.ephemeral = none ∧ s.sessionKey = none ∧ s.channel = none

variable {platform}

theorem dropped_close (s : PairingSession) : s.close.phase = .closed ∧ s.close.Dropped :=
  ⟨rfl, rfl, rfl, rfl, rfl⟩

/-! ## What a phase accepts -/

theorem envelope_ok {s s' : PairingSession} {kind : String} {payload : JSONValue}
    {output : List UInt8} (h : envelope platform s kind payload = .ok (s', output)) :
    s' = { s with sequence := s.sequence + 1 } := by
  unfold envelope at h
  split_ifs at h
  obtain ⟨data, hdata, hreturn⟩ := ok_of_bind h
  cases hreturn
  rfl

theorem receive_ok {s s' : PairingSession} {bytes : List UInt8} {step : Step}
    (h : s.receive platform bytes = (s', .ok step)) :
    s.phase ≠ .idle ∧ s.phase ≠ .closed ∧ s.phase ≠ .complete ∧
      ∃ q message, header platform bytes = .ok (q, message) ∧
        (∀ last, s.lastPeerSequence = some last → last < q) ∧
        handle platform { s with lastPeerSequence := some q } message = .ok (s', step) := by
  unfold receive at h
  split_ifs at h with hphase
  · cases h
  rw [not_or, not_or] at hphase
  refine ⟨hphase.1, hphase.2.1, hphase.2.2, ?_⟩
  cases hheader : header platform bytes with
  | error e =>
      simp only [hheader] at h
      cases h
  | ok p =>
      obtain ⟨q, message⟩ := p
      simp only [hheader] at h
      split_ifs at h with hlast
      · cases h
      refine ⟨q, message, rfl, ?_, ?_⟩
      · intro last hsome
        rw [hsome] at hlast
        simpa using hlast
      · cases hhandle : handle platform { s with lastPeerSequence := some q } message with
        | error e =>
            simp only [hhandle] at h
            cases h
        | ok r =>
            obtain ⟨s₁, step₁⟩ := r
            simp only [hhandle] at h
            cases h
            rfl

theorem receive_error {s s' : PairingSession} {bytes : List UInt8} {e : Thrown}
    (h : s.receive platform bytes = (s', .error e)) : s'.phase = .closed ∧ s'.Dropped := by
  unfold receive at h
  split_ifs at h with hphase
  · cases h
    exact dropped_close s
  · cases hheader : header platform bytes with
    | error e =>
        simp only [hheader] at h
        cases h
        exact dropped_close s
    | ok p =>
        obtain ⟨q, message⟩ := p
        simp only [hheader] at h
        split_ifs at h
        · cases h
          exact dropped_close s
        · cases hhandle : handle platform { s with lastPeerSequence := some q } message with
          | error e =>
              simp only [hhandle] at h
              cases h
              exact dropped_close _
          | ok r =>
              simp only [hhandle] at h
              cases h

theorem receiveHandshake_ok {s s' : PairingSession} {payload : List (List UInt8 × JSONValue)}
    {step : Step} (h : receiveHandshake platform s payload = .ok (s', step)) :
    isHandshakeResponse payload = true ∧ (∃ output, step = .send output) ∧
      s' = { s with sequence := s.sequence + 1, phase := .deviceProof } := by
  unfold receiveHandshake at h
  split at h
  · cases h
  · split_ifs at h with hresponse
    obtain ⟨start, hstart, h⟩ := ok_of_bind h
    obtain ⟨⟨s₁, output⟩, houtput, h⟩ := ok_of_bind h
    cases h
    have hs₁ := envelope_ok (attempt_ok houtput)
    rw [hs₁]
    exact ⟨by simpa using hresponse, ⟨output, rfl⟩, rfl⟩

theorem proves_ok {identity : PairingIdentity} {key deviceEphemeral : List UInt8}
    {proof : List (UInt8 × List UInt8)}
    (h : proves platform identity key deviceEphemeral proof = true) :
    PairingTLV.field proof 7 = none ∧
      PairingTLV.field proof 1 = some identity.peerIdentifier ∧
      ∃ signature, PairingTLV.field proof 10 = some signature ∧ signature.length = 64 ∧
        platform.isValidSignature identity.peerPublicKey signature
          (deviceEphemeral ++ identity.peerIdentifier ++ platform.publicKey key) = true := by
  unfold proves at h
  split at h
  · rename_i peerID signature herror hpeer hsignature
    rw [Bool.and_eq_true, Bool.and_eq_true, beq_iff_eq, beq_iff_eq] at h
    obtain ⟨⟨rfl, hlength⟩, hvalid⟩ := h
    exact ⟨herror, hpeer, signature, hsignature, hlength, hvalid⟩
  · cases h

theorem readProof_ok {key data deviceEphemeral shared : List UInt8}
    {proof : List (UInt8 × List UInt8)}
    (h : readProof platform key data = .ok (deviceEphemeral, shared, proof)) :
    ∃ fields encrypted opened, PairingTLV.decode data = .ok fields ∧
      PairingTLV.field fields 7 = none ∧ PairingTLV.field fields 6 = some [2] ∧
      PairingTLV.field fields 3 = some deviceEphemeral ∧
      PairingTLV.field fields 5 = some encrypted ∧
      PairingCrypto.sharedSecret platform key deviceEphemeral = .ok shared ∧
      PairingCrypto.openBox platform encrypted (PairingCrypto.verifyKey platform shared)
        (List.replicate 4 0 ++ ascii "PV-Msg02") = .ok opened ∧
      PairingTLV.decode opened = .ok proof := by
  obtain ⟨fields, hfields, h⟩ := ok_of_bind h
  obtain ⟨hdecode, herror, hstate⟩ := PairingTLV.message_ok hfields
  cases hdevice : PairingTLV.field fields 3 with
  | none =>
      simp only [hdevice] at h
      cases h
  | some device =>
      simp only [hdevice] at h
      cases hencrypted : PairingTLV.field fields 5 with
      | none =>
          simp only [hencrypted] at h
          cases h
      | some encrypted =>
          simp only [hencrypted] at h
          obtain ⟨secret, hsecret, h⟩ := ok_of_bind h
          obtain ⟨nonce, hnonce, h⟩ := ok_of_bind h
          obtain ⟨opened, hopened, h⟩ := ok_of_bind h
          obtain ⟨fields', hfields', h⟩ := ok_of_bind h
          cases h
          have hlabel : nonce = List.replicate 4 0 ++ ascii "PV-Msg02" := by
            rw [PairingCrypto.nonce, if_pos (by decide)] at hnonce
            exact (Except.ok.inj hnonce).symm
          rw [hlabel] at hopened
          exact ⟨fields, encrypted, opened, hdecode, herror, hstate, hdevice, hencrypted, hsecret,
            hopened, hfields'⟩

theorem receiveProof_ok {s s' : PairingSession} {data : List UInt8} {step : Step}
    (h : receiveProof platform s data = .ok (s', step)) :
    ∃ key identity deviceEphemeral shared proof, s.ephemeral = some key ∧
      s.identity = some identity ∧
      readProof platform key data = .ok (deviceEphemeral, shared, proof) ∧
      proves platform identity key deviceEphemeral proof = true ∧
      (∃ output, step = .send output) ∧
      s' =
        { s with
          sequence := s.sequence + 1
          sessionKey := some shared
          phase := .verification } := by
  unfold receiveProof at h
  split at h
  · rename_i key identity hkey hidentity
    obtain ⟨⟨deviceEphemeral, shared, proof⟩, hread, h⟩ := ok_of_bind h
    by_cases hproves : proves platform identity key deviceEphemeral proof = true
    · simp only [hproves, not_true_eq_false, if_false] at h
      obtain ⟨hostProof, hhost, h⟩ := ok_of_bind h
      obtain ⟨nonce, hnonce, h⟩ := ok_of_bind h
      obtain ⟨box, hbox, h⟩ := ok_of_bind h
      obtain ⟨fields, hfields, h⟩ := ok_of_bind h
      obtain ⟨⟨s₁, response⟩, hresponse, h⟩ := ok_of_bind h
      cases h
      have hs₁ := envelope_ok (attempt_ok hresponse)
      rw [hs₁]
      exact ⟨key, identity, deviceEphemeral, shared, proof, hkey, hidentity, attempt_ok hread,
        hproves, ⟨response, rfl⟩, rfl⟩
    · simp only [hproves] at h
      cases h
  · obtain ⟨fields, hfields, h⟩ := ok_of_bind h
    cases h

theorem sealRequest_init {sessionKey request ciphertext : List UInt8}
    {channel : PairingEncryptedChannel}
    (h : (PairingEncryptedChannel.init platform sessionKey).sealRequest platform request =
      (channel, .ok ciphertext)) :
    PairingCrypto.sealBox platform request
        (PairingCrypto.derive platform sessionKey (ascii "ClientEncrypt-main"))
        (PairingEncryptedChannel.counterNonce 0) = .ok ciphertext ∧
      channel =
        { PairingEncryptedChannel.init platform sessionKey with
          next := 1
          pending := some (PairingEncryptedChannel.counterNonce 0) } := by
  obtain ⟨key, hkey, -, hbox, hchannel⟩ := PairingEncryptedChannel.sealRequest_ok h
  cases hkey
  exact ⟨hbox, hchannel⟩

theorem receiveVerification_ok {s s' : PairingSession} {data : List UInt8} {step : Step}
    (h : receiveVerification platform s data = .ok (s', step)) :
    ∃ fields shared, PairingTLV.message data 4 = .ok fields ∧ s.sessionKey = some shared ∧
      RequestSealed platform shared (PairingEncryptedChannel.counterNonce 0) ∧
      (∃ output, step = .send output) ∧
      s' =
        { s with
          sequence := s.sequence + 1
          channel := some
            { PairingEncryptedChannel.init platform shared with
              next := 1
              pending := some (PairingEncryptedChannel.counterNonce 0) }
          phase := .listener
          ephemeral := none
          identity := none } := by
  unfold receiveVerification at h
  obtain ⟨fields, hfields, h⟩ := ok_of_bind h
  rcases Option.eq_none_or_eq_some s.sessionKey with hkey | ⟨shared, hkey⟩
  · simp only [hkey] at h
    cases h
  · simp only [hkey] at h
    obtain ⟨request, hrequest, h⟩ := ok_of_bind h
    split at h
    · cases h
    · rename_i channel ciphertext hseal
      obtain ⟨hbox, rfl⟩ := sealRequest_init hseal
      obtain ⟨⟨s₁, output⟩, houtput, h⟩ := ok_of_bind h
      cases h
      have hs₁ := envelope_ok (attempt_ok houtput)
      rw [hs₁]
      exact ⟨fields, shared, attempt_ok hfields, hkey,
        ⟨request, ciphertext, attempt_ok hrequest, hbox⟩, ⟨output, rfl⟩, rfl⟩

theorem receiveListener_ok {s s' : PairingSession} {message : List (List UInt8 × JSONValue)}
    {step : Step} (h : receiveListener platform s message = .ok (s', step)) :
    ∃ ciphertext channel shared reply port,
      listenerCiphertext platform message = .ok ciphertext ∧ s.channel = some channel ∧
      s.sessionKey = some shared ∧ (channel.openResponse platform ciphertext).2 = .ok reply ∧
      listenerPort platform reply = .ok port ∧ step = .tunnel ⟨port, shared⟩ ∧
      s' = { s with sessionKey := none, channel := none, phase := .complete } := by
  obtain ⟨ciphertext, hciphertext, h⟩ := ok_of_bind h
  cases hchannel : s.channel with
  | none =>
      simp only [hchannel] at h
      cases h
  | some channel =>
      simp only [hchannel] at h
      cases hkey : s.sessionKey with
      | none =>
          simp only [hkey] at h
          cases h
      | some shared =>
          simp only [hkey] at h
          obtain ⟨reply, hreply, h⟩ := ok_of_bind h
          obtain ⟨port, hport, h⟩ := ok_of_bind h
          cases h
          exact ⟨ciphertext, channel, shared, reply, port, attempt_ok hciphertext, rfl, rfl,
            hreply, attempt_ok hport, rfl, rfl⟩

/-! ## Runs -/

variable (platform) in
/-- What a session has seen on its way to a phase. -/
inductive Progress (identity : PairingIdentity) : List Call → PairingSession → Prop where
  | idle : Progress identity [] (init identity)
  | handshake {key : List UInt8} {s : PairingSession} (phase : s.phase = .handshake)
      (record : s.identity = some identity) (ephemeral : s.ephemeral = some key)
      (number : s.lastPeerSequence = none) : Progress identity [.start key] s
  | deviceProof {key b₁ : List UInt8} {q₁ : ℕ} {s : PairingSession}
      (phase : s.phase = .deviceProof) (record : s.identity = some identity)
      (ephemeral : s.ephemeral = some key) (number : s.lastPeerSequence = some q₁)
      (first : HandshakeSeen platform b₁ q₁) :
      Progress identity [.start key, .receive b₁] s
  | verification {key b₁ b₂ shared : List UInt8} {q₁ q₂ : ℕ} {s : PairingSession}
      (phase : s.phase = .verification) (secret : s.sessionKey = some shared)
      (number : s.lastPeerSequence = some q₂) (first : HandshakeSeen platform b₁ q₁)
      (second : ProofSeen platform identity key b₂ q₂ shared) (rising : q₁ < q₂) :
      Progress identity [.start key, .receive b₁, .receive b₂] s
  | listener {key b₁ b₂ b₃ shared : List UInt8} {q₁ q₂ q₃ : ℕ} {s : PairingSession}
      (phase : s.phase = .listener) (record : s.identity = none) (ephemeral : s.ephemeral = none)
      (secret : s.sessionKey = some shared)
      (channel : s.channel = some
        { PairingEncryptedChannel.init platform shared with
          next := 1
          pending := some (PairingEncryptedChannel.counterNonce 0) })
      (number : s.lastPeerSequence = some q₃) (first : HandshakeSeen platform b₁ q₁)
      (second : ProofSeen platform identity key b₂ q₂ shared)
      (third : VerificationSeen platform b₃ q₃)
      (request : RequestSealed platform shared (PairingEncryptedChannel.counterNonce 0))
      (rising : q₁ < q₂ ∧ q₂ < q₃) :
      Progress identity [.start key, .receive b₁, .receive b₂, .receive b₃] s
  | ended {calls : List Call} {s : PairingSession}
      (phase : s.phase = .complete ∨ s.phase = .closed) (dropped : s.Dropped) :
      Progress identity calls s

theorem start_cases (s : PairingSession) (key : List UInt8) :
    ((s.start platform key).1.phase = .closed ∧ (s.start platform key).1.Dropped) ∨
      s.phase = .idle ∧ (s.start platform key).1 =
        { s with ephemeral := some key, sequence := s.sequence + 1, phase := .handshake } := by
  unfold start
  split
  · exact Or.inl (dropped_close s)
  · rename_i hidle
    dsimp only
    split
    · exact Or.inl (dropped_close _)
    · rename_i s₁ message henvelope
      have hs₁ := envelope_ok henvelope
      rw [hs₁]
      exact Or.inr ⟨not_not.mp hidle, rfl⟩

theorem handle_ok {s s' : PairingSession} {message : List (List UInt8 × JSONValue)}
    {step : Step} (h : handle platform s message = .ok (s', step)) :
    (s.phase = .listener ∧ receiveListener platform s message = .ok (s', step)) ∨
      ∃ payload, plainPayload message = .ok payload ∧
        ((s.phase = .handshake ∧ receiveHandshake platform s payload = .ok (s', step)) ∨
          ∃ data, pairingBytes platform payload = .ok data ∧
            ((s.phase = .deviceProof ∧ receiveProof platform s data = .ok (s', step)) ∨
              (s.phase = .verification ∧
                receiveVerification platform s data = .ok (s', step)))) := by
  unfold handle at h
  split at h
  · rename_i hphase
    exact Or.inl ⟨hphase, h⟩
  · obtain ⟨payload, hpayload, h⟩ := ok_of_bind h
    refine Or.inr ⟨payload, attempt_ok hpayload, ?_⟩
    cases hphase : s.phase with
    | handshake =>
        simp only [hphase] at h
        exact Or.inl ⟨rfl, h⟩
    | deviceProof =>
        simp only [hphase] at h
        obtain ⟨data, hdata, h⟩ := ok_of_bind h
        exact Or.inr ⟨data, attempt_ok hdata, Or.inl ⟨rfl, h⟩⟩
    | verification =>
        simp only [hphase] at h
        obtain ⟨data, hdata, h⟩ := ok_of_bind h
        exact Or.inr ⟨data, attempt_ok hdata, Or.inr ⟨rfl, h⟩⟩
    | idle =>
        simp only [hphase] at h
        cases h
    | listener =>
        simp only [hphase] at h
        cases h
    | complete =>
        simp only [hphase] at h
        cases h
    | closed =>
        simp only [hphase] at h
        cases h

variable (platform) in
/-- The whole exchange behind an offer: `begin`, and then the handshake, the proof, the
verification and the reply of the listener, with rising sequence numbers and the nonce of the
one request. -/
def Exchange (identity : PairingIdentity) (calls : List Call) (bytes nonce : List UInt8)
    (offer : TunnelOffer) : Prop :=
  ∃ key b₁ b₂ b₃ q₁ q₂ q₃ q₄,
    calls = [.start key, .receive b₁, .receive b₂, .receive b₃] ∧
    HandshakeSeen platform b₁ q₁ ∧
    ProofSeen platform identity key b₂ q₂ offer.sessionKey ∧
    VerificationSeen platform b₃ q₃ ∧
    RequestSealed platform offer.sessionKey nonce ∧
    ListenerSeen platform offer.sessionKey nonce bytes q₄ offer.port ∧
    q₁ < q₂ ∧ q₂ < q₃ ∧ q₃ < q₄

variable (platform) in
/-- The next message of the exchange. -/
def Awaited (identity : PairingIdentity) (calls : List Call) (bytes : List UInt8) : Prop :=
  (∃ key q, calls = [.start key] ∧ HandshakeSeen platform bytes q) ∨
  (∃ key b₁ q₁ q shared, calls = [.start key, .receive b₁] ∧ HandshakeSeen platform b₁ q₁ ∧
    ProofSeen platform identity key bytes q shared ∧ q₁ < q) ∨
  (∃ key b₁ b₂ q₁ q₂ q shared, calls = [.start key, .receive b₁, .receive b₂] ∧
    HandshakeSeen platform b₁ q₁ ∧ ProofSeen platform identity key b₂ q₂ shared ∧
    VerificationSeen platform bytes q ∧ q₁ < q₂ ∧ q₂ < q) ∨
  ∃ nonce offer, Exchange platform identity calls bytes nonce offer

/-- The channel has sealed one request, with a nonce, and waits for its response. -/
def SealedOnce (s : PairingSession) (nonce : List UInt8) : Prop :=
  ∃ channel, s.channel = some channel ∧ channel.next = 1 ∧ channel.pending = some nonce

/-- A message that is accepted is the next one, and moves the session on. -/
theorem receive_progress {identity : PairingIdentity} {calls : List Call}
    {s s' : PairingSession} {bytes : List UInt8} {step : Step}
    (h : Progress platform identity calls s)
    (hok : s.receive platform bytes = (s', .ok step)) :
    Progress platform identity (calls ++ [.receive bytes]) s' ∧
      Awaited platform identity calls bytes ∧
      ((∃ output, step = .send output) ∨
        ∃ nonce offer, step = .tunnel offer ∧ s'.phase = .complete ∧ s.SealedOnce nonce ∧
          Exchange platform identity calls bytes nonce offer) := by
  obtain ⟨hidle, hclosed, hcomplete, q, message, hheader, hlast, hhandle⟩ := receive_ok hok
  have hcases := handle_ok hhandle
  cases h with
  | idle => exact absurd rfl hidle
  | ended phase dropped =>
      rcases phase with hphase | hphase
      · exact absurd hphase hcomplete
      · exact absurd hphase hclosed
  | handshake phase record ephemeral number =>
      simp only [phase] at hcases
      rcases hcases with ⟨hphase, -⟩ | ⟨payload, hpayload, hcases⟩
      · cases hphase
      · rcases hcases with ⟨-, hreceive⟩ | ⟨data, -, ⟨hphase, -⟩ | ⟨hphase, -⟩⟩
        · obtain ⟨hresponse, hsend, rfl⟩ := receiveHandshake_ok hreceive
          have hseen : HandshakeSeen platform bytes q :=
            ⟨message, payload, hheader, hpayload, hresponse⟩
          exact ⟨.deviceProof rfl record ephemeral rfl hseen, Or.inl ⟨_, q, rfl, hseen⟩,
            Or.inl hsend⟩
        · cases hphase
        · cases hphase
  | deviceProof phase record ephemeral number first =>
      simp only [phase] at hcases
      rcases hcases with ⟨hphase, -⟩ | ⟨payload, hpayload, hcases⟩
      · cases hphase
      · rcases hcases with ⟨hphase, -⟩ | ⟨data, hdata, ⟨-, hreceive⟩ | ⟨hphase, -⟩⟩
        · cases hphase
        · obtain ⟨key, record', deviceEphemeral, shared, proof, hkey, hrecord, hread, hproves, hsend,
            rfl⟩ := receiveProof_ok hreceive
          simp only [ephemeral, record, Option.some.injEq] at hkey hrecord
          subst hkey hrecord
          obtain ⟨fields, encrypted, opened, hdecode, herror, hstate, hdevice, hencrypted, hsecret,
            hopened, hproof⟩ := readProof_ok hread
          obtain ⟨hnone, hpeer, signature, hsignature, hlength, hvalid⟩ := proves_ok hproves
          have hseen : ProofSeen platform identity _ bytes q shared :=
            ⟨message, payload, data, fields, deviceEphemeral, encrypted, opened, proof,
              signature, hheader, hpayload, hdata, hdecode, herror, hstate, hdevice, hencrypted,
              hsecret, hopened, hproof, hnone, hpeer, hsignature, hlength, hvalid⟩
          have hrising := hlast _ number
          exact ⟨.verification rfl rfl rfl first hseen hrising,
            Or.inr (Or.inl ⟨_, _, _, q, shared, rfl, first, hseen, hrising⟩), Or.inl hsend⟩
        · cases hphase
  | verification phase secret number first second rising =>
      simp only [phase] at hcases
      rcases hcases with ⟨hphase, -⟩ | ⟨payload, hpayload, hcases⟩
      · cases hphase
      · rcases hcases with ⟨hphase, -⟩ | ⟨data, hdata, ⟨hphase, -⟩ | ⟨-, hreceive⟩⟩
        · cases hphase
        · cases hphase
        · obtain ⟨fields, shared, hmessage, hkey, hrequest, hsend, rfl⟩ :=
            receiveVerification_ok hreceive
          simp only [secret, Option.some.injEq] at hkey
          subst hkey
          obtain ⟨hdecode, herror, hstate⟩ := PairingTLV.message_ok hmessage
          have hseen : VerificationSeen platform bytes q :=
            ⟨message, payload, data, fields, hheader, hpayload, hdata, hdecode, herror, hstate⟩
          have hrising := hlast _ number
          refine ⟨.listener rfl rfl rfl secret rfl rfl first second hseen hrequest
            ⟨rising, hrising⟩, ?_, Or.inl hsend⟩
          exact Or.inr (Or.inr (Or.inl ⟨_, _, _, _, _, q, _, rfl, first, second, hseen, rising,
            hrising⟩))
  | listener phase record ephemeral secret channel number first second third request rising =>
      simp only [phase] at hcases
      rcases hcases with ⟨-, hreceive⟩ | ⟨payload, hpayload, hcases⟩
      · obtain ⟨ciphertext, channel', shared, reply, port, hciphertext, hchannel, hkey, hreply, hport,
          rfl, rfl⟩ := receiveListener_ok hreceive
        simp only [secret, channel, Option.some.injEq] at hkey hchannel
        subst hkey hchannel
        obtain ⟨nonce, key, hpending, hserver, -, hopen⟩ :=
          PairingEncryptedChannel.openResponse_ok hreply
        cases hpending
        cases hserver
        have hexchange : Exchange platform identity _ bytes
            (PairingEncryptedChannel.counterNonce 0) ⟨port, _⟩ :=
          ⟨_, _, _, _, _, _, _, q, rfl, first, second, third, request,
            ⟨message, ciphertext, reply, hheader, hciphertext, hopen, hport⟩, rising.1, rising.2,
            hlast _ number⟩
        exact ⟨.ended (Or.inl rfl) ⟨record, ephemeral, rfl, rfl⟩,
          Or.inr (Or.inr (Or.inr ⟨_, _, hexchange⟩)),
          Or.inr ⟨_, _, rfl, rfl, ⟨_, channel, rfl, rfl⟩, hexchange⟩⟩
      · rcases hcases with ⟨hphase, -⟩ | ⟨data, -, ⟨hphase, -⟩ | ⟨hphase, -⟩⟩
        · cases hphase
        · cases hphase
        · cases hphase

theorem Progress.call {identity : PairingIdentity} {calls : List Call} {s : PairingSession}
    (h : Progress platform identity calls s) (c : Call) :
    Progress platform identity (calls ++ [c]) (s.call platform c) := by
  cases c with
  | start key =>
      rcases start_cases s key with ⟨hphase, hdropped⟩ | ⟨hidle, hstart⟩
      · exact .ended (Or.inr hphase) hdropped
      · have hnew : calls = [] ∧ s = init identity := by
          cases h with
          | idle => exact ⟨rfl, rfl⟩
          | ended phase dropped =>
              rw [hidle] at phase
              rcases phase with hphase | hphase
              · cases hphase
              · cases hphase
          | handshake phase => cases phase.symm.trans hidle
          | deviceProof phase => cases phase.symm.trans hidle
          | verification phase => cases phase.symm.trans hidle
          | listener phase => cases phase.symm.trans hidle
        obtain ⟨rfl, rfl⟩ := hnew
        rw [PairingSession.call, hstart]
        exact .handshake rfl rfl rfl rfl
  | receive bytes =>
      cases hreceive : s.receive platform bytes with
      | mk s' result =>
          rw [PairingSession.call, hreceive]
          cases result with
          | error e => exact .ended (Or.inr (receive_error hreceive).1) (receive_error hreceive).2
          | ok step => exact (receive_progress h hreceive).1
  | close => exact .ended (Or.inr rfl) (dropped_close s).2

theorem Progress.run {identity : PairingIdentity} (calls : List Call) :
    Progress platform identity calls (calls.foldl (PairingSession.call platform) (init identity)) := by
  induction calls using List.reverseRecOn with
  | nil => exact .idle
  | append_singleton calls c ih =>
      rw [List.foldl_append]
      exact ih.call c

theorem receive_over {s : PairingSession} (h : s.phase = .complete ∨ s.phase = .closed)
    (bytes : List UInt8) :
    s.receive platform bytes = (s.close, .error (.pairing .invalidState)) := by
  rw [receive, if_pos (by tauto)]

/-- A session that is over stays so, and `receive` throws. -/
theorem call_over {s : PairingSession} (h : s.phase = .complete ∨ s.phase = .closed) (c : Call) :
    ((s.call platform c).phase = .complete ∨ (s.call platform c).phase = .closed) ∧
      stepOf platform s c = none := by
  cases c with
  | start key =>
      refine ⟨?_, rfl⟩
      rcases start_cases s key with ⟨hphase, -⟩ | ⟨hidle, -⟩
      · exact Or.inr hphase
      · rw [hidle] at h
        rcases h with h | h
        · cases h
        · cases h
  | receive bytes =>
      rw [call, stepOf, receive_over h]
      exact ⟨Or.inr rfl, rfl⟩
  | close => exact ⟨Or.inr rfl, rfl⟩

theorem calls_over {s : PairingSession} (h : s.phase = .complete ∨ s.phase = .closed)
    (calls : List Call) :
    ((calls.foldl (call platform) s).phase = .complete ∨
        (calls.foldl (call platform) s).phase = .closed) ∧
      steps platform s calls = [] := by
  induction calls generalizing s with
  | nil => exact ⟨h, rfl⟩
  | cons c calls ih =>
      have hcall : ((s.call platform c).phase = .complete ∨ (s.call platform c).phase = .closed) ∧
          stepOf platform s c = none := call_over h c
      obtain ⟨hnext, hnone⟩ := hcall
      obtain ⟨hphase, hsteps⟩ := ih hnext
      refine ⟨hphase, ?_⟩
      rw [steps, hnone, hsteps]
      rfl

def Step.isTunnel : Step → Bool
  | .tunnel _ => true
  | .send _ => false

theorem steps_tunnel {identity : PairingIdentity} {before : List Call} {s : PairingSession}
    (h : Progress platform identity before s) (calls : List Call) :
    (steps platform s calls).countP Step.isTunnel ≤ 1 := by
  induction calls generalizing s before with
  | nil => exact Nat.zero_le 1
  | cons c calls ih =>
      have hrest := ih (h.call c)
      rw [steps, List.countP_append]
      cases hstep : stepOf platform s c with
      | none => simpa using hrest
      | some step =>
          cases c with
          | start key => cases hstep
          | close => cases hstep
          | receive bytes =>
              cases hreceive : s.receive platform bytes with
              | mk s' result =>
                  rw [stepOf, hreceive] at hstep
                  cases result with
                  | error e => cases hstep
                  | ok step' =>
                      cases hstep
                      obtain ⟨-, -, ⟨output, rfl⟩ | ⟨nonce, offer, rfl, hphase, -⟩⟩ :=
                        receive_progress h hreceive
                      · simpa [Step.isTunnel] using hrest
                      · have hover : (call platform s (.receive bytes)).phase = .complete := by
                          rw [call, hreceive]
                          exact hphase
                        rw [(calls_over (Or.inl hover) calls).2]
                        simp [Step.isTunnel]

/-- A tunnel is offered at most once, after the whole exchange. Any message but the next one
of the exchange closes the session for good, with nothing secret left. -/
theorem tunnel_of_exchange (platform : PairingPlatform) (identity : PairingIdentity)
    (calls : List Call) (bytes : List UInt8) :
    (∀ offer, ((calls.foldl (call platform) (init identity)).receive platform bytes).2 =
        .ok (.tunnel offer) →
      ∃ nonce, (calls.foldl (call platform) (init identity)).SealedOnce nonce ∧
        Exchange platform identity calls bytes nonce offer) ∧
    (steps platform (init identity) calls).countP Step.isTunnel ≤ 1 ∧
    (¬ Awaited platform identity calls bytes →
      ∃ e, ((calls.foldl (call platform) (init identity)).receive platform bytes).2 =
        .error e) ∧
    (∀ s e, (calls.foldl (call platform) (init identity)).receive platform bytes =
        (s, .error e) →
      s.phase = .closed ∧ s.Dropped ∧ ∀ (later : List Call) (bytes' : List UInt8),
        ∃ e', ((later.foldl (call platform) s).receive platform bytes').2 = .error e') ∧
    ∀ sessionKey uses, PairingEncryptedChannel.NoncesOnce platform sessionKey uses := by
  have hprogress : Progress platform identity calls
      (calls.foldl (call platform) (init identity)) := Progress.run calls
  generalize hs : calls.foldl (call platform) (init identity) = s at hprogress ⊢
  refine ⟨?_, steps_tunnel .idle calls, ?_, ?_, ?_⟩
  · intro offer hoffer
    have hreceive : s.receive platform bytes =
        ((s.receive platform bytes).1, .ok (.tunnel offer)) := Prod.ext rfl hoffer
    obtain ⟨-, -, ⟨output, houtput⟩ | ⟨nonce, offer', hstep, -, hsealed, hexchange⟩⟩ :=
      receive_progress hprogress hreceive
    · cases houtput
    · cases hstep
      exact ⟨nonce, hsealed, hexchange⟩
  · intro hother
    cases hresult : (s.receive platform bytes).2 with
    | error e => exact ⟨e, rfl⟩
    | ok step =>
        have hreceive : s.receive platform bytes =
            ((s.receive platform bytes).1, .ok step) := Prod.ext rfl hresult
        exact absurd (receive_progress hprogress hreceive).2.1 hother
  · intro s' e herror
    obtain ⟨hclosed, hdropped⟩ := receive_error herror
    refine ⟨hclosed, hdropped, ?_⟩
    intro later bytes'
    have hover : (later.foldl (call platform) s').phase = .complete ∨
        (later.foldl (call platform) s').phase = .closed :=
      (calls_over (Or.inr hclosed) later).1
    rw [receive_over hover]
    exact ⟨_, rfl⟩
  · intro sessionKey uses
    exact PairingEncryptedChannel.noncesOnce sessionKey uses

section Fixture

private def entry (key : String) (value : JSONValue) : JSONValue :=
  .dictionary [(ascii key, value)]

private def deviceMessage (number kind : String) (payload : JSONValue) : JSONValue :=
  .dictionary [(ascii "originatedBy", .string (ascii "device")),
    (ascii "sequenceNumber", .number (ascii number) false),
    (ascii "message", entry kind (entry "_0" payload))]

private def devicePairing (number : String) (data : List UInt8) : JSONValue :=
  deviceMessage number "plain"
    (entry "event" (entry "_0" (entry "pairingData" (entry "_0" (entry "data" (.string data))))))

/-- The messages of a device by their first bytes, and boxes that open to fixed texts. -/
private def sample : PairingPlatform :=
  { json := fun
      | 1 :: _ => deviceMessage "1" "plain"
          (entry "response" (entry "_1" (entry "handshake" (entry "_0" (.dictionary [])))))
      | 2 :: _ => devicePairing "2"
          ([6, 1, 2, 3, 32] ++ List.replicate 32 7 ++ [5, 16] ++ List.replicate 16 0)
      | 3 :: _ => devicePairing "5" [6, 1, 4]
      | 4 :: _ => deviceMessage "6" "streamEncrypted" (.string (List.replicate 16 1))
      | _ => entry "response" (entry "_1" (entry "createListener"
          (entry "port" (.number (ascii "4000") false))))
    jsonData := fun _ => some []
    base64 := some
    base64EncodedString := id
    publicKey := id
    keyAgreement := fun _ _ => some [9]
    hkdf := fun _ _ info => info
    chaChaSeal := fun _ _ _ => some []
    chaChaOpen := fun box _ _ =>
      if box = List.replicate 16 1 then some [5]
      else some ([1, 1, 8, 10, 64] ++ List.replicate 64 0)
    signature := fun _ _ => some []
    isValidSignature := fun _ signature _ => signature == List.replicate 64 0 }

private def pair : PairingIdentity :=
  { hostIdentifier := [1]
    signingKey := []
    peerIdentifier := [8]
    peerPublicKey := [] }

private def exchanged : List Call :=
  [.start (List.replicate 32 3), .receive [1], .receive [2], .receive [3]]

/-- The four messages of a device lead to an offer. -/
theorem tunnel_of_exchange_fixture :
    ∃ nonce, (exchanged.foldl (call sample) (init pair)).SealedOnce nonce ∧
      Exchange sample pair exchanged [4] nonce ⟨4000, [9]⟩ :=
  (tunnel_of_exchange sample pair exchanged [4]).1 ⟨4000, [9]⟩ (by decide)

end Fixture

end PairingSession

end Tolkara
