import Tolkara.Tunnel.Sending
import Tolkara.Tunnel.Receiving
import Tolkara.Tunnel.Streams

/-!
# Orderly close

A stream whose both sides were closed leaves the table together with its receive
buffer, so the bytes nobody has read by then are lost although they were
acknowledged. Nothing is lost when the buffer was drained before the packet or
the tick that completes the close.
-/

namespace Tolkara

namespace TunnelTCP

open TunnelTCPSegment (fin syn rst psh)

variable {T : Type} [Clock T] {s : TunnelTCP T}

theorem flush_buffer (s : TunnelTCP T) (now : T) :
    (s.flush now).1.receiveBuffer = s.receiveBuffer ∧ (s.flush now).2.any
      TunnelStreams.terminal = false := by
  unfold flush
  split
  · exact ⟨rfl, rfl⟩
  · split
    · split
      · exact ⟨(s.awaitWindow_received now).2.1, rfl⟩
      · exact ⟨rfl, rfl⟩
    · split
      · split
        · exact ⟨(s.awaitWindow_received now).2.1, rfl⟩
        · exact ⟨rfl, rfl⟩
      · exact ⟨rfl, rfl⟩

theorem write_buffer {data : List UInt8} {now : T} {r : TunnelTCP T × List Event}
    (h : s.write data now = .ok r) :
    r.1.receiveBuffer = s.receiveBuffer ∧ r.2.any TunnelStreams.terminal = false := by
  unfold write at h
  split at h
  · cases h
  · split at h
    · cases h
    · rw [Except.ok.injEq] at h
      rw [← h]
      exact flush_buffer { s with sendBuffer := s.sendBuffer ++ data } now

theorem shutdownWrite_buffer {now : T} {r : TunnelTCP T × List Event}
    (h : s.shutdownWrite now = .ok r) :
    r.1.receiveBuffer = s.receiveBuffer ∧ r.2.any TunnelStreams.terminal = false := by
  unfold shutdownWrite at h
  split at h
  · rw [Except.ok.injEq] at h
    rw [← h]
    exact flush_buffer { s with closeRequested := true } now
  · cases h

theorem connect_buffer {now : T} {r : TunnelTCP T × List Event} (h : s.connect now = .ok r) :
    r.1.receiveBuffer = s.receiveBuffer ∧ r.2.any TunnelStreams.terminal = false := by
  unfold connect at h
  split at h
  · rw [Except.ok.injEq] at h
    rw [← h]
    exact ⟨rfl, rfl⟩
  · cases h

omit [Clock T] in
theorem read_buffer (s : TunnelTCP T) (maximum : ℕ) :
    (s.read maximum).1 ++ (s.read maximum).2.1.receiveBuffer = s.receiveBuffer ∧
      (s.read maximum).2.2.any TunnelStreams.terminal = false := by
  unfold read
  split
  · exact ⟨rfl, rfl⟩
  · dsimp only
    split
    · exact ⟨List.take_append_drop _ _, rfl⟩
    · exact ⟨List.take_append_drop _ _, rfl⟩

omit [Clock T] in
theorem fail_terminal (s : TunnelTCP T) (reason : Failure) :
    (s.fail reason).2.any TunnelStreams.terminal = true := rfl

theorem tick_buffer (s : TunnelTCP T) (now : T)
    (h : (s.tick now).2.any TunnelStreams.terminal = false) :
    (s.tick now).1.receiveBuffer = s.receiveBuffer := by
  have hprobe : (s.probe now).2.any TunnelStreams.terminal = false →
      (s.probe now).1.receiveBuffer = s.receiveBuffer := by
    unfold probe
    split
    · exact fun _ => rfl
    · split
      · intro h
        rw [fail_terminal] at h
        cases h
      · split
        · exact fun _ => rfl
        · exact fun _ => rfl
  revert h
  unfold tick
  split
  · exact fun _ => rfl
  · split
    · split
      · intro h
        cases h
      · intro h
        rw [fail_terminal] at h
        cases h
    · split
      · exact hprobe
      · split
        · unfold retransmit
          split
          · intro h
            rw [fail_terminal] at h
            cases h
          · exact fun _ => rfl
        · exact hprobe

/-- A packet that does not end the stream adds to its buffer. -/
theorem receive_buffer (s : TunnelTCP T) (bytes : List UInt8) (now : T)
    (h : (s.receive bytes now).2.any TunnelStreams.terminal = false) :
    ∃ d, (s.receive bytes now).1.receiveBuffer = s.receiveBuffer ++ d := by
  have hsame : ∃ d, s.receiveBuffer = s.receiveBuffer ++ d := ⟨[], (List.append_nil _).symm⟩
  by_cases halive : s.state.alive = true
  · rcases receive_spec halive bytes now with ⟨-, -, reason, hevents⟩ | ⟨d, f, htakes, -⟩
    · rw [hevents] at h
      cases h
    · exact ⟨d, htakes.buffer⟩
  · revert h
    unfold receive
    split
    · exact fun _ => hsame
    · rename_i hopen
      rw [not_not] at hopen
      have hsyn : s.state = .synSent := by
        cases hs : s.state <;> simp_all [State.alive]
      cases TunnelTCPCodec.decode bytes s.endpoints s.mtu with
      | none => exact fun _ => hsame
      | some seg =>
          dsimp only
          unfold receiveSegment
          rw [if_pos hsyn]
          unfold receiveSynSent
          split
          · split
            · intro h
              rw [fail_terminal] at h
              cases h
            · exact fun _ => hsame
          · split
            · exact fun _ => hsame
            · exact fun _ => hsame

/-! ## When a close completes -/

/-- The packet acknowledges our FIN in the last state of a close the peer began. -/
def FinAcknowledged (s : TunnelTCP T) (bytes : List UInt8) : Prop :=
  s.state = .lastAck ∧ ∃ seg, TunnelTCPCodec.decode bytes s.endpoints s.mtu = some seg ∧
    seg.has rst = false ∧ seg.has syn = false ∧ seg.has TunnelTCPSegment.ack = true ∧
    s.acceptable seg = true ∧
    seg.acknowledgement = s.next

/-- The time to wait for old packets is over. -/
def WaitedOut (s : TunnelTCP T) (now : T) : Prop :=
  s.state = .timeWait ∧ passed now s.closeDeadline = true

omit [Clock T] in
theorem not_closed_mem_fail (s : TunnelTCP T) (reason : Failure) :
    .closed ∉ (s.fail reason).2 := by
  simp [fail]

theorem not_closed_mem_flush (s : TunnelTCP T) (now : T) : .closed ∉ (s.flush now).2 := by
  intro h
  have hany : (s.flush now).2.any TunnelStreams.terminal = true :=
    List.any_eq_true.2 ⟨.closed, h, rfl⟩
  rw [(flush_buffer s now).2] at hany
  cases hany

theorem waitedOut_of_closed {now : T} (h : .closed ∈ (s.tick now).2) : s.WaitedOut now := by
  have hprobe : .closed ∉ (s.probe now).2 := by
    unfold probe
    split
    · simp
    · split
      · exact s.not_closed_mem_fail _
      · split
        · simp [packet]
        · simp
  revert h
  unfold tick
  split
  · intro h
    cases h
  · split
    · rename_i hpassed
      split
      · rename_i hs
        exact fun _ => ⟨hs, hpassed⟩
      · exact fun h => absurd h (s.not_closed_mem_fail _)
    · split
      · exact fun h => absurd h hprobe
      · split
        · unfold retransmit
          split
          · exact fun h => absurd h (s.not_closed_mem_fail _)
          · intro h
            simp [packet] at h
        · exact fun h => absurd h hprobe

/-- An acknowledgement completes a close only if it is that of our FIN. -/
theorem acknowledge_closed {i : BitVec 32} {W : List UInt8} (hs : Sends i W s)
    {seg : TunnelTCPSegment} {now : T} (hend : before s.next seg.acknowledgement = false)
    (h : .closed ∈ (s.acknowledge seg now).2) :
    s.state = .lastAck ∧ seg.acknowledgement = s.next := by
  obtain ⟨hstate, -, -, huna, hnext⟩ := s.updateWindow_fixed seg
  revert h
  unfold acknowledge
  split
  · intro h
    cases h
  · rename_i hold
    rw [Bool.not_eq_true] at hold
    dsimp only
    split
    · rename_i hnew
      obtain ⟨hstate2, -⟩ := (s.updateWindow seg).retire_fixed seg.acknowledgement now
      rw [hstate] at hstate2
      intro h
      have hclosed : .closed ∈ (((s.updateWindow seg).retire seg.acknowledgement now).advanceClose
          now).2 := by
        rcases List.mem_cons.1 h with h | h
        · cases h
        · exact h
      have hlast : s.state = .lastAck := by
        rw [← hstate2]
        revert hclosed
        unfold advanceClose
        split
        · intro h
          cases h
        · split
          · intro h
            cases h
          · split
            · intro h
              cases h
            · split
              · rename_i hs
                exact fun _ => hs
              · intro h
                cases h
      refine ⟨hlast, ?_⟩
      rw [huna] at hnew
      exact (hs.finishing (by rw [hlast]; rfl)).eq_next hend hold hnew
    · intro h
      cases h

theorem not_closed_mem_takeSegment (s : TunnelTCP T) (seg : TunnelTCPSegment) (now : T) :
    .closed ∉ (s.takeSegment seg now).2 := by
  have hdata : .closed ∉ (s.takeData seg).2 := by
    unfold takeData
    dsimp only
    split <;> simp
  have hend : ∀ (s : TunnelTCP T) (reach available : ℤ),
      .closed ∉ (s.takeFin seg reach available now).2 := by
    intro s reach available
    unfold takeFin
    dsimp only
    split_ifs <;> simp
  unfold takeSegment
  dsimp only
  rw [List.mem_append, List.mem_append, List.mem_append]
  rintro (((h | h) | h) | h)
  · exact hdata h
  · exact hend _ _ _ h
  · split at h
    · simp [ackPacket, packet] at h
    · cases h
  · exact not_closed_mem_flush _ _ h

theorem acknowledge_state {seg : TunnelTCPSegment} {now : T}
    (h : .closed ∈ (s.acknowledge seg now).2) : (s.acknowledge seg now).1.state = .closed := by
  revert h
  unfold acknowledge
  split
  · intro h
    cases h
  · dsimp only
    split
    · intro h
      rcases List.mem_cons.1 h with h | h
      · cases h
      · revert h
        unfold advanceClose
        split_ifs <;> simp
    · intro h
      cases h

theorem receiveOpen_closed {seg : TunnelTCPSegment} {now : T}
    (h : .closed ∈ (s.receiveOpen seg now).2) :
    s.acceptable seg = true ∧ before s.next seg.acknowledgement = false ∧
      .closed ∈ (s.acknowledge seg now).2 ∧ s.receiveOpen seg now = s.acknowledge seg now := by
  have hack : .closed ∉ [s.ackPacket] := by
    simp [ackPacket, packet]
  have hack' : .closed ∉ [(s.acknowledge seg now).1.ackPacket] := by
    simp [ackPacket, packet]
  revert h
  unfold receiveOpen
  split
  · exact fun h => absurd h hack
  · rename_i hacceptable
    rw [Bool.not_eq_false] at hacceptable
    split
    · exact fun h => absurd h hack
    · rename_i hend
      rw [Bool.not_eq_true] at hend
      dsimp only
      split
      · exact fun h => ⟨hacceptable, hend, h, rfl⟩
      · rename_i hopen
        have hnot : .closed ∉ (s.acknowledge seg now).2 :=
          fun h => hopen (acknowledge_state h)
        split
        · intro h
          rw [List.mem_append, List.mem_append] at h
          rcases h with (h | h) | h
          · exact absurd h hnot
          · exact absurd h hack'
          · exact absurd h (not_closed_mem_flush _ _)
        · split
          · intro h
            rw [List.mem_append, List.mem_append] at h
            rcases h with (h | h) | h
            · exact absurd h hnot
            · split at h
              · exact absurd h hack'
              · cases h
            · exact absurd h (not_closed_mem_flush _ _)
          · intro h
            rcases List.mem_append.1 h with h | h
            · exact absurd h hnot
            · exact absurd h (not_closed_mem_takeSegment _ _ _)

/-- An orderly close ends a packet only when it acknowledges our FIN. -/
theorem finAcknowledged_of_closed {i : BitVec 32} {W : List UInt8} (hs : Sends i W s)
    {bytes : List UInt8} {now : T} (h : .closed ∈ (s.receive bytes now).2) :
    s.FinAcknowledged bytes ∧ (s.receive bytes now).1.receiveBuffer = s.receiveBuffer := by
  revert h
  unfold receive
  split
  · intro h
    cases h
  · rename_i hopen
    rw [not_not] at hopen
    cases hdecode : TunnelTCPCodec.decode bytes s.endpoints s.mtu with
    | none =>
        intro h
        cases h
    | some seg =>
        dsimp only
        unfold receiveSegment
        split
        · unfold receiveSynSent
          split
          · split
            · exact fun h => absurd h (s.not_closed_mem_fail _)
            · intro h
              cases h
          · split
            · intro h
              cases h
            · intro h
              simp [ackPacket, packet] at h
        · rename_i hsyn
          split
          · split
            · exact fun h => absurd h (s.not_closed_mem_fail _)
            · split
              · intro h
                simp [ackPacket, packet] at h
              · intro h
                cases h
          · rename_i hrst
            split
            · split
              · intro h
                simp [ackPacket, packet] at h
              · intro h
                cases h
            · split
              · intro h
                simp [ackPacket, packet] at h
              · rename_i hsynflag
                split
                · intro h
                  cases h
                · rename_i hack
                  intro h
                  obtain ⟨hacceptable, hend, hclosed, heq⟩ := receiveOpen_closed h
                  obtain ⟨hlast, hnext⟩ := acknowledge_closed hs hend hclosed
                  rw [Bool.not_eq_true] at hrst hsynflag
                  rw [Bool.not_eq_false] at hack
                  refine ⟨⟨hlast, seg, hdecode, hrst, hsynflag, hack, hacceptable, hnext⟩, ?_⟩
                  rw [heq, (takes_acknowledge (by rw [hlast]; rfl) seg now).buffer,
                    List.append_nil]

end TunnelTCP

namespace TunnelStreams

variable {T : Type} [Clock T]

/-! ## Runs -/

/-- A call of the owner of the streams. The order of `tick` is the one the dictionary happens
to have. -/
inductive Call (T : Type) where
  | openStream (port : BitVec 16) (now : T) (start isn : BitVec 32)
  | receive (packet : List UInt8) (now : T)
  | write (id : ℕ) (data : List UInt8) (now : T)
  | read (id maximum : ℕ) (now : T)
  | shutdownWrite (id : ℕ) (now : T)
  | cancel (id : ℕ) (now : T)
  | tick (order : List ℕ) (now : T)

/-- What a call reports; nothing, if it throws. -/
def reported {α : Type} (events : α → List Event) (r : TunnelStreams T × Except Failure α) :
    TunnelStreams T × List Event :=
  (r.1, match r.2 with
    | .ok a => events a
    | .error _ => [])

def perform (t : TunnelStreams T) : Call T → TunnelStreams T × List Event
  | .openStream port now start isn => reported Prod.snd (t.openStream port now start isn)
  | .receive packet now => reported (fun events => events) (t.receive packet now)
  | .write stream data now => reported (fun events => events) (t.write stream data now)
  | .read stream maximum now => reported Prod.snd (t.read stream maximum now)
  | .shutdownWrite stream now => reported (fun events => events) (t.shutdownWrite stream now)
  | .cancel stream now => reported (fun events => events) (t.cancel stream now)
  | .tick order now => reported (fun events => events) (t.tick order now)

def returned (t : TunnelStreams T) (id : ℕ) : Call T → List UInt8
  | .read stream maximum now =>
    if stream = id then
      match (t.read stream maximum now).2 with
      | .ok r => r.1
      | .error _ => []
    else []
  | _ => []

/-- The payload bytes of the stream `id` that a call takes into the receive buffer,
past which the acknowledgement number moves. -/
def acknowledgedBy (t : TunnelStreams T) (id : ℕ) : Call T → List UInt8
  | .receive packet now =>
    match t.advance now with
    | .error _ => []
    | .ok t =>
      match t.route packet with
      | none => []
      | some (stream, e) =>
        if stream = id then
          (e.tcp.receive packet now).1.receiveBuffer.drop e.tcp.receiveBuffer.length
        else []
  | _ => []

/-- The streams with what their owner was given and what their peers were told. -/
structure Observed (T : Type) where
  streams : TunnelStreams T
  /-- The bytes `read` returned, for every stream. -/
  delivered : ℕ → List UInt8
  /-- The payload bytes acknowledged to the peer, for every stream. -/
  acknowledged : ℕ → List UInt8

namespace Observed

def start (configuration : CDTunnelConfiguration) : Observed T :=
  ⟨TunnelStreams.init configuration, fun _ => [], fun _ => []⟩

def events (o : Observed T) (call : Call T) : List Event := (o.streams.perform call).2

def step (o : Observed T) (call : Call T) : Observed T :=
  { streams := (o.streams.perform call).1
    delivered := fun id => o.delivered id ++ o.streams.returned id call
    acknowledged := fun id => o.acknowledged id ++ o.streams.acknowledgedBy id call }

def run (o : Observed T) (calls : List (Call T)) : Observed T := calls.foldl step o

/-- The bytes `read` can still return. -/
def readable (o : Observed T) (id : ℕ) : List UInt8 :=
  match o.streams.entry id with
  | none => []
  | some e => e.tcp.receiveBuffer

end Observed

/-! ## The table -/

section

variable {t : TunnelStreams T} {id : ℕ}

omit [Clock T] in
theorem mem_of_entry {e : Entry T} (h : t.entry id = some e) : (id, e) ∈ t.entries := by
  rw [entry, List.lookup_eq_some_iff] at h
  obtain ⟨l, r, hentries, -⟩ := h
  rw [hentries]
  exact List.mem_append_right _ List.mem_cons_self

omit [Clock T] in
theorem entry_eq_none (h : ∀ p ∈ t.entries, p.1 ≠ id) : t.entry id = none := by
  cases he : t.entry id with
  | none => rfl
  | some e => exact absurd rfl (h _ (mem_of_entry he))

omit [Clock T] in
theorem mem_setTCP {tcp : TunnelTCP T} {p : ℕ × Entry T} (h : p ∈ (t.setTCP id tcp).entries) :
    (p.1 ≠ id ∧ p ∈ t.entries) ∨ (p.1 = id ∧ p.2.tcp = tcp) := by
  obtain ⟨q, hq, rfl⟩ := List.mem_map.1 h
  by_cases hid : q.1 = id
  · rw [if_pos hid]
    exact .inr ⟨hid, rfl⟩
  · rw [if_neg hid]
    exact .inl ⟨hid, hq⟩

omit [Clock T] in
theorem keys_setTCP (t : TunnelStreams T) (id : ℕ) (tcp : TunnelTCP T) :
    (t.setTCP id tcp).entries.map Prod.fst = t.entries.map Prod.fst := by
  rw [setTCP, List.map_map]
  refine List.map_congr_left ?_
  intro e _
  rw [Function.comp_apply]
  split
  · rfl
  · rfl

omit [Clock T] in
theorem exists_setTCP {tcp : TunnelTCP T} {e : Entry T} (h : t.entry id = some e) :
    ∃ e', (t.setTCP id tcp).entry id = some e' := by
  cases he : (t.setTCP id tcp).entry id with
  | some e' => exact ⟨e', rfl⟩
  | none =>
      have hkey : id ∈ (t.setTCP id tcp).entries.map Prod.fst := by
        rw [keys_setTCP]
        exact List.mem_map.2 ⟨_, mem_of_entry h, rfl⟩
      obtain ⟨q, hq, hid⟩ := List.mem_map.1 hkey
      rw [entry, List.lookup_eq_none_iff] at he
      have := he q hq
      simp [hid] at this

theorem mem_drop {now : T} {e : Entry T} (h : t.entry id = some e) {p : ℕ × Entry T} :
    p ∈ (t.drop id now).entries ↔ p ∈ t.entries ∧ p.1 ≠ id := by
  rw [drop, h]
  dsimp only
  rw [List.mem_filter, decide_eq_true_iff]

theorem keys_drop (t : TunnelStreams T) (id : ℕ) (now : T) :
    ((t.drop id now).entries.map Prod.fst).Sublist (t.entries.map Prod.fst) := by
  unfold drop
  split
  · exact List.Sublist.refl _
  · exact (List.filter_sublist).map _

theorem nextID_drop (t : TunnelStreams T) (id : ℕ) (now : T) :
    (t.drop id now).nextID = t.nextID := by
  unfold drop
  split
  · rfl
  · rfl

/-- Every stream of the table holds what was acknowledged and not yet returned. -/
structure Held (t : TunnelStreams T) (delivered acknowledged : ℕ → List UInt8) : Prop where
  nodup : (t.entries.map Prod.fst).Nodup
  fresh : ∀ p ∈ t.entries, p.1 < t.nextID
  unused : ∀ id, t.nextID ≤ id → delivered id = [] ∧ acknowledged id = []
  held : ∀ p ∈ t.entries, acknowledged p.1 = delivered p.1 ++ p.2.tcp.receiveBuffer
  sends : ∀ p ∈ t.entries, ∃ i W, TunnelTCP.Sends i W p.2.tcp

variable {d a d' a' : ℕ → List UInt8}

theorem advance_table {now : T} {t' : TunnelStreams T} (h : t.advance now = .ok t') :
    t'.entries = t.entries ∧ t'.nextID = t.nextID := by
  unfold advance at h
  split at h
  · cases h
  · split at h
    · cases h
    · rw [Except.ok.injEq] at h
      rw [← h]
      exact ⟨rfl, rfl⟩

theorem Held.advance (h : Held t d a) {now : T} {t' : TunnelStreams T}
    (ht : t.advance now = .ok t') : Held t' d a := by
  obtain ⟨hentries, hnext⟩ := advance_table ht
  refine ⟨?_, ?_, ?_, ?_, ?_⟩
  · rw [hentries]
    exact h.nodup
  · rw [hentries, hnext]
    exact h.fresh
  · rw [hnext]
    exact h.unused
  · rw [hentries]
    exact h.held
  · rw [hentries]
    exact h.sends

/-- The entries after a stream's step: the others as they were, and the stream
itself unless it ended. -/
theorem mem_moved {e : Entry T} (he : t.entry id = some e)
    {r : TunnelTCP T × List TunnelTCP.Event} {now : T} {c : Bool} {p : ℕ × Entry T}
    (hp : p ∈ ((t.setTCP id r.1).translate r.2 id now c).1.entries) :
    (p.1 ≠ id ∧ p ∈ t.entries) ∨
      (p.1 = id ∧ p.2.tcp = r.1 ∧ r.2.any terminal = false) := by
  unfold translate at hp
  dsimp only at hp
  split at hp
  · obtain ⟨e', he'⟩ : ∃ e', (t.setTCP id r.1).entry id = some e' := exists_setTCP he
    rw [mem_drop he'] at hp
    rcases mem_setTCP hp.1 with h | h
    · exact .inl h
    · exact absurd h.1 hp.2
  · rename_i hended
    rw [Bool.not_eq_true] at hended
    rcases mem_setTCP hp with h | h
    · exact .inl h
    · exact .inr ⟨h.1, h.2, hended⟩

theorem keys_moved (t : TunnelStreams T) (id : ℕ) (r : TunnelTCP T × List TunnelTCP.Event)
    (now : T) (c : Bool) :
    (((t.setTCP id r.1).translate r.2 id now c).1.entries.map Prod.fst).Sublist
      (t.entries.map Prod.fst) ∧
      ((t.setTCP id r.1).translate r.2 id now c).1.nextID = t.nextID := by
  unfold translate
  dsimp only
  split
  · have hkeys := (t.setTCP id r.1).keys_drop id now
    rw [keys_setTCP] at hkeys
    exact ⟨hkeys, nextID_drop _ _ _⟩
  · rw [keys_setTCP]
    exact ⟨List.Sublist.refl _, rfl⟩

theorem Held.move (h : Held t d a) {e : Entry T} (he : t.entry id = some e)
    {r : TunnelTCP T × List TunnelTCP.Event} (hothers : ∀ j, j ≠ id → d' j = d j ∧ a' j = a j)
    (hsends : ∃ i W, TunnelTCP.Sends i W r.1)
    (hbuffer : r.2.any terminal = false → a' id = d' id ++ r.1.receiveBuffer) (now : T)
    (c : Bool) : Held ((t.setTCP id r.1).translate r.2 id now c).1 d' a' := by
  obtain ⟨hkeys, hnext⟩ := keys_moved t id r now c
  have hid : id < t.nextID := h.fresh _ (mem_of_entry he)
  refine ⟨h.nodup.sublist hkeys, ?_, ?_, ?_, ?_⟩
  · intro p hp
    rw [hnext]
    rcases mem_moved he hp with ⟨-, hp⟩ | ⟨hp, -⟩
    · exact h.fresh p hp
    · rw [hp]
      exact hid
  · intro j hj
    rw [hnext] at hj
    obtain ⟨hd, ha⟩ := hothers j (by omega)
    rw [hd, ha]
    exact h.unused j hj
  · intro p hp
    rcases mem_moved he hp with ⟨hne, hp⟩ | ⟨hp, htcp, hended⟩
    · obtain ⟨hd, ha⟩ := hothers p.1 hne
      rw [hd, ha]
      exact h.held p hp
    · rw [hp, htcp]
      exact hbuffer hended
  · intro p hp
    rcases mem_moved he hp with ⟨-, hp⟩ | ⟨-, htcp, -⟩
    · exact h.sends p hp
    · rw [htcp]
      exact hsends

/-- An orderly close is reported only for a stream whose TCP completed it, and the
stream is then gone. -/
theorem closed_mem_translate {e : Entry T} (he : t.entry id = some e)
    {r : TunnelTCP T × List TunnelTCP.Event} {now : T} {c : Bool} {stream : ℕ}
    (h : .stream stream (.closed none) ∈ ((t.setTCP id r.1).translate r.2 id now c).2) :
    stream = id ∧ c = false ∧ .closed ∈ r.2 ∧
      ∀ p ∈ ((t.setTCP id r.1).translate r.2 id now c).1.entries, p.1 ≠ id := by
  have hclosed : stream = id ∧ c = false ∧ .closed ∈ r.2 := by
    unfold translate at h
    obtain ⟨event, hevent, hmem⟩ := List.mem_flatMap.1 h
    cases event with
    | packet bytes => simp [translateEvent] at hmem
    | connected =>
        rw [translateEvent] at hmem
        split at hmem <;> simp at hmem
    | readable =>
        rw [translateEvent] at hmem
        split at hmem <;> simp at hmem
    | writable =>
        rw [translateEvent] at hmem
        split at hmem <;> simp at hmem
    | peerClosed =>
        rw [translateEvent] at hmem
        split at hmem <;> simp at hmem
    | closed =>
        cases c with
        | true => simp [translateEvent] at hmem
        | false =>
            simp only [translateEvent, Bool.false_eq_true, if_false, List.mem_singleton,
              Event.stream.injEq] at hmem
            exact ⟨hmem.1, rfl, hevent⟩
    | failed reason => simp [translateEvent] at hmem
  refine ⟨hclosed.1, hclosed.2.1, hclosed.2.2, ?_⟩
  intro p hp
  rcases mem_moved he hp with ⟨hne, -⟩ | ⟨-, -, hended⟩
  · exact hne
  · have hany : r.2.any terminal = true := List.any_eq_true.2 ⟨.closed, hclosed.2.2, rfl⟩
    rw [hended] at hany
    cases hany

/-! ## Calls -/

/-- What a call must keep: the table, and of a stream it reports closed in order
nothing that was acknowledged is left. -/
def Settled (r : TunnelStreams T × List Event) (d a : ℕ → List UInt8) : Prop :=
  Held r.1 d a ∧ ∀ stream, .stream stream (.closed none) ∈ r.2 →
    a stream = d stream ∧ ∀ p ∈ r.1.entries, p.1 ≠ stream

theorem Held.settled (h : Held t d a) : Settled (t, []) d a :=
  ⟨h, fun _ hmem => by cases hmem⟩

/-- A step of one stream that does not complete a close. -/
theorem Held.settled_move (h : Held t d a) {e : Entry T} (he : t.entry id = some e)
    {r : TunnelTCP T × List TunnelTCP.Event} (hothers : ∀ j, j ≠ id → d' j = d j ∧ a' j = a j)
    (hsends : ∃ i W, TunnelTCP.Sends i W r.1)
    (hbuffer : r.2.any terminal = false → a' id = d' id ++ r.1.receiveBuffer) (now : T)
    {c : Bool} (hclosed : c = false → .closed ∈ r.2 → a' id = d' id) :
    Settled ((t.setTCP id r.1).translate r.2 id now c) d' a' := by
  refine ⟨h.move he hothers hsends hbuffer now c, ?_⟩
  intro stream hmem
  obtain ⟨hstream, hc, hevent, hgone⟩ := closed_mem_translate he hmem
  rw [hstream]
  exact ⟨hclosed hc hevent, hgone⟩

theorem not_closed_of_any {events : List TunnelTCP.Event} (h : events.any terminal = false) :
    .closed ∉ events := by
  intro hmem
  have hany : events.any terminal = true := List.any_eq_true.2 ⟨.closed, hmem, rfl⟩
  rw [h] at hany
  cases hany

/-- A call of a stream that may throw, leaves its buffer alone and does not end it. -/
theorem Held.callTCP (h : Held t d a) (id : ℕ) (now : T)
    {f : TunnelTCP T → Except TunnelTCP.Failure (TunnelTCP T × List TunnelTCP.Event)}
    (hf : ∀ tcp r, f tcp = .ok r →
      r.1.receiveBuffer = tcp.receiveBuffer ∧ r.2.any terminal = false)
    (hsends : ∀ tcp r, (∃ i W, TunnelTCP.Sends i W tcp) → f tcp = .ok r →
      ∃ i W, TunnelTCP.Sends i W r.1) :
    Settled (reported (fun events => events) (t.callTCP id now f)) d a := by
  unfold TunnelStreams.callTCP
  cases hadvance : t.advance now with
  | error e => exact h.settled
  | ok t' =>
      have h' := h.advance hadvance
      dsimp only
      cases he : t'.entry id with
      | none => exact h'.settled
      | some e =>
          dsimp only
          cases hr : f e.tcp with
          | error e => exact h'.settled
          | ok r =>
              obtain ⟨hbuffer, hended⟩ := hf _ _ hr
              refine h'.settled_move he (fun _ _ => ⟨rfl, rfl⟩)
                (hsends _ _ (h'.sends _ (mem_of_entry he)) hr) ?_ now
                (fun _ hmem => absurd hmem (not_closed_of_any hended))
              intro _
              rw [hbuffer]
              exact h'.held _ (mem_of_entry he)

theorem Held.write (h : Held t d a) (id : ℕ) (data : List UInt8) (now : T) :
    Settled (t.perform (.write id data now)) d a := by
  refine h.callTCP id now (fun tcp r hr => TunnelTCP.write_buffer hr) ?_
  rintro tcp r ⟨i, W, hs⟩ hr
  have hk := hs.write data now
  rw [show tcp.perform (.write data now) = r by rw [TunnelTCP.perform, hr]; rfl] at hk
  exact ⟨i, _, hk.sends⟩

theorem Held.shutdownWrite (h : Held t d a) (id : ℕ) (now : T) :
    Settled (t.perform (.shutdownWrite id now)) d a := by
  refine h.callTCP id now (fun tcp r hr => TunnelTCP.shutdownWrite_buffer hr) ?_
  rintro tcp r ⟨i, W, hs⟩ hr
  have hk := hs.shutdownWrite now
  rw [hr] at hk
  exact ⟨i, W, hk.sends⟩

theorem Held.cancel (h : Held t d a) (id : ℕ) (now : T) :
    Settled (t.perform (.cancel id now)) d a := by
  dsimp only [perform]
  unfold TunnelStreams.cancel
  cases hadvance : t.advance now with
  | error e => exact h.settled
  | ok t' =>
      have h' := h.advance hadvance
      dsimp only
      cases he : t'.entry id with
      | none => exact h'.settled
      | some e =>
          obtain ⟨i, W, hs⟩ := h'.sends _ (mem_of_entry he)
          refine h'.settled_move he (fun _ _ => ⟨rfl, rfl⟩) ⟨i, W, hs.abort.sends⟩ ?_ now
            (fun hc => by cases hc)
          unfold TunnelTCP.abort
          split
          · intro _
            exact h'.held _ (mem_of_entry he)
          · intro hended
            cases hended

theorem Held.read (h : Held t d a) (id maximum : ℕ) (now : T) :
    Settled (t.perform (.read id maximum now))
      (fun j => d j ++ t.returned j (.read id maximum now)) a := by
  have hnone : ∀ (t' : TunnelStreams T) (e : Failure), Held t' d a →
      t.read id maximum now = (t', .error e) →
      Settled (t.perform (.read id maximum now))
        (fun j => d j ++ t.returned j (.read id maximum now)) a := by
    intro t' e h' hread
    have hreturned : (fun j => d j ++ t.returned j (.read id maximum now)) = d := by
      funext j
      dsimp only [returned]
      rw [hread]
      dsimp only
      rw [ite_self, List.append_nil]
    rw [hreturned, perform, hread]
    exact h'.settled
  cases hadvance : t.advance now with
  | error e =>
      refine hnone t e h ?_
      rw [TunnelStreams.read, hadvance]
  | ok t' =>
      have h' := h.advance hadvance
      by_cases hmax : 0 < maximum ∧ maximum ≤ 32768
      · cases he : t'.entry id with
        | none =>
            refine hnone t' .invalidState h' ?_
            rw [TunnelStreams.read, hadvance]
            dsimp only
            rw [if_neg (not_not.2 hmax), he]
        | some e =>
            have hread : t.read id maximum now =
                (((t'.setTCP id (e.tcp.read maximum).2.1).translate (e.tcp.read maximum).2.2 id now
                  false).1, .ok ((e.tcp.read maximum).1,
                  ((t'.setTCP id (e.tcp.read maximum).2.1).translate (e.tcp.read maximum).2.2 id
                    now false).2)) := by
              rw [TunnelStreams.read, hadvance]
              dsimp only
              rw [if_neg (not_not.2 hmax), he]
            obtain ⟨hbuffer, hended⟩ := e.tcp.read_buffer maximum
            obtain ⟨i, W, hs⟩ := h'.sends _ (mem_of_entry he)
            rw [perform, hread]
            refine h'.settled_move he (r := (e.tcp.read maximum).2) ?_
              ⟨i, W, (hs.read maximum).sends⟩ ?_ now
              (fun _ hmem => absurd hmem (not_closed_of_any hended))
            · intro j hj
              refine ⟨?_, rfl⟩
              rw [returned, if_neg hj.symm, List.append_nil]
            · intro _
              dsimp only [returned]
              rw [if_pos rfl, hread]
              dsimp only
              rw [List.append_assoc, hbuffer]
              exact h'.held _ (mem_of_entry he)
      · refine hnone t' .invalidState h' ?_
        rw [TunnelStreams.read, hadvance]
        dsimp only
        rw [if_pos hmax]

/-- The buffers are drained before anything completes a close. -/
def Drained (t : TunnelStreams T) : Call T → Prop
  | .receive packet now => ∀ t', t.advance now = .ok t' → ∀ id e, t'.route packet = some (id, e) →
      e.tcp.FinAcknowledged packet → e.tcp.receiveBuffer = []
  | .tick _ now => ∀ p ∈ t.entries, p.2.tcp.WaitedOut now → p.2.tcp.receiveBuffer = []
  | _ => True

theorem entry_of_route {packet : List UInt8} {e : Entry T} (h : t.route packet = some (id, e)) :
    t.entry id = some e := by
  unfold route at h
  split at h
  · split at h
    · cases h
    · rename_i stream _
      obtain ⟨e', he', heq⟩ := Option.map_eq_some_iff.1 h
      rw [Prod.mk.injEq] at heq
      rw [← heq.1, ← heq.2]
      exact he'
  · cases h

theorem Held.receive (h : Held t d a) {packet : List UInt8} {now : T}
    (hdrained : t.Drained (.receive packet now)) :
    Settled (t.perform (.receive packet now)) d
      (fun j => a j ++ t.acknowledgedBy j (.receive packet now)) := by
  dsimp only [perform, acknowledgedBy]
  unfold TunnelStreams.receive
  cases hadvance : t.advance now with
  | error e =>
      dsimp only [reported]
      simp only [List.append_nil]
      exact h.settled
  | ok t' =>
      have h' := h.advance hadvance
      dsimp only
      cases hroute : t'.route packet with
      | none =>
          dsimp only [reported]
          simp only [List.append_nil]
          exact h'.settled
      | some target =>
          obtain ⟨id, e⟩ := target
          have he := entry_of_route hroute
          obtain ⟨i, W, hs⟩ := h'.sends _ (mem_of_entry he)
          have hheld := h'.held _ (mem_of_entry he)
          dsimp only [reported] at hheld ⊢
          refine h'.settled_move he ?_ ⟨i, W, (hs.receive packet now).sends⟩ ?_ now ?_
          · intro j hj
            refine ⟨rfl, ?_⟩
            rw [if_neg hj.symm, List.append_nil]
          · intro hended
            obtain ⟨more, hmore⟩ := e.tcp.receive_buffer packet now hended
            rw [if_pos rfl, hmore, List.drop_left, hheld, List.append_assoc]
          · intro _ hclosed
            obtain ⟨hfin, hsame⟩ := TunnelTCP.finAcknowledged_of_closed hs hclosed
            have hempty := hdrained t' hadvance id e hroute hfin
            rw [if_pos rfl, hsame, hheld, hempty]
            simp

theorem Held.tickLoop (h : Held t d a) (now : T) {ids : List ℕ} (hnodup : ids.Nodup)
    (hdrained : ∀ p ∈ t.entries, p.1 ∈ ids → p.2.tcp.WaitedOut now → p.2.tcp.receiveBuffer = []) :
    Settled (tickLoop now ids t) d a ∧ ∀ p ∈ (tickLoop now ids t).1.entries, ∃ q ∈ t.entries,
      q.1 = p.1 := by
  induction ids generalizing t with
  | nil => exact ⟨h.settled, fun p hp => ⟨p, hp, rfl⟩⟩
  | cons id ids ih =>
      obtain ⟨hid, hrest⟩ := List.nodup_cons.1 hnodup
      rw [TunnelStreams.tickLoop]
      cases he : t.entry id with
      | none => exact ih h hrest fun p hp hmem => hdrained p hp (List.mem_cons_of_mem _ hmem)
      | some e =>
          dsimp only
          obtain ⟨i, W, hs⟩ := h.sends _ (mem_of_entry he)
          have hheld := h.held _ (mem_of_entry he)
          have hmoved : Settled ((t.setTCP id (e.tcp.tick now).1).translate (e.tcp.tick now).2 id
              now false) d a := by
            refine h.settled_move he (fun _ _ => ⟨rfl, rfl⟩) ⟨i, W, (hs.tick now).sends⟩ ?_ now ?_
            · intro hended
              rw [e.tcp.tick_buffer now hended]
              exact hheld
            · intro _ hclosed
              have hempty := hdrained _ (mem_of_entry he) List.mem_cons_self
                (TunnelTCP.waitedOut_of_closed hclosed)
              dsimp only at hheld hempty
              rw [hheld, hempty, List.append_nil]
          have hothers : ∀ p ∈ ((t.setTCP id (e.tcp.tick now).1).translate (e.tcp.tick now).2 id
              now false).1.entries, ∃ q ∈ t.entries, q.1 = p.1 := by
            intro p hp
            rcases mem_moved he hp with ⟨-, hp⟩ | ⟨hp, -⟩
            · exact ⟨p, hp, rfl⟩
            · exact ⟨_, mem_of_entry he, hp.symm⟩
          obtain ⟨⟨hheld', hclosed'⟩, hkeys'⟩ := ih hmoved.1 hrest (by
            intro p hp hmem hwaited
            rcases mem_moved he hp with ⟨-, hp⟩ | ⟨hp, -⟩
            · exact hdrained p hp (List.mem_cons_of_mem _ hmem) hwaited
            · rw [hp] at hmem
              exact absurd hmem hid)
          refine ⟨⟨hheld', ?_⟩, ?_⟩
          · intro stream hmem
            rcases List.mem_append.1 hmem with hmem | hmem
            · obtain ⟨hall, hgone⟩ := hmoved.2 stream hmem
              refine ⟨hall, ?_⟩
              intro p hp
              obtain ⟨q, hq, hkey⟩ := hkeys' p hp
              rw [← hkey]
              exact hgone q hq
            · exact hclosed' stream hmem
          · intro p hp
            obtain ⟨q, hq, hkey⟩ := hkeys' p hp
            obtain ⟨q', hq', hkey'⟩ := hothers q hq
            exact ⟨q', hq', hkey'.trans hkey⟩

omit [Clock T] in
theorem ordered_perm (t : TunnelStreams T) (order : List ℕ) :
    (t.ordered order).Perm (t.entries.map Prod.fst) := by
  unfold ordered
  split
  · assumption
  · exact .refl _

theorem Held.tick (h : Held t d a) {order : List ℕ} {now : T}
    (hdrained : t.Drained (.tick order now)) : Settled (t.perform (.tick order now)) d a := by
  dsimp only [perform]
  unfold TunnelStreams.tick
  cases hadvance : t.advance now with
  | error e => exact h.settled
  | ok t' =>
      have h' := h.advance hadvance
      refine (h'.tickLoop now ((t'.ordered_perm order).nodup_iff.mpr h'.nodup) ?_).1
      intro p hp _
      rw [(advance_table hadvance).1] at hp
      exact hdrained p hp

theorem init_buffer {endpoints : TunnelTCPEndpoints} {mtu : ℕ} {isn : BitVec 32}
    {tcp : TunnelTCP T} (h : TunnelTCP.init endpoints mtu isn = some tcp) :
    tcp.receiveBuffer = [] := by
  unfold TunnelTCP.init at h
  split at h
  · split at h
    · rw [Option.some.injEq] at h
      rw [← h]
    · cases h
  · cases h

/-- The table with one more stream. -/
theorem Held.add (h : Held t d a) (port : BitVec 16) {tcp : TunnelTCP T}
    (hbuffer : tcp.receiveBuffer = []) (hsends : ∃ i W, TunnelTCP.Sends i W tcp)
    (ports : List (BitVec 16 × ℕ)) :
    Held
      { t with
        entries := t.entries ++ [(t.nextID, ⟨port, tcp⟩)]
        ports := ports
        nextID := t.nextID + 1 } d a := by
  have hmem : ∀ p ∈ t.entries ++ [(t.nextID, (⟨port, tcp⟩ : Entry T))],
      p ∈ t.entries ∨ p = (t.nextID, ⟨port, tcp⟩) := by
    intro p hp
    rcases List.mem_append.1 hp with hp | hp
    · exact .inl hp
    · exact .inr (List.mem_singleton.1 hp)
  refine ⟨?_, ?_, ?_, ?_, ?_⟩
  · dsimp only
    rw [List.map_append, List.nodup_append]
    refine ⟨h.nodup, List.nodup_singleton _, ?_⟩
    intro k hk k' hk'
    obtain ⟨p, hp, rfl⟩ := List.mem_map.1 hk
    have hlt := h.fresh p hp
    have hkey : k' = t.nextID := List.mem_singleton.1 hk'
    omega
  · intro p hp
    rcases hmem p hp with hp | hp
    · have := h.fresh p hp
      dsimp only
      omega
    · rw [hp]
      dsimp only
      omega
  · intro j hj
    dsimp only at hj
    exact h.unused j (by omega)
  · intro p hp
    rcases hmem p hp with hp | hp
    · exact h.held p hp
    · obtain ⟨hd, ha⟩ := h.unused t.nextID le_rfl
      rw [hp]
      dsimp only
      rw [hd, ha, hbuffer]
      rfl
  · intro p hp
    rcases hmem p hp with hp | hp
    · exact h.sends p hp
    · rw [hp]
      exact hsends

theorem Held.openStream (h : Held t d a) (port : BitVec 16) (now : T) (start isn : BitVec 32) :
    Settled (t.perform (.openStream port now start isn)) d a := by
  dsimp only [perform]
  unfold TunnelStreams.openStream
  cases hadvance : t.advance now with
  | error e => exact h.settled
  | ok t' =>
      have h' := h.advance hadvance
      dsimp only
      split
      · exact h'.settled
      · split
        · exact h'.settled
        · split
          · exact h'.settled
          · rename_i localPort _
            split
            · exact h'.settled
            · rename_i tcp htcp
              have hsends := (TunnelTCP.sends_init htcp).1
              have hadd := h'.add localPort (init_buffer htcp) ⟨_, _, hsends⟩
                ((localPort, t'.nextID) :: t'.ports)
              split
              · exact hadd.settled
              · rename_i r hr
                obtain ⟨hbuffer, hended⟩ := TunnelTCP.connect_buffer hr
                have hk := hsends.connect now
                rw [hr] at hk
                have hsends' : ∃ i W, TunnelTCP.Sends i W r.1 := ⟨_, _, hk.sends⟩
                have hlast : (t'.nextID, (⟨localPort, tcp⟩ : Entry T)) ∈
                    t'.entries ++ [(t'.nextID, ⟨localPort, tcp⟩)] :=
                  List.mem_append_right _ List.mem_cons_self
                obtain ⟨e, he⟩ : ∃ e, ({ t' with
                    entries := t'.entries ++ [(t'.nextID, ⟨localPort, tcp⟩)]
                    ports := (localPort, t'.nextID) :: t'.ports
                    nextID := t'.nextID + 1 } : TunnelStreams T).entry t'.nextID = some e := by
                  cases hentry : ({ t' with
                    entries := t'.entries ++ [(t'.nextID, ⟨localPort, tcp⟩)]
                    ports := (localPort, t'.nextID) :: t'.ports
                    nextID := t'.nextID + 1 } : TunnelStreams T).entry t'.nextID with
                  | some e => exact ⟨e, rfl⟩
                  | none =>
                      rw [entry, List.lookup_eq_none_iff] at hentry
                      simpa using hentry _ hlast
                refine hadd.settled_move he (fun _ _ => ⟨rfl, rfl⟩) hsends' ?_ now
                  (fun _ hmem => absurd hmem (not_closed_of_any hended))
                intro _
                have := hadd.held _ hlast
                dsimp only at this
                rw [this, hbuffer]

/-- Every call keeps the table, and loses nothing if the buffers were drained. -/
theorem Held.perform (h : Held t d a) {call : Call T} (hdrained : t.Drained call) :
    Settled (t.perform call) (fun j => d j ++ t.returned j call)
      (fun j => a j ++ t.acknowledgedBy j call) := by
  cases call with
  | openStream port now start isn =>
      simp only [returned, acknowledgedBy, List.append_nil]
      exact h.openStream port now start isn
  | receive packet now =>
      simp only [returned, List.append_nil]
      exact h.receive hdrained
  | write id data now =>
      simp only [returned, acknowledgedBy, List.append_nil]
      exact h.write id data now
  | read id maximum now =>
      simp only [acknowledgedBy, List.append_nil]
      exact h.read id maximum now
  | shutdownWrite id now =>
      simp only [returned, acknowledgedBy, List.append_nil]
      exact h.shutdownWrite id now
  | cancel id now =>
      simp only [returned, acknowledgedBy, List.append_nil]
      exact h.cancel id now
  | tick order now =>
      simp only [returned, acknowledgedBy, List.append_nil]
      exact h.tick hdrained

end

namespace Observed

def DrainedRun : Observed T → List (Call T) → Prop
  | _, [] => True
  | o, call :: calls => o.streams.Drained call ∧ DrainedRun (o.step call) calls

def Held (o : Observed T) : Prop := o.streams.Held o.delivered o.acknowledged

theorem held_start (configuration : CDTunnelConfiguration) :
    (Observed.start configuration : Observed T).Held := by
  refine ⟨List.nodup_nil, ?_, fun _ _ => ⟨rfl, rfl⟩, ?_, ?_⟩
  · intro p hp
    cases hp
  · intro p hp
    cases hp
  · intro p hp
    cases hp

theorem Held.run {o : Observed T} (h : o.Held) {calls : List (Call T)}
    (hdrained : DrainedRun o calls) : (o.run calls).Held := by
  induction calls generalizing o with
  | nil => exact h
  | cons call calls ih => exact ih (TunnelStreams.Held.perform h hdrained.1).1 hdrained.2

end Observed

/-- In a run whose calls find the buffers drained before a close completes, a
stream that is reported closed in order has returned every byte its TCP
acknowledged. -/
theorem closed_run (configuration : CDTunnelConfiguration) {calls : List (Call T)} {call : Call T}
    (hcalls : Observed.DrainedRun (Observed.start configuration) calls)
    (hcall : ((Observed.start configuration).run calls).streams.Drained call) {id : ℕ}
    (hclosed : .stream id (.closed none) ∈
      ((Observed.start configuration).run calls).events call) :
    (((Observed.start configuration).run calls).step call).acknowledged id =
      (((Observed.start configuration).run calls).step call).delivered id ++
        (((Observed.start configuration).run calls).step call).readable id := by
  have hheld := (Observed.held_start configuration).run hcalls
  obtain ⟨-, hsettled⟩ := TunnelStreams.Held.perform hheld hcall
  obtain ⟨hall, hgone⟩ := hsettled id hclosed
  have hnone : (((Observed.start configuration).run calls).step call).streams.entry id = none :=
    entry_eq_none hgone
  rw [Observed.readable, hnone, List.append_nil]
  exact hall

/-- It is enough that no stream in the last state of a close holds bytes. -/
theorem drained_of_entries {t : TunnelStreams T}
    (h : ∀ p ∈ t.entries, p.2.tcp.state = .lastAck ∨ p.2.tcp.state = .timeWait →
      p.2.tcp.receiveBuffer = []) (call : Call T) : t.Drained call := by
  cases call with
  | receive packet now =>
      intro t' hadvance id e hroute hfin
      have hmem := mem_of_entry (entry_of_route hroute)
      rw [(advance_table hadvance).1] at hmem
      exact h _ hmem (.inl hfin.1)
  | tick order now =>
      intro p hp hwaited
      exact h p hp (.inr hwaited.1)
  | openStream port now start isn => trivial
  | write id data now => trivial
  | read id maximum now => trivial
  | shutdownWrite id now => trivial
  | cancel id now => trivial

def fixtureConfiguration : CDTunnelConfiguration :=
  ⟨TunnelTCP.fixtureEndpoints.localAddress, TunnelTCP.fixtureEndpoints.remoteAddress, 16000⟩

/-- A stream is opened, its peer sends a byte and closes, and we close too. -/
def fixtureClosing : List (Call ℕ) :=
  [.openStream 58783 0 8 100,
    .receive (TunnelTCP.incoming 1000 101 18 32768 [] (some 1220)) 0,
    .receive (TunnelTCP.incoming 1001 101 17 32768 [7] none) 1, .shutdownWrite 0 1]

/-- With the byte read, the peer's last acknowledgement loses nothing. -/
theorem closed_run_read :
    .stream 0 (.closed none) ∈
      ((Observed.start fixtureConfiguration).run (fixtureClosing ++ [.read 0 10 1])).events
        (.receive (TunnelTCP.incoming 1003 102 16 32768 [] none) 2) ∧
    (((Observed.start fixtureConfiguration).run (fixtureClosing ++ [.read 0 10 1])).step
      (.receive (TunnelTCP.incoming 1003 102 16 32768 [] none) 2)).acknowledged 0 =
    (((Observed.start fixtureConfiguration).run (fixtureClosing ++ [.read 0 10 1])).step
      (.receive (TunnelTCP.incoming 1003 102 16 32768 [] none) 2)).delivered 0 ++
    (((Observed.start fixtureConfiguration).run (fixtureClosing ++ [.read 0 10 1])).step
      (.receive (TunnelTCP.incoming 1003 102 16 32768 [] none) 2)).readable 0 := by
  have hclosed : .stream 0 (.closed none) ∈
      ((Observed.start fixtureConfiguration).run (fixtureClosing ++ [.read 0 10 1])).events
        (.receive (TunnelTCP.incoming 1003 102 16 32768 [] none) 2) := by
    decide
  refine ⟨hclosed, closed_run fixtureConfiguration ?_ ?_ hclosed⟩
  · exact ⟨drained_of_entries (by decide) _, drained_of_entries (by decide) _,
      drained_of_entries (by decide) _, trivial, trivial, trivial⟩
  · exact drained_of_entries (by decide) _

/-- With the byte unread, the same acknowledgement drops it. -/
theorem closed_run_unread :
    .stream 0 (.closed none) ∈
      ((Observed.start fixtureConfiguration).run fixtureClosing).events
        (.receive (TunnelTCP.incoming 1003 102 16 32768 [] none) 2) ∧
    (((Observed.start fixtureConfiguration).run fixtureClosing).step
      (.receive (TunnelTCP.incoming 1003 102 16 32768 [] none) 2)).acknowledged 0 ≠
    (((Observed.start fixtureConfiguration).run fixtureClosing).step
      (.receive (TunnelTCP.incoming 1003 102 16 32768 [] none) 2)).delivered 0 ++
    (((Observed.start fixtureConfiguration).run fixtureClosing).step
      (.receive (TunnelTCP.incoming 1003 102 16 32768 [] none) 2)).readable 0 := by
  decide

end TunnelStreams

end Tolkara
