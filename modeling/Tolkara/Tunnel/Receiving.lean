import Tolkara.Library.SerialNumbers
import Tolkara.Tunnel.TCP

/-!
# What the stream receives

Whatever a call does, it takes some bytes off the peer's stream, perhaps its end,
and nothing else changes what was received; `Takes` says so. For a peer that
sends one stream, however cut, repeated or reordered, the bytes taken are then
the next ones of that stream.
-/

namespace Tolkara

namespace TunnelTCP

open TunnelTCPSegment (fin syn rst psh)

def State.peerDone : State → Bool
  | .closeWait => true
  | .lastAck => true
  | .closing => true
  | .timeWait => true
  | .closed => true
  | _ => false

def State.alive : State → Bool
  | .idle => false
  | .synSent => false
  | .failed => false
  | _ => true

variable {T : Type} {s s' : TunnelTCP T}

/-- A step that takes the bytes `d`, and the FIN if `f`. -/
structure Takes (s : TunnelTCP T) (r : TunnelTCP T × List Event) (d : List UInt8) (f : Bool) :
    Prop where
  alive : r.1.state.alive = true
  buffer : r.1.receiveBuffer = s.receiveBuffer ++ d
  next : r.1.receiveNext = s.receiveNext + BitVec.ofNat 32 (d.length + f.toNat)
  closes : r.2.count .peerClosed = f.toNat
  done : r.1.state.peerDone = (s.state.peerDone || f)

theorem Takes.trans {r r' : TunnelTCP T × List Event} {d : List UInt8} {f : Bool}
    (h : Takes s r [] false) (h' : Takes r.1 r' d f) : Takes s (r'.1, r.2 ++ r'.2) d f := by
  refine ⟨h'.alive, ?_, ?_, ?_, ?_⟩
  · rw [h'.buffer, h.buffer, List.append_nil]
  · rw [h'.next, h.next]
    simp
  · rw [List.count_append, h.closes, h'.closes]
    exact Nat.zero_add _
  · rw [h'.done, h.done, Bool.or_false]

theorem Takes.trans_nil {r r' : TunnelTCP T × List Event} {d : List UInt8} {f : Bool}
    (h : Takes s r d f) (h' : Takes r.1 r' [] false) : Takes s (r'.1, r.2 ++ r'.2) d f := by
  refine ⟨h'.alive, ?_, ?_, ?_, ?_⟩
  · rw [h'.buffer, h.buffer, List.append_nil]
  · rw [h'.next, h.next]
    simp
  · rw [List.count_append, h.closes, h'.closes]
    exact Nat.add_zero _
  · rw [h'.done, h.done, Bool.or_false]

/-- A step that leaves the receiving side alone. -/
theorem Takes.idle {r : TunnelTCP T × List Event} (halive : r.1.state.alive = true)
    (hbuffer : r.1.receiveBuffer = s.receiveBuffer) (hnext : r.1.receiveNext = s.receiveNext)
    (hcloses : r.2.count .peerClosed = 0) (hdone : r.1.state.peerDone = s.state.peerDone) :
    Takes s r [] false := by
  refine ⟨halive, ?_, ?_, hcloses, ?_⟩
  · rw [hbuffer, List.append_nil]
  · rw [hnext]
    simp
  · rw [hdone, Bool.or_false]

theorem Takes.refl (h : s.state.alive = true) : Takes s (s, []) [] false :=
  Takes.idle h rfl rfl rfl rfl

theorem Takes.events {r : TunnelTCP T × List Event} {d : List UInt8} {f : Bool}
    (h : Takes s r d f) {events : List Event} (hcount : events.count .peerClosed = 0) :
    Takes s (r.1, events ++ r.2) d f := by
  refine ⟨h.alive, h.buffer, h.next, ?_, h.done⟩
  rw [List.count_append, hcount, h.closes]
  exact Nat.zero_add _

theorem count_ackPacket (s : TunnelTCP T) : [s.ackPacket].count .peerClosed = 0 := by
  rw [List.count_eq_zero, List.mem_singleton]
  intro h
  cases h

theorem count_ite_ackPacket (s : TunnelTCP T) (c : Prop) [Decidable c] :
    (if c then [s.ackPacket] else []).count .peerClosed = 0 := by
  split
  · exact s.count_ackPacket
  · rfl

section

variable [Clock T]

theorem awaitWindow_received (s : TunnelTCP T) (now : T) :
    (s.awaitWindow now).state = s.state ∧
      (s.awaitWindow now).receiveBuffer = s.receiveBuffer ∧
      (s.awaitWindow now).receiveNext = s.receiveNext := by
  unfold awaitWindow
  split
  · exact ⟨rfl, rfl, rfl⟩
  · exact ⟨rfl, rfl, rfl⟩

theorem takes_awaitWindow (h : s.state.alive = true) (now : T) :
    Takes s (s.awaitWindow now, []) [] false := by
  obtain ⟨hstate, hbuffer, hnext⟩ := s.awaitWindow_received now
  refine Takes.idle ?_ hbuffer hnext rfl ?_
  · dsimp only
    rw [hstate]
    exact h
  · dsimp only
    rw [hstate]

theorem takes_flush (h : s.state.alive = true) (now : T) :
    Takes s (s.flush now) [] false := by
  unfold flush
  split
  · exact Takes.refl h
  · rename_i hopen
    rw [not_or, not_not] at hopen
    split
    · split
      · exact takes_awaitWindow h now
      · exact Takes.idle h rfl rfl (by simp [packet]) rfl
    · split
      · split
        · exact takes_awaitWindow h now
        · refine Takes.idle ?_ rfl rfl (by simp [packet]) ?_
          · dsimp only
            split
            · rfl
            · rfl
          · dsimp only
            rcases hopen.2 with hs | hs
            · rw [hs]
              rfl
            · rw [hs]
              rfl
      · exact Takes.refl h

theorem takes_advanceClose (h : s.state.alive = true) (now : T) :
    Takes s (s.advanceClose now) [] false := by
  unfold advanceClose
  split
  · exact Takes.refl h
  · split
    · rename_i hs
      exact Takes.idle rfl rfl rfl rfl (by rw [hs]; rfl)
    · split
      · rename_i hs
        exact Takes.idle rfl rfl rfl rfl (by rw [hs]; rfl)
      · split
        · rename_i hs
          exact Takes.idle rfl rfl rfl rfl (by rw [hs]; rfl)
        · exact Takes.refl h

theorem updateWindow_received (s : TunnelTCP T) (seg : TunnelTCPSegment) :
    (s.updateWindow seg).state = s.state ∧
      (s.updateWindow seg).receiveBuffer = s.receiveBuffer ∧
      (s.updateWindow seg).receiveNext = s.receiveNext := by
  unfold updateWindow
  split
  · exact ⟨rfl, rfl, rfl⟩
  · exact ⟨rfl, rfl, rfl⟩

theorem retire_received (s : TunnelTCP T) (x : BitVec 32) (now : T) :
    (s.retire x now).state = s.state ∧ (s.retire x now).receiveBuffer = s.receiveBuffer ∧
      (s.retire x now).receiveNext = s.receiveNext := by
  unfold retire
  split
  · exact ⟨rfl, rfl, rfl⟩
  · exact ⟨rfl, rfl, rfl⟩

theorem takes_acknowledge (h : s.state.alive = true) (seg : TunnelTCPSegment) (now : T) :
    Takes s (s.acknowledge seg now) [] false := by
  unfold acknowledge
  obtain ⟨hstate, hbuffer, hnext⟩ := s.updateWindow_received seg
  split
  · exact Takes.refl h
  · dsimp only
    split
    · obtain ⟨hstate2, hbuffer2, hnext2⟩ :=
        (s.updateWindow seg).retire_received seg.acknowledgement now
      rw [hstate] at hstate2
      have hretired : Takes s ((s.updateWindow seg).retire seg.acknowledgement now, [.writable])
          [] false := by
        refine Takes.idle ?_ (hbuffer2.trans hbuffer) (hnext2.trans hnext) (by simp) ?_
        · dsimp only
          rw [hstate2]
          exact h
        · dsimp only
          rw [hstate2]
      exact hretired.trans (takes_advanceClose hretired.alive now)
    · refine Takes.idle ?_ hbuffer hnext rfl ?_
      · dsimp only
        rw [hstate]
        exact h
      · dsimp only
        rw [hstate]

omit [Clock T] in
theorem window_toNat (s : TunnelTCP T) :
    s.window.toNat = receiveCapacity - s.receiveBuffer.length := by
  rw [window, BitVec.toNat_ofNat]
  exact Nat.mod_eq_of_lt (by simp only [receiveCapacity]; omega)

/-- What a segment gives: a prefix of its bytes from the expected one on, and its
end if they reach it. -/
structure Gives (s : TunnelTCP T) (seg : TunnelTCPSegment) (d : List UInt8) (f : Bool) : Prop where
  offset : s.offset seg ≤ 0
  bytes : d <+: seg.payload.drop (-s.offset seg).toNat
  room : d.length ≤ s.window.toNat
  fin : f = true → seg.has fin = true ∧
    seg.sequence + BitVec.ofNat 32 seg.payload.length =
      s.receiveNext + BitVec.ofNat 32 d.length
  open_ : s.state.peerDone = false

omit [Clock T] in
theorem takeData_spec (halive : s.state.alive = true) (seg : TunnelTCPSegment) :
    ∃ d, Takes s (s.takeData seg) d false ∧ (s.takeData seg).1.state = s.state ∧
      d <+: seg.payload.drop (-s.offset seg).toNat ∧ d.length ≤ s.window.toNat := by
  have hskip : seg.payload.drop (min seg.payload.length (max 0 (-s.offset seg)).toNat) =
      seg.payload.drop (-s.offset seg).toNat := by
    have hmax : (max 0 (-s.offset seg)).toNat = (-s.offset seg).toNat := by
      omega
    rw [hmax]
    by_cases hle : seg.payload.length ≤ (-s.offset seg).toNat
    · rw [Nat.min_eq_left hle, List.drop_length, List.drop_eq_nil_of_le hle]
    · rw [Nat.min_eq_right (by omega)]
  unfold takeData
  dsimp only
  split
  · refine ⟨_, ⟨halive, rfl, ?_, rfl, ?_⟩, rfl, ?_, ?_⟩
    · dsimp only
      rw [List.length_take, List.length_drop, Nat.min_eq_left (Nat.min_le_left _ _)]
      rfl
    · rw [Bool.or_false]
    · rw [hskip]
      exact List.take_prefix _ _
    · rw [List.length_take]
      exact (Nat.min_le_left _ _).trans (Nat.min_le_right _ _)
  · exact ⟨[], Takes.refl halive, rfl, List.nil_prefix, Nat.zero_le _⟩

theorem takeFin_spec (halive : s.state.alive = true) (hdone : s.state.peerDone = false)
    (seg : TunnelTCPSegment) (reach available : ℤ) (now : T) :
    ∃ f, Takes s (s.takeFin seg reach available now) [] f ∧
      (f = true → seg.has fin = true ∧
        seg.sequence + BitVec.ofNat 32 seg.payload.length = s.receiveNext) := by
  unfold takeFin
  split
  · rename_i hfin
    refine ⟨true, ?_, fun _ => ⟨hfin.1, hfin.2.1⟩⟩
    dsimp only
    have hstate : s.state = .established ∨ s.state = .finWait1 ∨ s.state = .finWait2 := by
      cases hs : s.state <;> simp_all [State.alive, State.peerDone]
    rcases hstate with hs | hs | hs
    · rw [if_pos hs]
      exact ⟨rfl, (List.append_nil _).symm, rfl, rfl, by rw [Bool.or_true]; rfl⟩
    · rw [if_neg (by rw [hs]; decide), if_pos hs]
      exact ⟨rfl, (List.append_nil _).symm, rfl, rfl, by rw [Bool.or_true]; rfl⟩
    · rw [if_neg (by rw [hs]; decide), if_neg (by rw [hs]; decide), if_pos hs]
      exact ⟨rfl, (List.append_nil _).symm, rfl, rfl, by rw [Bool.or_true]; rfl⟩
  · exact ⟨false, Takes.refl halive, fun h => by cases h⟩

theorem takeSegment_spec (halive : s.state.alive = true) (hdone : s.state.peerDone = false)
    {seg : TunnelTCPSegment} (hoffset : s.offset seg ≤ 0) (now : T) :
    ∃ d f, Takes s (s.takeSegment seg now) d f ∧ Gives s seg d f := by
  obtain ⟨d, hdata, hsame, hhead, hroom⟩ := takeData_spec halive seg
  have hdone' : (s.takeData seg).1.state.peerDone = false := by
    rw [hsame]
    exact hdone
  obtain ⟨f, hend, hfin⟩ := takeFin_spec hdata.alive hdone' seg
    ((occupied seg : ℤ) + s.offset seg) s.window.toNat now
  refine ⟨d, f, ?_, hoffset, hhead, hroom, ?_, hdone⟩
  · unfold takeSegment
    dsimp only
    have hboth : Takes s
        (((s.takeData seg).1.takeFin seg ((occupied seg : ℤ) + s.offset seg) s.window.toNat now).1,
          (s.takeData seg).2 ++
          ((s.takeData seg).1.takeFin seg ((occupied seg : ℤ) + s.offset seg)
            s.window.toNat now).2) d f := by
      refine ⟨hend.alive, ?_, ?_, ?_, ?_⟩
      · rw [hend.buffer, hdata.buffer, List.append_nil]
      · rw [hend.next, hdata.next, BitVec.add_assoc, ← BitVec.ofNat_add]
        simp
      · rw [List.count_append, hdata.closes, hend.closes]
        exact Nat.zero_add _
      · rw [hend.done, hdata.done, Bool.or_false]
    have hflushed := (takes_flush hend.alive now).events
      (count_ite_ackPacket
        ((s.takeData seg).1.takeFin seg ((occupied seg : ℤ) + s.offset seg) s.window.toNat now).1
        (0 < occupied seg))
    have hall := hboth.trans_nil hflushed
    rw [← List.append_assoc] at hall
    exact hall
  · intro hf
    obtain ⟨h1, h2⟩ := hfin hf
    refine ⟨h1, ?_⟩
    rw [h2, hdata.next]
    rfl

/-! ## Calls -/

/-- A call that fails, or whose packets lose the connection, forgets what was
received. -/
def Lost (r : TunnelTCP T × List Event) : Prop :=
  r.1.state = .failed ∧ r.1.receiveBuffer = [] ∧ ∃ reason, r.2 = [.failed reason]

omit [Clock T] in
theorem lost_fail (s : TunnelTCP T) (reason : Failure) : Lost (s.fail reason) :=
  ⟨rfl, rfl, reason, rfl⟩

omit [Clock T] in
theorem Lost.count {r : TunnelTCP T × List Event} (h : Lost r) :
    r.2.count .peerClosed = 0 := by
  obtain ⟨-, -, reason, hevents⟩ := h
  rw [hevents]
  simp

theorem receiveOpen_spec (halive : s.state.alive = true) (hclosed : s.state ≠ .closed)
    (seg : TunnelTCPSegment) (now : T) :
    ∃ d f, Takes s (s.receiveOpen seg now) d f ∧ (d = [] ∧ f = false ∨ Gives s seg d f) := by
  have hack : Takes s (s, [s.ackPacket]) [] false :=
    Takes.idle halive rfl rfl s.count_ackPacket rfl
  unfold receiveOpen
  split
  · exact ⟨[], false, hack, .inl ⟨rfl, rfl⟩⟩
  · split
    · exact ⟨[], false, hack, .inl ⟨rfl, rfl⟩⟩
    · have hk := takes_acknowledge halive seg now
      dsimp only
      split
      · exact ⟨[], false, hk, .inl ⟨rfl, rfl⟩⟩
      · rename_i hopen
        have hnext : (s.acknowledge seg now).1.receiveNext = s.receiveNext := by
          rw [hk.next]
          simp
        have hoffset : (s.acknowledge seg now).1.offset seg = s.offset seg := by
          rw [offset, offset, hnext]
        have hwindow : (s.acknowledge seg now).1.window = s.window := by
          rw [window, window, hk.buffer, List.append_nil]
        split
        · have hflushed := (takes_flush hk.alive now).events
            (s.acknowledge seg now).1.count_ackPacket
          have := hk.trans hflushed
          rw [← List.append_assoc] at this
          exact ⟨[], false, this, .inl ⟨rfl, rfl⟩⟩
        · rename_i hle
          split
          · have hflushed := (takes_flush hk.alive now).events
              ((s.acknowledge seg now).1.count_ite_ackPacket (0 < occupied seg))
            have := hk.trans hflushed
            rw [← List.append_assoc] at this
            exact ⟨[], false, this, .inl ⟨rfl, rfl⟩⟩
          · rename_i hstates
            have hdone : (s.acknowledge seg now).1.state.peerDone = false := by
              cases hs : (s.acknowledge seg now).1.state <;> simp_all [State.peerDone]
            have hle' : (s.acknowledge seg now).1.offset seg ≤ 0 := by
              omega
            obtain ⟨d, f, htakes, hgives⟩ := takeSegment_spec hk.alive hdone hle' now
            refine ⟨d, f, hk.trans htakes, .inr ?_⟩
            refine ⟨?_, ?_, ?_, ?_, ?_⟩
            · rw [← hoffset]
              exact hgives.offset
            · rw [← hoffset]
              exact hgives.bytes
            · rw [← hwindow]
              exact hgives.room
            · rw [← hnext]
              exact hgives.fin
            · have := hk.done
              rw [hdone, Bool.or_false] at this
              exact this.symm

/-- A packet for an open connection loses it, or gives some bytes. -/
theorem receive_spec (halive : s.state.alive = true) (bytes : List UInt8) (now : T) :
    Lost (s.receive bytes now) ∨
      ∃ d f, Takes s (s.receive bytes now) d f ∧
        (d = [] ∧ f = false ∨
          ∃ seg, TunnelTCPCodec.decode bytes s.endpoints s.mtu = some seg ∧ Gives s seg d f) := by
  have hnothing : Takes s (s, []) [] false := Takes.refl halive
  have hack : Takes s (s, [s.ackPacket]) [] false :=
    Takes.idle halive rfl rfl s.count_ackPacket rfl
  unfold receive
  split
  · exact .inr ⟨[], false, hnothing, .inl ⟨rfl, rfl⟩⟩
  · rename_i hopen
    rw [not_not] at hopen
    cases hdecode : TunnelTCPCodec.decode bytes s.endpoints s.mtu with
    | none => exact .inr ⟨[], false, hnothing, .inl ⟨rfl, rfl⟩⟩
    | some seg =>
        dsimp only
        unfold receiveSegment
        rw [if_neg (fun hs => by rw [hs] at halive; cases halive)]
        split
        · split
          · exact .inl (lost_fail _ _)
          · split
            · exact .inr ⟨[], false, hack, .inl ⟨rfl, rfl⟩⟩
            · exact .inr ⟨[], false, hnothing, .inl ⟨rfl, rfl⟩⟩
        · split
          · split
            · exact .inr ⟨[], false, Takes.idle halive rfl rfl s.count_ackPacket rfl,
                .inl ⟨rfl, rfl⟩⟩
            · exact .inr ⟨[], false, hnothing, .inl ⟨rfl, rfl⟩⟩
          · split
            · exact .inr ⟨[], false, hack, .inl ⟨rfl, rfl⟩⟩
            · split
              · exact .inr ⟨[], false, hnothing, .inl ⟨rfl, rfl⟩⟩
              · obtain ⟨d, f, htakes, hgives⟩ := receiveOpen_spec halive hopen.2.2.1 seg now
                refine .inr ⟨d, f, htakes, ?_⟩
                rcases hgives with hgives | hgives
                · exact .inl hgives
                · exact .inr ⟨seg, rfl, hgives⟩

theorem tick_spec (halive : s.state.alive = true) (now : T) :
    Lost (s.tick now) ∨ Takes s (s.tick now) [] false := by
  have hprobe : Lost (s.probe now) ∨ Takes s (s.probe now) [] false := by
    unfold probe
    split
    · exact .inr (Takes.refl halive)
    · split
      · exact .inl (lost_fail _ _)
      · split
        · exact .inr (Takes.idle halive rfl rfl (by simp [packet]) rfl)
        · exact .inr (Takes.refl halive)
  unfold tick
  split
  · exact .inr (Takes.refl halive)
  · split
    · split
      · rename_i hs
        exact .inr (Takes.idle rfl rfl rfl (by simp) (by rw [hs]; rfl))
      · exact .inl (lost_fail _ _)
    · split
      · exact hprobe
      · split
        · unfold retransmit
          split
          · exact .inl (lost_fail _ _)
          · exact .inr (Takes.idle halive rfl rfl (by simp [packet]) rfl)
        · exact hprobe

/-- What a call does to the receiving side: `d` joins what is held or returned. -/
structure Consumes (s : TunnelTCP T) (call : Call T) (d : List UInt8) (f : Bool) : Prop where
  alive : (s.perform call).1.state.alive = true
  bytes : s.returned call ++ (s.perform call).1.receiveBuffer = s.receiveBuffer ++ d
  next : (s.perform call).1.receiveNext = s.receiveNext + BitVec.ofNat 32 (d.length + f.toNat)
  closes : (s.perform call).2.count .peerClosed = f.toNat
  done : (s.perform call).1.state.peerDone = (s.state.peerDone || f)
  gives : d = [] ∧ f = false ∨ ∃ bytes now seg, call = .receive bytes now ∧
    TunnelTCPCodec.decode bytes s.endpoints s.mtu = some seg ∧ Gives s seg d f

theorem Takes.consumes {call : Call T} {d : List UInt8} {f : Bool}
    (h : Takes s (s.perform call) d f) (hreturned : s.returned call = [])
    (hgives : d = [] ∧ f = false ∨ ∃ bytes now seg, call = .receive bytes now ∧
      TunnelTCPCodec.decode bytes s.endpoints s.mtu = some seg ∧ Gives s seg d f) :
    Consumes s call d f := by
  refine ⟨h.alive, ?_, h.next, h.closes, h.done, hgives⟩
  rw [hreturned, h.buffer]
  rfl

theorem takes_flush_of (halive : s.state.alive = true) (s' : TunnelTCP T)
    (hstate : s'.state = s.state) (hbuffer : s'.receiveBuffer = s.receiveBuffer)
    (hnext : s'.receiveNext = s.receiveNext) (now : T) : Takes s (s'.flush now) [] false := by
  have hsame : Takes s (s', []) [] false := by
    refine Takes.idle ?_ hbuffer hnext rfl ?_
    · dsimp only
      rw [hstate]
      exact halive
    · dsimp only
      rw [hstate]
  exact hsame.trans (takes_flush hsame.alive now)

theorem perform_spec (halive : s.state.alive = true) {call : Call T} (hcall : call ≠ .abort) :
    (Lost (s.perform call) ∧ s.returned call = []) ∨ ∃ d f, Consumes s call d f := by
  cases call with
  | connect now =>
      refine .inr ⟨[], false, Takes.consumes ?_ rfl (.inl ⟨rfl, rfl⟩)⟩
      dsimp only [perform]
      unfold connect
      rw [if_neg (fun h => by rw [h.1] at halive; cases halive)]
      exact Takes.refl halive
  | write data now =>
      refine .inr ⟨[], false, Takes.consumes ?_ rfl (.inl ⟨rfl, rfl⟩)⟩
      dsimp only [perform]
      unfold write
      split
      · exact Takes.refl halive
      · split
        · exact Takes.refl halive
        · exact takes_flush_of halive { s with sendBuffer := s.sendBuffer ++ data } rfl rfl rfl now
  | shutdownWrite now =>
      refine .inr ⟨[], false, Takes.consumes ?_ rfl (.inl ⟨rfl, rfl⟩)⟩
      dsimp only [perform]
      unfold shutdownWrite
      split
      · exact takes_flush_of halive { s with closeRequested := true } rfl rfl rfl now
      · exact Takes.refl halive
  | receive bytes now =>
      rcases receive_spec halive bytes now with hlost | ⟨d, f, htakes, hgives⟩
      · exact .inl ⟨hlost, rfl⟩
      · refine .inr ⟨d, f, Takes.consumes htakes rfl ?_⟩
        rcases hgives with hgives | ⟨seg, hdecode, hgives⟩
        · exact .inl hgives
        · exact .inr ⟨bytes, now, seg, rfl, hdecode, hgives⟩
  | read maximum =>
      refine .inr ⟨[], false, ?_⟩
      have hperform : s.perform (.read maximum) = (s.read maximum).2 := rfl
      have hreturned : s.returned (.read maximum) = (s.read maximum).1 := rfl
      by_cases hread : 0 < maximum ∧ s.receiveBuffer ≠ []
      · have hs : (s.perform (.read maximum)).1 =
            { s with
              receiveBuffer := s.receiveBuffer.drop (min maximum s.receiveBuffer.length) } := by
          rw [hperform, read, if_neg (not_not.2 hread)]
          dsimp only
          split
          · rfl
          · rfl
        have hbytes : s.returned (.read maximum) =
            s.receiveBuffer.take (min maximum s.receiveBuffer.length) := by
          rw [hreturned, read, if_neg (not_not.2 hread)]
          dsimp only
          split
          · rfl
          · rfl
        refine ⟨?_, ?_, ?_, ?_, ?_, .inl ⟨rfl, rfl⟩⟩
        · rw [hs]
          exact halive
        · rw [hs, hbytes, List.append_nil]
          exact List.take_append_drop _ _
        · rw [hs]
          simp
        · rw [hperform, read, if_neg (not_not.2 hread)]
          dsimp only
          split
          · rfl
          · exact count_ackPacket _
        · rw [hs, Bool.or_false]
      · have hs : s.perform (.read maximum) = (s, []) := by
          rw [hperform, read, if_pos hread]
        have hbytes : s.returned (.read maximum) = [] := by
          rw [hreturned, read, if_pos hread]
        refine Takes.consumes ?_ hbytes (.inl ⟨rfl, rfl⟩)
        rw [hs]
        exact Takes.refl halive
  | tick now =>
      rcases tick_spec halive now with hlost | htakes
      · exact .inl ⟨hlost, rfl⟩
      · exact .inr ⟨[], false, Takes.consumes htakes rfl (.inl ⟨rfl, rfl⟩)⟩
  | abort => exact absurd rfl hcall

theorem perform_failed (hs : s.state = .failed) (hbuffer : s.receiveBuffer = []) (call : Call T) :
    s.perform call = (s, []) ∧ s.returned call = [] := by
  cases call with
  | connect now => simp [perform, connect, hs, outcome, returned]
  | write data now => simp [perform, write, hs, outcome, returned]
  | shutdownWrite now => simp [perform, shutdownWrite, hs, outcome, returned]
  | receive bytes now => simp [perform, receive, hs, returned]
  | read maximum => simp [perform, read, hbuffer, returned]
  | tick now => simp [perform, tick, hs, returned]
  | abort => simp [perform, abort, hs, returned]

/-! ## Runs -/

namespace Observed

variable {o : Observed T}

def received (o : Observed T) : List UInt8 := o.delivered ++ o.tcp.receiveBuffer

/-- The position of the peer's stream that comes next, its FIN counted. -/
def taken (o : Observed T) : ℕ := o.received.length + o.peerCloses

/-- The receiving side of an open connection whose peer started at `n`. -/
structure Alive (n : BitVec 32) (o : Observed T) : Prop where
  alive : o.tcp.state.alive = true
  next : o.tcp.receiveNext = n + 1 + BitVec.ofNat 32 o.taken
  closes : o.peerCloses = o.tcp.state.peerDone.toNat
  room : o.tcp.receiveBuffer.length ≤ receiveCapacity

/-- The receiving side of a connection that failed. -/
structure Failed (o : Observed T) : Prop where
  failed : o.tcp.state = .failed
  buffer : o.tcp.receiveBuffer = []
  closes : o.peerCloses ≤ 1

theorem received_step {call : Call T} {d : List UInt8} {f : Bool} (h : Consumes o.tcp call d f) :
    (o.step call).received = o.received ++ d := by
  have hbytes := h.bytes
  rw [received, received, step]
  dsimp only
  rw [List.append_assoc, hbytes, List.append_assoc]

theorem taken_step {call : Call T} {d : List UInt8} {f : Bool} (h : Consumes o.tcp call d f) :
    (o.step call).taken = o.taken + (d.length + f.toNat) := by
  have hcloses : (o.step call).peerCloses = o.peerCloses + f.toNat := by
    rw [step]
    dsimp only
    rw [events, h.closes]
  rw [taken, taken, received_step h, hcloses, List.length_append]
  omega

theorem Alive.consume {n : BitVec 32} (ho : o.Alive n) {call : Call T} {d : List UInt8} {f : Bool}
    (h : Consumes o.tcp call d f) : (o.step call).Alive n := by
  have hcloses : (o.step call).peerCloses = o.peerCloses + f.toNat := by
    rw [step]
    dsimp only
    rw [events, h.closes]
  refine ⟨h.alive, ?_, ?_, ?_⟩
  · rw [taken_step h, BitVec.ofNat_add, ← BitVec.add_assoc, ← ho.next]
    exact h.next
  · rw [hcloses, ho.closes, show (o.step call).tcp = (o.tcp.perform call).1 from rfl, h.done]
    rcases h.gives with ⟨-, rfl⟩ | ⟨_, _, _, _, _, hgives⟩
    · rw [Bool.or_false]
      rfl
    · rw [hgives.open_, Bool.false_or]
      exact Nat.zero_add _
  · have hroom := ho.room
    have hlen := congrArg List.length h.bytes
    rw [List.length_append, List.length_append] at hlen
    rw [show (o.step call).tcp = (o.tcp.perform call).1 from rfl]
    rcases h.gives with ⟨rfl, -⟩ | ⟨_, _, _, _, _, hgives⟩
    · rw [List.length_nil] at hlen
      omega
    · have := hgives.room
      rw [window_toNat] at this
      omega

theorem Alive.lose {n : BitVec 32} (ho : o.Alive n) {call : Call T}
    (h : Lost (o.tcp.perform call)) (hreturned : o.tcp.returned call = []) :
    (o.step call).Failed ∧ (o.step call).received <+: o.received := by
  have hcloses := h.count
  obtain ⟨hstate, hbuffer, -⟩ := h
  refine ⟨⟨hstate, hbuffer, ?_⟩, ?_⟩
  · rw [step]
    dsimp only
    rw [events, hcloses, ho.closes]
    cases o.tcp.state.peerDone <;> decide
  · rw [received, received, step]
    dsimp only
    rw [hbuffer, hreturned, List.append_nil, List.append_nil]
    exact List.prefix_append _ _

theorem Failed.step (ho : o.Failed) (call : Call T) :
    (o.step call).Failed ∧ (o.step call).received = o.received := by
  obtain ⟨hperform, hreturned⟩ := perform_failed ho.failed ho.buffer call
  refine ⟨⟨?_, ?_, ?_⟩, ?_⟩
  · rw [Observed.step, hperform]
    exact ho.failed
  · rw [Observed.step, hperform]
    exact ho.buffer
  · rw [Observed.step, events, hperform]
    exact ho.closes
  · rw [received, received, Observed.step, hperform, hreturned]
    dsimp only
    rw [List.append_nil]

/-! ## An honest peer -/

/-- A segment of a peer that sends the bytes `S`, and its FIN after them if `ended`:
`k` is the position it starts at, within half the sequence space of the one that
comes next. -/
structure Honest (S : List UInt8) (ended : Bool) (n : BitVec 32) (taken : ℕ)
    (seg : TunnelTCPSegment) (k : ℤ) : Prop where
  sequence : seg.sequence = n + 1 + BitVec.ofInt 32 k
  near : -2 ^ 31 ≤ k - taken ∧ k - taken < 2 ^ 31
  payload : ∀ (j : ℕ) (b : UInt8), seg.payload[j]? = some b →
    0 ≤ k + j ∧ S[(k + j).toNat]? = some b
  fin : seg.has fin = true → ended = true ∧ k + seg.payload.length = S.length

/-- The calls of a run whose packets all come from that peer. -/
def HonestCall (S : List UInt8) (ended : Bool) (n : BitVec 32) (o : Observed T) : Call T → Prop
  | .receive bytes _ => ∀ seg, TunnelTCPCodec.decode bytes o.tcp.endpoints o.tcp.mtu = some seg →
      ∃ k, Honest S ended n o.taken seg k
  | .abort => False
  | _ => True

def HonestRun (S : List UInt8) (ended : Bool) (n : BitVec 32) : Observed T → List (Call T) → Prop
  | _, [] => True
  | o, call :: calls => HonestCall S ended n o call ∧ HonestRun S ended n (o.step call) calls

/-- What was received of the stream `S` of a peer that started at `n`. -/
structure Received (S : List UInt8) (ended : Bool) (n : BitVec 32) (o : Observed T) : Prop where
  stream : o.received <+: S
  next : o.tcp.state ≠ .failed →
    o.tcp.receiveNext = n + 1 + BitVec.ofNat 32 (o.received.length + o.peerCloses)
  once : o.peerCloses ≤ 1
  closed : o.peerCloses = 1 → ended = true ∧ (o.tcp.state ≠ .failed → o.received = S)
  room : o.tcp.receiveBuffer.length ≤ 32768

/-- Bytes that agree with the stream from position `t` on are its next ones. -/
theorem prefix_drop {S l : List UInt8} {t : ℕ}
    (h : ∀ j b, l[j]? = some b → S[t + j]? = some b) : l <+: S.drop t := by
  rw [List.prefix_iff_getElem?]
  intro j hj
  rw [List.getElem?_drop]
  exact h j _ (List.getElem?_eq_getElem hj)

/-- The offset the code computes is the distance of the positions. -/
theorem Alive.offset_eq {n : BitVec 32} (ho : o.Alive n) {S : List UInt8} {ended : Bool}
    {seg : TunnelTCPSegment} {k : ℤ} (h : Honest S ended n o.taken seg k) :
    o.tcp.offset seg = k - o.taken := by
  rw [offset, h.sequence, ho.next, ← BitVec.ofInt_natCast]
  obtain ⟨hlow, hhigh⟩ := h.near
  exact SerialNumber.toInt_sub (by omega) (by omega)

/-- The bytes a segment of the peer gives are the next ones of its stream. -/
theorem Alive.gives_prefix {n : BitVec 32} (ho : o.Alive n) {S : List UInt8} {ended : Bool}
    {seg : TunnelTCPSegment} {k : ℤ} (h : Honest S ended n o.taken seg k) {d : List UInt8}
    {f : Bool} (hg : Gives o.tcp seg d f) : d <+: S.drop o.taken := by
  have hoffset := ho.offset_eq h
  have hle := hg.offset
  refine hg.bytes.trans (prefix_drop ?_)
  intro j b hj
  rw [List.getElem?_drop] at hj
  obtain ⟨hpos, hbyte⟩ := h.payload _ b hj
  rw [← hbyte]
  congr 1
  omega

theorem Alive.gives_end {n : BitVec 32} (ho : o.Alive n) {S : List UInt8} {ended : Bool}
    {seg : TunnelTCPSegment} {k : ℤ} (h : Honest S ended n o.taken seg k) {d : List UInt8}
    (hg : Gives o.tcp seg d true) (hsize : seg.payload.length ≤ 16000) :
    ended = true ∧ o.taken + d.length = S.length := by
  obtain ⟨hfin, hseq⟩ := hg.fin rfl
  obtain ⟨hended, hlast⟩ := h.fin hfin
  refine ⟨hended, ?_⟩
  have hoffset := ho.offset_eq h
  have hle := hg.offset
  have hlen := hg.bytes.length_le
  rw [List.length_drop] at hlen
  rw [h.sequence, ho.next] at hseq
  have hleft : n + 1 + BitVec.ofInt 32 k + BitVec.ofNat 32 seg.payload.length =
      n + 1 + BitVec.ofInt 32 (k + seg.payload.length) := by
    rw [BitVec.ofInt_add, BitVec.ofInt_natCast, BitVec.add_assoc]
  have hright : n + 1 + BitVec.ofNat 32 o.taken + BitVec.ofNat 32 d.length =
      n + 1 + BitVec.ofInt 32 ((o.taken + d.length : ℕ) : ℤ) := by
    rw [BitVec.ofInt_natCast, BitVec.ofNat_add, BitVec.add_assoc]
  rw [hleft, hright] at hseq
  obtain ⟨hlow, hhigh⟩ := h.near
  have hdistance := SerialNumber.toInt_sub (b := n + 1) (x := k + seg.payload.length)
    (y := ((o.taken + d.length : ℕ) : ℤ)) (by omega) (by omega)
  rw [hseq, BitVec.sub_self, BitVec.toInt_zero] at hdistance
  omega

/-- The receiving side with the part of the peer's stream it has. -/
structure Holds (S : List UInt8) (ended : Bool) (n : BitVec 32) (o : Observed T) : Prop where
  state : o.Alive n ∨ o.Failed
  stream : o.received <+: S
  closed : o.peerCloses = 1 → ended = true ∧ (o.Alive n → o.received = S)

theorem Holds.received {S : List UInt8} {ended : Bool} {n : BitVec 32}
    (h : Holds S ended n o) : Received S ended n o := by
  have hfailed : o.tcp.state ≠ .failed → o.Alive n := by
    intro hs
    rcases h.state with ha | hf
    · exact ha
    · exact absurd hf.failed hs
  refine ⟨h.stream, fun hs => (hfailed hs).next, ?_, ?_, ?_⟩
  · rcases h.state with ha | hf
    · rw [ha.closes]
      cases o.tcp.state.peerDone <;> decide
    · exact hf.closes
  · intro hone
    obtain ⟨hended, hall⟩ := h.closed hone
    exact ⟨hended, fun hs => hall (hfailed hs)⟩
  · rcases h.state with ha | hf
    · exact ha.room
    · rw [hf.buffer]
      exact Nat.zero_le _

theorem Alive.not_failed {n : BitVec 32} (ha : o.Alive n) (hf : o.Failed) : False := by
  have halive := ha.alive
  rw [hf.failed] at halive
  cases halive

/-- A call whose bytes are the peer's keeps what is held a part of its stream. -/
theorem Holds.step {S : List UInt8} {ended : Bool} {n : BitVec 32} (h : Holds S ended n o)
    {call : Call T} (hcall : HonestCall S ended n o call) : Holds S ended n (o.step call) := by
  rcases h.state with ha | hf
  · have hne : call ≠ .abort := by
      rintro rfl
      exact hcall
    rcases perform_spec ha.alive hne with ⟨hlost, hreturned⟩ | ⟨d, f, hc⟩
    · obtain ⟨hf, hhead⟩ := ha.lose hlost hreturned
      refine ⟨.inr hf, hhead.trans h.stream, ?_⟩
      intro hone
      refine ⟨(h.closed ?_).1, fun ha' => (ha'.not_failed hf).elim⟩
      rw [← hone, Observed.step]
      dsimp only
      rw [events, hlost.count]
      rfl
    · have ha' := ha.consume hc
      have hreceived := received_step hc
      rcases hc.gives with ⟨rfl, rfl⟩ | ⟨bytes, now, seg, rfl, hdecode, hg⟩
      · rw [List.append_nil] at hreceived
        refine ⟨.inl ha', ?_, ?_⟩
        · rw [hreceived]
          exact h.stream
        · intro hone
          have hsame : o.peerCloses = 1 := by
            rw [← hone, Observed.step]
            dsimp only
            rw [events, hc.closes]
            rfl
          obtain ⟨hended, hall⟩ := h.closed hsame
          refine ⟨hended, fun _ => ?_⟩
          rw [hreceived]
          exact hall ha
      · -- The peer's FIN was not taken before, so the position is the number of bytes.
        obtain ⟨k, hk⟩ := hcall seg hdecode
        have hopen : o.peerCloses = 0 := by
          rw [ha.closes, hg.open_]
          rfl
        have htaken : o.taken = o.received.length := by
          rw [taken, hopen]
          rfl
        have hhead : o.received ++ d <+: S := by
          have hd := ha.gives_prefix hk hg
          rw [htaken] at hd
          obtain ⟨rest, hrest⟩ := h.stream
          rw [← hrest, List.drop_left] at hd
          rw [← hrest]
          exact (List.prefix_append_right_inj _).2 hd
        refine ⟨.inl ha', ?_, ?_⟩
        · rw [hreceived]
          exact hhead
        · intro hone
          have hf : f = true := by
            rw [Observed.step] at hone
            dsimp only at hone
            rw [events, hc.closes, hopen] at hone
            cases f with
            | false => cases hone
            | true => rfl
          rw [hf] at hg
          have hsize := TunnelTCPCodec.decode_payload_le hdecode
          have hmtu := o.tcp.mtu_bounds
          obtain ⟨hended, hlength⟩ := ha.gives_end hk hg (by omega)
          refine ⟨hended, fun _ => ?_⟩
          rw [hreceived]
          refine hhead.eq_of_length ?_
          rw [List.length_append, ← htaken]
          exact hlength
  · obtain ⟨hf', hsame⟩ := hf.step call
    refine ⟨.inr hf', ?_, ?_⟩
    · rw [hsame]
      exact h.stream
    · intro hone
      refine ⟨(h.closed ?_).1, fun ha' => (ha'.not_failed hf').elim⟩
      rw [← hone, Observed.step]
      dsimp only
      rw [events, (perform_failed hf.failed hf.buffer call).1]
      rfl

theorem Holds.run {S : List UInt8} {ended : Bool} {n : BitVec 32} (h : Holds S ended n o)
    {calls : List (Call T)} (hcalls : HonestRun S ended n o calls) :
    Holds S ended n (o.run calls) := by
  induction calls generalizing o with
  | nil => exact h
  | cons call calls ih => exact ih (h.step hcalls.1) hcalls.2

/-- The connection was opened at some time. -/
structure Opened (o : Observed T) : Prop where
  idle : o.tcp.state ≠ .idle
  synSent : o.tcp.state ≠ .synSent
  failed : o.tcp.state = .failed → o.tcp.receiveBuffer = []

/-- Before the connection is open nothing was received. -/
structure Unopened (o : Observed T) : Prop where
  state : o.tcp.state = .idle ∨ o.tcp.state = .synSent
  delivered : o.delivered = []
  buffer : o.tcp.receiveBuffer = []
  closes : o.peerCloses = 0

end Observed

/-- A call before the connection is open either opens or ends it, or leaves
nothing received. -/
theorem perform_unopened (hs : s.state = .idle ∨ s.state = .synSent)
    (hbuffer : s.receiveBuffer = []) (call : Call T) :
    s.returned call = [] ∧
      (((s.perform call).1.state ≠ .idle ∧ (s.perform call).1.state ≠ .synSent ∧
          ((s.perform call).1.state = .failed → (s.perform call).1.receiveBuffer = [])) ∨
        (((s.perform call).1.state = .idle ∨ (s.perform call).1.state = .synSent) ∧
          (s.perform call).1.receiveBuffer = [] ∧ (s.perform call).2.count .peerClosed = 0)) := by
  have hsame : (s.state ≠ .idle ∧ s.state ≠ .synSent ∧
        (s.state = .failed → s.receiveBuffer = [])) ∨
      ((s.state = .idle ∨ s.state = .synSent) ∧ s.receiveBuffer = [] ∧
        ([] : List Event).count .peerClosed = 0) := .inr ⟨hs, hbuffer, rfl⟩
  have hne : s.state ≠ .established ∧ s.state ≠ .closeWait := by
    rcases hs with hs | hs <;> rw [hs] <;> decide
  cases call with
  | connect now =>
      refine ⟨rfl, ?_⟩
      dsimp only [perform]
      unfold connect
      split
      · exact .inr ⟨.inr rfl, hbuffer, by simp [outcome, packet]⟩
      · exact hsame
  | write data now =>
      refine ⟨rfl, ?_⟩
      dsimp only [perform]
      unfold write
      rw [if_pos (fun h => by rcases h.1 with h | h <;> simp_all)]
      exact hsame
  | shutdownWrite now =>
      refine ⟨rfl, ?_⟩
      dsimp only [perform]
      unfold shutdownWrite
      rw [if_neg (fun h => by rcases h.1 with h | h <;> simp_all)]
      exact hsame
  | receive bytes now =>
      refine ⟨rfl, ?_⟩
      dsimp only [perform]
      unfold receive
      split
      · exact hsame
      · rename_i hopen
        rw [not_not] at hopen
        have hsyn : s.state = .synSent := by
          rcases hs with hs | hs
          · exact absurd hs hopen.2.1
          · exact hs
        cases TunnelTCPCodec.decode bytes s.endpoints s.mtu with
        | none => exact hsame
        | some seg =>
            dsimp only
            unfold receiveSegment
            rw [if_pos hsyn]
            unfold receiveSynSent
            split
            · split
              · exact .inl ⟨by simp [fail], by simp [fail], by simp [fail]⟩
              · exact hsame
            · split
              · exact hsame
              · exact .inl ⟨by simp, by simp, by simp⟩
  | read maximum =>
      refine ⟨by simp [returned, read, hbuffer], ?_⟩
      have : s.perform (.read maximum) = (s, []) := by
        simp [perform, read, hbuffer]
      rw [this]
      exact hsame
  | tick now =>
      refine ⟨rfl, ?_⟩
      have hprobe : ((s.probe now).1.state ≠ .idle ∧ (s.probe now).1.state ≠ .synSent ∧
            ((s.probe now).1.state = .failed → (s.probe now).1.receiveBuffer = [])) ∨
          (((s.probe now).1.state = .idle ∨ (s.probe now).1.state = .synSent) ∧
            (s.probe now).1.receiveBuffer = [] ∧ (s.probe now).2.count .peerClosed = 0) := by
        unfold probe
        split
        · exact hsame
        · split
          · exact .inl ⟨by simp [fail], by simp [fail], by simp [fail]⟩
          · split
            · exact .inr ⟨hs, hbuffer, by simp [packet]⟩
            · exact hsame
      dsimp only [perform]
      unfold tick
      split
      · exact hsame
      · split
        · split
          · exact .inl ⟨by simp, by simp, by simp⟩
          · exact .inl ⟨by simp [fail], by simp [fail], by simp [fail]⟩
        · split
          · exact hprobe
          · split
            · unfold retransmit
              split
              · exact .inl ⟨by simp [fail], by simp [fail], by simp [fail]⟩
              · exact .inr ⟨hs, hbuffer, by simp [packet]⟩
            · exact hprobe
  | abort =>
      refine ⟨rfl, .inl ?_⟩
      dsimp only [perform]
      unfold abort
      rw [if_neg (by rcases hs with hs | hs <;> rw [hs] <;> decide)]
      exact ⟨by simp, by simp, by simp⟩

theorem perform_opened (h1 : s.state ≠ .idle) (h2 : s.state ≠ .synSent) (call : Call T)
    (hbuffer : s.state = .failed → s.receiveBuffer = []) :
    (s.perform call).1.state ≠ .idle ∧ (s.perform call).1.state ≠ .synSent ∧
      ((s.perform call).1.state = .failed → (s.perform call).1.receiveBuffer = []) := by
  by_cases hfailed : s.state = .failed
  · rw [(perform_failed hfailed (hbuffer hfailed) call).1]
    exact ⟨h1, h2, hbuffer⟩
  · have halive : s.state.alive = true := by
      cases hs : s.state <;> simp_all [State.alive]
    have hof : ∀ state : State, state.alive = true →
        state ≠ .idle ∧ state ≠ .synSent ∧ state ≠ .failed := by
      intro state
      cases state <;> simp [State.alive]
    by_cases habort : call = .abort
    · rw [habort]
      dsimp only [perform]
      unfold abort
      split
      · exact ⟨h1, h2, hbuffer⟩
      · exact ⟨by simp, by simp, by simp⟩
    · rcases perform_spec halive habort with ⟨⟨hstate, hempty, -⟩, -⟩ | ⟨d, f, hc⟩
      · rw [hstate]
        exact ⟨by simp, by simp, fun _ => hempty⟩
      · obtain ⟨h1', h2', h3'⟩ := hof _ hc.alive
        exact ⟨h1', h2', fun h => absurd h h3'⟩

namespace Observed

variable {o : Observed T}

theorem Unopened.step (h : o.Unopened) (call : Call T) :
    (o.step call).Opened ∨ (o.step call).Unopened := by
  obtain ⟨hreturned, ⟨h1, h2, h3⟩ | ⟨hstate, hbuffer, hcloses⟩⟩ :=
    perform_unopened h.state h.buffer call
  · exact .inl ⟨h1, h2, h3⟩
  · refine .inr ⟨hstate, ?_, hbuffer, ?_⟩
    · rw [Observed.step]
      dsimp only
      rw [h.delivered, hreturned]
      rfl
    · rw [Observed.step]
      dsimp only
      rw [events, hcloses, h.closes]

theorem Opened.step (h : o.Opened) (call : Call T) : (o.step call).Opened := by
  obtain ⟨h1, h2, h3⟩ := perform_opened h.idle h.synSent call h.failed
  exact ⟨h1, h2, h3⟩

theorem opened_or_unopened (h : o.Opened ∨ o.Unopened) (calls : List (Call T)) :
    (o.run calls).Opened ∨ (o.run calls).Unopened := by
  induction calls generalizing o with
  | nil => exact h
  | cons call calls ih =>
      refine ih ?_
      rcases h with h | h
      · exact .inl (h.step call)
      · exact h.step call

/-- The packet that opens the connection sets where the peer's stream starts. -/
theorem Unopened.establish (h : o.Unopened) (hs : o.tcp.state = .synSent) {bytes : List UInt8}
    {seg : TunnelTCPSegment}
    (hdecode : TunnelTCPCodec.decode bytes o.tcp.endpoints o.tcp.mtu = some seg) {now : T}
    (hestablished : (o.step (.receive bytes now)).tcp.state = .established) :
    (o.step (.receive bytes now)).Alive seg.sequence ∧
      (o.step (.receive bytes now)).received = [] ∧
      (o.step (.receive bytes now)).peerCloses = 0 := by
  have hopened : (o.step (.receive bytes now)).tcp.receiveNext = seg.sequence + 1 ∧
      (o.step (.receive bytes now)).tcp.receiveBuffer = [] ∧
      (o.events (.receive bytes now)).count .peerClosed = 0 := by
    have htcp : (o.step (.receive bytes now)).tcp = (o.tcp.receive bytes now).1 := rfl
    have hevents : o.events (.receive bytes now) = (o.tcp.receive bytes now).2 := rfl
    rw [htcp] at hestablished ⊢
    rw [hevents]
    unfold receive at hestablished ⊢
    split
    · rename_i hclosed
      rw [if_pos hclosed, hs] at hestablished
      cases hestablished
    · rename_i hopen
      rw [if_neg hopen, hdecode] at hestablished
      rw [hdecode]
      dsimp only at hestablished ⊢
      unfold receiveSegment at hestablished ⊢
      rw [if_pos hs] at hestablished ⊢
      unfold receiveSynSent at hestablished ⊢
      split
      · rename_i hrst
        rw [if_pos hrst] at hestablished
        split at hestablished
        · cases hestablished
        · rw [hs] at hestablished
          cases hestablished
      · rename_i hrst
        rw [if_neg hrst] at hestablished
        split
        · rename_i hrefused
          rw [if_pos hrefused, hs] at hestablished
          cases hestablished
        · exact ⟨rfl, h.buffer, by simp [ackPacket, packet]⟩
  obtain ⟨hnext, hbuffer, hcount⟩ := hopened
  have hdelivered : (o.step (.receive bytes now)).delivered = [] := by
    rw [Observed.step]
    dsimp only
    rw [h.delivered]
    rfl
  have hreceived : (o.step (.receive bytes now)).received = [] := by
    rw [Observed.received, hdelivered, hbuffer]
    rfl
  have hcloses : (o.step (.receive bytes now)).peerCloses = 0 := by
    rw [Observed.step]
    dsimp only
    rw [hcount, h.closes]
  refine ⟨⟨?_, ?_, ?_, ?_⟩, hreceived, hcloses⟩
  · rw [hestablished]
    rfl
  · rw [hnext, taken, hreceived, hcloses]
    simp
  · rw [hcloses, hestablished]
    rfl
  · rw [hbuffer]
    exact Nat.zero_le _

end Observed

/-- A stream opened by the peer's SYN-ACK holds, in every state that an honest peer
and the owner's calls can lead to, a part of the peer's stream, and all of it once
the peer's end is reported. -/
theorem received_run {endpoints : TunnelTCPEndpoints} {mtu : ℕ} {i : BitVec 32}
    (hinit : init endpoints mtu i = some s) {opening : List (Call T)}
    (hopening : ((Observed.start s).run opening).tcp.state = .synSent) {bytes : List UInt8}
    {seg : TunnelTCPSegment}
    (hdecode : TunnelTCPCodec.decode bytes ((Observed.start s).run opening).tcp.endpoints
      ((Observed.start s).run opening).tcp.mtu = some seg) {now : T}
    (hestablished : (((Observed.start s).run opening).step (.receive bytes now)).tcp.state =
      .established) {S : List UInt8} {ended : Bool} {calls : List (Call T)}
    (hhonest : Observed.HonestRun S ended seg.sequence
      (((Observed.start s).run opening).step (.receive bytes now)) calls) :
    Observed.Received S ended seg.sequence
      ((((Observed.start s).run opening).step (.receive bytes now)).run calls) := by
  have hstart : (Observed.start s).Unopened := by
    unfold init at hinit
    split at hinit
    · split at hinit
      · rw [Option.some.injEq] at hinit
        rw [← hinit]
        exact ⟨.inl rfl, rfl, rfl, rfl⟩
      · cases hinit
    · cases hinit
  have hunopened : ((Observed.start s).run opening).Unopened := by
    rcases Observed.opened_or_unopened (.inr hstart) opening with h | h
    · exact absurd hopening h.synSent
    · exact h
  obtain ⟨halive, hreceived, hcloses⟩ := hunopened.establish hopening hdecode hestablished
  refine Observed.Holds.received (Observed.Holds.run ⟨.inl halive, ?_, ?_⟩ hhonest)
  · rw [hreceived]
    exact List.nil_prefix
  · intro hone
    rw [hcloses] at hone
    cases hone

end

def fixtureStream : TunnelTCP ℕ :=
  (init fixtureEndpoints 16000 100 : Option (TunnelTCP ℕ)).get (by decide)

/-- It after the SYN-ACK of a peer that starts at 1000, with the window it offers. -/
def fixtureOpened (window : BitVec 16) : Observed ℕ :=
  ((Observed.start fixtureStream).run [.connect 0]).step
    (.receive (incoming 1000 101 18 window [] (some 1220)) 0)

/-- Two bytes and the peer's end arrive in one packet, and one byte is read. -/
theorem received_run_fixture :
    Observed.HonestRun [7, 8] true 1000 (fixtureOpened 32768)
      [.receive (incoming 1001 101 17 32768 [7, 8] none) 1, .read 1] ∧
    Observed.Received [7, 8] true 1000
      ((fixtureOpened 32768).run
        [.receive (incoming 1001 101 17 32768 [7, 8] none) 1, .read 1]) := by
  have hhonest : Observed.HonestRun [7, 8] true 1000 (fixtureOpened 32768)
      [.receive (incoming 1001 101 17 32768 [7, 8] none) 1, .read 1] := by
    refine ⟨?_, trivial, trivial⟩
    intro seg hseg
    have hpacket : TunnelTCPCodec.decode (incoming 1001 101 17 32768 [7, 8] none)
        fixtureEndpoints 16000 = some ⟨1001, 101, 17, 32768, [7, 8], none⟩ := by
      decide
    have hsame := hpacket.symm.trans hseg
    rw [Option.some.injEq] at hsame
    rw [← hsame]
    refine ⟨0, rfl, by decide, ?_, fun _ => ⟨rfl, rfl⟩⟩
    intro j b hj
    refine ⟨by omega, ?_⟩
    rw [show (0 + (j : ℤ)).toNat = j by omega]
    exact hj
  have hinit : init fixtureEndpoints 16000 100 = some fixtureStream := rfl
  have hdecode : TunnelTCPCodec.decode (incoming 1000 101 18 32768 [] (some 1220))
      ((Observed.start fixtureStream).run [.connect 0]).tcp.endpoints
      ((Observed.start fixtureStream).run [.connect 0]).tcp.mtu =
        some ⟨1000, 101, 18, 32768, [], some 1220⟩ := by
    decide
  refine ⟨hhonest, ?_⟩
  exact received_run hinit (by decide) hdecode (by decide) hhonest

/-- A connection that fails drops the bytes it holds but keeps its place in the
peer's stream: with a closed window the time to send one byte runs out after one
byte was received. -/
theorem received_run_failed :
    (fixtureOpened 0).tcp.state = .established ∧
    Observed.HonestRun [7] false 1000 (fixtureOpened 0)
      [.receive (incoming 1001 101 16 0 [7] none) 1, .write [1] 1, .tick 31] ∧
    ((fixtureOpened 0).run
      [.receive (incoming 1001 101 16 0 [7] none) 1, .write [1] 1, .tick 31]).tcp.receiveNext ≠
      1000 + 1 + BitVec.ofNat 32
        (((fixtureOpened 0).run
          [.receive (incoming 1001 101 16 0 [7] none) 1, .write [1] 1, .tick 31]).received.length +
        ((fixtureOpened 0).run
          [.receive (incoming 1001 101 16 0 [7] none) 1, .write [1] 1, .tick 31]).peerCloses) := by
  refine ⟨by decide, ⟨?_, trivial, trivial, trivial⟩, by decide⟩
  intro seg hseg
  have hpacket : TunnelTCPCodec.decode (incoming 1001 101 16 0 [7] none)
      fixtureEndpoints 16000 = some ⟨1001, 101, 16, 0, [7], none⟩ := by
    decide
  have hsame := hpacket.symm.trans hseg
  rw [Option.some.injEq] at hsame
  rw [← hsame]
  refine ⟨0, rfl, by decide, ?_, ?_⟩
  · intro j b hj
    refine ⟨by omega, ?_⟩
    rw [show (0 + (j : ℤ)).toNat = j by omega]
    exact hj
  · intro hfin
    exact absurd hfin (by decide)

end TunnelTCP

end Tolkara
