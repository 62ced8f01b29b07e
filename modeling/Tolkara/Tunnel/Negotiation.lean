import Tolkara.Tunnel.TCP

/-!
# The segment size that was negotiated

The packet that opens the connection says how much data its sender takes in one segment. It is
the only one that counts: no other call touches the size.
-/

namespace Tolkara

namespace TunnelTCP

variable {T : Type} [Clock T] {s : TunnelTCP T}

/-- The size that the answer to the SYN fixes: what it offers, or 1220, within the MTU. -/
def negotiatedMSS (mtu : ℕ) (answer : TunnelTCPSegment) : ℕ :=
  min ((answer.mss.map BitVec.toNat).getD 1220) (mtu - 60)

/-- Of some calls of a stream, one received the segment that opened the connection. -/
def Opened (s : TunnelTCP T) (calls : List (Call T)) (answer : TunnelTCPSegment) : Prop :=
  ∃ before bytes now after, calls = before ++ .receive bytes now :: after ∧
    TunnelTCPCodec.decode bytes s.endpoints s.mtu = some answer ∧
    ((Observed.start s).run before).tcp.state = .synSent ∧
    ((Observed.start s).run (before ++ [.receive bytes now])).tcp.state = .established

/-! ## What leaves the size alone -/

theorem sendMSS_flush (s : TunnelTCP T) (now : T) : (s.flush now).1.sendMSS = s.sendMSS := by
  unfold flush awaitWindow
  dsimp only
  split_ifs <;> rfl

omit [Clock T] in
theorem sendMSS_updateWindow (s : TunnelTCP T) (seg : TunnelTCPSegment) :
    (s.updateWindow seg).sendMSS = s.sendMSS := by
  unfold updateWindow
  split_ifs <;> rfl

theorem sendMSS_retire (s : TunnelTCP T) (acknowledgement : BitVec 32) (now : T) :
    (s.retire acknowledgement now).sendMSS = s.sendMSS := by
  unfold retire
  split <;> rfl

theorem sendMSS_advanceClose (s : TunnelTCP T) (now : T) :
    (s.advanceClose now).1.sendMSS = s.sendMSS := by
  unfold advanceClose
  split_ifs <;> rfl

theorem sendMSS_acknowledge (s : TunnelTCP T) (seg : TunnelTCPSegment) (now : T) :
    (s.acknowledge seg now).1.sendMSS = s.sendMSS := by
  unfold acknowledge
  dsimp only
  split_ifs
  · rfl
  · rw [sendMSS_advanceClose, sendMSS_retire, sendMSS_updateWindow]
  · exact sendMSS_updateWindow s seg

theorem sendMSS_takeSegment (s : TunnelTCP T) (seg : TunnelTCPSegment) (now : T) :
    (s.takeSegment seg now).1.sendMSS = s.sendMSS := by
  unfold takeSegment takeFin takeData
  dsimp only
  rw [sendMSS_flush]
  split_ifs <;> rfl

theorem sendMSS_receiveOpen (s : TunnelTCP T) (seg : TunnelTCPSegment) (now : T) :
    (s.receiveOpen seg now).1.sendMSS = s.sendMSS := by
  have hack := sendMSS_acknowledge s seg now
  unfold receiveOpen
  dsimp only
  split_ifs
  · rfl
  · rfl
  · exact hack
  · exact (sendMSS_flush _ _).trans hack
  · exact (sendMSS_flush _ _).trans hack
  · exact (sendMSS_flush _ _).trans hack
  · exact (sendMSS_takeSegment _ _ _).trans hack

/-- A segment on an open connection. -/
theorem sendMSS_receive (h : s.state ≠ .synSent) (bytes : List UInt8) (now : T) :
    (s.receive bytes now).1.sendMSS = s.sendMSS := by
  unfold receive
  split
  · rfl
  · split
    · rfl
    · unfold receiveSegment
      rw [if_neg h]
      split_ifs
      · rfl
      · rfl
      · rfl
      · rfl
      · rfl
      · rfl
      · rfl
      · exact sendMSS_receiveOpen s _ now

theorem probe_fixed (s : TunnelTCP T) (now : T) :
    (s.probe now).1.sendMSS = s.sendMSS ∧
      ((s.probe now).1.state = s.state ∨ (s.probe now).1.state = .failed) := by
  unfold probe
  split
  · exact ⟨rfl, .inl rfl⟩
  · split_ifs
    · exact ⟨rfl, .inr rfl⟩
    · exact ⟨rfl, .inl rfl⟩
    · exact ⟨rfl, .inl rfl⟩

/-- A timer ends the stream or leaves its state as it is. -/
theorem tick_fixed (s : TunnelTCP T) (now : T) :
    (s.tick now).1.sendMSS = s.sendMSS ∧
      ((s.tick now).1.state = s.state ∨ (s.tick now).1.state = .failed ∨
        (s.tick now).1.state = .closed) := by
  have hprobe := probe_fixed s now
  unfold tick
  split
  · exact ⟨rfl, .inl rfl⟩
  · split
    · split
      · exact ⟨rfl, .inr (.inr rfl)⟩
      · exact ⟨rfl, .inr (.inl rfl)⟩
    · split
      · exact ⟨hprobe.1, hprobe.2.imp_right .inl⟩
      · split
        · unfold retransmit
          split
          · exact ⟨rfl, .inr (.inl rfl)⟩
          · exact ⟨rfl, .inl rfl⟩
        · exact ⟨hprobe.1, hprobe.2.imp_right .inl⟩

omit [Clock T] in
theorem read_fixed (s : TunnelTCP T) (maximum : ℕ) :
    (s.read maximum).2.1.sendMSS = s.sendMSS ∧ (s.read maximum).2.1.state = s.state := by
  unfold read
  dsimp only
  split_ifs <;> exact ⟨rfl, rfl⟩

omit [Clock T] in
theorem abort_fixed (s : TunnelTCP T) :
    s.abort.1.sendMSS = s.sendMSS ∧ (s.abort.1.state = s.state ∨ s.abort.1.state = .closed) := by
  unfold abort
  split
  · exact ⟨rfl, .inl rfl⟩
  · exact ⟨rfl, .inr rfl⟩

/-- Outside of the opening no call changes the size. -/
theorem sendMSS_perform (h : s.state ≠ .synSent) (call : Call T) :
    (s.perform call).1.sendMSS = s.sendMSS := by
  cases call with
  | connect now =>
      simp only [perform, connect]
      split_ifs <;> rfl
  | write data now =>
      simp only [perform]
      unfold write
      split
      · rfl
      · split
        · rfl
        · exact sendMSS_flush _ now
  | shutdownWrite now =>
      simp only [perform, shutdownWrite]
      split_ifs
      · exact sendMSS_flush _ now
      · rfl
  | receive bytes now => exact sendMSS_receive h bytes now
  | read maximum => exact (read_fixed s maximum).1
  | tick now => exact (tick_fixed s now).1
  | abort => exact (abort_fixed s).1

/-! ## What opens the connection -/

/-- The segment that opens the connection fixes the size. -/
theorem receive_opens (hopening : s.state = .synSent) {bytes : List UInt8} {now : T}
    (h : (s.receive bytes now).1.state = .established) :
    ∃ answer, TunnelTCPCodec.decode bytes s.endpoints s.mtu = some answer ∧
      (s.receive bytes now).1.sendMSS = negotiatedMSS s.mtu answer := by
  unfold receive at h ⊢
  split at h
  · rw [hopening] at h
    cases h
  · rename_i hguard
    rw [if_neg hguard]
    cases hdecode : TunnelTCPCodec.decode bytes s.endpoints s.mtu with
    | none =>
        rw [hdecode] at h
        rw [hopening] at h
        cases h
    | some seg =>
        rw [hdecode] at h
        dsimp only at h ⊢
        refine ⟨seg, rfl, ?_⟩
        unfold receiveSegment receiveSynSent at h ⊢
        rw [if_pos hopening] at h ⊢
        dsimp only at h ⊢
        split at h
        · split at h
          · cases h
          · rw [hopening] at h
            cases h
        · rename_i hreset
          rw [if_neg hreset]
          split at h
          · rw [hopening] at h
            cases h
          · rename_i hanswer
            rw [if_neg hanswer]
            rfl

/-- A state before the connection is open, or after it never was. -/
def Unopened (state : State) : Prop :=
  state = .idle ∨ state = .synSent ∨ state = .closed ∨ state = .failed

theorem receive_unopened (hbefore : s.state = .idle ∨ s.state = .synSent) (bytes : List UInt8)
    (now : T) : Unopened (s.receive bytes now).1.state ∨
      s.state = .synSent ∧ (s.receive bytes now).1.state = .established := by
  have hsame : Unopened s.state := hbefore.imp_right .inl
  unfold receive
  split
  · exact .inl hsame
  · rename_i hguard
    have hopening : s.state = .synSent := hbefore.resolve_left (not_not.1 hguard).2.1
    split
    · exact .inl hsame
    · unfold receiveSegment receiveSynSent
      rw [if_pos hopening]
      dsimp only
      split
      · split
        · exact .inl (.inr (.inr (.inr rfl)))
        · exact .inl hsame
      · split
        · exact .inl hsame
        · exact .inr ⟨hopening, rfl⟩

/-- Before the connection is open only a segment that answers the SYN opens it. -/
theorem perform_opens (hbefore : s.state = .idle ∨ s.state = .synSent) (call : Call T) :
    Unopened (s.perform call).1.state ∨ s.state = .synSent ∧
      (s.perform call).1.state = .established ∧ ∃ bytes now, call = .receive bytes now := by
  have hsame : Unopened s.state := hbefore.imp_right .inl
  have hclosed : ¬ (s.state = .established ∨ s.state = .closeWait) := by
    rcases hbefore with h | h <;> simp [h]
  cases call with
  | connect now =>
      left
      simp only [perform, connect]
      split
      · exact .inr (.inl rfl)
      · exact hsame
  | write data now =>
      left
      simp only [perform, write, hclosed, false_and, not_false_eq_true, if_true]
      exact hsame
  | shutdownWrite now =>
      left
      simp only [perform, shutdownWrite, hclosed, false_and, if_false]
      exact hsame
  | receive bytes now =>
      rcases receive_unopened hbefore bytes now with h | ⟨hopening, h⟩
      · exact .inl h
      · exact .inr ⟨hopening, h, bytes, now, rfl⟩
  | read maximum =>
      left
      rw [perform, (read_fixed s maximum).2]
      exact hsame
  | tick now =>
      left
      rw [perform]
      rcases (tick_fixed s now).2 with h | h | h
      · rw [h]
        exact hsame
      · exact .inr (.inr (.inr h))
      · exact .inr (.inr (.inl h))
  | abort =>
      left
      rw [perform]
      rcases (abort_fixed s).2 with h | h
      · rw [h]
        exact hsame
      · exact .inr (.inr (.inl h))

end TunnelTCP

end Tolkara
