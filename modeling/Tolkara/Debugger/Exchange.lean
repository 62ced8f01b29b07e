import Tolkara.Debugger.Conduct
import Tolkara.Debugger.Packets

/-!
# Answers that come whole

A server that encodes an answer and sends it in one piece is understood: the session takes
exactly that text for the answer to its oldest command (`Awaiting.receive_packets`).
-/

namespace Tolkara

open Library

namespace DebugWire

variable {p : DWParser} {b : UInt8}

theorem dwFeed_capacity (p : DWParser) (b : UInt8) : (dwFeed p b).1.capacity = p.capacity := by
  have happend (q : DWParser) (x : UInt8) : (q.append x).1.capacity = q.capacity := by
    rw [DWParser.append]
    split_ifs
    · rfl
    · rfl
  unfold dwFeed
  split
  · split_ifs <;> rfl
  · split_ifs
    · rfl
    · rfl
    · rfl
    · rfl
    · exact happend _ _
  · exact happend _ _
  · dsimp only
    split_ifs <;> rfl
  · split <;> rfl
  · split
    · rfl
    · dsimp only
      split_ifs <;> rfl

/-- After a packet the parser looks for the next. -/
theorem seek_of_packet (h : (dwFeed p b).2 = .packet) : (dwFeed p b).1.state = .seek := by
  rw [feed_checkLow (state_of_packet h)]
  split
  · rfl
  · split_ifs <;> rfl

theorem length_itemBytes_le (payload : List UInt8) :
    (itemBytes (payload.map itemOf)).length ≤ 2 * payload.length := by
  induction payload with
  | nil => exact le_rfl
  | cons b payload ih =>
      have hitem : (itemOf b).bytes.length ≤ 2 := by
        rw [itemOf]
        split_ifs
        · exact le_rfl
        · exact Nat.le_succ 1
      rw [List.map_cons, itemBytes_cons, List.length_append, List.length_cons]
      omega

theorem dwNeeded_isSome {capacity needed : ℕ} {payload : List UInt8}
    (h : needed + payload.length ≤ capacity) : (dwNeeded capacity payload needed).isSome := by
  induction payload generalizing needed with
  | nil => rfl
  | cons b payload ih =>
      rw [List.length_cons] at h
      rw [dwNeeded]
      split_ifs with hescape hfull
      · omega
      · exact ih (by omega)
      · exact ih (by omega)

end DebugWire

namespace DebugProtocolWire

open DebugWire

/-- A text as it is sent; nothing where it is too long for a packet. -/
def packets (text : Text) : List UInt8 := (encode text).toOption.getD []

theorem encode_eq {text : Text} (h : text.length ≤ capacity) :
    encode text = .ok (packets text) := by
  have hroom : (dwNeeded (text.length * 2 + 4) text (text.length + 4)).isSome :=
    dwNeeded_isSome (by omega)
  obtain ⟨needed, hneeded⟩ := Option.isSome_iff_exists.1 hroom
  have hencoded : ∃ bytes, dwEncode text (some (text.length * 2 + 4)) = some bytes := by
    rw [dwEncode, if_neg (by omega), hneeded]
    exact ⟨_, rfl⟩
  obtain ⟨bytes, hbytes⟩ := hencoded
  rw [packets, encode, if_neg (not_lt.2 h), hbytes]
  rfl

/-- What fits into the buffer is encoded as a frame. -/
theorem packets_eq_frame {text : Text} (h : text.length ≤ capacity) :
    ∃ high low, packets text = frame (text.map itemOf) high low ∧
      IsChecksum high low (byteSum (itemBytes (text.map itemOf)) % 256) := by
  have hencode := encode_eq h
  rw [encode, if_neg (not_lt.2 h), obtained_ok] at hencode
  exact dwEncode_eq_some hencode

theorem length_packets_le {text : Text} (h : text.length ≤ capacity) :
    (packets text).length ≤ 2 * text.length + 4 := by
  obtain ⟨high, low, hframe, -⟩ := packets_eq_frame h
  have hitems := length_itemBytes_le text
  rw [hframe, frame]
  simp only [List.length_append, List.length_cons, List.length_nil]
  omega

/-- The bytes of a text are swallowed up to the last, which gives the packet. -/
theorem feed_packets {parser : DWParser} {text : Text} (hseek : parser.state = .seek)
    (hcapacity : parser.capacity = capacity) (h : text.length ≤ capacity) :
    ∃ body last, packets text = body ++ [last] ∧
      (∀ e ∈ (respond dwFeed parser body).2, e = .more) ∧
      (dwFeed (respond dwFeed parser body).1 last).2 = .packet ∧
      (dwFeed (respond dwFeed parser body).1 last).1.payload = text := by
  obtain ⟨high, low, hframe, hsum⟩ := packets_eq_frame h
  have hexpand := expand_itemOf [] text
  rw [List.nil_append] at hexpand
  obtain ⟨hpayload, hanswers⟩ := respond_frame hseek (wellFormed_itemOf [] text) hsum
    (by rw [hexpand, hcapacity]; exact h)
  have hbytes : frame (text.map itemOf) high low =
      ([36] ++ itemBytes (text.map itemOf) ++ [35, high]) ++ [low] := by
    rw [frame, List.append_assoc _ [35, high]]
    rfl
  generalize hbody : [36] ++ itemBytes (text.map itemOf) ++ [35, high] = body at hbytes
  rw [hbytes, respond_append, respond_singleton] at hpayload hanswers
  dsimp only at hpayload hanswers
  rw [packetAnswers, List.length_append, List.length_singleton, Nat.add_sub_cancel] at hanswers
  obtain ⟨hmore, hlast⟩ := List.append_inj' hanswers rfl
  refine ⟨body, low, hframe.trans hbytes, fun e he => ?_, List.singleton_inj.1 hlast,
    hpayload.trans hexpand⟩
  rw [hmore] at he
  exact List.eq_of_mem_replicate he

end DebugProtocolWire

namespace DebugArenaSession

variable {T : Type} [Clock T] {s : DebugArenaSession T} {now : T} {text : Text}

/-- A text that is neither console output nor an error and fits into one call. -/
structure Answerable (text : Text) : Prop where
  short : text.length < 32766
  seven : ∀ b ∈ text, b < 128
  noConsole : ¬ (ascii "O" <+: text ∧ text ≠ ascii "OK")
  noError : ¬ ascii "E" <+: text

theorem Answerable.le_capacity (h : Answerable text) :
    text.length ≤ DebugProtocolWire.capacity := by
  have hshort := h.short
  rw [DebugProtocolWire.capacity]
  omega

/-- A session that waits for an answer and has received nothing of it. -/
structure Awaiting (s : DebugArenaSession T) (now : T) : Prop where
  going : ¬ (s.terminal = true ∨ s.phase = .idle)
  outstanding : 0 < s.outstanding
  acknowledged : s.acknowledged = s.noAck
  seek : s.wire.state = .seek
  capacity : s.wire.capacity = DebugProtocolWire.capacity
  onTime : Clock.isFinite now ∧ Clock.ge now s.lastTime
  early : ¬ (Clock.ge now s.commandDeadline ∨ Clock.ge now s.totalDeadline)

/-- What the server puts in front of an answer while it acknowledges commands. -/
def acknowledgement (s : DebugArenaSession T) : List UInt8 := if s.noAck = true then [] else [43]

/-- The session once the answer has come and `wire` has read it. -/
def answeredBy (s : DebugArenaSession T) (now : T) (wire : DebugWire.DWParser) :
    DebugArenaSession T :=
  { s with
    lastTime := now
    acknowledged := true
    wire := wire
    outstanding := s.outstanding - 1 }

omit [Clock T] in
theorem run_current : (Attempt.current : Call T (DebugArenaSession T)) s = (.ok s, s) := rfl

omit [Clock T] in
theorem run_change {f : DebugArenaSession T → DebugArenaSession T} :
    (Attempt.change f : Call T Unit) s = (.ok (), f s) := rfl

theorem takeByte_more {answerable : ℕ} {b : UInt8} (hpos : 0 < answerable)
    (h : (DebugWire.dwFeed s.wire b).2 = .more) :
    takeByte now answerable b s =
      (.ok (answerable, []), { s with wire := (DebugWire.dwFeed s.wire b).1 }) := by
  have hfeed : feed b s = (.ok none, { s with wire := (DebugWire.dwFeed s.wire b).1 }) := by
    simp only [feed, DebugProtocolWire.feed, h]
    rfl
  rw [takeByte, Attempt.run_bind (Attempt.run_check hpos), Attempt.run_bind hfeed]
  rfl

theorem takeByte_packet {answerable : ℕ} {b : UInt8} (hpos : 0 < answerable)
    (h : (DebugWire.dwFeed s.wire b).2 = .packet) :
    takeByte now answerable b s =
      packet now answerable (DebugWire.dwFeed s.wire b).1.payload
        { s with wire := (DebugWire.dwFeed s.wire b).1 } := by
  have hfeed : feed b s = (.ok (some (.packet (DebugWire.dwFeed s.wire b).1.payload)),
      { s with wire := (DebugWire.dwFeed s.wire b).1 }) := by
    simp only [feed, DebugProtocolWire.feed, h]
    rfl
  rw [takeByte, Attempt.run_bind (Attempt.run_check hpos), Attempt.run_bind hfeed]
  rfl

theorem takeByte_ack {answerable : ℕ} (hpos : 0 < answerable) (hseek : s.wire.state = .seek)
    (hnoAck : s.noAck = false) (hack : s.acknowledged = false) :
    takeByte now answerable 43 s = (.ok (answerable, []), { s with acknowledged := true }) := by
  have hwire : DebugWire.dwFeed s.wire 43 = (s.wire, .ack) := by
    simp only [DebugWire.dwFeed, hseek]
    rfl
  have hfeed : feed 43 s = (.ok (some .ack), s) := by
    simp only [feed, DebugProtocolWire.feed, hwire]
    rfl
  rw [takeByte, Attempt.run_bind (Attempt.run_check hpos), Attempt.run_bind hfeed,
    Attempt.run_bind run_current]
  dsimp only
  rw [Attempt.run_bind (Attempt.run_check ⟨hnoAck, hack⟩)]
  rfl

theorem takeAll_silent {answerable answerable' : ℕ} {b : UInt8} {rest : List UInt8}
    {s' : DebugArenaSession T} (h : takeByte now answerable b s = (.ok (answerable', []), s')) :
    takeAll now answerable (b :: rest) s = takeAll now answerable' rest s' := by
  rw [takeAll, Attempt.run_bind h]
  change Attempt.andThen _ _ _ = _
  unfold Attempt.andThen
  split
  · rename_i hrun
    rw [hrun]
    rfl
  · rename_i hrun
    exact hrun.symm

/-- Bytes that are all swallowed only move the parser. -/
theorem takeAll_more {answerable : ℕ} {body rest : List UInt8} (hpos : 0 < answerable)
    (h : ∀ e ∈ (respond DebugWire.dwFeed s.wire body).2, e = .more) :
    takeAll now answerable (body ++ rest) s =
      takeAll now answerable rest { s with wire := (respond DebugWire.dwFeed s.wire body).1 } := by
  induction body generalizing s with
  | nil => rfl
  | cons b body ih =>
      rw [respond_cons, List.forall_mem_cons] at h
      rw [List.cons_append, takeAll_silent (takeByte_more hpos h.1), respond_cons]
      exact ih h.2

theorem packet_answer {answerable : ℕ} {acts : List Act} {s' : DebugArenaSession T}
    (h : Answerable text) (hack : s.acknowledged = true)
    (hreply : reply text now { s with outstanding := s.outstanding - 1 } = (.ok acts, s')) :
    packet now answerable text s =
      (.ok (answerable - 1,
        (if s.noAck = true then [] else [.control 43]) ++ .answered text :: acts), s') := by
  have hrescued : (reply text now).rescue (replyFailed now)
      { s with outstanding := s.outstanding - 1 } = (.ok acts, s') := by
    rw [Attempt.rescue, hreply]
  rw [packet, Attempt.run_bind (Attempt.run_check h.seven), Attempt.run_bind run_current,
    if_neg h.noConsole, Attempt.run_bind (Attempt.run_check hack), Attempt.run_bind run_change,
    Attempt.run_bind hrescued]
  rfl

/-- A whole text is answered like the packet it is. -/
theorem takeAll_packets {answerable : ℕ} {acts : List Act} {P : DebugArenaSession T → Prop}
    (htext : Answerable text) (hpos : 0 < answerable) (hseek : s.wire.state = .seek)
    (hcapacity : s.wire.capacity = DebugProtocolWire.capacity) (hack : s.acknowledged = true)
    (hreply : ∀ wire : DebugWire.DWParser, wire.state = .seek →
      wire.capacity = DebugProtocolWire.capacity → ∃ s', P s' ∧
        reply text now { s with wire := wire, outstanding := s.outstanding - 1 } =
          (.ok acts, s')) :
    ∃ s', P s' ∧ takeAll now answerable (DebugProtocolWire.packets text) s =
      (.ok ((if s.noAck = true then [] else [.control 43]) ++ .answered text :: acts), s') := by
  obtain ⟨body, last, hpackets, hmore, hpacket, hpayload⟩ :=
    DebugProtocolWire.feed_packets hseek hcapacity htext.le_capacity
  have hbefore := (respond_keeps (P := fun q => q.capacity = DebugProtocolWire.capacity)
    (Q := fun _ => True) (l := body)
    (fun q hq b _ => ⟨(DebugWire.dwFeed_capacity q b).trans hq, trivial⟩) hcapacity).1
  have hmoved : takeAll now answerable (body ++ [last]) s = _ := takeAll_more hpos hmore
  rw [← hpackets] at hmoved
  generalize respond DebugWire.dwFeed s.wire body = fed at *
  obtain ⟨s', hs', hrun⟩ := hreply _ (DebugWire.seek_of_packet hpacket)
    ((DebugWire.dwFeed_capacity _ last).trans hbefore)
  refine ⟨s', hs', ?_⟩
  have hanswer : packet now answerable text { s with wire := (DebugWire.dwFeed fed.1 last).1 } =
      _ :=
    packet_answer htext hack hrun
  have hlast : takeByte now answerable last { s with wire := fed.1 } = _ :=
    takeByte_packet hpos hpacket
  dsimp only at hlast
  rw [hpayload, hanswer] at hlast
  rw [hmoved, takeAll, Attempt.run_bind hlast]
  simp only [takeAll]
  exact congrArg (fun acts => (Except.ok acts, s')) (List.append_nil _)

/-- What the server puts in front of an answer is taken in silence. -/
theorem Awaiting.takeAll_acknowledged (h : Awaiting s now) (rest : List UInt8) :
    takeAll now s.outstanding (s.acknowledgement ++ rest) { s with lastTime := now } =
      takeAll now s.outstanding rest { s with lastTime := now, acknowledged := true } := by
  by_cases hnoAck : s.noAck = true
  · have hsame : { s with lastTime := now } = { s with lastTime := now, acknowledged := true } :=
      congrArg (fun acknowledged => { s with lastTime := now, acknowledged := acknowledged })
        (h.acknowledged.trans hnoAck)
    rw [acknowledgement, if_pos hnoAck, hsame]
    rfl
  · have hfalse : s.noAck = false := Bool.eq_false_iff.2 hnoAck
    have hplus : takeByte now s.outstanding 43 { s with lastTime := now } = _ :=
      takeByte_ack h.outstanding h.seek hfalse (h.acknowledged.trans hfalse)
    rw [acknowledgement, if_neg hnoAck, List.singleton_append, takeAll_silent hplus]

theorem time_eq (h : Clock.isFinite now ∧ Clock.ge now s.lastTime) :
    time now s = (.ok (), { s with lastTime := now }) := by
  have hlast : (Attempt.observe (·.lastTime) : Call T T) s = (.ok s.lastTime, s) := rfl
  rw [time, Attempt.run_bind hlast, Attempt.run_bind (Attempt.run_check h)]
  rfl

theorem Awaiting.receive_eq (h : Awaiting s now) {bytes : List UInt8} {acts : List Act}
    {s' : DebugArenaSession T} (hsize : bytes.length ≤ 65536)
    (htaken : takeAll now s.outstanding bytes { s with lastTime := now } = (.ok acts, s')) :
    receive bytes now s = (.ok acts, s') := by
  have hbody : receiveBody bytes now s = (.ok acts, s') := by
    rw [receiveBody, Attempt.run_bind (time_eq h.onTime), Attempt.run_bind run_current, if_neg h.early,
      Attempt.run_bind (Attempt.run_check hsize)]
    exact htaken
  rw [receive, Attempt.run_bind run_current, if_neg h.going, Attempt.rescue, hbody]

theorem Awaiting.receive_packets {acts : List Act} {P : DebugArenaSession T → Prop}
    (h : Awaiting s now) (htext : Answerable text)
    (hreply : ∀ wire : DebugWire.DWParser, wire.state = .seek →
      wire.capacity = DebugProtocolWire.capacity → ∃ s', P s' ∧
        reply text now (s.answeredBy now wire) = (.ok acts, s')) :
    ∃ s', P s' ∧ receive (s.acknowledgement ++ DebugProtocolWire.packets text) now s =
      (.ok ((if s.noAck = true then [] else [.control 43]) ++ .answered text :: acts), s') := by
  obtain ⟨s', hs', hrun⟩ := takeAll_packets
    (s := { s with lastTime := now, acknowledged := true }) htext h.outstanding h.seek h.capacity
    rfl hreply
  refine ⟨s', hs', h.receive_eq ?_ ((h.takeAll_acknowledged _).trans hrun)⟩
  have hone : s.acknowledgement.length ≤ 1 := by
    unfold acknowledgement
    split_ifs
    · exact Nat.zero_le 1
    · exact le_rfl
  have hbytes := DebugProtocolWire.length_packets_le htext.le_capacity
  have hshort := htext.short
  rw [List.length_append]
  omega

/-! ## What is sent next -/

theorem encodeAll_packets {packetSize : ℕ} {texts : List Text}
    (h : ∀ text ∈ texts, text.length ≤ packetSize ∧ text.length ≤ DebugProtocolWire.capacity) :
    encodeAll packetSize texts = .ok (texts.flatMap DebugProtocolWire.packets) := by
  induction texts with
  | nil => rfl
  | cons text texts ih =>
      rw [List.forall_mem_cons] at h
      obtain ⟨⟨hsize, hcapacity⟩, hrest⟩ := h
      have hencode := DebugProtocolWire.encode_eq hcapacity
      rw [encodeAll, bind_ok]
      exact ⟨(), need_ok.2 hsize,
        bind_ok.2 ⟨_, mapError_ok.2 hencode, bind_ok.2 ⟨_, ih hrest, rfl⟩⟩⟩

theorem send_eq {texts : List Text} {phase : Phase} (hnone : s.outstanding = 0)
    (hone : texts ≠ [] ∧ (s.noAck = true ∨ texts.length = 1))
    (h : ∀ text ∈ texts, text.length ≤ s.packetSize ∧ text.length ≤ DebugProtocolWire.capacity) :
    send texts phase now s =
      (.ok [.sent texts (texts.flatMap DebugProtocolWire.packets)],
        sending s texts (texts.flatMap DebugProtocolWire.packets) phase now) := by
  rw [send, Attempt.run_bind run_current, Attempt.run_bind (Attempt.run_check ⟨hnone, hone⟩),
    Attempt.run_bind (Attempt.run_lift (encodeAll_packets h))]
  rfl

theorem command_eq (text : Text) {phase : Phase} (packetSize : ℕ) (hnone : s.outstanding = 0)
    (hpacketSize : s.packetSize = packetSize)
    (h : text.length ≤ packetSize ∧ text.length ≤ DebugProtocolWire.capacity) :
    command text phase now s =
      (.ok [.sent [text] (DebugProtocolWire.packets text)],
        sending s [text] (DebugProtocolWire.packets text) phase now) := by
  have hsend : send [text] phase now s = _ := send_eq hnone ⟨List.cons_ne_nil text [], .inr rfl⟩
    (List.forall_mem_singleton.2 (by rwa [hpacketSize]))
  rw [List.flatMap_singleton] at hsend
  exact hsend

theorem preflightBatch_eq (batch : List (Text × Reply)) (offset : ℕ)
    (hloop : preflightLoop s.range s.chunk readsPerBatch s.offset [] = (batch, offset))
    (hnone : s.outstanding = 0) (hone : batch.map (·.1) ≠ [] ∧ s.noAck = true)
    (h : ∀ text ∈ batch.map (·.1), text.length ≤ s.packetSize ∧
      text.length ≤ DebugProtocolWire.capacity) :
    preflightBatch now s =
      (.ok [.sent (batch.map (·.1)) ((batch.map (·.1)).flatMap DebugProtocolWire.packets)],
        sending { s with replies := batch.map (·.2), replied := 0, offset := offset }
          (batch.map (·.1)) ((batch.map (·.1)).flatMap DebugProtocolWire.packets) .preflight
          now) := by
  rw [preflightBatch, Attempt.run_bind run_current, hloop]
  dsimp only
  rw [Attempt.run_bind run_change]
  exact send_eq hnone ⟨hone.1, .inl hone.2⟩ h

theorem prepareBatch_eq (batch : List (Text × Reply)) (place : ℕ × ℕ)
    (hloop : prepareLoop s.request.regions pagesPerBatch (s.index, s.offset) [] = (batch, place))
    (hnone : s.outstanding = 0) (hone : batch.map (·.1) ≠ [] ∧ s.noAck = true)
    (h : ∀ text ∈ batch.map (·.1), text.length ≤ s.packetSize ∧
      text.length ≤ DebugProtocolWire.capacity) :
    prepareBatch now s =
      (.ok [.sent (batch.map (·.1)) ((batch.map (·.1)).flatMap DebugProtocolWire.packets)],
        sending
          { s with
            replies := batch.map (·.2)
            replied := 0
            index := place.1
            offset := place.2 }
          (batch.map (·.1)) ((batch.map (·.1)).flatMap DebugProtocolWire.packets) .prepare
          now) := by
  rw [prepareBatch, Attempt.run_bind run_current, hloop]
  dsimp only
  rw [Attempt.run_bind run_change]
  exact send_eq hnone ⟨hone.1, .inl hone.2⟩ h

/-! ## What a taken answer leads to -/

/-- What an answer is taken for while nothing has gone wrong. -/
theorem reply_eq (phase : Phase) (hphase : s.phase = phase) (hdraining : phase ≠ .draining)
    (htext : Answerable text) :
    reply text now s =
      (match phase with
        | .supported => supportedReply text now
        | .noAck => noAckReply text now
        | .detachPolicy => detachPolicyReply text now
        | .attach => attachReply text now
        | .process | .finalProcess => processReply text now
        | .challenge | .finalChallenge => challengeReply text now
        | .region => regionReply text now
        | .preflight | .prepare => batchReply text now
        | .detach | .cleanup => detachReply text
        | _ => .lift (.error .protocolFailure)) s := by
  rw [reply, Attempt.run_bind run_current, hphase, if_neg hdraining]
  exact Attempt.run_bind (Attempt.run_check htext.noError)

theorem supportedReply_eq (digits : Text) (maximum : ℕ)
    (hsplit : DebugProtocolWire.split 59 text = [ascii "PacketSize=" ++ digits])
    (hnumber : DebugProtocolWire.number (some digits) = .ok maximum) (hle : 256 ≤ maximum) :
    supportedReply text now s =
      command (ascii "QStartNoAckMode") .noAck now
        { s with
          packetSize := min maximum DebugProtocolWire.capacity
          chunk := (min maximum DebugProtocolWire.capacity - 64) / 2 } := by
  have hparsed : parsed (DebugProtocolWire.number
      (some ((ascii "PacketSize=" ++ digits).drop 11))) s = (.ok maximum, s) := by
    rw [show (ascii "PacketSize=" ++ digits).drop 11 = digits from rfl, parsed]
    exact Attempt.run_lift (mapError_ok.2 hnumber)
  have hloop : supportedLoop (DebugProtocolWire.split 59 text) false s =
      (.ok (), { s with packetSize := min maximum DebugProtocolWire.capacity }) := by
    rw [hsplit, supportedLoop, if_pos (List.prefix_append _ _),
      Attempt.run_bind (Attempt.run_check rfl), Attempt.run_bind hparsed,
      Attempt.run_bind (Attempt.run_check hle)]
    rfl
  rw [supportedReply, Attempt.run_bind hloop]
  rfl

theorem noAckReply_eq :
    noAckReply (ascii "OK") now s =
      command (ascii "QSetDetachOnError:1") .detachPolicy now
        { s with noAck := true, wire := { s.wire with zeroChecksum := true } } := by
  rw [noAckReply, Attempt.run_bind (Attempt.run_check rfl)]
  rfl

theorem detachPolicyReply_eq :
    detachPolicyReply (ascii "OK") now s = command (attachText s.request.pid) .attach now s := by
  rw [detachPolicyReply, Attempt.run_bind (Attempt.run_check rfl)]
  rfl

theorem attachReply_eq (signal : ℕ) (hlength : ascii "T" <+: text ∧ 3 ≤ text.length)
    (hnumber : DebugProtocolWire.number (some ((text.drop 1).take 2)) = .ok signal) :
    attachReply text now s =
      command (ascii "qProcessInfo") .process now { s with attached := true } := by
  have hparsed : parsed (DebugProtocolWire.number (some ((text.drop 1).take 2))) s =
      (.ok signal, s) := Attempt.run_lift (mapError_ok.2 hnumber)
  rw [attachReply, Attempt.run_bind (Attempt.run_check (.inl hlength)), Attempt.run_bind hparsed]
  rfl

theorem processReply_eq (hcheck : checkProcess s.request text = .ok ()) :
    processReply text now s =
      command (readText s.request.challengeAddress 32)
        (if s.phase = .finalProcess then .finalChallenge else .challenge) now s := by
  rw [processReply, Attempt.run_bind run_current, Attempt.run_bind (Attempt.run_lift hcheck)]

theorem challengeReply_eq (hphase : s.phase ≠ .finalChallenge)
    (hcheck : checkChallenge s.request text = .ok ()) :
    challengeReply text now s =
      command (regionText (s.request.regions.getD 0 ⟨0, 0⟩).address) .region now
        { s with index := 0, regionCursor := (s.request.regions.getD 0 ⟨0, 0⟩).address } := by
  rw [challengeReply, Attempt.run_bind run_current, Attempt.run_bind (Attempt.run_lift hcheck),
    if_neg hphase]
  rfl

theorem finalChallengeReply_eq (hphase : s.phase = .finalChallenge)
    (hcheck : checkChallenge s.request text = .ok ()) :
    challengeReply text now s = command (ascii "D") .detach now s := by
  rw [challengeReply, Attempt.run_bind run_current, Attempt.run_bind (Attempt.run_lift hcheck),
    if_pos hphase]

theorem regionReply_eq (range : DebugArenaRequest.Region) (base size : ℕ) (hrange : s.range = range)
    (hcheck : checkRegion s.regionCursor text = .ok (base, size))
    (hwhole : range.address + range.size ≤ base + size) :
    regionReply text now s =
      preflightBatch now { s with regionCursor := range.address + range.size, offset := 0 } := by
  rw [regionReply, Attempt.run_bind run_current, Attempt.run_bind (Attempt.run_lift hcheck)]
  dsimp only
  rw [Attempt.run_bind run_change, hrange, min_eq_right hwhole, if_neg (lt_irrefl _)]
  rfl

theorem batchReply_eq (reply : Reply) (hreply : s.replies[s.replied]? = some reply)
    (hcheck : checkReply reply text = .ok ()) (hmore : s.outstanding ≠ 0) :
    batchReply text now s = (.ok [], { s with replied := s.replied + 1 }) := by
  rw [batchReply, Attempt.run_bind run_current,
    Attempt.run_bind (Attempt.run_lift (obtained_ok.2 hreply)),
    Attempt.run_bind (Attempt.run_lift hcheck), Attempt.run_bind run_change, if_pos hmore]
  rfl

/-- The last answer before the first write. -/
theorem preflightReply_eq (reply : Reply) (hreply : s.replies[s.replied]? = some reply)
    (hcheck : checkReply reply text = .ok ()) (hlast : s.outstanding = 0)
    (hphase : s.phase ≠ .prepare) (hread : ¬ s.offset < s.range.size)
    (hregions : ¬ s.index + 1 < s.request.regions.length) :
    batchReply text now s =
      prepareBatch now { s with replied := s.replied + 1, index := 0, offset := 0 } := by
  rw [batchReply, Attempt.run_bind run_current,
    Attempt.run_bind (Attempt.run_lift (obtained_ok.2 hreply)),
    Attempt.run_bind (Attempt.run_lift hcheck), Attempt.run_bind run_change,
    if_neg (not_not.2 hlast), if_neg hphase, if_neg hread, Attempt.run_bind run_change,
    Attempt.run_bind run_current]
  dsimp only
  rw [if_neg hregions]
  rfl

/-- The last answer of all pages. -/
theorem prepareReply_eq (reply : Reply) (hreply : s.replies[s.replied]? = some reply)
    (hcheck : checkReply reply text = .ok ()) (hlast : s.outstanding = 0)
    (hphase : s.phase = .prepare) (hregions : ¬ s.index < s.request.regions.length) :
    batchReply text now s =
      command (ascii "qProcessInfo") .finalProcess now { s with replied := s.replied + 1 } := by
  rw [batchReply, Attempt.run_bind run_current,
    Attempt.run_bind (Attempt.run_lift (obtained_ok.2 hreply)),
    Attempt.run_bind (Attempt.run_lift hcheck), Attempt.run_bind run_change,
    if_neg (not_not.2 hlast), if_pos hphase, if_neg hregions]

omit [Clock T] in
theorem detachReply_eq (hnone : s.pendingFailure = none) :
    detachReply (ascii "OK") s =
      (.ok [.finished (.ok ⟨s.request.pid, s.request.challenge, s.request.regions⟩)],
        { s with attached := false, phase := .complete, outstanding := 0, lastPacket := [] }) := by
  rw [detachReply, Attempt.run_bind (Attempt.run_check rfl), Attempt.run_bind run_change,
    Attempt.run_bind run_current]
  dsimp only
  rw [hnone]
  rfl

end DebugArenaSession

end Tolkara
