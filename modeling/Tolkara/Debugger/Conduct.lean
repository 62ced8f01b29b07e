import Tolkara.Debugger.Pages

/-!
# How a session goes on

`Stage` says for each phase what the session waits for and what it knows, `Going` that of a
session that is not over, and `Leads` that every act on the way was lawful. Every answer leads
from one stage to another or to the end of the session.
-/

namespace Tolkara

open Library

namespace DebugArenaSession

variable {T : Type}

/-! ## Stages -/

/-- The process is attached to and nothing has gone wrong. -/
structure Working (s : DebugArenaSession T) : Prop where
  attached : s.attached = true
  noAck : s.noAck = true
  noFailure : s.pendingFailure = none

/-- The batch that is being answered. -/
structure Batched (s : DebugArenaSession T) (t : Transcript) (batch : List (Text × Reply)) :
    Prop where
  replies : s.replies = batch.map (·.2)
  waiting : t.waiting = (batch.drop s.replied).map (·.1)

/-- A command of a batch that is still waiting or was answered as it should be. -/
def Settled (e : List (Text × Text)) (waiting : List (Text × Reply)) (item : Text × Reply) :
    Prop :=
  item ∈ waiting ∨ ∃ text, (item.1, text) ∈ e ∧ checkReply item.2 text = .ok ()

/-- Every byte of the regions before this one was reported and read. -/
def Earlier (request : DebugArenaRequest) (index : ℕ) (e : List (Text × Text)) : Prop :=
  ∀ r ∈ request.regions.take index, ∀ a, r.address ≤ a → a < r.address + r.size →
    ReportedAt e a ∧ ZeroAt e a

def Stage (request : DebugArenaRequest) (s : DebugArenaSession T) (t : Transcript) : Prop :=
  match s.phase with
  | .idle => t = ⟨[], []⟩ ∧ s.attached = false ∧ s.pendingFailure = none
  | .supported | .noAck | .detachPolicy | .attach =>
    s.attached = false ∧ s.pendingFailure = none ∧ t.waiting.length = 1 ∧ t.writes = []
  | .process => Working s ∧ t.waiting = [ascii "qProcessInfo"] ∧ t.writes = []
  | .challenge => Working s ∧ t.waiting = [readText request.challengeAddress 32] ∧
    t.writes = [] ∧ ∃ text, (ascii "qProcessInfo", text) ∈ t.exchanges ∧ RightProcess request text
  | .region => Working s ∧ t.waiting = [regionText s.regionCursor] ∧ t.writes = [] ∧
    Identified request t.exchanges ∧ Earlier request s.index t.exchanges ∧
    ∃ r, request.regions[s.index]? = some r ∧ r.address ≤ s.regionCursor ∧
      ∀ a, r.address ≤ a → a < s.regionCursor → ReportedAt t.exchanges a
  | .preflight => Working s ∧ t.writes = [] ∧ Identified request t.exchanges ∧
    Earlier request s.index t.exchanges ∧
    ∃ r batch, request.regions[s.index]? = some r ∧ s.offset ≤ r.size ∧ Batched s t batch ∧
      (∀ a, r.address ≤ a → a < r.address + r.size → ReportedAt t.exchanges a) ∧
      ∀ a, r.address ≤ a → a < r.address + s.offset → ∃ address count,
        Settled t.exchanges (batch.drop s.replied) (readText address count, .zeros count) ∧
          address ≤ a ∧ a < address + count
  | .prepare => Working s ∧ Fresh request t.exchanges ∧
    OnPage request.regions (s.index, s.offset) ∧
    ∃ before batch, pages request = before ++ remaining request.regions (s.index, s.offset) ∧
      t.writes = before.map writeText ∧ Batched s t batch ∧
      ∀ address ∈ before, ∀ item ∈ pageBatch address,
        Settled t.exchanges (batch.drop s.replied) item
  | .finalProcess => Working s ∧ t.waiting = [ascii "qProcessInfo"] ∧
    Fresh request t.exchanges ∧ ∀ address ∈ pages request, PageWritten t.exchanges address
  | .finalChallenge => Working s ∧ t.waiting = [readText request.challengeAddress 32] ∧
    ∃ before text, t.exchanges = before ++ [(ascii "qProcessInfo", text)] ∧
      Fresh request before ∧ (∀ address ∈ pages request, PageWritten before address) ∧
      RightProcess request text
  | .detach => s.pendingFailure = none ∧ t.waiting = [ascii "D"] ∧
    ∃ before process challenge, t.exchanges = before ++ [(ascii "qProcessInfo", process),
        (readText request.challengeAddress 32, challenge)] ∧
      Fresh request before ∧ (∀ address ∈ pages request, PageWritten before address) ∧
      RightProcess request process ∧ RightChallenge request challenge
  | .draining => s.attached = true ∧ s.noAck = true ∧ s.pendingFailure.isSome = true
  | .cleanup => t.waiting = [ascii "D"] ∧ s.pendingFailure.isSome = true
  | .complete | .failed => False

/-- The commands that a negative acknowledgement can ask for again. -/
def Opening (packets : List UInt8) : Prop :=
  ∃ text ∈ [ascii "qSupported", ascii "QStartNoAckMode"], ∃ packetSize,
    encodeAll packetSize [text] = .ok packets

structure Going (request : DebugArenaRequest) (s : DebugArenaSession T) (t : Transcript) :
    Prop where
  request_eq : s.request = request
  waiting : t.waiting.length = s.outstanding
  once : t.writes.Nodup
  opening : s.noAck = false → s.phase = .idle ∨
    (s.phase = .supported ∨ s.phase = .noAck) ∧ Opening s.lastPacket
  stage : Stage request s t

/-- What a session may emit: a write is one of a page, once everything is fresh. -/
def Lawful (request : DebugArenaRequest) (t : Transcript) : Act → Prop
  | .sent texts packets => (∃ packetSize, encodeAll packetSize texts = .ok packets) ∧
    ∀ text ∈ texts, IsWrite text = true →
      Fresh request t.exchanges ∧ ∃ address ∈ pages request, text = writeText address
  | .resent packets => Opening packets
  | _ => True

def Earned (request : DebugArenaRequest) (t : Transcript) : Except Failure Receipt → Prop
  | .ok receipt => receipt = ⟨request.pid, request.challenge, request.regions⟩ ∧
    Released request t.exchanges
  | .error failure => failure.detachConfirmed = true →
    t.exchanges.getLast? = some (ascii "D", ascii "OK")

structure Over (s : DebugArenaSession T) : Prop where
  terminal : s.terminal = true
  outstanding : s.outstanding = 0

/-- The acts lead from a transcript to a session that goes on after them or is over. -/
inductive Leads (request : DebugArenaRequest) (s : DebugArenaSession T) :
    Transcript → List Act → Prop
  | going {t : Transcript} (h : Going request s t) : Leads request s t []
  | ended {t : Transcript} {result : Except Failure Receipt} (h : Over s)
      (honce : t.writes.Nodup) (hearned : Earned request t result) :
      Leads request s t [.finished result]
  | act {t : Transcript} {act : Act} {acts : List Act} (hne : ∀ result, act ≠ .finished result)
      (hlawful : Lawful request t act) (h : Leads request s (t.next act) acts) :
      Leads request s t (act :: acts)

/-! ## Answers -/

/-- A session whose last answer was refused. -/
structure Troubled (request : DebugArenaRequest) (s : DebugArenaSession T) (t : Transcript) :
    Prop where
  request_eq : s.request = request
  waiting : t.waiting.length = s.outstanding
  once : t.writes.Nodup
  noAck : s.attached = true → s.noAck = true
  alone : s.attached = false ∨ s.phase = .detach ∨ s.phase = .cleanup → s.outstanding = 0

section

variable {request : DebugArenaRequest} {s s' : DebugArenaSession T} {t : Transcript}

theorem Troubled.change (h : Troubled request s t)
    (hrequest : s'.request = s.request) (houtstanding : s'.outstanding = s.outstanding)
    (hnoAck : s'.attached = true → s'.noAck = true)
    (halone : s'.attached = false ∨ s'.phase = .detach ∨ s'.phase = .cleanup →
      s.attached = false ∨ s.phase = .detach ∨ s.phase = .cleanup) : Troubled request s' t where
  request_eq := hrequest.trans h.request_eq
  waiting := h.waiting.trans houtstanding.symm
  once := h.once
  noAck := hnoAck
  alone hs := houtstanding.trans (h.alone (halone hs))

theorem Going.noAck_eq (h : Going request s t) (hidle : s.phase ≠ .idle)
    (hsupported : s.phase ≠ .supported) (hnoAck : s.phase ≠ .noAck) : s.noAck = true := by
  cases hfalse : s.noAck with
  | true => rfl
  | false =>
      rcases h.opening hfalse with hphase | ⟨hphase | hphase, -⟩
      · exact absurd hphase hidle
      · exact absurd hphase hsupported
      · exact absurd hphase hnoAck

theorem Working.going (hworking : Working s) (h : Troubled request s t)
    (hstage : Stage request s t) : Going request s t where
  request_eq := h.request_eq
  waiting := h.waiting
  once := h.once
  opening hfalse := by
    rw [hworking.noAck] at hfalse
    cases hfalse
  stage := hstage

structure SameStage (s s' : DebugArenaSession T) : Prop where
  phase : s'.phase = s.phase
  attached : s'.attached = s.attached
  noAck : s'.noAck = s.noAck
  pendingFailure : s'.pendingFailure = s.pendingFailure
  regionCursor : s'.regionCursor = s.regionCursor
  index : s'.index = s.index
  offset : s'.offset = s.offset
  replies : s'.replies = s.replies
  replied : s'.replied = s.replied

theorem SameStage.working (h : SameStage s s') : Working s' ↔ Working s := by
  constructor
  · rintro ⟨hattached, hnoAck, hfailure⟩
    exact ⟨h.attached ▸ hattached, h.noAck ▸ hnoAck, h.pendingFailure ▸ hfailure⟩
  · rintro ⟨hattached, hnoAck, hfailure⟩
    exact ⟨h.attached.trans hattached, h.noAck.trans hnoAck, h.pendingFailure.trans hfailure⟩

theorem SameStage.batched (h : SameStage s s') (batch : List (Text × Reply)) :
    Batched s' t batch ↔ Batched s t batch := by
  constructor
  · rintro ⟨hreplies, hwaiting⟩
    exact ⟨h.replies ▸ hreplies, h.replied ▸ hwaiting⟩
  · rintro ⟨hreplies, hwaiting⟩
    exact ⟨h.replies.trans hreplies, by rw [h.replied]; exact hwaiting⟩

theorem SameStage.stage (h : SameStage s s') (hstage : Stage request s t) :
    Stage request s' t := by
  unfold Stage at hstage ⊢
  simp only [h.phase, h.working, h.batched, h.attached, h.noAck, h.pendingFailure,
    h.regionCursor, h.index, h.offset, h.replied]
  exact hstage

theorem Going.change (h : Going request s t) (hsame : SameStage s s')
    (hrequest : s'.request = s.request) (houtstanding : s'.outstanding = s.outstanding)
    (hpacket : s'.lastPacket = s.lastPacket) : Going request s' t where
  request_eq := hrequest.trans h.request_eq
  waiting := h.waiting.trans houtstanding.symm
  once := h.once
  opening := by
    rw [hsame.noAck, hsame.phase, hpacket]
    exact h.opening
  stage := hsame.stage h.stage

/-- A command that is sent outside of a batch is the only one. -/
theorem Stage.length_waiting (h : Stage request s t) (hidle : s.phase ≠ .idle)
    (halone : s.attached = false ∨ s.phase = .detach ∨ s.phase = .cleanup) :
    t.waiting.length = 1 := by
  have hworking (hw : Working s) (hdetach : s.phase ≠ .detach) (hcleanup : s.phase ≠ .cleanup) :
      t.waiting.length = 1 := by
    rcases halone with hattached | hphase | hphase
    · rw [hw.attached] at hattached
      cases hattached
    · exact absurd hphase hdetach
    · exact absurd hphase hcleanup
  unfold Stage at h
  cases hphase : s.phase with
  | idle => exact absurd hphase hidle
  | supported | noAck | detachPolicy | attach =>
      rw [hphase] at h
      exact h.2.2.1
  | process | challenge | region | preflight | prepare | finalProcess | finalChallenge =>
      rw [hphase] at h hworking
      exact hworking h.1 nofun nofun
  | draining =>
      rw [hphase] at h halone
      rw [h.1] at halone
      rcases halone with hattached | hdetach | hcleanup
      · cases hattached
      · cases hdetach
      · cases hcleanup
  | detach =>
      rw [hphase] at h
      rw [h.2.1]
      rfl
  | cleanup =>
      rw [hphase] at h
      rw [h.1]
      rfl
  | complete | failed =>
      rw [hphase] at h
      exact h.elim

/-- A session whose oldest command is answered. -/
theorem Going.answered (h : Going request s t) (hidle : s.phase ≠ .idle) (hpos : 0 < s.outstanding)
    (text : Text) :
    Troubled request { s with outstanding := s.outstanding - 1 } (t.next (.answered text)) := by
  obtain ⟨asked, rest, hwaiting⟩ := List.exists_cons_of_length_pos (h.waiting.symm ▸ hpos)
  have hlength := h.waiting
  rw [hwaiting, List.length_cons] at hlength
  refine ⟨h.request_eq, ?_, ?_, fun hattached => ?_, fun halone => ?_⟩
  · rw [Transcript.next_answered hwaiting]
    dsimp only
    omega
  · rw [Transcript.writes_answered]
    exact h.once
  · have hstage := h.stage
    unfold Stage at hstage
    dsimp only at hattached
    refine h.noAck_eq hidle (fun hphase => ?_) fun hphase => ?_
    · simp only [hphase, hattached, Bool.true_eq_false, false_and] at hstage
    · simp only [hphase, hattached, Bool.true_eq_false, false_and] at hstage
  · dsimp only at halone ⊢
    rw [← h.waiting, h.stage.length_waiting hidle halone]

end

/-! ## Sending -/

section

variable [Clock T] {request : DebugArenaRequest} {s : DebugArenaSession T} {t : Transcript}
  {texts : List Text} {phase : Phase} {now : T}

def sending (s : DebugArenaSession T) (texts : List Text) (packets : List UInt8) (phase : Phase)
    (now : T) : DebugArenaSession T :=
  { s with
    lastPacket := packets
    outstanding := texts.length
    acknowledged := s.noAck
    retries := 0
    badPackets := 0
    phase := phase
    commandDeadline := Clock.add now (Clock.seconds 10) }

theorem send_meets {Q : List Act → DebugArenaSession T → Prop}
    {E : Reason → DebugArenaSession T → Prop}
    (hsent : ∀ packets, s.outstanding = 0 → encodeAll s.packetSize texts = .ok packets →
      Q [.sent texts packets] (sending s texts packets phase now))
    (hfailed : ∀ reason, E reason s) : (send texts phase now).Meets s Q E := by
  unfold send
  refine Attempt.meets_bind.2 (Attempt.meets_current.2 (Attempt.meets_bind.2
    (Attempt.meets_check.2 ⟨fun hcheck => ?_, fun _ => hfailed _⟩)))
  refine Attempt.meets_bind.2 (Attempt.meets_lift.2
    ⟨fun packets hpackets => ?_, fun reason _ => hfailed reason⟩)
  exact hsent packets hcheck.1 hpackets

/-- An answer that is taken leads on, and one that is refused into trouble. The commands that
are waiting stay so. -/
abbrev LeadsOn (request : DebugArenaRequest) (t : Transcript) (s : DebugArenaSession T)
    (call : Call T (List Act)) : Prop :=
  call.Meets s (fun acts s' => Leads request s' t acts ∧ s.outstanding ≤ s'.outstanding)
    fun _ s' => Troubled request s' t

/-- The next commands lead on if the session then is at its new stage. -/
theorem send_leads (h : Troubled request s t)
    (hopening : s.noAck = false → (phase = .supported ∨ phase = .noAck) ∧
      ∃ text ∈ [ascii "qSupported", ascii "QStartNoAckMode"], texts = [text])
    (honce : (t.writes ++ texts.filter IsWrite).Nodup)
    (hwrites : ∀ text ∈ texts, IsWrite text = true →
      Fresh request t.exchanges ∧ ∃ address ∈ pages request, text = writeText address)
    (hstage : t.waiting = [] → ∀ packets,
      Stage request (sending s texts packets phase now) ⟨t.exchanges, texts⟩) :
    LeadsOn request t s (send texts phase now) := by
  refine send_meets (fun packets hnone hpackets => ⟨?_, hnone ▸ Nat.zero_le _⟩) fun _ => h
  have hwaiting : t.waiting = [] := by
    rw [← List.length_eq_zero_iff, h.waiting, hnone]
  refine .act nofun ⟨⟨_, hpackets⟩, hwrites⟩ (.going ?_)
  refine ⟨h.request_eq, ?_, ?_, fun hnoAck => ?_, ?_⟩
  · rw [Transcript.next_sent, hwaiting]
    rfl
  · rw [Transcript.writes_sent]
    exact honce
  · obtain ⟨hphase, text, htext, rfl⟩ := hopening hnoAck
    exact .inr ⟨hphase, text, htext, _, hpackets⟩
  · rw [Transcript.next_sent, hwaiting]
    exact hstage hwaiting packets

theorem command_leads {text : Text} (h : Troubled request s t)
    (hopening : s.noAck = false → (phase = .supported ∨ phase = .noAck) ∧
      text ∈ [ascii "qSupported", ascii "QStartNoAckMode"])
    (hread : IsWrite text = false)
    (hstage : ∀ packets, Stage request (sending s [text] packets phase now) ⟨t.exchanges, [text]⟩) :
    LeadsOn request t s (command text phase now) := by
  refine send_leads h (fun hnoAck => ?_) ?_ (fun text' htext' hwrite => ?_) fun _ => hstage
  · obtain ⟨hphase, htext⟩ := hopening hnoAck
    exact ⟨hphase, text, htext, rfl⟩
  · rw [List.filter_cons_of_neg (by rw [hread]; exact Bool.false_ne_true), List.filter_nil,
      List.append_nil]
    exact h.once
  · rw [List.mem_singleton.1 htext', hread] at hwrite
    cases hwrite

end

end DebugArenaSession

end Tolkara
