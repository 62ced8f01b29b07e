import Tolkara.Debugger.Answers
import Tolkara.Debugger.Exchange

/-!
# Whole runs of a session

Any bytes at any times, cut into calls in any way: whatever a session emits is lawful, it ends
at most once and last, and what it says in the end is so.
-/

namespace Tolkara

open Library

namespace DebugArenaSession

variable {T : Type} {request : DebugArenaRequest} {s s' : DebugArenaSession T} {t : Transcript}

/-! ## One act after the other -/

theorem Leads.ending {acts : List Act} (h : Leads request s t acts) :
    Going request s (acts.foldl Transcript.next t) ∨ Over s := by
  induction h with
  | going h => exact .inl h
  | ended h => exact .inr h
  | act _ _ _ ih => exact ih

theorem Leads.control {acts : List Act} {byte : UInt8} (h : Leads request s t acts) :
    Leads request s t (.control byte :: acts) :=
  .act (fun _ h => Act.noConfusion h) trivial h

theorem Leads.resent {acts : List Act} {packets : List UInt8} (hopening : Opening packets)
    (h : Leads request s t acts) : Leads request s t (.resent packets :: acts) :=
  .act (fun _ h => Act.noConfusion h) hopening h

theorem Leads.answered {acts : List Act} {text : Text}
    (h : Leads request s (t.next (.answered text)) acts) :
    Leads request s t (.answered text :: acts) :=
  .act (fun _ h => Act.noConfusion h) trivial h

/-- What an act on the way from `t` was like when it happened. -/
theorem Leads.lawful {before acts after : List Act} {act : Act} (h : Leads request s t acts)
    (hacts : acts = before ++ act :: after) :
    Lawful request (before.foldl Transcript.next t) act := by
  induction h generalizing before with
  | going => simp at hacts
  | ended =>
      obtain ⟨rfl, rfl, rfl⟩ | ⟨before', rfl, hbefore⟩ := List.cons_eq_append_iff.1 hacts
      · trivial
      · simp at hbefore
  | act _ hlawful _ ih =>
      obtain ⟨rfl, hcons⟩ | ⟨before', rfl, hbefore⟩ := List.cons_eq_append_iff.1 hacts
      · cases hcons
        exact hlawful
      · exact ih hbefore

/-- The end is the last act, and what it says is so. -/
theorem Leads.earned {before acts after : List Act} {result : Except Failure Receipt}
    (h : Leads request s t acts) (hacts : acts = before ++ .finished result :: after) :
    after = [] ∧ Earned request (before.foldl Transcript.next t) result := by
  induction h generalizing before with
  | going => simp at hacts
  | ended _ _ hearned =>
      obtain ⟨rfl, hcons⟩ | ⟨before', rfl, hbefore⟩ := List.cons_eq_append_iff.1 hacts
      · cases hcons
        exact ⟨rfl, hearned⟩
      · simp at hbefore
  | act hne _ _ ih =>
      obtain ⟨rfl, hcons⟩ | ⟨before', rfl, hbefore⟩ := List.cons_eq_append_iff.1 hacts
      · cases hcons
        exact absurd rfl (hne result)
      · exact ih hbefore

theorem Leads.once {acts : List Act} (h : Leads request s t acts) :
    (acts.foldl Transcript.next t).writes.Nodup := by
  induction h with
  | going h => exact h.once
  | ended _ honce _ => exact honce
  | act _ _ _ ih => exact ih

/-- A session that is not over can go on. -/
theorem Leads.append {acts later : List Act} (h : Leads request s t acts)
    (hgoing : Going request s (acts.foldl Transcript.next t) →
      Leads request s' (acts.foldl Transcript.next t) later)
    (hover : Over s → later = [] ∧ s' = s) : Leads request s' t (acts ++ later) := by
  induction h with
  | going h => exact hgoing h
  | ended h honce hearned =>
      obtain ⟨rfl, rfl⟩ := hover h
      exact .ended h honce hearned
  | act hne hlawful _ ih => exact .act hne hlawful (ih hgoing)

theorem Going.idle_outstanding (h : Going request s t) (hidle : s.phase = .idle) :
    s.outstanding = 0 := by
  have hstage := h.stage
  unfold Stage at hstage
  rw [hidle] at hstage
  rw [← h.waiting, hstage.1]
  rfl

theorem Going.not_over (h : Going request s t) : ¬ Over s := by
  intro hover
  have hstage := h.stage
  have hterminal := hover.terminal
  unfold Stage at hstage
  simp only [terminal, Bool.or_eq_true, beq_iff_eq] at hterminal
  rcases hterminal with hphase | hphase
  · rw [hphase] at hstage
    exact hstage
  · rw [hphase] at hstage
    exact hstage

/-- What a call leads to; one that throws emits nothing and leaves the session as it was for
everything that follows. -/
abbrev CallLeads (request : DebugArenaRequest) (t : Transcript) (s : DebugArenaSession T)
    (call : Call T (List Act)) : Prop :=
  call.Meets s (fun acts s' => Leads request s' t acts) fun _ s' => Going request s' t

theorem finish_callLeads (h : Going request s t) (reason : Reason) :
    CallLeads request t s' (finish reason false) :=
  finish_leads h.once fun hfalse => Bool.noConfusion hfalse

variable [Clock T] {now : T}

/-- After a refused answer the session waits for the rest of the batch, lets go of the process
or is over. -/
theorem replyFailed_leads (h : Troubled request s t) (reason : Reason) :
    (replyFailed now reason).Meets s
      (fun acts s' => Leads request s' t acts ∧ s.outstanding ≤ s'.outstanding)
      fun _ _ => True := by
  unfold replyFailed
  simp only [Attempt.meets_bind, Attempt.meets_current]
  split
  · rename_i hbusy
    have hnoAck := h.noAck hbusy.1
    simp only [Attempt.meets_bind, Attempt.meets_change]
    split
    · simp only [Attempt.meets_bind, Attempt.meets_change, Attempt.meets_pure]
      refine ⟨.going ⟨h.request_eq, h.waiting, h.once, fun hfalse => ?_, ?_⟩, le_rfl⟩
      · dsimp only at hfalse
        rw [hnoAck] at hfalse
        cases hfalse
      · exact ⟨hbusy.1, hnoAck, rfl⟩
    · have hcommand : LeadsOn request t { s with pendingFailure := some reason }
          (command (ascii "D") .cleanup now) := by
        refine command_leads (h.change rfl rfl h.noAck id) (fun hfalse => ?_) rfl
          fun _ => ⟨rfl, rfl⟩
        dsimp only at hfalse
        rw [hnoAck] at hfalse
        cases hfalse
      exact hcommand.imp (fun _ _ => id) fun _ _ _ => trivial
  · rename_i halone
    have hnone : s.outstanding = 0 := by
      refine h.alone ?_
      by_contra hbusy
      simp only [not_or, Bool.not_eq_false] at hbusy
      exact halone hbusy
    have hfinish : (finish reason false).Meets s (fun acts s' => Leads request s' t acts)
        fun _ _ => True := finish_leads h.once fun hfalse => Bool.noConfusion hfalse
    refine hfinish.imp (fun _ _ hleads => ⟨hleads, ?_⟩) fun _ _ => id
    rw [hnone]
    exact Nat.zero_le _

/-- What a byte leads to: the replies that are still to come were asked for before the call. -/
abbrev Takes (request : DebugArenaRequest) (t : Transcript) (s : DebugArenaSession T)
    (call : Call T (ℕ × List Act)) : Prop :=
  call.Meets s (fun r s' => Leads request s' t r.2 ∧ r.1 ≤ s'.outstanding) fun _ _ => True

theorem packet_takes (h : Going request s t) {answerable : ℕ} (hpos : 0 < answerable)
    (hle : answerable ≤ s.outstanding) (text : Text) :
    Takes request t s (packet now answerable text) := by
  unfold Takes packet
  simp only [Attempt.meets_bind, Attempt.meets_check, Attempt.meets_current]
  refine ⟨fun _ => ?_, fun _ => trivial⟩
  have hcontrol {acts : List Act} {s' : DebugArenaSession T} (hleads : Leads request s' t acts) :
      Leads request s' t ((if s.noAck = true then [] else [.control 43]) ++ acts) := by
    split
    · exact hleads
    · exact hleads.control
  split
  · simp only [parsed, Attempt.meets_bind, Attempt.meets_check, Attempt.meets_change,
      Attempt.meets_lift, Attempt.meets_pure]
    refine ⟨fun _ => ⟨fun _ _ => ⟨?_, hle⟩, fun _ _ => trivial⟩, fun _ => trivial⟩
    have hgoing : Going request { s with consolePackets := s.consolePackets + 1 } t :=
      h.change ⟨rfl, rfl, rfl, rfl, rfl, rfl, rfl, rfl, rfl⟩ rfl rfl rfl
    simpa using hcontrol (.going hgoing)
  · simp only [Attempt.meets_bind, Attempt.meets_check, Attempt.meets_change,
      Attempt.meets_rescue, Attempt.meets_pure]
    refine ⟨fun _ => ?_, fun _ => trivial⟩
    have houtstanding : 0 < s.outstanding := lt_of_lt_of_le hpos hle
    have hidle : s.phase ≠ .idle := fun hphase =>
      absurd (h.idle_outstanding hphase) houtstanding.ne'
    have hne : t.waiting ≠ [] := by
      rw [← List.length_pos_iff, h.waiting]
      exact houtstanding
    have htroubled := h.answered hidle houtstanding text
    have hsame : SameStage s { s with outstanding := s.outstanding - 1 } :=
      ⟨rfl, rfl, rfl, rfl, rfl, rfl, rfl, rfl, rfl⟩
    have hdone {acts : List Act} {s' : DebugArenaSession T}
        (hacts : Leads request s' (t.next (.answered text)) acts ∧
          s.outstanding - 1 ≤ s'.outstanding) :
        Leads request s' t
            ((if s.noAck = true then [] else [.control 43]) ++ .answered text :: acts) ∧
          answerable - 1 ≤ s'.outstanding :=
      ⟨hcontrol hacts.1.answered, le_trans (Nat.sub_le_sub_right hle 1) hacts.2⟩
    refine (reply_leads (hsame.stage h.stage) hidle hne (h.noAck_eq hidle) htroubled).imp
      (fun _ _ => hdone) fun reason _ hrefused => ?_
    refine (replyFailed_leads hrefused reason).imp (fun _ _ hacts => hdone ⟨hacts.1, ?_⟩)
      fun _ _ => id
    have hsent := hrefused.waiting.symm.trans htroubled.waiting
    exact le_trans hsent.ge hacts.2

theorem takeByte_takes (h : Going request s t) {answerable : ℕ} (hle : answerable ≤ s.outstanding)
    (b : UInt8) : Takes request t s (takeByte now answerable b) := by
  unfold Takes takeByte
  refine Attempt.meets_bind.2 (Attempt.meets_check.2 ⟨fun hpos => ?_, fun _ => trivial⟩)
  have hidle : s.phase ≠ .idle := fun hphase => by
    rw [h.idle_outstanding hphase] at hle
    omega
  generalize hfeed : DebugProtocolWire.feed s.wire b = fed
  have hwire : Going request { s with wire := fed.2 } t :=
    h.change ⟨rfl, rfl, rfl, rfl, rfl, rfl, rfl, rfl, rfl⟩ rfl rfl rfl
  refine Attempt.meets_bind.2 ?_
  unfold Attempt.Meets feed
  rw [hfeed]
  obtain ⟨event, wire⟩ := fed
  dsimp only at hwire ⊢
  cases event with
  | error e => trivial
  | ok event =>
      change Attempt.Meets _ { s with wire := wire } _ _
      simp only [Attempt.meets_bind, Attempt.meets_current]
      cases event with
      | none => exact ⟨.going hwire, hle⟩
      | some event =>
          cases event with
          | packet text => exact packet_takes hwire hpos hle text
          | ack =>
              simp only [Attempt.meets_bind, Attempt.meets_check, Attempt.meets_change,
                Attempt.meets_pure]
              refine ⟨fun _ => ⟨.going (hwire.change ?_ rfl rfl rfl), hle⟩, fun _ => trivial⟩
              exact ⟨rfl, rfl, rfl, rfl, rfl, rfl, rfl, rfl, rfl⟩
          | nack =>
              simp only [Attempt.meets_bind, Attempt.meets_check, Attempt.meets_change,
                Attempt.meets_pure]
              refine ⟨fun hcheck => ⟨.resent ?_ (.going (hwire.change ?_ rfl rfl rfl)), hle⟩,
                fun _ => trivial⟩
              · rcases h.opening hcheck.1 with hphase | ⟨-, hopening⟩
                · exact absurd hphase hidle
                · exact hopening
              · exact ⟨rfl, rfl, rfl, rfl, rfl, rfl, rfl, rfl, rfl⟩
          | badChecksum =>
              simp only [Attempt.meets_bind, Attempt.meets_check, Attempt.meets_change,
                Attempt.meets_pure]
              refine ⟨fun _ => ⟨.control (.going (hwire.change ?_ rfl rfl rfl)), hle⟩,
                fun _ => trivial⟩
              exact ⟨rfl, rfl, rfl, rfl, rfl, rfl, rfl, rfl, rfl⟩

theorem takeAll_leads (bytes : List UInt8) {answerable : ℕ} (h : Going request s t)
    (hle : answerable ≤ s.outstanding) :
    (takeAll now answerable bytes).Meets s (fun acts s' => Leads request s' t acts)
      fun _ _ => True := by
  induction bytes generalizing s t answerable with
  | nil => exact .going h
  | cons b rest ih =>
      unfold takeAll
      refine Attempt.meets_bind.2 ((takeByte_takes h hle b).imp ?_ fun _ _ => id)
      rintro ⟨answerable', acts⟩ s' ⟨hleads, hanswerable⟩
      rcases hleads.ending with hgoing | hover
      · refine Attempt.meets_bind.2 ((ih hgoing hanswerable).imp (fun later s'' hlater => ?_)
          fun _ _ => id)
        exact hleads.append (fun _ => hlater) fun hover => absurd hover hgoing.not_over
      · have hnone : answerable' = 0 := Nat.le_zero.1 (hover.outstanding ▸ hanswerable)
        cases rest with
        | nil =>
            change Leads request s' t (acts ++ [])
            rw [List.append_nil]
            exact hleads
        | cons b' rest =>
            refine Attempt.meets_bind.2 ?_
            unfold takeAll takeByte
            refine Attempt.meets_bind.2 (Attempt.meets_bind.2 (Attempt.meets_check.2
              ⟨fun hpos => ?_, fun _ => trivial⟩))
            rw [hnone] at hpos
            exact absurd hpos (Nat.lt_irrefl 0)

/-! ## Calls -/

theorem receive_leads (h : Going request s t) (bytes : List UInt8) :
    CallLeads request t s (receive bytes now) := by
  unfold CallLeads receive
  refine Attempt.meets_bind.2 (Attempt.meets_current.2 ?_)
  split
  · exact .going h
  · refine Attempt.meets_rescue.2 ?_
    suffices hbody : (receiveBody bytes now).Meets s (fun acts s' => Leads request s' t acts)
        fun _ _ => True from hbody.imp (fun _ _ => id) fun _ _ _ => finish_callLeads h _
    unfold receiveBody time
    simp only [Attempt.meets_bind, Attempt.meets_observe, Attempt.meets_check,
      Attempt.meets_change, Attempt.meets_current]
    refine ⟨fun _ => ?_, fun _ => trivial⟩
    have hgoing : Going request { s with lastTime := now } t :=
      h.change ⟨rfl, rfl, rfl, rfl, rfl, rfl, rfl, rfl, rfl⟩ rfl rfl rfl
    split
    · exact (finish_callLeads hgoing _).imp (fun _ _ => id) fun _ _ _ => trivial
    · refine Attempt.meets_bind.2 (Attempt.meets_check.2 ⟨fun _ => ?_, fun _ => trivial⟩)
      exact takeAll_leads bytes hgoing le_rfl

theorem start_leads (h : Going request s t) : CallLeads request t s (start now) := by
  unfold CallLeads start time
  simp only [Attempt.meets_bind, Attempt.meets_current, Attempt.meets_observe,
    Attempt.meets_check, Attempt.meets_change]
  refine ⟨fun hidle => ⟨fun _ => ?_, fun _ => h⟩, fun _ => h⟩
  generalize hs' : { s with
    lastTime := now, totalDeadline := Clock.add now (Clock.seconds 900) } = s'
  have hgoing : Going request s' t := by
    rw [← hs']
    exact h.change ⟨rfl, rfl, rfl, rfl, rfl, rfl, rfl, rfl, rfl⟩ rfl rfl rfl
  have hphase : s'.phase = .idle := by
    rw [← hs']
    exact hidle
  have hstage := hgoing.stage
  unfold Stage at hstage
  rw [hphase] at hstage
  obtain ⟨ht, hattached, hfailure⟩ := hstage
  have htroubled : Troubled request s' t := by
    refine ⟨hgoing.request_eq, hgoing.waiting, hgoing.once, fun hfalse => ?_,
      fun _ => hgoing.idle_outstanding hphase⟩
    rw [hattached] at hfalse
    cases hfalse
  have hcommand : LeadsOn request t s' (command (ascii "qSupported") .supported now) := by
    refine command_leads htroubled (fun _ => ⟨.inl rfl, List.mem_cons_self⟩) rfl fun _ => ?_
    refine ⟨hattached, hfailure, rfl, ?_⟩
    rw [ht]
    rfl
  have hfailed : (command (ascii "qSupported") .supported now).Meets s' (fun _ _ => True)
      fun _ s'' => Going request s'' t := send_meets (fun _ _ _ => trivial) fun _ => hgoing
  exact (hcommand.and hfailed).imp (fun _ _ hboth => hboth.1.1) fun _ _ hboth => hboth.2

theorem tick_leads (h : Going request s t) : CallLeads request t s (tick now) := by
  unfold CallLeads tick
  refine Attempt.meets_bind.2 (Attempt.meets_current.2 ?_)
  split
  · exact .going h
  · split
    · refine Attempt.meets_bind.2 (Attempt.meets_change.2 (.going (h.change ?_ rfl rfl rfl)))
      exact ⟨rfl, rfl, rfl, rfl, rfl, rfl, rfl, rfl, rfl⟩
    · exact finish_callLeads h _

/-- What a session is asked to do. -/
inductive Input (T : Type)
  | start (now : T)
  | receive (bytes : List UInt8) (now : T)
  | tick (now : T)
  | cancel
  | disconnected

def Input.call : Input T → Call T (List Act)
  | .start now => DebugArenaSession.start now
  | .receive bytes now => DebugArenaSession.receive bytes now
  | .tick now => DebugArenaSession.tick now
  | .cancel => DebugArenaSession.cancel
  | .disconnected => DebugArenaSession.disconnected

theorem Input.leads (h : Going request s t) (input : Input T) :
    CallLeads request t s input.call := by
  cases input with
  | start now => exact start_leads h
  | receive bytes now => exact receive_leads h bytes
  | tick now => exact tick_leads h
  | cancel | disconnected =>
      refine Attempt.meets_bind.2 (Attempt.meets_current.2 ?_)
      split
      · exact .going h
      · exact finish_callLeads h _

/-- The session after an input, and its acts; a call that throws returns none. -/
def perform (s : DebugArenaSession T) (input : Input T) : DebugArenaSession T × List Act :=
  match input.call s with
  | (.ok acts, s') => (s', acts)
  | (.error _, s') => (s', [])

theorem perform_leads (h : Going request s t) (input : Input T) :
    Leads request (s.perform input).1 t (s.perform input).2 := by
  have hcall := Input.leads h input
  unfold CallLeads Attempt.Meets at hcall
  unfold perform
  split at hcall
  · rename_i hrun
    rw [hrun]
    exact hcall
  · rename_i hrun
    rw [hrun]
    exact .going hcall

/-- Nothing happens once the session is over. -/
theorem perform_over (h : Over s) (input : Input T) : s.perform input = (s, []) := by
  have hcall : input.call.Meets s (fun acts s' => s' = s ∧ acts = []) fun _ s' => s' = s := by
    cases input with
    | start now =>
        refine Attempt.meets_bind.2 (Attempt.meets_current.2 (Attempt.meets_bind.2
          (Attempt.meets_check.2 ⟨fun hidle => ?_, fun _ => rfl⟩)))
        have hterminal := h.terminal
        simp only [terminal, hidle] at hterminal
        cases hterminal
    | receive bytes now =>
        refine Attempt.meets_bind.2 (Attempt.meets_current.2 ?_)
        rw [if_pos (.inl h.terminal)]
        exact ⟨rfl, rfl⟩
    | tick now =>
        refine Attempt.meets_bind.2 (Attempt.meets_current.2 ?_)
        rw [if_pos (.inl h.terminal)]
        exact ⟨rfl, rfl⟩
    | cancel | disconnected =>
        refine Attempt.meets_bind.2 (Attempt.meets_current.2 ?_)
        rw [if_pos h.terminal]
        exact ⟨rfl, rfl⟩
  unfold Attempt.Meets at hcall
  unfold perform
  split at hcall
  · rename_i hrun
    rw [hrun, hcall.1, hcall.2]
  · rename_i hrun
    rw [hrun, hcall]

/-! ## Runs -/

def run : DebugArenaSession T → List (Input T) → DebugArenaSession T × List Act
  | s, [] => (s, [])
  | s, input :: rest =>
    ((run (s.perform input).1 rest).1, (s.perform input).2 ++ (run (s.perform input).1 rest).2)

theorem run_over (h : Over s) (inputs : List (Input T)) : s.run inputs = (s, []) := by
  induction inputs with
  | nil => rfl
  | cons input rest ih =>
      rw [run, perform_over h, ih]
      rfl

theorem run_leads (h : Going request s t) (inputs : List (Input T)) :
    Leads request (s.run inputs).1 t (s.run inputs).2 := by
  induction inputs generalizing s t with
  | nil => exact .going h
  | cons input rest ih =>
      rw [run]
      refine (perform_leads h input).append (fun hgoing => ih hgoing) fun hover => ?_
      rw [run_over hover]
      exact ⟨rfl, rfl⟩

theorem run_append (s : DebugArenaSession T) (inputs later : List (Input T)) :
    s.run (inputs ++ later) =
      (((s.run inputs).1.run later).1, (s.run inputs).2 ++ ((s.run inputs).1.run later).2) := by
  induction inputs generalizing s with
  | nil => rfl
  | cons input inputs ih =>
      rw [List.cons_append, run, ih, run]
      dsimp only
      rw [List.append_assoc]

/-- A session that is not begun asks first what is supported. -/
theorem start_eq (hidle : s.phase = .idle) (hnow : Clock.isFinite now ∧ Clock.ge now s.lastTime) :
    start now s =
      command (ascii "qSupported") .supported now
        { s with lastTime := now, totalDeadline := Clock.add now (Clock.seconds 900) } := by
  rw [start, Attempt.run_bind run_current, Attempt.run_bind (Attempt.run_check hidle),
    Attempt.run_bind (time_eq hnow), Attempt.run_bind run_change]

theorem init_going (request : DebugArenaRequest) :
    Going request (init request : DebugArenaSession T) (transcript []) where
  request_eq := rfl
  waiting := rfl
  once := List.nodup_nil
  opening _ := .inl rfl
  stage := ⟨rfl, rfl, rfl⟩

/-! ## Runs of whole answers -/

/-- The session is `s`, but for the parser, which is between packets, and the packet that was
sent last. -/
def Like (s s' : DebugArenaSession T) : Prop :=
  ∃ wire packets, wire.state = .seek ∧ wire.capacity = DebugProtocolWire.capacity ∧
    s' = { s with wire := wire, lastPacket := packets }

/-- From every session like `s` the inputs lead to one like `next`. -/
def Runs (s : DebugArenaSession T) (inputs : List (Input T)) (acts : List Act)
    (next : DebugArenaSession T) : Prop :=
  ∀ s', Like s s' → ∃ s'', Like next s'' ∧ s'.run inputs = (s'', acts)

theorem Runs.trans {next last : DebugArenaSession T} {inputs later : List (Input T)}
    {acts acts' : List Act} (h : Runs s inputs acts next) (hlater : Runs next later acts' last) :
    Runs s (inputs ++ later) (acts ++ acts') last := by
  intro s' hs'
  obtain ⟨s'', hs'', hrun⟩ := h s' hs'
  obtain ⟨t, ht, hlast⟩ := hlater s'' hs''
  refine ⟨t, ht, ?_⟩
  rw [run_append, hrun]
  dsimp only
  rw [hlast]

theorem Awaiting.like (h : Awaiting s now) (hs' : Like s s') : Awaiting s' now := by
  obtain ⟨wire, packets, hseek, hcapacity, rfl⟩ := hs'
  exact ⟨h.going, h.outstanding, h.acknowledged, hseek, hcapacity, h.onTime, h.early⟩

/-- A whole answer that `reply` takes. -/
theorem Awaiting.runs {next : DebugArenaSession T} {text : Text} {acts : List Act}
    (h : Awaiting s now) (htext : Answerable text)
    (hreply : ∀ wire packets, wire.state = .seek →
      wire.capacity = DebugProtocolWire.capacity → ∃ s'', Like next s'' ∧
        reply text now (answeredBy { s with lastPacket := packets } now wire) =
          (.ok acts, s'')) :
    Runs s [.receive (s.acknowledgement ++ DebugProtocolWire.packets text) now]
      ((if s.noAck = true then [] else [.control 43]) ++ .answered text :: acts) next := by
  rintro s' hs'
  have hawaiting := h.like hs'
  obtain ⟨wire, packets, -, -, rfl⟩ := hs'
  obtain ⟨s'', hs'', hreceive⟩ := hawaiting.receive_packets htext
    fun wire' hseek' hcapacity' => hreply wire' packets hseek' hcapacity'
  have hperform : perform { s with wire := wire, lastPacket := packets }
      (.receive (s.acknowledgement ++ DebugProtocolWire.packets text) now) =
      (s'', (if s.noAck = true then [] else [.control 43]) ++ .answered text :: acts) := by
    have hcall : receive (s.acknowledgement ++ DebugProtocolWire.packets text) now _ = _ := hreceive
    rw [perform, Input.call, hcall]
  refine ⟨s'', hs'', ?_⟩
  rw [run, hperform]
  exact congrArg (Prod.mk s'') (List.append_nil _)

theorem Awaiting.runs_noAck {next : DebugArenaSession T} {text : Text} {acts : List Act}
    (h : Awaiting s now) (hnoAck : s.noAck = true) (htext : Answerable text)
    (hreply : ∀ wire packets, wire.state = .seek →
      wire.capacity = DebugProtocolWire.capacity → ∃ s'', Like next s'' ∧
        reply text now (answeredBy { s with lastPacket := packets } now wire) =
          (.ok acts, s'')) :
    Runs s [.receive (DebugProtocolWire.packets text) now] (.answered text :: acts) next := by
  have hruns := h.runs htext hreply
  rw [acknowledgement, if_pos hnoAck, if_pos hnoAck] at hruns
  exact hruns

/-! ## A run to its receipt -/

def onePage : DebugArenaRequest where
  pid := 2
  uid := 501
  challengeAddress := 4096
  challenge := List.replicate 32 1
  regions := [⟨16384, 16384⟩]
  challenge_length := rfl
  regions_ne_nil := List.cons_ne_nil _ _
  regions_valid := by decide
  regions_apart := List.pairwise_singleton _ _

def waitingIn (phase : Phase) : DebugArenaSession ℕ :=
  { init onePage with
    phase := phase
    outstanding := 1
    commandDeadline := 10
    totalDeadline := 900 }

def attachedIn (phase : Phase) : DebugArenaSession ℕ :=
  { waitingIn phase with
    noAck := true
    acknowledged := true
    attached := true
    packetSize := 32768
    chunk := 16352 }

open DebugProtocolWire (packets)

/-- The server's answer to `qProcessInfo`. -/
def processInfo : Text := ascii "pid:2;effective-uid:1f5;cputype:100000c;ptrsize:8;endian:little;"

def challengeBytes : Text := (List.replicate 32 (ascii "01")).flatten

def regionInfo : Text := ascii "start:4000;size:4000;permissions:rx;"

def zeros (count : ℕ) : Text := List.replicate (2 * count) 48

theorem checkReply_zeros {count : ℕ} (h : count ≤ DebugProtocolWire.capacity / 2) :
    checkReply (.zeros count) (zeros count) = .ok () := by
  have hpairs (n : ℕ) : DebugProtocolWire.unhexPairs (List.replicate (2 * n) 48) =
      .ok (List.replicate n 0) := by
    induction n with
    | zero => rfl
    | succ n ih =>
        have hdigit : DebugProtocolWire.digit 48 = some 0 := by decide
        rw [show 2 * (n + 1) = 2 * n + 1 + 1 from rfl, List.replicate_succ, List.replicate_succ,
          DebugProtocolWire.unhexPairs, hdigit, ih]
        rfl
  have hlength : count ≤ DebugProtocolWire.capacity / 2 ∧ (zeros count).length = count * 2 :=
    ⟨h, (List.length_replicate).trans (Nat.mul_comm 2 count)⟩
  rw [checkReply, bind_ok]
  refine ⟨List.replicate count 0, mapError_ok.2 (bind_ok.2 ⟨(), need_ok.2 hlength, hpairs count⟩),
    need_ok.2 fun b hb => List.eq_of_mem_replicate hb⟩

theorem answerable_zeros {count : ℕ} (hpos : 0 < count) (h : 2 * count < 32766) :
    Answerable (zeros count) := by
  obtain ⟨n, rfl⟩ := Nat.exists_eq_succ_of_ne_zero hpos.ne'
  have hcons : zeros (n + 1) = 48 :: List.replicate (2 * n + 1) 48 := List.replicate_succ
  have hprefix {b : UInt8} (hne : b ≠ 48) : ¬ [b] <+: zeros (n + 1) := by
    rw [hcons, List.cons_prefix_cons]
    exact fun hand => hne hand.1
  refine ⟨?_, fun b hb => ?_, fun hand => hprefix (by decide) hand.1, hprefix (by decide)⟩
  · rw [zeros, List.length_replicate]
    exact h
  · rw [List.eq_of_mem_replicate hb]
    decide

theorem answerable_ok : Answerable (ascii "OK") := by
  constructor <;> simp [ascii]

theorem answerable_packetSize : Answerable (ascii "PacketSize=8000") := by
  constructor <;> simp [ascii]

theorem answerable_stop : Answerable (ascii "T11") := by
  constructor <;> simp [ascii]

theorem answerable_processInfo : Answerable processInfo := by
  constructor <;> simp [processInfo, ascii]

theorem answerable_challengeBytes : Answerable challengeBytes := by
  constructor <;> simp [challengeBytes, ascii, List.replicate]

theorem answerable_regionInfo : Answerable regionInfo := by
  constructor <;> simp [regionInfo, ascii]

def commands : List Text :=
  [ascii "qSupported", ascii "QStartNoAckMode", ascii "QSetDetachOnError:1", attachText 2,
    ascii "qProcessInfo", readText 4096 32, regionText 16384, readText 16384 16352,
    readText 32736 32, writeText 16384, readText 16384 1, ascii "D"]

theorem commands_fit :
    ∀ text ∈ commands, text.length ≤ 32768 ∧ text.length ≤ DebugProtocolWire.capacity := by
  decide

def sentAlone (text : Text) : Act := .sent [text] (packets text)

theorem runs_supported :
    Runs (waitingIn .supported) [.receive ([43] ++ packets (ascii "PacketSize=8000")) 0]
      [.control 43, .answered (ascii "PacketSize=8000"),
        sentAlone (ascii "QStartNoAckMode")]
      { waitingIn .noAck with packetSize := 32768, chunk := 16352 } := by
  have hawaiting : Awaiting (waitingIn .supported) 0 :=
    ⟨by decide, Nat.one_pos, rfl, rfl, rfl, ⟨rfl, by decide⟩, by decide⟩
  refine hawaiting.runs answerable_packetSize ?_
  intro wire lastPacket hseek hcapacity
  refine ⟨_, ⟨wire, packets (ascii "QStartNoAckMode"), hseek, hcapacity, rfl⟩, ?_⟩
  rw [reply_eq .supported rfl (by decide) answerable_packetSize]
  refine (supportedReply_eq (ascii "8000") 32768 ?_ ?_ ?_).trans
    (command_eq _ 32768 rfl rfl (commands_fit _ (by simp [commands])))
  · decide
  · decide +kernel
  · decide

theorem runs_noAck :
    Runs { waitingIn .noAck with packetSize := 32768, chunk := 16352 }
      [.receive ([43] ++ packets (ascii "OK")) 0]
      [.control 43, .answered (ascii "OK"),
        sentAlone (ascii "QSetDetachOnError:1")]
      { attachedIn .detachPolicy with attached := false } := by
  have hawaiting : Awaiting { waitingIn .noAck with packetSize := 32768, chunk := 16352 } 0 :=
    ⟨by decide, Nat.one_pos, rfl, rfl, rfl, ⟨rfl, by decide⟩, by decide⟩
  refine hawaiting.runs answerable_ok ?_
  intro wire lastPacket hseek hcapacity
  refine ⟨_, ⟨{ wire with zeroChecksum := true }, packets (ascii "QSetDetachOnError:1"), hseek,
    hcapacity, rfl⟩, ?_⟩
  rw [reply_eq .noAck rfl (by decide) answerable_ok]
  exact noAckReply_eq.trans (command_eq _ 32768 rfl rfl (commands_fit _ (by simp [commands])))

theorem runs_detachPolicy :
    Runs { attachedIn .detachPolicy with attached := false } [.receive (packets (ascii "OK")) 0]
      [.answered (ascii "OK"), sentAlone (attachText 2)]
      { attachedIn .attach with attached := false } := by
  have hawaiting : Awaiting { attachedIn .detachPolicy with attached := false } 0 :=
    ⟨by decide, Nat.one_pos, rfl, rfl, rfl, ⟨rfl, by decide⟩, by decide⟩
  refine hawaiting.runs_noAck rfl answerable_ok ?_
  intro wire lastPacket hseek hcapacity
  refine ⟨_, ⟨wire, packets (attachText 2), hseek, hcapacity, rfl⟩, ?_⟩
  rw [reply_eq .detachPolicy rfl (by decide) answerable_ok]
  exact detachPolicyReply_eq.trans
    (command_eq (attachText 2) 32768 rfl rfl (commands_fit _ (by simp [commands])))

theorem runs_attach :
    Runs { attachedIn .attach with attached := false } [.receive (packets (ascii "T11")) 0]
      [.answered (ascii "T11"), sentAlone (ascii "qProcessInfo")]
      (attachedIn .process) := by
  have hawaiting : Awaiting { attachedIn .attach with attached := false } 0 :=
    ⟨by decide, Nat.one_pos, rfl, rfl, rfl, ⟨rfl, by decide⟩, by decide⟩
  refine hawaiting.runs_noAck rfl answerable_stop ?_
  intro wire lastPacket hseek hcapacity
  refine ⟨_, ⟨wire, packets (ascii "qProcessInfo"), hseek, hcapacity, rfl⟩, ?_⟩
  rw [reply_eq .attach rfl (by decide) answerable_stop]
  refine (attachReply_eq 17 ?_ ?_).trans
    (command_eq _ 32768 rfl rfl (commands_fit _ (by simp [commands])))
  · decide
  · decide +kernel

def reading (replied outstanding : ℕ) : DebugArenaSession ℕ :=
  { attachedIn .preflight with
    regionCursor := 32768
    offset := 16384
    replies := [.zeros 16352, .zeros 32]
    replied := replied
    outstanding := outstanding }

def writing (replied outstanding : ℕ) : DebugArenaSession ℕ :=
  { attachedIn .prepare with
    regionCursor := 32768
    index := 1
    replies := [.ok, .zeros 1]
    replied := replied
    outstanding := outstanding }

theorem batches_onePage :
    preflightLoop ⟨16384, 16384⟩ 16352 readsPerBatch 0 [] =
        ([(readText 16384 16352, .zeros 16352), (readText 32736 32, .zeros 32)], 16384) ∧
      prepareLoop [⟨16384, 16384⟩] pagesPerBatch (0, 0) [] =
        ([(writeText 16384, .ok), (readText 16384 1, .zeros 1)], (1, 0)) := by
  decide

theorem answers_checked :
    checkProcess onePage processInfo = .ok () ∧ checkChallenge onePage challengeBytes = .ok () ∧
      checkRegion 16384 regionInfo = .ok (16384, 16384) := by
  decide +kernel

theorem runs_process :
    Runs (attachedIn .process) [.receive (packets processInfo) 0]
      [.answered processInfo, sentAlone (readText 4096 32)]
      (attachedIn .challenge) := by
  have hawaiting : Awaiting (attachedIn .process) 0 :=
    ⟨by decide, Nat.one_pos, rfl, rfl, rfl, ⟨rfl, by decide⟩, by decide⟩
  refine hawaiting.runs_noAck rfl answerable_processInfo ?_
  intro wire lastPacket hseek hcapacity
  refine ⟨_, ⟨wire, packets (readText 4096 32), hseek, hcapacity, rfl⟩, ?_⟩
  rw [reply_eq .process rfl (by decide) answerable_processInfo]
  refine (processReply_eq ?_).trans
    (command_eq (readText 4096 32) 32768 rfl rfl (commands_fit _ (by simp [commands])))
  exact answers_checked.1

theorem runs_challenge :
    Runs (attachedIn .challenge) [.receive (packets challengeBytes) 0]
      [.answered challengeBytes, sentAlone (regionText 16384)]
      { attachedIn .region with regionCursor := 16384 } := by
  have hawaiting : Awaiting (attachedIn .challenge) 0 :=
    ⟨by decide, Nat.one_pos, rfl, rfl, rfl, ⟨rfl, by decide⟩, by decide⟩
  refine hawaiting.runs_noAck rfl answerable_challengeBytes ?_
  intro wire lastPacket hseek hcapacity
  refine ⟨_, ⟨wire, packets (regionText 16384), hseek, hcapacity, rfl⟩, ?_⟩
  rw [reply_eq .challenge rfl (by decide) answerable_challengeBytes]
  refine (challengeReply_eq ?_ ?_).trans
    (command_eq (regionText 16384) 32768 rfl rfl (commands_fit _ (by simp [commands])))
  · exact nofun
  · exact answers_checked.2.1

def reads : List Text := [readText 16384 16352, readText 32736 32]

theorem runs_region :
    Runs { attachedIn .region with regionCursor := 16384 } [.receive (packets regionInfo) 0]
      [.answered regionInfo, .sent reads (reads.flatMap packets)]
      (reading 0 2) := by
  have hawaiting : Awaiting { attachedIn .region with regionCursor := 16384 } 0 :=
    ⟨by decide, Nat.one_pos, rfl, rfl, rfl, ⟨rfl, by decide⟩, by decide⟩
  refine hawaiting.runs_noAck rfl answerable_regionInfo ?_
  intro wire lastPacket hseek hcapacity
  refine ⟨_, ⟨wire, reads.flatMap packets, hseek, hcapacity, rfl⟩, ?_⟩
  rw [reply_eq .region rfl (by decide) answerable_regionInfo]
  refine (regionReply_eq ⟨16384, 16384⟩ 16384 16384 rfl ?_ ?_).trans (preflightBatch_eq
    [(readText 16384 16352, .zeros 16352), (readText 32736 32, .zeros 32)] 16384 ?_ rfl ?_ ?_)
  · exact answers_checked.2.2
  · exact le_rfl
  · exact batches_onePage.1
  · exact ⟨List.cons_ne_nil _ _, rfl⟩
  · exact fun text htext => commands_fit text (by simp [commands] at htext ⊢; tauto)

theorem runs_firstRead :
    Runs (reading 0 2) [.receive (packets (zeros 16352)) 0] [.answered (zeros 16352)]
      (reading 1 1) := by
  have hawaiting : Awaiting (reading 0 2) 0 :=
    ⟨by decide, Nat.two_pos, rfl, rfl, rfl, ⟨rfl, by decide⟩, by decide⟩
  refine hawaiting.runs_noAck rfl (answerable_zeros (by decide) (by decide)) ?_
  intro wire lastPacket hseek hcapacity
  refine ⟨_, ⟨wire, lastPacket, hseek, hcapacity, rfl⟩, ?_⟩
  rw [reply_eq .preflight rfl (by decide) (answerable_zeros (by decide) (by decide))]
  exact batchReply_eq (.zeros 16352) rfl (checkReply_zeros (by decide)) Nat.one_ne_zero

/-- The write of the page and the read of what was written. -/
def pageCommands : List Text := [writeText 16384, readText 16384 1]

theorem runs_secondRead :
    Runs (reading 1 1) [.receive (packets (zeros 32)) 0]
      [.answered (zeros 32), .sent pageCommands (pageCommands.flatMap packets)]
      (writing 0 2) := by
  have hawaiting : Awaiting (reading 1 1) 0 :=
    ⟨by decide, Nat.one_pos, rfl, rfl, rfl, ⟨rfl, by decide⟩, by decide⟩
  refine hawaiting.runs_noAck rfl (answerable_zeros (by decide) (by decide)) ?_
  intro wire lastPacket hseek hcapacity
  refine ⟨_, ⟨wire, pageCommands.flatMap packets, hseek, hcapacity, rfl⟩, ?_⟩
  rw [reply_eq .preflight rfl (by decide) (answerable_zeros (by decide) (by decide))]
  refine (preflightReply_eq (.zeros 32) rfl (checkReply_zeros (by decide)) rfl ?_ ?_ ?_).trans
    (prepareBatch_eq [(writeText 16384, .ok), (readText 16384 1, .zeros 1)] (1, 0) ?_ rfl ?_ ?_)
  · exact (by decide : Phase.preflight ≠ .prepare)
  · exact lt_irrefl 16384
  · exact lt_irrefl 1
  · exact batches_onePage.2
  · exact ⟨List.cons_ne_nil _ _, rfl⟩
  · exact fun text htext => commands_fit text (by simp [commands] at htext ⊢; tauto)

theorem runs_write :
    Runs (writing 0 2) [.receive (packets (ascii "OK")) 0] [.answered (ascii "OK")]
      (writing 1 1) := by
  have hawaiting : Awaiting (writing 0 2) 0 :=
    ⟨by decide, Nat.two_pos, rfl, rfl, rfl, ⟨rfl, by decide⟩, by decide⟩
  refine hawaiting.runs_noAck rfl answerable_ok ?_
  intro wire lastPacket hseek hcapacity
  refine ⟨_, ⟨wire, lastPacket, hseek, hcapacity, rfl⟩, ?_⟩
  rw [reply_eq .prepare rfl (by decide) answerable_ok]
  exact batchReply_eq .ok rfl rfl Nat.one_ne_zero

theorem runs_readBack :
    Runs (writing 1 1) [.receive (packets (zeros 1)) 0]
      [.answered (zeros 1), sentAlone (ascii "qProcessInfo")]
      { writing 2 1 with phase := .finalProcess } := by
  have hawaiting : Awaiting (writing 1 1) 0 :=
    ⟨by decide, Nat.one_pos, rfl, rfl, rfl, ⟨rfl, by decide⟩, by decide⟩
  refine hawaiting.runs_noAck rfl (answerable_zeros (by decide) (by decide)) ?_
  intro wire lastPacket hseek hcapacity
  refine ⟨_, ⟨wire, packets (ascii "qProcessInfo"), hseek, hcapacity, rfl⟩, ?_⟩
  rw [reply_eq .prepare rfl (by decide) (answerable_zeros (by decide) (by decide))]
  refine (prepareReply_eq (.zeros 1) rfl (checkReply_zeros (by decide)) rfl rfl ?_).trans
    (command_eq _ 32768 rfl rfl (commands_fit _ (by simp [commands])))
  exact lt_irrefl 1

theorem runs_finalProcess :
    Runs { writing 2 1 with phase := .finalProcess } [.receive (packets processInfo) 0]
      [.answered processInfo, sentAlone (readText 4096 32)]
      { writing 2 1 with phase := .finalChallenge } := by
  have hawaiting : Awaiting { writing 2 1 with phase := .finalProcess } 0 :=
    ⟨by decide, Nat.one_pos, rfl, rfl, rfl, ⟨rfl, by decide⟩, by decide⟩
  refine hawaiting.runs_noAck rfl answerable_processInfo ?_
  intro wire lastPacket hseek hcapacity
  refine ⟨_, ⟨wire, packets (readText 4096 32), hseek, hcapacity, rfl⟩, ?_⟩
  rw [reply_eq .finalProcess rfl (by decide) answerable_processInfo]
  refine (processReply_eq ?_).trans
    (command_eq (readText 4096 32) 32768 rfl rfl (commands_fit _ (by simp [commands])))
  exact answers_checked.1

theorem runs_finalChallenge :
    Runs { writing 2 1 with phase := .finalChallenge } [.receive (packets challengeBytes) 0]
      [.answered challengeBytes, sentAlone (ascii "D")]
      { writing 2 1 with phase := .detach } := by
  have hawaiting : Awaiting { writing 2 1 with phase := .finalChallenge } 0 :=
    ⟨by decide, Nat.one_pos, rfl, rfl, rfl, ⟨rfl, by decide⟩, by decide⟩
  refine hawaiting.runs_noAck rfl answerable_challengeBytes ?_
  intro wire lastPacket hseek hcapacity
  refine ⟨_, ⟨wire, packets (ascii "D"), hseek, hcapacity, rfl⟩, ?_⟩
  rw [reply_eq .finalChallenge rfl (by decide) answerable_challengeBytes]
  refine (finalChallengeReply_eq rfl ?_).trans
    (command_eq _ 32768 rfl rfl (commands_fit _ (by simp [commands])))
  exact answers_checked.2.1

theorem runs_detach :
    Runs { writing 2 1 with phase := .detach } [.receive (packets (ascii "OK")) 0]
      [.answered (ascii "OK"), .finished (.ok ⟨2, List.replicate 32 1, [⟨16384, 16384⟩]⟩)]
      { writing 2 0 with phase := .complete, attached := false } := by
  have hawaiting : Awaiting { writing 2 1 with phase := .detach } 0 :=
    ⟨by decide, Nat.one_pos, rfl, rfl, rfl, ⟨rfl, by decide⟩, by decide⟩
  refine hawaiting.runs_noAck rfl answerable_ok ?_
  intro wire lastPacket hseek hcapacity
  refine ⟨_, ⟨wire, [], hseek, hcapacity, rfl⟩, ?_⟩
  rw [reply_eq .detach rfl (by decide) answerable_ok]
  exact detachReply_eq rfl

theorem runs_start :
    Runs (init onePage) [.start 0] [sentAlone (ascii "qSupported")] (waitingIn .supported) := by
  rintro _ ⟨wire, lastPacket, hseek, hcapacity, rfl⟩
  refine ⟨_, ⟨wire, packets (ascii "qSupported"), hseek, hcapacity, rfl⟩, ?_⟩
  have hsize : (ascii "qSupported").length ≤ 1024 ∧
      (ascii "qSupported").length ≤ DebugProtocolWire.capacity := by
    simp [ascii, DebugProtocolWire.capacity]
  have hnow : Clock.isFinite (0 : ℕ) ∧ Clock.ge (0 : ℕ) 0 := ⟨rfl, by decide⟩
  rw [run, run, List.append_nil, perform, Input.call, start_eq rfl hnow,
    command_eq _ 1024 rfl rfl hsize]
  rfl

def toldBeforeWrite : List (Input ℕ) :=
  [.start 0, .receive ([43] ++ packets (ascii "PacketSize=8000")) 0,
    .receive ([43] ++ packets (ascii "OK")) 0, .receive (packets (ascii "OK")) 0,
    .receive (packets (ascii "T11")) 0, .receive (packets processInfo) 0,
    .receive (packets challengeBytes) 0, .receive (packets regionInfo) 0,
    .receive (packets (zeros 16352)) 0, .receive (packets (zeros 32)) 0]

def beforeWrite : List Act :=
  [sentAlone (ascii "qSupported"), .control 43, .answered (ascii "PacketSize=8000"),
    sentAlone (ascii "QStartNoAckMode"), .control 43, .answered (ascii "OK"),
    sentAlone (ascii "QSetDetachOnError:1"), .answered (ascii "OK"), sentAlone (attachText 2),
    .answered (ascii "T11"), sentAlone (ascii "qProcessInfo"), .answered processInfo,
    sentAlone (readText 4096 32), .answered challengeBytes, sentAlone (regionText 16384),
    .answered regionInfo, .sent reads (reads.flatMap packets), .answered (zeros 16352),
    .answered (zeros 32)]

theorem runs_beforeWrite :
    Runs (init onePage) toldBeforeWrite
      (beforeWrite ++ [.sent pageCommands (pageCommands.flatMap packets)]) (writing 0 2) :=
  runs_start.trans (runs_supported.trans (runs_noAck.trans (runs_detachPolicy.trans
    (runs_attach.trans (runs_process.trans (runs_challenge.trans (runs_region.trans
      (runs_firstRead.trans runs_secondRead))))))))

def toldAfterWrite : List (Input ℕ) :=
  [.receive (packets (ascii "OK")) 0, .receive (packets (zeros 1)) 0,
    .receive (packets processInfo) 0, .receive (packets challengeBytes) 0,
    .receive (packets (ascii "OK")) 0]

def afterWrite : List Act :=
  [.answered (ascii "OK"), .answered (zeros 1), sentAlone (ascii "qProcessInfo"),
    .answered processInfo, sentAlone (readText 4096 32), .answered challengeBytes,
    sentAlone (ascii "D"), .answered (ascii "OK")]

def receipt : Receipt := ⟨2, List.replicate 32 1, [⟨16384, 16384⟩]⟩

theorem runs_afterWrite :
    Runs (writing 0 2) toldAfterWrite (afterWrite ++ [.finished (.ok receipt)])
      { writing 2 0 with phase := .complete, attached := false } :=
  runs_write.trans (runs_readBack.trans (runs_finalProcess.trans
    (runs_finalChallenge.trans runs_detach)))

theorem Runs.acts_init {inputs : List (Input ℕ)} {acts : List Act} {next : DebugArenaSession ℕ}
    (h : Runs (init onePage) inputs acts next) :
    ((init onePage : DebugArenaSession ℕ).run inputs).2 = acts := by
  obtain ⟨s', -, hrun⟩ := h (init onePage) ⟨_, [], rfl, rfl, rfl⟩
  rw [hrun]

/-! ## What a run never does -/

/-- The end comes once and last: a receipt only for a process that was released with every
page written, and a confirmed release only where the server said so. -/
theorem run_earned (request : DebugArenaRequest) (inputs : List (Input T))
    {before after : List Act} {result : Except Failure Receipt}
    (h : ((init request : DebugArenaSession T).run inputs).2 =
      before ++ .finished result :: after) :
    after = [] ∧ Earned request (transcript before) result :=
  (run_leads (init_going (T := T) request) inputs).earned h

theorem run_earned_receipt :
    [] = ([] : List Act) ∧
      Earned onePage (transcript (beforeWrite ++
        .sent pageCommands (pageCommands.flatMap packets) :: afterWrite)) (.ok receipt) :=
  run_earned onePage (toldBeforeWrite ++ toldAfterWrite)
    (runs_beforeWrite.trans runs_afterWrite).acts_init

end DebugArenaSession

end Tolkara
