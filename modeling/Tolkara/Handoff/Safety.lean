import Tolkara.Handoff.Basic

/-!
# Safety of the arena hand-off

Whatever the transport does with messages and replies, the service goes through five
stages for one request: it has heard of nothing, it has put off the preparation, it has
refused it, a debugger is attached, or the debugger has returned. A refusal is final, and
every reply in the transport tells no more than what has happened at the debugger.
-/

namespace Tolkara

/-- How far a service has come with a request. -/
inductive HandoffStage where
  | idle
  | waiting
  | refused (outcome : TKACOutcome)
  | attached (request : DebugArenaRequest)
  | returned (request : DebugArenaRequest) (outcome : TKACOutcome)

namespace HandoffStage

/-- The debugger was asked for exactly what a request names. -/
def MadeFrom (bytes : List UInt8) (request : DebugArenaRequest) : Prop :=
  ∃ raw, tkacDecode bytes = some raw ∧ request.pid = raw.pid ∧
    request.challenge = raw.challenge ∧ request.regions = [⟨raw.address, raw.size⟩]

/-- What an outcome says is true of a stage and of what happened at the debugger. -/
def Justified (bytes : List UInt8) (stage : HandoffStage) (events : List DebuggerEvent) :
    TKACOutcome → Prop
  | .prepared => ∃ raw, tkacDecode bytes = some raw ∧
      .returned (.success raw.pid raw.challenge [⟨raw.address, raw.size⟩]) ∈ events
  | .rejected => stage = .refused .rejected
  | .failedDetached => .returned (.failure true) ∈ events
  | .uncertain => True
  | .pending => True

def Holds (bytes : List UInt8) (s : ArenaPreparationService) (events : List DebuggerEvent) :
    HandoffStage → Prop
  | .idle => s.message = none ∧ s.clientCompletion = none ∧ s.pollingRequest = none ∧
      s.pollingReply = none ∧ s.deferred = [] ∧ events = []
  | .waiting => s.message = none ∧ s.clientCompletion = none ∧ s.pollingRequest = some bytes ∧
      s.pollingReply = none ∧ s.deferred = [(.submit, bytes)] ∧ events = []
  | .refused outcome => s.message = none ∧ s.clientCompletion = none ∧
      s.pollingRequest = some bytes ∧ s.pollingReply = tkacReply bytes outcome ∧
      s.deferred = [] ∧ events = [] ∧ (outcome = .rejected ∨ outcome = .uncertain)
  | .attached request => s.message = some bytes ∧ s.clientCompletion = some request ∧
      s.pollingRequest = some bytes ∧ s.pollingReply = none ∧ s.deferred = [] ∧
      MadeFrom bytes request ∧ attachmentsOf events = [(.submit, request)]
  | .returned request outcome => s.message = none ∧ s.clientCompletion = some request ∧
      s.pollingRequest = some bytes ∧ s.pollingReply = tkacReply bytes outcome ∧
      s.deferred = [] ∧ MadeFrom bytes request ∧ attachmentsOf events = [(.submit, request)] ∧
      outcome ≠ .rejected ∧ Justified bytes (.returned request outcome) events outcome

/-- A refusal is final. -/
def Leads (stage next : HandoffStage) : Prop := ∀ outcome, stage = refused outcome → next = stage

theorem leads_refl (stage : HandoffStage) : stage.Leads stage := fun _ _ => rfl

theorem attachmentsOf_append (events more : List DebuggerEvent) :
    attachmentsOf (events ++ more) = attachmentsOf events ++ attachmentsOf more :=
  List.filterMap_append

theorem Justified.mono {bytes : List UInt8} {stage next : HandoffStage}
    {events : List DebuggerEvent} {outcome : TKACOutcome}
    (h : Justified bytes stage events outcome) (hnext : stage.Leads next)
    (more : List DebuggerEvent) : Justified bytes next (events ++ more) outcome := by
  cases outcome with
  | prepared =>
      obtain ⟨raw, hraw, hin⟩ := h
      exact ⟨raw, hraw, List.mem_append_left _ hin⟩
  | rejected =>
      have hstage : stage = refused .rejected := h
      exact (hnext _ hstage).trans hstage
  | failedDetached => exact List.mem_append_left _ h
  | uncertain => trivial
  | pending => trivial

/-- One attachment at most, and because of a submission. -/
theorem Holds.attachments {bytes : List UInt8} {s : ArenaPreparationService}
    {events : List DebuggerEvent} {stage : HandoffStage} (h : Holds bytes s events stage) :
    (attachmentsOf events).length ≤ 1 ∧ ∀ a ∈ attachmentsOf events, a.1 = .submit := by
  have hcases : attachmentsOf events = [] ∨
      ∃ request, attachmentsOf events = [(.submit, request)] := by
    cases stage with
    | idle =>
        rw [h.2.2.2.2.2]
        exact Or.inl rfl
    | waiting =>
        rw [h.2.2.2.2.2]
        exact Or.inl rfl
    | refused outcome =>
        rw [h.2.2.2.2.2.1]
        exact Or.inl rfl
    | attached request => exact Or.inr ⟨request, h.2.2.2.2.2.2⟩
    | returned request outcome => exact Or.inr ⟨request, h.2.2.2.2.2.2.1⟩
  rcases hcases with hnone | ⟨request, hone⟩
  · rw [hnone]
    exact ⟨Nat.zero_le _, fun _ ha => absurd ha List.not_mem_nil⟩
  · rw [hone]
    refine ⟨le_rfl, fun a ha => ?_⟩
    rw [List.mem_singleton.mp ha]

end HandoffStage

open HandoffStage

/-- Two replies to one request are both made or neither. -/
theorem tkacReply_or (bytes : List UInt8) (outcome other : TKACOutcome) :
    (tkacReply bytes outcome).or (tkacReply bytes other) = tkacReply bytes outcome := by
  unfold tkacReply
  split_ifs <;> rfl

namespace ArenaPreparationService

variable {bytes : List UInt8} {s : ArenaPreparationService} {events : List DebuggerEvent}
  {stage : HandoffStage}

/-- A command of the request: the service never moves on because of a poll. -/
theorem handleAsync_holds (hs : Holds bytes s events stage) {message : List UInt8}
    {command : TKACCommand} (hmessage : tkacCommand bytes command = some message) :
    ∃ next, Holds bytes (s.handleAsync message).1 events next ∧ stage.Leads next ∧
      (command = .poll → (s.handleAsync message).1 = s) ∧
      ∀ reply, (s.handleAsync message).2 = some reply →
        ∃ outcome, tkacReply bytes outcome = some reply ∧
          Justified bytes next events outcome := by
  rw [handleAsync, tkacNormalize_command hmessage]
  dsimp only
  cases command with
  | submit =>
      rw [if_pos rfl]
      by_cases hfirst : s.pollingRequest.isSome = true
      · rw [if_pos hfirst]
        exact ⟨stage, hs, leads_refl _, fun _ => rfl, fun reply h => ⟨.uncertain, h, trivial⟩⟩
      · rw [if_neg hfirst]
        cases stage with
        | idle =>
            obtain ⟨hm, hc, hr, hp, hd, hl⟩ := hs
            refine ⟨.waiting, ⟨hm, hc, rfl, hp, ?_, hl⟩, ?_, ?_, fun reply h =>
              ⟨.pending, h, trivial⟩⟩
            · dsimp only
              rw [hd, List.nil_append]
            · intro _ h
              cases h
            · intro h
              cases h
        | waiting => exact absurd (by rw [hs.2.2.1]; rfl) hfirst
        | refused outcome => exact absurd (by rw [hs.2.2.1]; rfl) hfirst
        | attached request => exact absurd (by rw [hs.2.2.1]; rfl) hfirst
        | returned request outcome => exact absurd (by rw [hs.2.2.1]; rfl) hfirst
  | poll =>
      rw [if_neg (by decide)]
      by_cases hother : s.pollingRequest ≠ some bytes
      · rw [if_pos hother]
        exact ⟨stage, hs, leads_refl _, fun _ => rfl, fun reply h => ⟨.uncertain, h, trivial⟩⟩
      · rw [if_neg hother]
        refine ⟨stage, hs, leads_refl _, fun _ => rfl, fun reply h => ?_⟩
        cases stage with
        | idle => exact absurd hs.2.2.1 (by rw [not_not.mp hother]; simp)
        | waiting =>
            rw [hs.2.2.2.1] at h
            exact ⟨.pending, h, trivial⟩
        | refused outcome =>
            rw [hs.2.2.2.1, tkacReply_or] at h
            refine ⟨outcome, h, ?_⟩
            rcases hs.2.2.2.2.2.2 with rfl | rfl
            · exact rfl
            · trivial
        | attached request =>
            rw [hs.2.2.2.1] at h
            exact ⟨.pending, h, trivial⟩
        | returned request outcome =>
            rw [hs.2.2.2.1, tkacReply_or] at h
            exact ⟨outcome, h, hs.2.2.2.2.2.2.2.2⟩

/-- The deferred preparation refuses, or starts a debugger for the request. -/
theorem runDeferred_holds (hs : Holds bytes s events stage) (now : ℕ) :
    ∃ next, Holds bytes (s.runDeferred now).1 (events ++ (s.runDeferred now).2) next ∧
      stage.Leads next := by
  have hidle : s.deferred = [] → ∃ next,
      Holds bytes (s.runDeferred now).1 (events ++ (s.runDeferred now).2) next ∧
        stage.Leads next := by
    intro hempty
    rw [runDeferred, hempty]
    dsimp only
    rw [List.append_nil]
    exact ⟨stage, hs, leads_refl _⟩
  cases stage with
  | idle => exact hidle hs.2.2.2.2.1
  | refused outcome => exact hidle hs.2.2.2.2.1
  | attached request => exact hidle hs.2.2.2.2.1
  | returned request outcome => exact hidle hs.2.2.2.2.1
  | waiting =>
      obtain ⟨hm, hc, hr, hp, hd, rfl⟩ := hs
      have hleads : ∀ next, HandoffStage.waiting.Leads next := by
        intro next outcome h
        cases h
      rw [runDeferred, hd]
      dsimp only
      rw [prepare]
      cases hdecode : tkacDecode bytes with
      | none => exact ⟨.refused .uncertain, ⟨hm, hc, hr, rfl, rfl, rfl, Or.inr rfl⟩, hleads _⟩
      | some raw =>
          dsimp only
          have hrefused : (complete { s with deferred := [] } bytes
              (tkacReply bytes .rejected)).pollingReply = tkacReply bytes .rejected :=
            tkacReply_or bytes _ _
          split
          · exact ⟨.refused .rejected, ⟨hm, hc, hr, hrefused, rfl, rfl, Or.inl rfl⟩, hleads _⟩
          · split
            · exact ⟨.refused .rejected, ⟨hm, hc, hr, hrefused, rfl, rfl, Or.inl rfl⟩, hleads _⟩
            · rename_i request hmake
              obtain ⟨hpid, hchallenge, hregions⟩ := DebugArenaRequest.make_ok hmake
              exact ⟨.attached request, ⟨rfl, rfl, hr, hp, rfl,
                ⟨raw, hdecode, hpid, hchallenge, hregions⟩, rfl⟩, hleads _⟩

theorem finish_holds {request : DebugArenaRequest} {outcome : TKACOutcome}
    (hs : Holds bytes s events (.attached request)) (hrejected : outcome ≠ .rejected)
    {more : List DebuggerEvent} (hmore : attachmentsOf more = [])
    (hjustified : Justified bytes (.returned request outcome) (events ++ more) outcome) :
    Holds bytes (s.finish outcome) (events ++ more) (.returned request outcome) := by
  obtain ⟨hm, hc, hr, hp, hd, hmade, hattached⟩ := hs
  rw [finish, hm]
  refine ⟨rfl, hc, hr, tkacReply_or bytes _ _, hd, hmade, ?_, hrejected, hjustified⟩
  rw [attachmentsOf_append, hattached, hmore, List.append_nil]

theorem finish_of_message_none (h : s.message = none) (outcome : TKACOutcome) :
    s.finish outcome = s := by
  rw [finish, h]

def resultOutcome (request : DebugArenaRequest) : ClientResult → TKACOutcome
  | .success pid challenge regions =>
    if pid = request.pid ∧ challenge = request.challenge ∧ regions = request.regions then .prepared
    else .uncertain
  | .failure detachConfirmed => if detachConfirmed then .failedDetached else .uncertain

theorem clientReturned_of_some {request : DebugArenaRequest}
    (h : s.clientCompletion = some request) (result : ClientResult) :
    s.clientReturned result = (s.finish (resultOutcome request result), [.returned result]) := by
  rw [clientReturned, h]
  cases result <;> rfl

theorem resultOutcome_justified {request : DebugArenaRequest} (hmade : MadeFrom bytes request)
    (events : List DebuggerEvent) (result : ClientResult) : resultOutcome request result ≠ .rejected ∧
      ∀ next, Justified bytes next (events ++ [.returned result])
        (resultOutcome request result) := by
  have hlast : DebuggerEvent.returned result ∈ events ++ [.returned result] :=
    List.mem_append_right _ (List.mem_singleton.mpr rfl)
  cases result with
  | success pid challenge regions =>
      rw [resultOutcome]
      split_ifs with hsame
      · obtain ⟨raw, hraw, hpid, hchallenge, hregions⟩ := hmade
        obtain ⟨rfl, rfl, rfl⟩ := hsame
        rw [hpid, hchallenge, hregions] at hlast
        rw [hpid, hchallenge, hregions]
        exact ⟨by decide, fun _ => ⟨raw, hraw, hlast⟩⟩
      · exact ⟨by decide, fun _ => trivial⟩
  | failure detachConfirmed =>
      rw [resultOutcome]
      split_ifs with hdetached
      · rw [hdetached] at hlast ⊢
        exact ⟨by decide, fun _ => hlast⟩
      · exact ⟨by decide, fun _ => trivial⟩

theorem clientReturned_holds (hs : Holds bytes s events stage) (result : ClientResult) :
    ∃ next, Holds bytes (s.clientReturned result).1 (events ++ (s.clientReturned result).2) next ∧
      stage.Leads next := by
  have hnone : s.clientCompletion = none → ∃ next,
      Holds bytes (s.clientReturned result).1 (events ++ (s.clientReturned result).2) next ∧
        stage.Leads next := by
    intro h
    rw [clientReturned, h]
    dsimp only
    rw [List.append_nil]
    exact ⟨stage, hs, leads_refl _⟩
  cases stage with
  | idle => exact hnone hs.2.1
  | waiting => exact hnone hs.2.1
  | refused outcome => exact hnone hs.2.1
  | attached request =>
      rw [clientReturned_of_some hs.2.1]
      obtain ⟨hrejected, hjustified⟩ :=
        resultOutcome_justified hs.2.2.2.2.2.1 events result
      refine ⟨_, finish_holds hs hrejected rfl (hjustified _), ?_⟩
      intro _ h
      cases h
  | returned request outcome =>
      rw [clientReturned_of_some hs.2.1, finish_of_message_none hs.1]
      obtain ⟨hm, hc, hr, hp, hd, hmade, hattached, hrejected, hjustified⟩ := hs
      refine ⟨.returned request outcome, ⟨hm, hc, hr, hp, hd, hmade, ?_, hrejected,
        hjustified.mono (leads_refl _) _⟩, leads_refl _⟩
      rw [attachmentsOf_append, hattached]
      rfl

/-- `invalidate` ends an attached service in doubt. -/
theorem invalidate_holds (hs : Holds bytes s events stage) :
    ∃ next, Holds bytes s.invalidate events next ∧ stage.Leads next := by
  rw [invalidate]
  cases stage with
  | attached request =>
      have hclosed : Holds bytes { s with closed := true } events (.attached request) := hs
      have hdone : Holds bytes ({ s with closed := true }.finish .uncertain) (events ++ [])
          (.returned request .uncertain) := finish_holds hclosed (by decide) rfl trivial
      rw [List.append_nil] at hdone
      refine ⟨.returned request .uncertain, hdone, ?_⟩
      intro _ h
      cases h
  | idle =>
      rw [finish_of_message_none (by exact hs.1)]
      exact ⟨.idle, hs, leads_refl _⟩
  | waiting =>
      rw [finish_of_message_none (by exact hs.1)]
      exact ⟨.waiting, hs, leads_refl _⟩
  | refused outcome =>
      rw [finish_of_message_none (by exact hs.1)]
      exact ⟨.refused outcome, hs, leads_refl _⟩
  | returned request outcome =>
      rw [finish_of_message_none (by exact hs.1)]
      exact ⟨.returned request outcome, hs, leads_refl _⟩

theorem setVerifiedDebugService_holds (hs : Holds bytes s events stage) (port : ℕ) :
    Holds bytes (s.setVerifiedDebugService port) events stage := by
  rw [setVerifiedDebugService]
  split
  · exact hs
  · cases stage <;> exact hs

end ArenaPreparationService

namespace Handoff

/-- What holds of a hand-off of the request `bytes` in a stage of its service. -/
structure Sound (bytes : List UInt8) (h : Handoff) (stage : HandoffStage) : Prop where
  service : Holds bytes h.service h.debugger stage
  messages : ∀ m ∈ h.messages, ∃ command, tkacCommand bytes command = some m
  replies : ∀ reply, some reply ∈ h.replies → ∃ outcome, tkacReply bytes outcome = some reply ∧
    Justified bytes stage h.debugger outcome
  request : h.poller.request = bytes
  finished : h.poller.finished = false → h.poller.completions = []
  once : h.poller.completions.length ≤ 1
  completions : ∀ reply, some reply ∈ h.poller.completions →
    ∃ outcome, tkacReply bytes outcome = some reply ∧ Justified bytes stage h.debugger outcome

variable {bytes : List UInt8} {h : Handoff} {stage next : HandoffStage}

theorem Sound.move (hsound : h.Sound bytes stage) {s : ArenaPreparationService}
    {more : List DebuggerEvent} {answers : List (Option (List UInt8))}
    (hs : Holds bytes s (h.debugger ++ more) next) (hleads : stage.Leads next)
    (hanswers : ∀ reply, some reply ∈ answers → ∃ outcome, tkacReply bytes outcome = some reply ∧
      Justified bytes next (h.debugger ++ more) outcome) :
    Sound bytes
      { h with
        service := s
        replies := h.replies ++ answers
        debugger := h.debugger ++ more } next := by
  refine ⟨hs, hsound.messages, ?_, hsound.request, hsound.finished, hsound.once, ?_⟩
  · intro reply hreply
    rcases List.mem_append.mp hreply with hold | hnew
    · obtain ⟨outcome, heq, hjustified⟩ := hsound.replies reply hold
      exact ⟨outcome, heq, hjustified.mono hleads more⟩
    · exact hanswers reply hnew
  · intro reply hreply
    obtain ⟨outcome, heq, hjustified⟩ := hsound.completions reply hreply
    exact ⟨outcome, heq, hjustified.mono hleads more⟩

theorem Sound.move_silent (hsound : h.Sound bytes stage) {s : ArenaPreparationService}
    {more : List DebuggerEvent} (hs : Holds bytes s (h.debugger ++ more) next)
    (hleads : stage.Leads next) :
    Sound bytes { h with service := s, debugger := h.debugger ++ more } next := by
  have hnothing : ∀ reply, some reply ∈ ([] : List (Option (List UInt8))) →
      ∃ outcome, tkacReply bytes outcome = some reply ∧
        Justified bytes next (h.debugger ++ more) outcome :=
    fun _ hr => absurd hr List.not_mem_nil
  have hmoved := hsound.move hs hleads hnothing
  rw [List.append_nil] at hmoved
  exact hmoved

/-- The completion is called with nothing, or with a justified reply. -/
theorem Sound.finish (hsound : h.Sound bytes stage) {reply : Option (List UInt8)}
    (hreply : ∀ r, reply = some r → ∃ outcome, tkacReply bytes outcome = some r ∧
      Justified bytes stage h.debugger outcome) :
    Sound bytes { h with poller := h.poller.finish reply } stage := by
  cases hfinished : h.poller.finished with
  | true =>
      rw [LocalArenaPoller.finish, if_pos hfinished]
      exact hsound
  | false =>
      have hempty := hsound.finished hfinished
      rw [LocalArenaPoller.finish, if_neg (by rw [hfinished]; decide), hempty]
      refine ⟨hsound.service, hsound.messages, hsound.replies, hsound.request, ?_, le_rfl, ?_⟩
      · intro hnot
        cases hnot
      · intro r hr
        exact hreply r (List.mem_singleton.mp hr).symm

theorem Sound.finish_none (hsound : h.Sound bytes stage) :
    Sound bytes { h with poller := h.poller.finish none } stage :=
  hsound.finish fun _ hr => by cases hr

theorem Sound.update (hsound : h.Sound bytes stage) {p : LocalArenaPoller}
    (hrequest : p.request = h.poller.request) (hfinished : p.finished = h.poller.finished)
    (hcompletions : p.completions = h.poller.completions) :
    Sound bytes { h with poller := p } stage := by
  refine ⟨hsound.service, hsound.messages, hsound.replies, hrequest.trans hsound.request, ?_, ?_,
    ?_⟩
  · intro hnot
    exact hcompletions.trans (hsound.finished (hfinished.symm.trans hnot))
  · dsimp only
    rw [hcompletions]
    exact hsound.once
  · dsimp only
    rw [hcompletions]
    exact hsound.completions

theorem Sound.send (hsound : h.Sound bytes stage) (command : TKACCommand) (now : ℕ)
    (sent : Bool) :
    Sound bytes
      { h with
        poller := (h.poller.send command now sent).1
        messages := h.messages ++ (h.poller.send command now sent).2 } stage := by
  rw [LocalArenaPoller.send]
  cases hcommand : tkacCommand h.poller.request command with
  | none =>
      dsimp only
      rw [List.append_nil]
      exact hsound.finish_none
  | some message =>
      dsimp only
      have hupdated : Sound bytes
          { h with
            poller :=
              { h.poller with
                inflight := sent
                sentAt := now
                generation := h.poller.generation + 1 } } stage :=
        hsound.update rfl rfl rfl
      refine ⟨hupdated.service, ?_, hupdated.replies, hupdated.request, hupdated.finished,
        hupdated.once, hupdated.completions⟩
      intro m hm
      rcases List.mem_append.mp hm with hold | hnew
      · exact hsound.messages m hold
      · rw [List.mem_singleton.mp hnew]
        rw [hsound.request] at hcommand
        exact ⟨command, hcommand⟩

/-- A reply of the transport reaches the callback of a message. -/
theorem Sound.receive (hsound : h.Sound bytes stage) (generation : ℕ) (index : Option ℕ) :
    Sound bytes
      { h with
        poller := h.poller.receive generation ((index.bind (h.replies[·]?)).join) } stage := by
  rw [LocalArenaPoller.receive]
  split
  · exact hsound
  · have hupdated := hsound.update (p := { h.poller with inflight := false }) rfl rfl rfl
    dsimp only
    split
    · exact hupdated
    · split
      · exact hupdated
      · refine hupdated.finish fun reply hreply => hsound.replies reply ?_
        obtain ⟨i, -, hentry⟩ := Option.bind_eq_some_iff.mp (Option.join_eq_some_iff.mp hreply)
        exact List.mem_of_getElem? hentry

/-- One event keeps a hand-off sound, and a refusal final. -/
theorem Sound.step (hsound : h.Sound bytes stage) (event : HandoffEvent) :
    ∃ next, (h.step event).Sound bytes next ∧ stage.Leads next := by
  cases event with
  | deliver index =>
      rw [Handoff.step]
      split
      · exact ⟨stage, hsound, leads_refl _⟩
      · rename_i message hmessage
        obtain ⟨command, hcommand⟩ := hsound.messages message (List.mem_of_getElem? hmessage)
        obtain ⟨next, hnext, hleads, -, hreply⟩ :=
          ArenaPreparationService.handleAsync_holds hsound.service hcommand
        rw [← List.append_nil h.debugger] at hnext hreply
        refine ⟨next, ?_, hleads⟩
        have hmoved := hsound.move hnext hleads
          fun reply hin => hreply reply (List.mem_singleton.mp hin).symm
        rw [List.append_nil] at hmoved
        exact hmoved
  | answer generation index => exact ⟨stage, hsound.receive generation index, leads_refl _⟩
  | pollerTimer now sent =>
      refine ⟨stage, ?_, leads_refl _⟩
      have hstill : Sound bytes { h with messages := h.messages ++ [] } stage := by
        rw [List.append_nil]
        exact hsound
      rw [Handoff.step, LocalArenaPoller.tick]
      split
      · exact hstill
      · split
        · exact hstill.finish_none
        · split
          · exact hsound.send .poll now sent
          · exact hstill
  | runDeferred now =>
      obtain ⟨next, hnext, hleads⟩ := ArenaPreparationService.runDeferred_holds hsound.service now
      exact ⟨next, hsound.move_silent hnext hleads, hleads⟩
  | clientReturned result =>
      obtain ⟨next, hnext, hleads⟩ :=
        ArenaPreparationService.clientReturned_holds hsound.service result
      exact ⟨next, hsound.move_silent hnext hleads, hleads⟩
  | invalidate =>
      obtain ⟨next, hnext, hleads⟩ := ArenaPreparationService.invalidate_holds hsound.service
      rw [← List.append_nil h.debugger] at hnext
      have hmoved := hsound.move_silent hnext hleads
      rw [List.append_nil] at hmoved
      exact ⟨next, hmoved, hleads⟩
  | setVerifiedDebugService port =>
      have hnext := ArenaPreparationService.setVerifiedDebugService_holds hsound.service port
      rw [← List.append_nil h.debugger] at hnext
      have hmoved := hsound.move_silent hnext (leads_refl _)
      rw [List.append_nil] at hmoved
      exact ⟨stage, hmoved, leads_refl _⟩

/-- A whole run keeps a hand-off sound. -/
theorem Sound.run (hsound : h.Sound bytes stage) (events : List HandoffEvent) :
    ∃ next, (h.run events).Sound bytes next ∧ stage.Leads next := by
  induction events generalizing h stage with
  | nil => exact ⟨stage, hsound, leads_refl _⟩
  | cons event rest ih =>
      obtain ⟨middle, hmiddle, hfirst⟩ := hsound.step event
      obtain ⟨next, hnext, hrest⟩ := ih hmiddle
      refine ⟨next, hnext, fun outcome hstage => ?_⟩
      have hsame := hfirst outcome hstage
      rw [← hsame]
      exact hrest outcome (hsame.trans hstage)

theorem sound_start (pid euid : ℕ) (manager : Option ℕ) (closed : Bool) (bytes : List UInt8)
    (now : ℕ) (sent : Bool) :
    (start (.fresh pid euid manager closed) bytes now sent).Sound bytes .idle := by
  have hempty : ∀ p : LocalArenaPoller, p.request = bytes → p.completions = [] →
      Sound bytes
        { poller := p
          service := .fresh pid euid manager closed
          messages := []
          replies := []
          debugger := [] } .idle := by
    intro p hrequest hcompletions
    refine ⟨⟨rfl, rfl, rfl, rfl, rfl, rfl⟩, fun _ hm => absurd hm List.not_mem_nil,
      fun _ hr => absurd hr List.not_mem_nil, hrequest, fun _ => hcompletions, ?_, ?_⟩
    · dsimp only
      rw [hcompletions]
      exact Nat.zero_le _
    · dsimp only
      rw [hcompletions]
      exact fun _ hr => absurd hr List.not_mem_nil
  rw [start, LocalArenaPoller.start]
  split
  · exact (hempty (.unstarted bytes) rfl rfl).finish_none
  · split
    · exact (hempty (.unstarted bytes) rfl rfl).finish_none
    · exact (hempty _ rfl rfl).send .submit now sent

/-- The hand-off is safe under any order of messages, replies, timers and results: at
most one attachment, none because of a poll, at most one completion, and a completion
that tells the truth about the debugger. -/
theorem handoff_safe (pid euid : ℕ) (manager : Option ℕ) (closed : Bool) (request : List UInt8)
    (now : ℕ) (sent : Bool) (events : List HandoffEvent) :
    let h := (start (.fresh pid euid manager closed) request now sent).run events
    (h.attachments.length ≤ 1 ∧ ∀ a ∈ h.attachments, a.1 = .submit) ∧
    (∀ message, tkacCommand request .poll = some message →
      (h.service.handleAsync message).1 = h.service) ∧
    h.poller.completions.length ≤ 1 ∧
    ∀ reply, some reply ∈ h.poller.completions →
      (tkacMatch request reply = some .prepared → ∃ raw, tkacDecode request = some raw ∧
        .returned (.success raw.pid raw.challenge [⟨raw.address, raw.size⟩]) ∈ h.debugger) ∧
      (tkacMatch request reply = some .rejected ∨ tkacMatch request reply = some .failedDetached →
        (∀ more, (h.run more).attachments = []) ∨ .returned (.failure true) ∈ h.debugger) := by
  obtain ⟨stage, hsound, -⟩ :=
    (sound_start pid euid manager closed request now sent).run events
  refine ⟨hsound.service.attachments, fun message hmessage => ?_, hsound.once,
    fun reply hreply => ?_⟩
  · obtain ⟨_, _, _, hsame, _⟩ := ArenaPreparationService.handleAsync_holds hsound.service hmessage
    exact hsame rfl
  obtain ⟨outcome, heq, hjustified⟩ := hsound.completions reply hreply
  have hmatch := tkacMatch_reply heq
  rw [hmatch]
  refine ⟨fun hprepared => ?_, fun hfreed => ?_⟩
  · cases hprepared
    exact hjustified
  · rcases hfreed with hrejected | hdetached
    · cases hrejected
      have hstage : stage = .refused .rejected := hjustified
      refine Or.inl fun more => ?_
      obtain ⟨next, hnext, hleads⟩ := hsound.run more
      rw [hleads _ hstage, hstage] at hnext
      have hnone : _ = [] := hnext.service.2.2.2.2.2.1
      rw [attachments, hnone]
      rfl
    · cases hdetached
      exact Or.inr hjustified

/-- A request of process 100 for two pages at `0x10000000`. -/
def exampleRequest : List UInt8 :=
  tkacMagic ++ [0, 0, 0, 100, 0, 0, 1, 245, 0, 0, 0, 0, 16, 0, 0, 0, 0, 0, 0, 0, 0, 0, 128, 0,
    0, 0, 0, 0, 0, 0, 16, 0, 0, 0, 0, 0, 0, 0, 255, 255] ++
    List.replicate 32 7 ++ List.replicate 16 9

example : ((start (.fresh 7 501 (some 1) false) exampleRequest 0 true).run
    [.deliver 0, .runDeferred 0,
      .clientReturned (.success 100 (List.replicate 32 7) [⟨0x10000000, 32768⟩]),
      .pollerTimer 6000 true, .deliver 1, .deliver 0, .answer 2 (some 1)]).poller.completions.map
        (·.bind (tkacMatch exampleRequest)) = [some .prepared] := by decide

end Handoff

end Tolkara
