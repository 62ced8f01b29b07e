import Tolkara.Debugger.Conduct

/-!
# What the answers lead to

One lemma for each kind of answer. Where the answer is refused, the session is in trouble with
what was known before; where it is taken, the session goes on to its next stage.
-/

namespace Tolkara

open Library

namespace DebugArenaSession

/-- The transcript once a command that is no write follows. -/
theorem Transcript.writes_read {t : Transcript} {texts : List Text} (h : t.writes = [])
    (htexts : texts.filter IsWrite = []) : (⟨t.exchanges, texts⟩ : Transcript).writes = [] := by
  rw [writes, asked, List.filter_append] at h ⊢
  rw [htexts, (List.append_eq_nil_iff.1 h).1]
  rfl

/-- The loop over the features changes the packet size, if anything. -/
theorem supportedLoop_meets {T : Type} {s : DebugArenaSession T} {P : DebugArenaSession T → Prop}
    (hclosed : ∀ s' n, P s' → P { s' with packetSize := n }) (features : List Text) (seen : Bool)
    (hs : P s) : (supportedLoop features seen).Meets s (fun _ s' => P s') fun _ s' => P s' := by
  induction features generalizing s seen with
  | nil => exact hs
  | cons feature rest ih =>
      rw [supportedLoop]
      split
      · simp only [parsed, Attempt.meets_bind, Attempt.meets_check, Attempt.meets_lift,
          Attempt.meets_change]
        exact ⟨fun _ => ⟨fun maximum _ => ⟨fun _ => ih _ (hclosed _ _ hs), fun _ => hs⟩,
          fun _ _ => hs⟩, fun _ => hs⟩
      · exact ih _ hs

theorem Batched.answered {T : Type} {s : DebugArenaSession T} {t : Transcript}
    {batch : List (Text × Reply)} {asked : Text}
    {rest : List Text}
    (h : Batched s t batch) (hwaiting : t.waiting = asked :: rest) :
    ∃ reply, s.replies[s.replied]? = some reply ∧
      batch.drop s.replied = (asked, reply) :: batch.drop (s.replied + 1) ∧
      rest = (batch.drop (s.replied + 1)).map (·.1) := by
  have hmap := h.waiting
  rw [hwaiting] at hmap
  have hlt : s.replied < batch.length := by
    by_contra hge
    rw [List.drop_eq_nil_of_le (Nat.le_of_not_lt hge)] at hmap
    cases hmap
  rw [List.drop_eq_getElem_cons hlt, List.map_cons, List.cons.injEq] at hmap
  refine ⟨batch[s.replied].2, ?_, ?_, hmap.2⟩
  · rw [h.replies, List.getElem?_map, List.getElem?_eq_getElem hlt]
    rfl
  · rw [List.drop_eq_getElem_cons hlt, hmap.1]

theorem range_eq {T : Type} {request : DebugArenaRequest} {s : DebugArenaSession T}
    {r : DebugArenaRequest.Region} (hrequest : s.request = request)
    (hr : request.regions[s.index]? = some r) : s.range = r := by
  rw [range, hrequest, List.getD_eq_getElem?_getD, hr, Option.getD_some]

theorem finish_leads {T : Type} {request : DebugArenaRequest} {s : DebugArenaSession T}
    {t : Transcript} {reason : Reason} {detached : Bool} (honce : t.writes.Nodup)
    (hdetached : detached = true → t.exchanges.getLast? = some (ascii "D", ascii "OK"))
    {E : Reason → DebugArenaSession T → Prop} :
    (finish reason detached).Meets s (fun acts s' => Leads request s' t acts) E := by
  unfold finish
  simp only [Attempt.meets_bind, Attempt.meets_change, Attempt.meets_pure]
  exact .ended ⟨rfl, rfl⟩ honce hdetached

/-- The release is confirmed, after everything was prepared or after a failure. -/
theorem detachReply_leads {T : Type} {request : DebugArenaRequest} {s : DebugArenaSession T}
    {t : Transcript} {text : Text} (h : Troubled request s t)
    (halone : s.phase = .detach ∨ s.phase = .cleanup) {before : List (Text × Text)}
    (he : t.exchanges = before ++ [(ascii "D", text)])
    (hreleased : s.pendingFailure = none → text = ascii "OK" → Released request t.exchanges) :
    LeadsOn request t s (detachReply text) := by
  unfold LeadsOn detachReply
  simp only [Attempt.meets_bind, Attempt.meets_check, Attempt.meets_current, Attempt.meets_change]
  refine ⟨fun hok => ?_, fun _ => h⟩
  have hnone : s.outstanding = 0 := h.alone (.inr halone)
  cases hfailure : s.pendingFailure with
  | some reason =>
      refine (finish_leads h.once fun _ => ?_).imp (fun _ _ hleads => ⟨hleads, ?_⟩) fun _ _ => id
      · rw [he, hok, List.getLast?_concat]
      · rw [hnone]
        exact Nat.zero_le _
  | none =>
      simp only [Attempt.meets_bind, Attempt.meets_change, Attempt.meets_pure]
      rw [h.request_eq]
      exact ⟨.ended ⟨rfl, rfl⟩ h.once ⟨rfl, hreleased hfailure hok⟩, hnone.le⟩

variable {T : Type} [Clock T] {request : DebugArenaRequest} {s : DebugArenaSession T}
  {t : Transcript} {now : T} {text : Text}

/-! ## Before the process is known -/

/-- Nothing is known of the process yet. -/
structure Unknown (s : DebugArenaSession T) (t : Transcript) : Prop where
  attached : s.attached = false
  noFailure : s.pendingFailure = none
  reads : t.writes = []

theorem supportedReply_leads (h : Troubled request s t) (hunknown : Unknown s t) :
    LeadsOn request t s (supportedReply text now) := by
  unfold LeadsOn supportedReply
  refine Attempt.meets_bind.2 ((supportedLoop_meets
    (P := fun s' => (Troubled request s' t ∧ Unknown s' t) ∧ s.outstanding = s'.outstanding)
    (fun s' n h => ?_) _ _ ⟨⟨h, hunknown⟩, rfl⟩).imp (fun _ s' hs' => ?_) fun _ s' hs' => hs'.1.1)
  · exact ⟨⟨h.1.1.change rfl rfl h.1.1.noAck id, h.1.2.1, h.1.2.2, h.1.2.3⟩, h.2⟩
  · simp only [Attempt.meets_bind, Attempt.meets_change]
    obtain ⟨⟨h, hattached, hfailure, hreads⟩, houtstanding⟩ := hs'
    rw [houtstanding]
    refine command_leads (h.change rfl rfl h.noAck id) (fun _ => ⟨.inr rfl, by decide⟩) rfl
      fun _ => ?_
    exact ⟨hattached, hfailure, rfl, Transcript.writes_read hreads rfl⟩

theorem noAckReply_leads (h : Troubled request s t) (hunknown : Unknown s t) :
    LeadsOn request t s (noAckReply text now) := by
  unfold LeadsOn noAckReply
  simp only [Attempt.meets_bind, Attempt.meets_check, Attempt.meets_change]
  refine ⟨fun _ => ?_, fun _ => h⟩
  obtain ⟨hattached, hfailure, hreads⟩ := hunknown
  refine command_leads (h.change rfl rfl (fun _ => rfl) id) (fun hfalse => Bool.noConfusion hfalse)
    rfl fun _ => ?_
  exact ⟨hattached, hfailure, rfl, Transcript.writes_read hreads rfl⟩

theorem detachPolicyReply_leads (h : Troubled request s t) (hunknown : Unknown s t)
    (hnoAck : s.noAck = true) : LeadsOn request t s (detachPolicyReply text now) := by
  unfold LeadsOn detachPolicyReply
  simp only [Attempt.meets_bind, Attempt.meets_check, Attempt.meets_observe]
  refine ⟨fun _ => ?_, fun _ => h⟩
  obtain ⟨hattached, hfailure, hreads⟩ := hunknown
  refine command_leads h (fun hfalse => ?_) (isWrite_attachText _) fun _ => ?_
  · rw [hnoAck] at hfalse
    cases hfalse
  · exact ⟨hattached, hfailure, rfl, Transcript.writes_read hreads rfl⟩

theorem attachReply_leads (h : Troubled request s t) (hunknown : Unknown s t)
    (hnoAck : s.noAck = true) : LeadsOn request t s (attachReply text now) := by
  unfold LeadsOn attachReply
  simp only [parsed, Attempt.meets_bind, Attempt.meets_check, Attempt.meets_lift,
    Attempt.meets_change]
  refine ⟨fun _ => ⟨fun _ _ => ?_, fun _ _ => h⟩, fun _ => h⟩
  obtain ⟨hattached, hfailure, hreads⟩ := hunknown
  refine command_leads (h.change rfl rfl (fun _ => hnoAck) fun _ => .inl hattached)
    (fun hfalse => ?_) rfl fun _ => ?_
  · dsimp only at hfalse
    rw [hnoAck] at hfalse
    cases hfalse
  · exact ⟨⟨rfl, hnoAck, hfailure⟩, rfl, Transcript.writes_read hreads rfl⟩

/-! ## The process and its challenge -/

/-- In a session that works, acknowledgements stay off. -/
theorem Working.command_leads {phase : Phase} {command : Text} (hworking : Working s)
    (h : Troubled request s t) (hread : IsWrite command = false)
    (hstage : ∀ packets,
      Stage request (sending s [command] packets phase now) ⟨t.exchanges, [command]⟩) :
    LeadsOn request t s (DebugArenaSession.command command phase now) := by
  refine DebugArenaSession.command_leads h (fun hfalse => ?_) hread hstage
  rw [hworking.noAck] at hfalse
  cases hfalse

theorem processReply_leads (h : Troubled request s t) (hphase : s.phase = .process)
    (hworking : Working s) (hreads : t.writes = [])
    (hmem : (ascii "qProcessInfo", text) ∈ t.exchanges) :
    LeadsOn request t s (processReply text now) := by
  unfold LeadsOn processReply
  simp only [Attempt.meets_bind, Attempt.meets_current, Attempt.meets_lift]
  refine ⟨fun _ hcheck => ?_, fun _ _ => h⟩
  obtain rfl := h.request_eq
  rw [if_neg (by rw [hphase]; decide)]
  exact hworking.command_leads h (isWrite_readText _ _) fun _ =>
    ⟨⟨hworking.1, hworking.2, hworking.3⟩, rfl, Transcript.writes_read hreads rfl, text, hmem,
      checkProcess_ok hcheck⟩

theorem finalProcessReply_leads (h : Troubled request s t) (hphase : s.phase = .finalProcess)
    (hworking : Working s) {before : List (Text × Text)}
    (he : t.exchanges = before ++ [(ascii "qProcessInfo", text)]) (hfresh : Fresh request before)
    (hpages : ∀ address ∈ pages request, PageWritten before address) :
    LeadsOn request t s (processReply text now) := by
  unfold LeadsOn processReply
  simp only [Attempt.meets_bind, Attempt.meets_current, Attempt.meets_lift]
  refine ⟨fun _ hcheck => ?_, fun _ _ => h⟩
  obtain rfl := h.request_eq
  rw [if_pos hphase]
  exact hworking.command_leads h (isWrite_readText _ _) fun _ =>
    ⟨⟨hworking.1, hworking.2, hworking.3⟩, rfl, before, text, he, hfresh, hpages,
      checkProcess_ok hcheck⟩

theorem region_zero (request : DebugArenaRequest) :
    request.regions[0]? = some (request.regions.getD 0 ⟨0, 0⟩) := by
  cases hregions : request.regions with
  | nil => exact absurd hregions request.regions_ne_nil
  | cons r rest => rfl

theorem challengeReply_leads (h : Troubled request s t) (hphase : s.phase = .challenge)
    (hworking : Working s) (hreads : t.writes = [])
    (hmem : (readText request.challengeAddress 32, text) ∈ t.exchanges)
    (hprocess : ∃ text, (ascii "qProcessInfo", text) ∈ t.exchanges ∧ RightProcess request text) :
    LeadsOn request t s (challengeReply text now) := by
  unfold LeadsOn challengeReply
  simp only [Attempt.meets_bind, Attempt.meets_current, Attempt.meets_lift]
  refine ⟨fun _ hcheck => ?_, fun _ _ => h⟩
  obtain rfl := h.request_eq
  rw [if_neg (by rw [hphase]; decide)]
  simp only [Attempt.meets_bind, Attempt.meets_change]
  have hworking' : Working { s with
      index := 0, regionCursor := (s.request.regions.getD 0 ⟨0, 0⟩).address } :=
    ⟨hworking.1, hworking.2, hworking.3⟩
  refine hworking'.command_leads (h.change rfl rfl h.noAck id) (isWrite_regionText _) fun _ => ?_
  refine ⟨⟨hworking.1, hworking.2, hworking.3⟩, rfl, Transcript.writes_read hreads rfl,
    ⟨hprocess, text, hmem, checkChallenge_ok hcheck⟩, ?_, _, region_zero s.request, le_rfl, ?_⟩
  · intro r hr
    exact absurd hr List.not_mem_nil
  · intro a hlo hhi
    dsimp only [sending] at hhi
    omega

theorem finalChallengeReply_leads (h : Troubled request s t) (hphase : s.phase = .finalChallenge)
    (hworking : Working s) {before : List (Text × Text)} {process : Text}
    (he : t.exchanges = before ++ [(ascii "qProcessInfo", process),
      (readText request.challengeAddress 32, text)]) (hfresh : Fresh request before)
    (hpages : ∀ address ∈ pages request, PageWritten before address)
    (hprocess : RightProcess request process) :
    LeadsOn request t s (challengeReply text now) := by
  unfold LeadsOn challengeReply
  simp only [Attempt.meets_bind, Attempt.meets_current, Attempt.meets_lift]
  refine ⟨fun _ hcheck => ?_, fun _ _ => h⟩
  obtain rfl := h.request_eq
  rw [if_pos hphase]
  exact hworking.command_leads h rfl fun _ =>
    ⟨hworking.3, rfl, before, process, text, he, hfresh, hpages, hprocess,
      checkChallenge_ok hcheck⟩

/-! ## Batches -/

theorem checkReply_zeros_iff {count : ℕ} :
    checkReply (.zeros count) text = .ok () ↔ AllZero text count := by
  simp only [checkReply, bind_ok, need_ok, mapError_ok, AllZero]

theorem Settled.answered {e : List (Text × Text)} {asked : Text} {reply : Reply}
    {waiting : List (Text × Reply)} {item : Text × Reply}
    (h : Settled e ((asked, reply) :: waiting) item) (hcheck : checkReply reply text = .ok ()) :
    Settled (e ++ [(asked, text)]) waiting item := by
  rcases h with hwaiting | ⟨answer, hmem, hok⟩
  · rcases List.mem_cons.1 hwaiting with rfl | hlater
    · exact .inr ⟨text, List.mem_append_right _ (List.mem_singleton.2 rfl), hcheck⟩
    · exact .inl hlater
  · exact .inr ⟨answer, List.mem_append_left _ hmem, hok⟩

/-- When nothing of the batch is waiting, everything was answered. -/
theorem Settled.zeroAt {e : List (Text × Text)} {a address count : ℕ}
    (h : Settled e [] (readText address count, .zeros count)) (hlo : address ≤ a)
    (hhi : a < address + count) : ZeroAt e a := by
  rcases h with hwaiting | ⟨answer, hmem, hok⟩
  · exact absurd hwaiting List.not_mem_nil
  · exact ⟨address, count, answer, hmem, checkReply_zeros_iff.1 hok, hlo, hhi⟩

theorem pageWritten_of_settled {e : List (Text × Text)} {address : ℕ}
    (h : ∀ item ∈ pageBatch address, Settled e [] item) : PageWritten e address := by
  have hwrite := h (writeText address, .ok) List.mem_cons_self
  have hread := h (readText address 1, .zeros 1) (List.mem_cons_of_mem _ List.mem_cons_self)
  rcases hwrite with hwaiting | ⟨answer, hmem, hok⟩
  · exact absurd hwaiting List.not_mem_nil
  · rcases hread with hwaiting | ⟨read, hmemRead, hzero⟩
    · exact absurd hwaiting List.not_mem_nil
    · have hanswer : answer = ascii "OK" := checkReply_ok hok
      rw [hanswer] at hmem
      exact ⟨hmem, read, hmemRead, checkReply_zeros_iff.1 hzero⟩

theorem PageWritten.settled {e : List (Text × Text)} {address : ℕ} (h : PageWritten e address)
    (waiting : List (Text × Reply)) : ∀ item ∈ pageBatch address, Settled e waiting item := by
  obtain ⟨hwritten, read, hmem, hzero⟩ := h
  intro item hitem
  rcases List.mem_cons.1 hitem with rfl | hitem
  · exact .inr ⟨_, hwritten, rfl⟩
  · rw [List.mem_singleton.1 hitem]
    exact .inr ⟨read, hmem, checkReply_zeros_iff.2 hzero⟩

theorem filter_isWrite_reads {batch : List (Text × Reply)}
    (h : ∀ item ∈ batch, ∃ address count, item = (readText address count, .zeros count)) :
    (batch.map (·.1)).filter IsWrite = [] := by
  rw [List.filter_eq_nil_iff]
  intro text htext
  obtain ⟨item, hitem, rfl⟩ := List.mem_map.1 htext
  obtain ⟨address, count, rfl⟩ := h item hitem
  rw [isWrite_readText]
  exact Bool.false_ne_true

theorem preflightBatch_leads {r : DebugArenaRequest.Region} (h : Troubled request s t)
    (hworking : Working s) (hreads : t.writes = []) (hidentified : Identified request t.exchanges)
    (hearlier : Earlier request s.index t.exchanges) (hr : request.regions[s.index]? = some r)
    (hreported : ∀ a, r.address ≤ a → a < r.address + r.size → ReportedAt t.exchanges a)
    (hoffset : s.offset ≤ r.size)
    (hzero : ∀ a, r.address ≤ a → a < r.address + s.offset → ZeroAt t.exchanges a) :
    LeadsOn request t s (preflightBatch now) := by
  unfold LeadsOn preflightBatch
  simp only [Attempt.meets_bind, Attempt.meets_current, Attempt.meets_change]
  rw [range_eq h.request_eq hr]
  have hnothing : ∀ a, r.address + s.offset ≤ a → a < r.address + s.offset →
      ∃ address count, (readText address count, Reply.zeros count) ∈ [] ∧
        address ≤ a ∧ a < address + count := fun a hlo hhi => absurd hhi (Nat.not_lt.2 hlo)
  obtain ⟨hle, hbatch, hcovered⟩ := preflightLoop_spec s.chunk readsPerBatch s.offset hoffset
    (fun _ hitem => absurd hitem List.not_mem_nil) hnothing
  generalize preflightLoop r s.chunk readsPerBatch s.offset [] = result at hle hbatch hcovered ⊢
  have hnone := filter_isWrite_reads hbatch
  refine send_leads (h.change rfl rfl h.noAck id) (fun hfalse => ?_) ?_
    (fun text htext hwrite => ?_) fun _ _ => ?_
  · dsimp only at hfalse
    rw [hworking.noAck] at hfalse
    cases hfalse
  · rw [hnone, List.append_nil]
    exact h.once
  · have hmem := List.mem_filter.2 ⟨htext, hwrite⟩
    rw [hnone] at hmem
    exact absurd hmem List.not_mem_nil
  · refine ⟨⟨hworking.1, hworking.2, hworking.3⟩, Transcript.writes_read hreads hnone,
      hidentified, hearlier, r, result.1, hr, hle, ⟨rfl, rfl⟩, hreported, fun a hlo hhi => ?_⟩
    by_cases hold : a < r.address + s.offset
    · obtain ⟨address, count, answer, hmem, hall, hbounds⟩ := hzero a hlo hold
      exact ⟨address, count, .inr ⟨answer, hmem, checkReply_zeros_iff.2 hall⟩, hbounds⟩
    · obtain ⟨address, count, hmem, hbounds⟩ := hcovered a (by omega) hhi
      exact ⟨address, count, .inl hmem, hbounds⟩

theorem valid_regions (request : DebugArenaRequest) :
    ∀ r ∈ request.regions, 0 < r.size ∧ r.size % page = 0 := by
  intro r hr
  obtain ⟨-, -, hpos, -, haligned, -⟩ := request.regions_valid r hr
  exact ⟨hpos, haligned⟩

theorem prepareBatch_leads (before : List ℕ) (h : Troubled request s t) (hworking : Working s)
    (hfresh : Fresh request t.exchanges) (hplace : OnPage request.regions (s.index, s.offset))
    (hpages : pages request = before ++ remaining request.regions (s.index, s.offset))
    (hwrites : t.writes = before.map writeText)
    (hwritten : ∀ address ∈ before, PageWritten t.exchanges address) :
    LeadsOn request t s (prepareBatch now) := by
  unfold LeadsOn prepareBatch
  simp only [Attempt.meets_bind, Attempt.meets_current, Attempt.meets_change]
  rw [h.request_eq]
  obtain ⟨next, hremaining, hbatch, hlast⟩ :=
    prepareLoop_spec (valid_regions request) pagesPerBatch hplace []
  rw [List.nil_append] at hbatch
  generalize prepareLoop request.regions pagesPerBatch (s.index, s.offset) [] = result
    at hremaining hbatch hlast ⊢
  rw [hremaining, ← List.append_assoc] at hpages
  have hfilter : (result.1.map (·.1)).filter IsWrite = next.map writeText := by
    rw [hbatch, writes_pageBatch]
  have hall : t.writes ++ (result.1.map (·.1)).filter IsWrite = (before ++ next).map writeText := by
    rw [hwrites, hfilter, List.map_append]
  refine send_leads ?_ (fun hfalse => ?_) ?_ (fun text htext hwrite => ?_) fun hnone _ => ?_
  · exact h.change h.request_eq.symm rfl h.noAck id
  · dsimp only at hfalse
    rw [hworking.noAck] at hfalse
    cases hfalse
  · rw [hall]
    exact nodup_writes request ⟨_, hpages.symm⟩
  · have hmem := List.mem_filter.2 ⟨htext, hwrite⟩
    rw [hfilter] at hmem
    obtain ⟨address, haddress, rfl⟩ := List.mem_map.1 hmem
    refine ⟨hfresh, address, ?_, rfl⟩
    rw [hpages]
    exact List.mem_append_left _ (List.mem_append_right _ haddress)
  · refine ⟨⟨hworking.1, hworking.2, hworking.3⟩, hfresh, hlast, before ++ next, result.1,
      hpages, ?_, ⟨rfl, rfl⟩, fun address haddress item hitem => ?_⟩
    · rw [← hall, Transcript.writes, Transcript.writes, Transcript.asked, Transcript.asked, hnone,
        List.append_nil, List.filter_append]
    · rcases List.mem_append.1 haddress with hold | hnew
      · exact (hwritten address hold).settled _ item hitem
      · refine .inl ?_
        change item ∈ result.1
        rw [hbatch]
        exact List.mem_flatMap.2 ⟨address, hnew, hitem⟩

theorem regionReply_leads {r : DebugArenaRequest.Region} (h : Troubled request s t)
    (hworking : Working s) (hreads : t.writes = []) (hidentified : Identified request t.exchanges)
    (hearlier : Earlier request s.index t.exchanges) (hr : request.regions[s.index]? = some r)
    (hcursor : r.address ≤ s.regionCursor)
    (hreported : ∀ a, r.address ≤ a → a < s.regionCursor → ReportedAt t.exchanges a)
    (hmem : (regionText s.regionCursor, text) ∈ t.exchanges) :
    LeadsOn request t s (regionReply text now) := by
  unfold LeadsOn regionReply
  simp only [Attempt.meets_bind, Attempt.meets_current, Attempt.meets_lift, Attempt.meets_change]
  refine ⟨fun reported hcheck => ?_, fun _ _ => h⟩
  obtain ⟨base, size⟩ := reported
  obtain ⟨hfree, hlo, hhi⟩ := checkRegion_ok hcheck
  rw [range_eq h.request_eq hr]
  have hnow : ∀ a, r.address ≤ a → a < base + size → ReportedAt t.exchanges a := by
    intro a ha hsize
    by_cases hold : a < s.regionCursor
    · exact hreported a ha hold
    · exact ⟨s.regionCursor, text, base, size, hmem, hfree, by omega, hsize⟩
  split
  · rename_i hmore
    refine Working.command_leads ⟨hworking.1, hworking.2, hworking.3⟩
      (h.change rfl rfl h.noAck id) (isWrite_regionText _) fun _ => ?_
    refine ⟨⟨hworking.1, hworking.2, hworking.3⟩, rfl, Transcript.writes_read hreads rfl,
      hidentified, hearlier, r, hr, ?_, fun a ha hlt => ?_⟩
    · dsimp only [sending]
      omega
    · dsimp only [sending] at hlt
      exact hnow a ha (by omega)
  · rename_i hdone
    simp only [Attempt.meets_bind, Attempt.meets_change]
    refine preflightBatch_leads (r := r) (h.change rfl rfl h.noAck id)
      ⟨hworking.1, hworking.2, hworking.3⟩ hreads hidentified hearlier hr (fun a ha hlt => ?_)
      (Nat.zero_le _) fun a ha hlt => ?_
    · exact hnow a ha (by omega)
    · dsimp only at hlt
      omega

/-- Once the last region is read, everything is fresh. -/
theorem fresh_of_earlier {e : List (Text × Text)} (hidentified : Identified request e)
    (h : Earlier request request.regions.length e) : Fresh request e := by
  unfold Earlier at h
  rw [List.take_length] at h
  exact ⟨hidentified, fun r hr a hlo hhi => (h r hr a hlo hhi).1,
    fun r hr a hlo hhi => (h r hr a hlo hhi).2⟩

theorem Earlier.succ {e : List (Text × Text)} {index : ℕ} {r : DebugArenaRequest.Region}
    (h : Earlier request index e) (hr : request.regions[index]? = some r)
    (hnew : ∀ a, r.address ≤ a → a < r.address + r.size → ReportedAt e a ∧ ZeroAt e a) :
    Earlier request (index + 1) e := by
  intro r' hr' a hlo hhi
  rw [List.take_add_one, hr] at hr'
  rcases List.mem_append.1 hr' with hold | hlast
  · exact h r' hold a hlo hhi
  · obtain rfl : r' = r := List.mem_singleton.1 hlast
    exact hnew a hlo hhi

theorem Earlier.mono {e e' : List (Text × Text)} {index : ℕ} (h : Earlier request index e)
    (hsub : e ⊆ e') : Earlier request index e' := by
  intro r hr a hlo hhi
  obtain ⟨hreported, hzero⟩ := h r hr a hlo hhi
  exact ⟨hreported.mono hsub, hzero.mono hsub⟩

/-- The last answer of a batch of reads: the next batch, the next region or the first write. -/
theorem preflightReply_leads {t' : Transcript} (hphase : s.phase = .preflight)
    (hstage : Stage request s t) (ht' : t' = t.next (.answered text)) (hpos : t.waiting ≠ [])
    (h : Troubled request s t') : LeadsOn request t' s (batchReply text now) := by
  unfold Stage at hstage
  rw [hphase] at hstage
  obtain ⟨hworking, hreads, hidentified, hearlier, r, batch, hr, hoffset, hbatch, hreported,
    hzero⟩ := hstage
  obtain ⟨asked, rest, hwaiting⟩ := List.exists_cons_of_ne_nil hpos
  obtain ⟨reply, hreply, hdrop, hrest⟩ := hbatch.answered hwaiting
  have hwrites : t'.writes = [] := by rw [ht', Transcript.writes_answered, hreads]
  rw [Transcript.next_answered hwaiting] at ht'
  subst ht'
  have hsub : t.exchanges ⊆ t.exchanges ++ [(asked, text)] := List.subset_append_left _ _
  have hworking' (replied : ℕ) : Working { s with replied := replied } :=
    ⟨hworking.1, hworking.2, hworking.3⟩
  have htroubled (replied : ℕ) : Troubled request { s with replied := replied }
      ⟨t.exchanges ++ [(asked, text)], rest⟩ := h.change rfl rfl h.noAck id
  unfold LeadsOn batchReply
  simp only [Attempt.meets_bind, Attempt.meets_current, Attempt.meets_lift, Attempt.meets_change]
  refine ⟨fun reply' hreply' => ⟨fun _ hcheck => ?_, fun _ _ => h⟩, fun _ _ => h⟩
  obtain rfl : reply = reply' := by
    rw [hreply] at hreply'
    exact Option.some.inj (obtained_ok.1 hreply')
  have hsettled : ∀ a, r.address ≤ a → a < r.address + s.offset → ∃ address count,
      Settled (t.exchanges ++ [(asked, text)]) (batch.drop (s.replied + 1))
        (readText address count, .zeros count) ∧ address ≤ a ∧ a < address + count := by
    intro a hlo hhi
    obtain ⟨address, count, hsettled, hbounds⟩ := hzero a hlo hhi
    rw [hdrop] at hsettled
    exact ⟨address, count, hsettled.answered hcheck, hbounds⟩
  split
  · refine ⟨.going ((hworking' _).going (htroubled _) ?_), le_rfl⟩
    unfold Stage
    rw [hphase]
    exact ⟨⟨hworking.1, hworking.2, hworking.3⟩, hwrites, hidentified.mono hsub, hearlier.mono hsub, r, batch, hr, hoffset,
      ⟨hbatch.replies, hrest⟩, fun a hlo hhi => (hreported a hlo hhi).mono hsub, hsettled⟩
  · rename_i hnone
    have hrestNil : rest = [] := by
      rw [← List.length_eq_zero_iff, h.waiting]
      exact not_not.1 hnone
    rw [hrestNil] at hrest
    rw [List.map_eq_nil_iff.1 hrest.symm] at hsettled
    have hzeroAt : ∀ a, r.address ≤ a → a < r.address + s.offset →
        ZeroAt (t.exchanges ++ [(asked, text)]) a := by
      intro a hlo hhi
      obtain ⟨address, count, hdone, hbounds⟩ := hsettled a hlo hhi
      exact hdone.zeroAt hbounds.1 hbounds.2
    have hrange := range_eq h.request_eq hr
    have hrange' (replied : ℕ) : range { s with replied := replied } = r := hrange
    rw [if_neg (by rw [hphase]; decide), hrange']
    split
    · exact preflightBatch_leads (r := r) (htroubled _) (hworking' _) hwrites
        (hidentified.mono hsub) (hearlier.mono hsub) hr
        (fun a hlo hhi => (hreported a hlo hhi).mono hsub) hoffset hzeroAt
    · rename_i hall
      have hoffset' : s.offset = r.size := by omega
      have hsucc : Earlier request (s.index + 1) (t.exchanges ++ [(asked, text)]) :=
        (hearlier.mono hsub).succ hr fun a hlo hhi =>
          ⟨(hreported a hlo hhi).mono hsub, hzeroAt a hlo (by omega)⟩
      simp only [Attempt.meets_bind, Attempt.meets_current, Attempt.meets_change]
      rw [h.request_eq]
      split
      · rename_i hmore
        simp only [Attempt.meets_bind, Attempt.meets_change]
        have hnext : request.regions[s.index + 1]? = some request.regions[s.index + 1] :=
          List.getElem?_eq_getElem hmore
        have hnextRange : range { s with
            request := request, replied := s.replied + 1, index := s.index + 1 } =
              request.regions[s.index + 1] := range_eq rfl hnext
        refine Working.command_leads ⟨hworking.1, hworking.2, hworking.3⟩
          (h.change h.request_eq.symm rfl h.noAck id) (isWrite_regionText _) fun _ => ?_
        refine ⟨⟨hworking.1, hworking.2, hworking.3⟩, rfl, Transcript.writes_read hwrites rfl,
          hidentified.mono hsub, hsucc, _, hnext, ?_, fun a hlo hhi => ?_⟩
        · dsimp only [sending]
          rw [hnextRange]
        · dsimp only [sending] at hhi
          rw [hnextRange] at hhi
          omega
      · rename_i hlast
        simp only [Attempt.meets_bind, Attempt.meets_change]
        have hlength : request.regions.length ≤ s.index + 1 := Nat.le_of_not_lt hlast
        have hwhole : Earlier request request.regions.length (t.exchanges ++ [(asked, text)]) := by
          intro r' hr'
          rw [List.take_length] at hr'
          refine hsucc r' ?_
          rwa [List.take_of_length_le hlength]
        have hnone : ∀ address ∈ ([] : List ℕ),
            PageWritten (t.exchanges ++ [(asked, text)]) address :=
          fun address haddress => absurd haddress List.not_mem_nil
        refine prepareBatch_leads [] (h.change h.request_eq.symm rfl h.noAck id)
          ⟨hworking.1, hworking.2, hworking.3⟩ (fresh_of_earlier (hidentified.mono hsub) hwhole)
          ⟨rfl, fun r' hr' => (valid_regions request r' (List.mem_of_getElem? hr')).1⟩ ?_ hwrites
          hnone
        rw [List.nil_append, remaining_start]
        rfl

/-- The last answer of a batch of writes: the next batch or the last look at the process. -/
theorem prepareReply_leads {t' : Transcript} (hphase : s.phase = .prepare)
    (hstage : Stage request s t) (ht' : t' = t.next (.answered text)) (hpos : t.waiting ≠ [])
    (h : Troubled request s t') : LeadsOn request t' s (batchReply text now) := by
  unfold Stage at hstage
  rw [hphase] at hstage
  obtain ⟨hworking, hfresh, hplace, before, batch, hpages, hwrites, hbatch, hsettled⟩ := hstage
  obtain ⟨asked, rest, hwaiting⟩ := List.exists_cons_of_ne_nil hpos
  obtain ⟨reply, hreply, hdrop, hrest⟩ := hbatch.answered hwaiting
  have hwrites' : t'.writes = before.map writeText := by
    rw [ht', Transcript.writes_answered, hwrites]
  rw [Transcript.next_answered hwaiting] at ht'
  subst ht'
  have hsub : t.exchanges ⊆ t.exchanges ++ [(asked, text)] := List.subset_append_left _ _
  have hworking' (replied : ℕ) : Working { s with replied := replied } :=
    ⟨hworking.1, hworking.2, hworking.3⟩
  have htroubled (replied : ℕ) : Troubled request { s with replied := replied }
      ⟨t.exchanges ++ [(asked, text)], rest⟩ := h.change rfl rfl h.noAck id
  unfold LeadsOn batchReply
  simp only [Attempt.meets_bind, Attempt.meets_current, Attempt.meets_lift, Attempt.meets_change]
  refine ⟨fun reply' hreply' => ⟨fun _ hcheck => ?_, fun _ _ => h⟩, fun _ _ => h⟩
  obtain rfl : reply = reply' := by
    rw [hreply] at hreply'
    exact Option.some.inj (obtained_ok.1 hreply')
  have hsettled' : ∀ address ∈ before, ∀ item ∈ pageBatch address,
      Settled (t.exchanges ++ [(asked, text)]) (batch.drop (s.replied + 1)) item := by
    intro address haddress item hitem
    have hold := hsettled address haddress item hitem
    rw [hdrop] at hold
    exact hold.answered hcheck
  split
  · refine ⟨.going ((hworking' _).going (htroubled _) ?_), le_rfl⟩
    unfold Stage
    rw [hphase]
    exact ⟨⟨hworking.1, hworking.2, hworking.3⟩, hfresh.mono hsub, hplace, before, batch, hpages,
      hwrites', ⟨hbatch.replies, hrest⟩, hsettled'⟩
  · rename_i hnone
    have hrestNil : rest = [] := by
      rw [← List.length_eq_zero_iff, h.waiting]
      exact not_not.1 hnone
    rw [hrestNil] at hrest
    rw [List.map_eq_nil_iff.1 hrest.symm] at hsettled'
    have hwritten : ∀ address ∈ before, PageWritten (t.exchanges ++ [(asked, text)]) address :=
      fun address haddress => pageWritten_of_settled (hsettled' address haddress)
    obtain rfl := h.request_eq
    split
    · exact prepareBatch_leads before (htroubled _) (hworking' _) (hfresh.mono hsub) hplace hpages
        hwrites' hwritten
    · rename_i hlast
      have hover : remaining s.request.regions (s.index, s.offset) = [] := by
        rw [remaining, List.getElem?_eq_none (Nat.le_of_not_lt hlast)]
      rw [hover, List.append_nil] at hpages
      rw [← hpages] at hwritten
      exact (hworking' _).command_leads (htroubled _) rfl fun _ =>
        ⟨⟨hworking.1, hworking.2, hworking.3⟩, rfl, hfresh.mono hsub, hwritten⟩

theorem reply_leads (hstage : Stage request s t) (hidle : s.phase ≠ .idle)
    (hne : t.waiting ≠ [])
    (hnoAck : s.phase ≠ .supported → s.phase ≠ .noAck → s.noAck = true)
    (h : Troubled request s (t.next (.answered text))) :
    LeadsOn request (t.next (.answered text)) s (reply text now) := by
  have hwrites : (t.next (.answered text)).writes = t.writes := Transcript.writes_answered text
  have hsub : t.exchanges ⊆ (t.next (.answered text)).exchanges := Transcript.extends_next _
  have hexchanges {asked : Text} {rest : List Text} (hwaiting : t.waiting = asked :: rest) :
      (t.next (.answered text)).exchanges = t.exchanges ++ [(asked, text)] := by
    rw [Transcript.next_answered hwaiting]
  have hmem {asked : Text} {rest : List Text} (hwaiting : t.waiting = asked :: rest) :
      (asked, text) ∈ (t.next (.answered text)).exchanges := by
    rw [hexchanges hwaiting]
    exact List.mem_append_right _ (List.mem_singleton.2 rfl)
  have hbatch := hstage
  unfold Stage at hstage
  unfold LeadsOn reply
  simp only [Attempt.meets_bind, Attempt.meets_current]
  by_cases hdraining : s.phase = .draining
  · rw [if_pos hdraining]
    rw [hdraining] at hstage
    split
    · refine command_leads h (fun hfalse => ?_) rfl fun _ => ⟨rfl, hstage.2.2⟩
      rw [hstage.2.1] at hfalse
      cases hfalse
    · refine ⟨.going ⟨h.request_eq, h.waiting, h.once, fun hfalse => ?_, ?_⟩, le_rfl⟩
      · rw [hstage.2.1] at hfalse
        cases hfalse
      · unfold Stage
        rw [hdraining]
        exact hstage
  · rw [if_neg hdraining]
    simp only [Attempt.meets_bind, Attempt.meets_check]
    refine ⟨fun _ => ?_, fun _ => h⟩
    rw [← hwrites] at hstage
    cases hphase : s.phase with
    | idle => exact absurd hphase hidle
    | draining => exact absurd hphase hdraining
    | supported =>
        rw [hphase] at hstage
        exact supportedReply_leads h ⟨hstage.1, hstage.2.1, hstage.2.2.2⟩
    | noAck =>
        rw [hphase] at hstage
        exact noAckReply_leads h ⟨hstage.1, hstage.2.1, hstage.2.2.2⟩
    | detachPolicy =>
        rw [hphase] at hstage hnoAck
        exact detachPolicyReply_leads h ⟨hstage.1, hstage.2.1, hstage.2.2.2⟩
          (hnoAck (by decide) (by decide))
    | attach =>
        rw [hphase] at hstage hnoAck
        exact attachReply_leads h ⟨hstage.1, hstage.2.1, hstage.2.2.2⟩
          (hnoAck (by decide) (by decide))
    | process =>
        rw [hphase] at hstage
        obtain ⟨hworking, hwaiting, hreads⟩ := hstage
        exact processReply_leads h hphase hworking hreads (hmem hwaiting)
    | challenge =>
        rw [hphase] at hstage
        obtain ⟨hworking, hwaiting, hreads, answer, hanswer, hright⟩ := hstage
        exact challengeReply_leads h hphase hworking hreads (hmem hwaiting)
          ⟨answer, hsub hanswer, hright⟩
    | region =>
        rw [hphase] at hstage
        obtain ⟨hworking, hwaiting, hreads, hidentified, hearlier, r, hr, hcursor, hreported⟩ :=
          hstage
        exact regionReply_leads h hworking hreads (hidentified.mono hsub) (hearlier.mono hsub) hr
          hcursor (fun a hlo hhi => (hreported a hlo hhi).mono hsub) (hmem hwaiting)
    | preflight => exact preflightReply_leads hphase hbatch rfl hne h
    | prepare => exact prepareReply_leads hphase hbatch rfl hne h
    | finalProcess =>
        rw [hphase] at hstage
        obtain ⟨hworking, hwaiting, hfresh, hpages⟩ := hstage
        exact finalProcessReply_leads h hphase hworking (hexchanges hwaiting) hfresh hpages
    | finalChallenge =>
        rw [hphase] at hstage
        obtain ⟨hworking, hwaiting, before, process, he, hfresh, hpages, hright⟩ := hstage
        refine finalChallengeReply_leads h hphase hworking ?_ hfresh hpages hright
        rw [hexchanges hwaiting, he, List.append_assoc]
        rfl
    | detach =>
        rw [hphase] at hstage
        obtain ⟨-, hwaiting, before, process, challenge, he, hfresh, hpages, hright,
          hchallenge⟩ := hstage
        refine detachReply_leads h (.inl hphase) (hexchanges hwaiting) fun _ hok =>
          ⟨before, process, challenge, ?_, hfresh, hpages, hright, hchallenge⟩
        rw [hexchanges hwaiting, he, hok, List.append_assoc]
        rfl
    | cleanup =>
        rw [hphase] at hstage
        obtain ⟨hwaiting, hfailure⟩ := hstage
        refine detachReply_leads h (.inr hphase) (hexchanges hwaiting) fun hnone _ => ?_
        rw [hnone] at hfailure
        cases hfailure
    | complete | failed =>
        rw [hphase] at hstage
        exact hstage.elim

end DebugArenaSession

end Tolkara
