import Tolkara.Debugger.Request
import Tolkara.Handoff.Control

/-!
# The messages are exact

Encoding and decoding a request are inverse to each other, a command and a reply are
recognised exactly where they were made from a request (`tkacNormalize_iff`,
`tkacMatch_iff`), and what decodes is a request that the debugger session takes.
-/

namespace Tolkara

/-! ## Numbers -/

@[simp] theorem length_writeNumber (n value : ℕ) : (writeNumber n value).length = n := by
  induction n generalizing value with
  | zero => rfl
  | succ n ih => rw [writeNumber, List.length_append, ih, List.length_singleton]

theorem readNumber_writeNumber {n value : ℕ} (h : value < 256 ^ n) :
    (writeNumber n value).foldl (fun v b => v * 256 + b.toNat) 0 = value := by
  induction n generalizing value with
  | zero =>
      rw [Nat.pow_zero, Nat.lt_one_iff] at h
      rw [h]
      rfl
  | succ n ih =>
      have hrest : value / 256 < 256 ^ n := by
        rw [Nat.div_lt_iff_lt_mul (by decide), ← Nat.pow_succ]
        exact h
      rw [writeNumber, List.foldl_append, ih hrest, List.foldl_cons, List.foldl_nil,
        UInt8.toNat_ofNat']
      omega

theorem writeNumber_readNumber (l : List UInt8) :
    writeNumber l.length (l.foldl (fun v b => v * 256 + b.toNat) 0) = l := by
  induction l using List.reverseRecOn with
  | nil => rfl
  | append_singleton l b ih =>
      have hb := b.toNat_lt
      rw [List.length_append, List.length_singleton, writeNumber, List.foldl_append,
        List.foldl_cons, List.foldl_nil]
      have hdiv : ∀ v, (v * 256 + b.toNat) / 256 = v := fun v => by omega
      have hbyte : ∀ v, UInt8.ofNat (v * 256 + b.toNat) = b := by
        intro v
        apply UInt8.toNat_inj.1
        rw [UInt8.toNat_ofNat']
        omega
      rw [hdiv, ih, hbyte]

/-! ## Fields -/

theorem drop_next {bytes x y : List UInt8} {offset n : ℕ} (h : bytes.drop offset = x ++ y)
    (hx : x.length = n) : bytes.drop (offset + n) = y := by
  rw [← List.drop_drop, h, ← hx, List.drop_left]

theorem take_drop_field (l : List UInt8) (k n : ℕ) :
    (l.drop k).take n ++ l.drop (k + n) = l.drop k := by
  rw [← List.drop_drop, List.take_append_drop]

theorem take_field {x y : List UInt8} {n : ℕ} (hx : x.length = n) : (x ++ y).take n = x := by
  rw [← hx, List.take_left]

theorem readNumber_field {bytes rest : List UInt8} {offset n value : ℕ}
    (h : bytes.drop offset = writeNumber n value ++ rest) (hvalue : value < 256 ^ n) :
    readNumber bytes offset n = value := by
  rw [readNumber, h, take_field (length_writeNumber n value), readNumber_writeNumber hvalue]

theorem writeNumber_field {bytes : List UInt8} {offset n : ℕ} (h : offset + n ≤ bytes.length) :
    writeNumber n (readNumber bytes offset n) = (bytes.drop offset).take n := by
  have hlength : ((bytes.drop offset).take n).length = n := by
    rw [List.length_take, List.length_drop]
    omega
  have hback := writeNumber_readNumber ((bytes.drop offset).take n)
  rw [hlength] at hback
  exact hback

/-! ## Requests -/

namespace TKACRequest

/-- The widths of the fields. -/
structure Sized (r : TKACRequest) : Prop where
  pid : r.pid < 256 ^ 4
  uid : r.uid < 256 ^ 4
  address : r.address < 256 ^ 8
  size : r.size < 256 ^ 8
  challengeAddress : r.challengeAddress < 256 ^ 8
  deadlineMs : r.deadlineMs < 256 ^ 8
  challenge : r.challenge.length = 32
  identifier : r.identifier.length = 16

end TKACRequest

theorem tkacEncode_isSome (r : TKACRequest) : (tkacEncode r tkacSize).isSome ↔ r.valid = true := by
  unfold tkacEncode
  by_cases hvalid : r.valid = true
  · rw [if_pos ⟨rfl, hvalid⟩]
    exact ⟨fun _ => hvalid, fun _ => rfl⟩
  · rw [if_neg fun h => hvalid h.2]
    exact ⟨nofun, fun h => absurd h hvalid⟩

/-- The fields of a request, read one after the other. -/
theorem tkacDecode_bytes {r : TKACRequest} (hr : r.Sized) :
    tkacDecode r.bytes = if r.valid then some r else none := by
  have h0 : r.bytes.drop 0 = tkacMagic ++ _ := rfl
  have h8 : r.bytes.drop 8 = _ := drop_next h0 rfl
  have h12 : r.bytes.drop 12 = _ := drop_next h8 (length_writeNumber 4 _)
  have h16 : r.bytes.drop 16 = _ := drop_next h12 (length_writeNumber 4 _)
  have h24 : r.bytes.drop 24 = _ := drop_next h16 (length_writeNumber 8 _)
  have h32 : r.bytes.drop 32 = _ := drop_next h24 (length_writeNumber 8 _)
  have h40 : r.bytes.drop 40 = _ := drop_next h32 (length_writeNumber 8 _)
  have h48 : r.bytes.drop 48 = _ := drop_next h40 (length_writeNumber 8 _)
  have h80 : r.bytes.drop 80 = _ := drop_next h48 hr.challenge
  have hshape : r.bytes.length = tkacSize ∧ r.bytes.take 8 = tkacMagic := by
    refine ⟨?_, take_field rfl⟩
    unfold TKACRequest.bytes
    simp only [List.length_append, length_writeNumber, hr.challenge, hr.identifier]
    rfl
  unfold tkacDecode
  rw [if_pos hshape, readNumber_field h8 hr.pid, readNumber_field h12 hr.uid,
    readNumber_field h16 hr.address, readNumber_field h24 hr.size,
    readNumber_field h32 hr.challengeAddress, readNumber_field h40 hr.deadlineMs, h48, h80,
    take_field hr.challenge, ← hr.identifier, List.take_length]

theorem tkacDecode_tkacEncode {r : TKACRequest} (hr : r.Sized) {size : ℕ} {bytes : List UInt8}
    (h : tkacEncode r size = some bytes) : tkacDecode bytes = some r := by
  unfold tkacEncode at h
  split at h
  · rename_i hvalid
    cases h
    rw [tkacDecode_bytes hr, if_pos hvalid.2]
  · cases h

theorem tkacEncode_tkacDecode {bytes : List UInt8} {r : TKACRequest}
    (h : tkacDecode bytes = some r) : tkacEncode r tkacSize = some bytes := by
  unfold tkacDecode at h
  split at h
  · rename_i hshape
    obtain ⟨hlength, hmagic⟩ := hshape
    dsimp only at h
    split at h
    · rename_i hvalid
      cases h
      rw [tkacEncode, if_pos ⟨rfl, hvalid⟩, TKACRequest.bytes, Option.some.injEq]
      unfold tkacSize at hlength
      dsimp only
      have hlast : (bytes.drop 80).take 16 = bytes.drop 80 := by
        rw [List.take_of_length_le]
        rw [List.length_drop]
        omega
      rw [writeNumber_field (by omega), writeNumber_field (by omega), writeNumber_field (by omega),
        writeNumber_field (by omega), writeNumber_field (by omega), writeNumber_field (by omega),
        hlast, take_drop_field bytes 48 32, take_drop_field bytes 40 8, take_drop_field bytes 32 8,
        take_drop_field bytes 24 8, take_drop_field bytes 16 8, take_drop_field bytes 12 4,
        take_drop_field bytes 8 4, ← hmagic, List.take_append_drop]
    · cases h
  · cases h

/-! ## Commands and replies -/

theorem getD_eq_getElem {l : List UInt8} {i : ℕ} (h : i < l.length) : l.getD i 0 = l[i] := by
  rw [List.getD_eq_getElem?_getD, List.getElem?_eq_getElem h, Option.getD_some]

theorem byte_of_ofByte {b : UInt8} {command : TKACCommand} (h : TKACCommand.ofByte b = some command) :
    command.byte = b := by
  unfold TKACCommand.ofByte at h
  split_ifs at h with h3 h4
  · cases h
    exact h3.symm
  · cases h
    exact h4.symm

theorem outcome_of_ofByte {b : UInt8} {outcome : TKACOutcome}
    (h : TKACOutcome.ofByte b = some outcome) : outcome.byte = b := by
  unfold TKACOutcome.ofByte at h
  split_ifs at h with h1 h2 h3 h4 h5
  · cases h
    exact h1.symm
  · cases h
    exact h2.symm
  · cases h
    exact h3.symm
  · cases h
    exact h4.symm
  · cases h
    exact h5.symm

theorem tkacNormalize_iff {message request : List UInt8} {command : TKACCommand} :
    tkacNormalize message = some (command, request) ↔
      tkacCommand request command = some message := by
  refine ⟨fun h => ?_, tkacNormalize_command⟩
  unfold tkacNormalize at h
  split at h
  · rename_i hlength
    split at h
    · cases h
    · rename_i command' hcommand
      dsimp only at h
      split at h
      · rename_i hsome
        cases h
        have h5 : 5 < message.length := by
          rw [hlength]
          decide
        rw [tkacCommand, if_pos hsome, List.set_set, byte_of_ofByte hcommand,
          getD_eq_getElem h5, List.set_getElem_self]
      · cases h
  · cases h

theorem reply_eq {request reply : List UInt8} {outcome : TKACOutcome}
    (hrequest : request.take 8 = tkacMagic) (hlength : reply.length = tkacSize)
    (hhead : reply.take 6 = ascii "TKAR" ++ [1, 2]) (h7 : reply.getD 7 0 = 0)
    (h6 : outcome.byte = reply.getD 6 0) (hrest : request.drop 8 = reply.drop 8) :
    (request.set 5 2).set 6 outcome.byte = reply := by
  obtain ⟨rest, rfl⟩ := exists_of_take_magic hrequest
  have hset : ((tkacMagic ++ rest).set 5 2).set 6 outcome.byte =
      ascii "TKAR" ++ [1, 2] ++ [outcome.byte, 0] ++ rest := rfl
  have hdrop : (tkacMagic ++ rest).drop 8 = rest := rfl
  have h6' : reply.drop 6 = reply.getD 6 0 :: reply.getD 7 0 :: reply.drop 8 := by
    unfold tkacSize at hlength
    rw [List.drop_eq_getElem_cons (show 6 < reply.length by omega),
      List.drop_eq_getElem_cons (show 6 + 1 < reply.length by omega),
      getD_eq_getElem (show 6 < reply.length by omega),
      getD_eq_getElem (show 7 < reply.length by omega)]
  rw [hset, ← List.take_append_drop 6 reply, hhead, h6', h7, ← h6, ← hrest, hdrop]
  rfl

theorem tkacMatch_iff {request reply : List UInt8} {outcome : TKACOutcome} :
    tkacMatch request reply = some outcome ↔ tkacReply request outcome = some reply := by
  refine ⟨fun h => ?_, tkacMatch_reply⟩
  unfold tkacMatch at h
  split at h
  · rename_i hshape
    obtain ⟨hlength, hsome, hhead, h7, hrest⟩ := hshape
    obtain ⟨r, hr⟩ := Option.isSome_iff_exists.1 hsome
    rw [tkacReply, if_pos hsome,
      reply_eq (tkacDecode_eq_some hr).2 hlength hhead h7 (outcome_of_ofByte h) hrest]
  · cases h

/-! ## The debugger session -/

theorem make_of_tkacDecode {bytes : List UInt8} {r : TKACRequest} (h : tkacDecode bytes = some r)
    {ownPid helperPID : ℕ} (hown : r.pid ≠ ownPid) (hhelper : r.pid ≠ helperPID) :
    ∃ request, DebugArenaRequest.make ownPid r.pid helperPID r.uid r.challengeAddress r.challenge
      [⟨r.address, r.size⟩] = .ok request := by
  have hvalid : r.valid = true ∧ r.challenge.length = 32 := by
    unfold tkacDecode at h
    split at h
    · rename_i hshape
      dsimp only at h
      split at h
      · rename_i hvalid
        cases h
        refine ⟨hvalid, ?_⟩
        rw [List.length_take, List.length_drop, hshape.1]
        rfl
      · cases h
    · cases h
  obtain ⟨hvalid, hlength⟩ := hvalid
  simp only [TKACRequest.valid, decide_eq_true_eq] at hvalid
  obtain ⟨hpid, hpid', hsize, hlarge, hpages, hlow, haligned, hhigh, hchallenge, hchallenge',
    happart, -, hnonzero, -⟩ := hvalid
  have hregion : DebugArenaRequest.Region.Valid r.challengeAddress ⟨r.address, r.size⟩ :=
    ⟨hlow, haligned, Nat.pos_of_ne_zero hsize, hlarge, hpages, hhigh, happart.symm⟩
  have hcheck : DebugArenaRequest.checkRegions r.challengeAddress [] 0 [⟨r.address, r.size⟩] =
      .ok () := by
    rw [DebugArenaRequest.checkRegions, if_neg (not_not.2 hregion), if_neg, if_neg]
    · rfl
    · exact not_not.2 (List.forall_mem_nil _)
    · dsimp only
      omega
  unfold DebugArenaRequest.make
  rw [dif_pos ⟨hpid, hpid', hhelper, hown, hlength, hnonzero, hchallenge, hchallenge',
    List.cons_ne_nil _ _, Nat.le_add_left 1 3⟩]
  split
  · rename_i e herror
    rw [hcheck] at herror
    cases herror
  · exact ⟨_, rfl⟩

/-- The messages of the hand-off, all together. -/
structure MessagesExact : Prop where
  encodes : ∀ r : TKACRequest, (tkacEncode r tkacSize).isSome ↔ r.valid = true
  decodes : ∀ (r : TKACRequest) bytes, r.Sized → tkacEncode r tkacSize = some bytes →
    tkacDecode bytes = some r
  encodes_back : ∀ bytes r, tkacDecode bytes = some r → tkacEncode r tkacSize = some bytes
  commands : ∀ message request command, tkacNormalize message = some (command, request) ↔
    tkacCommand request command = some message
  replies : ∀ request reply outcome, tkacMatch request reply = some outcome ↔
    tkacReply request outcome = some reply
  requests : ∀ bytes r ownPid helperPID, tkacDecode bytes = some r → r.pid ≠ ownPid →
    r.pid ≠ helperPID → ∃ request, DebugArenaRequest.make ownPid r.pid helperPID r.uid
      r.challengeAddress r.challenge [⟨r.address, r.size⟩] = .ok request

theorem messages_exact : MessagesExact where
  encodes := tkacEncode_isSome
  decodes _ _ hr h := tkacDecode_tkacEncode hr h
  encodes_back _ _ h := tkacEncode_tkacDecode h
  commands _ _ _ := tkacNormalize_iff
  replies _ _ _ := tkacMatch_iff
  requests _ _ _ _ h hown hhelper := make_of_tkacDecode h hown hhelper

def onePageRequest : TKACRequest where
  pid := 2
  uid := 501
  address := 16384
  size := 16384
  challengeAddress := 4096
  deadlineMs := 1000
  challenge := List.replicate 32 1
  identifier := List.replicate 16 1

theorem messages_exact_onePage :
    (tkacEncode onePageRequest tkacSize).isSome ∧
      tkacDecode onePageRequest.bytes = some onePageRequest ∧
      tkacEncode onePageRequest tkacSize = some onePageRequest.bytes ∧
      tkacNormalize (onePageRequest.bytes.set 5 4) = some (.poll, onePageRequest.bytes) ∧
      tkacMatch onePageRequest.bytes ((onePageRequest.bytes.set 5 2).set 6 1) = some .prepared ∧
      ∃ request, DebugArenaRequest.make 3 2 4 501 4096 (List.replicate 32 1) [⟨16384, 16384⟩] =
        .ok request := by
  have hsized : onePageRequest.Sized :=
    ⟨by decide, by decide, by decide, by decide, by decide, by decide, rfl, rfl⟩
  have hencode : tkacEncode onePageRequest tkacSize = some onePageRequest.bytes := by
    decide
  have hdecode := messages_exact.decodes onePageRequest _ hsized hencode
  exact ⟨(messages_exact.encodes onePageRequest).2 (by decide), hdecode,
    messages_exact.encodes_back _ _ hdecode,
    (messages_exact.commands _ _ _).2 (by decide),
    (messages_exact.replies _ _ _).2 (by decide),
    messages_exact.requests _ onePageRequest 3 4 hdecode (by decide) (by decide)⟩

end Tolkara
