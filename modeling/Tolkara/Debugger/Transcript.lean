import Tolkara.Debugger.Session

/-!
# What a session and its server say

A transcript pairs the commands of a session with their answers, first asked, first answered.
The conditions of the session are read off it: who the process is, what the regions are, which
bytes were zero and which pages were written. Whatever was once answered stays answered
(`Transcript.Extends`).
-/

namespace Tolkara

open Library

namespace DebugArenaSession

/-! ## Transcripts -/

structure Transcript where
  exchanges : List (Text × Text)
  waiting : List Text

namespace Transcript

def next (t : Transcript) : Act → Transcript
  | .sent texts _ => { t with waiting := t.waiting ++ texts }
  | .answered text =>
    match t.waiting with
    | [] => t
    | asked :: rest => ⟨t.exchanges ++ [(asked, text)], rest⟩
  | _ => t

def asked (t : Transcript) : List Text := t.exchanges.map (·.1) ++ t.waiting

end Transcript

def transcript (acts : List Act) : Transcript := acts.foldl Transcript.next ⟨[], []⟩

/-- A command that writes to the memory of the process. -/
def IsWrite (text : Text) : Bool := text.head? = some 77

def Transcript.writes (t : Transcript) : List Text := t.asked.filter IsWrite

@[simp] theorem transcript_nil : transcript [] = ⟨[], []⟩ := rfl

@[simp] theorem transcript_append (log acts : List Act) :
    transcript (log ++ acts) = acts.foldl Transcript.next (transcript log) :=
  List.foldl_append

namespace Transcript

variable {t : Transcript}

@[simp] theorem next_sent (texts : List Text) (packets : List UInt8) :
    t.next (.sent texts packets) = ⟨t.exchanges, t.waiting ++ texts⟩ := rfl

@[simp] theorem next_resent (packets : List UInt8) : t.next (.resent packets) = t := rfl

@[simp] theorem next_control (byte : UInt8) : t.next (.control byte) = t := rfl

@[simp] theorem next_finished (result : Except Failure Receipt) :
    t.next (.finished result) = t := rfl

theorem next_answered {asked text : Text} {rest : List Text} (h : t.waiting = asked :: rest) :
    t.next (.answered text) = ⟨t.exchanges ++ [(asked, text)], rest⟩ := by
  rw [next, h]

theorem asked_answered (text : Text) : (t.next (.answered text)).asked = t.asked := by
  cases h : t.waiting with
  | nil => rw [next, h]
  | cons asked rest =>
      rw [next_answered h, Transcript.asked, Transcript.asked, h]
      simp

theorem writes_answered (text : Text) : (t.next (.answered text)).writes = t.writes := by
  rw [writes, asked_answered]
  rfl

theorem writes_sent (texts : List Text) (packets : List UInt8) :
    (t.next (.sent texts packets)).writes = t.writes ++ texts.filter IsWrite := by
  simp [writes, asked]

/-- What was answered stays answered. -/
def Extends (t' t : Transcript) : Prop := t.exchanges ⊆ t'.exchanges

theorem extends_next (act : Act) : (t.next act).Extends t := by
  cases act with
  | answered text =>
      cases h : t.waiting with
      | nil =>
          rw [next, h]
          exact List.Subset.refl _
      | cons asked rest =>
          rw [next_answered h]
          exact List.subset_append_left _ _
  | _ => exact List.Subset.refl _

end Transcript

/-! ## What the server reports -/

/-- The answer to `qProcessInfo` of the requested process. -/
def RightProcess (request : DebugArenaRequest) (text : Text) : Prop :=
  ∃ info, DebugProtocolWire.fields text = .ok info ∧
    DebugProtocolWire.number (info.lookup (ascii "pid")) = .ok request.pid ∧
    DebugProtocolWire.number (info.lookup (ascii "effective-uid")) = .ok request.uid ∧
    DebugProtocolWire.number (info.lookup (ascii "cputype")) = .ok 0x100000c ∧
    DebugProtocolWire.number (info.lookup (ascii "ptrsize")) = .ok 8 ∧
    info.lookup (ascii "endian") = some (ascii "little")

/-- The answer to `qMemoryRegionInfo` for an unnamed region that can be read and executed. -/
def FreeRegion (text : Text) (base size : ℕ) : Prop :=
  ∃ info, DebugProtocolWire.fields text = .ok info ∧
    DebugProtocolWire.number (info.lookup (ascii "start")) = .ok base ∧
    DebugProtocolWire.number (info.lookup (ascii "size")) = .ok size ∧
    info.lookup (ascii "error") = none ∧
    ((info.lookup (ascii "permissions")).getD []).toFinset = (ascii "rx").toFinset ∧
    (info.lookup (ascii "name")).getD [] = []

/-- The answer to a read of `count` bytes that are all zero. -/
def AllZero (text : Text) (count : ℕ) : Prop :=
  ∃ bytes, DebugProtocolWire.unhex text count = .ok bytes ∧ ∀ b ∈ bytes, b = 0

/-- The answer to the read of the challenge. -/
def RightChallenge (request : DebugArenaRequest) (text : Text) : Prop :=
  DebugProtocolWire.unhex text 32 = .ok request.challenge

section

variable (request : DebugArenaRequest) (e : List (Text × Text))

/-- The process is the requested one and has its challenge. -/
structure Identified : Prop where
  process : ∃ text, (ascii "qProcessInfo", text) ∈ e ∧ RightProcess request text
  challenge : ∃ text, (readText request.challengeAddress 32, text) ∈ e ∧
    RightChallenge request text

/-- A byte was reported to lie in a free region. -/
def ReportedAt (a : ℕ) : Prop :=
  ∃ cursor text base size, (regionText cursor, text) ∈ e ∧ FreeRegion text base size ∧
    base ≤ a ∧ a < base + size

/-- A byte was read as zero. -/
def ZeroAt (a : ℕ) : Prop :=
  ∃ address count text, (readText address count, text) ∈ e ∧ AllZero text count ∧
    address ≤ a ∧ a < address + count

/-- Everything that is asked before the first write was answered as it should be. -/
structure Fresh : Prop where
  identified : Identified request e
  reported : ∀ r ∈ request.regions, ∀ a, r.address ≤ a → a < r.address + r.size → ReportedAt e a
  zero : ∀ r ∈ request.regions, ∀ a, r.address ≤ a → a < r.address + r.size → ZeroAt e a

def pagesOf (r : DebugArenaRequest.Region) : List ℕ :=
  (List.range (r.size / page)).map fun k => r.address + k * page

def pages : List ℕ := request.regions.flatMap pagesOf

/-- A page was written and read back. -/
structure PageWritten (address : ℕ) : Prop where
  written : (writeText address, ascii "OK") ∈ e
  readBack : ∃ text, (readText address 1, text) ∈ e ∧ AllZero text 1

/-- The last three answers: the process and the challenge again, and the release. -/
def Released : Prop :=
  ∃ before process challenge, e = before ++ [(ascii "qProcessInfo", process),
      (readText request.challengeAddress 32, challenge), (ascii "D", ascii "OK")] ∧
    Fresh request before ∧ (∀ address ∈ pages request, PageWritten before address) ∧
    RightProcess request process ∧ RightChallenge request challenge

end

section

variable {request : DebugArenaRequest} {e e' : List (Text × Text)}

theorem Identified.mono (h : Identified request e) (hsub : e ⊆ e') : Identified request e' := by
  obtain ⟨⟨process, hprocess, hright⟩, challenge, hchallenge, hrightChallenge⟩ := h
  exact ⟨⟨process, hsub hprocess, hright⟩, challenge, hsub hchallenge, hrightChallenge⟩

theorem ReportedAt.mono {a : ℕ} (h : ReportedAt e a) (hsub : e ⊆ e') : ReportedAt e' a := by
  obtain ⟨cursor, text, base, size, hmem, h⟩ := h
  exact ⟨cursor, text, base, size, hsub hmem, h⟩

theorem ZeroAt.mono {a : ℕ} (h : ZeroAt e a) (hsub : e ⊆ e') : ZeroAt e' a := by
  obtain ⟨address, count, text, hmem, h⟩ := h
  exact ⟨address, count, text, hsub hmem, h⟩

theorem Fresh.mono (h : Fresh request e) (hsub : e ⊆ e') : Fresh request e' where
  identified := h.identified.mono hsub
  reported r hr a hlo hhi := (h.reported r hr a hlo hhi).mono hsub
  zero r hr a hlo hhi := (h.zero r hr a hlo hhi).mono hsub

theorem PageWritten.mono {address : ℕ} (h : PageWritten e address) (hsub : e ⊆ e') :
    PageWritten e' address := by
  obtain ⟨hwritten, text, hmem, hzero⟩ := h
  exact ⟨hsub hwritten, text, hsub hmem, hzero⟩

/-! ## The checks of the session -/

theorem checkProcess_ok {text : Text} (h : checkProcess request text = .ok ()) :
    RightProcess request text := by
  simp only [checkProcess, bind_ok, need_ok, mapError_ok, exists_const] at h
  obtain ⟨info, hinfo, pid, hpid, rfl, uid, huid, rfl, cputype, hcputype, rfl, ptrsize, hptrsize,
    rfl, hendian⟩ := h
  exact ⟨info, hinfo, hpid, huid, hcputype, hptrsize, hendian⟩

theorem checkChallenge_ok {text : Text} (h : checkChallenge request text = .ok ()) :
    RightChallenge request text := by
  simp only [checkChallenge, bind_ok, need_ok, mapError_ok] at h
  obtain ⟨bytes, hbytes, rfl⟩ := h
  exact hbytes

theorem checkRegion_ok {cursor base size : ℕ} {text : Text}
    (h : checkRegion cursor text = .ok (base, size)) :
    FreeRegion text base size ∧ base ≤ cursor ∧ cursor < base + size := by
  simp only [checkRegion, bind_ok, need_ok, mapError_ok] at h
  obtain ⟨info, hinfo, base', hbase, size', hsize, -, hneed, h⟩ := h
  cases h
  obtain ⟨-, hlo, -, hhi, herror, hpermissions, hname⟩ := hneed
  exact ⟨⟨info, hinfo, hbase, hsize, herror, hpermissions, hname⟩, hlo, hhi⟩

theorem checkReply_ok {text : Text} (h : checkReply .ok text = .ok ()) : text = ascii "OK" :=
  need_ok.1 h

end

/-! ## Commands that write -/

theorem isWrite_readText (address count : ℕ) : IsWrite (readText address count) = false := rfl

theorem isWrite_regionText (address : ℕ) : IsWrite (regionText address) = false := rfl

theorem isWrite_attachText (pid : ℕ) : IsWrite (attachText pid) = false := rfl

theorem writeText_inj {a b : ℕ} (ha : a < 2 ^ 64) (hb : b < 2 ^ 64)
    (h : writeText a = writeText b) : a = b := by
  unfold writeText at h
  rw [List.append_left_inj, List.append_right_inj] at h
  exact DebugProtocolWire.hexText_inj ha hb h

end DebugArenaSession

end Tolkara
