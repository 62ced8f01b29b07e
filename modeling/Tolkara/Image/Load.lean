import Tolkara.Image.Basic
import Tolkara.Memory.DenseAccess

/-!
# Loading the segments of an image

The part of `load` that maps an image: the checks of each segment command, the layout of
the segments together, and the copy of their contents into guest memory. The commands
are given decoded, and `readAt` is the file. The other commands and the sections of a
segment only add reasons to refuse an image; an allocation that fails refuses it too.
-/

namespace Tolkara

structure SegmentCommand where
  segname : CString
  vmaddr : ℕ
  vmaddr_le : vmaddr ≤ uint64Max
  vmsize : ℕ
  fileoff : ℕ
  filesize : ℕ
  maxprot : Prot
  initprot : Prot

def SegmentCommand.segment (s : SegmentCommand) : GISegment :=
  { name := s.segname
    address := s.vmaddr
    size := s.vmsize
    fileOffset := s.fileoff
    fileSize := s.filesize
    prot := s.initprot
    maxprot := s.maxprot }

/-- The file type `load` expects: `MH_EXECUTE` or `MH_DYLIB`. -/
inductive ImageKind where
  | execute
  | dylib
deriving DecidableEq, Repr

inductive LoadError where
  | tooManySegments
  | invalidSegment (name : CString)
  | invalidText
  | missingText
  | overlappingSegments
  | unsupportedPageZero
  | exceedsBudget
  | map (result : GMResult)
  | read (name : CString)
  | populate (result : GMResult)

def isWithin (offset size total : ℕ) : Bool := offset ≤ total && size ≤ total - offset

def pageZero : CString := ascii "__PAGEZERO"

/-- What the loop over the commands has found: the segments, and the address of `__TEXT`. -/
structure Commands where
  segments : List GISegment
  header : Option ℕ

namespace Commands

def add (sliceSize commandsEnd : ℕ) (c : Commands) (s : SegmentCommand) :
    Except LoadError Commands :=
  if c.segments.length = 64 then .error .tooManySegments
  else if ¬ isWithin s.fileoff s.filesize sliceSize ∨ s.vmsize < s.filesize ∨
      uint64Max - s.vmaddr < s.vmsize ∨ s.vmaddr % pageSize ≠ 0 ∨ s.vmsize % pageSize ≠ 0 ∨
      s.maxprot &&& ~~~7#32 ≠ 0#32 ∨ s.initprot &&& ~~~s.maxprot ≠ 0#32 then
    .error (.invalidSegment s.segname)
  else if s.segname = ascii "__TEXT" then
    if c.header.isSome ∨ s.fileoff ≠ 0 ∨ s.filesize < commandsEnd ∨
        s.initprot &&& GM.EXEC = 0#32 then .error .invalidText
    else .ok { segments := c.segments ++ [s.segment], header := some s.vmaddr }
  else .ok { c with segments := c.segments ++ [s.segment] }

end Commands

/-- The copy of a segment's contents, 64 KiB at a time. -/
def populateLoop (readAt : ℕ → ℕ → Option Buffer) (s : GISegment) :
    ℕ → ℕ → GuestMemory → Except LoadError GuestMemory
  | 0, _, memory => .ok memory
  | rounds + 1, off, memory =>
    if off < s.fileSize then
      let n := min 65536 (s.fileSize - off)
      match readAt (s.fileOffset + off) n with
      | none => .error (.read s.name)
      | some buffer =>
        match GuestMemory.gmPopulate (fun _ => true) memory (s.address + off) (some buffer) n with
        | (.ok, memory') => populateLoop readAt s rounds (off + n) memory'
        | (result, _) => .error (.populate result)
    else .ok memory

/-- The loop over the segments: they do not overlap, `__PAGEZERO` stays unmapped, and the
others are mapped and filled. -/
def mapLoop (kind : ImageKind) (readAt : ℕ → ℕ → Option Buffer) :
    List GISegment → List GISegment → GuestMemory → ℕ → Except LoadError GuestMemory
  | _, [], memory, _ => .ok memory
  | earlier, s :: rest, memory, mapped =>
    if earlier.any (fun p => s.size ≠ 0 ∧ p.size ≠ 0 ∧ s.address < p.address + p.size ∧
        p.address < s.address + s.size) then .error .overlappingSegments
    else if s.name = pageZero then
      if s.address ≠ 0 ∨ s.size ≠ 0x100000000 ∨ s.fileSize ≠ 0 ∨ s.maxprot ≠ 0#32 then
        .error .unsupportedPageZero
      else mapLoop kind readAt (earlier ++ [s]) rest memory mapped
    else if s.size = 0 then mapLoop kind readAt (earlier ++ [s]) rest memory mapped
    else if kind = .execute ∧ s.address < 0x100000000 ∨ 2147483648 < s.size ∨
        2147483648 - s.size < mapped then .error .exceedsBudget
    else
      match GuestMemory.gmMap (fun _ => true) memory s.address s.size s.prot s.maxprot false
          false with
      | (.ok, memory') =>
        match populateLoop readAt s s.fileSize 0 memory' with
        | .error e => .error e
        | .ok memory'' => mapLoop kind readAt (earlier ++ [s]) rest memory'' (mapped + s.size)
      | (result, _) => .error (.map result)

def loadSegments (kind : ImageKind) (sliceSize sizeofcmds : ℕ) (commands : List SegmentCommand)
    (readAt : ℕ → ℕ → Option Buffer) : Except LoadError GuestImage :=
  -- The commands follow the 32 bytes of the header.
  match commands.foldlM (Commands.add sliceSize (32 + sizeofcmds)) ⟨[], none⟩ with
  | .error e => .error e
  | .ok c =>
    match c.header with
    | none => .error .missingText
    | some header =>
      match mapLoop kind readAt [] c.segments GuestMemory.fresh 0 with
      | .error e => .error e
      | .ok memory => .ok
        { GuestImage.empty with
          memory := memory
          segments := c.segments
          headerAddress := header }

def GISegment.Mapped (s : GISegment) : Prop := s.size ≠ 0 ∧ s.name ≠ pageZero

/-- What the segments of an accepted image satisfy. -/
structure GuestImage.Accepted (kind : ImageKind) (image : GuestImage) : Prop where
  bounded : ∀ s ∈ image.segments, s.address + s.size ≤ uint64Max
  aligned : ∀ s ∈ image.segments, s.address % pageSize = 0 ∧ s.size % pageSize = 0
  zero : ∀ s ∈ image.segments, s.name = pageZero → s.prot = 0#32
  high : kind = .execute → ∀ s ∈ image.segments, s.Mapped → 0x100000000 ≤ s.address
  header : ∃ s ∈ image.segments, s.Mapped ∧ s.prot &&& GM.EXEC ≠ 0#32 ∧
    s.address = image.headerAddress
  wf : image.memory.Wf
  pages : ∀ p ∈ image.memory.pages, ∃ s ∈ image.segments, s.Mapped ∧ s.address ≤ p.address ∧
    p.address + pageSize ≤ s.address + s.size

/-- What one command has checked of its segment. -/
structure GISegment.Checked (s : GISegment) : Prop where
  filled : s.fileSize ≤ s.size
  bounded : s.address + s.size ≤ uint64Max
  aligned : s.address % pageSize = 0 ∧ s.size % pageSize = 0
  allowed : s.prot &&& ~~~s.maxprot = 0#32

theorem GISegment.Checked.prot_eq_zero {s : GISegment} (h : s.Checked) (hmax : s.maxprot = 0#32) :
    s.prot = 0#32 := by
  have hallowed := h.allowed
  rw [hmax, BitVec.not_zero, BitVec.and_allOnes] at hallowed
  exact hallowed

/-- The state of the loop over the commands. -/
structure Commands.Sound (commandsEnd : ℕ) (c : Commands) : Prop where
  checked : ∀ s ∈ c.segments, s.Checked
  header : ∀ h, c.header = some h → ∃ s ∈ c.segments, s.name = ascii "__TEXT" ∧
    s.address = h ∧ commandsEnd ≤ s.fileSize ∧ s.prot &&& GM.EXEC ≠ 0#32

theorem Commands.add_sound {sliceSize commandsEnd : ℕ} {c c' : Commands} {s : SegmentCommand}
    (hc : c.Sound commandsEnd) (h : c.add sliceSize commandsEnd s = .ok c') :
    c'.Sound commandsEnd := by
  unfold Commands.add at h
  split at h
  · cases h
  · split at h
    · cases h
    · rename_i hok
      simp only [not_or, not_lt, not_not] at hok
      obtain ⟨-, hfilled, hbounded, haddress, hsize, -, hallowed⟩ := hok
      have hreach : s.vmaddr + s.vmsize ≤ uint64Max := by
        have hle := s.vmaddr_le
        omega
      have hchecked : ∀ t ∈ c.segments ++ [s.segment], t.Checked := by
        intro t ht
        rcases List.mem_append.mp ht with hold | hnew
        · exact hc.checked t hold
        · rw [List.mem_singleton.mp hnew]
          exact ⟨hfilled, hreach, ⟨haddress, hsize⟩, hallowed⟩
      split at h
      · rename_i htext
        split at h
        · cases h
        · rename_i hheader
          simp only [not_or, not_lt] at hheader
          cases h
          refine ⟨hchecked, fun a ha => ?_⟩
          cases ha
          exact ⟨_, List.mem_append_right _ (List.mem_singleton.mpr rfl), htext, rfl,
            hheader.2.2.1, hheader.2.2.2⟩
      · cases h
        refine ⟨hchecked, fun a ha => ?_⟩
        obtain ⟨t, ht, hrest⟩ := hc.header a ha
        exact ⟨t, List.mem_append_left _ ht, hrest⟩

theorem Commands.foldlM_sound {sliceSize commandsEnd : ℕ} (commands : List SegmentCommand)
    {c c' : Commands} (hc : c.Sound commandsEnd)
    (h : commands.foldlM (Commands.add sliceSize commandsEnd) c = .ok c') :
    c'.Sound commandsEnd := by
  induction commands generalizing c with
  | nil =>
      cases h
      exact hc
  | cons s rest ih =>
      rw [List.foldlM_cons] at h
      cases hadd : c.add sliceSize commandsEnd s with
      | error e =>
          rw [hadd] at h
          cases h
      | ok d =>
          rw [hadd] at h
          exact ih (Commands.add_sound hc hadd) h

/-- Every mapped page lies in one of the segments. -/
def CoveredBy (memory : GuestMemory) (segments : List GISegment) : Prop :=
  ∀ b, GuestMemory.pageAt memory.pages b ≠ none →
    ∃ s ∈ segments, s.Mapped ∧ s.address ≤ b ∧ b + pageSize ≤ s.address + s.size

theorem CoveredBy.mono {memory : GuestMemory} {segments : List GISegment}
    (h : CoveredBy memory segments) (s : GISegment) : CoveredBy memory (segments ++ [s]) := by
  intro b hb
  obtain ⟨t, ht, hrest⟩ := h b hb
  exact ⟨t, List.mem_append_left _ ht, hrest⟩

/-- Filling a segment maps nothing. -/
theorem populateLoop_spec {readAt : ℕ → ℕ → Option Buffer} {s : GISegment} (rounds off : ℕ)
    {memory memory' : GuestMemory} {segments : List GISegment} (hwf : memory.Wf)
    (hcovered : CoveredBy memory segments)
    (h : populateLoop readAt s rounds off memory = .ok memory') :
    memory'.Wf ∧ CoveredBy memory' segments := by
  induction rounds generalizing off memory with
  | zero =>
      cases h
      exact ⟨hwf, hcovered⟩
  | succ rounds ih =>
      rw [populateLoop] at h
      split at h
      · dsimp only at h
        split at h
        · cases h
        · rename_i buffer hread
          obtain ⟨r, m, hcopy, hm, hcases⟩ := GuestMemory.copy_write hwf (fun _ => true) none
            (s.address + off) (some buffer) (min 65536 (s.fileSize - off)) 0#32
          have hviews : ∀ b, m.viewAt b ≠ none → memory.viewAt b ≠ none := by
            intro b hb hnone
            rcases hcases with ⟨halike, -⟩ | ⟨halike, -⟩ | ⟨buf, -, -, -, -, hwritten⟩
            · exact hb ((halike.views b).trans hnone)
            · exact hb ((halike.views b).trans hnone)
            · rw [hwritten.views b, hnone] at hb
              exact hb rfl
          have hcovered' : CoveredBy m segments := by
            intro b hb
            refine hcovered b (fun hnone => hviews b ?_ ?_)
            · rw [GuestMemory.viewAt]
              simpa using hb
            · rw [GuestMemory.viewAt, hnone]
              rfl
          rw [GuestMemory.gmPopulate, hcopy] at h
          split at h
          · rename_i m' heq
            cases heq
            exact ih _ hm hcovered' h
          · cases h
      · cases h
        exact ⟨hwf, hcovered⟩

theorem mapLoop_spec {kind : ImageKind} {readAt : ℕ → ℕ → Option Buffer}
    (rest : List GISegment) {earlier : List GISegment} {memory memory' : GuestMemory}
    {mapped : ℕ} (hchecked : ∀ s ∈ rest, s.Checked) (hwf : memory.Wf)
    (hcovered : CoveredBy memory earlier)
    (h : mapLoop kind readAt earlier rest memory mapped = .ok memory') :
    (∀ s ∈ rest, (s.name = pageZero → s.maxprot = 0#32) ∧
      (kind = .execute → s.Mapped → 0x100000000 ≤ s.address)) ∧
    memory'.Wf ∧ CoveredBy memory' (earlier ++ rest) := by
  induction rest generalizing earlier memory mapped with
  | nil =>
      cases h
      rw [List.append_nil]
      exact ⟨fun _ hs => absurd hs List.not_mem_nil, hwf, hcovered⟩
  | cons s rest ih =>
      have hrest : ∀ t ∈ rest, t.Checked := fun t ht => hchecked t (List.mem_cons_of_mem _ ht)
      rw [List.append_cons]
      rw [mapLoop] at h
      split at h
      · cases h
      · split at h
        · rename_i hzero
          split at h
          · cases h
          · rename_i hlayout
            simp only [not_or, not_not] at hlayout
            obtain ⟨hall, hend⟩ := ih hrest hwf (hcovered.mono s) h
            refine ⟨fun t ht => ?_, hend⟩
            rcases List.mem_cons.mp ht with rfl | hmem
            · exact ⟨fun _ => hlayout.2.2.2, fun _ hm => absurd hzero hm.2⟩
            · exact hall t hmem
        · rename_i hname
          split at h
          · rename_i hempty
            obtain ⟨hall, hend⟩ := ih hrest hwf (hcovered.mono s) h
            refine ⟨fun t ht => ?_, hend⟩
            rcases List.mem_cons.mp ht with rfl | hmem
            · exact ⟨fun hz => absurd hz hname, fun _ hm => absurd hempty hm.1⟩
            · exact hall t hmem
          · rename_i hempty
            split at h
            · cases h
            · rename_i hbudget
              simp only [not_or, not_and, not_lt] at hbudget
              rcases GuestMemory.gmMap_spec hwf s.address s.size s.prot s.maxprot false false with
                ⟨-, heq⟩ | ⟨-, -, -, -, heq⟩ | ⟨hrange, -, -, m, heq, hm, hpages⟩
              · rw [heq] at h
                cases h
              · rw [heq] at h
                cases h
              · rw [heq] at h
                dsimp only at h
                split at h
                · cases h
                · rename_i memory'' hfill
                  have hcovered' : CoveredBy m (earlier ++ [s]) := by
                    intro b hb
                    rw [hpages b] at hb
                    split at hb
                    · rename_i hin
                      refine ⟨s, List.mem_append_right _ (List.mem_singleton.mpr rfl),
                        ⟨hempty, hname⟩, hin.1, ?_⟩
                      have halign := (hchecked s List.mem_cons_self).aligned
                      obtain ⟨hlow, hhigh, hmod⟩ := hin
                      unfold pageSize at *
                      omega
                    · exact hcovered.mono s b hb
                  obtain ⟨hwf'', hcovered''⟩ := populateLoop_spec _ _ hm hcovered' hfill
                  obtain ⟨hall, hend⟩ := ih hrest hwf'' hcovered'' h
                  refine ⟨fun t ht => ?_, hend⟩
                  rcases List.mem_cons.mp ht with rfl | hmem
                  · exact ⟨fun hz => absurd hz hname, fun hk _ => hbudget.1 hk⟩
                  · exact hall t hmem

theorem loadSegments_accepted {kind : ImageKind} {sliceSize sizeofcmds : ℕ}
    {commands : List SegmentCommand} {readAt : ℕ → ℕ → Option Buffer} {image : GuestImage}
    (h : loadSegments kind sliceSize sizeofcmds commands readAt = .ok image) :
    image.Accepted kind := by
  unfold loadSegments at h
  split at h
  · cases h
  · rename_i c hcommands
    have hstart : Commands.Sound (32 + sizeofcmds) ⟨[], none⟩ :=
      ⟨fun _ hs => absurd hs List.not_mem_nil, fun _ hh => by cases hh⟩
    have hc := Commands.foldlM_sound commands hstart hcommands
    split at h
    · cases h
    · rename_i header hheader
      split at h
      · cases h
      · rename_i memory hmap
        cases h
        have hempty : CoveredBy GuestMemory.fresh [] := fun b hb => absurd rfl hb
        obtain ⟨hall, hwf, hcovered⟩ := mapLoop_spec c.segments hc.checked GuestMemory.wf_fresh
          hempty hmap
        refine ⟨fun s hs => (hc.checked s hs).bounded, fun s hs => (hc.checked s hs).aligned,
          fun s hs hzero => (hc.checked s hs).prot_eq_zero ((hall s hs).1 hzero),
          fun hk s hs => (hall s hs).2 hk, ?_, hwf, ?_⟩
        · obtain ⟨s, hs, htext, haddress, hsize, hexec⟩ := hc.header header hheader
          have hfilled := (hc.checked s hs).filled
          refine ⟨s, hs, ⟨by omega, ?_⟩, hexec, haddress⟩
          rw [htext]
          decide
        · intro p hp
          refine hcovered p.address ?_
          rw [GuestMemory.pageAt_of_mem hwf.sorted hp]
          simp

end Tolkara
