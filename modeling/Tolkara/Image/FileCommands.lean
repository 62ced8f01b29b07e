import Tolkara.Image.File

/-!
# What the commands of an image say

The slice is the one plain slice that the file declares (`chooseSlice_declared`) and lies
in the file, and the loop over the load commands leaves the segments that
the commands declare (`commandLoop_segments`) with every recorded range inside the slice
(`Loading.Sound`). All commands but the segment command leave the segments alone, and so
do the sections (`Loading.Keeps`).
-/

namespace Tolkara

open Library

theorem isWithin_iff {offset size total : ℕ} :
    isWithin offset size total = true ↔ offset + size ≤ total := by
  unfold isWithin
  rw [Bool.and_eq_true, decide_eq_true_eq, decide_eq_true_eq]
  omega

/-- A range, an offset with a size, ends in the slice. -/
def Inside (total : ℕ) (range : ℕ × ℕ) : Prop := range.1 + range.2 ≤ total

theorem little_gives {read : Reader} {content : ℕ → UInt8} (hread : read.Gives content)
    {start n : ℕ} {b : Buffer} (hb : read start n = some b) {offset k : ℕ} (hle : offset + k ≤ n) :
    little b offset k = little content (start + offset) k := by
  unfold little
  congr 1
  apply List.map_congr_left
  intro i hi
  rw [List.mem_range] at hi
  rw [hread _ _ _ hb _ (by omega), Nat.add_assoc]

theorem be32_gives {read : Reader} {content : ℕ → UInt8} (hread : read.Gives content)
    {start n : ℕ} {b : Buffer} (hb : read start n = some b) {offset : ℕ} (hle : offset + 4 ≤ n) :
    be32 b offset = be32 content (start + offset) := by
  have hbyte : ∀ i < n, b i = content (start + i) := hread _ _ _ hb
  unfold be32
  rw [hbyte _ (by omega), hbyte _ (by omega), hbyte _ (by omega), hbyte _ (by omega)]
  rfl

theorem be64_gives {read : Reader} {content : ℕ → UInt8} (hread : read.Gives content)
    {start n : ℕ} {b : Buffer} (hb : read start n = some b) {offset : ℕ} (hle : offset + 8 ≤ n) :
    be64 b offset = be64 content (start + offset) := by
  unfold be64
  rw [be32_gives hread hb (by omega), be32_gives hread hb (by omega)]
  rfl

/-! ## The slice -/

/-- The plain arm64 slices in the table of a fat file, from a record on. -/
def fatSlices (content : ℕ → UInt8) (recordSize : ℕ) : ℕ → ℕ → List (ℕ × ℕ)
  | 0, _ => []
  | left + 1, i =>
    let arch := 8 + i * recordSize
    (if be32 content arch ≠ 0x0100000c ∨ be32 content (arch + 4) % 2 ^ 24 ≠ 0 then [] else
      [if recordSize = 32 then (be64 content (arch + 8), be64 content (arch + 16))
        else (be32 content (arch + 8), be32 content (arch + 12))]) ++
      fatSlices content recordSize left (i + 1)

def declaredSlices (content : ℕ → UInt8) (fileSize : ℕ) : List (ℕ × ℕ) :=
  if be32 content 0 = 0xcafebabe then fatSlices content 20 (be32 content 4) 0
  else if be32 content 0 = 0xcafebabf then fatSlices content 32 (be32 content 4) 0
  else [(0, fileSize)]

theorem fatLoop_declared {read : Reader} {content : ℕ → UInt8} (hread : read.Gives content)
    {fileSize count recordSize left i : ℕ} (hrecord : recordSize = 20 ∨ recordSize = 32)
    {found found' : Option (ℕ × ℕ)}
    (h : fatLoop read fileSize count recordSize left i found = .ok found') :
    found'.toList = found.toList ++ fatSlices content recordSize left i := by
  induction left generalizing i found with
  | zero =>
      cases h
      rw [fatSlices, List.append_nil]
  | succ left ih =>
      simp only [fatLoop, bind_ok, obtained_ok] at h
      obtain ⟨arch, harch, h⟩ := h
      have hcpu : be32 arch 0 = be32 content (8 + i * recordSize) :=
        be32_gives hread harch (by omega)
      have hsubtype : be32 arch 4 = be32 content (8 + i * recordSize + 4) :=
        be32_gives hread harch (by omega)
      rw [hcpu, hsubtype] at h
      rw [fatSlices]
      split at h
      · rename_i hother
        rw [if_pos hother, List.nil_append]
        exact ih h
      · rename_i hplain
        simp only [bind_ok, need_ok, exists_const] at h
        obtain ⟨rfl, -, h⟩ := h
        have hslice : (if recordSize = 32 then be64 arch 8 else be32 arch 8,
              if recordSize = 32 then be64 arch 16 else be32 arch 12) =
            if recordSize = 32 then
              (be64 content (8 + i * recordSize + 8), be64 content (8 + i * recordSize + 16))
            else (be32 content (8 + i * recordSize + 8),
              be32 content (8 + i * recordSize + 12)) := by
          rcases hrecord with rfl | rfl
          · simp only [Nat.reduceEqDiff, if_false]
            rw [be32_gives hread harch (by decide), be32_gives hread harch (by decide)]
          · simp only [if_true]
            rw [be64_gives hread harch (by decide), be64_gives hread harch (by decide)]
        rw [ih h, if_neg hplain, hslice]
        rfl

theorem chooseSlice_declared {read : Reader} {content : ℕ → UInt8} (hread : read.Gives content)
    {fileSize : ℕ} {slice : ℕ × ℕ} (h : chooseSlice read fileSize = .ok slice) :
    declaredSlices content fileSize = [slice] := by
  simp only [chooseSlice, bind_ok, obtained_ok] at h
  obtain ⟨head, hhead, h⟩ := h
  have hmagic : be32 head 0 = be32 content 0 := be32_gives hread hhead (by decide)
  have hcount : be32 head 4 = be32 content 4 := by
    rw [be32_gives hread hhead (by decide), Nat.zero_add]
  rw [hmagic, hcount] at h
  unfold declaredSlices
  split at h
  · rename_i hfat
    simp only [bind_ok, need_ok, exists_const] at h
    obtain ⟨-, found, hloop, h⟩ := h
    rw [obtained_ok] at h
    subst h
    have hdeclared := fatLoop_declared hread (by split <;> simp) hloop
    rcases hfat with h32 | h64
    · rw [if_pos h32]
      rw [if_neg (by rw [h32]; decide)] at hdeclared
      exact hdeclared.symm
    · rw [if_neg (by rw [h64]; decide), if_pos h64]
      rw [if_pos h64] at hdeclared
      exact hdeclared.symm
  · rename_i hthin
    rw [not_or] at hthin
    cases h
    rw [if_neg hthin.1, if_neg hthin.2]

theorem fatLoop_inside {read : Reader} {fileSize count recordSize left i : ℕ}
    {found found' : Option (ℕ × ℕ)} (hfound : ∀ slice ∈ found, Inside fileSize slice)
    (h : fatLoop read fileSize count recordSize left i found = .ok found') :
    ∀ slice ∈ found', Inside fileSize slice := by
  induction left generalizing i found with
  | zero =>
      cases h
      exact hfound
  | succ left ih =>
      simp only [fatLoop, bind_ok, obtained_ok] at h
      obtain ⟨arch, -, h⟩ := h
      split at h
      · exact ih hfound h
      · simp only [bind_ok, need_ok, exists_const] at h
        obtain ⟨-, ⟨-, -, -, hin⟩, h⟩ := h
        apply ih ?_ h
        rintro slice ⟨rfl⟩
        exact isWithin_iff.1 hin

theorem chooseSlice_inside {read : Reader} {fileSize : ℕ} {slice : ℕ × ℕ}
    (h : chooseSlice read fileSize = .ok slice) : Inside fileSize slice := by
  simp only [chooseSlice, bind_ok, obtained_ok] at h
  obtain ⟨head, -, h⟩ := h
  split at h
  · simp only [bind_ok, need_ok, exists_const] at h
    obtain ⟨-, found, hloop, h⟩ := h
    cases found with
    | none => cases h
    | some slice' =>
        cases h
        exact fatLoop_inside (fun _ hnone => absurd hnone (Option.not_mem_none _)) hloop _ rfl
  · cases h
    exact (Nat.zero_add fileSize).le

/-! ## What is recorded beside the segments -/

/-- The ranges of the dyld info lie in the slice. -/
structure DyldInfo.Within (total : ℕ) (d : DyldInfo) : Prop where
  rebase : Inside total d.rebase
  bind : Inside total d.bind
  weakBind : Inside total d.weakBind
  lazyBind : Inside total d.lazyBind

namespace Loading

/-- A step that leaves the segments and the place of the slice, and records only ranges
of the slice. -/
structure Keeps (total : ℕ) (l l' : Loading) : Prop where
  commands : l'.commands = l.commands
  place : l'.image.sliceOffset = l.image.sliceOffset ∧ l'.image.sliceSize = l.image.sliceSize
  dyldInfo : l'.image.dyldInfo = l.image.dyldInfo ∨ l'.image.dyldInfo.Within total
  chained : ∀ range ∈ l'.image.chained, range ∈ l.image.chained ∨ Inside total range
  exports : ∀ range ∈ l'.exportRange, range ∈ l.exportRange ∨ Inside total range

variable {total : ℕ} {l l' l'' : Loading}

theorem Keeps.same (hcommands : l'.commands = l.commands)
    (hplace : l'.image.sliceOffset = l.image.sliceOffset ∧ l'.image.sliceSize = l.image.sliceSize)
    (hdyld : l'.image.dyldInfo = l.image.dyldInfo) (hchained : l'.image.chained = l.image.chained)
    (hexports : l'.exportRange = l.exportRange) : Keeps total l l' where
  commands := hcommands
  place := hplace
  dyldInfo := .inl hdyld
  chained _ h := .inl (hchained ▸ h)
  exports _ h := .inl (hexports ▸ h)

theorem Keeps.refl (total : ℕ) (l : Loading) : Keeps total l l := .same rfl ⟨rfl, rfl⟩ rfl rfl rfl

theorem Keeps.trans (h : Keeps total l l') (h' : Keeps total l' l'') : Keeps total l l'' where
  commands := h'.commands.trans h.commands
  place := ⟨h'.place.1.trans h.place.1, h'.place.2.trans h.place.2⟩
  dyldInfo := by
    rcases h'.dyldInfo with hsame | hin
    · rw [hsame]
      exact h.dyldInfo
    · exact .inr hin
  chained := by
    intro range hrange
    rcases h'.chained range hrange with hold | hin
    · exact h.chained range hold
    · exact .inr hin
  exports := by
    intro range hrange
    rcases h'.exports range hrange with hold | hin
    · exact h.exports range hold
    · exact .inr hin

/-! ### Sections -/

theorem addInitializers_keeps {x : Section} (h : l.addInitializers x = .ok l') :
    Keeps total l l' := by
  unfold addInitializers at h
  split at h
  · simp only [bind_ok, need_ok, exists_const] at h
    obtain ⟨-, h⟩ := h
    cases h
    exact .same rfl ⟨rfl, rfl⟩ rfl rfl rfl
  · cases h
    exact .refl _ _

theorem addUnwind_keeps {s : SegmentCommand} {x : Section} (h : l.addUnwind s x = .ok l') :
    Keeps total l l' := by
  unfold addUnwind at h
  dsimp only at h
  split at h
  · simp only [bind_ok, need_ok, exists_const] at h
    obtain ⟨-, h⟩ := h
    split at h
    · simp only [bind_ok, need_ok, exists_const] at h
      obtain ⟨-, h⟩ := h
      cases h
      exact .same rfl ⟨rfl, rfl⟩ rfl rfl rfl
    · simp only [bind_ok, need_ok, exists_const] at h
      obtain ⟨-, h⟩ := h
      cases h
      exact .same rfl ⟨rfl, rfl⟩ rfl rfl rfl
  · cases h
    exact .refl _ _

theorem addTemplate_keeps {x : Section} (h : l.addTemplate x = .ok l') : Keeps total l l' := by
  unfold addTemplate at h
  split at h
  · simp only [bind_ok, need_ok, exists_const] at h
    obtain ⟨-, -, h⟩ := h
    cases h
    exact .same rfl ⟨rfl, rfl⟩ rfl rfl rfl
  · cases h
    exact .refl _ _

theorem addDescriptors_keeps {x : Section} (h : l.addDescriptors x = .ok l') :
    Keeps total l l' := by
  unfold addDescriptors at h
  split at h
  · simp only [bind_ok, need_ok, exists_const] at h
    obtain ⟨-, h⟩ := h
    cases h
    exact .same rfl ⟨rfl, rfl⟩ rfl rfl rfl
  · cases h
    exact .refl _ _

theorem addSection_keeps {sliceSize : ℕ} {s : SegmentCommand} {x : Section}
    (h : addSection sliceSize s l x = .ok l') : Keeps total l l' := by
  simp only [addSection, bind_ok, need_ok, exists_const] at h
  obtain ⟨-, -, l₁, h₁, l₂, h₂, l₃, h₃, l₄, h₄, h⟩ := h
  cases h
  have hcounts : Keeps total l₄ (l₄.addCounts x) := .same rfl ⟨rfl, rfl⟩ rfl rfl rfl
  exact (addInitializers_keeps h₁).trans ((addUnwind_keeps h₂).trans
    ((addTemplate_keeps h₃).trans ((addDescriptors_keeps h₄).trans hcounts)))

theorem sectionLoop_keeps {read : Reader} {sliceSize : ℕ} {s : SegmentCommand} {left cursor : ℕ}
    (h : sectionLoop read sliceSize s left cursor l = .ok l') : Keeps total l l' := by
  induction left generalizing cursor l with
  | zero =>
      cases h
      exact .refl _ _
  | succ left ih =>
      simp only [sectionLoop, bind_ok, obtained_ok] at h
      obtain ⟨b, -, l₁, h₁, h⟩ := h
      exact (addSection_keeps h₁).trans (ih h)

/-! ### Commands -/

variable {read : Reader} {x : Context}

theorem linkeditData_inside {e : ImageError} {range : ℕ × ℕ}
    (h : linkeditData read x e = .ok range) : Inside x.sliceSize range := by
  simp only [linkeditData, bind_ok, need_ok, obtained_ok, exists_const] at h
  obtain ⟨-, b, -, hin, h⟩ := h
  cases h
  exact isWithin_iff.1 hin

theorem addDyldInfo_keeps (h : addDyldInfo read x l = .ok l') : Keeps x.sliceSize l l' := by
  simp only [addDyldInfo, bind_ok, need_ok, obtained_ok, exists_const] at h
  obtain ⟨-, b, -, hpairs, h⟩ := h
  have hin : ∀ i < 5, Inside x.sliceSize (little b (8 + 8 * i) 4, little b (12 + 8 * i) 4) := by
    intro i hi
    exact isWithin_iff.1 (List.all_eq_true.1 hpairs i (List.mem_range.2 hi))
  have hrebase := hin 0 (by decide)
  have hbind := hin 1 (by decide)
  have hweak := hin 2 (by decide)
  have hlazy := hin 3 (by decide)
  split at h
  · simp only [bind_ok, need_ok, exists_const] at h
    obtain ⟨-, h⟩ := h
    cases h
    refine ⟨rfl, ⟨rfl, rfl⟩, .inr ⟨hrebase, hbind, hweak, hlazy⟩, fun _ => .inl, ?_⟩
    rintro range ⟨rfl⟩
    exact .inr (hin 4 (by decide))
  · cases h
    exact ⟨rfl, ⟨rfl, rfl⟩, .inr ⟨hrebase, hbind, hweak, hlazy⟩, fun _ => .inl, fun _ => .inl⟩

theorem addCommand_keeps {cmd : ℕ} (hcmd : cmd ≠ LC.SEGMENT_64)
    (h : addCommand read x l cmd = .ok l') : Keeps x.sliceSize l l' := by
  rw [addCommand, if_neg hcmd] at h
  split at h
  · simp only [addDylib, bind_ok, need_ok, obtained_ok, exists_const] at h
    obtain ⟨-, b, -, -, name, -, -, h⟩ := h
    cases h
    exact .same rfl ⟨rfl, rfl⟩ rfl rfl rfl
  split at h
  · simp only [addRpath, bind_ok, need_ok, obtained_ok, exists_const] at h
    obtain ⟨-, b, -, -, -, path, -, -, h⟩ := h
    cases h
    exact .same rfl ⟨rfl, rfl⟩ rfl rfl rfl
  split at h
  · simp only [addMain, bind_ok, need_ok, obtained_ok, exists_const] at h
    obtain ⟨-, b, -, h⟩ := h
    cases h
    exact .same rfl ⟨rfl, rfl⟩ rfl rfl rfl
  split at h
  · exact addDyldInfo_keeps h
  split at h
  · simp only [addExportsTrie, bind_ok, need_ok, exists_const] at h
    obtain ⟨-, range, hrange, h⟩ := h
    cases h
    refine ⟨rfl, ⟨rfl, rfl⟩, .inl rfl, fun _ => .inl, ?_⟩
    rintro range' ⟨rfl⟩
    exact .inr (linkeditData_inside hrange)
  split at h
  · simp only [addChainedFixups, bind_ok, need_ok, exists_const] at h
    obtain ⟨-, range, hrange, h⟩ := h
    cases h
    refine ⟨rfl, ⟨rfl, rfl⟩, .inl rfl, ?_, fun _ => .inl⟩
    rintro range' ⟨rfl⟩
    exact .inr (linkeditData_inside hrange)
  split at h
  · simp only [addEncryptionInfo, bind_ok, need_ok, obtained_ok, exists_const] at h
    obtain ⟨-, b, -, -, h⟩ := h
    cases h
    exact .refl _ _
  · cases h
    exact .refl _ _

theorem addSegment_spec (h : addSegment read x l = .ok l') : ∃ b c,
    read x.cursor 72 = some b ∧
      l.commands.add x.sliceSize x.commandsEnd (SegmentCommand.decode b) = .ok c ∧
      Keeps x.sliceSize { l with commands := c } l' := by
  simp only [addSegment, bind_ok, need_ok, obtained_ok, mapError_ok, exists_const] at h
  obtain ⟨-, b, hb, -, c, hadd, h⟩ := h
  exact ⟨b, c, hb, hadd, sectionLoop_keeps h⟩

end Loading

/-! ## Segments -/

theorem Commands.add_file {c c' : Commands} {s : SegmentCommand} {sliceSize commandsEnd : ℕ}
    (h : c.add sliceSize commandsEnd s = .ok c') :
    c'.segments = c.segments ++ [s.segment] ∧ Inside sliceSize (s.fileoff, s.filesize) ∧
      (c'.header = c.header ∨ c'.header = some s.vmaddr ∧ s.segname = ascii "__TEXT" ∧
        s.fileoff = 0 ∧ commandsEnd ≤ s.filesize ∧ s.initprot &&& GM.EXEC ≠ 0#32) := by
  unfold Commands.add at h
  split at h
  · cases h
  · split at h
    · cases h
    · rename_i hok
      simp only [not_or, not_not] at hok
      have hin := isWithin_iff.1 hok.1
      split at h
      · rename_i htext
        split at h
        · cases h
        · rename_i hheader
          simp only [not_or, not_not, not_lt] at hheader
          cases h
          exact ⟨rfl, hin, .inr ⟨rfl, htext, hheader.2.1, hheader.2.2⟩⟩
      · cases h
        exact ⟨rfl, hin, .inl rfl⟩

def declaredSegments (content : ℕ → UInt8) : ℕ → ℕ → List GISegment
  | 0, _ => []
  | left + 1, cursor =>
    (if little content cursor 4 = LC.SEGMENT_64 then
      [(SegmentCommand.decode fun i => content (cursor + i)).segment] else []) ++
      declaredSegments content left (cursor + little content (cursor + 4) 4)

theorem segment_gives {read : Reader} {content : ℕ → UInt8} (hread : read.Gives content)
    {cursor : ℕ} {b : Buffer} (hb : read cursor 72 = some b) :
    (SegmentCommand.decode b).segment =
      (SegmentCommand.decode fun i => content (cursor + i)).segment := by
  have hlittle : ∀ offset k, offset + k ≤ 72 →
      little b offset k = little (fun i => content (cursor + i)) offset k := by
    intro offset k hle
    rw [little_gives hread hb hle]
    unfold little
    simp only [Nat.add_assoc]
  have hname : cstring b 8 16 = cstring (fun i => content (cursor + i)) 8 16 := by
    unfold cstring
    congr 1
    apply List.map_congr_left
    intro i hi
    rw [List.mem_range] at hi
    exact hread _ _ _ hb _ (by omega)
  unfold SegmentCommand.segment SegmentCommand.decode
  dsimp only
  rw [hname, hlittle 24 8 (by decide), hlittle 32 8 (by decide), hlittle 40 8 (by decide),
    hlittle 48 8 (by decide), hlittle 56 4 (by decide), hlittle 60 4 (by decide)]

theorem Loading.addCommand_segments {read : Reader} {content : ℕ → UInt8}
    (hread : read.Gives content) {x : Context} {cmd : ℕ} {l l' : Loading}
    (h : addCommand read x l cmd = .ok l') :
    l'.commands.segments = l.commands.segments ++
      if cmd = LC.SEGMENT_64 then
        [(SegmentCommand.decode fun i => content (x.cursor + i)).segment] else [] := by
  by_cases hcmd : cmd = LC.SEGMENT_64
  · rw [addCommand, if_pos hcmd] at h
    obtain ⟨b, c, hb, hadd, hkeeps⟩ := addSegment_spec h
    rw [if_pos hcmd, hkeeps.commands, ← segment_gives hread hb]
    exact (Commands.add_file hadd).1
  · rw [if_neg hcmd, List.append_nil, (addCommand_keeps hcmd h).commands]

theorem commandLoop_segments {read : Reader} {content : ℕ → UInt8} (hread : read.Gives content)
    {sliceSize commandsEnd left cursor cursor' : ℕ} {l l' : Loading}
    (h : commandLoop read sliceSize commandsEnd left cursor l = .ok (l', cursor')) :
    l'.commands.segments = l.commands.segments ++ declaredSegments content left cursor := by
  induction left generalizing cursor l with
  | zero =>
      cases h
      rw [declaredSegments, List.append_nil]
  | succ left ih =>
      simp only [commandLoop, bind_ok, need_ok, obtained_ok, exists_const] at h
      obtain ⟨-, lc, hlc, -, l₁, h₁, h⟩ := h
      rw [ih h, Loading.addCommand_segments hread h₁, little_gives hread hlc (by decide),
        little_gives hread hlc (by decide), List.append_assoc]
      rfl

/-! ## The loop over the commands -/

/-- The state of the loop over the commands of a slice. -/
structure Loading.Sound (slice : ℕ × ℕ) (commandsEnd : ℕ) (l : Loading) : Prop where
  commands : l.commands.Sound commandsEnd
  segments : ∀ s ∈ l.commands.segments, Inside slice.2 (s.fileOffset, s.fileSize)
  text : ∀ h, l.commands.header = some h → ∃ s ∈ l.commands.segments, s.name = ascii "__TEXT" ∧
    s.address = h ∧ s.fileOffset = 0 ∧ commandsEnd ≤ s.fileSize ∧ s.prot &&& GM.EXEC ≠ 0#32
  place : l.image.sliceOffset = slice.1 ∧ l.image.sliceSize = slice.2
  dyldInfo : l.image.dyldInfo.Within slice.2
  chained : ∀ range ∈ l.image.chained, Inside slice.2 range
  exports : ∀ range ∈ l.exportRange, Inside slice.2 range

namespace Loading

variable {slice : ℕ × ℕ} {commandsEnd : ℕ} {l l' : Loading}

theorem sound_start (kind : ImageKind) (slice : ℕ × ℕ) (mh : MachHeader) (commandsEnd : ℕ) :
    (start kind slice mh).Sound slice commandsEnd where
  commands := ⟨nofun, nofun⟩
  segments := nofun
  text := nofun
  place := ⟨rfl, rfl⟩
  dyldInfo := ⟨Nat.zero_le _, Nat.zero_le _, Nat.zero_le _, Nat.zero_le _⟩
  chained := nofun
  exports := nofun

theorem Sound.keeps (h : l.Sound slice commandsEnd) (hkeeps : Keeps slice.2 l l') :
    l'.Sound slice commandsEnd where
  commands := hkeeps.commands ▸ h.commands
  segments := hkeeps.commands ▸ h.segments
  text := hkeeps.commands ▸ h.text
  place := by
    rw [hkeeps.place.1, hkeeps.place.2]
    exact h.place
  dyldInfo := by
    rcases hkeeps.dyldInfo with hsame | hin
    · rw [hsame]
      exact h.dyldInfo
    · exact hin
  chained := by
    intro range hrange
    rcases hkeeps.chained range hrange with hold | hin
    · exact h.chained range hold
    · exact hin
  exports := by
    intro range hrange
    rcases hkeeps.exports range hrange with hold | hin
    · exact h.exports range hold
    · exact hin

theorem Sound.add {s : SegmentCommand} {c : Commands} (h : l.Sound slice commandsEnd)
    (hadd : l.commands.add slice.2 commandsEnd s = .ok c) :
    ({ l with commands := c } : Loading).Sound slice commandsEnd := by
  obtain ⟨hsegments, hin, hheader⟩ := Commands.add_file hadd
  refine ⟨Commands.add_sound h.commands hadd, ?_, ?_, h.place, h.dyldInfo, h.chained, h.exports⟩
  · change ∀ s ∈ c.segments, _
    rw [hsegments]
    intro t ht
    rcases List.mem_append.1 ht with hold | hnew
    · exact h.segments t hold
    · rw [List.mem_singleton.1 hnew]
      exact hin
  · change ∀ a, c.header = some a → ∃ s ∈ c.segments, _
    rw [hsegments]
    intro a ha
    rcases hheader with hsame | ⟨hnew, htext, hstart⟩
    · rw [hsame] at ha
      obtain ⟨t, ht, hrest⟩ := h.text a ha
      exact ⟨t, List.mem_append_left _ ht, hrest⟩
    · rw [hnew] at ha
      cases ha
      exact ⟨_, List.mem_append_right _ (List.mem_singleton_self _), htext, rfl, hstart⟩

theorem addCommand_sound {read : Reader} {cursor cmdsize cmd : ℕ} (hl : l.Sound slice commandsEnd)
    (h : addCommand read ⟨slice.2, commandsEnd, cursor, cmdsize⟩ l cmd = .ok l') :
    l'.Sound slice commandsEnd := by
  by_cases hcmd : cmd = LC.SEGMENT_64
  · rw [addCommand, if_pos hcmd] at h
    obtain ⟨b, c, -, hadd, hkeeps⟩ := addSegment_spec h
    exact (hl.add hadd).keeps hkeeps
  · exact hl.keeps (addCommand_keeps hcmd h)

end Loading

theorem commandLoop_sound {read : Reader} {slice : ℕ × ℕ} {commandsEnd left cursor cursor' : ℕ}
    {l l' : Loading} (hl : l.Sound slice commandsEnd)
    (h : commandLoop read slice.2 commandsEnd left cursor l = .ok (l', cursor')) :
    l'.Sound slice commandsEnd := by
  induction left generalizing cursor l with
  | zero =>
      cases h
      exact hl
  | succ left ih =>
      simp only [commandLoop, bind_ok, need_ok, obtained_ok, exists_const] at h
      obtain ⟨-, lc, -, -, l₁, h₁, h⟩ := h
      exact ih (Loading.addCommand_sound hl h₁) h

end Tolkara
