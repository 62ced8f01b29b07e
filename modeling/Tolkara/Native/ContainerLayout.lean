import Tolkara.Native.Container
import Tolkara.Native.Accepted

/-!
# Where a container has its image

What the fields of a container read back as, field by field from the front: a field that begins
behind a part is read from what follows that part. The search of the runtime then goes through the
seven commands and finds the one section.
-/

namespace Tolkara

open Library

def bufferOf (l : List UInt8) : Buffer := fun i => l.getD i 0

section Fields

variable {a b : List UInt8}

theorem bufferOf_left {i : ℕ} (h : i < a.length) : bufferOf (a ++ b) i = bufferOf a i := by
  simp only [bufferOf, List.getD_eq_getElem?_getD, List.getElem?_append_left h]

theorem bufferOf_right {i : ℕ} (h : a.length ≤ i) :
    bufferOf (a ++ b) i = bufferOf b (i - a.length) := by
  simp only [bufferOf, List.getD_eq_getElem?_getD, List.getElem?_append_right h]

/-- A number behind the first part. -/
theorem little_right {k n : ℕ} (h : a.length ≤ k) :
    little (bufferOf (a ++ b)) k n = little (bufferOf b) (k - a.length) n := by
  unfold little
  congr 1
  refine List.map_congr_left fun i _ => ?_
  rw [bufferOf_right (by omega)]
  congr 1
  omega

theorem cstring_right {k n : ℕ} (h : a.length ≤ k) :
    cstring (bufferOf (a ++ b)) k n = cstring (bufferOf b) (k - a.length) n := by
  unfold cstring
  congr 1
  refine List.map_congr_left fun i _ => ?_
  rw [bufferOf_right (by omega)]
  congr 1
  omega

theorem little_shift (content : ℕ → UInt8) (c k n : ℕ) :
    little (fun i => content (c + i)) k n = little content (c + k) n := by
  unfold little
  simp only [Nat.add_assoc]

theorem cstring_shift (content : ℕ → UInt8) (c k n : ℕ) :
    cstring (fun i => content (c + i)) k n = cstring content (c + k) n := by
  unfold cstring
  simp only [Nat.add_assoc]

theorem cstring_congr {x y : Buffer} {k n : ℕ} (h : ∀ i < n, x (k + i) = y (k + i)) :
    cstring x k n = cstring y k n := by
  unfold cstring
  congr 1
  exact List.map_congr_left fun i hi => h i (List.mem_range.1 hi)

end Fields

namespace Builder

@[simp]
theorem length_le (n v : ℕ) : (le n v).length = n := by
  rw [le, List.length_map, List.length_range]

theorem length_field {n : ℕ} {s : List UInt8} (h : s.length ≤ n) : (field n s).length = n := by
  rw [field, List.length_append, List.length_replicate]
  omega

@[simp]
theorem little_le (n v : ℕ) (rest : List UInt8) :
    little (bufferOf (le n v ++ rest)) 0 n = v % 256 ^ n := by
  rw [← littleEndian_byteOf, little]
  congr 1
  refine List.map_congr_left fun i hi => ?_
  have hi := List.mem_range.1 hi
  rw [Nat.zero_add, bufferOf_left (by rwa [length_le]), bufferOf, le]
  simp [hi]

theorem cstring_field {n : ℕ} {s rest : List UInt8} (hlength : s.length ≤ n)
    (hzero : ∀ c ∈ s, c ≠ 0) : cstring (bufferOf (field n s ++ rest)) 0 n = s := by
  have hbytes : (List.range n).map (fun i => bufferOf (field n s ++ rest) (0 + i)) =
      field n s := by
    refine List.ext_getElem (by rw [List.length_map, List.length_range, length_field hlength])
      fun i h1 h2 => ?_
    rw [List.getElem_map, List.getElem_range, Nat.zero_add, bufferOf_left h2, bufferOf,
      List.getD_eq_getElem?_getD, List.getElem?_eq_getElem h2, Option.getD_some]
  rw [cstring, hbytes, field, List.takeWhile_append_of_pos (by simpa using hzero)]
  cases n - s.length with
  | zero => simp
  | succ k => simp [List.replicate_succ]

/-! ## The header of a container -/

@[simp]
theorem length_text_name : (field 16 (ascii "__TEXT")).length = 16 := length_field (by decide)

@[simp]
theorem length_section_name : (field 16 (ascii "__text")).length = 16 := length_field (by decide)

@[simp]
theorem length_linkedit_name : (field 16 (ascii "__LINKEDIT")).length = 16 :=
  length_field (by decide)

theorem length_id_name : (field 32 (ascii "/tolkara/page-container.dylib")).length = 32 :=
  length_field (by decide)

variable (platform : Platform) (digest : Vector UInt8 32) (size : ℕ) (l : Linkedit)

@[simp]
theorem length_textCommand : (textCommand size).length = 152 := by
  simp only [textCommand, List.length_append, length_le, length_text_name, length_section_name]

@[simp]
theorem length_linkeditCommand : (linkeditCommand l).length = 72 := by
  simp only [linkeditCommand, List.length_append, length_le, length_linkedit_name]

theorem length_otherCommands : (otherCommands platform digest l).length = 208 := by
  simp only [otherCommands, List.length_append, length_le, length_id_name]
  simp

theorem length_header : (header platform digest size l).length = 464 := by
  simp only [header, List.length_append, length_le, length_textCommand, length_linkeditCommand,
    length_otherCommands]

/-- Each command of the library: where it is, its code and its size. -/
def commandsAt : List (ℕ × ℕ × ℕ) :=
  [(32, 0x19, 152), (184, 0x19, 72), (256, 0xD, 56), (312, 0x32, 24), (336, 0x2, 24),
    (360, 0xB, 80), (440, 0x1B, 24)]

theorem header_commands : ∀ x ∈ commandsAt,
    little (bufferOf (header platform digest size l)) x.1 4 = x.2.1 ∧
      little (bufferOf (header platform digest size l)) (x.1 + 4) 4 = x.2.2 := by
  simp only [header, otherCommands, textCommand, linkeditCommand, List.append_assoc, commandsAt,
    List.forall_mem_cons]
  simp [little_right, length_id_name]

theorem header_start : little (bufferOf (header platform digest size l)) 0 4 = 0xfeedfacf ∧
    little (bufferOf (header platform digest size l)) 4 4 = 0x0100000c ∧
    little (bufferOf (header platform digest size l)) 16 4 = 7 ∧
    little (bufferOf (header platform digest size l)) 20 4 = 432 := by
  simp only [header, List.append_assoc]
  simp [little_right]

theorem header_names :
    cstring (bufferOf (header platform digest size l)) 40 16 = ascii "__TEXT" ∧
      cstring (bufferOf (header platform digest size l)) 192 16 = ascii "__LINKEDIT" := by
  simp only [header, textCommand, linkeditCommand, List.append_assoc]
  constructor
  · simp only [cstring_right, length_le, Nat.reduceLeDiff, Nat.reduceSub]
    exact cstring_field (by decide) (by decide +kernel)
  · simp only [cstring_right, length_le, length_text_name, length_section_name, Nat.reduceLeDiff,
      Nat.reduceSub, le_refl]
    exact cstring_field (by decide) (by decide +kernel)

/-- The segment with the image, its section and the segment behind it, which has none. -/
theorem header_text (hsize : pageSize + size < 2 ^ 64) :
    little (bufferOf (header platform digest size l)) 56 8 = 0 ∧
    little (bufferOf (header platform digest size l)) 64 8 = pageSize + size ∧
    little (bufferOf (header platform digest size l)) 72 8 = 0 ∧
    little (bufferOf (header platform digest size l)) 80 8 = pageSize + size ∧
    little (bufferOf (header platform digest size l)) 92 4 = 5 ∧
    little (bufferOf (header platform digest size l)) 96 4 = 1 ∧
    little (bufferOf (header platform digest size l)) 136 8 = pageSize ∧
    little (bufferOf (header platform digest size l)) 144 8 = size ∧
    little (bufferOf (header platform digest size l)) 248 4 = 0 := by
  have htext : (pageSize + size) % 2 ^ 64 = pageSize + size := Nat.mod_eq_of_lt hsize
  have himage : size % 2 ^ 64 = size := Nat.mod_eq_of_lt (by omega)
  have hpage : pageSize % 2 ^ 64 = pageSize := Nat.mod_eq_of_lt (by omega)
  norm_num at htext himage hpage
  simp only [header, textCommand, linkeditCommand, List.append_assoc]
  simp [little_right, htext, himage, hpage]

/-! ## The search -/

section Search

variable {content : ℕ → UInt8} {start v1 : ℕ}

/-- The search goes on behind a command that the first page has. -/
theorem locateLoop_step {left c cursor cmdsize commandsEnd : ℕ} {l m : Locating}
    {r : Locating × ℕ} (hpage : commandsEnd ≤ pageSize) (hend : cursor + cmdsize ≤ commandsEnd)
    (hsize : little content (cursor + 4) 4 = cmdsize) (hwhole : 8 ≤ cmdsize ∧ cmdsize % 8 = 0)
    (hcommand : locateCommand (firstPage content) start v1 c cursor cmdsize
      (little content cursor 4) l = .ok m)
    (hrest : locateLoop (firstPage content) start v1 commandsEnd left (c + 1) (cursor + cmdsize) m =
      .ok r) :
    locateLoop (firstPage content) start v1 commandsEnd (left + 1) c cursor l = .ok r := by
  rw [locateLoop]
  simp only [bind_ok, need_ok, obtained_ok, exists_const]
  refine ⟨isWithin_iff.2 (by omega), _, if_pos (by omega), ?_, m, ?_, ?_⟩
  · rw [little_shift, hsize]
    exact ⟨hwhole.1, hwhole.2, isWithin_iff.2 hend⟩
  · rw [little_shift, little_shift, hsize]
    exact hcommand
  · rw [little_shift, hsize]
    exact hrest

/-! The header is mapped at `start`. -/

variable (hcontent : ∀ i < 464, content i = bufferOf (header platform digest size l) i)

include hcontent

variable {platform digest size l}

theorem little_header {k n v : ℕ} (hle : k + n ≤ 464)
    (hv : little (bufferOf (header platform digest size l)) k n = v) : little content k n = v :=
  (little_congr fun i hi => hcontent (k + i) (by omega)).trans hv

theorem cstring_header {k n : ℕ} {s : CString} (hle : k + n ≤ 464)
    (hs : cstring (bufferOf (header platform digest size l)) k n = s) : cstring content k n = s :=
  (cstring_congr fun i hi => hcontent (k + i) (by omega)).trans hs

theorem content_commands : ∀ x ∈ commandsAt, little content x.1 4 = x.2.1 ∧
    little content (x.1 + 4) 4 = x.2.2 := by
  intro x hx
  have hin : x.1 + 8 ≤ 464 := by
    simp only [commandsAt, List.mem_cons, List.not_mem_nil, or_false] at hx
    rcases hx with rfl | rfl | rfl | rfl | rfl | rfl | rfl <;> decide
  obtain ⟨hcmd, hcmdsize⟩ := header_commands platform digest size l x hx
  exact ⟨little_header hcontent (by omega) hcmd, little_header hcontent (by omega) hcmdsize⟩

theorem segment_container (hsize : pageSize + size < 2 ^ 64) {s : SegmentCommand}
    (hs : s = SegmentCommand.decode fun i => content (32 + i)) :
    s.segname = ascii "__TEXT" ∧ s.vmaddr = 0 ∧ s.vmsize = pageSize + size ∧ s.fileoff = 0 ∧
      s.filesize = pageSize + size ∧ s.initprot = 5#32 := by
  obtain ⟨hname, -⟩ := header_names platform digest size l
  obtain ⟨hvmaddr, hvmsize, hfileoff, hfilesize, hinitprot, -⟩ :=
    header_text platform digest size l hsize
  subst hs
  refine ⟨?_, ?_, ?_, ?_, ?_, congrArg (BitVec.ofNat 32) (?_ : _ = 5)⟩
  · exact (cstring_shift content 32 8 16).trans (cstring_header hcontent (by decide) hname)
  · exact (little_shift content 32 24 8).trans (little_header hcontent (by decide) hvmaddr)
  · exact (little_shift content 32 32 8).trans (little_header hcontent (by decide) hvmsize)
  · exact (little_shift content 32 40 8).trans (little_header hcontent (by decide) hfileoff)
  · exact (little_shift content 32 48 8).trans (little_header hcontent (by decide) hfilesize)
  · exact (little_shift content 32 60 4).trans (little_header hcontent (by decide) hinitprot)

theorem section_container (hsize : pageSize + size < 2 ^ 64) {x : Section}
    (hx : x = Section.decode fun i => content (104 + i)) : x.addr = pageSize ∧ x.size = size := by
  obtain ⟨-, -, -, -, -, -, haddr, hlength, -⟩ := header_text platform digest size l hsize
  subst hx
  constructor
  · exact (little_shift content 104 32 8).trans (little_header hcontent (by decide) haddr)
  · exact (little_shift content 104 40 8).trans (little_header hcontent (by decide) hlength)

/-- The search goes through the seven commands. -/
theorem locateLoop_container (hsize : size ≠ 0) (hfits : start + pageSize + size ≤ uint64Max)
    {s : SegmentCommand} (hs : s = SegmentCommand.decode fun i => content (32 + i))
    {x : Section} (hx : x = Section.decode fun i => content (104 + i)) :
    locateLoop (firstPage content) start (start + pageSize) 464 7 0 32 ⟨none, none⟩ =
      .ok (⟨some s, some x⟩, 464) := by
  have hfield : pageSize + size < 2 ^ 64 := by
    unfold uint64Max at hfits
    omega
  have hpage : 464 ≤ pageSize := by decide
  obtain ⟨hname, hvmaddr, -⟩ := segment_container hcontent hfield hs
  obtain ⟨haddr, hlength⟩ := section_container hcontent hfield hx
  obtain ⟨-, -, -, -, -, hnsects, -, -, hnone⟩ := header_text platform digest size l hfield
  obtain ⟨-, hlinkedit⟩ := header_names platform digest size l
  have hnsects : little content 96 4 = 1 := little_header hcontent (by decide) hnsects
  have hnone : little content 248 4 = 0 := little_header hcontent (by decide) hnone
  have hlinkedit := cstring_header hcontent (by decide) hlinkedit
  have hmarker : wrap64 (start + sub64 x.addr s.vmaddr) = start + pageSize := by
    have hoffset : sub64 x.addr s.vmaddr = pageSize := by
      rw [haddr, hvmaddr]
      decide
    rw [hoffset]
    exact Nat.mod_eq_of_lt (by omega)
  have hother : ∀ c cursor cmdsize (l : Locating), little content cursor 4 ≠ LC.SEGMENT_64 →
      locateCommand (firstPage content) start (start + pageSize) c cursor cmdsize
        (little content cursor 4) l = .ok l :=
    fun c cursor cmdsize l hcmd => if_neg hcmd
  have hcommands := content_commands hcontent
  simp only [commandsAt, List.forall_mem_cons] at hcommands
  obtain ⟨h1, h2, h3, h4, h5, h6, h7, -⟩ := hcommands
  -- the segment with the image
  refine locateLoop_step (m := ⟨some s, some x⟩) hpage (by decide) h1.2 (by decide) ?_ ?_
  · rw [h1.1, locateCommand, if_pos (show 0x19 = LC.SEGMENT_64 from rfl)]
    simp only [locateSegment, bind_ok, need_ok, obtained_ok, exists_const]
    refine ⟨by decide, _, if_pos (by decide), ?_, ?_⟩
    · rw [little_shift, hnsects]
    · rw [← hs, if_pos hname]
      simp only [bind_ok, need_ok, exists_const]
      refine ⟨rfl, some x, ?_, rfl⟩
      rw [little_shift, hnsects, markerLoop]
      simp only [bind_ok, obtained_ok]
      refine ⟨_, if_pos (by decide), ?_⟩
      rw [← hx, if_neg (not_or.2 ⟨fun h => hsize (hlength.symm.trans h), not_not.2 hmarker⟩)]
      rfl
  -- the one behind it has another name
  refine locateLoop_step (m := ⟨some s, some x⟩) hpage (by decide) h2.2 (by decide) ?_ ?_
  · rw [h2.1, locateCommand, if_pos (show 0x19 = LC.SEGMENT_64 from rfl)]
    simp only [locateSegment, bind_ok, need_ok, obtained_ok, exists_const]
    refine ⟨by decide, _, if_pos (by decide), ?_, ?_⟩
    · rw [little_shift, hnone]
    · rw [if_neg]
      change cstring (fun i => content (184 + i)) 8 16 ≠ _
      rw [cstring_shift, hlinkedit]
      decide
  refine locateLoop_step hpage (by decide) h3.2 (by decide)
    (hother _ _ _ _ (by rw [h3.1]; decide)) ?_
  refine locateLoop_step hpage (by decide) h4.2 (by decide)
    (hother _ _ _ _ (by rw [h4.1]; decide)) ?_
  refine locateLoop_step hpage (by decide) h5.2 (by decide)
    (hother _ _ _ _ (by rw [h5.1]; decide)) ?_
  refine locateLoop_step hpage (by decide) h6.2 (by decide)
    (hother _ _ _ _ (by rw [h6.1]; decide)) ?_
  exact locateLoop_step hpage (by decide) h7.2 (by decide)
    (hother _ _ _ _ (by rw [h7.1]; decide)) rfl

theorem siLocateImage_container (hstart : start ≠ 0 ∧ start % pageSize = 0)
    (hsize : size ≠ 0 ∧ size % pageSize = 0) (hfits : start + pageSize + size ≤ uint64Max) :
    siLocateImage (firstPage content) start (start + pageSize) (start + pageSize) =
      .ok ⟨start + pageSize, size⟩ := by
  have hfield : pageSize + size < 2 ^ 64 := by
    unfold uint64Max at hfits
    omega
  obtain ⟨-, hvmaddr, hvmsize, hfileoff, hfilesize, hinitprot⟩ :=
    segment_container hcontent hfield rfl
  obtain ⟨haddr, hlength⟩ := section_container hcontent hfield rfl
  obtain ⟨hmagic, hcputype, hncmds, hsizeofcmds⟩ := header_start platform digest size l
  have hmagic := little_header hcontent (by decide) hmagic
  have hcputype := little_header hcontent (by decide) hcputype
  have hncmds : little content (0 + 16) 4 = 7 := little_header hcontent (by decide) hncmds
  have hsizeofcmds : little content (0 + 20) 4 = 432 :=
    little_header hcontent (by decide) hsizeofcmds
  have hoffset : sub64 pageSize 0 = pageSize := by decide
  simp only [siLocateImage, acceptImage, bind_ok, need_ok, obtained_ok, exists_const, Prod.exists]
  refine ⟨by omega, by omega, trivial, hstart, _, if_pos (by decide), ?_, ?_,
    ⟨some (SegmentCommand.decode fun i => content (32 + i)),
      some (Section.decode fun i => content (104 + i))⟩, 464, ?_, ?_, _, rfl, ?_, _, rfl,
    ?_, ?_, ?_, ?_⟩
  · exact ⟨(little_shift content 0 0 4).trans hmagic, (little_shift content 0 4 4).trans hcputype⟩
  · change little (fun i => content (0 + i)) 20 4 ≤ _
    rw [little_shift, hsizeofcmds]
    decide
  · change locateLoop _ _ _ (32 + little (fun i => content (0 + i)) 20 4)
      (little (fun i => content (0 + i)) 16 4) _ _ _ = _
    rw [little_shift, little_shift, hsizeofcmds, hncmds]
    exact locateLoop_container hcontent hsize.1 hfits rfl rfl
  · change 464 = 32 + little (fun i => content (0 + i)) 20 4
    rw [little_shift, hsizeofcmds]
  · exact ⟨hfileoff, by rw [hinitprot]; decide⟩
  · rw [hvmaddr, hfilesize, hvmsize, haddr, hlength, hoffset, if_neg (lt_irrefl _)]
    exact ⟨Nat.zero_le _, isWithin_iff.2 le_rfl⟩
  · rw [hvmaddr, haddr, hoffset]
    decide
  · rw [hlength]
    exact hsize.2
  · rw [hlength]

end Search

end Builder

end Tolkara
