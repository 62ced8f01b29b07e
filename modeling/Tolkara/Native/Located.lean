import Tolkara.Image.FileCommands
import Tolkara.Native.SignedImage

/-!
# Where the image of a container is

The search for the image looks at nothing but the first page of the container. What it
finds starts at the marker and is a whole number of pages within the bytes of the only
`__TEXT` segment that come from the file.
-/

namespace Tolkara

open Library

variable {header v1 : ℕ}

/-! ## What is read -/

theorem markerLoop_staysWithin {total : ℕ} {s : SegmentCommand} {left cursor : ℕ}
    {found : Option Section} (hle : cursor + left * 80 ≤ total) :
    StaysWithin total fun read => markerLoop read header v1 s left cursor found := by
  induction left generalizing cursor found with
  | zero => exact .const _
  | succ left ih =>
      refine .read (by omega) fun b => .ite (fun _ => ih (by omega)) fun _ => .need fun _ => ?_
      exact ih (by omega)

theorem locateSegment_staysWithin {total c cursor cmdsize : ℕ} (hle : cursor + cmdsize ≤ total)
    (l : Locating) :
    StaysWithin total fun read => locateSegment read header v1 c cursor cmdsize l := by
  refine .need fun h72 => .read ?_ fun b => .need fun hsects => ?_
  · omega
  · refine .ite (fun _ => .need fun _ => .bind (markerLoop_staysWithin ?_) ?_) fun _ => .const _
    · omega
    · exact fun found _ _ => .const _

theorem locateLoop_staysWithin {total commandsEnd left c cursor : ℕ} {l : Locating}
    (hle : commandsEnd ≤ total) :
    StaysWithin total fun read => locateLoop read header v1 commandsEnd left c cursor l := by
  induction left generalizing c cursor l with
  | zero => exact .const _
  | succ left ih =>
      refine .need fun h8 => .read ((isWithin_iff.1 h8).trans hle) fun lc => .need fun h => ?_
      have hend := (isWithin_iff.1 h.2.2).trans hle
      refine .bind (.ite (fun _ => locateSegment_staysWithin hend l) fun _ => .const _) ?_
      exact fun l' _ _ => ih

/-- The search looks at nothing but the first page. -/
theorem siLocateImage_staysWithin (header v1 final : ℕ) :
    StaysWithin pageSize fun read => siLocateImage read header v1 final := by
  unfold siLocateImage
  refine .need fun _ => .need fun _ => .need fun _ => .need fun _ => .read ?_ fun b =>
    .need fun _ => .need fun hsize => .bind (locateLoop_staysWithin ?_) fun found _ _ => ?_
  · decide
  · unfold pageSize at hsize ⊢
    omega
  · exact .const _

theorem markerLoop_neverMisses {total : ℕ} {s : SegmentCommand} {left cursor : ℕ}
    {found : Option Section} (hle : cursor + left * 80 ≤ total) :
    NeverMisses total .fault fun read => markerLoop read header v1 s left cursor found := by
  induction left generalizing cursor found with
  | zero => exact .const (by nofun)
  | succ left ih =>
      refine .read (by omega) fun b => .ite (fun _ => ih (by omega)) fun _ => .need (by nofun) fun _ => ?_
      exact ih (by omega)

theorem locateSegment_neverMisses {total c cursor cmdsize : ℕ} (hle : cursor + cmdsize ≤ total)
    (l : Locating) :
    NeverMisses total .fault fun read => locateSegment read header v1 c cursor cmdsize l := by
  refine .need (by nofun) fun h72 => .read ?_ fun b => .need (by nofun) fun hsects => ?_
  · omega
  · refine .ite (fun _ => .need (by nofun) fun _ => .bind (markerLoop_neverMisses ?_) ?_)
      fun _ => .const (by nofun)
    · omega
    · exact fun found _ _ => .const (by nofun)

theorem locateLoop_neverMisses {total commandsEnd left c cursor : ℕ} {l : Locating}
    (hle : commandsEnd ≤ total) : NeverMisses total .fault fun read =>
      locateLoop read header v1 commandsEnd left c cursor l := by
  induction left generalizing c cursor l with
  | zero => exact .const (by nofun)
  | succ left ih =>
      refine .need (by nofun) fun h8 => .read ((isWithin_iff.1 h8).trans hle) fun lc =>
        .need (by nofun) fun h => ?_
      have hend := (isWithin_iff.1 h.2.2).trans hle
      refine .bind (.ite (fun _ => locateSegment_neverMisses hend l) fun _ => .const (by nofun)) ?_
      exact fun l' _ _ => ih

/-- Where the first page can be read, no read fails. -/
theorem siLocateImage_neverMisses (header v1 final : ℕ) :
    NeverMisses pageSize .fault fun read => siLocateImage read header v1 final := by
  unfold siLocateImage
  refine .need (by nofun) fun _ => .need (by nofun) fun _ => .need (by nofun) fun _ =>
    .need (by nofun) fun _ => .read ?_ fun b => .need (by nofun) fun _ => .need (by nofun)
    fun hsize => .bind (locateLoop_neverMisses ?_) fun found _ _ => ?_
  · decide
  · unfold pageSize at hsize ⊢
    omega
  · unfold acceptImage
    exact .need (by nofun) fun _ => .obtained (by nofun) fun text => .need (by nofun) fun _ =>
      .obtained (by nofun) fun x => .need (by nofun) fun _ => .need (by nofun) fun _ =>
      .need (by nofun) fun _ => .const (by nofun)

/-! ## What is found -/

/-- A section with contents starts at the marker, as far as a wrapping sum can tell. -/
def AtMarker (header v1 : ℕ) (s : SegmentCommand) (x : Section) : Prop :=
  x.size ≠ 0 ∧ wrap64 (header + sub64 x.addr s.vmaddr) = v1

def GISegment.isText (s : GISegment) : Bool := s.name = ascii "__TEXT"

/-- The `__TEXT` segments that were found; at most one. -/
def Locating.texts (l : Locating) : List GISegment := l.text.toList.map SegmentCommand.segment

/-- A section was found in the segment that was found. -/
def Locating.Sound (header v1 : ℕ) (l : Locating) : Prop :=
  ∀ x ∈ l.found, ∃ s ∈ l.text, AtMarker header v1 s x

theorem markerLoop_spec {read : Reader} {s : SegmentCommand} {left cursor : ℕ}
    {found found' : Option Section} (hfound : ∀ x ∈ found, AtMarker header v1 s x)
    (h : markerLoop read header v1 s left cursor found = .ok found') :
    ∀ x ∈ found', AtMarker header v1 s x := by
  induction left generalizing cursor found with
  | zero =>
      cases h
      exact hfound
  | succ left ih =>
      simp only [markerLoop, bind_ok, obtained_ok] at h
      obtain ⟨b, -, h⟩ := h
      split at h
      · exact ih hfound h
      · rename_i hmarker
        simp only [not_or, not_not] at hmarker
        simp only [bind_ok, need_ok, exists_const] at h
        refine ih (fun x hx => ?_) h.2
        rw [← Option.mem_some_iff.1 hx]
        exact hmarker

theorem locateCommand_spec {read : Reader} {content : ℕ → UInt8} (hread : read.Gives content)
    {c cursor cmdsize cmd : ℕ} {l l' : Locating} (hl : l.Sound header v1)
    (h : locateCommand read header v1 c cursor cmdsize cmd l = .ok l') :
    l'.Sound header v1 ∧ l'.texts = l.texts ++ (if cmd = LC.SEGMENT_64 then
      [(SegmentCommand.decode fun i => content (cursor + i)).segment] else []).filter
        GISegment.isText := by
  unfold locateCommand at h
  split at h
  · rename_i hcmd
    rw [if_pos hcmd]
    simp only [locateSegment, bind_ok, need_ok, obtained_ok, exists_const] at h
    obtain ⟨-, b, hb, -, h⟩ := h
    rw [← segment_gives hread hb]
    split at h
    · rename_i htext
      have hname : (SegmentCommand.decode b).segment.isText = true := decide_eq_true htext
      simp only [bind_ok, need_ok, exists_const] at h
      obtain ⟨hnone, found, hloop, h⟩ := h
      cases h
      rw [Option.isNone_iff_eq_none] at hnone
      have hbefore : ∀ x ∈ l.found, AtMarker header v1 (SegmentCommand.decode b) x := by
        intro x hx
        obtain ⟨s, hs, -⟩ := hl x hx
        rw [hnone] at hs
        cases hs
      refine ⟨fun x hx => ⟨_, rfl, markerLoop_spec hbefore hloop x hx⟩, ?_⟩
      rw [List.filter_singleton, hname, Locating.texts, Locating.texts, hnone]
      rfl
    · rename_i htext
      have hname : (SegmentCommand.decode b).segment.isText = false := decide_eq_false htext
      cases h
      rw [List.filter_singleton, hname]
      exact ⟨hl, (List.append_nil _).symm⟩
  · rename_i hcmd
    cases h
    rw [if_neg hcmd, List.filter_nil, List.append_nil]
    exact ⟨hl, rfl⟩

theorem locateLoop_spec {read : Reader} {content : ℕ → UInt8} (hread : read.Gives content)
    {commandsEnd left c cursor cursor' : ℕ} {l l' : Locating} (hl : l.Sound header v1)
    (h : locateLoop read header v1 commandsEnd left c cursor l = .ok (l', cursor')) :
    l'.Sound header v1 ∧
      l'.texts = l.texts ++ (declaredSegments content left cursor).filter GISegment.isText := by
  induction left generalizing c cursor l with
  | zero =>
      cases h
      exact ⟨hl, (List.append_nil _).symm⟩
  | succ left ih =>
      simp only [locateLoop, bind_ok, need_ok, obtained_ok, exists_const] at h
      obtain ⟨-, lc, hlc, -, l₁, hcommand, h⟩ := h
      have hcmd := little_gives hread hlc (by decide : 0 + 4 ≤ 8)
      have hsize := little_gives hread hlc (by decide : 4 + 4 ≤ 8)
      obtain ⟨hl₁, htexts₁⟩ := locateCommand_spec hread hl hcommand
      obtain ⟨hl', htexts⟩ := ih hl₁ h
      refine ⟨hl', ?_⟩
      rw [htexts, htexts₁, declaredSegments, List.filter_append, hcmd, hsize, Nat.add_zero,
        List.append_assoc]

/-- The image of a container that was accepted, whose memory at the header is `content`. -/
structure Located (content : ℕ → UInt8) (header v1 : ℕ) (image : SIImage) : Prop where
  marker : image.bytes = v1
  aligned : image.bytes % pageSize = 0
  whole : image.size ≠ 0 ∧ image.size % pageSize = 0
  text : ∃ text offset,
    (declaredSegments content (little content 16 4) 32).filter GISegment.isText = [text] ∧
      offset % pageSize = 0 ∧ offset + image.size ≤ text.fileSize ∧
      offset + image.size ≤ text.size ∧ image.bytes = wrap64 (header + offset) ∧
      (header + text.fileSize ≤ uint64Max + 1 → image.bytes = header + offset)

theorem siLocateImage_located {read : Reader} {content : ℕ → UInt8} (hread : read.Gives content)
    {final : ℕ} {image : SIImage} (h : siLocateImage read header v1 final = .ok image) :
    Located content header v1 image := by
  simp only [siLocateImage, acceptImage, bind_ok, need_ok, obtained_ok, exists_const,
    Prod.exists] at h
  obtain ⟨-, -, -, hheader, b, hb, -, -, l, cursor, hloop, -, text, htext, -, x, hx, hin,
    hoffset, hsize, h⟩ := h
  cases h
  have hcount : MachHeader.ncmds ⟨b⟩ = little content 16 4 := by
    have hlittle := little_gives hread hb (by decide : 16 + 4 ≤ 32)
    rwa [Nat.zero_add] at hlittle
  rw [hcount] at hloop
  have hstart : Locating.Sound header v1 ⟨none, none⟩ := fun _ hnone => by cases hnone
  obtain ⟨hsound, htexts⟩ := locateLoop_spec hread hstart hloop
  obtain ⟨s, hs, hpos, hmarker⟩ := hsound x hx
  obtain rfl : text = s := Option.some.inj (htext.symm.trans hs)
  have hlimit := isWithin_iff.1 hin.2
  generalize sub64 x.addr text.vmaddr = offset at hoffset hmarker hlimit
  have hend : offset + x.size ≤ text.filesize ∧ offset + x.size ≤ text.vmsize := by
    split_ifs at hlimit
    · omega
    · omega
  have haligned : (header + offset) % pageSize = 0 := by
    have hpage := hheader.2
    unfold pageSize at hpage hoffset ⊢
    omega
  refine ⟨rfl, ?_, ⟨hpos, hsize⟩, text.segment, offset, ?_, hoffset, hend.1, hend.2,
    hmarker.symm, fun hfits => ?_⟩
  · rw [← hmarker]
    change (header + offset) % (uint64Max + 1) % pageSize = 0
    rwa [Nat.mod_mod_of_dvd _ (by decide)]
  · rw [Locating.texts, Locating.texts, htext] at htexts
    exact htexts.symm
  · rw [← hmarker]
    refine Nat.mod_eq_of_lt ?_
    have hfile : text.segment.fileSize = text.filesize := rfl
    omega

end Tolkara
