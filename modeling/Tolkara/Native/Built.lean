import Tolkara.Image.FileSections
import Tolkara.Native.ContainerLayout

/-!
# A container and its guest

The builder and the loader read an executable with parsers of their own. Both find what its
commands declare (`Guest.Reads` on one side, `Mapped` on the other), so the runtime accepts a
container for the executable that it was built of, and finds the rewritten range that the builder
has found.
-/

namespace Tolkara

open Library

namespace Builder

/-! ## What the builder reads -/

def pointers (sections : List (GISegment × Section)) : List Section :=
  (sections.filter fun x => x.2.type = S.MOD_INIT_FUNC_POINTERS).map Prod.snd

theorem pointers_append (x y : List (GISegment × Section)) :
    pointers (x ++ y) = pointers x ++ pointers y := by
  rw [pointers, List.filter_append, List.map_append]
  rfl

/-- What the commands up to here declare. -/
structure Parsing.Reads (size : ℕ) (declared : List GISegment)
    (found : List (GISegment × Section)) (p : Parsing) : Prop where
  segments : p.segments.map SegmentCommand.segment = declared
  initializers : p.initializers = pointers found
  inside : ∀ s ∈ p.segments, s.fileoff + s.filesize ≤ size

/-- What the builder knows of an executable with these bytes. -/
structure Guest.Reads (content : ℕ → UInt8) (guest : Guest) : Prop where
  bytes : ∀ i < guest.data.length, guest.data.getD i 0 = content i
  executable : (declaredSegments content (little content 16 4) 32).filter
    GISegment.isExecutable = [guest.text.segment]
  name : guest.text.segname = ascii "__TEXT"
  fileoff : guest.text.fileoff = 0
  vmsize : guest.text.vmsize ≠ 0 ∧ guest.text.vmsize % pageSize = 0
  vmaddr : guest.text.vmaddr % pageSize = 0
  filled : guest.text.filesize ≤ guest.text.vmsize
  inside : guest.text.filesize ≤ guest.data.length
  headerSize : guest.headerSize = 32 + little content 20 4
  header : guest.headerSize ≤ pageSize ∧ guest.headerSize ≤ guest.text.filesize
  initializer : guest.initializer < guest.text.vmsize
  first : ∃ s x, (s, x) ∈ declaredSections content (little content 16 4) 32 ∧
    x.type = S.MOD_INIT_FUNC_POINTERS ∧ 8 ≤ x.size ∧
    little content x.offset 8 = guest.text.vmaddr + guest.initializer

/-- A file without the magic of a fat one is its own slice. -/
theorem arm64Slice_thin {file : List UInt8} (hlength : 8 ≤ file.length)
    (hmagic : be32 (bufferOf file) 0 ≠ 0xcafebabe) (hwide : be32 (bufferOf file) 0 ≠ 0xcafebabf) :
    arm64Slice file = .ok file := by
  simp only [arm64Slice, bind_ok, need_ok, obtained_ok, exists_const]
  refine ⟨hlength, _, if_pos (by omega), if_pos ?_⟩
  simp only [Nat.zero_add]
  exact ⟨hmagic, hwide⟩

theorem unpackFrom_gives {data : List UInt8} {content : ℕ → UInt8}
    (h : ∀ i < data.length, data.getD i 0 = content i) : (unpackFrom data).Gives content := by
  intro offset n b hb i hi
  unfold unpackFrom at hb
  split at hb
  · rename_i hin
    obtain rfl := Option.some.inj hb
    exact h (offset + i) (by omega)
  · cases hb

section

variable {data : List UInt8} {content : ℕ → UInt8} (hread : (unpackFrom data).Gives content)

include hread

theorem sectionLoop_pointers (s : GISegment) {left cursor : ℕ} {found found' : List Section}
    (h : sectionLoop data left cursor found = .ok found') :
    found' = found ++ pointers (sectionsAt content s left cursor) := by
  induction left generalizing cursor found with
  | zero =>
      cases h
      exact (List.append_nil _).symm
  | succ left ih =>
      simp only [sectionLoop, bind_ok, obtained_ok] at h
      obtain ⟨b, hb, h⟩ := h
      rw [section_gives hread (by decide) hb] at h
      rw [ih h]
      change _ = found ++ pointers ([(s, Section.decode fun i => content (cursor + i))] ++
        sectionsAt content s left (cursor + 80))
      rw [pointers_append, ← List.append_assoc]
      congr 1
      by_cases htype :
          (Section.decode fun i => content (cursor + i)).type = S.MOD_INIT_FUNC_POINTERS
      · rw [if_pos htype]
        simp [pointers, htype]
      · rw [if_neg htype]
        simp [pointers, htype]

theorem parseCommand_reads {index cursor cmdsize cmd : ℕ} {p p' : Parsing}
    {declared : List GISegment} {found : List (GISegment × Section)}
    (hp : p.Reads data.length declared found)
    (h : parseCommand data index cursor cmdsize cmd p = .ok p') :
    p'.Reads data.length
      (declared ++ if cmd = LC.SEGMENT_64 then
        [(SegmentCommand.decode fun i => content (cursor + i)).segment] else [])
      (found ++ if cmd = LC.SEGMENT_64 then
        sectionsAt content (SegmentCommand.decode fun i => content (cursor + i)).segment
          (little content (cursor + 64) 4) (cursor + 72) else []) := by
  unfold parseCommand at h
  split at h
  · cases h
  split at h
  · rename_i hcmd
    simp only [parseSegment, bind_ok, need_ok, obtained_ok, exists_const] at h
    obtain ⟨-, b, hb, -, hinside, initializers, hsections, h⟩ := h
    cases h
    rw [if_pos hcmd, if_pos hcmd, ← segment_gives hread hb, ← little_gives hread hb (by decide)]
    refine ⟨?_, ?_, ?_⟩
    · rw [List.map_append, hp.segments]
      rfl
    · rw [sectionLoop_pointers hread _ hsections, hp.initializers, pointers_append]
    · exact List.forall_mem_append.2
        ⟨hp.inside, List.forall_mem_singleton.2 (isWithin_iff.1 hinside)⟩
  · rename_i hcmd
    rw [if_neg hcmd, if_neg hcmd, List.append_nil, List.append_nil]
    split at h
    · simp only [parseSymtab, bind_ok, need_ok, obtained_ok, exists_const] at h
      obtain ⟨-, b, -, h⟩ := h
      cases h
      exact ⟨hp.segments, hp.initializers, hp.inside⟩
    · cases h
      exact hp

theorem parseLoop_reads {stop left index cursor cursor' : ℕ} {p p' : Parsing}
    {declared : List GISegment} {found : List (GISegment × Section)}
    (hp : p.Reads data.length declared found)
    (h : parseLoop data stop left index cursor p = .ok (p', cursor')) :
    p'.Reads data.length (declared ++ declaredSegments content left cursor)
      (found ++ declaredSections content left cursor) := by
  induction left generalizing index cursor p declared found with
  | zero =>
      cases h
      rw [declaredSegments, declaredSections, List.append_nil, List.append_nil]
      exact hp
  | succ left ih =>
      simp only [parseLoop, bind_ok, need_ok, obtained_ok, exists_const] at h
      obtain ⟨-, lc, hlc, -, p₁, h₁, h⟩ := h
      have hrest := ih (parseCommand_reads hread hp h₁) h
      rw [little_gives hread hlc (by decide), little_gives hread hlc (by decide),
        List.append_assoc, List.append_assoc] at hrest
      exact hrest

omit hread in
theorem onlyText_some {segments : List SegmentCommand} {text : SegmentCommand}
    (h : onlyText segments = some text) :
    (segments.map SegmentCommand.segment).filter GISegment.isExecutable = [text.segment] ∧
      text ∈ segments ∧ text.segname = ascii "__TEXT" := by
  unfold onlyText at h
  generalize hfound : segments.filter (fun s => s.initprot &&& GM.EXEC ≠ 0#32) = found at h
  obtain _ | ⟨s, _ | ⟨t, rest⟩⟩ := found
  · cases h
  · dsimp only at h
    split at h
    · rename_i hname
      obtain rfl := Option.some.inj h
      refine ⟨?_, List.mem_of_mem_filter (hfound ▸ List.mem_singleton_self s), hname⟩
      rw [List.filter_map]
      exact congrArg (List.map SegmentCommand.segment) hfound
    · cases h
  · cases h

omit hread in
theorem onlySection_some {sections : List Section} {x : Section}
    (h : onlySection sections = some x) : sections = [x] := by
  obtain _ | ⟨y, _ | ⟨z, rest⟩⟩ := sections
  · cases h
  · obtain rfl := Option.some.inj h
    rfl
  · cases h

theorem acceptGuest_reads (hdata : ∀ i < data.length, data.getD i 0 = content i)
    {headerSize : ℕ} {p : Parsing} {guest : Guest}
    (hp : p.Reads data.length (declaredSegments content (little content 16 4) 32)
      (declaredSections content (little content 16 4) 32))
    (hheader : headerSize = 32 + little content 20 4)
    (h : acceptGuest data headerSize p = .ok guest) : guest.Reads content := by
  simp only [acceptGuest, bind_ok, need_ok, obtained_ok, exists_const] at h
  obtain ⟨text, htext, ⟨hfileoff, hvmsize, hpages, hvmaddr, hfilled⟩, -, hle, x, hx, ⟨hsize, -⟩,
    b, hb, ⟨hlow, hlt⟩, h⟩ := h
  cases h
  obtain ⟨hexecutable, hmem, hname⟩ := onlyText_some htext
  rw [hp.segments] at hexecutable
  have hinside := hp.inside text hmem
  have hpointers : x ∈ pointers (declaredSections content (little content 16 4) 32) := by
    rw [← hp.initializers, onlySection_some hx]
    exact List.mem_singleton_self x
  obtain ⟨⟨s, y⟩, hy, rfl⟩ := List.mem_map.1 hpointers
  obtain ⟨hy, htype⟩ := List.mem_filter.1 hy
  have hfirst : little b 0 8 = little content y.offset 8 := little_gives hread hb (by decide)
  rw [le_min_iff] at hle
  exact
    { bytes := hdata
      executable := hexecutable
      name := hname
      fileoff := hfileoff
      vmsize := ⟨hvmsize, hpages⟩
      vmaddr := hvmaddr
      filled := hfilled
      inside := by dsimp only; omega
      headerSize := hheader
      header := hle
      initializer := hlt
      first := ⟨s, y, hy, of_decide_eq_true htype, hsize, by dsimp only; omega⟩ }

theorem parseSlice_reads (hdata : ∀ i < data.length, data.getD i 0 = content i) {guest : Guest}
    (h : parseSlice data = .ok guest) : guest.Reads content := by
  simp only [parseSlice, bind_ok, need_ok, obtained_ok, exists_const, Prod.exists] at h
  obtain ⟨-, b, hb, -, -, -, p, cursor, hloop, -, h⟩ := h
  have hlittle : ∀ k, k + 4 ≤ 24 → little b k 4 = little content k 4 := by
    intro k hle
    rw [little_gives hread hb hle, Nat.zero_add]
  have hncmds : MachHeader.ncmds ⟨b⟩ = little content 16 4 := hlittle 16 (by decide)
  have hsizeofcmds : MachHeader.sizeofcmds ⟨b⟩ = little content 20 4 := hlittle 20 (by decide)
  have hstart : Parsing.Reads data.length [] [] ⟨[], none, []⟩ :=
    ⟨rfl, rfl, List.forall_mem_nil _⟩
  have hp := parseLoop_reads hread hstart hloop
  rw [List.nil_append, List.nil_append, hncmds] at hp
  exact acceptGuest_reads hread hdata hp (by rw [hsizeofcmds]) h

end

/-! ## The final pages -/

theorem getD_take {l : List UInt8} {n i : ℕ} (hi : i < n) : (l.take n).getD i 0 = l.getD i 0 := by
  rw [List.getD_eq_getElem?_getD, List.getElem?_take, if_pos hi, ← List.getD_eq_getElem?_getD]

theorem page_getD {l : List UInt8} {offset i : ℕ} (hi : i < pageSize) :
    (page l offset).getD i 0 = l.getD (offset + i) 0 := by
  rw [page, getD_take hi, List.getD_eq_getElem?_getD, List.getElem?_drop,
    ← List.getD_eq_getElem?_getD]

theorem page_eq_iff {x y : List UInt8} (hlength : x.length = y.length) {offset : ℕ}
    (hwhole : offset + pageSize ≤ x.length) : page x offset = page y offset ↔
      ∀ i < pageSize, x.getD (offset + i) 0 = y.getD (offset + i) 0 := by
  constructor
  · intro h i hi
    rw [← page_getD hi, h, page_getD hi]
  · intro h
    have hpage : ∀ l : List UInt8, l.length = x.length → (page l offset).length = pageSize := by
      intro l hl
      rw [page, List.length_take, List.length_drop]
      omega
    refine List.ext_getElem ((hpage x rfl).trans (hpage y hlength.symm).symm) fun i hx hy => ?_
    have hi : i < pageSize := by rwa [hpage x rfl] at hx
    have hbyte : (page x offset).getD i 0 = (page y offset).getD i 0 := by
      rw [page_getD hi, page_getD hi]
      exact h i hi
    simpa [List.getD_eq_getElem?_getD, hx, hy] using hbyte

theorem page_le {n k : ℕ} (hk : k < n / pageSize) : k * pageSize + pageSize ≤ n := by
  rw [← Nat.succ_mul]
  exact (Nat.mul_le_mul_right _ hk).trans (Nat.div_mul_le_self _ _)

theorem rewrittenEnd_eq {image disk : List UInt8} (hlength : image.length = disk.length)
    (hpages : image.length % pageSize = 0) {differs : ℕ → Bool}
    (hdiffers : ∀ k < image.length / pageSize, differs k = false ↔
      ∀ i < pageSize, image.getD (k * pageSize + i) 0 = disk.getD (k * pageSize + i) 0) :
    rewrittenEnd image disk = endOf differs (image.length / pageSize) * pageSize := by
  have hcount : (image.length + pageSize - 1) / pageSize = image.length / pageSize := by
    unfold pageSize at *
    omega
  rw [rewrittenEnd, hcount]
  have hpage : ∀ k < image.length / pageSize, k * pageSize + pageSize ≤ image.length :=
    fun k hk => page_le hk
  generalize image.length / pageSize = n at hdiffers hpage
  induction n with
  | zero => exact (Nat.zero_mul _).symm
  | succ n ih =>
      rw [List.range_succ, List.foldl_append,
        ih (fun k hk => hdiffers k (Nat.lt_succ_of_lt hk))
          (fun k hk => hpage k (Nat.lt_succ_of_lt hk)), List.foldl_cons, List.foldl_nil, endOf]
      have hlast := hdiffers n (Nat.lt_succ_self n)
      rw [← page_eq_iff hlength (hpage n (Nat.lt_succ_self n))] at hlast
      by_cases hsame : differs n = false
      · rw [if_neg (not_not.2 (hlast.1 hsame)), if_neg (by rw [hsame]; decide)]
      · rw [if_pos fun h => hsame (hlast.2 h), if_pos (Bool.eq_true_of_not_eq_false hsame),
          Nat.succ_mul]

section

variable {guest : Guest} {content : ℕ → UInt8} (hguest : guest.Reads content)

include hguest

theorem length_onDisk : (onDisk guest).length = guest.text.vmsize := by
  have hfilled := hguest.filled
  have hinside := hguest.inside
  rw [onDisk, List.length_append, List.length_take, List.length_replicate]
  omega

theorem onDisk_getD (i : ℕ) :
    (onDisk guest).getD i 0 = if i < guest.text.filesize then content i else 0 := by
  have hinside := hguest.inside
  have hlength : (guest.data.take guest.text.filesize).length = guest.text.filesize := by
    rw [List.length_take]
    omega
  rw [onDisk, List.getD_eq_getElem?_getD]
  split
  · rename_i hfile
    rw [List.getElem?_append_left (by rwa [hlength]), ← List.getD_eq_getElem?_getD, getD_take hfile]
    exact hguest.bytes i (by omega)
  · rw [List.getElem?_append_right (by omega), List.getElem?_replicate]
    split
    · rfl
    · rfl

/-- The final pages are as large as `__TEXT` and begin with its header. -/
theorem finalImage_spec {capture : Option (List UInt8)} {image : List UInt8}
    (h : finalImage guest capture = .ok image) : image.length = guest.text.vmsize ∧
      ∀ i < guest.headerSize, image.getD i 0 = content i := by
  obtain ⟨-, hfile⟩ := hguest.header
  have hinside := hguest.inside
  cases capture with
  | none =>
      cases h
      refine ⟨length_onDisk hguest, fun i hi => ?_⟩
      rw [onDisk_getD hguest, if_pos (by omega)]
  | some captured =>
      simp only [finalImage, bind_ok, need_ok, exists_const] at h
      obtain ⟨hlength, hheader, h⟩ := h
      cases h
      refine ⟨hlength, fun i hi => ?_⟩
      rw [← getD_take hi, hheader, getD_take hi]
      exact hguest.bytes i (by omega)

/-! ## The checks of the runtime -/

variable {loaded : LoadedImage} (hmapped : loaded.Mapped content .execute)

include hmapped

theorem text_mem : guest.text.segment ∈ loaded.segments := by
  have hmem : guest.text.segment ∈ (declaredSegments content (little content 16 4) 32).filter
      GISegment.isExecutable := by
    rw [hguest.executable]
    exact List.mem_singleton_self _
  rw [hmapped.declared]
  exact List.mem_of_mem_filter hmem

theorem headerAddress_eq : loaded.headerAddress = guest.text.vmaddr := by
  obtain ⟨s, hs, -, hexec, haddress⟩ := hmapped.accepted.header
  have hmem : s ∈ loaded.segments.filter GISegment.isExecutable :=
    List.mem_filter.2 ⟨hs, decide_eq_true hexec⟩
  rw [hmapped.declared, hguest.executable] at hmem
  obtain rfl := List.mem_singleton.1 hmem
  exact haddress.symm

theorem byte_onDisk {i : ℕ} (hi : i < guest.text.vmsize) :
    loaded.memory.flat.byte (guest.text.vmaddr + i) = (onDisk guest).getD i 0 := by
  have htext : guest.text.segment.Mapped := by
    refine ⟨hguest.vmsize.1, ?_⟩
    change guest.text.segname ≠ _
    rw [hguest.name]
    decide
  obtain ⟨-, hbyte⟩ := hmapped.memory.shown _ (text_mem hguest hmapped) htext
    (guest.text.vmaddr + i) (Nat.le_add_right _ _) (Nat.add_lt_add_left hi _)
  have hplace : guest.text.segment.fileOffset +
      (guest.text.vmaddr + i - guest.text.segment.address) = i := by
    change guest.text.fileoff + (guest.text.vmaddr + i - guest.text.vmaddr) = i
    rw [hguest.fileoff]
    omega
  rw [hplace] at hbyte
  rw [hbyte, onDisk_getD hguest]
  exact if_congr Nat.add_lt_add_iff_left rfl rfl

theorem originalPage_onDisk {offset i : ℕ} (haligned : offset % pageSize = 0)
    (hi : i < pageSize) (hin : offset + i < guest.text.vmsize) :
    originalPage loaded.memory (loaded.headerAddress + offset) i =
      (onDisk guest).getD (offset + i) 0 := by
  have hvmaddr := hguest.vmaddr
  rw [headerAddress_eq hguest hmapped, originalPage_eq hmapped.memory.wf ?_ hi, Nat.add_assoc,
    byte_onDisk hguest hmapped hin]
  rw [Nat.add_mod, haligned, hvmaddr]
  rfl

variable {host : Buffer} {image : SIImage}

theorem siMatchGuest_built (himage : image.size = guest.text.vmsize)
    (hhost : ∀ i < guest.headerSize, host (image.bytes + i) = content i) :
    siMatchGuest host image loaded = .ok () := by
  have htext : textLoop loaded.segments 0 none = (1, some guest.text.segment) := by
    rw [textLoop_eq, hmapped.declared, hguest.executable, List.filter_cons_of_pos]
    · rfl
    · exact decide_eq_true hguest.name
  have haddress := headerAddress_eq hguest hmapped
  have hvmaddr : loaded.headerAddress % pageSize = 0 := by rw [haddress, hguest.vmaddr]
  obtain ⟨hpage, -⟩ := hguest.header
  have hheaderSize := hguest.headerSize
  have hbytes : ∀ i < guest.headerSize,
      originalPage loaded.memory loaded.headerAddress i = content i := by
    intro i hi
    rw [originalPage_eq hmapped.memory.wf hvmaddr (by omega)]
    exact (hmapped.header i (by omega)).2
  have hlittle : ∀ k, k + 4 ≤ 32 →
      little (originalPage loaded.memory loaded.headerAddress) k 4 = little content k 4 :=
    fun k hle => little_congr fun i hi => hbytes (k + i) (by omega)
  have hsizeofcmds : MachHeader.sizeofcmds ⟨originalPage loaded.memory loaded.headerAddress⟩ =
      little content 20 4 := hlittle 20 (by decide)
  unfold siMatchGuest
  rw [htext]
  simp only [bind_ok, need_ok, obtained_ok, exists_const]
  refine ⟨trivial, _, rfl, ⟨hguest.vmsize.1, haddress.symm, hguest.vmaddr, hguest.vmsize.2⟩, himage,
    (hlittle 0 (by decide)).trans hmapped.magic.1, ?_, ?_⟩
  · rw [hsizeofcmds]
    omega
  · rw [hsizeofcmds, ← hheaderSize]
    exact siCountMismatches_eq_zero.2 fun i hi => (hbytes i hi).trans (hhost i hi).symm

theorem siShadowSize_built {pages : List UInt8} (hpages : pages.length = guest.text.vmsize)
    (himage : image.size = pages.length)
    (hhost : ∀ i < pages.length, host (image.bytes + i) = pages.getD i 0)
    (hfirst : loaded.firstInitializer = guest.text.vmaddr + guest.initializer)
    (hcount : loaded.initializerCount ≠ 0)
    (hbehind : rewrittenEnd pages (onDisk guest) ≤ guest.initializer) :
    siShadowSize host image loaded = .ok (rewrittenEnd pages (onDisk guest)) := by
  have hbounded := hmapped.accepted.bounded _ (text_mem hguest hmapped)
  change guest.text.vmaddr + guest.text.vmsize ≤ uint64Max at hbounded
  have haddress := headerAddress_eq hguest hmapped
  have hwhole : pages.length % pageSize = 0 := by rw [hpages, hguest.vmsize.2]
  have hloop : shadowLoop (pageDiffers host image loaded) (pages.length / pageSize) 0 0 =
      rewrittenEnd pages (onDisk guest) := by
    have hshadow := shadowLoop_eq (pageDiffers host image loaded) (pages.length / pageSize) 0
    rw [Nat.zero_add, Nat.zero_mul, endOf, Nat.zero_mul] at hshadow
    rw [hshadow]
    refine (rewrittenEnd_eq (hpages.trans (length_onDisk hguest).symm) hwhole fun k hk => ?_).symm
    have hpage := page_le hk
    rw [pageDiffers_eq_false]
    refine forall₂_congr fun i hi => ?_
    rw [originalPage_onDisk hguest hmapped (Nat.mul_mod_left _ _) hi (by omega), Nat.add_assoc,
      hhost _ (by omega)]
    exact eq_comm
  have hexact : sub64 (guest.text.vmaddr + guest.initializer) guest.text.vmaddr =
      guest.initializer := by
    have hinitializer := hguest.initializer
    unfold sub64 wrap64 uint64Max
    unfold uint64Max at hbounded
    omega
  simp only [siShadowSize, bind_ok, need_ok, exists_const]
  rw [himage, haddress, hfirst, hloop, hexact, hpages]
  exact ⟨⟨hguest.vmsize.1, hguest.vmsize.2, hguest.vmaddr, by omega⟩,
    ⟨hcount, Nat.le_add_right _ _, hguest.initializer⟩, hbehind, rfl⟩

end

/-! ## The container -/

section

variable {sha256 : List UInt8 → Vector UInt8 32} {image : List UInt8} {platform : Platform}
  {probe : Option ℕ}

theorem length_header_page {digest : Vector UInt8 32} {size : ℕ} {l : Linkedit} :
    (field pageSize (header platform digest size l)).length = pageSize :=
  length_field (by rw [length_header]; decide)

theorem container_header {i : ℕ} (hi : i < 464) :
    bufferOf (container sha256 image platform probe) i =
      bufferOf (header platform (sha256 image) image.length
        (linkedit image.length (symbols probe))) i := by
  have hpage : 464 ≤ pageSize := by decide
  rw [container, bufferOf_left, bufferOf_left, bufferOf_left, field, bufferOf_left]
  · rwa [length_header]
  · rw [length_header_page]
    omega
  · rw [List.length_append, length_header_page]
    omega
  · rw [List.length_append, List.length_append, length_header_page]
    omega

theorem container_image {i : ℕ} (hi : i < image.length) :
    bufferOf (container sha256 image platform probe) (pageSize + i) = image.getD i 0 := by
  rw [container, bufferOf_left, bufferOf_left, bufferOf_right, length_header_page,
    Nat.add_sub_cancel_left]
  · rfl
  · rw [length_header_page]
    exact Nat.le_add_right _ _
  · rw [List.length_append, length_header_page]
    omega
  · rw [List.length_append, List.length_append, length_header_page]
    omega

theorem length_container : pageSize + image.length <
    (container sha256 image platform probe).length := by
  rw [container, List.length_append, List.length_append, List.length_append, length_header_page]
  simp only [field, strings, List.length_append, List.length_cons]
  omega

end

theorem build_ok {sha256 : List UInt8 → Vector UInt8 32} {file : List UInt8}
    {capture : Option (List UInt8)} {platform : Platform} {probe : Probe} {built : Built}
    (h : build sha256 file capture platform probe = .ok built) :
    ∃ guest offset, parseGuest file = .ok guest ∧ finalImage guest capture = .ok built.image ∧
      built.rewritten = rewrittenEnd built.image (onDisk guest) ∧
      built.rewritten ≤ guest.initializer ∧
      built.container = container sha256 built.image platform offset := by
  simp only [build, bind_ok, need_ok, exists_const] at h
  obtain ⟨guest, hguest, image, himage, hbehind, resolved, -, offset, -, h⟩ := h
  cases h
  exact ⟨guest, offset, hguest, himage, rfl, hbehind, rfl⟩

/-- What the runtime makes of an unsigned container that is mapped at `start`, for a loaded
guest. -/
structure Accepts (host : Buffer) (start : ℕ) (built : Built) (loaded : LoadedImage) : Prop where
  located : siLocateImage (firstPage fun i => host (start + i)) start (start + pageSize)
    (start + pageSize) = .ok ⟨start + pageSize, built.image.length⟩
  pages : ∀ i < built.image.length, host (start + pageSize + i) = built.image.getD i 0
  matched : siMatchGuest host ⟨start + pageSize, built.image.length⟩ loaded = .ok ()
  shadow : siShadowSize host ⟨start + pageSize, built.image.length⟩ loaded = .ok built.rewritten

/-- The runtime accepts the container that was built of the executable it has loaded, as it is
before it is signed, and the range that it finds rewritten is the one that the builder has
checked. -/
theorem container_accepted {sha256 : List UInt8 → Vector UInt8 32} {file : List UInt8}
    {before loaded : LoadedImage} {capture : Option (List UInt8)} {platform : Platform}
    {probe : Probe} {built : Built} {host : Buffer} {start : ℕ}
    (hload : giLoad (some file) before = (.ok (), loaded))
    (hslice : arm64Slice file = .ok ((file.drop loaded.sliceOffset).take loaded.sliceSize))
    (hbuild : build sha256 file capture platform probe = .ok built)
    (hstart : start ≠ 0 ∧ start % pageSize = 0)
    (hfits : start + pageSize + built.image.length ≤ uint64Max)
    (hhost : ∀ i < built.container.length, host (start + i) = built.container.getD i 0) :
    Accepts host start built loaded := by
  -- the loader's side
  have hloaded := loadPath_loaded hload
  simp only [load, bind_ok, need_ok, exists_const] at hloaded
  obtain ⟨-, slice, -, hloaded⟩ := hloaded
  have hgives := (readFile_gives file).skip slice.1
  obtain ⟨hmapped, hoffset, hsize⟩ := loadSlice_mapped hgives hloaded
  -- the builder's side, from the same bytes
  obtain ⟨guest, offset, hparse, himage, hrewritten, hbehind, hcontainer⟩ := build_ok hbuild
  rw [hoffset, hsize] at hslice
  simp only [parseGuest, hslice, bind_ok] at hparse
  obtain ⟨data, hdata, hparse⟩ := hparse
  obtain rfl := Except.ok.inj hdata
  have hbytes : ∀ i < ((file.drop slice.1).take slice.2).length,
      ((file.drop slice.1).take slice.2).getD i 0 = file.getD (slice.1 + i) 0 := by
    intro i hi
    rw [List.length_take] at hi
    rw [getD_take (by omega), List.getD_eq_getElem?_getD, List.getElem?_drop,
      ← List.getD_eq_getElem?_getD]
  have hguest := parseSlice_reads (unpackFrom_gives hbytes) hbytes hparse
  obtain ⟨hlength, hheader⟩ := finalImage_spec hguest himage
  obtain ⟨s, x, hx, htype, hsize8, hpointer⟩ := hguest.first
  obtain ⟨hfirst, hcount⟩ := loadSlice_first hgives hloaded hx htype hsize8
  -- the container in memory
  have hroom : pageSize + built.image.length < built.container.length := by
    rw [hcontainer]
    exact length_container
  have hpages : ∀ i < built.image.length,
      host (start + pageSize + i) = built.image.getD i 0 := by
    intro i hi
    rw [Nat.add_assoc, hhost _ (by omega), hcontainer]
    exact container_image hi
  have hlibrary : ∀ i < 464, host (start + i) = bufferOf (header platform (sha256 built.image)
      built.image.length (linkedit built.image.length (symbols offset))) i := by
    intro i hi
    have hpage : 464 ≤ pageSize := by decide
    rw [hhost i (by omega), hcontainer]
    exact container_header hi
  have hwhole : built.image.length ≠ 0 ∧ built.image.length % pageSize = 0 := by
    rw [hlength]
    exact hguest.vmsize
  have hinside := hguest.header.2.trans hguest.filled
  refine ⟨siLocateImage_container hlibrary hstart hwhole hfits, hpages, ?_, ?_⟩
  · refine siMatchGuest_built hguest hmapped hlength fun i hi => ?_
    rw [hpages i (by omega), hheader i hi]
  · rw [hrewritten]
    refine siShadowSize_built hguest hmapped hlength rfl hpages (hfirst.trans hpointer) ?_ ?_
    · omega
    · rwa [← hrewritten]

def smallestDigest : Vector UInt8 32 :=
  #v[22, 164, 193, 80, 74, 71, 40, 164, 203, 159, 44, 14, 154, 42, 75, 29, 11, 179, 45, 117, 183,
    0, 224, 206, 1, 190, 129, 176, 116, 131, 90, 209]

theorem parseGuest_smallest : ∃ guest, parseGuest smallestGuest = .ok guest ∧
    guest.text.vmsize = pageSize ∧ guest.text.filesize = 220 := by
  have hsizes : (parseGuest smallestGuest).toOption.map (fun guest =>
      (guest.text.vmsize, guest.text.filesize)) = some (pageSize, 220) := by decide +kernel
  cases hguest : parseGuest smallestGuest with
  | error e =>
      rw [hguest] at hsizes
      cases hsizes
  | ok guest =>
      rw [hguest] at hsizes
      exact ⟨guest, rfl, Prod.mk.inj (Option.some.inj hsizes)⟩

theorem rewrittenEnd_self (image : List UInt8) : rewrittenEnd image image = 0 := by
  unfold rewrittenEnd
  generalize List.range _ = indices
  induction indices with
  | nil => rfl
  | cons k rest ih =>
      rw [List.foldl_cons, if_neg (not_not.2 rfl)]
      exact ih

theorem container_accepted_smallest : ∃ built host,
    giLoad (some smallestGuest) LoadedImage.empty = (.ok (), smallestLoaded) ∧
      build (fun _ => smallestDigest) smallestGuest none .ios .none = .ok built ∧
      Accepts host 0x200000000 built smallestLoaded := by
  obtain ⟨guest, hguest, hvmsize, hfilesize⟩ := parseGuest_smallest
  have hbuild : build (fun _ => smallestDigest) smallestGuest none .ios .none =
      .ok ⟨onDisk guest, rewrittenEnd (onDisk guest) (onDisk guest),
        container (fun _ => smallestDigest) (onDisk guest) .ios none⟩ := by
    simp only [build, bind_ok, need_ok, exists_const]
    refine ⟨guest, hguest, onDisk guest, rfl, ?_, none, rfl, none, rfl, rfl⟩
    rw [rewrittenEnd_self]
    exact Nat.zero_le _
  obtain ⟨hoffset, hsize⟩ := smallestLoaded_facts.2.1
  have hlength : (onDisk guest).length ≤ pageSize := by
    rw [onDisk, List.length_append, List.length_take, List.length_replicate]
    unfold pageSize at *
    omega
  refine ⟨_, fun i => (container (fun _ => smallestDigest) (onDisk guest) .ios none).getD
    (i - 0x200000000) 0, giLoad_smallestGuest, hbuild,
    container_accepted giLoad_smallestGuest ?_ hbuild (by decide) ?_ ?_⟩
  · rw [hoffset, hsize]
    refine (arm64Slice_thin (by decide +kernel) (by decide +kernel) (by decide +kernel)).trans ?_
    exact congrArg Except.ok (by decide +kernel)
  · unfold pageSize uint64Max at *
    dsimp only
    omega
  · intro i hi
    dsimp only
    rw [Nat.add_sub_cancel_left]

end Builder

end Tolkara
