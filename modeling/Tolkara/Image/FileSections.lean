import Tolkara.Image.Faithful

/-!
# The initializers of a slice

At most one of the sections that the segments of a slice declare has initializers. Where they are
pointers, the loader takes the first one from memory, and finds there the word that the file has at
the offset of the section.
-/

namespace Tolkara

open Library

/-! ## Sections -/

def sectionsAt (content : ℕ → UInt8) (s : GISegment) : ℕ → ℕ → List (GISegment × Section)
  | 0, _ => []
  | left + 1, cursor =>
    (s, Section.decode fun i => content (cursor + i)) :: sectionsAt content s left (cursor + 80)

def declaredSections (content : ℕ → UInt8) : ℕ → ℕ → List (GISegment × Section)
  | 0, _ => []
  | left + 1, cursor =>
    (if little content cursor 4 = LC.SEGMENT_64 then
      sectionsAt content (SegmentCommand.decode fun i => content (cursor + i)).segment
        (little content (cursor + 64) 4) (cursor + 72) else []) ++
      declaredSections content left (cursor + little content (cursor + 4) 4)

theorem section_gives {read : Reader} {content : ℕ → UInt8} (hread : read.Gives content)
    {cursor n : ℕ} {b : Buffer} (hn : 68 ≤ n) (hb : read cursor n = some b) :
    Section.decode b = Section.decode fun i => content (cursor + i) := by
  have hlittle : ∀ offset k, offset + k ≤ 68 →
      little b offset k = little (fun i => content (cursor + i)) offset k := by
    intro offset k hle
    rw [little_gives hread hb (hle.trans hn)]
    unfold little
    simp only [Nat.add_assoc]
  have hname : cstring b 0 16 = cstring (fun i => content (cursor + i)) 0 16 := by
    unfold cstring
    congr 1
    apply List.map_congr_left
    intro i hi
    rw [List.mem_range] at hi
    exact hread _ _ _ hb _ (by omega)
  unfold Section.decode
  rw [hname, hlittle 32 8 (by decide), hlittle 40 8 (by decide), hlittle 48 4 (by decide),
    hlittle 52 4 (by decide), hlittle 64 4 (by decide)]

namespace Section

def isInitializers (x : Section) : Bool :=
  x.type = S.MOD_INIT_FUNC_POINTERS ∨ x.type = S.INIT_FUNC_OFFSETS

def initializers (x : Section) : InitSection := ⟨decide (x.type = S.INIT_FUNC_OFFSETS), x.addr, x.size⟩

end Section

/-- The section is as far from the start of its segment in memory as in the file, and filled. -/
structure FileBacked (s : GISegment) (x : Section) : Prop where
  low : s.address ≤ x.addr
  offset : s.fileOffset + (x.addr - s.address) = x.offset
  inside : x.addr - s.address + x.size ≤ s.fileSize

/-! ## What the loader remembers -/

namespace Loading

/-- The initializers of these sections, which are at most in one. -/
structure InitOf (found : List (GISegment × Section)) (l : Loading) : Prop where
  init : l.init.toList =
    (found.filter fun x => x.2.isInitializers).map fun x => x.2.initializers
  backed : ∀ x ∈ found, x.2.isInitializers = true → FileBacked x.1 x.2

variable {found : List (GISegment × Section)} {l l' : Loading}

theorem InitOf.same (hl : InitOf found l) (h : l'.init = l.init) : InitOf found l' where
  init := by
    rw [h]
    exact hl.init
  backed := hl.backed

theorem addUnwind_init {s : SegmentCommand} {x : Section} (h : l.addUnwind s x = .ok l') :
    l'.init = l.init := by
  unfold addUnwind at h
  dsimp only at h
  split at h
  · simp only [bind_ok, need_ok, exists_const] at h
    obtain ⟨-, h⟩ := h
    split at h
    · simp only [bind_ok, need_ok, exists_const] at h
      obtain ⟨-, h⟩ := h
      cases h
      rfl
    · simp only [bind_ok, need_ok, exists_const] at h
      obtain ⟨-, h⟩ := h
      cases h
      rfl
  · cases h
    rfl

theorem addTemplate_init {x : Section} (h : l.addTemplate x = .ok l') : l'.init = l.init := by
  unfold addTemplate at h
  split at h
  · simp only [bind_ok, need_ok, exists_const] at h
    obtain ⟨-, -, h⟩ := h
    cases h
    rfl
  · cases h
    rfl

theorem addDescriptors_init {x : Section} (h : l.addDescriptors x = .ok l') :
    l'.init = l.init := by
  unfold addDescriptors at h
  split at h
  · simp only [bind_ok, need_ok, exists_const] at h
    obtain ⟨-, h⟩ := h
    cases h
    rfl
  · cases h
    rfl

theorem addSection_init {sliceSize : ℕ} {s : SegmentCommand} {x : Section}
    (hl : InitOf found l) (h : addSection sliceSize s l x = .ok l') :
    InitOf (found ++ [(s.segment, x)]) l' := by
  simp only [addSection, bind_ok, need_ok, exists_const] at h
  obtain ⟨hin, hbacked, l₁, h₁, l₂, h₂, l₃, h₃, l₄, h₄, h⟩ := h
  cases h
  have hinit : (l₄.addCounts x).init = l₁.init :=
    (addDescriptors_init h₄).trans ((addTemplate_init h₃).trans (addUnwind_init h₂))
  refine InitOf.same (l := l₁) ?_ hinit
  unfold addInitializers at h₁
  split at h₁
  · rename_i htype
    have hx : x.isInitializers = true := decide_eq_true htype
    simp only [bind_ok, need_ok, exists_const] at h₁
    obtain ⟨⟨hnone, -⟩, h₁⟩ := h₁
    cases h₁
    rw [Option.isNone_iff_eq_none] at hnone
    have hbefore := hl.init
    rw [hnone] at hbefore
    constructor
    · rw [List.filter_append, List.map_append, ← hbefore, List.filter_singleton, hx]
      rfl
    · intro y hy hinitializers
      rcases List.mem_append.1 hy with hy | hy
      · exact hl.backed y hy hinitializers
      · -- no initializers are filled with zeros
        obtain rfl := List.mem_singleton.1 hy
        obtain ⟨-, hle, hinside, heq⟩ := hbacked.resolve_left (by
          rcases htype with h | h <;> rw [h] <;> decide) |>.resolve_left (by
          rcases htype with h | h <;> rw [h] <;> decide) |>.resolve_left (by
          rcases htype with h | h <;> rw [h] <;> decide)
        have hroom := isWithin_iff.1 hinside
        refine ⟨hin.1, ?_, ?_⟩
        · change s.fileoff + (x.addr - s.vmaddr) = x.offset
          omega
        · change x.addr - s.vmaddr + x.size ≤ s.filesize
          omega
  · rename_i htype
    have hx : x.isInitializers = false := decide_eq_false htype
    cases h₁
    constructor
    · rw [List.filter_append, List.filter_singleton, hx, hl.init]
      simp
    · intro y hy hinitializers
      rcases List.mem_append.1 hy with hy | hy
      · exact hl.backed y hy hinitializers
      · obtain rfl := List.mem_singleton.1 hy
        rw [hx] at hinitializers
        cases hinitializers

theorem sectionLoop_init {read : Reader} {content : ℕ → UInt8} (hread : read.Gives content)
    {sliceSize : ℕ} {s : SegmentCommand} {left cursor : ℕ} (hl : InitOf found l)
    (h : sectionLoop read sliceSize s left cursor l = .ok l') :
    InitOf (found ++ sectionsAt content s.segment left cursor) l' := by
  induction left generalizing cursor l found with
  | zero =>
      cases h
      rw [sectionsAt, List.append_nil]
      exact hl
  | succ left ih =>
      simp only [sectionLoop, bind_ok, obtained_ok] at h
      obtain ⟨b, hb, l₁, h₁, h⟩ := h
      rw [section_gives hread (by decide) hb] at h₁
      have hrest := ih (addSection_init hl h₁) h
      rw [List.append_assoc] at hrest
      exact hrest

theorem addCommand_init {read : Reader} {content : ℕ → UInt8} (hread : read.Gives content)
    {x : Context} {cmd : ℕ} (hl : InitOf found l) (h : addCommand read x l cmd = .ok l') :
    InitOf (found ++ if cmd = LC.SEGMENT_64 then
      sectionsAt content (SegmentCommand.decode fun i => content (x.cursor + i)).segment
        (little content (x.cursor + 64) 4) (x.cursor + 72) else []) l' := by
  by_cases hcmd : cmd = LC.SEGMENT_64
  · rw [addCommand, if_pos hcmd] at h
    simp only [addSegment, bind_ok, need_ok, obtained_ok, mapError_ok, exists_const] at h
    obtain ⟨-, b, hb, -, c, -, h⟩ := h
    rw [little_gives hread hb (by decide)] at h
    rw [if_pos hcmd, ← segment_gives hread hb]
    have hcommands : InitOf found { l with commands := c } := hl.same rfl
    exact sectionLoop_init hread hcommands h
  rw [if_neg hcmd, List.append_nil]
  refine hl.same ?_
  rw [addCommand, if_neg hcmd] at h
  split at h
  · simp only [addDylib, bind_ok, need_ok, obtained_ok, exists_const] at h
    obtain ⟨-, b, -, -, name, -, -, h⟩ := h
    cases h
    rfl
  split at h
  · simp only [addRpath, bind_ok, need_ok, obtained_ok, exists_const] at h
    obtain ⟨-, b, -, -, -, path, -, -, h⟩ := h
    cases h
    rfl
  split at h
  · simp only [addMain, bind_ok, need_ok, obtained_ok, exists_const] at h
    obtain ⟨-, b, -, h⟩ := h
    cases h
    rfl
  split at h
  · simp only [addDyldInfo, bind_ok, need_ok, obtained_ok, exists_const] at h
    obtain ⟨-, b, -, -, h⟩ := h
    split at h
    · simp only [bind_ok, need_ok, exists_const] at h
      obtain ⟨-, h⟩ := h
      cases h
      rfl
    · cases h
      rfl
  split at h
  · simp only [addExportsTrie, bind_ok, need_ok, exists_const] at h
    obtain ⟨-, range, -, h⟩ := h
    cases h
    rfl
  split at h
  · simp only [addChainedFixups, bind_ok, need_ok, exists_const] at h
    obtain ⟨-, range, -, h⟩ := h
    cases h
    rfl
  split at h
  · simp only [addEncryptionInfo, bind_ok, need_ok, obtained_ok, exists_const] at h
    obtain ⟨-, b, -, -, h⟩ := h
    cases h
    rfl
  · cases h
    rfl

end Loading

theorem commandLoop_init {read : Reader} {content : ℕ → UInt8} (hread : read.Gives content)
    {sliceSize commandsEnd left cursor cursor' : ℕ} {l l' : Loading}
    {found : List (GISegment × Section)} (hl : l.InitOf found)
    (h : commandLoop read sliceSize commandsEnd left cursor l = .ok (l', cursor')) :
    l'.InitOf (found ++ declaredSections content left cursor) := by
  induction left generalizing cursor l found with
  | zero =>
      cases h
      rw [declaredSections, List.append_nil]
      exact hl
  | succ left ih =>
      simp only [commandLoop, bind_ok, need_ok, obtained_ok, exists_const] at h
      obtain ⟨-, lc, hlc, -, l₁, h₁, h⟩ := h
      have hrest := ih (Loading.addCommand_init hread hl h₁) h
      rw [little_gives hread hlc (by decide), little_gives hread hlc (by decide),
        List.append_assoc] at hrest
      exact hrest

theorem mapLoop_pageZero {kind : ImageKind} {read : Reader} {earlier rest : List GISegment}
    {memory memory' : GuestMemory} {mapped : ℕ}
    (h : mapLoop kind read earlier rest memory mapped = .ok memory') :
    ∀ s ∈ rest, s.name = pageZero → s.fileSize = 0 := by
  induction rest generalizing earlier memory mapped with
  | nil => exact List.forall_mem_nil _
  | cons s rest ih =>
      rw [mapLoop] at h
      rw [List.forall_mem_cons]
      split at h
      · cases h
      split at h
      · split at h
        · cases h
        · rename_i hzero
          simp only [not_or, not_not] at hzero
          exact ⟨fun _ => hzero.2.2.1, ih h⟩
      rename_i hname
      refine ⟨fun hpage => absurd hpage hname, ?_⟩
      split at h
      · exact ih h
      split at h
      · cases h
      split at h
      · split at h
        · cases h
        · exact ih h
      · cases h

theorem sectionsAt_segment {content : ℕ → UInt8} {s : GISegment} {left cursor : ℕ} :
    ∀ x ∈ sectionsAt content s left cursor, x.1 = s := by
  induction left generalizing cursor with
  | zero => exact List.forall_mem_nil _
  | succ left ih => exact List.forall_mem_cons.2 ⟨rfl, ih⟩

theorem declaredSections_segment {content : ℕ → UInt8} {left cursor : ℕ} :
    ∀ x ∈ declaredSections content left cursor, x.1 ∈ declaredSegments content left cursor := by
  induction left generalizing cursor with
  | zero => exact List.forall_mem_nil _
  | succ left ih =>
      intro x hx
      rw [declaredSections] at hx
      rw [declaredSegments]
      rcases List.mem_append.1 hx with hx | hx
      · split_ifs at hx with hcmd
        · rw [if_pos hcmd, sectionsAt_segment x hx]
          exact List.mem_append_left _ (List.mem_singleton_self _)
        · cases hx
      · exact List.mem_append_right _ (ih x hx)

theorem Mirrors.word {content : ℕ → UInt8} {segments : List GISegment} {memory : GuestMemory}
    (h : Mirrors content segments memory) {s : GISegment} (hs : s ∈ segments)
    (hmapped : s.Mapped) (hfilled : s.fileSize ≤ s.size) {x : Section} (hx : FileBacked s x)
    (hsize : 8 ≤ x.size) {i : ℕ} (hi : i < 8) :
    memory.byteAt (x.addr + i) = content (x.offset + i) := by
  have hlow := hx.low
  have hinside := hx.inside
  have hbyte := (h.shown s hs hmapped (x.addr + i) (by omega) (by omega)).2
  rw [if_pos (by omega)] at hbyte
  have hplace : s.fileOffset + (x.addr + i - s.address) = x.offset + i := by
    have hoffset := hx.offset
    omega
  rw [hplace] at hbyte
  exact hbyte

theorem loadSlice_first {read : Reader} {content : ℕ → UInt8} (hread : read.Gives content)
    {kind : ImageKind} {slice : ℕ × ℕ} {image : LoadedImage}
    (h : loadSlice read kind slice = .ok image) {s : GISegment} {x : Section}
    (hx : (s, x) ∈ declaredSections content (little content 16 4) 32)
    (htype : x.type = S.MOD_INIT_FUNC_POINTERS) (hsize : 8 ≤ x.size) :
    image.firstInitializer = little content x.offset 8 ∧ image.initializerCount = x.size / 8 := by
  have hsegment : s ∈ declaredSegments content (little content 16 4) 32 :=
    declaredSections_segment _ hx
  have hdeclared := (loadSlice_mapped hread h).1.declared
  simp only [loadSlice, bind_ok, need_ok, obtained_ok, exists_const, Prod.exists] at h
  obtain ⟨-, b, hb, -, -, l, cursor, hloop, -, header, hheader, h⟩ := h
  simp only [assemble, bind_ok, need_ok, mapError_ok, exists_const, Prod.exists] at h
  obtain ⟨exports, -, m₁, hmap, entry, -, m₂, initializers, hinit, -, h⟩ := h
  cases h
  have hcount : MachHeader.ncmds ⟨b⟩ = little content 16 4 := by
    have hlittle := little_gives hread hb (by decide : 16 + 4 ≤ 32)
    rwa [Nat.zero_add] at hlittle
  rw [hcount] at hloop
  have hl := commandLoop_sound (Loading.sound_start kind slice ⟨b⟩ _) hloop
  have hstart : (Loading.start kind slice ⟨b⟩).InitOf [] := ⟨rfl, List.forall_mem_nil _⟩
  have hinits := commandLoop_init hread hstart hloop
  rw [List.nil_append] at hinits
  -- the section is the one that was remembered
  have hxinit : x.isInitializers = true := decide_eq_true (.inl htype)
  have hmem : x.initializers ∈ l.init.toList := by
    rw [hinits.init]
    exact List.mem_map.2 ⟨(s, x), List.mem_filter.2 ⟨hx, hxinit⟩, rfl⟩
  have hremembered : l.init = some ⟨false, x.addr, x.size⟩ := by
    rw [Option.mem_toList] at hmem
    have hpointers : x.initializers = ⟨false, x.addr, x.size⟩ := by
      rw [Section.initializers, htype]
      rfl
    rw [← hpointers]
    exact hmem
  have hbacked := hinits.backed (s, x) hx hxinit
  -- and is in memory
  have hnone : Mirrors content [] GuestMemory.fresh :=
    ⟨GuestMemory.wf_fresh, List.forall_mem_nil _, fun _ hx => absurd rfl hx⟩
  obtain ⟨hm₁, -, -⟩ :=
    mapLoop_mirrors hread hl.commands.checked hnone .nil (Nat.zero_le _) hmap
  rw [List.nil_append] at hm₁
  change l.commands.segments = _ at hdeclared
  rw [← hdeclared] at hsegment
  have hfilled := (hl.commands.checked s hsegment).filled
  have hroom := hbacked.inside
  have hmapped : s.Mapped := by
    refine ⟨by dsimp only at hroom; omega, fun hname => ?_⟩
    have hzero := mapLoop_pageZero hmap s hsegment hname
    dsimp only at hroom
    omega
  -- the pointer is read from there
  unfold readInitializers at hinit
  rw [hremembered] at hinit
  simp only [Option.getD_some, Bool.false_eq_true, if_false, bind_ok, Prod.exists] at hinit
  obtain ⟨m, first, hfirst, hinit⟩ := hinit
  have hvalue : first = little content x.offset 8 := by
    unfold firstPointer at hfirst
    rw [if_neg (by dsimp only; omega)] at hfirst
    simp only [bind_ok, need_ok, exists_const] at hfirst
    obtain ⟨hok, hfirst⟩ := hfirst
    cases hfirst
    obtain ⟨f, heq⟩ := GuestMemory.copy_read hm₁.wf (fun _ => true) none x.addr (fun _ => 0) 8
      GM.READ
    unfold GuestMemory.gmRead at hok ⊢
    rw [heq] at hok ⊢
    dsimp only at hok ⊢
    rw [if_pos hok, little]
    congr 1
    refine List.map_congr_left fun i hi => ?_
    exact hm₁.word hsegment hmapped hfilled hbacked hsize (List.mem_range.1 hi)
  split at hinit
  · simp only [bind_ok, need_ok, exists_const] at hinit
    obtain ⟨-, hinit⟩ := hinit
    cases hinit
    exact ⟨hvalue, rfl⟩
  · cases hinit
    exact ⟨hvalue, rfl⟩

end Tolkara
