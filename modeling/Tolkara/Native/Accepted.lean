import Tolkara.Image.Faithful
import Tolkara.Library.Passing
import Tolkara.Native.Located

/-!
# The image and the guest

An image that matches a loaded guest has the size of its only executable segment and
begins with its header and its load commands. Behind the part the guest rewrites every
page is one of the guest's own, and its first initializer lies there.
-/

namespace Tolkara

open Library

/-! ## Pages of the guest -/

theorem originalPage_eq {m : GuestMemory} (hm : m.Wf) {address : ℕ}
    (haligned : address % pageSize = 0) {i : ℕ} (hi : i < pageSize) :
    originalPage m address i = m.flat.byte (address + i) := by
  have hbase : pageBase (address + i) = address := by
    unfold pageBase pageSize at *
    omega
  have hoffset : (address + i) % pageSize = i := by
    unfold pageSize at *
    omega
  have hentry := GuestMemory.entry_eq hm address
  change _ = m.byteAt (address + i)
  rw [GuestMemory.byteAt, GuestMemory.viewAt, hbase, hoffset]
  rw [GuestMemory.entry] at hentry
  unfold originalPage
  cases hpage : m.pages[m.lower address]? with
  | none =>
      rw [hpage] at hentry
      dsimp only at hentry ⊢
      rw [Option.map_eq_none_iff.1 hentry.symm]
      rfl
  | some p =>
      rw [hpage] at hentry
      dsimp only at hentry ⊢
      split
      · rename_i haddress
        rw [if_pos haddress] at hentry
        obtain ⟨q, hq, hpair⟩ := Option.map_eq_some_iff.1 hentry.symm
        obtain rfl : q = p := congrArg Prod.snd hpair
        rw [hq]
        rfl
      · rename_i haddress
        rw [if_neg haddress] at hentry
        rw [Option.map_eq_none_iff.1 hentry.symm]
        rfl

/-! ## Bytes that differ -/

section

variable {x y : Buffer}

def differ (x y : Buffer) (i : ℕ) : Bool := x i ≠ y i

/-- How many indices there are, and the first of them. -/
def tally (size : ℕ) (indices : List ℕ) : ℕ × ℕ := (indices.length, indices.headD size)

theorem tally_concat (size i : ℕ) (indices : List ℕ) :
    tally size (indices ++ [i]) =
      ((tally size indices).1 + 1,
        if (tally size indices).1 = 0 then i else (tally size indices).2) := by
  cases indices with
  | nil => rfl
  | cons j rest => simp [tally]

theorem mismatchLoop_eq {size : ℕ} (left i : ℕ) :
    mismatchLoop x y left i (tally size (passing (differ x y) i)) =
      tally size (passing (differ x y) (i + left)) := by
  induction left generalizing i with
  | zero => rfl
  | succ left ih =>
      rw [mismatchLoop, show i + (left + 1) = i + 1 + left by omega, ← ih, passing_succ]
      by_cases hbyte : x i = y i
      · have hsame : differ x y i = false := by simp [differ, hbyte]
        rw [if_neg (not_not.2 hbyte), hsame]
        simp
      · have hdiffer : differ x y i = true := by simp [differ, hbyte]
        rw [if_pos hbyte, hdiffer, if_pos rfl, tally_concat]

theorem chunkLoop_eq {size turns chunk : ℕ} (hturns : size ≤ chunk + turns) :
    chunkLoop x y size turns chunk (tally size (passing (differ x y) (min chunk size))) =
      tally size (passing (differ x y) size) := by
  induction turns generalizing chunk with
  | zero =>
      rw [chunkLoop, Nat.min_eq_right (by omega)]
  | succ turns ih =>
      rw [chunkLoop]
      split
      · rename_i hlt
        dsimp only
        have hn : (if size - chunk < 4096 then size - chunk else 4096) =
            min (chunk + 4096) size - chunk := by
          split <;> omega
        have hend : chunk + (min (chunk + 4096) size - chunk) = min (chunk + 4096) size := by
          omega
        have hnext := @ih (chunk + 4096) (by omega)
        rw [hn, Nat.min_eq_left hlt.le, mismatchLoop_eq, hend, ← hnext]
        congr 1
        split
        · -- The bytes of the chunk are the same.
          rename_i hsame
          rw [List.all_eq_true] at hsame
          rw [← hend, passing_add]
          intro i hi
          have hbyte := of_decide_eq_true (hsame i (List.mem_range.2 hi))
          exact decide_eq_false (not_not.2 hbyte)
        · rfl
      · rw [Nat.min_eq_right (by omega)]

theorem siCountMismatches_eq (size : ℕ) :
    siCountMismatches x y size = tally size (passing (differ x y) size) := by
  have hloop := @chunkLoop_eq x y size size 0 (by omega)
  rwa [Nat.zero_min] at hloop

theorem siCountMismatches_eq_zero {size : ℕ} :
    (siCountMismatches x y size).1 = 0 ↔ ∀ i < size, x i = y i := by
  rw [siCountMismatches_eq, tally, List.length_eq_zero_iff, passing_eq_nil_iff]
  simp only [differ, decide_eq_false_iff_not, not_not, ne_eq]

end

/-! ## The guest's text -/

def GISegment.isExecutable (s : GISegment) : Bool := s.prot &&& GM.EXEC ≠ 0#32

theorem textLoop_eq (segments : List GISegment) (executable : ℕ) (text : Option GISegment) :
    textLoop segments executable text =
      (executable + (segments.filter GISegment.isExecutable).length,
        ((segments.filter GISegment.isExecutable).filter GISegment.isText).getLast?.or text) := by
  induction segments generalizing executable text with
  | nil => rfl
  | cons s rest ih =>
      rw [textLoop]
      by_cases hexec : s.prot &&& GM.EXEC = 0#32
      · have hnot : s.isExecutable = false := decide_eq_false (not_not.2 hexec)
        rw [if_pos hexec, ih, List.filter_cons_of_neg (by simp [hnot])]
      · have his : s.isExecutable = true := decide_eq_true hexec
        rw [if_neg hexec, ih, List.filter_cons_of_pos his, List.length_cons]
        by_cases htext : s.name = ascii "__TEXT"
        · have hname : s.isText = true := decide_eq_true htext
          rw [if_pos htext, List.filter_cons_of_pos hname, List.getLast?_cons, Option.some_or,
            Prod.mk.injEq]
          refine ⟨by omega, ?_⟩
          cases ((rest.filter GISegment.isExecutable).filter GISegment.isText).getLast? with
          | none => rfl
          | some t => rfl
        · have hname : s.isText = false := decide_eq_false htext
          rw [if_neg htext, List.filter_cons_of_neg (by simp [hname])]
          congr 1
          omega

theorem only_of_textLoop {segments : List GISegment} {text : GISegment}
    (h : textLoop segments 0 none = (1, some text)) :
    segments.filter GISegment.isExecutable = [text] ∧ text.isText = true := by
  rw [textLoop_eq, Prod.mk.injEq, Nat.zero_add, Option.or_none] at h
  obtain ⟨s, hs⟩ := List.length_eq_one_iff.1 h.1
  rw [hs, List.filter_singleton] at h
  cases hname : s.isText with
  | false =>
      rw [hname] at h
      exact absurd h.2 nofun
  | true =>
      rw [hname] at h
      obtain rfl : s = text := Option.some.inj h.2
      exact ⟨hs, hname⟩

/-! ## The rewritten range -/

theorem shadowLoop_eq (differs : ℕ → Bool) (left i : ℕ) :
    shadowLoop differs left (i * pageSize)
        (endOf (fun k => differs (k * pageSize)) i * pageSize) =
      endOf (fun k => differs (k * pageSize)) (i + left) * pageSize := by
  induction left generalizing i with
  | zero => rfl
  | succ left ih =>
      rw [shadowLoop, ← Nat.succ_mul, Nat.succ_eq_add_one,
        show i + (left + 1) = i + 1 + left by omega, ← ih, endOf]
      congr 1
      split
      · rfl
      · rfl

theorem pageDiffers_eq_false {host : Buffer} {image : SIImage} {guest : LoadedImage}
    {offset : ℕ} : pageDiffers host image guest offset = false ↔ ∀ i < pageSize,
      originalPage guest.memory (guest.headerAddress + offset) i =
        host (image.bytes + offset + i) := by
  rw [pageDiffers, List.any_eq_false]
  simp only [List.mem_range, decide_eq_true_eq, ne_eq, not_not]

/-! ## Initializers -/

theorem initializerLoop_lt {header address left i : ℕ} {memory memory' : GuestMemory}
    {found found' : List ℕ} (hfound : ∀ a ∈ found, a < 2 ^ 64)
    (h : initializerLoop header address left i memory found = .ok (memory', found')) :
    ∀ a ∈ found', a < 2 ^ 64 := by
  induction left generalizing i memory found with
  | zero =>
      cases h
      exact hfound
  | succ left ih =>
      simp only [initializerLoop, bind_ok, need_ok, exists_const] at h
      obtain ⟨-, -, h⟩ := h
      exact ih (List.forall_mem_append.2
        ⟨hfound, List.forall_mem_singleton.2 (Nat.mod_lt _ (by decide))⟩) h

theorem firstPointer_lt {x : InitSection} {memory memory' : GuestMemory} {first : ℕ}
    (hm : memory.Wf) (h : firstPointer x memory = .ok (memory', first)) : first < 2 ^ 64 := by
  unfold firstPointer at h
  split at h
  · cases h
    decide
  · simp only [bind_ok, need_ok, exists_const] at h
    obtain ⟨hread, h⟩ := h
    cases h
    obtain ⟨f, heq⟩ := GuestMemory.copy_read hm (fun _ => true) none x.address (fun _ => 0) 8
      GM.READ
    unfold GuestMemory.gmRead at hread ⊢
    rw [heq] at hread ⊢
    dsimp only at hread ⊢
    rw [if_pos hread]
    have hlt := littleEndian_lt ((List.range 8).map fun i => memory.byteAt (x.address + i))
    rwa [List.length_map, List.length_range] at hlt

theorem readInitializers_lt {header : ℕ} {section_ : Option InitSection} {chained : Bool}
    {memory memory' : GuestMemory} {x : Initializers} (hm : memory.Wf)
    (h : readInitializers header section_ chained memory = .ok (memory', x)) :
    x.firstInitializer < 2 ^ 64 := by
  unfold readInitializers at h
  dsimp only at h
  split at h
  · simp only [bind_ok, Prod.exists] at h
    obtain ⟨m, list, hloop, h⟩ := h
    cases h
    have hall := initializerLoop_lt (List.forall_mem_nil _) hloop
    cases list with
    | nil => exact (by decide : 0 < 2 ^ 64)
    | cons a rest => exact hall a List.mem_cons_self
  · simp only [bind_ok, Prod.exists] at h
    obtain ⟨m, first, hfirst, h⟩ := h
    have hlt := firstPointer_lt hm hfirst
    split at h
    · simp only [bind_ok, need_ok, exists_const] at h
      obtain ⟨-, h⟩ := h
      cases h
      exact hlt
    · cases h
      exact hlt

theorem loadSlice_firstInitializer {read : Reader} {kind : ImageKind} {slice : ℕ × ℕ}
    {image : LoadedImage} (h : loadSlice read kind slice = .ok image) :
    image.firstInitializer < 2 ^ 64 := by
  simp only [loadSlice, bind_ok, need_ok, obtained_ok, exists_const, Prod.exists] at h
  obtain ⟨-, b, hb, -, -, l, cursor, hloop, -, header, hheader, h⟩ := h
  simp only [assemble, bind_ok, need_ok, mapError_ok, exists_const, Prod.exists] at h
  obtain ⟨exports, -, m₁, hmap, entry, -, m₂, initializers, hinit, -, h⟩ := h
  cases h
  have hl := commandLoop_sound (Loading.sound_start kind slice ⟨b⟩ _) hloop
  have hwf := (mapLoop_spec _ hl.commands.checked GuestMemory.wf_fresh
    (fun _ hb => absurd rfl hb) hmap).2.1
  exact readInitializers_lt hwf hinit

theorem loadPath_loaded {file : List UInt8} {image guest : LoadedImage} {kind : ImageKind}
    (h : loadPath (some file) image kind = (.ok (), guest)) :
    load (readFile file) file.length kind = .ok guest := by
  unfold loadPath at h
  split at h
  · cases h
  · dsimp only at h
    cases hload : load (readFile file) file.length kind with
    | error e =>
        rw [hload] at h
        cases h
    | ok staged =>
        rw [hload] at h
        exact congrArg Except.ok (Prod.mk.inj h).2

/-! ## The binding -/

/-- The image of a container on a loaded guest, with the size of the rewritten range. -/
structure Bound (file : List UInt8) (host : Buffer) (image : SIImage) (guest : LoadedImage)
    (shadow : ℕ) : Prop where
  text : ∃ text, guest.segments.filter GISegment.isExecutable = [text] ∧ text.isText = true ∧
    text.address = guest.headerAddress ∧ image.size = text.size
  header : ∀ i < 32 + little (fun j => file.getD (guest.sliceOffset + j) 0) 20 4,
    host (image.bytes + i) = file.getD (guest.sliceOffset + i) 0 ∧
      host (image.bytes + i) = guest.memory.flat.byte (guest.headerAddress + i)
  rewritten : IsLeast {k | pageSize ∣ k ∧ ∀ offset, pageSize ∣ offset → k ≤ offset →
    offset < image.size → ∀ i < pageSize, host (image.bytes + offset + i) =
      guest.memory.flat.byte (guest.headerAddress + offset + i)} shadow
  initializer : guest.initializerCount ≠ 0 ∧
    guest.headerAddress + shadow ≤ guest.firstInitializer ∧
    guest.firstInitializer < guest.headerAddress + image.size

theorem little_congr {b c : Buffer} {offset n : ℕ}
    (h : ∀ i < n, b (offset + i) = c (offset + i)) : little b offset n = little c offset n := by
  unfold little
  congr 1
  refine List.map_congr_left fun i hi => ?_
  exact h i (List.mem_range.1 hi)

section

variable {host : Buffer} {image : SIImage} {guest : LoadedImage} {content : ℕ → UInt8}
  {kind : ImageKind}

theorem siMatchGuest_spec (hmapped : guest.Mapped content kind)
    (h : siMatchGuest host image guest = .ok ()) :
    (∃ text, guest.segments.filter GISegment.isExecutable = [text] ∧ text.isText = true ∧
      text.address = guest.headerAddress ∧ image.size = text.size) ∧
    guest.headerAddress % pageSize = 0 ∧
    ∀ i < 32 + little content 20 4, host (image.bytes + i) = content i ∧
      host (image.bytes + i) = guest.memory.flat.byte (guest.headerAddress + i) := by
  unfold siMatchGuest at h
  cases htext : textLoop guest.segments 0 none with
  | mk executable text =>
      rw [htext] at h
      simp only [bind_ok, need_ok, obtained_ok, exists_const] at h
      obtain ⟨rfl, text, rfl, ⟨-, haddress, haligned, -⟩, hsize, -, hcmds, hequal⟩ := h
      obtain ⟨honly, hname⟩ := only_of_textLoop htext
      rw [haddress] at haligned
      have hpage : ∀ i < pageSize, originalPage guest.memory guest.headerAddress i =
          guest.memory.flat.byte (guest.headerAddress + i) :=
        fun i hi => originalPage_eq hmapped.memory.wf haligned hi
      have hcommands : MachHeader.sizeofcmds ⟨originalPage guest.memory guest.headerAddress⟩ =
          little content 20 4 := by
        refine little_congr fun i hi => (hpage (20 + i) ?_).trans ?_
        · unfold pageSize
          omega
        · exact (hmapped.header (20 + i) (by omega)).2
      rw [hcommands] at hcmds hequal
      refine ⟨⟨text, honly, hname, haddress, hsize⟩, haligned, fun i hi => ?_⟩
      have hbyte := siCountMismatches_eq_zero.1 hequal i hi
      have hin : i < pageSize := by
        unfold pageSize at hcmds ⊢
        omega
      rw [hpage i hin] at hbyte
      exact ⟨hbyte ▸ (hmapped.header i hi).2, hbyte.symm⟩

theorem siShadowSize_spec (hwf : guest.memory.Wf) (hfirst : guest.firstInitializer < 2 ^ 64)
    {shadow : ℕ} (h : siShadowSize host image guest = .ok shadow) :
    IsLeast {k | pageSize ∣ k ∧ ∀ offset, pageSize ∣ offset → k ≤ offset →
      offset < image.size → ∀ i < pageSize, host (image.bytes + offset + i) =
        guest.memory.flat.byte (guest.headerAddress + offset + i)} shadow ∧
    guest.initializerCount ≠ 0 ∧ guest.headerAddress + shadow ≤ guest.firstInitializer ∧
    guest.firstInitializer < guest.headerAddress + image.size := by
  simp only [siShadowSize, bind_ok, need_ok, exists_const] at h
  obtain ⟨⟨-, hsize, hbase, hrange⟩, ⟨hcount, hlow, hinside⟩, hbehind, h⟩ := h
  have hwhole := Nat.div_mul_cancel (Nat.dvd_of_mod_eq_zero hsize)
  have hloop := shadowLoop_eq (pageDiffers host image guest) (image.size / pageSize) 0
  rw [Nat.zero_add, Nat.zero_mul, endOf, Nat.zero_mul] at hloop
  have hleast := @endOf_isLeast (fun k => pageDiffers host image guest (k * pageSize))
    (image.size / pageSize)
  have hsame : ∀ k, pageDiffers host image guest (k * pageSize) = false ↔ ∀ i < pageSize,
      host (image.bytes + k * pageSize + i) =
        guest.memory.flat.byte (guest.headerAddress + k * pageSize + i) := by
    intro k
    have haligned : (guest.headerAddress + k * pageSize) % pageSize = 0 := by
      rw [Nat.add_mul_mod_self_right, hbase]
    rw [pageDiffers_eq_false]
    refine forall₂_congr fun i hi => ?_
    rw [originalPage_eq hwf haligned hi]
    exact eq_comm
  rw [hloop] at hbehind h
  obtain rfl := Except.ok.inj h
  have hexact : sub64 guest.firstInitializer guest.headerAddress =
      guest.firstInitializer - guest.headerAddress := by
    unfold sub64 wrap64 uint64Max
    omega
  rw [hexact] at hinside hbehind
  refine ⟨⟨⟨Nat.dvd_mul_left _ _, ?_⟩, ?_⟩, hcount, by omega, by omega⟩
  · rintro offset ⟨k, rfl⟩ hfrom hlt
    rw [Nat.mul_comm pageSize k] at hfrom hlt ⊢
    refine (hsame k).1 (hleast.1 k (Nat.le_of_mul_le_mul_right hfrom (by decide)) ?_)
    rw [← hwhole] at hlt
    exact Nat.lt_of_mul_lt_mul_right hlt
  · rintro _ ⟨⟨k, rfl⟩, hk⟩
    rw [Nat.mul_comm pageSize k] at hk ⊢
    refine Nat.mul_le_mul_right _ (hleast.2 fun j hj hlt => (hsame j).2 ?_)
    refine hk _ (Nat.dvd_mul_left _ _) (Nat.mul_le_mul_right _ hj) ?_
    rw [← hwhole]
    exact Nat.mul_lt_mul_of_pos_right hlt (by decide)

end

/-- The search for the image reads only the first page of a container and finds an image in it
that starts at the marker; an image that passes the checks of a loaded guest is bound to it. -/
theorem signedImage_sound :
    (∀ header v1 final : ℕ,
      StaysWithin pageSize (fun read => siLocateImage read header v1 final) ∧
      ∀ (read : Reader) (content : ℕ → UInt8), read.Covers pageSize → read.Gives content →
        siLocateImage read header v1 final ≠ .error .fault ∧
        ∀ image, siLocateImage read header v1 final = .ok image →
          Located content header v1 image) ∧
    ∀ (file : List UInt8) (before guest : LoadedImage) (host : Buffer) (image : SIImage)
      (shadow : ℕ), giLoad (some file) before = (.ok (), guest) →
      siMatchGuest host image guest = .ok () → siShadowSize host image guest = .ok shadow →
      Bound file host image guest shadow := by
  constructor
  · intro header v1 final
    refine ⟨siLocateImage_staysWithin header v1 final, fun read content hcovers hread => ?_⟩
    exact ⟨siLocateImage_neverMisses header v1 final read hcovers,
      fun image h => siLocateImage_located hread h⟩
  · intro file before guest host image shadow hload hmatch hshadow
    have hloaded := loadPath_loaded hload
    have hmapped := (load_faithful hloaded).mapped
    obtain ⟨htext, -, hheader⟩ := siMatchGuest_spec hmapped hmatch
    have hfirst : guest.firstInitializer < 2 ^ 64 := by
      simp only [load, bind_ok, need_ok, exists_const] at hloaded
      obtain ⟨-, slice, -, hslice⟩ := hloaded
      exact loadSlice_firstInitializer hslice
    obtain ⟨hleast, hinitializer⟩ := siShadowSize_spec hmapped.memory.wf hfirst hshadow
    exact ⟨htext, hheader, hleast, hinitializer⟩

/-- The smallest container: a header, and `__TEXT` with one section of one page behind it. -/
def smallestContainer : List UInt8 :=
  [0xcf, 0xfa, 0xed, 0xfe, 0x0c, 0, 0, 1, 0, 0, 0, 0, 6, 0, 0, 0,
    1, 0, 0, 0, 152, 0, 0, 0, 0, 0, 0, 0, 0, 0, 0, 0,
    0x19, 0, 0, 0, 152, 0, 0, 0] ++ ascii "__TEXT" ++ [0, 0, 0, 0, 0, 0, 0, 0, 0, 0,
    0, 0, 0, 0, 0, 0, 0, 0, 0, 0x80, 0, 0, 0, 0, 0, 0,
    0, 0, 0, 0, 0, 0, 0, 0, 0, 0x80, 0, 0, 0, 0, 0, 0,
    5, 0, 0, 0, 5, 0, 0, 0, 1, 0, 0, 0, 0, 0, 0, 0] ++
  ascii "__text" ++ [0, 0, 0, 0, 0, 0, 0, 0, 0, 0] ++
  ascii "__TEXT" ++ [0, 0, 0, 0, 0, 0, 0, 0, 0, 0,
    0, 0x40, 0, 0, 0, 0, 0, 0, 0, 0x40, 0, 0, 0, 0, 0, 0, 0, 0x40, 0, 0, 14, 0, 0, 0,
    0, 0, 0, 0, 0, 0, 0, 0, 0, 0, 0, 0, 0, 0, 0, 0, 0, 0, 0, 0, 0, 0, 0, 0]

/-- The first page of a mapping, and nothing else. -/
def firstPage (content : ℕ → UInt8) : Reader := fun offset n =>
  if offset + n ≤ pageSize then some fun i => content (offset + i) else none

theorem firstPage_covers (content : ℕ → UInt8) : (firstPage content).Covers pageSize :=
  fun _ _ hle => ⟨_, if_pos hle⟩

theorem firstPage_gives (content : ℕ → UInt8) : (firstPage content).Gives content := by
  intro offset n b hb i hi
  unfold firstPage at hb
  split at hb
  · obtain rfl := Option.some.inj hb
    rfl
  · cases hb

/-- An executable of one page with one initializer, which is its entry. -/
def smallestGuest : List UInt8 :=
  [0xcf, 0xfa, 0xed, 0xfe, 0x0c, 0, 0, 1, 0, 0, 0, 0, 2, 0, 0, 0,
    2, 0, 0, 0, 176, 0, 0, 0, 0, 0, 0, 0, 0, 0, 0, 0,
    0x19, 0, 0, 0, 152, 0, 0, 0] ++ ascii "__TEXT" ++ [0, 0, 0, 0, 0, 0, 0, 0, 0, 0,
    0, 0, 0, 0, 1, 0, 0, 0, 0, 0x40, 0, 0, 0, 0, 0, 0,
    0, 0, 0, 0, 0, 0, 0, 0, 220, 0, 0, 0, 0, 0, 0, 0,
    5, 0, 0, 0, 5, 0, 0, 0, 1, 0, 0, 0, 0, 0, 0, 0] ++
  ascii "__mod_init_func" ++ [0] ++ ascii "__TEXT" ++ [0, 0, 0, 0, 0, 0, 0, 0, 0, 0,
    208, 0, 0, 0, 1, 0, 0, 0, 8, 0, 0, 0, 0, 0, 0, 0, 208, 0, 0, 0, 3, 0, 0, 0,
    0, 0, 0, 0, 0, 0, 0, 0, 9, 0, 0, 0, 0, 0, 0, 0, 0, 0, 0, 0, 0, 0, 0, 0,
    0x28, 0, 0, 0x80, 24, 0, 0, 0, 216, 0, 0, 0, 0, 0, 0, 0, 0, 0, 0, 0, 0, 0, 0, 0,
    216, 0, 0, 0, 1, 0, 0, 0, 0xc0, 0x03, 0x5f, 0xd6]

def smallestLoaded : LoadedImage := (giLoad (some smallestGuest) LoadedImage.empty).2

theorem smallestLoaded_facts :
    (giLoad (some smallestGuest) LoadedImage.empty).1.isOk = true ∧
      (smallestLoaded.sliceOffset = 0 ∧ smallestLoaded.sliceSize = 220) ∧
      (textLoop smallestLoaded.segments 0 none).1 = 1 ∧
      (textLoop smallestLoaded.segments 0 none).2.map (fun s => (s.address, s.size)) =
        some (0x100000000, pageSize) ∧
      smallestLoaded.headerAddress = 0x100000000 ∧
      MachHeader.magic ⟨originalPage smallestLoaded.memory smallestLoaded.headerAddress⟩ =
        0xfeedfacf ∧
      MachHeader.sizeofcmds ⟨originalPage smallestLoaded.memory smallestLoaded.headerAddress⟩ =
        176 ∧
      smallestLoaded.firstInitializer = 0x1000000d8 ∧ smallestLoaded.initializerCount = 1 := by
  decide +kernel

theorem giLoad_smallestGuest :
    giLoad (some smallestGuest) LoadedImage.empty = (.ok (), smallestLoaded) :=
  Prod.ext (eq_ok_of_isOk smallestLoaded_facts.1) (by rw [smallestLoaded])

def smallestImage : SIImage := ⟨0x200000000, pageSize⟩

/-- A mapping that has the page of the guest where the image starts. -/
def smallestHost : Buffer := fun i =>
  originalPage smallestLoaded.memory smallestLoaded.headerAddress (i - smallestImage.bytes)

theorem smallestHost_eq (i : ℕ) : smallestHost (smallestImage.bytes + i) =
    originalPage smallestLoaded.memory smallestLoaded.headerAddress i := by
  rw [smallestHost, Nat.add_sub_cancel_left]

theorem siMatchGuest_smallest :
    siMatchGuest smallestHost smallestImage smallestLoaded = .ok () := by
  obtain ⟨-, -, hone, htext, hheader, hmagic, hcommands, -⟩ := smallestLoaded_facts
  obtain ⟨text, hlast, hplace⟩ := Option.map_eq_some_iff.1 htext
  obtain ⟨haddress, hsize⟩ := Prod.mk.inj hplace
  simp only [siMatchGuest, bind_ok, need_ok, obtained_ok, exists_const]
  rw [hone, hlast, hmagic, hcommands, hheader]
  refine ⟨rfl, text, rfl, ⟨?_, haddress, ?_, ?_⟩, hsize.symm, rfl, by decide, ?_⟩
  · rw [hsize]
    decide
  · rw [haddress]
    decide
  · rw [hsize]
    decide
  · rw [← hheader]
    exact siCountMismatches_eq_zero.2 fun i _ => (smallestHost_eq i).symm

theorem siShadowSize_smallest :
    siShadowSize smallestHost smallestImage smallestLoaded = .ok 0 := by
  obtain ⟨-, -, -, -, hheader, -, -, hinitializer, hcount⟩ := smallestLoaded_facts
  have hsame : pageDiffers smallestHost smallestImage smallestLoaded 0 = false := by
    refine pageDiffers_eq_false.2 fun i _ => ?_
    rw [Nat.add_zero, Nat.add_zero, smallestHost_eq]
  have hshadow : shadowLoop (pageDiffers smallestHost smallestImage smallestLoaded)
      (smallestImage.size / pageSize) 0 0 = 0 := by
    rw [show smallestImage.size / pageSize = 1 from by decide, shadowLoop, hsame,
      if_neg Bool.false_ne_true, shadowLoop]
  simp only [siShadowSize, bind_ok, need_ok, exists_const]
  rw [hshadow, hheader, hinitializer, hcount]
  exact ⟨by decide, by decide, by decide, rfl⟩

/-- The search finds the image of the smallest container, and the image of the smallest guest is
bound to it with nothing rewritten. -/
theorem signedImage_sound_smallest :
    Located (fun i => smallestContainer.getD i 0) 0x100000000 0x100004000
        ⟨0x100004000, 0x4000⟩ ∧
      Bound smallestGuest smallestHost smallestImage smallestLoaded 0 :=
  ⟨((signedImage_sound.1 0x100000000 0x100004000 0x100004000).2
    (firstPage fun i => smallestContainer.getD i 0) _ (firstPage_covers _) (firstPage_gives _)).2 _
    (by rfl), signedImage_sound.2 smallestGuest LoadedImage.empty smallestLoaded smallestHost
      smallestImage 0 giLoad_smallestGuest siMatchGuest_smallest siShadowSize_smallest⟩

end Tolkara
