import Tolkara.Image.FileReads
import Tolkara.Image.FileMemory

/-!
# What a loaded image is

`gi_load` and `gi_load_library` on any bytes: they look at nothing outside the file, a
failure leaves the caller's image alone, and what they accept is `Faithful` to the file.
The segments come from its load commands, the memory shows them and nothing else, and
the addresses and ranges that the image records are what they are taken for.
-/

namespace Tolkara

open Library

theorem readFile_gives (file : List UInt8) : (readFile file).Gives fun i => file.getD i 0 := by
  intro offset n b hb i hi
  unfold readFile at hb
  split at hb
  · cases hb
    rfl
  · cases hb

namespace LoadedImage

/-- An image of a slice with these bytes. -/
structure Mapped (content : ℕ → UInt8) (kind : ImageKind) (image : LoadedImage) : Prop where
  accepted : image.toGuestImage.Accepted kind
  magic : little content 0 4 = 0xfeedfacf ∧ little content 12 4 = kind.filetype
  declared : image.segments = declaredSegments content (little content 16 4) 32
  aligned : ∀ s ∈ image.segments, s.address % pageSize = 0 ∧ s.size % pageSize = 0
  apart : image.segments.Pairwise GISegment.Apart
  budget : mappedTotal GISegment.size image.segments ≤ 2147483648
  contents : ∀ s ∈ image.segments,
    s.fileSize ≤ s.size ∧ Inside image.sliceSize (s.fileOffset, s.fileSize)
  memory : Mirrors content image.segments image.memory
  header : ∀ i < 32 + little content 20 4,
    image.memory.flat.perm ((image.headerAddress + i) / pageSize) ≠ none ∧
      image.memory.flat.byte (image.headerAddress + i) = content i
  entry : kind = .execute → ExecutableAt image.segments GISegment.fileSize image.entry
  initializers : image.initializerOffsets = true →
    image.initializers.length = image.initializerCount ∧
      ∀ a ∈ image.initializers, ExecutableAt image.segments GISegment.size a
  dyldInfo : image.dyldInfo.Within image.sliceSize
  chained : ∀ range ∈ image.chained, Inside image.sliceSize range
  exports : ∃ range, Inside image.sliceSize range ∧
    image.exports = (List.range range.2).map fun i => content (range.1 + i)

/-- The image of the one slice that a file declares. -/
structure Faithful (file : List UInt8) (kind : ImageKind) (image : LoadedImage) : Prop where
  declared : declaredSlices (fun i => file.getD i 0) file.length =
    [(image.sliceOffset, image.sliceSize)]
  inside : Inside file.length (image.sliceOffset, image.sliceSize)
  mapped : image.Mapped (fun i => file.getD (image.sliceOffset + i) 0) kind

end LoadedImage

theorem loadSlice_mapped {read : Reader} {content : ℕ → UInt8} (hread : read.Gives content)
    {kind : ImageKind} {slice : ℕ × ℕ} {image : LoadedImage}
    (h : loadSlice read kind slice = .ok image) :
    image.Mapped content kind ∧ image.sliceOffset = slice.1 ∧ image.sliceSize = slice.2 := by
  simp only [loadSlice, bind_ok, need_ok, obtained_ok, exists_const, Prod.exists] at h
  obtain ⟨-, b, hb, hkind, -, l, cursor, hloop, ⟨-, hentry⟩, header, hheader, h⟩ := h
  simp only [assemble, bind_ok, need_ok, mapError_ok, exists_const, Prod.exists] at h
  obtain ⟨exports, hexports, m₁, hmap, entry, hfind, m₂, initializers, hinit, -, h⟩ := h
  cases h
  have hbytes : ∀ offset k, offset + k ≤ 32 → little b offset k = little content offset k := by
    intro offset k hle
    rw [little_gives hread hb hle, Nat.zero_add]
  have hl := commandLoop_sound (Loading.sound_start kind slice ⟨b⟩ _) hloop
  have hchecked := hl.commands.checked
  -- What the loop over the segments maps.
  have hnone : Mirrors content [] GuestMemory.fresh :=
    ⟨GuestMemory.wf_fresh, List.forall_mem_nil _, fun _ hx => absurd rfl hx⟩
  obtain ⟨hm₁, hapart, hbudget⟩ := mapLoop_mirrors hread hchecked hnone .nil (Nat.zero_le _) hmap
  have hzero := (mapLoop_spec _ hchecked GuestMemory.wf_fresh (fun _ hb => absurd rfl hb) hmap).1
  rw [List.nil_append] at hm₁ hapart
  rw [Nat.zero_add] at hbudget
  obtain ⟨hm₂, hinitializers⟩ := readInitializers_spec hchecked hm₁ hinit
  have hm₃ := hm₂.gmRead header (fun _ => 0) 32
  obtain ⟨text, htext, hname, haddress, hoffset, hsize, hexec⟩ := hl.text header hheader
  have hfilled := (hchecked text htext).filled
  have hmapped : text.Mapped := by
    refine ⟨by omega, ?_⟩
    rw [hname]
    decide
  have haligned := fun s hs => (hchecked s hs).aligned
  refine ⟨⟨⟨fun s hs => (hchecked s hs).bounded, haligned,
    fun s hs hname => (hchecked s hs).prot_eq_zero ((hzero s hs).1 hname),
    fun hk s hs => (hzero s hs).2 hk, ⟨text, htext, hmapped, hexec, haddress⟩, hm₃.wf,
    fun p hp => hm₃.pages hchecked hp⟩, ?_, ?_, haligned, hapart, hbudget, ?_, hm₃, ?_, ?_,
    hinitializers, ?_, ?_, ?_⟩, hl.place⟩
  · rw [← hbytes 0 4 (by decide), ← hbytes 12 4 (by decide)]
    exact ⟨hkind.1, hkind.2.2.2⟩
  · rw [← hbytes 16 4 (by decide)]
    exact commandLoop_segments hread hloop
  · intro s hs
    refine ⟨(hchecked s hs).filled, ?_⟩
    rw [hl.place.2]
    exact hl.segments s hs
  · intro i hi
    rw [← hbytes 20 4 (by decide)] at hi
    obtain ⟨hperm, hbyte⟩ := hm₃.byte_eq htext hmapped hfilled (lt_of_lt_of_le hi hsize)
    rw [haddress] at hperm hbyte
    rw [hoffset, Nat.zero_add] at hbyte
    exact ⟨by rw [hperm]; exact Option.some_ne_none _, hbyte⟩
  · intro hexecute
    exact findEntry_executableAt hchecked (fun s hs => (hzero s hs).1) (hentry.1 hexecute) hfind
  · rw [hl.place.2]
    exact hl.dyldInfo
  · rw [hl.place.2]
    exact hl.chained
  · rw [hl.place.2]
    exact readExports_spec hread hl.exports hexports

theorem load_faithful {file : List UInt8} {kind : ImageKind} {image : LoadedImage}
    (h : load (readFile file) file.length kind = .ok image) : image.Faithful file kind := by
  simp only [load, bind_ok, need_ok, exists_const] at h
  obtain ⟨-, slice, hslice, h⟩ := h
  obtain ⟨hmapped, hoffset, hsize⟩ := loadSlice_mapped ((readFile_gives file).skip slice.1) h
  have hdeclared := chooseSlice_declared (readFile_gives file) hslice
  have hinside := chooseSlice_inside hslice
  rw [← hoffset] at hmapped
  have hplace : slice = (image.sliceOffset, image.sliceSize) := by rw [hoffset, hsize]
  rw [hplace] at hdeclared hinside
  exact ⟨hdeclared, hinside, hmapped⟩

/-- How `gi_load` and `gi_load_library` treat a file and the image of their caller. -/
structure LoadsFaithfully (file : List UInt8) (kind : ImageKind) (image : LoadedImage)
    (answer : Except ImageError Unit × LoadedImage) : Prop where
  within : ∀ read, Reader.Agree file.length (readFile file) read →
    load read file.length kind = load (readFile file) file.length kind
  failure : ∀ e, answer.1 = .error e → answer.2 = image
  success : answer.1 = .ok () → answer.2.Faithful file kind

theorem loadPath_faithful (file : List UInt8) (image : LoadedImage) (kind : ImageKind) :
    LoadsFaithfully file kind image (loadPath (some file) image kind) where
  within read hagree := (load_staysWithin file.length kind _ read hagree).symm
  failure := by
    intro e he
    unfold loadPath at he ⊢
    split
    · rfl
    · rename_i hfresh
      rw [if_neg hfresh] at he
      dsimp only at he ⊢
      split
      · rfl
      · rename_i staged hload
        rw [hload] at he
        cases he
  success := by
    intro hok
    unfold loadPath at hok ⊢
    split
    · rename_i hloaded
      rw [if_pos hloaded] at hok
      cases hok
    · rename_i hfresh
      rw [if_neg hfresh] at hok
      dsimp only at hok ⊢
      split
      · rename_i e hload
        rw [hload] at hok
        cases hok
      · rename_i staged hload
        exact load_faithful hload

/-- The loader maps what the file says. -/
theorem giLoad_faithful (file : List UInt8) (image : LoadedImage) :
    LoadsFaithfully file .execute image (giLoad (some file) image) ∧
      LoadsFaithfully file .dylib image (giLoadLibrary (some file) image) :=
  ⟨loadPath_faithful file image .execute, loadPath_faithful file image .dylib⟩

/-- The smallest executable: a header, `__TEXT`, the entry, and there a return. -/
def smallest : List UInt8 :=
  [0xcf, 0xfa, 0xed, 0xfe, 0x0c, 0, 0, 1, 0, 0, 0, 0, 2, 0, 0, 0,
    2, 0, 0, 0, 96, 0, 0, 0, 0, 0, 0, 0, 0, 0, 0, 0,
    0x19, 0, 0, 0, 72, 0, 0, 0] ++ ascii "__TEXT" ++ [0, 0, 0, 0, 0, 0, 0, 0, 0, 0,
    0, 0, 0, 0, 1, 0, 0, 0, 0, 0x40, 0, 0, 0, 0, 0, 0,
    0, 0, 0, 0, 0, 0, 0, 0, 132, 0, 0, 0, 0, 0, 0, 0,
    5, 0, 0, 0, 5, 0, 0, 0, 0, 0, 0, 0, 0, 0, 0, 0,
    0x28, 0, 0, 0x80, 24, 0, 0, 0, 128, 0, 0, 0, 0, 0, 0, 0, 0, 0, 0, 0, 0, 0, 0, 0,
    0xc0, 0x03, 0x5f, 0xd6]

theorem eq_ok_of_isOk {answer : Except ImageError Unit} (h : answer.isOk = true) :
    answer = .ok () := by
  cases answer with
  | error e => cases h
  | ok => rfl

theorem giLoad_smallest :
    (giLoad (some smallest) LoadedImage.empty).2.Faithful smallest .execute :=
  (giLoad_faithful smallest LoadedImage.empty).1.success (eq_ok_of_isOk (by decide +kernel))

end Tolkara
