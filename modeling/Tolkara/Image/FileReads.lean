import Tolkara.Image.FileCommands

/-!
# What the loader reads

The loader never looks beyond the end of its file (`load_staysWithin`): every range it
reads is one that a check before it has put inside the slice.
-/

namespace Tolkara

open Library

/-! ## The slice -/

theorem fatLoop_staysWithin {fileSize count recordSize left i : ℕ} {found : Option (ℕ × ℕ)}
    (hle : 8 + (i + left) * recordSize ≤ fileSize) :
    StaysWithin fileSize fun read => fatLoop read fileSize count recordSize left i found := by
  induction left generalizing i found with
  | zero => exact .const _
  | succ left ih =>
      have hhere : 8 + i * recordSize + recordSize ≤ fileSize := by
        have : (i + (left + 1)) * recordSize = i * recordSize + recordSize + left * recordSize := by
          ring
        omega
      have hnext : 8 + (i + 1 + left) * recordSize ≤ fileSize := by
        rwa [Nat.add_right_comm i 1 left, Nat.add_assoc i left 1]
      unfold fatLoop
      refine .read hhere fun arch => .ite (fun _ => ih hnext) fun _ => ?_
      exact .need fun _ => .need fun _ => ih hnext

theorem chooseSlice_staysWithin {fileSize : ℕ} (h : 8 ≤ fileSize) :
    StaysWithin fileSize fun read => chooseSlice read fileSize := by
  refine .read (by omega) fun head => .ite (fun _ => ?_) fun _ => .const _
  refine .need fun hcount => .bind (fatLoop_staysWithin ?_) fun _ _ _ => .const _
  rw [Nat.zero_add]
  exact isWithin_iff.1 hcount.2.2

/-! ## The commands -/

namespace Loading

variable {total : ℕ}

theorem sectionLoop_staysWithin {sliceSize : ℕ} {s : SegmentCommand} {left cursor : ℕ}
    {l : Loading} (hle : cursor + left * 80 ≤ total) :
    StaysWithin total fun read => sectionLoop read sliceSize s left cursor l := by
  induction left generalizing cursor l with
  | zero => exact .const _
  | succ left ih =>
      refine .read (by omega) fun b => .bind (.const _) fun l' _ _ => ih ?_
      omega

variable {x : Context} (hle : x.cursor + x.cmdsize ≤ total) (l : Loading)

include hle

theorem addSegment_staysWithin : StaysWithin total fun read =>
    addSegment read x l := by
  refine .need fun h72 => .read ?_ fun b => .need fun hsects => ?_
  · exact (Nat.add_le_add_left h72 _).trans hle
  · refine .bind (.const _) fun c _ _ => sectionLoop_staysWithin ?_
    omega

theorem addDylib_staysWithin (reexport : Bool) : StaysWithin total fun read =>
    addDylib read x l reexport := by
  refine .need fun h => .read ?_ fun b => .need fun hoffset => .read ?_ fun name => .const _
  · exact (Nat.add_le_add_left h.2 _).trans hle
  · omega

theorem addRpath_staysWithin : StaysWithin total fun read =>
    addRpath read x l := by
  refine .need fun h => .read ?_ fun b => .need fun hoffset => .need fun _ =>
    .read ?_ fun path => .const _
  · exact (Nat.add_le_add_left h _).trans hle
  · omega

theorem addMain_staysWithin : StaysWithin total fun read =>
    addMain read x l := by
  refine .need fun h => .read ?_ fun b => .const _
  exact (Nat.add_le_add_left h.2 _).trans hle

theorem addDyldInfo_staysWithin : StaysWithin total fun read =>
    addDyldInfo read x l := by
  refine .need fun h => .read ?_ fun b => .const _
  exact (Nat.add_le_add_left h _).trans hle

theorem linkeditData_staysWithin (e : ImageError) : StaysWithin total fun read =>
    linkeditData read x e := by
  refine .need fun h => .read ?_ fun b => .const _
  exact (Nat.add_le_add_left h _).trans hle

theorem addEncryptionInfo_staysWithin : StaysWithin total fun read =>
    addEncryptionInfo read x l := by
  refine .need fun h => .read ?_ fun b => .const _
  exact (Nat.add_le_add_left h _).trans hle

theorem addCommand_staysWithin (cmd : ℕ) : StaysWithin total fun read =>
    addCommand read x l cmd := by
  refine .ite (fun _ => addSegment_staysWithin hle l) fun _ => ?_
  refine .ite (fun _ => addDylib_staysWithin hle l _) fun _ => ?_
  refine .ite (fun _ => addRpath_staysWithin hle l) fun _ => ?_
  refine .ite (fun _ => addMain_staysWithin hle l) fun _ => ?_
  refine .ite (fun _ => addDyldInfo_staysWithin hle l) fun _ => ?_
  refine .ite (fun _ => ?_) fun _ => ?_
  · exact .need fun _ => .bind (linkeditData_staysWithin hle _) fun _ _ _ => .const _
  refine .ite (fun _ => ?_) fun _ => ?_
  · exact .need fun _ => .bind (linkeditData_staysWithin hle _) fun _ _ _ => .const _
  exact .ite (fun _ => addEncryptionInfo_staysWithin hle l) fun _ => .const _

end Loading

theorem commandLoop_staysWithin {sliceSize commandsEnd left cursor : ℕ} {l : Loading}
    (hle : commandsEnd ≤ sliceSize) : StaysWithin sliceSize fun read =>
      commandLoop read sliceSize commandsEnd left cursor l := by
  induction left generalizing cursor l with
  | zero => exact .const _
  | succ left ih =>
      refine .need fun h8 => .read ((isWithin_iff.1 h8).trans hle) fun lc => .need fun h => ?_
      refine .bind (Loading.addCommand_staysWithin ((isWithin_iff.1 h.2.2).trans hle) l _) ?_
      exact fun l' _ _ => ih

/-! ## The contents -/

theorem populateLoop_staysWithin {s : GISegment} {total : ℕ}
    (hle : s.fileOffset + s.fileSize ≤ total) (rounds off : ℕ) (memory : GuestMemory) :
    StaysWithin total fun read => populateLoop read s rounds off memory := by
  intro read read' hagree
  dsimp only
  induction rounds generalizing off memory with
  | zero => rfl
  | succ rounds ih =>
      unfold populateLoop
      split
      · dsimp only
        rw [hagree (s.fileOffset + off) (min 65536 (s.fileSize - off)) (by omega)]
        split
        · rfl
        · split
          · exact ih _ _
          · rfl
      · rfl

theorem mapLoop_staysWithin {kind : ImageKind} {total : ℕ} {rest : List GISegment}
    (hle : ∀ s ∈ rest, Inside total (s.fileOffset, s.fileSize)) (earlier : List GISegment)
    (memory : GuestMemory) (mapped : ℕ) :
    StaysWithin total fun read => mapLoop kind read earlier rest memory mapped := by
  induction rest generalizing earlier memory mapped with
  | nil => exact .const _
  | cons s rest ih =>
      have hrest := ih fun t ht => hle t (List.mem_cons_of_mem _ ht)
      have hpopulate := populateLoop_staysWithin (hle s List.mem_cons_self) s.fileSize 0
      unfold mapLoop
      refine .ite (fun _ => .const _) fun _ => .ite (fun _ => .ite (fun _ => .const _)
        fun _ => hrest _ _ _) fun _ => .ite (fun _ => hrest _ _ _) fun _ => .ite (fun _ => .const _)
        fun _ => ?_
      intro read read' hagree
      dsimp only
      split
      · rename_i memory' _
        have hfilled : populateLoop read s s.fileSize 0 memory' =
            populateLoop read' s s.fileSize 0 memory' := hpopulate memory' read read' hagree
        rw [hfilled]
        split
        · rfl
        · exact hrest _ _ _ read read' hagree
      · rfl

theorem loadSlice_staysWithin (kind : ImageKind) (slice : ℕ × ℕ) :
    StaysWithin slice.2 fun read => loadSlice read kind slice := by
  refine .need fun h32 => .read (by omega) fun b => .need fun _ => .need fun hcommands => ?_
  have hend := isWithin_iff.1 hcommands.2.2.2
  refine .bind (commandLoop_staysWithin hend) ?_
  rintro ⟨l, cursor⟩ read hloop
  have hl := commandLoop_sound (Loading.sound_start kind slice ⟨b⟩ _) hloop
  refine .need fun _ => .bind (.const _) fun header _ _ => ?_
  refine .bind ?_ fun exports _ _ => ?_
  · unfold readExports
    cases hrange : l.exportRange with
    | none => exact .const _
    | some range =>
        refine .ite (fun _ => .const _) fun _ => .need fun _ => .read ?_ fun b => .const _
        exact hl.exports range hrange
  · refine .bind (.mapError (mapLoop_staysWithin hl.segments [] GuestMemory.fresh 0) _) ?_
    exact fun memory _ _ => .const _

/-- The loader looks at nothing beyond the end of the file. -/
theorem load_staysWithin (fileSize : ℕ) (kind : ImageKind) :
    StaysWithin fileSize fun read => load read fileSize kind := by
  refine .need fun h32 => .bind (chooseSlice_staysWithin (by omega)) fun slice read hslice => ?_
  exact .skip (chooseSlice_inside hslice) (loadSlice_staysWithin kind slice)

end Tolkara
