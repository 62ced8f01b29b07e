import Tolkara.Cpu.Run
import Tolkara.Memory.DenseAccess

/-!
# What a fetch depends on

Two facts about the dense memory that the decode cache lives on. The fault
address is written and never read, so memories that are the `SameButFault`
behave alike. And the code generation moves with everything a fetch looks at:
a call that leaves it alone leaves the answer of every fetch alone.
-/

namespace Tolkara

namespace GuestMemory

/-! ## The fault address -/

/-- Equal up to the fault address. -/
structure SameButFault (m m' : GuestMemory) : Prop where
  pages : m'.pages = m.pages
  generation : m'.generation = m.generation
  codeGeneration : m'.codeGeneration = m.codeGeneration

theorem SameButFault.refl (m : GuestMemory) : SameButFault m m := ⟨rfl, rfl, rfl⟩

theorem SameButFault.symm {m m' : GuestMemory} (h : SameButFault m m') : SameButFault m' m :=
  ⟨h.pages.symm, h.generation.symm, h.codeGeneration.symm⟩

theorem SameButFault.trans {m m' m'' : GuestMemory} (h : SameButFault m m')
    (h' : SameButFault m' m'') : SameButFault m m'' :=
  ⟨h'.pages.trans h.pages, h'.generation.trans h.generation,
    h'.codeGeneration.trans h.codeGeneration⟩

theorem SameButFault.eq {m m' : GuestMemory} (h : SameButFault m m') :
    m' = { m with faultAddress := m'.faultAddress } := by
  obtain ⟨p, g, c, f⟩ := m'
  obtain ⟨rfl, rfl, rfl⟩ := h
  rfl

theorem sameButFault_fault (m : GuestMemory) (f : ℕ) :
    SameButFault m { m with faultAddress := f } := ⟨rfl, rfl, rfl⟩

theorem SameButFault.wf {m m' : GuestMemory} (h : SameButFault m m') (hm : m.Wf) : m'.Wf := by
  rw [h.eq]
  exact ⟨hm.sorted, hm.aligned, hm.bounded⟩

theorem accessLoop_fault (m : GuestMemory) (f : ℕ) (t : Option GMThread) (permission : Prot)
    (stop : ℕ) : ∀ (fuel a : ℕ),
      accessLoop { m with faultAddress := f } t permission stop fuel a =
        accessLoop m t permission stop fuel a := by
  intro fuel
  induction fuel with
  | zero =>
      intro a
      rfl
  | succ fuel ih =>
      intro a
      rw [accessLoop, accessLoop]
      simp only [ih]
      rfl

/-- `copy` overwrites the fault address before anything else. -/
theorem copy_fault (heap : Heap) (m : GuestMemory) (f : ℕ) (t : Option GMThread) (a : ℕ)
    (buffer : Option Buffer) (n : ℕ) (permission : Prot) (write : Bool) :
    copy heap { m with faultAddress := f } t a buffer n permission write =
      copy heap m t a buffer n permission write := by
  have haccess : accessRange { m with faultAddress := f } t a n permission =
      accessRange m t a n permission := by
    unfold accessRange
    rw [accessLoop_fault]
  unfold copy copyRange
  rw [haccess]
  rfl

theorem copy_congr (heap : Heap) {m m' : GuestMemory} (h : SameButFault m m')
    (t : Option GMThread) (a : ℕ) (buffer : Option Buffer) (n : ℕ) (permission : Prot)
    (write : Bool) :
    copy heap m' t a buffer n permission write = copy heap m t a buffer n permission write := by
  rw [h.eq, copy_fault]

theorem lower_fault (m : GuestMemory) (f a : ℕ) :
    lower { m with faultAddress := f } a = m.lower a := rfl

theorem gmMap_congr (heap : Heap) {m m' : GuestMemory} (h : SameButFault m m') (a n : ℕ)
    (prot maxprot : Prot) (jit replace : Bool) :
    SameButFault (gmMap heap m a n prot maxprot jit replace).2
      (gmMap heap m' a n prot maxprot jit replace).2 := by
  rw [h.eq]
  unfold gmMap count
  dsimp only
  rw [lower_fault m m'.faultAddress a, lower_fault m m'.faultAddress (a + n)]
  by_cases hargs : ¬ PageRange a n ∨ ¬ ProtOk prot maxprot
  · rw [if_pos hargs, if_pos hargs]
    exact ⟨rfl, rfl, rfl⟩
  rw [if_neg hargs, if_neg hargs]
  by_cases hover : replace = false ∧ m.lower a ≠ m.lower (a + n)
  · rw [if_pos hover, if_pos hover]
    exact ⟨rfl, rfl, rfl⟩
  rw [if_neg hover, if_neg hover]
  by_cases hsize : n / pageSize > uint64Max / sizeofGMPage -
      (m.pages.length - (m.lower (a + n) - m.lower a))
  · rw [if_pos hsize, if_pos hsize]
    exact ⟨rfl, rfl, rfl⟩
  rw [if_neg hsize, if_neg hsize]
  split_ifs <;> exact ⟨rfl, rfl, rfl⟩

theorem gmUnmap_congr {m m' : GuestMemory} (h : SameButFault m m') (a n : ℕ) :
    SameButFault (gmUnmap m a n).2 (gmUnmap m' a n).2 := by
  rw [h.eq]
  unfold gmUnmap
  dsimp only
  split_ifs <;> exact ⟨rfl, rfl, rfl⟩

theorem gmProtect_congr {m m' : GuestMemory} (h : SameButFault m m') (a n : ℕ) (prot : Prot) :
    SameButFault (gmProtect m a n prot).2 (gmProtect m' a n prot).2 := by
  rw [h.eq]
  unfold gmProtect slice
  dsimp only
  rw [lower_fault m m'.faultAddress a, lower_fault m m'.faultAddress (a + n)]
  by_cases hargs : ¬ PageRange a n ∨ prot &&& ~~~7#32 ≠ 0#32
  · rw [if_pos hargs, if_pos hargs]
    exact ⟨rfl, rfl, rfl⟩
  rw [if_neg hargs, if_neg hargs]
  by_cases hgap : m.lower (a + n) - m.lower a ≠ n / pageSize
  · rw [if_pos hgap, if_pos hgap]
    exact ⟨rfl, rfl, rfl⟩
  rw [if_neg hgap, if_neg hgap]
  split_ifs <;> exact ⟨rfl, rfl, rfl⟩

theorem apply_congr {m m' : GuestMemory} (h : SameButFault m m') (op : MemoryOp) :
    SameButFault (op.apply m) (op.apply m') := by
  cases op with
  | map heap a n prot maxprot jit replace => exact gmMap_congr heap h a n prot maxprot jit replace
  | unmap a n => exact gmUnmap_congr h a n
  | protect a n prot => exact gmProtect_congr h a n prot
  | write heap t a buffer n =>
      simp only [MemoryOp.apply, gmWrite, copy_congr heap h]
      exact SameButFault.refl _
  | populate heap a buffer n =>
      simp only [MemoryOp.apply, gmPopulate, copy_congr heap h]
      exact SameButFault.refl _

/-! ## The answer of a fetch -/

/-- What a fetch finds: the instruction word, or why there is none. -/
def fetchOf (m : GuestMemory) (t : GMThread) (a : ℕ) : Except GMResult (BitVec 32) :=
  let fetched := m.gmFetch (some t) a
  if fetched.1 = .ok then .ok fetched.2.2 else .error fetched.1

/-- A fetch changes nothing but the fault address. -/
theorem gmFetch_same {m : GuestMemory} (hm : m.Wf) (t : Option GMThread) (a : ℕ) :
    SameButFault m (m.gmFetch t a).2.1 := by
  unfold gmFetch
  split
  · exact sameButFault_fault m a
  · obtain ⟨f, hf⟩ := copy_read hm (fun _ => true) t a (fun _ => 0) 4 GM.EXEC
    dsimp only
    rw [hf]
    exact sameButFault_fault m f

theorem gmFetch_congr {m m' : GuestMemory} (h : SameButFault m m') (t : Option GMThread) (a : ℕ) :
    (m'.gmFetch t a).1 = (m.gmFetch t a).1 ∧ (m'.gmFetch t a).2.2 = (m.gmFetch t a).2.2 := by
  unfold gmFetch
  split
  · exact ⟨rfl, rfl⟩
  · rw [copy_congr _ h]
    exact ⟨rfl, rfl⟩

/-- The permissions of every page and the bytes of the executable ones decide
what a fetch finds. -/
theorem fetchOf_congr {m m' : GuestMemory} (hm : m.Wf) (hm' : m'.Wf)
    (hperm : ∀ b, (m'.viewAt b).map (fun v => (v.prot, v.jit)) =
      (m.viewAt b).map fun v => (v.prot, v.jit))
    (hbyte : ∀ x v, m.viewAt (pageBase x) = some v → execView v → m'.byteAt x = m.byteAt x)
    (t : GMThread) (a : ℕ) : m'.fetchOf t a = m.fetchOf t a := by
  have hanswer : m'.answer (some t) a 4 GM.EXEC = m.answer (some t) a 4 GM.EXEC := by
    unfold answer
    split
    · rfl
    · apply checkPages_congr
      intro i _
      have hdeny : deniedView (some t) GM.EXEC =
          (fun p : BitVec 8 × Bool => denied (some t) GM.EXEC p.1 p.2) ∘
            fun v => (v.prot, v.jit) := rfl
      rw [look, look, hdeny, ← Option.map_map, ← Option.map_map, hperm]
  unfold fetchOf gmFetch
  split
  · rfl
  · obtain ⟨f, hf⟩ := copy_read hm (fun _ => true) (some t) a (fun _ => 0) 4 GM.EXEC
    obtain ⟨f', hf'⟩ := copy_read hm' (fun _ => true) (some t) a (fun _ => 0) 4 GM.EXEC
    dsimp only
    rw [hf, hf', hanswer]
    dsimp only
    by_cases hok : m.answer (some t) a 4 GM.EXEC = .ok
    · rw [if_pos hok, if_pos hok, if_pos hok, if_pos hok]
      have hbytes : ((List.range 4).map fun i => m'.byteAt (a + i)) =
          (List.range 4).map fun i => m.byteAt (a + i) := by
        apply List.map_congr_left
        intro i hi
        rw [List.mem_range] at hi
        obtain ⟨v, hv, hd⟩ := exists_view_of_answer hok (x := a + i) (by omega) (by omega)
        apply hbyte _ v hv
        simp only [deniedView, denied, Bool.or_eq_false_iff, bne_eq_false_iff_eq] at hd
        unfold execView
        rw [hd.1]
        decide
      rw [hbytes]
    · rw [if_neg hok, if_neg hok]

/-! ## The code generation -/

/-- What one call does to the code: it moves the code generation, or leaves every
fetch as it was. -/
structure CodeStep (m m' : GuestMemory) : Prop where
  wf : m'.Wf
  le : m.codeGeneration ≤ m'.codeGeneration
  fetch : m'.codeGeneration = m.codeGeneration → ∀ t a, m'.fetchOf t a = m.fetchOf t a

theorem CodeStep.refl {m : GuestMemory} (hm : m.Wf) : CodeStep m m :=
  ⟨hm, le_rfl, fun _ _ _ => rfl⟩

theorem CodeStep.trans {m m' m'' : GuestMemory} (h : CodeStep m m') (h' : CodeStep m' m'') :
    CodeStep m m'' := by
  refine ⟨h'.wf, le_trans h.le h'.le, ?_⟩
  intro heq t a
  have h1 := h.le
  have h2 := h'.le
  rw [h'.fetch (by omega), h.fetch (by omega)]

theorem CodeStep.of_same {m m' : GuestMemory} (hm : m.Wf) (h : SameButFault m m') :
    CodeStep m m' := by
  refine ⟨h.wf hm, h.codeGeneration.ge, ?_⟩
  intro _ t a
  obtain ⟨h1, h2⟩ := gmFetch_congr h (some t) a
  unfold fetchOf
  dsimp only
  rw [h1, h2]

/-- A mapping call that succeeds moves the code generation. -/
theorem codeStep_of_succ {m m' : GuestMemory} (hm : m.Wf)
    (h : m' = m ∨ m'.Wf ∧ m'.codeGeneration = m.codeGeneration + 1) : CodeStep m m' := by
  rcases h with rfl | ⟨hwf, hgen⟩
  · exact CodeStep.refl hm
  · exact ⟨hwf, by omega, fun heq => by omega⟩

theorem gmMap_codeStep {m : GuestMemory} (hm : m.Wf) (heap : Heap) (a n : ℕ)
    (prot maxprot : Prot) (jit replace : Bool) :
    CodeStep m (gmMap heap m a n prot maxprot jit replace).2 := by
  apply codeStep_of_succ hm
  have hgen : (gmMap heap m a n prot maxprot jit replace).2 = m ∨
      (gmMap heap m a n prot maxprot jit replace).2 =
        (gmMap (fun _ => true) m a n prot maxprot jit replace).2 ∧
      (gmMap heap m a n prot maxprot jit replace).2.codeGeneration = m.codeGeneration + 1 := by
    unfold gmMap
    dsimp only
    split_ifs <;> first | contradiction | simp
  rcases hgen with heq | ⟨heq, hgen⟩
  · exact .inl heq
  · refine .inr ⟨?_, hgen⟩
    rw [heq]
    rcases gmMap_spec hm a n prot maxprot jit replace with ⟨-, h⟩ | ⟨-, -, -, -, h⟩ |
      ⟨-, -, -, m', h, hwf, -⟩
    · rw [h]
      exact hm
    · rw [h]
      exact hm
    · rw [h]
      exact hwf

theorem gmUnmap_codeStep {m : GuestMemory} (hm : m.Wf) (a n : ℕ) :
    CodeStep m (gmUnmap m a n).2 := by
  apply codeStep_of_succ hm
  by_cases hr : PageRange a n
  · right
    obtain ⟨m', heq, hwf, -⟩ := gmUnmap_spec hm a n hr
    refine ⟨by rw [heq]; exact hwf, ?_⟩
    unfold gmUnmap
    rw [if_neg (not_not.2 hr)]
  · left
    unfold gmUnmap
    rw [if_pos hr]

theorem gmProtect_codeStep {m : GuestMemory} (hm : m.Wf) (a n : ℕ) (prot : Prot) :
    CodeStep m (gmProtect m a n prot).2 := by
  apply codeStep_of_succ hm
  by_cases hr : PageRange a n ∧ prot &&& ~~~7#32 = 0#32
  · rcases gmProtect_spec hm a n prot hr.1 hr.2 with ⟨-, heq⟩ | ⟨-, -, heq⟩ |
      ⟨-, -, m', heq, hwf, -⟩
    · exact .inl (by rw [heq])
    · exact .inl (by rw [heq])
    · right
      refine ⟨by rw [heq]; exact hwf, ?_⟩
      have hok : (gmProtect m a n prot).1 = .ok := by rw [heq]
      unfold gmProtect at hok ⊢
      dsimp only at hok ⊢
      split_ifs at hok ⊢
      rfl
  · left
    unfold gmProtect
    rw [if_pos (by tauto)]

theorem copy_codeStep {m : GuestMemory} (hm : m.Wf) (heap : Heap) (t : Option GMThread) (a : ℕ)
    (buffer : Option Buffer) (n : ℕ) (permission : Prot) :
    CodeStep m (m.copy heap t a buffer n permission true).2.1 := by
  obtain ⟨r, m', heq, hwf, hcases⟩ := copy_write hm heap t a buffer n permission
  rw [heq]
  have halike : Alike m m' → CodeStep m m' := by
    intro h
    refine ⟨hwf, h.codeGeneration.ge, fun _ t a => fetchOf_congr hm hwf ?_ ?_ t a⟩
    · intro b
      rw [h.views]
    · intro x v _ _
      rw [byteAt, byteAt, h.views]
  rcases hcases with ⟨h, -⟩ | ⟨h, -⟩ | ⟨b, -, -, -, -, hw⟩
  · exact halike h
  · exact halike h
  · rcases hw.codeGeneration with hgen | ⟨hgen, hno⟩
    · exact codeStep_of_succ hm (.inr ⟨hwf, hgen⟩)
    · refine ⟨hwf, hgen.ge, fun _ u y => fetchOf_congr hm hwf ?_ ?_ u y⟩
      · intro b'
        rw [hw.views, Option.map_map]
        rfl
      · intro x v hv hexec
        have hmod := Nat.mod_lt x (show 0 < pageSize by decide)
        have hoff : pageBase x + x % pageSize = x := Nat.sub_add_cancel (Nat.mod_le x pageSize)
        have hout : ¬ (a ≤ x ∧ x < a + n) := fun hin => hno x v hin.1 hin.2 hv hexec
        rw [byteAt_of_view hv, byteAt, hw.views, hv]
        simp [stored, overwrite, hoff, hout]

theorem apply_codeStep {m : GuestMemory} (hm : m.Wf) (op : MemoryOp) :
    CodeStep m (op.apply m) := by
  cases op with
  | map heap a n prot maxprot jit replace =>
      exact gmMap_codeStep hm heap a n prot maxprot jit replace
  | unmap a n => exact gmUnmap_codeStep hm a n
  | protect a n prot => exact gmProtect_codeStep hm a n prot
  | write heap t a buffer n => exact copy_codeStep hm heap t a buffer n GM.WRITE
  | populate heap a buffer n => exact copy_codeStep hm heap none a buffer n 0#32

end GuestMemory

end Tolkara
