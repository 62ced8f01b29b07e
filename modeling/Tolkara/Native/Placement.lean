import Tolkara.Native.Layout

/-!
# Placement in the arena

What is placed in an arena stays inside it, and the executable, the libraries, the code
pool and the probe page do not touch one another, exactly when the layout fits in 64
bits and the executable has nothing to place outside the reach of its accessible
segments from its header on. A placement that a page outside the arena ends early has
placed less.
-/

namespace Tolkara

open Library

/-! ## The layout -/

namespace GuestImage

/-- A loaded image; since then only the contents of its pages have changed. -/
def LoadedAs (kind : ImageKind) (image : GuestImage) : Prop :=
  ∃ sliceSize sizeofcmds commands readAt loaded,
    loadSegments kind sliceSize sizeofcmds commands readAt = .ok loaded ∧
    image.segments = loaded.segments ∧ image.headerAddress = loaded.headerAddress ∧
    image.memory.pages.map GMPage.address = loaded.memory.pages.map GMPage.address

theorem LoadedAs.accepted {kind : ImageKind} {image : GuestImage} (h : image.LoadedAs kind) :
    image.Accepted kind := by
  obtain ⟨_, _, _, _, loaded, hload, hsegments, hheader, hpages⟩ := h
  have hloaded := loadSegments_accepted hload
  refine ⟨?_, ?_, ?_, ?_, ?_, hloaded.wf.of_addresses hpages, ?_⟩
  · rw [hsegments]
    exact hloaded.bounded
  · rw [hsegments]
    exact hloaded.aligned
  · rw [hsegments]
    exact hloaded.zero
  · rw [hsegments]
    exact hloaded.high
  · rw [hsegments, hheader]
    exact hloaded.header
  · rw [hsegments]
    intro p hp
    have hmem : p.address ∈ loaded.memory.pages.map GMPage.address := by
      rw [← hpages]
      exact List.mem_map_of_mem hp
    obtain ⟨q, hq, heq⟩ := List.mem_map.mp hmem
    rw [← heq]
    exact hloaded.pages q hq

/-- One round of the loop for the end never lowers it. -/
theorem accessibleEnd_foldl (segments : List GISegment) (start : ℕ) :
    start ≤ segments.foldl (fun stop s =>
      if s.prot ≠ 0#32 ∧ stop < s.address + s.size then s.address + s.size else stop) start ∧
    (∀ s ∈ segments, s.prot ≠ 0#32 → s.address + s.size ≤ segments.foldl (fun stop s =>
      if s.prot ≠ 0#32 ∧ stop < s.address + s.size then s.address + s.size else stop) start) ∧
    (segments.foldl (fun stop s =>
      if s.prot ≠ 0#32 ∧ stop < s.address + s.size then s.address + s.size else stop) start =
        start ∨ ∃ s ∈ segments, segments.foldl (fun stop s =>
      if s.prot ≠ 0#32 ∧ stop < s.address + s.size then s.address + s.size else stop) start =
        s.address + s.size) := by
  induction segments generalizing start with
  | nil => exact ⟨le_rfl, fun _ hs => absurd hs List.not_mem_nil, Or.inl rfl⟩
  | cons s rest ih =>
      rw [List.foldl_cons]
      obtain ⟨hle, hall, hreach⟩ := ih (if s.prot ≠ 0#32 ∧ start < s.address + s.size then
        s.address + s.size else start)
      refine ⟨?_, ?_, ?_⟩
      · refine le_trans ?_ hle
        split_ifs with h
        · exact h.2.le
        · exact le_rfl
      · intro t ht hprot
        rcases List.mem_cons.mp ht with rfl | hmem
        · refine le_trans ?_ hle
          split_ifs with h
          · exact le_rfl
          · exact not_lt.mp fun hlt => h ⟨hprot, hlt⟩
        · exact hall t hmem hprot
      · rcases hreach with heq | ⟨t, ht, heq⟩
        · rw [heq]
          split_ifs with h
          · exact Or.inr ⟨s, List.mem_cons_self, rfl⟩
          · exact Or.inl rfl
        · exact Or.inr ⟨t, List.mem_cons_of_mem _ ht, heq⟩

/-- The end of the accessible segments of an accepted image. -/
structure EndSpec (image : GuestImage) : Prop where
  header_lt : image.headerAddress < image.accessibleEnd
  reach : ∀ s ∈ image.segments, s.prot ≠ 0#32 → s.address + s.size ≤ image.accessibleEnd
  bounded : image.accessibleEnd ≤ uint64Max
  aligned : image.accessibleEnd % pageSize = 0
  header_aligned : image.headerAddress % pageSize = 0

theorem Accepted.endSpec {kind : ImageKind} {image : GuestImage} (h : image.Accepted kind) :
    image.EndSpec := by
  obtain ⟨hle, hreach, hcases⟩ := accessibleEnd_foldl image.segments image.headerAddress
  obtain ⟨t, ht, hmapped, hexec, heq⟩ := h.header
  have htop := h.bounded t ht
  have htalign := (h.aligned t ht).1
  refine ⟨?_, hreach, ?_, ?_, ?_⟩
  · have hprot : t.prot ≠ 0#32 := by
      intro hzero
      rw [hzero] at hexec
      exact hexec BitVec.zero_and
    have hend := hreach t ht hprot
    have hsize : t.size ≠ 0 := hmapped.1
    rw [accessibleEnd]
    omega
  · rcases hcases with hstart | ⟨s, hs, hstop⟩
    · rw [accessibleEnd, hstart]
      omega
    · rw [accessibleEnd, hstop]
      exact h.bounded s hs
  · rcases hcases with hstart | ⟨s, hs, hstop⟩
    · rw [accessibleEnd, hstart, ← heq]
      exact htalign
    · rw [accessibleEnd, hstop]
      have halign := h.aligned s hs
      unfold pageSize at *
      omega
  · rw [← heq]
    exact htalign

theorem extentLoop_spec (segments : List GISegment) (start stop : ℕ) :
    (extentLoop segments (start, stop)).1 ≤ start ∧
    stop ≤ (extentLoop segments (start, stop)).2 ∧
    ∀ s ∈ segments, s.Mapped → (extentLoop segments (start, stop)).1 ≤ s.address ∧
      s.address + s.size ≤ (extentLoop segments (start, stop)).2 := by
  induction segments generalizing start stop with
  | nil => exact ⟨le_rfl, le_rfl, fun _ hs => absurd hs List.not_mem_nil⟩
  | cons s rest ih =>
      rw [extentLoop]
      by_cases hskip : s.size = 0 ∨ s.name = ascii "__PAGEZERO"
      · rw [if_pos hskip]
        obtain ⟨hlow, hhigh, hall⟩ := ih start stop
        refine ⟨hlow, hhigh, fun t ht hmapped => ?_⟩
        rcases List.mem_cons.mp ht with rfl | hmem
        · exact absurd hskip (not_or.mpr hmapped)
        · exact hall t hmem hmapped
      · rw [if_neg hskip]
        have hmin : (if s.address < start then s.address else start) ≤ start ∧
            (if s.address < start then s.address else start) ≤ s.address := by
          split_ifs <;> omega
        have hmax : stop ≤ (if stop < s.address + s.size then s.address + s.size else stop) ∧
            s.address + s.size ≤
              (if stop < s.address + s.size then s.address + s.size else stop) := by
          split_ifs <;> omega
        obtain ⟨hlow, hhigh, hall⟩ := ih (if s.address < start then s.address else start)
          (if stop < s.address + s.size then s.address + s.size else stop)
        refine ⟨hlow.trans hmin.1, hmax.1.trans hhigh, fun t ht hmapped => ?_⟩
        rcases List.mem_cons.mp ht with rfl | hmem
        · exact ⟨hlow.trans hmin.2, hmax.2.trans hhigh⟩
        · exact hall t hmem hmapped

theorem giExtent_covers {image : GuestImage} {s : GISegment} (hs : s ∈ image.segments)
    (hmapped : s.Mapped) : image.giExtent.2 ≤ s.address ∧
      s.address + s.size ≤ image.giExtent.2 + image.giExtent.1 := by
  obtain ⟨-, -, hall⟩ := extentLoop_spec image.segments uint64Max 0
  obtain ⟨hlow, hhigh⟩ := hall s hs hmapped
  have hsize : s.size ≠ 0 := hmapped.1
  rw [giExtent]
  generalize extentLoop image.segments (uint64Max, 0) = reach at hlow hhigh
  obtain ⟨start, stop⟩ := reach
  dsimp only at hlow hhigh ⊢
  rw [if_neg (by omega)]
  dsimp only
  unfold pageSize
  omega

end GuestImage

def LibraryPlace.slot (arena : NativeCodeMemory) (p : LibraryPlace) : ℕ × ℕ :=
  (arena.executable + p.offset, p.image.giExtent.1)

/-- What the arena sets aside beside the executable. -/
def Layout.slots (arena : NativeCodeMemory) (l : Layout) : List (ℕ × ℕ) :=
  l.libraries.map (LibraryPlace.slot arena) ++
    [(arena.executable + l.poolOffset, l.poolSize),
      (arena.executable + l.probeOffset, l.probeSize)]

theorem placeLibraries_tiles (arena : NativeCodeMemory) (libraries : List GuestImage)
    (total : ℕ) : Tiles (arena.executable + total)
      ((placeLibraries id total libraries).1.map (LibraryPlace.slot arena))
      (arena.executable + (placeLibraries id total libraries).2) := by
  induction libraries generalizing total with
  | nil => exact rfl
  | cons image rest ih =>
      refine ⟨rfl, ?_⟩
      have hrest := ih (total + image.giExtent.1)
      rw [← Nat.add_assoc] at hrest
      exact hrest

/-- Every library gets a place at its lowest address. -/
theorem placeLibraries_mem {wrap : ℕ → ℕ} {libraries : List GuestImage} {total : ℕ}
    {p : LibraryPlace} (hp : p ∈ (placeLibraries wrap total libraries).1) :
    p.image ∈ libraries ∧ p.low = p.image.giExtent.2 := by
  induction libraries generalizing total with
  | nil => exact absurd hp List.not_mem_nil
  | cons image rest ih =>
      rcases List.mem_cons.mp hp with rfl | hmem
      · exact ⟨List.mem_cons_self, rfl⟩
      · obtain ⟨hin, hlow⟩ := ih hmem
        exact ⟨List.mem_cons_of_mem _ hin, hlow⟩

theorem le_placeLibraries (libraries : List GuestImage) (total : ℕ) :
    total ≤ (placeLibraries id total libraries).2 := by
  induction libraries generalizing total with
  | nil => exact le_rfl
  | cons image rest ih => exact (Nat.le_add_right _ _).trans (ih (total + image.giExtent.1))

theorem wrap64_eq {n : ℕ} (h : n ≤ uint64Max) : wrap64 n = n := Nat.mod_eq_of_lt (by omega)

theorem wrap64_le (n : ℕ) : wrap64 n ≤ uint64Max :=
  Nat.le_of_lt_succ (Nat.mod_lt _ (Nat.succ_pos _))

/-- Without a wrap at the end there is none on the way. -/
theorem placeLibraries_wrap64 {libraries : List GuestImage} {total : ℕ}
    (h : (placeLibraries id total libraries).2 ≤ uint64Max) :
    placeLibraries wrap64 total libraries = placeLibraries id total libraries := by
  induction libraries generalizing total with
  | nil => rfl
  | cons image rest ih =>
      have hsum : (placeLibraries id (total + image.giExtent.1) rest).2 ≤ uint64Max := h
      have hfits : total + image.giExtent.1 ≤ uint64Max :=
        (le_placeLibraries rest _).trans hsum
      rw [placeLibraries, placeLibraries]
      dsimp only [id]
      rw [wrap64_eq hfits, ih hsum]

def LayoutFits (executable : GuestImage) (libraries : List GuestImage) (codePoolSize : ℕ)
    (jitProbe : Bool) : Prop :=
  (layout id executable libraries codePoolSize jitProbe).total ≤ uint64Max ∧
    (codePoolSize ≠ 0 → codePoolSize + pageSize - 1 ≤ uint64Max)

theorem layout_wrap64_iff (executable : GuestImage) (libraries : List GuestImage)
    (codePoolSize : ℕ) (jitProbe : Bool) :
    layout wrap64 executable libraries codePoolSize jitProbe =
        layout id executable libraries codePoolSize jitProbe ↔
      LayoutFits executable libraries codePoolSize jitProbe := by
  constructor
  · intro heq
    refine ⟨?_, fun hpool => ?_⟩
    · rw [← heq]
      exact wrap64_le _
    · have hsize := congrArg Layout.poolSize heq
      simp only [layout, placeRest, if_pos hpool, id] at hsize
      have hle := wrap64_le (codePoolSize + pageSize - 1)
      unfold pageSize uint64Max at *
      omega
  · rintro ⟨htotal, hpool⟩
    have hpoolSize : (if codePoolSize ≠ 0 then
          wrap64 (codePoolSize + pageSize - 1) / pageSize * pageSize else 0) =
        if codePoolSize ≠ 0 then id (codePoolSize + pageSize - 1) / pageSize * pageSize else 0 := by
      by_cases h : codePoolSize ≠ 0
      · rw [if_pos h, if_pos h, wrap64_eq (hpool h)]
        rfl
      · rw [if_neg h, if_neg h]
    unfold layout placeRest at htotal ⊢
    dsimp only [id] at htotal hpoolSize
    rw [placeLibraries_wrap64 (by omega)]
    dsimp only [id]
    rw [hpoolSize, wrap64_eq (by omega), wrap64_eq (by omega)]

theorem layout_tiles (arena : NativeCodeMemory) (executable : GuestImage)
    (libraries : List GuestImage) (codePoolSize : ℕ) (jitProbe : Bool) :
    Tiles (arena.executable + (executable.accessibleEnd - executable.headerAddress))
      ((layout id executable libraries codePoolSize jitProbe).slots arena)
      (arena.executable + (layout id executable libraries codePoolSize jitProbe).total) := by
  refine (placeLibraries_tiles arena libraries _).append ⟨rfl, ?_, ?_⟩
  · exact (Nat.add_assoc _ _ _).symm
  · change arena.executable + _ + _ + _ = arena.executable + (_ + _ + _)
    rw [Nat.add_assoc, Nat.add_assoc, Nat.add_assoc]
    rfl

/-! ## The calls that are made -/

namespace PlacementCall

/-- A call that does not end the placement, if the kernel agrees. -/
def Fits (arena : NativeCodeMemory) : PlacementCall → Prop
  | write _ offset _ => offset + pageSize ≤ arena.size
  | protect _ _ _ _ => True

end PlacementCall

theorem ncWriteFits_iff (arena : NativeCodeMemory) (offset : ℕ) :
    arena.ncWriteFits offset pageSize = true ↔ offset + pageSize ≤ arena.size := by
  rw [NativeCodeMemory.ncWriteFits, decide_eq_true_eq]
  unfold pageSize
  omega

variable {arena : NativeCodeMemory} {mprotect : ℕ → ℕ → Prot → Bool}

theorem mem_performed {l : List PlacementCall} {c : PlacementCall}
    (hc : c ∈ performed arena mprotect l) : c ∈ l ∧ c.Fits arena := by
  induction l with
  | nil => exact absurd hc List.not_mem_nil
  | cons d rest ih =>
      cases d with
      | write owner offset bytes =>
          rw [performed] at hc
          split at hc
          · rename_i hfits
            rcases List.mem_cons.mp hc with rfl | hmem
            · exact ⟨List.mem_cons_self, (ncWriteFits_iff arena offset).mp hfits⟩
            · obtain ⟨hin, hok⟩ := ih hmem
              exact ⟨List.mem_cons_of_mem _ hin, hok⟩
          · exact absurd hc List.not_mem_nil
      | protect owner address size prot =>
          rw [performed] at hc
          rcases List.mem_cons.mp hc with rfl | hmem
          · exact ⟨List.mem_cons_self, trivial⟩
          · split at hmem
            · obtain ⟨hin, hok⟩ := ih hmem
              exact ⟨List.mem_cons_of_mem _ hin, hok⟩
            · exact absurd hmem List.not_mem_nil

/-- A later call is made only when every earlier page was written. -/
theorem mem_performed_append {l l' : List PlacementCall} {c : PlacementCall}
    (hc : c ∈ performed arena mprotect (l ++ l')) :
    c ∈ l ∨ c ∈ performed arena mprotect l' ∧ ∀ d ∈ l, d.Fits arena := by
  induction l with
  | nil => exact Or.inr ⟨hc, fun _ hd => absurd hd List.not_mem_nil⟩
  | cons d rest ih =>
      have hstep : c = d ∨ d.Fits arena ∧ c ∈ performed arena mprotect (rest ++ l') := by
        cases d with
        | write owner offset bytes =>
            rw [List.cons_append, performed] at hc
            split at hc
            · rename_i hfits
              exact (List.mem_cons.mp hc).imp_right
                fun hmem => ⟨(ncWriteFits_iff arena offset).mp hfits, hmem⟩
            · exact absurd hc List.not_mem_nil
        | protect owner address size prot =>
            rw [List.cons_append, performed] at hc
            refine (List.mem_cons.mp hc).imp_right fun hmem => ⟨trivial, ?_⟩
            split at hmem
            · exact hmem
            · exact absurd hmem List.not_mem_nil
      rcases hstep with rfl | ⟨hfits, hmem⟩
      · exact Or.inl List.mem_cons_self
      · rcases ih hmem with hin | ⟨hlater, hall⟩
        · exact Or.inl (List.mem_cons_of_mem _ hin)
        · refine Or.inr ⟨hlater, fun e he => ?_⟩
          rcases List.mem_cons.mp he with rfl | hin
          · exact hfits
          · exact hall e hin

/-- When the kernel refuses nothing, a call is made once the pages before it fit. -/
theorem performed_append_of_fits {l : List PlacementCall} (l' : List PlacementCall)
    (h : ∀ d ∈ l, d.Fits arena) :
    performed arena (fun _ _ _ => true) (l ++ l') = l ++ performed arena (fun _ _ _ => true) l' := by
  induction l with
  | nil => rfl
  | cons d rest ih =>
      have hrest := ih fun e he => h e (List.mem_cons_of_mem _ he)
      have hd := h d List.mem_cons_self
      cases d with
      | write owner offset bytes =>
          rw [List.cons_append, performed, if_pos ((ncWriteFits_iff arena offset).mpr hd), hrest]
          rfl
      | protect owner address size prot =>
          rw [List.cons_append, performed, if_pos rfl, hrest]
          rfl

/-! ## Contained and apart -/

/-- How an arena was prepared for a layout. A signed container is made for one
executable alone, whose only executable segment is its `__TEXT`. -/
structure ArenaReady (arena : NativeCodeMemory) (signed : Option SignedImage)
    (executable : GuestImage) (l : Layout) : Prop where
  enough : l.total ≤ arena.size
  limit : signed = none → arena.size ≤ ncMaxArena
  container : ∀ i, signed = some i → arena.size = l.total ∧ l.libraries = [] ∧ l.poolSize = 0 ∧
    ∀ s ∈ executable.segments, s.prot &&& GM.EXEC ≠ 0#32 →
      s.address = executable.headerAddress ∧ s.size = i.size

/-- The calls stay inside the arena, and inside what is set aside for their image. -/
structure PlacedApart (arena : NativeCodeMemory) (l : Layout) (calls : List PlacementCall) :
    Prop where
  inside : ∀ c ∈ calls, (c.range arena).2 ≠ 0 → arena.executable ≤ (c.range arena).1 ∧
    (c.range arena).1 + (c.range arena).2 ≤ arena.executable + l.total
  slots : (l.slots arena).Pairwise Apart
  executable : ∀ c ∈ calls, c.owner = none → (c.range arena).2 ≠ 0 →
    ∀ r ∈ l.slots arena, Apart (c.range arena) r
  library : ∀ c ∈ calls, ∀ p, c.owner = some p → p ∈ l.libraries ∧
    ((c.range arena).2 ≠ 0 → (p.slot arena).1 ≤ (c.range arena).1 ∧
      (c.range arena).1 + (c.range arena).2 ≤ (p.slot arena).1 + (p.slot arena).2)

/-- The condition on the executable. A page below the header is refused before anything
is placed; a page past the accessible end must be refused too, and then ends the placement
before the protections, which need the header to be the lowest accessible address. -/
def ExecutablePlaceable (arena : NativeCodeMemory) (executable : GuestImage) : Prop :=
  (∃ p ∈ executable.memory.pages, p.bytes.isSome ∧ p.address < executable.headerAddress) ∨
    (∀ p ∈ executable.memory.pages, p.bytes.isSome → executable.accessibleEnd ≤ p.address →
      arena.size < p.address - executable.headerAddress + pageSize) ∧
    ((∃ p ∈ executable.memory.pages, p.bytes.isSome ∧
        executable.accessibleEnd ≤ p.address) ∨
      ∀ s ∈ executable.segments, s.prot ≠ 0#32 → s.size ≠ 0 →
        executable.headerAddress ≤ s.address)

/-- The condition of a placement; with `--jit-probe` there is none to make. -/
def Placeable (arena : NativeCodeMemory) (executable : GuestImage) (libraries : List GuestImage)
    (codePoolSize : ℕ) (jitProbe : Bool) : Prop :=
  LayoutFits executable libraries codePoolSize jitProbe ∧
    (jitProbe = true ∨ ExecutablePlaceable arena executable)

theorem sub64_eq {a b : ℕ} (h : b ≤ a) (ha : a ≤ uint64Max) : sub64 a b = a - b := by
  unfold sub64 wrap64 uint64Max at *
  omega

theorem sub64_below {a b : ℕ} (h : a < b) (hb : b ≤ uint64Max) :
    sub64 a b = uint64Max + 1 + a - b := by
  unfold sub64 wrap64 uint64Max at *
  omega

/-- An address at or above the base moves with the slide. -/
theorem wrap64_slide {a b t : ℕ} (h : b ≤ a) (ha : a ≤ uint64Max) (ht : t ≤ uint64Max)
    (hsum : t + (a - b) ≤ uint64Max) : wrap64 (a + sub64 t b) = t + (a - b) := by
  unfold sub64 wrap64 uint64Max at *
  omega

/-- An address below the base ends up outside a range that is short enough. -/
theorem wrap64_slide_outside {a b t n : ℕ} (h : a < b) (hb : b ≤ uint64Max)
    (ht : t ≤ uint64Max) (hn : n + b < uint64Max + 1 + a) :
    wrap64 (a + sub64 t b) < t ∨ t + n < wrap64 (a + sub64 t b) := by
  unfold sub64 wrap64 uint64Max at *
  omega

theorem executableWrite_eq_some {signed : Option SignedImage} {executable : GuestImage}
    {page : GMPage} {c : PlacementCall} (h : executableWrite signed executable page = some c) :
    ∃ bytes, page.bytes = some bytes ∧
      c = .write none (sub64 page.address executable.headerAddress) bytes := by
  unfold executableWrite at h
  cases hbytes : page.bytes with
  | none =>
      rw [hbytes] at h
      cases h
  | some bytes =>
      rw [hbytes] at h
      dsimp only [Option.bind_some] at h
      split at h
      · cases h
      · cases h
        exact ⟨bytes, rfl, rfl⟩

theorem segmentProtect_eq_some {owner : Option LibraryPlace} {slide : ℕ} {s : GISegment}
    {c : PlacementCall} (h : segmentProtect owner slide s = some c) : s.prot ≠ 0#32 ∧
      c = .protect owner (wrap64 (s.address + slide)) s.size (placedProt s.prot) := by
  unfold segmentProtect at h
  split at h
  · cases h
  · rename_i hprot
    cases h
    exact ⟨hprot, rfl⟩

section Executable

variable {signed : Option SignedImage} {executable : GuestImage} {libraries : List GuestImage}
  {codePoolSize : ℕ} {jitProbe : Bool}

/-- The arena is too short to hold an address below the header. -/
theorem ArenaReady.short (hexe : executable.Accepted .execute)
    (hready : ArenaReady arena signed executable
      (layout id executable libraries codePoolSize jitProbe)) :
    arena.size + executable.headerAddress < uint64Max + 1 + 0x100000000 := by
  have hend := hexe.endSpec
  have hle := hend.header_lt
  have hbounded := hend.bounded
  cases hsigned : signed with
  | none =>
      have hlimit := hready.limit hsigned
      unfold ncMaxArena at hlimit
      omega
  | some i =>
      obtain ⟨hsize, hlibraries, hpool, -⟩ := hready.container i hsigned
      have htiles := layout_tiles arena executable libraries codePoolSize jitProbe
      rw [Layout.slots, hlibraries, hpool] at htiles
      obtain ⟨-, -, hstop⟩ := htiles
      have hsum : arena.executable + (executable.accessibleEnd - executable.headerAddress) + 0 +
          (if jitProbe then pageSize else 0) =
          arena.executable + (layout id executable libraries codePoolSize jitProbe).total := hstop
      have hprobe : (if jitProbe then pageSize else 0) ≤ pageSize := by
        split_ifs
        · exact le_rfl
        · exact Nat.zero_le _
      unfold pageSize at *
      omega

theorem not_fits_of_below (hexe : executable.Accepted .execute)
    (hready : ArenaReady arena signed executable
      (layout id executable libraries codePoolSize jitProbe)) {p : GMPage}
    (hp : p ∈ executable.memory.pages) (hbelow : p.address < executable.headerAddress) :
    ¬ sub64 p.address executable.headerAddress + pageSize ≤ arena.size := by
  have hshort := hready.short hexe
  have hend := hexe.endSpec
  have hbounded := hend.bounded
  have hheader := hend.header_lt
  obtain ⟨s, hs, hmapped, hlow, -⟩ := hexe.pages p hp
  have hhigh := hexe.high rfl s hs hmapped
  rw [sub64_below hbelow (by omega)]
  unfold pageSize
  omega

/-- A page with contents outside the accessible reach is not left to a signed container. -/
theorem executableWrite_outside (hexe : executable.Accepted .execute) {l : Layout}
    (hready : ArenaReady arena signed executable l) {p : GMPage}
    (hp : p ∈ executable.memory.pages) (hfilled : p.bytes.isSome)
    (hout : p.address < executable.headerAddress ∨ executable.accessibleEnd ≤ p.address) :
    ∃ bytes, executableWrite signed executable p =
      some (.write none (sub64 p.address executable.headerAddress) bytes) := by
  obtain ⟨bytes, hbytes⟩ := Option.isSome_iff_exists.mp hfilled
  refine ⟨bytes, ?_⟩
  have hskip : ¬ signed.any (fun i => i.shadowSize ≤
      sub64 p.address executable.headerAddress ∧
        sub64 p.address executable.headerAddress < i.size) = true := by
    rw [Option.any_eq_true]
    rintro ⟨i, hi, hcond⟩
    rw [decide_eq_true_eq] at hcond
    obtain ⟨s, hs, -, hexec, -⟩ := hexe.header
    obtain ⟨haddress, hsize⟩ := (hready.container i hi).2.2.2 s hs hexec
    have hprot : s.prot ≠ 0#32 := by
      intro hzero
      rw [hzero] at hexec
      exact hexec (BitVec.zero_and)
    have hend := hexe.endSpec
    have hreach := hend.reach s hs hprot
    have hbounded := hend.bounded
    have hpage := hexe.wf.bounded p hp
    rcases hout with hbelow | hpast
    · rw [sub64_below hbelow (by omega)] at hcond
      omega
    · rw [sub64_eq (by omega) (by omega)] at hcond
      omega
  rw [executableWrite, hbytes]
  exact if_neg hskip

/-- A page that does not fit ends the placement: only pages before it are written. -/
theorem performed_before (hexe : executable.Accepted .execute) {q : GMPage}
    (hq : q ∈ executable.memory.pages) {bytes : PageBytes}
    (hwrite : executableWrite signed executable q =
      some (.write none (sub64 q.address executable.headerAddress) bytes))
    (hfits : ¬ sub64 q.address executable.headerAddress + pageSize ≤ arena.size)
    {places : List LibraryPlace} {c : PlacementCall}
    (hc : c ∈ performed arena mprotect (placementCalls arena signed executable places)) :
    ∃ p ∈ executable.memory.pages, p.address < q.address ∧
      executableWrite signed executable p = some c := by
  obtain ⟨before, after, hsplit⟩ := List.append_of_mem hq
  have hsorted := hexe.wf.sorted
  rw [hsplit, List.pairwise_append] at hsorted
  rw [placementCalls, executableCalls, hsplit, List.filterMap_append, List.filterMap_cons,
    hwrite, List.append_assoc, List.append_assoc] at hc
  rcases mem_performed_append hc with hin | ⟨hlater, -⟩
  · obtain ⟨p, hp, heq⟩ := List.mem_filterMap.mp hin
    exact ⟨p, by rw [hsplit]; exact List.mem_append_left _ hp,
      hsorted.2.2 p hp q List.mem_cons_self, heq⟩
  · have hnone : ¬ arena.ncWriteFits (sub64 q.address executable.headerAddress) pageSize = true :=
      fun h => hfits ((ncWriteFits_iff _ _).mp h)
    dsimp only at hlater
    rw [List.cons_append, performed, if_neg hnone] at hlater
    exact absurd hlater List.not_mem_nil

/-- A call of the executable lies between the header and the accessible end. -/
def WithinReach (arena : NativeCodeMemory) (executable : GuestImage) (c : PlacementCall) : Prop :=
  (c.range arena).2 ≠ 0 → arena.executable ≤ (c.range arena).1 ∧
    (c.range arena).1 + (c.range arena).2 ≤
      arena.executable + (executable.accessibleEnd - executable.headerAddress)

theorem withinReach_write (hexe : executable.Accepted .execute) {p : GMPage}
    (hp : p ∈ executable.memory.pages) (hlow : executable.headerAddress ≤ p.address)
    (hhigh : p.address < executable.accessibleEnd) (bytes : PageBytes) :
    WithinReach arena executable
      (.write none (sub64 p.address executable.headerAddress) bytes) := by
  intro _
  have hpage := hexe.wf.bounded p hp
  have halign := hexe.wf.aligned p hp
  have hend := hexe.endSpec
  have haligned := hend.aligned
  have hheader := hend.header_aligned
  dsimp only [PlacementCall.range]
  rw [sub64_eq hlow (by omega)]
  unfold pageSize at *
  omega

theorem withinReach_protect (hexe : executable.Accepted .execute)
    (hsize : executable.accessibleEnd - executable.headerAddress ≤ arena.size) {s : GISegment}
    (hs : s ∈ executable.segments) (hprot : s.prot ≠ 0#32)
    (hlow : executable.headerAddress ≤ s.address) :
    WithinReach arena executable (.protect none
      (wrap64 (s.address + sub64 arena.executable executable.headerAddress)) s.size
      (placedProt s.prot)) := by
  intro hlength
  have hnonempty : s.size ≠ 0 := hlength
  have hreach := hexe.endSpec.reach s hs hprot
  have hbounded := hexe.bounded s hs
  have hfits := arena.fits
  dsimp only [PlacementCall.range]
  rw [wrap64_slide hlow (by omega) (by omega) (by omega)]
  omega

theorem within_slot {wrap : ℕ → ℕ} {total : ℕ}
    (hlibraries : ∀ image ∈ libraries, image.LoadedAs .dylib) {p : LibraryPlace}
    (hp : p ∈ (placeLibraries wrap total libraries).1)
    (hfits : arena.executable + p.offset + p.image.giExtent.1 ≤ uint64Max + 1)
    {c : PlacementCall} (hc : c ∈ libraryCalls arena p) :
    c.owner = some p ∧ ((c.range arena).2 ≠ 0 → (p.slot arena).1 ≤ (c.range arena).1 ∧
      (c.range arena).1 + (c.range arena).2 ≤ (p.slot arena).1 + (p.slot arena).2) := by
  obtain ⟨himage, hlow⟩ := placeLibraries_mem hp
  have haccepted := (hlibraries p.image himage).accepted
  dsimp only [LibraryPlace.slot]
  rcases List.mem_append.mp hc with hwrite | hprotect
  · obtain ⟨page, hpage, heq⟩ := List.mem_filterMap.mp hwrite
    obtain ⟨bytes, -, rfl⟩ := Option.map_eq_some_iff.mp heq
    refine ⟨rfl, fun _ => ?_⟩
    obtain ⟨s, hs, hmapped, hstart, hstop⟩ := haccepted.pages page hpage
    obtain ⟨hfirst, hlast⟩ := GuestImage.giExtent_covers hs hmapped
    have hbounded := haccepted.wf.bounded page hpage
    dsimp only [PlacementCall.range]
    rw [hlow, sub64_eq (by omega) (by omega), wrap64_eq (by unfold pageSize at *; omega)]
    omega
  · obtain ⟨s, hs, heq⟩ := List.mem_filterMap.mp hprotect
    obtain ⟨hprot, rfl⟩ := segmentProtect_eq_some heq
    refine ⟨rfl, fun hlength => ?_⟩
    have hnonempty : s.size ≠ 0 := hlength
    have hmapped : s.Mapped := ⟨hnonempty, fun hname => hprot (haccepted.zero s hs hname)⟩
    obtain ⟨hfirst, hlast⟩ := GuestImage.giExtent_covers hs hmapped
    have hbounded := haccepted.bounded s hs
    have hbase : wrap64 (arena.executable + p.offset) = arena.executable + p.offset :=
      wrap64_eq (by omega)
    dsimp only [PlacementCall.range]
    rw [hlow, hbase, wrap64_slide (by omega) (by omega) (by omega) (by omega)]
    omega

theorem executableCalls_withinReach (hexe : executable.Accepted .execute)
    (hready : ArenaReady arena signed executable
      (layout id executable libraries codePoolSize jitProbe))
    (hcond : ExecutablePlaceable arena executable)
    {places : List LibraryPlace} {c : PlacementCall}
    (hc : c ∈ performed arena mprotect (placementCalls arena signed executable places))
    (hown : c ∈ executableCalls arena signed executable) :
    c.owner = none ∧ WithinReach arena executable c := by
  have htiles := (layout_tiles arena executable libraries codePoolSize jitProbe).le
  have henough := hready.enough
  have hend := hexe.endSpec
  obtain ⟨q, hq, hfilled, hbelow⟩ | ⟨hpast, hrest⟩ := hcond
  · -- Every page before `q` is below the header as well.
    obtain ⟨bytes, hwrite⟩ := executableWrite_outside hexe hready hq hfilled (Or.inl hbelow)
    obtain ⟨p, hp, hlt, heq⟩ := performed_before hexe hq hwrite
      (not_fits_of_below hexe hready hq hbelow) hc
    obtain ⟨bytes', -, rfl⟩ := executableWrite_eq_some heq
    exact absurd (mem_performed hc).2 (not_fits_of_below hexe hready hp (hlt.trans hbelow))
  · rcases List.mem_append.mp hown with hwrite | hprotect
    · obtain ⟨p, hp, heq⟩ := List.mem_filterMap.mp hwrite
      obtain ⟨bytes, hbytes, rfl⟩ := executableWrite_eq_some heq
      have hfits : sub64 p.address executable.headerAddress + pageSize ≤ arena.size :=
        (mem_performed hc).2
      have hlow : executable.headerAddress ≤ p.address := by
        by_contra hnot
        exact not_fits_of_below hexe hready hp (not_le.mp hnot) hfits
      refine ⟨rfl, withinReach_write hexe hp hlow ?_ bytes⟩
      by_contra hnot
      have hshort := hpast p hp (by rw [hbytes]; rfl) (not_lt.mp hnot)
      have hpage := hexe.wf.bounded p hp
      rw [sub64_eq hlow (by omega)] at hfits
      omega
    · obtain ⟨s, hs, heq⟩ := List.mem_filterMap.mp hprotect
      split at heq
      · cases heq
      · obtain ⟨hprot, rfl⟩ := segmentProtect_eq_some heq
        refine ⟨rfl, ?_⟩
        rcases hrest with ⟨q, hq, hfilled, hfar⟩ | hsegments
        · -- The page past the end stops the placement before any protection.
          obtain ⟨bytes, hwrite⟩ := executableWrite_outside hexe hready hq hfilled (Or.inr hfar)
          have hlong := hpast q hq hfilled hfar
          have hpage := hexe.wf.bounded q hq
          have hheader := hend.header_lt
          obtain ⟨p, -, -, hbad⟩ := performed_before hexe hq hwrite (by
            rw [sub64_eq (by omega) (by omega)]
            omega) hc
          obtain ⟨bytes', -, hcontra⟩ := executableWrite_eq_some hbad
          cases hcontra
        · intro hlength
          exact withinReach_protect hexe (by omega) hs hprot (hsegments s hs hprot hlength)
            hlength

/-- Under the condition on the executable everything stays apart. -/
theorem performed_placedApart (hexe : executable.Accepted .execute)
    (hlibraries : ∀ image ∈ libraries, image.LoadedAs .dylib)
    (hready : ArenaReady arena signed executable
      (layout id executable libraries codePoolSize jitProbe))
    (hcond : ExecutablePlaceable arena executable) :
    PlacedApart arena (layout id executable libraries codePoolSize jitProbe)
      (performed arena mprotect (placementCalls arena signed executable
        (layout id executable libraries codePoolSize jitProbe).libraries)) := by
  have htiles := layout_tiles arena executable libraries codePoolSize jitProbe
  have hfits := arena.fits
  have henough := hready.enough
  -- A call belongs to the executable or to a library, and stays in its part.
  have hcall : ∀ c ∈ performed arena mprotect (placementCalls arena signed executable
      (layout id executable libraries codePoolSize jitProbe).libraries),
      (c.owner = none ∧ WithinReach arena executable c) ∨
      ∃ p ∈ (layout id executable libraries codePoolSize jitProbe).libraries, c.owner = some p ∧
        p.slot arena ∈ (layout id executable libraries codePoolSize jitProbe).slots arena ∧
        ((c.range arena).2 ≠ 0 → (p.slot arena).1 ≤ (c.range arena).1 ∧
          (c.range arena).1 + (c.range arena).2 ≤ (p.slot arena).1 + (p.slot arena).2) := by
    intro c hc
    rcases List.mem_append.mp (mem_performed hc).1 with hown | hlibrary
    · exact Or.inl (executableCalls_withinReach hexe hready hcond hc hown)
    · obtain ⟨p, hp, hin⟩ := List.mem_flatMap.mp hlibrary
      have hslot : p.slot arena ∈
          (layout id executable libraries codePoolSize jitProbe).slots arena :=
        List.mem_append_left _ (List.mem_map_of_mem hp)
      have hreach : arena.executable + p.offset + p.image.giExtent.1 ≤ arena.executable +
          (layout id executable libraries codePoolSize jitProbe).total :=
        (htiles.mem_within _ hslot).2
      obtain ⟨howner, hwithin⟩ := within_slot hlibraries hp (by omega) hin
      exact Or.inr ⟨p, hp, howner, hslot, hwithin⟩
  refine ⟨?_, htiles.pairwise_apart, ?_, ?_⟩
  · intro c hc hlength
    rcases hcall c hc with ⟨-, hwithin⟩ | ⟨p, -, -, hslot, hwithin⟩
    · have hle := htiles.le
      have hin := hwithin hlength
      omega
    · have hle := htiles.mem_within _ hslot
      have hin := hwithin hlength
      omega
  · intro c hc hnone hlength r hr
    rcases hcall c hc with ⟨-, hwithin⟩ | ⟨p, -, howner, -, -⟩
    · exact Or.inl ((hwithin hlength).2.trans (htiles.mem_within r hr).1)
    · rw [hnone] at howner
      cases howner
  · intro c hc p howner
    rcases hcall c hc with ⟨hnone, -⟩ | ⟨p', hp, howner', -, hwithin⟩
    · rw [howner] at hnone
      cases hnone
    · rw [howner] at howner'
      cases howner'
      exact ⟨hp, hwithin⟩

theorem placedApart_of_placeable (hexe : executable.Accepted .execute)
    (hlibraries : ∀ image ∈ libraries, image.LoadedAs .dylib)
    (hready : ArenaReady arena signed executable
      (layout id executable libraries codePoolSize jitProbe))
    (hcond : Placeable arena executable libraries codePoolSize jitProbe) :
    PlacedApart arena (layout id executable libraries codePoolSize jitProbe)
      (placed arena mprotect signed executable
        (layout id executable libraries codePoolSize jitProbe).libraries jitProbe) := by
  cases jitProbe with
  | true =>
      rw [placed, if_pos rfl]
      exact ⟨by simp, (layout_tiles arena executable libraries codePoolSize true).pairwise_apart,
        by simp, by simp⟩
  | false =>
      rw [placed, if_neg Bool.false_ne_true]
      exact performed_placedApart hexe hlibraries hready
        (hcond.2.resolve_left Bool.false_ne_true)

/-- The pages of the executable from its header on are written up to the first that does
not fit. -/
theorem write_mem_performed (hexe : executable.Accepted .execute)
    (hlow : ∀ p ∈ executable.memory.pages, p.bytes.isSome →
      executable.headerAddress ≤ p.address) {q : GMPage} (hq : q ∈ executable.memory.pages)
    {bytes : PageBytes} (hwrite : executableWrite signed executable q =
      some (.write none (sub64 q.address executable.headerAddress) bytes))
    (hfits : q.address - executable.headerAddress + pageSize ≤ arena.size)
    (places : List LibraryPlace) :
    .write none (sub64 q.address executable.headerAddress) bytes ∈
      performed arena (fun _ _ _ => true) (placementCalls arena signed executable places) := by
  obtain ⟨before, after, hsplit⟩ := List.append_of_mem hq
  have hsorted := hexe.wf.sorted
  rw [hsplit, List.pairwise_append] at hsorted
  have hoffset : ∀ p ∈ executable.memory.pages, ∀ c,
      executableWrite signed executable p = some c → p.address ≤ q.address → c.Fits arena := by
    intro p hp c heq hle
    obtain ⟨bytes', hbytes, rfl⟩ := executableWrite_eq_some heq
    have hp' := hlow p hp (by rw [hbytes]; rfl)
    have hpage := hexe.wf.bounded p hp
    change sub64 p.address executable.headerAddress + pageSize ≤ arena.size
    rw [sub64_eq hp' (by omega)]
    omega
  have hbefore : ∀ d ∈ before.filterMap (executableWrite signed executable) ++
      [.write none (sub64 q.address executable.headerAddress) bytes], d.Fits arena := by
    intro d hd
    rcases List.mem_append.mp hd with hin | hlast
    · obtain ⟨p, hp, heq⟩ := List.mem_filterMap.mp hin
      exact hoffset p (by rw [hsplit]; exact List.mem_append_left _ hp) d heq
        (hsorted.2.2 p hp q List.mem_cons_self).le
    · rw [List.mem_singleton.mp hlast]
      exact hoffset q hq _ hwrite le_rfl
  rw [placementCalls, executableCalls, hsplit, List.filterMap_append, List.filterMap_cons, hwrite]
  dsimp only
  rw [List.append_cons, List.append_assoc, List.append_assoc, performed_append_of_fits _ hbefore]
  exact List.mem_append_left _ (List.mem_append_right _ (List.mem_singleton.mpr rfl))

theorem protect_mem_performed
    (hfits : ∀ p ∈ executable.memory.pages, ∀ c, executableWrite signed executable p = some c →
      c.Fits arena) {s : GISegment} (hs : s ∈ executable.segments) (hprot : s.prot ≠ 0#32)
    (hplain : ¬ (signed.isSome = true ∧ s.prot &&& GM.EXEC ≠ 0#32))
    (places : List LibraryPlace) :
    .protect none (wrap64 (s.address + sub64 arena.executable executable.headerAddress)) s.size
        (placedProt s.prot) ∈
      performed arena (fun _ _ _ => true) (placementCalls arena signed executable places) := by
  have hall : ∀ d ∈ executableCalls arena signed executable, d.Fits arena := by
    intro d hd
    rcases List.mem_append.mp hd with hin | hin
    · obtain ⟨p, hp, heq⟩ := List.mem_filterMap.mp hin
      exact hfits p hp d heq
    · obtain ⟨t, ht, heq⟩ := List.mem_filterMap.mp hin
      split at heq
      · cases heq
      · obtain ⟨-, rfl⟩ := segmentProtect_eq_some heq
        trivial
  rw [placementCalls, performed_append_of_fits _ hall]
  refine List.mem_append_left _ (List.mem_append_right _ (List.mem_filterMap.mpr ⟨s, hs, ?_⟩))
  rw [if_neg hplain, segmentProtect, if_neg hprot]

section PlacedApart

variable (hexe : executable.Accepted .execute)
  (hready : ArenaReady arena signed executable
    (layout id executable libraries codePoolSize jitProbe))
  (happart : PlacedApart arena (layout id executable libraries codePoolSize jitProbe)
    (performed arena (fun _ _ _ => true) (placementCalls arena signed executable
      (layout id executable libraries codePoolSize jitProbe).libraries)))
  (hlow : ∀ p ∈ executable.memory.pages, p.bytes.isSome → executable.headerAddress ≤ p.address)

include hexe hready happart hlow

/-- A page past the end that fits is written over a slot or past the last one. -/
theorem far_page_refused {p : GMPage} (hp : p ∈ executable.memory.pages)
    (hfilled : p.bytes.isSome) (hfar : executable.accessibleEnd ≤ p.address) :
    arena.size < p.address - executable.headerAddress + pageSize := by
  have htiles := layout_tiles arena executable libraries codePoolSize jitProbe
  have hheader := hexe.endSpec.header_lt
  by_contra hnot
  obtain ⟨bytes, hwrite⟩ := executableWrite_outside hexe hready hp hfilled (Or.inr hfar)
  have hmade := write_mem_performed hexe hlow hp hwrite (not_lt.mp hnot)
    (layout id executable libraries codePoolSize jitProbe).libraries
  have hpage := hexe.wf.bounded p hp
  have hlength : pageSize ≠ 0 := by decide
  have hin := happart.inside _ hmade hlength
  have haway := happart.executable _ hmade rfl hlength
  dsimp only [PlacementCall.range] at hin haway
  rw [sub64_eq (by omega) (by omega)] at hin haway
  obtain ⟨r, hr, hstart, hstop⟩ := htiles.exists_mem
    (x := arena.executable + (p.address - executable.headerAddress)) (by omega)
    (by unfold pageSize at *; omega)
  rcases haway r hr with h | h
  · dsimp only at h
    unfold pageSize at *
    omega
  · dsimp only at h
    omega

/-- Without such a page every page is written, so that a segment below the header is protected
outside. -/
theorem segment_from_header (hnear : ∀ p ∈ executable.memory.pages, p.bytes.isSome →
    p.address < executable.accessibleEnd) {s : GISegment} (hs : s ∈ executable.segments)
    (hprot : s.prot ≠ 0#32) (hsize : s.size ≠ 0) : executable.headerAddress ≤ s.address := by
  have htiles := layout_tiles arena executable libraries codePoolSize jitProbe
  have henough := hready.enough
  by_contra hnot
  have hfits : ∀ p ∈ executable.memory.pages, ∀ c,
      executableWrite signed executable p = some c → c.Fits arena := by
    intro p hp c heq
    obtain ⟨bytes, hbytes, rfl⟩ := executableWrite_eq_some heq
    have hfilled : p.bytes.isSome := by
      rw [hbytes]
      rfl
    have hwithin : WithinReach arena executable
        (.write none (sub64 p.address executable.headerAddress) bytes) :=
      withinReach_write hexe hp (hlow p hp hfilled) (hnear p hp hfilled) bytes
    have hlength : pageSize ≠ 0 := by decide
    have hin := hwithin hlength
    have hle := htiles.le
    dsimp only [PlacementCall.range] at hin
    change sub64 p.address executable.headerAddress + pageSize ≤ arena.size
    omega
  have hplain : ¬ (signed.isSome = true ∧ s.prot &&& GM.EXEC ≠ 0#32) := by
    rintro ⟨hsome, hexec⟩
    obtain ⟨i, hi⟩ := Option.isSome_iff_exists.mp hsome
    exact hnot ((hready.container i hi).2.2.2 s hs hexec).1.ge
  have hmade := protect_mem_performed hfits hs hprot hplain
    (layout id executable libraries codePoolSize jitProbe).libraries
  have hin := happart.inside _ hmade hsize
  have hmapped : s.Mapped := ⟨hsize, fun hname => hprot (hexe.zero s hs hname)⟩
  have hhigh := hexe.high rfl s hs hmapped
  have hshort := hready.short hexe
  have hbounded := hexe.endSpec.bounded
  have hheader := hexe.endSpec.header_lt
  have hfit := arena.fits
  have hpos := htiles.le
  dsimp only [PlacementCall.range] at hin
  rcases wrap64_slide_outside (t := arena.executable)
    (n := (layout id executable libraries codePoolSize jitProbe).total) (not_le.mp hnot)
    (by omega) (by omega) (by omega) with h | h
  · omega
  · omega

omit hlow

/-- An executable that is placed apart satisfies the condition. -/
theorem executablePlaceable_of_placedApart : ExecutablePlaceable arena executable := by
  by_cases hbelow : ∃ p ∈ executable.memory.pages, p.bytes.isSome ∧
      p.address < executable.headerAddress
  · exact Or.inl hbelow
  have hlow : ∀ p ∈ executable.memory.pages, p.bytes.isSome →
      executable.headerAddress ≤ p.address :=
    fun p hp hfilled => not_lt.mp fun h => hbelow ⟨p, hp, hfilled, h⟩
  refine Or.inr ⟨fun p => far_page_refused hexe hready happart hlow, ?_⟩
  by_cases hpast : ∃ p ∈ executable.memory.pages, p.bytes.isSome ∧
      executable.accessibleEnd ≤ p.address
  · exact Or.inl hpast
  · refine Or.inr fun s => segment_from_header hexe hready happart hlow fun p hp hfilled => ?_
    exact not_le.mp fun h => hpast ⟨p, hp, hfilled, h⟩

end PlacedApart

theorem placeable_of_placedApart (hexe : executable.Accepted .execute)
    (hready : ArenaReady arena signed executable
      (layout id executable libraries codePoolSize jitProbe))
    (hlayout : LayoutFits executable libraries codePoolSize jitProbe)
    (happart : PlacedApart arena (layout id executable libraries codePoolSize jitProbe)
      (placed arena (fun _ _ _ => true) signed executable
        (layout id executable libraries codePoolSize jitProbe).libraries jitProbe)) :
    Placeable arena executable libraries codePoolSize jitProbe := by
  refine ⟨hlayout, ?_⟩
  cases jitProbe with
  | true => exact Or.inl rfl
  | false =>
      rw [placed, if_neg Bool.false_ne_true] at happart
      exact Or.inr (executablePlaceable_of_placedApart hexe hready happart)

/-- Arena placement is contained and disjoint exactly under the condition: whatever the
kernel answers, the layout is the one of unbounded sums, every page written and every
range protected lies in the arena, and the executable, the libraries, the code pool and
the probe page stay apart. -/
theorem placement_apart_iff (hexe : executable.LoadedAs .execute)
    (hlibraries : ∀ image ∈ libraries, image.LoadedAs .dylib)
    (hready : ArenaReady arena signed executable
      (layout wrap64 executable libraries codePoolSize jitProbe)) :
    (layout wrap64 executable libraries codePoolSize jitProbe =
        layout id executable libraries codePoolSize jitProbe ∧
      ∀ mprotect, PlacedApart arena (layout wrap64 executable libraries codePoolSize jitProbe)
        (placed arena mprotect signed executable
          (layout wrap64 executable libraries codePoolSize jitProbe).libraries jitProbe)) ↔
      Placeable arena executable libraries codePoolSize jitProbe := by
  constructor
  · rintro ⟨hexact, happart⟩
    rw [hexact] at hready happart
    exact placeable_of_placedApart hexe.accepted hready
      ((layout_wrap64_iff _ _ _ _).mp hexact) (happart _)
  · intro hcond
    have hexact := (layout_wrap64_iff _ _ _ _).mpr hcond.1
    rw [hexact] at hready ⊢
    exact ⟨rfl, fun mprotect => placedApart_of_placeable hexe.accepted hlibraries hready hcond⟩

end Executable

/-- A segment of one page at `vmaddr`, with `filesize` bytes of contents. -/
def fixtureSegment (segname : CString) (vmaddr : ℕ) (h : vmaddr ≤ uint64Max) (filesize : ℕ)
    (prot : Prot) : SegmentCommand :=
  { segname := segname
    vmaddr := vmaddr
    vmaddr_le := h
    vmsize := pageSize
    fileoff := 0
    filesize := filesize
    maxprot := 7#32
    initprot := prot }

def fixtureRead (_ _ : ℕ) : Option Buffer := some fun _ => 0

def fixtureImage (kind : ImageKind) (commands : List SegmentCommand) : GuestImage :=
  (loadSegments kind pageSize 216 commands fixtureRead).toOption.getD GuestImage.empty

theorem fixtureImage_loadedAs {kind : ImageKind} {commands : List SegmentCommand}
    (h : (loadSegments kind pageSize 216 commands fixtureRead).toOption.isSome = true) :
    (fixtureImage kind commands).LoadedAs kind := by
  cases hload : loadSegments kind pageSize 216 commands fixtureRead with
  | error e =>
      rw [hload] at h
      cases h
  | ok image =>
      have himage : fixtureImage kind commands = image := by
        rw [fixtureImage, hload]
        rfl
      rw [himage]
      exact ⟨_, _, _, _, image, hload, rfl, rfl, rfl⟩

/-- Code at the usual address, with data after it. -/
def fixtureUpward : List SegmentCommand :=
  [fixtureSegment (ascii "__TEXT") 0x100000000 (by decide) pageSize 5#32,
    fixtureSegment (ascii "__DATA") 0x100004000 (by decide) 0 3#32]

/-- Zero-filled data below the code. -/
def fixtureDownward : List SegmentCommand :=
  [fixtureSegment (ascii "__DATA") 0x100000000 (by decide) 0 3#32,
    fixtureSegment (ascii "__TEXT") 0x100004000 (by decide) pageSize 5#32]

/-- A library of one page at address zero. -/
def fixtureCarried : List SegmentCommand :=
  [fixtureSegment (ascii "__TEXT") 0 (by decide) pageSize 5#32]

def fixtureArena : NativeCodeMemory :=
  { executable := 0x200000000
    size := 5 * pageSize
    fits := by decide }

theorem placement_apart_fixture :
    (fixtureImage .execute fixtureUpward).LoadedAs .execute ∧
    layout wrap64 (fixtureImage .execute fixtureUpward) [fixtureImage .dylib fixtureCarried] 100
      false = layout id (fixtureImage .execute fixtureUpward)
        [fixtureImage .dylib fixtureCarried] 100 false ∧
    ∀ mprotect, PlacedApart fixtureArena
      (layout wrap64 (fixtureImage .execute fixtureUpward) [fixtureImage .dylib fixtureCarried]
        100 false)
      (placed fixtureArena mprotect none (fixtureImage .execute fixtureUpward)
        (layout wrap64 (fixtureImage .execute fixtureUpward)
          [fixtureImage .dylib fixtureCarried] 100 false).libraries false) := by
  have hexe : (fixtureImage .execute fixtureUpward).LoadedAs .execute :=
    fixtureImage_loadedAs (by decide)
  have hlibrary : (fixtureImage .dylib fixtureCarried).LoadedAs .dylib :=
    fixtureImage_loadedAs (by decide)
  refine ⟨hexe, (placement_apart_iff hexe ?_ ?_).mpr ?_⟩
  · intro image himage
    rw [List.mem_singleton.mp himage]
    exact hlibrary
  · exact ⟨by decide, fun _ => by decide, fun i hi => by cases hi⟩
  · unfold Placeable LayoutFits ExecutablePlaceable
    decide

/-- Data below the code is protected below the arena. -/
theorem placement_not_apart :
    (fixtureImage .execute fixtureDownward).LoadedAs .execute ∧
    ArenaReady fixtureArena none (fixtureImage .execute fixtureDownward)
      (layout wrap64 (fixtureImage .execute fixtureDownward) [] 0 false) ∧
    ¬ ∀ mprotect, PlacedApart fixtureArena
      (layout wrap64 (fixtureImage .execute fixtureDownward) [] 0 false)
      (placed fixtureArena mprotect none (fixtureImage .execute fixtureDownward)
        (layout wrap64 (fixtureImage .execute fixtureDownward) [] 0 false).libraries false) := by
  have hexe : (fixtureImage .execute fixtureDownward).LoadedAs .execute :=
    fixtureImage_loadedAs (by decide)
  have hfits : LayoutFits (fixtureImage .execute fixtureDownward) [] 0 false := by
    unfold LayoutFits
    decide
  have hready : ArenaReady fixtureArena none (fixtureImage .execute fixtureDownward)
      (layout wrap64 (fixtureImage .execute fixtureDownward) [] 0 false) :=
    ⟨by decide, fun _ => by decide, fun i hi => by cases hi⟩
  refine ⟨hexe, hready, fun happart => ?_⟩
  rw [(layout_wrap64_iff _ _ _ _).mpr hfits] at hready happart
  have hcond := placeable_of_placedApart hexe.accepted hready hfits (happart _)
  unfold Placeable LayoutFits ExecutablePlaceable at hcond
  revert hcond
  decide

end Tolkara
