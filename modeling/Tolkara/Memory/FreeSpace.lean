import Tolkara.Cpu.Rejection
import Tolkara.Library.Gaps
import Tolkara.Memory.AllOrNothing

/-!
# The search for free space

`gm_find_free` of `runtime/GuestMemory.c` and `gm_sparse_find_free` of
`runtime/GuestSparseMemory.c` walk over what is mapped, in address order, and
move a candidate past what is in its way. Both are the walk `firstGap`: over the
pages of the dense memory, each of them an interval, and over the regions of the
sparse memory. The dense search gives up as soon as the candidate leaves the
address space, which no later page could mend.
-/

namespace Tolkara

open Library TaggedInterval

/-- The answer of a search is the least element, or says that there is none. -/
def FindsLeast (answer : GMResult × Option ℕ) (addresses : Set ℕ) : Prop :=
  (∃ a, answer = (.ok, some a) ∧ IsLeast addresses a) ∨
    answer = (.nomem, none) ∧ addresses = ∅

/-- A least address below which the search may give up. -/
theorem findsLeast_of_bound (n limit : ℕ) {addresses : Set ℕ} {a : ℕ} (h : IsLeast addresses a) :
    FindsLeast (if a + n ≤ limit then (.ok, some a) else (.nomem, none))
      {b ∈ addresses | b + n ≤ limit} := by
  split
  · rename_i hle
    exact .inl ⟨a, rfl, ⟨h.1, hle⟩, fun b hb => h.2 hb.1⟩
  · rename_i hle
    refine .inr ⟨rfl, Set.eq_empty_of_forall_notMem ?_⟩
    rintro b ⟨hb, hbound⟩
    have := h.2 hb
    omega

/-- Alignment does not matter to a search that only stops at aligned addresses. -/
theorem isLeast_aligned {addresses : Set ℕ} {a : ℕ} (h : IsLeast addresses a)
    (ha : a % pageSize = 0) : IsLeast {b ∈ addresses | b % pageSize = 0} a :=
  ⟨⟨h.1, ha⟩, fun _ hb => h.2 hb.1⟩

/-- What is found: a free address, aligned and low enough. -/
theorem candidates_eq {low n limit : ℕ} {free vacant : ℕ → Prop}
    (hfree : ∀ a, low ≤ a → (free a ↔ vacant a)) :
    {a ∈ {a ∈ {a | low ≤ a ∧ free a} | a % pageSize = 0} | a + n ≤ limit} =
      {a | low ≤ a ∧ a % pageSize = 0 ∧ a + n ≤ limit ∧ vacant a} := by
  ext a
  constructor
  · rintro ⟨⟨⟨ha, hf⟩, hmod⟩, hle⟩
    exact ⟨ha, hmod, hle, (hfree a ha).1 hf⟩
  · rintro ⟨ha, hmod, hle, hv⟩
    exact ⟨⟨⟨ha, (hfree a ha).2 hv⟩, hmod⟩, hle⟩

/-! ## The dense memory -/

namespace GMPage

def interval (p : GMPage) : TaggedInterval GMPage := ⟨p.address, p.address + pageSize, p⟩

end GMPage

namespace GuestMemory

/-- Nothing is mapped in `[a, a + n)`. -/
def Vacant (m : GuestMemory) (a n : ℕ) : Prop :=
  ∀ x, a ≤ x → x < a + n → pageAt m.pages (pageBase x) = none

theorem cover_interval {pages : List GMPage} (h : ∀ p ∈ pages, p.address % pageSize = 0) (x : ℕ) :
    cover (pages.map GMPage.interval) x = none ↔ pageAt pages (pageBase x) = none := by
  rw [cover_eq_none_iff, pageAt_eq_none_iff, List.forall_mem_map]
  refine forall₂_congr fun p hp => not_congr ?_
  have hmod := h p hp
  unfold TaggedInterval.Contains GMPage.interval pageBase pageSize at *
  dsimp only
  omega

theorem ordered_interval {pages : List GMPage}
    (hsorted : pages.Pairwise fun p q => p.address < q.address)
    (haligned : ∀ p ∈ pages, p.address % pageSize = 0) :
    Ordered (pages.map GMPage.interval) := by
  constructor
  · rw [List.forall_mem_map]
    intro p _
    unfold GMPage.interval pageSize
    dsimp only
    omega
  · rw [List.pairwise_map]
    refine hsorted.imp_of_mem ?_
    intro p q hp hq hlt
    have h1 := haligned p hp
    have h2 := haligned q hq
    unfold GMPage.interval pageSize at *
    dsimp only
    omega

/-- The search of the source is the walk over the pages, cut off where no address
is left. -/
theorem findFreeLoop_eq {n : ℕ} (hpos : 0 < n) {pages : List GMPage} {candidate : ℕ}
    (hord : Ordered (pages.map GMPage.interval)) (hc : ∀ p ∈ pages, candidate ≤ p.address)
    (hn : candidate + n ≤ uint64Max) :
    findFreeLoop n pages candidate =
      if firstGap n (pages.map GMPage.interval) candidate + n ≤ uint64Max then
        some (firstGap n (pages.map GMPage.interval) candidate) else none := by
  induction pages generalizing candidate with
  | nil => exact (if_pos hn).symm
  | cons p pages ih =>
      obtain ⟨-, hnext, hrest⟩ := ordered_cons.1 (List.map_cons ▸ hord)
      have hlater : ∀ q ∈ pages, p.address + pageSize ≤ q.address := fun q hq =>
        hnext q.interval (List.mem_map_of_mem hq)
      rw [findFreeLoop, List.map_cons, firstGap_cons]
      by_cases hfits : candidate + n ≤ p.address
      · have hfits' : candidate + n ≤ p.interval.start := hfits
        rw [if_pos hfits, if_pos hfits', if_pos hn]
      · have hfits' : ¬ candidate + n ≤ p.interval.start := hfits
        rw [if_neg hfits, if_neg hfits']
        change (if n > uint64Max - (p.address + pageSize) then none else _) =
          if firstGap n (pages.map GMPage.interval) (p.address + pageSize) + n ≤ uint64Max then _
          else none
        have hforward : p.address + pageSize ≤
            firstGap n (pages.map GMPage.interval) (p.address + pageSize) :=
          le_firstGap n hrest (List.forall_mem_map.2 hlater)
        by_cases hleft : p.address + pageSize + n ≤ uint64Max
        · rw [if_neg (by omega), ih hrest hlater hleft]
          rfl
        · rw [if_pos (by omega), if_neg (by omega)]

theorem gmFindFree_least {m : GuestMemory} (hm : m.Wf) {hint n : ℕ} (hr : PageRange hint n) :
    FindsLeast (m.gmFindFree hint n)
      {a | hint ≤ a ∧ a % pageSize = 0 ∧ a + n ≤ uint64Max ∧ m.Vacant a n} := by
  obtain ⟨below, above, hsplit, hbelow, habove⟩ := exists_split hm.sorted hint
  have hn : 0 < n := Nat.pos_of_ne_zero hr.1
  have halign : ∀ p ∈ above, p.address % pageSize = 0 := fun p hp =>
    hm.aligned p (by rw [hsplit]; exact List.mem_append_right _ hp)
  have hord : Ordered (above.map GMPage.interval) := by
    refine ordered_interval ?_ halign
    have hsorted := hm.sorted
    rw [hsplit, List.pairwise_append] at hsorted
    exact hsorted.2.1
  have hstart : ∀ r ∈ above.map GMPage.interval, hint ≤ r.start := List.forall_mem_map.2 habove
  have hleast := firstGap_isLeast hn hord hstart
  have hgap : firstGap n (above.map GMPage.interval) hint % pageSize = 0 := by
    rcases firstGap_eq n (above.map GMPage.interval) hint with heq | ⟨r, hr', heq⟩
    · rw [heq]
      exact hr.2.1
    · obtain ⟨p, hp, rfl⟩ := List.mem_map.1 hr'
      rw [heq]
      change (p.address + pageSize) % pageSize = 0
      rw [Nat.add_mod_right]
      exact halign p hp
  have hfree : ∀ a, hint ≤ a → (Free (above.map GMPage.interval) a n ↔ m.Vacant a n) := by
    intro a ha
    refine forall₃_congr fun x hax hxn => ?_
    rw [cover_interval halign, hsplit, pageAt_append]
    -- The pages below the hint end before it, so they hold no `x`.
    have hnone : pageAt below (pageBase x) = none := by
      rw [pageAt_eq_none_iff]
      intro p hp heq
      have h1 := hbelow p hp
      have h2 := hr.2.1
      have h3 := pageBase_add_lt x
      have h4 := pageBase_mod x
      unfold pageSize at *
      omega
    rw [hnone, Option.none_or]
  have hbound := findsLeast_of_bound n uint64Max (isLeast_aligned hleast hgap)
  rw [candidates_eq hfree] at hbound
  have hloop : m.gmFindFree hint n =
      if firstGap n (above.map GMPage.interval) hint + n ≤ uint64Max then
        (.ok, some (firstGap n (above.map GMPage.interval) hint)) else (.nomem, none) := by
    unfold gmFindFree
    rw [if_neg (not_not.2 hr), lower_eq_length hsplit hbelow habove, hsplit, List.drop_left,
      findFreeLoop_eq hn hord habove hr.add_le]
    split_ifs <;> rfl
  rw [hloop]
  exact hbound

end GuestMemory

/-! ## The sparse memory -/

namespace Space

theorem findFreeLoop_eq {size : ℕ} {regions : List Region} {candidate : ℕ}
    (hord : Ordered regions) (hc : ∀ r ∈ regions, candidate ≤ r.start) :
    findFreeLoop size regions candidate = firstGap size regions candidate := by
  induction regions generalizing candidate with
  | nil => rfl
  | cons r regions ih =>
      obtain ⟨-, hnext, hrest⟩ := ordered_cons.1 hord
      have hstart := hc r List.mem_cons_self
      rw [findFreeLoop, firstGap_cons, ih hrest hnext]
      by_cases hfits : candidate + size ≤ r.start
      · rw [if_pos hfits, if_pos (by omega)]
      · -- The source subtracts; the candidate is never beyond the region.
        by_cases hzero : size = 0
        · omega
        · rw [if_neg hfits, if_neg (by omega)]

/-- The arena of a reachable memory begins at a page and is not empty. -/
theorem Reachable.arena {s : Space} (h : s.Reachable) :
    s.base % pageSize = 0 ∧ s.base < s.stop := by
  obtain ⟨base, size, backingBytes, allocated, arena, s₀, calls, hinit, rfl⟩ := h
  have hrange : PageRange base size := by
    by_contra hno
    unfold gmSparseInit at hinit
    rw [if_pos (by tauto)] at hinit
    cases hinit
  obtain ⟨hinv, hbase, hstop, -⟩ := gmSparseInit_spec hinit
  have hsame := arena_run hinv calls
  rw [hsame.base, hsame.stop, hbase, hstop]
  have := hrange.1
  exact ⟨hrange.2.1, by omega⟩

theorem gmSparseFindFree_least {s : Space} (h : s.Reachable) {n : ℕ} (hr : PageRange 0 n) :
    FindsLeast (s.gmSparseFindFree n)
      {a | s.base ≤ a ∧ a % pageSize = 0 ∧ a + n ≤ s.stop ∧ Free s.regions a n} := by
  have hinv := h.inv
  obtain ⟨hbase, hstop⟩ := h.arena
  have hord := hinv.normal.1
  have hstart : ∀ r ∈ s.regions, s.base ≤ r.start := fun r hr => (hinv.inside r hr).1
  have hleast := firstGap_isLeast (Nat.pos_of_ne_zero hr.1) hord hstart
  have hgap : firstGap n s.regions s.base % pageSize = 0 ∧ firstGap n s.regions s.base ≤ s.stop := by
    rcases firstGap_eq n s.regions s.base with heq | ⟨r, hr', heq⟩
    · rw [heq]
      exact ⟨hbase, hstop.le⟩
    · rw [heq]
      exact ⟨(hinv.aligned r hr').2, (hinv.inside r hr').2⟩
  have hbound := findsLeast_of_bound n s.stop (isLeast_aligned hleast hgap.1)
  rw [candidates_eq fun a _ => Iff.rfl] at hbound
  have hloop : s.gmSparseFindFree n =
      if firstGap n s.regions s.base + n ≤ s.stop then
        (.ok, some (firstGap n s.regions s.base)) else (.nomem, none) := by
    unfold gmSparseFindFree
    rw [if_neg (not_not.2 hr), findFreeLoop_eq hord hstart]
    have hle := hgap.2
    dsimp only
    by_cases hfits : firstGap n s.regions s.base + n ≤ s.stop
    · rw [if_pos hfits, if_pos (by omega)]
    · rw [if_neg hfits, if_neg (by omega)]
  rw [hloop]
  exact hbound

/-- A map without replacement overlaps only what is mapped. -/
theorem gmSparseMap_free {s : Space} (h : s.Inv) {a n : ℕ} (hfree : Free s.regions a n)
    (prot maxprot : Prot) : (s.gmSparseMap a n prot maxprot false).1 ≠ .overlap := by
  unfold gmSparseMap
  rcases change_spec h a n prot maxprot false .map with ⟨-, heq⟩ | ⟨-, result, hobs, -⟩ |
    ⟨-, -, -, heq⟩ | ⟨-, -, -, s', heq, -⟩
  · rw [heq]
    nofun
  · obtain ⟨-, -, x, hax, hxn, hx⟩ := hobs
    exact absurd (hfree x hax hxn) hx
  · rw [heq]
    nofun
  · rw [heq]
    nofun

end Space

/-- Both searches are exact on what they accept, and what the sparse one finds can
be mapped. -/
theorem find_free_exact :
    (∀ m : GuestMemory, m.Reachable → ∀ hint n, PageRange hint n →
      FindsLeast (m.gmFindFree hint n)
        {a | hint ≤ a ∧ a % pageSize = 0 ∧ a + n ≤ uint64Max ∧ m.Vacant a n}) ∧
    ∀ s : Space, s.Reachable → ∀ n,
      (PageRange 0 n →
        FindsLeast (s.gmSparseFindFree n)
          {a | s.base ≤ a ∧ a % pageSize = 0 ∧ a + n ≤ s.stop ∧ Free s.regions a n} ∧
        ∀ a, s.gmSparseFindFree n = (.ok, some a) → ∀ prot maxprot,
          (s.gmSparseMap a n prot maxprot false).1 ≠ .overlap) ∧
      (¬ PageRange 0 n → s.gmSparseFindFree n = (.invalid, none)) := by
  refine ⟨fun m hm hint n hr => GuestMemory.gmFindFree_least hm.wf hr, ?_⟩
  intro s hs n
  refine ⟨fun hr => ?_, fun hr => ?_⟩
  · have hleast := Space.gmSparseFindFree_least hs hr
    refine ⟨hleast, ?_⟩
    intro a ha prot maxprot
    rcases hleast with ⟨b, heq, hb⟩ | ⟨heq, -⟩
    · rw [ha] at heq
      cases heq
      exact Space.gmSparseMap_free hs.inv hb.1.2.2.2 prot maxprot
    · rw [ha] at heq
      cases heq
  · unfold Space.gmSparseFindFree
    rw [if_pos hr]

section Fixture

private def emptyArena : Space :=
  { base := 16384, stop := 32768, generation := 0, mappingGeneration := 0
    backing := fun _ => zeroPage, capacity := 1, resident := 0
    nextBacking := 0, freeBacking := [], slotCount := 16
    pages := fun _ => ⟨0, 0, 0⟩, regions := [] }

private theorem reachable_emptyArena : emptyArena.Reachable :=
  ⟨16384, 16384, 16384, true, fun _ => zeroPage, emptyArena, [], rfl, rfl⟩

private def twoPages : GuestMemory :=
  MemoryOp.apply
    (MemoryOp.apply GuestMemory.fresh (.map (fun _ => true) 16384 16384 3#32 3#32 false false))
    (.map (fun _ => true) 49152 16384 1#32 3#32 false false)

private theorem reachable_twoPages : twoPages.Reachable := .call (.call .fresh _) _

/-- An arena of four pages before anything is mapped. -/
private def fourPages : Space :=
  { emptyArena with stop := 81920, capacity := 4 }

private def twoRegions : Space :=
  fourPages.run [.map 16384 16384 3#32 3#32 false, .map 49152 16384 1#32 3#32 false]

private theorem reachable_twoRegions : twoRegions.Reachable :=
  ⟨16384, 65536, 65536, true, fun _ => zeroPage, fourPages, _, rfl, rfl⟩

/-- Between two mapped pages, and between two regions, one page is free and two are not. -/
theorem find_free_exact_between :
    twoPages.gmFindFree 16384 16384 = (.ok, some 32768) ∧
      FindsLeast (twoPages.gmFindFree 16384 16384)
        {a | 16384 ≤ a ∧ a % pageSize = 0 ∧ a + 16384 ≤ uint64Max ∧ twoPages.Vacant a 16384} ∧
    twoRegions.gmSparseFindFree 16384 = (.ok, some 32768) ∧
      FindsLeast (twoRegions.gmSparseFindFree 16384)
        {a | twoRegions.base ≤ a ∧ a % pageSize = 0 ∧ a + 16384 ≤ twoRegions.stop ∧
          Free twoRegions.regions a 16384} ∧
      (twoRegions.gmSparseMap 32768 16384 3#32 3#32 false).1 ≠ .overlap ∧
    twoRegions.gmSparseFindFree 32768 = (.nomem, none) ∧
      FindsLeast (twoRegions.gmSparseFindFree 32768)
        {a | twoRegions.base ≤ a ∧ a % pageSize = 0 ∧ a + 32768 ≤ twoRegions.stop ∧
          Free twoRegions.regions a 32768} := by
  have hone : twoRegions.gmSparseFindFree 16384 = (.ok, some 32768) := by decide
  have hsparse := (find_free_exact.2 twoRegions reachable_twoRegions 16384).1 (by decide)
  exact ⟨by decide, find_free_exact.1 _ reachable_twoPages 16384 16384 (by decide), hone,
    hsparse.1, hsparse.2 32768 hone _ _, by decide,
    ((find_free_exact.2 twoRegions reachable_twoRegions 32768).1 (by decide)).1⟩

/-- A size that is no number of pages is refused although the bytes are free. -/
theorem find_free_one :
    ∃ s : Space, s.Reachable ∧ s.gmSparseFindFree 1 = (.invalid, none) ∧
      ∃ a, s.base ≤ a ∧ a % pageSize = 0 ∧ a + 1 ≤ s.stop ∧ Free s.regions a 1 :=
  ⟨emptyArena, reachable_emptyArena, rfl, 16384, le_rfl, rfl, by decide, fun _ _ _ => rfl⟩

end Fixture

end Tolkara
