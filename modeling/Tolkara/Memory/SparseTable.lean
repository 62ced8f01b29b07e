import Tolkara.Library.Probing
import Tolkara.Memory.Sparse

/-!
# The page table of the sparse memory

The table is an instance of open addressing: `slotState` reads a slot, and
`page_slot` is the walk `Slot.probe`. `TableInv` is the invariant of the table
and of the backing arena behind it. Under it, a space is read as the partial
function `residentAt` from page addresses to a generation and the bytes, and
each operation on the table is described by what it does to that function.
-/

namespace Tolkara

namespace Space

open Library

/-- What a slot of the page table holds, with its two reserved addresses. -/
def slotState (p : Page) : Slot ℕ :=
  if p.address = 0 then .empty
  else if p.address = uint64Max then .deleted
  else .live p.address

def table (s : Space) (i : ℕ) : Slot ℕ := slotState (s.pages i)

/-- An address that can be the address of a page. -/
def PageKey (q : ℕ) : Prop := q ≠ 0 ∧ q ≠ uint64Max

instance (q : ℕ) : Decidable (PageKey q) := inferInstanceAs (Decidable (_ ∧ _))

theorem slotState_eq_live_iff {p : Page} {q : ℕ} :
    slotState p = .live q ↔ p.address = q ∧ PageKey q := by
  unfold slotState PageKey
  constructor
  · intro h
    split at h
    · cases h
    · split at h
      · cases h
      · cases h
        tauto
  · rintro ⟨rfl, h0, hmax⟩
    rw [if_neg h0, if_neg hmax]

theorem isLive_slotState {p : Page} : (slotState p).IsLive ↔ PageKey p.address := by
  constructor
  · rintro ⟨q, hq⟩
    obtain ⟨h, hk⟩ := slotState_eq_live_iff.1 hq
    rwa [h]
  · intro h
    exact ⟨p.address, slotState_eq_live_iff.2 ⟨rfl, h⟩⟩

/-- `page_slot` is the walk of open addressing. -/
theorem pageSlotLoop_eq {s : Space} {k : ℕ} (hk : s.slotCount = 2 ^ k) {q : ℕ}
    (hq : PageKey q) (insertion : Bool) :
    ∀ (steps i : ℕ) (first : Option ℕ),
      s.pageSlotLoop q insertion steps i first =
        Slot.probe s.slotCount s.table q insertion steps i first := by
  intro steps
  induction steps with
  | zero =>
      intro i first
      rfl
  | succ steps ih =>
      intro i first
      have hnext : (i + 1) &&& (s.slotCount - 1) = (i + 1) % s.slotCount := by
        rw [hk, Nat.and_two_pow_sub_one_eq_mod]
      rw [pageSlotLoop, Slot.probe, hnext, ih, table, slotState]
      by_cases h0 : (s.pages i).address = 0
      · have hne : (s.pages i).address ≠ q := by
          rw [h0]
          exact hq.1.symm
        simp [h0, hq.1.symm]
      · by_cases hm : (s.pages i).address = uint64Max
        · have hne : uint64Max ≠ q := hq.2.symm
          have hpos : uint64Max ≠ 0 := by decide
          simp [hm, hne, hpos]
        · by_cases hf : (s.pages i).address = q
          · simp [hf, hq.1, hq.2]
          · simp [h0, hm, hf]

/-- The table and the backing arena are consistent. -/
structure TableInv (s : Space) : Prop where
  size : ∃ k, s.slotCount = 2 ^ k
  room : 2 * s.capacity ≤ s.slotCount
  nonempty : 0 < s.capacity
  probed : Slot.Probed s.slotCount s.home s.table
  count : (Slot.liveSlots s.slotCount s.table).card = s.resident
  stack : s.resident + s.freeBacking.length = s.nextBacking
  bound : s.nextBacking ≤ s.capacity
  below : ∀ i < s.slotCount, PageKey (s.pages i).address → (s.pages i).backing < s.nextBacking
  distinct : ∀ i < s.slotCount, ∀ j < s.slotCount, PageKey (s.pages i).address →
    PageKey (s.pages j).address → (s.pages i).backing = (s.pages j).backing → i = j
  freeBelow : ∀ b ∈ s.freeBacking, b < s.nextBacking
  freeNodup : s.freeBacking.Nodup
  freeApart : ∀ i < s.slotCount, PageKey (s.pages i).address →
    (s.pages i).backing ∉ s.freeBacking

theorem slotCount_pos {s : Space} (h : s.TableInv) : 0 < s.slotCount := by
  have := h.room
  have := h.nonempty
  omega

theorem home_lt {s : Space} (h : s.TableInv) (q : ℕ) : s.home q < s.slotCount := by
  have hpos := slotCount_pos h
  have hle : s.home q ≤ s.slotCount - 1 := Nat.and_le_right
  omega

theorem pageSlot_eq {s : Space} (h : s.TableInv) {q : ℕ} (hq : PageKey q) (insertion : Bool) :
    s.pageSlot q insertion =
      Slot.probe s.slotCount s.table q insertion s.slotCount (s.home q) none := by
  obtain ⟨k, hk⟩ := h.size
  exact pageSlotLoop_eq hk hq insertion _ _ _

theorem pageSlot_iff {s : Space} (h : s.TableInv) {q : ℕ} (hq : PageKey q) (i : ℕ) :
    s.pageSlot q false = some i ↔ i < s.slotCount ∧ (s.pages i).address = q := by
  rw [pageSlot_eq h hq, Slot.probe_lookup_iff h.probed (home_lt h q)]
  simp only [table, slotState_eq_live_iff, and_iff_left hq]

theorem pageSlot_eq_none_iff {s : Space} (h : s.TableInv) {q : ℕ} (hq : PageKey q) :
    s.pageSlot q false = none ↔ ∀ i < s.slotCount, (s.pages i).address ≠ q := by
  rw [Option.eq_none_iff_forall_ne_some]
  simp only [ne_eq, pageSlot_iff h hq, not_and]

theorem resident_le {s : Space} (h : s.TableInv) : s.resident ≤ s.capacity := by
  have := h.stack
  have := h.bound
  omega

/-- Fewer than all slots are in use, so an insertion always finds one. -/
theorem exists_free {s : Space} (h : s.TableInv) : ∃ j < s.slotCount, ¬ (s.table j).IsLive := by
  apply Slot.exists_not_isLive
  have := resident_le h
  have := h.room
  have := h.nonempty
  rw [h.count]
  omega

theorem pageSlot_insertion_ne_none {s : Space} (h : s.TableInv) {q : ℕ} (hq : PageKey q) :
    s.pageSlot q true ≠ none := by
  rw [pageSlot_eq h hq]
  exact Slot.probe_insertion_ne_none (home_lt h q) (exists_free h)

/-! ## The resident pages -/

def residentAt (s : Space) (q : ℕ) : Option (ℕ × PageBytes) :=
  (s.pageSlot q false).map fun i => ((s.pages i).generation, s.backing (s.pages i).backing)

theorem pageSlotLoop_fields {s s' : Space} (hcount : s'.slotCount = s.slotCount)
    (hpages : s'.pages = s.pages) (q : ℕ) (insertion : Bool) (steps : ℕ) :
    ∀ (i : ℕ) (first : Option ℕ),
      s'.pageSlotLoop q insertion steps i first = s.pageSlotLoop q insertion steps i first := by
  induction steps with
  | zero =>
      intro i first
      rfl
  | succ steps ih =>
      intro i first
      rw [pageSlotLoop, pageSlotLoop, hpages, hcount]
      simp only [ih]

theorem residentAt_fields {s s' : Space} (hcount : s'.slotCount = s.slotCount)
    (hpages : s'.pages = s.pages) (hback : s'.backing = s.backing) :
    s'.residentAt = s.residentAt := by
  funext q
  rw [residentAt, residentAt, pageSlot, pageSlot, home, home, hcount,
    pageSlotLoop_fields hcount hpages, hpages, hback]

theorem residentAt_eq_some_iff {s : Space} (h : s.TableInv) {q : ℕ} (hq : PageKey q)
    (x : ℕ × PageBytes) :
    s.residentAt q = some x ↔ ∃ i < s.slotCount, (s.pages i).address = q ∧
      ((s.pages i).generation, s.backing (s.pages i).backing) = x := by
  simp only [residentAt, Option.map_eq_some_iff, pageSlot_iff h hq, and_assoc]

theorem residentAt_eq_none_iff {s : Space} (h : s.TableInv) {q : ℕ} (hq : PageKey q) :
    s.residentAt q = none ↔ ∀ i < s.slotCount, (s.pages i).address ≠ q := by
  rw [residentAt, Option.map_eq_none_iff, pageSlot_eq_none_iff h hq]

/-- A page that keeps its slot, its generation and its bytes is read as before. -/
theorem residentAt_congr {s s' : Space} (h : s.TableInv) (h' : s'.TableInv) {q : ℕ}
    (hq : PageKey q) (hcount : s'.slotCount = s.slotCount)
    (hsame : ∀ i < s.slotCount, ((s'.pages i).address = q ↔ (s.pages i).address = q))
    (hvalue : ∀ i < s.slotCount, (s.pages i).address = q →
      (s'.pages i).generation = (s.pages i).generation ∧
        s'.backing (s'.pages i).backing = s.backing (s.pages i).backing) :
    s'.residentAt q = s.residentAt q := by
  cases hres : s.residentAt q with
  | none =>
      rw [residentAt_eq_none_iff h hq] at hres
      rw [residentAt_eq_none_iff h' hq, hcount]
      intro i hi heq
      exact hres i hi ((hsame i hi).1 heq)
  | some x =>
      obtain ⟨i, hi, hadd, rfl⟩ := (residentAt_eq_some_iff h hq x).1 hres
      obtain ⟨hgen, hbytes⟩ := hvalue i hi hadd
      rw [residentAt_eq_some_iff h' hq, hcount]
      exact ⟨i, hi, (hsame i hi).2 hadd, by rw [hgen, hbytes]⟩

/-- The fields that the table operations leave alone. -/
structure SameShape (s s' : Space) : Prop where
  base : s'.base = s.base
  stop : s'.stop = s.stop
  regions : s'.regions = s.regions
  capacity : s'.capacity = s.capacity
  slotCount : s'.slotCount = s.slotCount
  mappingGeneration : s'.mappingGeneration = s.mappingGeneration
  generation : s'.generation = s.generation

theorem SameShape.refl (s : Space) : SameShape s s := ⟨rfl, rfl, rfl, rfl, rfl, rfl, rfl⟩

theorem SameShape.trans {s t u : Space} (h : SameShape s t) (h' : SameShape t u) :
    SameShape s u :=
  ⟨h'.base.trans h.base, h'.stop.trans h.stop, h'.regions.trans h.regions,
    h'.capacity.trans h.capacity, h'.slotCount.trans h.slotCount,
    h'.mappingGeneration.trans h.mappingGeneration, h'.generation.trans h.generation⟩

theorem table_update (s : Space) (i : ℕ) (p : Page) :
    (fun j => slotState (Function.update s.pages i p j)) =
      Function.update s.table i (slotState p) := by
  funext j
  by_cases hji : j = i
  · subst hji
    simp
  · simp [Function.update_of_ne hji, table]

/-! ## Allocation -/

theorem slotState_page {q : ℕ} (hq : PageKey q) (g b : ℕ) :
    slotState ⟨q, g, b⟩ = .live q := slotState_eq_live_iff.2 ⟨rfl, hq⟩

/-- The backing page an allocation takes is in the arena and in nobody's use. -/
theorem fresh_backing {s : Space} (h : s.TableInv) (hroom : s.resident < s.capacity) :
    (∀ i < s.slotCount, PageKey (s.pages i).address →
        (s.pages i).backing ≠ s.freeBacking.headD s.nextBacking) ∧
      s.freeBacking.headD s.nextBacking ∉ s.freeBacking.tail ∧
      s.freeBacking.headD s.nextBacking <
        (if s.freeBacking = [] then s.nextBacking + 1 else s.nextBacking) ∧
      (if s.freeBacking = [] then s.nextBacking + 1 else s.nextBacking) ≤ s.capacity ∧
      s.resident + 1 + s.freeBacking.tail.length =
        (if s.freeBacking = [] then s.nextBacking + 1 else s.nextBacking) := by
  have hst := h.stack
  have hbd := h.bound
  cases hf : s.freeBacking with
  | nil =>
      rw [hf] at hst
      simp only [List.headD_nil, List.tail_nil, List.not_mem_nil, not_false_eq_true, if_true,
        List.length_nil] at hst ⊢
      refine ⟨?_, trivial, by omega, by omega, by omega⟩
      intro i hi hk heq
      have := h.below i hi hk
      omega
  | cons b rest =>
      rw [hf] at hst
      have hnd := h.freeNodup
      rw [hf, List.nodup_cons] at hnd
      simp only [List.headD_cons, List.tail_cons, reduceCtorEq, if_false, List.length_cons]
        at hst ⊢
      refine ⟨?_, hnd.1, h.freeBelow b (by simp [hf]), hbd, by omega⟩
      intro i hi hk heq
      exact h.freeApart i hi hk (by simp [hf, heq])

/-- A page that was not resident becomes resident and reads as zero; nothing
else changes. -/
theorem allocatePage_spec {s : Space} (h : s.TableInv) {q : ℕ} (hq : PageKey q)
    (hnone : s.pageSlot q false = none) (hroom : s.resident < s.capacity) :
    ∃ slot s', s.allocatePage q = some (slot, s') ∧ s'.TableInv ∧ SameShape s s' ∧
      s'.resident = s.resident + 1 ∧ s'.pageSlot q false = some slot ∧
      ∀ r, PageKey r → s'.residentAt r =
        if r = q then some (0, zeroPage) else s.residentAt r := by
  have habs := (pageSlot_eq_none_iff h hq).1 hnone
  have hlive : ∀ j < s.slotCount, s.table j ≠ .live q := by
    intro j hj hl
    exact habs j hj (slotState_eq_live_iff.1 hl).1
  obtain ⟨slot, hslot, hprobe, hfree, d, hd, hds, hocc⟩ :=
    Slot.probe_insert (home_lt h q) hlive (exists_free h)
  rw [← pageSlot_eq h hq] at hprobe
  have hdead : ¬ PageKey (s.pages slot).address := by
    rwa [table, isLive_slotState] at hfree
  obtain ⟨hapart, htail, hlt, hcap, hcnt⟩ := fresh_backing h hroom
  unfold allocatePage
  rw [hprobe]
  dsimp only
  generalize hb : s.freeBacking.headD s.nextBacking = b at *
  refine ⟨slot, _, rfl, ?_⟩
  have hpages : ∀ i, i ≠ slot → Function.update s.pages slot ⟨q, 0, b⟩ i = s.pages i :=
    fun i hi => Function.update_of_ne hi _ _
  have hkey : ∀ i, PageKey (Function.update s.pages slot ⟨q, 0, b⟩ i).address →
      (i = slot ∨ i ≠ slot ∧ PageKey (s.pages i).address) := by
    intro i hi
    by_cases his : i = slot
    · exact .inl his
    · rw [hpages i his] at hi
      exact .inr ⟨his, hi⟩
  have hinv : TableInv { s with
      freeBacking := s.freeBacking.tail
      nextBacking := if s.freeBacking = [] then s.nextBacking + 1 else s.nextBacking
      backing := Function.update s.backing b zeroPage
      pages := Function.update s.pages slot ⟨q, 0, b⟩
      resident := s.resident + 1 } := by
    refine ⟨h.size, h.room, h.nonempty, ?_, ?_, hcnt, hcap, ?_, ?_, ?_, ?_, ?_⟩
    · change Slot.Probed s.slotCount s.home
        fun j => slotState (Function.update s.pages slot ⟨q, 0, b⟩ j)
      rw [table_update, slotState_page hq]
      exact h.probed.insert hlive hd hds hfree hocc
    · change (Slot.liveSlots s.slotCount
        fun j => slotState (Function.update s.pages slot ⟨q, 0, b⟩ j)).card = s.resident + 1
      rw [table_update, slotState_page hq, Slot.liveSlots_update_live hslot,
        Finset.card_insert_of_notMem, h.count]
      rw [Slot.mem_liveSlots]
      tauto
    · intro i hi hk
      dsimp only at hi hk ⊢
      rcases hkey i hk with rfl | ⟨his, hki⟩
      · simpa using hlt
      · rw [hpages i his]
        have := h.below i hi hki
        split <;> omega
    · intro i hi j hj hki hkj heq
      dsimp only at hi hj hki hkj heq
      rcases hkey i hki with rfl | ⟨his, hki'⟩
      · rcases hkey j hkj with rfl | ⟨hjs, hkj'⟩
        · rfl
        · rw [hpages j hjs, Function.update_self] at heq
          exact absurd heq.symm (hapart j hj hkj')
      · rw [hpages i his] at heq
        rcases hkey j hkj with rfl | ⟨hjs, hkj'⟩
        · rw [Function.update_self] at heq
          exact absurd heq (hapart i hi hki')
        · rw [hpages j hjs] at heq
          exact h.distinct i hi j hj hki' hkj' heq
    · intro c hc
      dsimp only at hc ⊢
      have := h.freeBelow c (List.mem_of_mem_tail hc)
      split <;> omega
    · exact h.freeNodup.tail
    · intro i hi hk
      dsimp only at hi hk ⊢
      rcases hkey i hk with rfl | ⟨his, hki⟩
      · rw [Function.update_self]
        exact htail
      · rw [hpages i his]
        intro hmem
        exact h.freeApart i hi hki (List.mem_of_mem_tail hmem)
  refine ⟨hinv, ⟨rfl, rfl, rfl, rfl, rfl, rfl, rfl⟩, rfl, ?_, ?_⟩
  · rw [pageSlot_iff hinv hq]
    exact ⟨hslot, by simp⟩
  · intro r hr
    by_cases hrq : r = q
    · subst hrq
      rw [if_pos rfl, residentAt_eq_some_iff hinv hr]
      exact ⟨slot, hslot, by simp, by simp⟩
    · rw [if_neg hrq]
      apply residentAt_congr h hinv hr rfl
      · intro i hi
        by_cases his : i = slot
        · subst his
          dsimp only
          rw [Function.update_self]
          constructor
          · intro heq
            exact absurd heq.symm hrq
          · intro heq
            exact absurd (heq ▸ hr) hdead
        · dsimp only
          rw [hpages i his]
      · intro i hi hadd
        have hki : PageKey (s.pages i).address := by rwa [hadd]
        have his : i ≠ slot := by
          rintro rfl
          exact hdead hki
        dsimp only
        rw [hpages i his, Function.update_of_ne (hapart i hi hki)]
        exact ⟨rfl, rfl⟩

/-- `slotFor` finds or makes the page, without changing what it holds. -/
theorem slotFor_spec {s : Space} (h : s.TableInv) {q : ℕ} (hq : PageKey q)
    (hroom : s.pageSlot q false = none → s.resident < s.capacity) :
    ∃ slot s', s.slotFor q = some (slot, s') ∧ s'.TableInv ∧ SameShape s s' ∧
      s'.resident = s.resident + (if s.residentAt q = none then 1 else 0) ∧
      s'.pageSlot q false = some slot ∧
      ∀ r, PageKey r → s'.residentAt r =
        if r = q then some ((s.residentAt q).getD (0, zeroPage)) else s.residentAt r := by
  unfold slotFor
  cases hslot : s.pageSlot q false with
  | some slot =>
      refine ⟨slot, s, rfl, h, SameShape.refl s, by simp [residentAt, hslot], hslot, ?_⟩
      intro r hr
      by_cases hrq : r = q
      · simp [hrq, residentAt, hslot]
      · rw [if_neg hrq]
  | none =>
      have hnone : s.residentAt q = none := by simp [residentAt, hslot]
      obtain ⟨slot, s', hs', hinv, hshape, hres, hfound, hpages⟩ :=
        allocatePage_spec h hq hslot (hroom hslot)
      refine ⟨slot, s', hs', hinv, hshape, by simp [hres, hnone], hfound, ?_⟩
      simpa [hnone] using hpages

/-! ## Stores -/

/-- A store to a resident page changes its bytes and stamps it with the current
generation. -/
theorem storeChunk_spec {s : Space} (h : s.TableInv) {q slot : ℕ} (hq : PageKey q)
    (hslot : s.pageSlot q false = some slot) (offset n : ℕ) (buffer : Buffer) :
    let s' := s.storeChunk slot offset n buffer
    s'.TableInv ∧ SameShape s s' ∧ s'.resident = s.resident ∧
      ∀ r, PageKey r → s'.residentAt r =
        if r = q then (s.residentAt q).map fun x =>
          (s.generation, pageStore x.2 offset n buffer)
        else s.residentAt r := by
  obtain ⟨hlt, hadd⟩ := (pageSlot_iff h hq slot).1 hslot
  have hkey : PageKey (s.pages slot).address := by rwa [hadd]
  intro s'
  have hpages : ∀ i, (s'.pages i).address = (s.pages i).address ∧
      (s'.pages i).backing = (s.pages i).backing ∧
      (i ≠ slot → (s'.pages i).generation = (s.pages i).generation) := by
    intro i
    by_cases his : i = slot
    · subst his
      simp [s', storeChunk]
    · simp [s', storeChunk, Function.update_of_ne his]
  have htable : s'.table = s.table := by
    funext i
    rw [table, table, slotState, slotState, (hpages i).1]
  have hinv : s'.TableInv := by
    refine ⟨h.size, h.room, h.nonempty, ?_, ?_, h.stack, h.bound, ?_, ?_, h.freeBelow,
      h.freeNodup, ?_⟩
    · rw [htable]
      exact h.probed
    · rw [htable]
      exact h.count
    · intro i hi hk
      rw [(hpages i).2.1]
      rw [(hpages i).1] at hk
      exact h.below i hi hk
    · intro i hi j hj hki hkj heq
      rw [(hpages i).2.1, (hpages j).2.1] at heq
      rw [(hpages i).1] at hki
      rw [(hpages j).1] at hkj
      exact h.distinct i hi j hj hki hkj heq
    · intro i hi hk
      rw [(hpages i).2.1]
      rw [(hpages i).1] at hk
      exact h.freeApart i hi hk
  refine ⟨hinv, ⟨rfl, rfl, rfl, rfl, rfl, rfl, rfl⟩, rfl, ?_⟩
  intro r hr
  by_cases hrq : r = q
  · subst hrq
    rw [if_pos rfl, residentAt, residentAt, hslot]
    have hslot' : s'.pageSlot r false = some slot := by
      rw [pageSlot_iff hinv hr]
      exact ⟨hlt, (hpages slot).1.trans hadd⟩
    rw [hslot']
    simp [s', storeChunk]
  · rw [if_neg hrq]
    apply residentAt_congr h hinv hr rfl
    · intro i hi
      rw [(hpages i).1]
    · intro i hi hi'
      have his : i ≠ slot := by
        rintro rfl
        exact hrq (hi'.symm.trans hadd)
      refine ⟨(hpages i).2.2 his, ?_⟩
      rw [(hpages i).2.1]
      apply Function.update_of_ne
      intro heq
      exact his (h.distinct i hi slot hlt (by rwa [hi']) hkey heq)

/-! ## Discarding -/

/-- A discarded slot leaves the table; its backing page goes to the stack. -/
theorem discardSlot_spec {s : Space} (h : s.TableInv) (lo hi : ℕ) {i : ℕ}
    (hi' : i < s.slotCount) :
    (s.discardSlot lo hi i).TableInv ∧ SameShape s (s.discardSlot lo hi i) ∧
      (∀ j, (s.discardSlot lo hi i).pages j =
        if j = i ∧ Holds (s.pages i) lo hi then { s.pages i with address := uint64Max }
        else s.pages j) ∧
      (s.discardSlot lo hi i).backing = s.backing := by
  unfold discardSlot
  by_cases hold : Holds (s.pages i) lo hi
  · rw [if_pos hold]
    have hkey : PageKey (s.pages i).address := ⟨hold.1, hold.2.1⟩
    have hlive : s.table i = .live (s.pages i).address := slotState_eq_live_iff.2 ⟨rfl, hkey⟩
    have hdel : slotState { s.pages i with address := uint64Max } = .deleted := by
      simp [slotState, uint64Max]
    have hsplit : ∀ j, PageKey (Function.update s.pages i
        { s.pages i with address := uint64Max } j).address →
        j ≠ i ∧ PageKey (s.pages j).address ∧ Function.update s.pages i
          { s.pages i with address := uint64Max } j = s.pages j := by
      intro j hj
      by_cases hji : j = i
      · subst hji
        rw [Function.update_self] at hj
        exact absurd rfl hj.2
      · rw [Function.update_of_ne hji] at hj
        exact ⟨hji, hj, Function.update_of_ne hji _ _⟩
    have hmem : i ∈ Slot.liveSlots s.slotCount s.table := by
      rw [Slot.mem_liveSlots]
      exact ⟨hi', _, hlive⟩
    have hpos : 0 < s.resident := by
      rw [← h.count]
      exact Finset.card_pos.2 ⟨i, hmem⟩
    refine ⟨⟨h.size, h.room, h.nonempty, ?_, ?_, ?_, h.bound, ?_, ?_, ?_, ?_, ?_⟩,
      ⟨rfl, rfl, rfl, rfl, rfl, rfl, rfl⟩, ?_, rfl⟩
    · change Slot.Probed s.slotCount s.home fun j => slotState (Function.update s.pages i
        { s.pages i with address := uint64Max } j)
      rw [table_update, hdel]
      exact h.probed.delete i
    · change (Slot.liveSlots s.slotCount fun j => slotState (Function.update s.pages i
        { s.pages i with address := uint64Max } j)).card = s.resident - 1
      rw [table_update, hdel, Slot.liveSlots_update_deleted, Finset.card_erase_of_mem hmem,
        h.count]
    · have := h.stack
      simp only [List.length_cons]
      omega
    · intro j hj hk
      obtain ⟨-, hkey', heq⟩ := hsplit j hk
      dsimp only at hj ⊢
      rw [heq]
      exact h.below j hj hkey'
    · intro j hj k hk hkj hkk heq
      obtain ⟨-, hkj', hj'⟩ := hsplit j hkj
      obtain ⟨-, hkk', hk'⟩ := hsplit k hkk
      dsimp only at hj hk heq
      rw [hj', hk'] at heq
      exact h.distinct j hj k hk hkj' hkk' heq
    · intro b hb
      rcases List.mem_cons.1 hb with rfl | hb
      · exact h.below i hi' hkey
      · exact h.freeBelow b hb
    · exact List.nodup_cons.2 ⟨h.freeApart i hi' hkey, h.freeNodup⟩
    · intro j hj hk
      obtain ⟨hji, hkj', heq⟩ := hsplit j hk
      dsimp only at hj ⊢
      rw [heq]
      intro hmem
      rcases List.mem_cons.1 hmem with hb | hb
      · exact hji (h.distinct j hj i hi' hkj' hkey hb)
      · exact h.freeApart j hj hkj' hb
    · intro j
      by_cases hji : j = i
      · subst hji
        simp [hold]
      · simp [hji]
  · rw [if_neg hold]
    refine ⟨h, SameShape.refl s, ?_, rfl⟩
    intro j
    rw [if_neg (by tauto)]

theorem discardLoop_spec {s : Space} (h : s.TableInv) (lo hi : ℕ) {count : ℕ}
    (hcount : count ≤ s.slotCount) :
    (s.discardLoop lo hi count).TableInv ∧ SameShape s (s.discardLoop lo hi count) ∧
      (∀ j, (s.discardLoop lo hi count).pages j =
        if j < count ∧ Holds (s.pages j) lo hi then { s.pages j with address := uint64Max }
        else s.pages j) ∧
      (s.discardLoop lo hi count).backing = s.backing := by
  induction count with
  | zero => exact ⟨h, SameShape.refl s, by simp [discardLoop], rfl⟩
  | succ count ih =>
      obtain ⟨hinv, hshape, hpages, hback⟩ := ih (by omega)
      have hlt : count < (s.discardLoop lo hi count).slotCount := by
        rw [hshape.slotCount]
        omega
      obtain ⟨hinv', hshape', hpages', hback'⟩ := discardSlot_spec hinv lo hi hlt
      refine ⟨hinv', hshape.trans hshape', ?_, hback'.trans hback⟩
      have hhere : (s.discardLoop lo hi count).pages count = s.pages count := by
        rw [hpages, if_neg (by omega)]
      intro j
      rw [discardLoop, hpages', hhere, hpages]
      by_cases hj : j = count
      · subst hj
        simp
      · have : j < count + 1 ↔ j < count := by omega
        simp [hj, this]

theorem discardPages_spec {s : Space} (h : s.TableInv) (lo hi : ℕ) :
    (s.discardPages lo hi).TableInv ∧ SameShape s (s.discardPages lo hi) ∧
      ∀ q, PageKey q → (s.discardPages lo hi).residentAt q =
        if lo ≤ q ∧ q < hi then none else s.residentAt q := by
  unfold discardPages
  obtain ⟨hinv, hshape, hpages, hback⟩ := discardLoop_spec h lo hi le_rfl
  set s' := s.discardLoop lo hi s.slotCount with hs'
  refine ⟨hinv, hshape, ?_⟩
  intro q hq
  have hpage : ∀ i < s.slotCount, (s'.pages i).address = q →
      ¬ Holds (s.pages i) lo hi ∧ (s.pages i).address = q := by
    intro i hi' heq
    rw [hpages] at heq
    split at heq
    · exact absurd heq.symm hq.2
    · rename_i hno
      exact ⟨fun hold => hno ⟨hi', hold⟩, heq⟩
  by_cases hrange : lo ≤ q ∧ q < hi
  · rw [if_pos hrange, residentAt_eq_none_iff hinv hq]
    intro i hi' heq
    obtain ⟨hno, hadd⟩ := hpage i (by rwa [hshape.slotCount] at hi') heq
    subst hadd
    exact hno ⟨hq.1, hq.2, hrange.1, hrange.2⟩
  · rw [if_neg hrange]
    have hkeep : ∀ i, (s.pages i).address = q →
        s'.pages i = s.pages i := by
      intro i hadd
      rw [hpages, if_neg]
      rintro ⟨-, -, -, h1, h2⟩
      rw [hadd] at h1 h2
      exact hrange ⟨h1, h2⟩
    apply residentAt_congr h hinv hq hshape.slotCount
    · intro i hi'
      constructor
      · intro heq
        exact (hpage i hi' heq).2
      · intro hadd
        rw [hkeep i hadd, hadd]
    · intro i hi' hadd
      rw [hkeep i hadd, hback]
      exact ⟨rfl, rfl⟩

/-- A table with nothing resident reads as empty. -/
theorem residentAt_eq_none_of_resident {s : Space} (h : s.TableInv) (hres : s.resident = 0)
    {q : ℕ} (hq : PageKey q) : s.residentAt q = none := by
  rw [residentAt_eq_none_iff h hq]
  intro i hi hadd
  have hmem : i ∈ Slot.liveSlots s.slotCount s.table := by
    rw [Slot.mem_liveSlots]
    exact ⟨hi, q, slotState_eq_live_iff.2 ⟨hadd, hq⟩⟩
  have hcard := h.count
  rw [hres, Finset.card_eq_zero] at hcard
  simp [hcard] at hmem

/-! ## The empty table -/

theorem slotsLoop_spec {capacity slots : ℕ} :
    ∀ {fuel start : ℕ}, (∃ k, start = 2 ^ k) → slotsLoop capacity fuel start = some slots →
      (∃ k, slots = 2 ^ k) ∧ 2 * capacity ≤ slots := by
  intro fuel
  induction fuel with
  | zero =>
      intro start _ h
      simp [slotsLoop] at h
  | succ fuel ih =>
      rintro start ⟨k, hk⟩ h
      rw [slotsLoop] at h
      split at h
      · split at h
        · simp at h
        · exact ih ⟨k + 1, by rw [hk, pow_succ]⟩ h
      · rename_i hle
        cases h
        exact ⟨⟨k, hk⟩, by omega⟩

theorem tableInv_of_empty {s : Space} (hsize : ∃ k, s.slotCount = 2 ^ k)
    (hroom : 2 * s.capacity ≤ s.slotCount) (hcap : 0 < s.capacity)
    (hpages : ∀ i, (s.pages i).address = 0) (hres : s.resident = 0) (hnext : s.nextBacking = 0)
    (hfree : s.freeBacking = []) : s.TableInv := by
  have htable : s.table = fun _ => .empty := by
    funext i
    simp [table, slotState, hpages]
  have hdead : ∀ i, ¬ PageKey (s.pages i).address := by
    intro i hk
    exact hk.1 (hpages i)
  refine ⟨hsize, hroom, hcap, ?_, ?_, ?_, ?_, ?_, ?_, ?_, ?_, ?_⟩
  · rw [htable]
    exact Slot.Probed.empty
  · rw [htable, hres, Finset.card_eq_zero]
    ext j
    simp
  · simp [hres, hnext, hfree]
  · omega
  · intro i _ hk
    exact absurd hk (hdead i)
  · intro i _ j _ hk
    exact absurd hk (hdead i)
  · simp [hfree]
  · simp [hfree]
  · intro i _ hk
    exact absurd hk (hdead i)

end Space

end Tolkara
