import Tolkara.Memory.SparseAccess

/-!
# What the calls of the sparse memory do

One description for each kind of effect: `Wrote` for a write, `Prepared` for
`gm_sparse_prepare`, `Changed` for a map, an unmap or a protect. Each carries
the invariant of the new space and says what became of the permissions, the
resident pages and the two generations. The operations are then described by
when they answer what, and which effect they have.
-/

namespace Tolkara

namespace Space

open Library TaggedInterval

/-- The fields that no call changes after the initialization. -/
structure SameArena (s s' : Space) : Prop where
  base : s'.base = s.base
  stop : s'.stop = s.stop
  capacity : s'.capacity = s.capacity

theorem SameArena.refl (s : Space) : SameArena s s := ⟨rfl, rfl, rfl⟩

theorem SameArena.trans {s t u : Space} (h : SameArena s t) (h' : SameArena t u) :
    SameArena s u :=
  ⟨h'.base.trans h.base, h'.stop.trans h.stop, h'.capacity.trans h.capacity⟩

/-- `n` bytes of `buffer` were written at `a`. -/
structure Wrote (s s' : Space) (a n : ℕ) (buffer : Buffer) : Prop where
  inv : s'.Inv
  arena : SameArena s s'
  regions : s'.regions = s.regions
  generation : s'.generation = s.generation + 1
  mappingGeneration : s'.mappingGeneration = s.mappingGeneration
  pages : ∀ q, PageKey q → s'.residentAt q =
    if Touches a n q then some (s.generation + 1, overwrite a n buffer q (s.bytesAt q))
    else s.residentAt q

/-- Some pages became resident; none changed. -/
structure Prepared (s s' : Space) : Prop where
  inv : s'.Inv
  arena : SameArena s s'
  regions : s'.regions = s.regions
  generation : s'.generation = s.generation
  mappingGeneration : s'.mappingGeneration = s.mappingGeneration
  pages : ∀ q, PageKey q → s'.residentAt q = s.residentAt q ∨
    s.residentAt q = none ∧ s'.residentAt q = some (0, zeroPage)

structure Changed (s s' : Space) (op : Operation) (a n : ℕ) (prot maxprot : Prot) : Prop where
  inv : s'.Inv
  arena : SameArena s s'
  regions : ∀ x, cover s'.regions x = changed op a (a + n) prot maxprot x (cover s.regions x)
  generation : s'.generation = s.generation
  mappingGeneration : s'.mappingGeneration = s.mappingGeneration + 1
  pages : ∀ q, PageKey q → s'.residentAt q =
    if op ≠ .protect ∧ a ≤ q ∧ q < a + n then none else s.residentAt q

/-- An operation that leaves the regions alone and makes no page resident that
is not mapped keeps the invariant. -/
theorem Inv.of_table {s s' : Space} (h : s.Inv) (ht : s'.TableInv) (hbase : s'.base = s.base)
    (hstop : s'.stop = s.stop) (hregions : s'.regions = s.regions)
    (hmapped : ∀ q, PageKey q → s'.residentAt q ≠ none →
      s.residentAt q ≠ none ∨ q % pageSize = 0 ∧ cover s.regions q ≠ none) : s'.Inv := by
  refine ⟨ht, ?_, ?_, ?_, ?_, ?_, ?_, ?_⟩
  · rw [hbase]
    exact h.base_pos
  · rw [hstop]
    exact h.stop_le
  · rw [hregions]
    exact h.normal
  · rw [hregions]
    exact h.limit
  · rw [hregions]
    exact h.aligned
  · rw [hregions, hbase, hstop]
    exact h.inside
  · rw [hregions]
    intro q hq hres
    rcases hmapped q hq hres with h' | h'
    · exact h.mapped q hq h'
    · exact h'

/-! ## Reads and writes -/

theorem accessLocked_read (s : Space) (a : ℕ) (buffer : Buffer) (n : ℕ) :
    s.accessLocked a (some buffer) n false =
      (s.checkAccess a n GM.READ, s,
        if s.checkAccess a n GM.READ = .ok then (List.range n).map fun i => s.byteAt (a + i)
        else []) := by
  unfold accessLocked
  dsimp only
  by_cases hok : s.checkAccess a n GM.READ = .ok
  · by_cases h0 : n = 0
    · subst h0
      simp [hok]
    · simp [hok, h0, s.readLoop_eq n a n le_rfl]
  · simp [hok]

/-- Whether the pages a write would create fit into the arena. -/
def Fits (s : Space) (a n : ℕ) : Prop :=
  s.missing (a / pageSize) (pageCount a n) ≤ s.capacity - s.resident

instance (s : Space) (a n : ℕ) : Decidable (s.Fits a n) :=
  inferInstanceAs (Decidable (_ ≤ _))

theorem preflight_eq_decide (s : Space) (a n : ℕ) :
    s.preflight (a + n) (pageCount a n) (pageBase a) 0 = decide (s.Fits a n) := by
  rw [pageBase_eq, preflight_eq _ _ _ (fun i hi => page_lt_of_pageCount hi) (Nat.zero_le _)]
  rw [Nat.zero_add]
  rfl

theorem cover_of_touches {s : Space} (h : s.Inv) {a n q : ℕ} {permission : Prot}
    (hok : s.checkAccess a n permission = .ok) (ht : Touches a n q) :
    q % pageSize = 0 ∧ cover s.regions q ≠ none := by
  obtain ⟨x, hax, hxs, rfl⟩ := touches_iff_exists.1 ht
  obtain ⟨t, ht, -⟩ := (cover_of_checkAccess h hok).2 x hax hxs
  rw [cover_pageBase h.aligned, ht]
  exact ⟨pageBase_mod x, by simp⟩

theorem pageKey_of_checkAccess {s : Space} (h : s.Inv) {a n : ℕ} {permission : Prot}
    (hok : s.checkAccess a n permission = .ok) {x : ℕ} (hax : a ≤ x) (hxs : x < a + n) :
    PageKey (pageBase x) := by
  obtain ⟨t, ht, -⟩ := (cover_of_checkAccess h hok).2 x hax hxs
  apply pageKey_of_cover h
  rw [ht]
  simp

theorem accessLocked_write {s : Space} (h : s.Inv) (a : ℕ) (buffer : Buffer) (n : ℕ) :
    (s.accessLocked a (some buffer) n true = (s.checkAccess a n GM.WRITE, s, []) ∧
        (s.checkAccess a n GM.WRITE ≠ .ok ∨ n = 0)) ∨
      (s.accessLocked a (some buffer) n true = (.nomem, s, []) ∧
        s.checkAccess a n GM.WRITE = .ok ∧ n ≠ 0 ∧ ¬ s.Fits a n) ∨
      ∃ s', s.accessLocked a (some buffer) n true = (.ok, s', []) ∧
        s.checkAccess a n GM.WRITE = .ok ∧ n ≠ 0 ∧ s.Fits a n ∧ Wrote s s' a n buffer := by
  have heq : s.accessLocked a (some buffer) n true =
      if s.checkAccess a n GM.WRITE ≠ .ok ∨ n = 0 then (s.checkAccess a n GM.WRITE, s, [])
      else if s.preflight (a + n) (pageCount a n) (pageBase a) 0 = false then (.nomem, s, [])
      else (.ok, writeLoop n { s with generation := s.generation + 1 } a buffer n, []) := rfl
  rw [heq]
  by_cases hno : s.checkAccess a n GM.WRITE ≠ .ok ∨ n = 0
  · exact .inl ⟨by rw [if_pos hno], hno⟩
  rw [if_neg hno]
  push Not at hno
  obtain ⟨hok, h0⟩ := hno
  rw [preflight_eq_decide]
  by_cases hfits : s.Fits a n
  swap
  · exact .inr (.inl ⟨by simp [hfits], hok, h0, hfits⟩)
  refine .inr (.inr ⟨writeLoop n { s with generation := s.generation + 1 } a buffer n,
    by simp [hfits], hok, h0, hfits, ?_⟩)
  have ht := h.table
  generalize hs₀ : ({ s with generation := s.generation + 1 } : Space) = s₀
  have hres₀ : s₀.residentAt = s.residentAt := by
    subst hs₀
    exact residentAt_fields rfl rfl rfl
  have hinv₀ : s₀.TableInv := by
    subst hs₀
    exact ⟨ht.size, ht.room, ht.nonempty, ht.probed, ht.count, ht.stack, ht.bound, ht.below,
      ht.distinct, ht.freeBelow, ht.freeNodup, ht.freeApart⟩
  have hfits₀ : s₀.missing (a / pageSize) (pageCount a n) ≤ s₀.capacity - s₀.resident := by
    have hsame : s₀.missing (a / pageSize) (pageCount a n) =
        s.missing (a / pageSize) (pageCount a n) := missing_congr fun i _ => by rw [hres₀]
    rw [hsame]
    subst hs₀
    exact hfits
  obtain ⟨hinv, hshape, hpages⟩ := writeLoop_spec n s₀ a n buffer hinv₀ le_rfl
    (fun x h1 h2 => pageKey_of_checkAccess h hok h1 h2) hfits₀
  have hbytes : ∀ q, s₀.bytesAt q = s.bytesAt q := by
    intro q
    rw [bytesAt, bytesAt, hres₀]
  have hgen : s₀.generation = s.generation + 1 := by rw [← hs₀]
  simp only [hres₀, hbytes, hgen] at hpages
  have hshape₀ : s₀.base = s.base ∧ s₀.stop = s.stop ∧ s₀.regions = s.regions ∧
      s₀.capacity = s.capacity ∧ s₀.mappingGeneration = s.mappingGeneration := by
    subst hs₀
    exact ⟨rfl, rfl, rfl, rfl, rfl⟩
  obtain ⟨hbase, hstop, hregions, hcap, hmgen⟩ := hshape₀
  refine ⟨?_, ⟨hshape.base.trans hbase, hshape.stop.trans hstop, hshape.capacity.trans hcap⟩,
    hshape.regions.trans hregions, hshape.generation.trans hgen,
    hshape.mappingGeneration.trans hmgen, hpages⟩
  apply h.of_table hinv (hshape.base.trans hbase) (hshape.stop.trans hstop)
    (hshape.regions.trans hregions)
  intro q hq hres
  rw [hpages q hq] at hres
  by_cases htouch : Touches a n q
  · exact .inr (cover_of_touches h hok htouch)
  · rw [if_neg htouch] at hres
    exact .inl hres

theorem gmSparsePrepare_spec {s : Space} (h : s.Inv) (a n : ℕ) (permissions : Prot) :
    ((s.gmSparsePrepare a n permissions).2 = s ∧
        ((s.gmSparsePrepare a n permissions).1 = .ok →
          n = 0 ∨ permissions &&& GM.WRITE = 0#32)) ∨
      (s.gmSparsePrepare a n permissions).1 = .ok ∧
        Prepared s (s.gmSparsePrepare a n permissions).2 ∧
        ∀ q, Touches a n q → (s.gmSparsePrepare a n permissions).2.residentAt q ≠ none := by
  unfold gmSparsePrepare
  split
  · exact .inl ⟨rfl, nofun⟩
  dsimp only
  split
  · rename_i hno
    exact .inl ⟨rfl, fun hok => hno.resolve_left (not_not.2 hok)⟩
  split
  · exact .inl ⟨rfl, nofun⟩
  rename_i hno hfits
  right
  push Not at hno
  rw [preflight_eq_decide, decide_eq_false_iff_not, not_not] at hfits
  refine ⟨rfl, ?_⟩
  dsimp only
  have hpage : ∀ i < pageCount a n, ∃ x, a ≤ x ∧ x < a + n ∧
      pageBase x = (a / pageSize + i) * pageSize := by
    intro i hi
    have hlt := page_lt_of_pageCount hi
    refine ⟨max a ((a / pageSize + i) * pageSize), le_max_left _ _, ?_, ?_⟩
    · have := hno.2.1
      omega
    · unfold pageBase pageSize
      omega
  obtain ⟨hinv, hshape, hpages⟩ := prepareLoop_spec (a + n) (pageCount a n)
    (a / pageSize) s h.table (fun i hi => page_lt_of_pageCount hi) (by
      intro i hi
      obtain ⟨x, h1, h2, h3⟩ := hpage i hi
      rw [← h3]
      exact pageKey_of_checkAccess h hno.1 h1 h2) hfits
  rw [← pageBase_eq] at hinv hshape hpages
  refine ⟨⟨?_, ⟨hshape.base, hshape.stop, hshape.capacity⟩, hshape.regions, hshape.generation,
    hshape.mappingGeneration, ?_⟩, ?_⟩
  · apply h.of_table hinv hshape.base hshape.stop hshape.regions
    intro q hq hres
    rw [hpages q hq] at hres
    split at hres
    · rename_i hex
      obtain ⟨i, hi, rfl⟩ := hex
      obtain ⟨x, h1, h2, h3⟩ := hpage i hi
      right
      rw [← h3]
      exact cover_of_touches h hno.1 (touches_iff_exists.2 ⟨x, h1, h2, rfl⟩)
    · exact .inl hres
  · intro q hq
    rw [hpages q hq]
    split
    · cases hres : s.residentAt q with
      | none => exact .inr ⟨rfl, rfl⟩
      | some x => exact .inl rfl
    · exact .inl rfl
  · intro q ht
    have hpage := touches_iff_page.1 ht
    obtain ⟨x, h1, h2, rfl⟩ := touches_iff_exists.1 ht
    rw [hpages _ (pageKey_of_checkAccess h hno.1 h1 h2), if_pos hpage]
    exact Option.some_ne_none _

/-! ## Mappings -/

/-- The requests `change` looks at further. -/
def Admissible (s : Space) (a n : ℕ) (prot maxprot : Prot) : Prop :=
  PageRange a n ∧ s.Contains a n ∧ ProtOk prot maxprot

instance (s : Space) (a n : ℕ) (prot maxprot : Prot) :
    Decidable (s.Admissible a n prot maxprot) :=
  inferInstanceAs (Decidable (_ ∧ _ ∧ _))

/-- What else stops an admissible request: a map that may not replace meets a
mapping, a protect meets a gap, or a permission that is not allowed. -/
def Obstacle (s : Space) (op : Operation) (replace : Bool) (a n : ℕ) (prot : Prot)
    (result : GMResult) : Prop :=
  match op with
  | .map => replace = false ∧ result = .overlap ∧
      ∃ x, a ≤ x ∧ x < a + n ∧ cover s.regions x ≠ none
  | .unmap => False
  | .protect =>
      result = .unmapped ∧ (∃ x, a ≤ x ∧ x < a + n ∧ cover s.regions x = none) ∨
      result = .protection ∧ (∀ x, a ≤ x → x < a + n → cover s.regions x ≠ none) ∧
        ∃ x t, a ≤ x ∧ x < a + n ∧ cover s.regions x = some t ∧ prot &&& ~~~t.2 ≠ 0#32

/-- Nothing of that kind is in the way. -/
def Clear (s : Space) (op : Operation) (replace : Bool) (a n : ℕ) (prot : Prot) : Prop :=
  match op with
  | .map => replace = false → ∀ x, a ≤ x → x < a + n → cover s.regions x = none
  | .unmap => True
  | .protect => ∀ x, a ≤ x → x < a + n →
      ∃ t, cover s.regions x = some t ∧ prot &&& ~~~t.2 = 0#32

/-- Some table of at most `REGION_LIMIT` ordered regions describes the
permissions after the change. -/
def Describable (s : Space) (op : Operation) (a n : ℕ) (prot maxprot : Prot) : Prop :=
  ∃ l : List Region, Ordered l ∧ l.length ≤ regionLimit ∧
    ∀ x, cover l x = changed op a (a + n) prot maxprot x (cover s.regions x)

/-- The end of `change`: the pages of the range go, the new list is put in place. -/
def install (s : Space) (op : Operation) (a n : ℕ) (regions : List Region) : Space :=
  let s := if s.resident ≠ 0 ∧ op ≠ .protect then s.discardPages a (a + n) else s
  { s with regions := regions, mappingGeneration := s.mappingGeneration + 1 }

theorem change_eq {s : Space} (h : s.Inv) {a n : ℕ} {prot maxprot : Prot} (replace : Bool)
    (op : Operation) (hadm : s.Admissible a n prot maxprot) :
    (∃ result, s.Obstacle op replace a n prot result ∧
        s.change a n prot maxprot replace op = (result, s)) ∨
      s.Clear op replace a n prot ∧ s.change a n prot maxprot replace op =
        match rebuild op a (a + n) prot maxprot s.regions with
        | none => (.nomem, s)
        | some regions => (.ok, s.install op a n regions) := by
  obtain ⟨hrange, hin, hprot⟩ := hadm
  have has : a < a + n := by
    have := hrange.1
    omega
  have hord := h.normal.1
  unfold change
  rw [if_neg (by tauto)]
  cases op with
  | map =>
      rcases coverLoop_map replace a (a + n) s.regions a with ⟨heq, hrep, hmeet⟩ | ⟨heq, hno⟩
      · left
        refine ⟨.overlap, ⟨hrep, rfl, (exists_overlap_iff hord has).1 hmeet⟩, ?_⟩
        dsimp only
        rw [heq]
      · right
        refine ⟨?_, ?_⟩
        · intro hrep x hax hxs
          by_contra hx
          obtain ⟨r, hr, hmeet⟩ := (exists_overlap_iff hord has).2 ⟨x, hax, hxs, hx⟩
          exact hmeet (hno hrep r hr)
        · dsimp only
          rw [heq]
          simp only [reduceCtorEq, false_and, if_false]
          rfl
  | unmap =>
      right
      refine ⟨trivial, ?_⟩
      dsimp only
      rw [coverLoop_unmap]
      simp only [reduceCtorEq, false_and, if_false]
      rfl
  | protect =>
      dsimp only
      rcases coverLoop_protect replace (a + n) hord (c := a) le_rfl (by omega) (.inl rfl) with
        ⟨heq, hall⟩ | ⟨heq, x, hax, hxs, hx⟩
      · rw [heq]
        dsimp only
        rw [if_neg (by simp)]
        by_cases hdeny : s.regions.any (fun r =>
            r.stop > a && r.start < a + n && prot &&& ~~~r.maxprot != 0#32) = true
        · left
          rw [if_pos ⟨rfl, hdeny⟩]
          refine ⟨.protection, .inr ⟨rfl, hall, ?_⟩, rfl⟩
          obtain ⟨r, hr, hcond⟩ := List.any_eq_true.1 hdeny
          simp only [Bool.and_eq_true, decide_eq_true_eq, bne_iff_ne] at hcond
          have hlt := hord.1 r hr
          have hc : r.Contains (max a r.start) := ⟨le_max_right _ _, by omega⟩
          exact ⟨max a r.start, r.tag, le_max_left _ _, by omega, cover_eq_some_of_mem hord hr hc,
            hcond.2⟩
        · right
          rw [if_neg (by tauto)]
          refine ⟨?_, rfl⟩
          intro x hax hxs
          obtain ⟨t, ht⟩ := Option.ne_none_iff_exists'.1 (hall x hax hxs)
          refine ⟨t, ht, ?_⟩
          obtain ⟨r, hr, hc, rfl⟩ := mem_of_cover_eq_some ht
          by_contra hbad
          apply hdeny
          rw [List.any_eq_true]
          refine ⟨r, hr, ?_⟩
          have := hc.1
          have := hc.2
          simp only [Bool.and_eq_true, decide_eq_true_eq, bne_iff_ne]
          exact ⟨⟨by omega, by omega⟩, hbad⟩
      · left
        refine ⟨.unmapped, .inl ⟨rfl, x, hax, hxs, hx⟩, ?_⟩
        rcases heq with heq | ⟨d, hd, heq⟩
        · rw [heq]
        · rw [heq]
          dsimp only
          rw [if_pos ⟨rfl, hd⟩]

/-- A protect needs a mapping everywhere, so no page of it turns up unmapped. -/
theorem cover_changed_ne_none {s : Space} {op : Operation} {a n : ℕ} {prot maxprot : Prot}
    {x : ℕ} (hx : cover s.regions x ≠ none)
    (hout : ¬ (op ≠ .protect ∧ a ≤ x ∧ x < a + n)) :
    changed op a (a + n) prot maxprot x (cover s.regions x) ≠ none := by
  by_cases hr : a ≤ x ∧ x < a + n
  · have hop : op = .protect := by tauto
    subst hop
    simpa [changed, hr] using hx
  · rwa [changed_of_not hr]

theorem install_spec {s : Space} (h : s.Inv) {op : Operation} {a n : ℕ} {prot maxprot : Prot}
    {m : List Region} (hn : Normal m) (hlen : m.length ≤ regionLimit)
    (hcov : ∀ x, cover m x = changed op a (a + n) prot maxprot x (cover s.regions x))
    (hends : ∀ r ∈ m, (r.start % pageSize = 0 ∧ s.base ≤ r.start) ∧
      (r.stop % pageSize = 0 ∧ r.stop ≤ s.stop)) :
    Changed s (s.install op a n m) op a n prot maxprot := by
  -- The table of the space before the list is put in place.
  have htab : ∃ t : Space, t.TableInv ∧ SameShape s t ∧
      (s.install op a n m = { t with
        regions := m, mappingGeneration := t.mappingGeneration + 1 }) ∧
      ∀ q, PageKey q → t.residentAt q =
        if op ≠ .protect ∧ a ≤ q ∧ q < a + n then none else s.residentAt q := by
    by_cases hd : s.resident ≠ 0 ∧ op ≠ .protect
    · obtain ⟨hinv, hshape, hpages⟩ := discardPages_spec h.table a (a + n)
      refine ⟨s.discardPages a (a + n), hinv, hshape, ?_, ?_⟩
      · unfold install
        rw [if_pos hd]
      · intro q hq
        rw [hpages q hq]
        simp [hd.2]
    · refine ⟨s, h.table, SameShape.refl s, ?_, ?_⟩
      · unfold install
        rw [if_neg hd]
      · intro q hq
        split
        · rename_i hcond
          apply residentAt_eq_none_of_resident h.table _ hq
          by_contra hres
          exact hd ⟨hres, hcond.1⟩
        · rfl
  obtain ⟨t, ht, hshape, heq, hpages⟩ := htab
  rw [heq]
  have hinv : TableInv { t with
      regions := m, mappingGeneration := t.mappingGeneration + 1 } :=
    ⟨ht.size, ht.room, ht.nonempty, ht.probed, ht.count, ht.stack, ht.bound, ht.below,
      ht.distinct, ht.freeBelow, ht.freeNodup, ht.freeApart⟩
  have hres' : residentAt { t with
      regions := m, mappingGeneration := t.mappingGeneration + 1 } = t.residentAt :=
    residentAt_fields rfl rfl rfl
  refine ⟨⟨hinv, ?_, ?_, hn, hlen, ?_, ?_, ?_⟩, ⟨hshape.base, hshape.stop, hshape.capacity⟩, hcov,
    hshape.generation, ?_, ?_⟩
  · change 0 < t.base
    rw [hshape.base]
    exact h.base_pos
  · change t.stop ≤ uint64Max
    rw [hshape.stop]
    exact h.stop_le
  · intro r hr
    exact ⟨(hends r hr).1.1, (hends r hr).2.1⟩
  · intro r hr
    change t.base ≤ r.start ∧ r.stop ≤ t.stop
    rw [hshape.base, hshape.stop]
    exact ⟨(hends r hr).1.2, (hends r hr).2.2⟩
  · intro q hq hres
    rw [hres', hpages q hq] at hres
    split at hres
    · exact absurd rfl hres
    · rename_i hout
      obtain ⟨hmod, hmapped⟩ := h.mapped q hq hres
      refine ⟨hmod, ?_⟩
      change cover m q ≠ none
      rw [hcov]
      exact cover_changed_ne_none hmapped hout
  · change t.mappingGeneration + 1 = s.mappingGeneration + 1
    rw [hshape.mappingGeneration]
  · rw [hres']
    exact hpages

/-- What a map, an unmap or a protect answers and does. -/
theorem change_spec {s : Space} (h : s.Inv) (a n : ℕ) (prot maxprot : Prot) (replace : Bool)
    (op : Operation) :
    (¬ s.Admissible a n prot maxprot ∧
        s.change a n prot maxprot replace op = (.invalid, s)) ∨
      (s.Admissible a n prot maxprot ∧ ∃ result, s.Obstacle op replace a n prot result ∧
        s.change a n prot maxprot replace op = (result, s)) ∨
      (s.Admissible a n prot maxprot ∧ s.Clear op replace a n prot ∧
        ¬ s.Describable op a n prot maxprot ∧
        s.change a n prot maxprot replace op = (.nomem, s)) ∨
      (s.Admissible a n prot maxprot ∧ s.Clear op replace a n prot ∧
        s.Describable op a n prot maxprot ∧
        ∃ s', s.change a n prot maxprot replace op = (.ok, s') ∧
          Changed s s' op a n prot maxprot) := by
  by_cases hadm : s.Admissible a n prot maxprot
  swap
  · left
    refine ⟨hadm, ?_⟩
    unfold Admissible at hadm
    rw [change, if_pos (by tauto)]
  right
  rcases change_eq h replace op hadm with hobs | ⟨hclear, heq⟩
  · exact .inl ⟨hadm, hobs⟩
  right
  have hrange := hadm.1
  have hin := hadm.2.1
  have has : a < a + n := by
    have := hrange.1
    omega
  obtain ⟨m, hnorm, hcov, hends, hreb⟩ :=
    rebuild_spec op prot maxprot h.normal.1 has
  rw [hreb] at heq
  by_cases hlen : m.length ≤ regionLimit
  · right
    rw [if_pos hlen] at heq
    refine ⟨hadm, hclear, ⟨m, hnorm.1, hlen, hcov⟩, _, heq, ?_⟩
    apply install_spec h hnorm hlen hcov
    have hmod := hrange.add_mod
    obtain ⟨h1, h2, h3⟩ := hin
    exact hends (P := fun x => x % pageSize = 0 ∧ s.base ≤ x)
      (Q := fun x => x % pageSize = 0 ∧ x ≤ s.stop)
      (fun r hr => ⟨⟨(h.aligned r hr).1, (h.inside r hr).1⟩,
        (h.aligned r hr).2, (h.inside r hr).2⟩)
      ⟨⟨hrange.2.1, h1⟩, hrange.2.1, h2⟩ ⟨⟨hmod, by omega⟩, hmod, by omega⟩
  · left
    rw [if_neg hlen] at heq
    refine ⟨hadm, hclear, ?_, heq⟩
    rintro ⟨l, hl, hl', hcov'⟩
    have := length_le_of_cover_eq hnorm hl fun x => by rw [hcov, hcov']
    omega

/-! ## Initialization -/

theorem gmSparseInit_spec {base size backingBytes : ℕ} {allocated : Bool}
    {arena : ℕ → PageBytes} {s : Space}
    (h : gmSparseInit base size backingBytes allocated arena = (.ok, some s)) :
    s.Inv ∧ s.base = base ∧ s.stop = base + size ∧ s.regions = [] ∧ s.generation = 0 ∧
      s.mappingGeneration = 0 ∧ ∀ q, PageKey q → s.residentAt q = none := by
  unfold gmSparseInit at h
  split at h
  · simp at h
  rename_i hcond
  push Not at hcond
  obtain ⟨hbase, hrange, hbytes, hmod⟩ := hcond
  dsimp only at h
  split at h
  · simp at h
  split at h
  · simp at h
  rename_i slots hslots
  split at h
  · simp at h
  split at h
  swap
  · simp at h
  cases h
  obtain ⟨hpow, hroom⟩ := slotsLoop_spec ⟨4, rfl⟩ hslots
  have hcap : 0 < backingBytes / pageSize := by
    unfold pageSize at *
    omega
  have htable : TableInv ⟨base, base + size, 0, 0, arena, backingBytes / pageSize, 0, 0, [], slots,
      fun _ => ⟨0, 0, 0⟩, []⟩ :=
    tableInv_of_empty hpow hroom hcap (fun _ => rfl) rfl rfl rfl
  have hnone : ∀ q, PageKey q → residentAt ⟨base, base + size, 0, 0, arena,
      backingBytes / pageSize, 0, 0, [], slots, fun _ => ⟨0, 0, 0⟩, []⟩ q = none :=
    fun q hq => residentAt_eq_none_of_resident htable rfl hq
  refine ⟨⟨htable, by simpa [Nat.pos_iff_ne_zero] using hbase, hrange.add_le, normal_nil,
    by simp, by simp, by simp, ?_⟩, rfl, rfl, rfl, rfl, rfl, hnone⟩
  intro q hq hres
  exact absurd (hnone q hq) hres

end Space

end Tolkara
