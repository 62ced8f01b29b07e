import Tolkara.Budget.Pieces

/-!
# Accounting

The regions of a budget are well formed and apart, and `reserved` is the sum of
their own parts, in every state a run can reach. During an unmapping call a
region may be empty until the sweep at its end, so the invariant comes in two
strengths: `Sound` holds throughout, `Settled` between calls.
-/

namespace Tolkara

open Library

/-- What is asked of the kernel: a mapping is nonempty, begins at a page and lies,
rounded to pages, inside the address space. -/
def Kernel.WellFormed (kernel : Kernel) (page : ℕ) : Prop :=
  ∀ request address, kernel.mmap request = .ok address →
    request.size ≠ 0 ∧ page ∣ address ∧ address + request.size + page ≤ addressSpace

namespace GVRegion

/-- The bounds of a region are in order, page aligned and inside the address
space. -/
structure Sound (page : ℕ) (r : GVRegion) : Prop where
  start_le : r.start ≤ r.stop
  stop_le : r.stop ≤ r.limit
  limit_le : r.limit ≤ r.span
  span_lt : r.span < addressSpace
  start_dvd : page ∣ r.start
  stop_dvd : page ∣ r.stop
  limit_dvd : page ∣ r.limit
  span_dvd : page ∣ r.span

/-- The spans do not overlap. -/
def Apart (r t : GVRegion) : Prop := r.span ≤ t.start ∨ t.span ≤ r.start

theorem Apart.symm {r t : GVRegion} (h : r.Apart t) : t.Apart r := Or.symm h

instance : Std.Symm Apart := ⟨fun _ _ h => h.symm⟩

/-- A region inside another keeps its distance. -/
theorem Apart.mono {r r' t : GVRegion} (h : r.Apart t) (hstart : r.start ≤ r'.start)
    (hspan : r'.span ≤ r.span) : r'.Apart t := by
  rcases h with h | h
  · exact .inl (le_trans hspan h)
  · exact .inr (le_trans h hstart)

end GVRegion

def total (regions : List GVRegion) : ℕ := (regions.map fun r => r.limit - r.start).sum

theorem total_nil : total [] = 0 := rfl

theorem total_cons (r : GVRegion) (regions : List GVRegion) :
    total (r :: regions) = (r.limit - r.start) + total regions := by
  simp [total]

theorem total_append (l l' : List GVRegion) : total (l ++ l') = total l + total l' := by
  simp [total]

theorem total_perm {l l' : List GVRegion} (h : l.Perm l') : total l = total l' :=
  (h.map _).sum_eq

/-- Own parts that are apart fit into the address space. -/
theorem total_le {n : ℕ} {regions : List GVRegion}
    (hapart : regions.Pairwise GVRegion.Apart)
    (hbound : ∀ r ∈ regions, r.limit ≤ r.span ∧ r.span ≤ n) : total regions ≤ n := by
  -- The own parts as sets: their union has as many elements as they have together.
  have hcard : ∃ u : Finset ℕ, u.card = total regions ∧
      (∀ x ∈ u, ∃ r ∈ regions, r.start ≤ x ∧ x < r.limit) := by
    induction regions with
    | nil => exact ⟨∅, rfl, by simp⟩
    | cons r rest ih =>
        obtain ⟨hr, hrest⟩ := List.pairwise_cons.1 hapart
        obtain ⟨u, hu, hmem⟩ := ih hrest fun t ht => hbound t (List.mem_cons_of_mem r ht)
        have hdisjoint : Disjoint (Finset.Ico r.start r.limit) u := by
          rw [Finset.disjoint_left]
          intro x hx hxu
          obtain ⟨t, ht, h1, h2⟩ := hmem x hxu
          rw [Finset.mem_Ico] at hx
          have h3 := (hbound r List.mem_cons_self).1
          have h4 := (hbound t (List.mem_cons_of_mem r ht)).1
          rcases hr t ht with h | h <;> omega
        refine ⟨Finset.Ico r.start r.limit ∪ u, ?_, ?_⟩
        · rw [Finset.card_union_of_disjoint hdisjoint, Nat.card_Ico, hu, total_cons]
        · intro x hx
          rcases Finset.mem_union.1 hx with hx | hx
          · rw [Finset.mem_Ico] at hx
            exact ⟨r, List.mem_cons_self, hx⟩
          · obtain ⟨t, ht, h⟩ := hmem x hx
            exact ⟨t, List.mem_cons_of_mem r ht, h⟩
  obtain ⟨u, hu, hmem⟩ := hcard
  have hsub : u ⊆ Finset.range n := by
    intro x hx
    obtain ⟨r, hr, h1, h2⟩ := hmem x hx
    have h3 := hbound r hr
    rw [Finset.mem_range]
    omega
  rw [← hu, ← Finset.card_range n]
  exact Finset.card_le_card hsub

namespace GVBudget

/-- The invariant of a budget, also inside a call. -/
structure Sound (b : GVBudget) : Prop where
  page_pos : 0 < b.page
  page_dvd : b.page ∣ addressSpace
  floor_dvd : b.page ∣ b.floor
  floor_le : b.page ≤ b.floor
  region : ∀ r ∈ b.regions, r.Sound b.page
  apart : b.regions.Pairwise GVRegion.Apart
  reserved : b.reserved = total b.regions
  claim : ∀ c ∈ b.claims, b.page ∣ c.stop

/-- The invariant between calls: no region is empty. -/
structure Settled (b : GVBudget) : Prop extends Sound b where
  nonempty : ∀ r ∈ b.regions, r.start < r.limit

/-- Two regions with an own byte in common are one. -/
theorem Sound.eq_of_common {b : GVBudget} (hb : b.Sound) {r t : GVRegion} (hr : r ∈ b.regions)
    (ht : t ∈ b.regions) {x : ℕ} (h1 : r.start ≤ x) (h2 : x < r.limit) (h3 : t.start ≤ x)
    (h4 : x < t.limit) : r = t := by
  by_contra hne
  have h5 := (hb.region r hr).limit_le
  have h6 := (hb.region t ht).limit_le
  rcases hb.apart.forall hr ht hne with h | h <;> omega

/-! ## Ends of pages -/

theorem pageEnd_dvd (b : GVBudget) (a n : ℕ) : b.page ∣ b.pageEnd a n := by
  unfold pageEnd
  dsimp only
  split
  · exact dvd_zero _
  · exact Nat.dvd_sub_mod _

theorem pageEnd_lt {b : GVBudget} (a n : ℕ) : b.pageEnd a n < addressSpace := by
  unfold pageEnd
  dsimp only
  split
  · decide
  · refine lt_of_le_of_lt (Nat.sub_le _ _) (Nat.mod_lt _ (by decide))

theorem wrap_of_lt {x : ℕ} (h : x < addressSpace) : wrap x = x := Nat.mod_eq_of_lt h

/-- An addition that does not come out smaller did not wrap. -/
theorem lt_of_le_wrap {x y : ℕ} (hx : x < addressSpace) (hy : y < addressSpace)
    (h : x ≤ wrap (x + y)) : x + y < addressSpace := by
  by_contra hge
  push Not at hge
  unfold wrap at h
  rw [Nat.mod_eq_sub_mod hge, Nat.mod_eq_of_lt (by omega)] at h
  omega

/-- Where the end of a range is representable, it is the next page. -/
theorem pageEnd_bounds_of_page {b : GVBudget} (hpos : 0 < b.page) (hpage : b.page ≤ addressSpace)
    {a n : ℕ} (ha : a < addressSpace) (hn : n < addressSpace) (h : b.pageEnd a n ≠ 0) :
    a + n ≤ b.pageEnd a n ∧ b.pageEnd a n < a + n + b.page := by
  unfold pageEnd at h ⊢
  dsimp only at h ⊢
  split at h
  · exact absurd rfl h
  rename_i hno
  rw [if_neg hno]
  push Not at hno
  obtain ⟨h1, h2⟩ := hno
  have hlt := lt_of_le_wrap ha hn h1
  rw [wrap_of_lt hlt] at h2 ⊢
  have hlt' := lt_of_le_wrap hlt (by omega) h2
  rw [wrap_of_lt hlt']
  have hmod := Nat.mod_lt (a + n + (b.page - 1)) hpos
  omega

theorem pageEnd_bounds {b : GVBudget} (hb : b.Sound) {a n : ℕ} (ha : a < addressSpace)
    (hn : n < addressSpace) (h : b.pageEnd a n ≠ 0) :
    a + n ≤ b.pageEnd a n ∧ b.pageEnd a n < a + n + b.page :=
  pageEnd_bounds_of_page hb.page_pos (Nat.le_of_dvd (by decide) hb.page_dvd) ha hn h

theorem le_pageEnd {b : GVBudget} {a n : ℕ} (ha : b.page ∣ a) (h : b.pageEnd a n ≠ 0) :
    a ≤ b.pageEnd a n := by
  unfold pageEnd at h ⊢
  dsimp only at h ⊢
  split at h
  · exact absurd rfl h
  rename_i hno
  rw [if_neg hno]
  push Not at hno
  have hle := le_trans hno.1 hno.2
  generalize wrap (wrap (a + n) + (b.page - 1)) = rounded at *
  calc a = b.page * (a / b.page) := (Nat.mul_div_cancel' ha).symm
    _ ≤ b.page * (rounded / b.page) := Nat.mul_le_mul_left _ (Nat.div_le_div_right hle)
    _ = rounded - rounded % b.page := by
      have := Nat.div_add_mod rounded b.page
      omega

theorem pageEnd_of_dvd {b : GVBudget} (hb : b.Sound) {a n : ℕ} (ha : b.page ∣ a) (hn : b.page ∣ n)
    (hle : a + n + b.page ≤ addressSpace) : b.pageEnd a n = a + n := by
  have hpos := hb.page_pos
  have hmod : (a + n + (b.page - 1)) % b.page = b.page - 1 := by
    obtain ⟨k, hk⟩ := dvd_add ha hn
    rw [hk, Nat.mul_add_mod, Nat.mod_eq_of_lt (by omega)]
  unfold pageEnd
  dsimp only
  rw [wrap_of_lt (by omega), wrap_of_lt (by omega), if_neg (by omega), hmod]
  omega

/-- The end of a mapping the kernel made. -/
theorem pageEnd_ne_zero {b : GVBudget} (hb : b.Sound) {a n : ℕ} (hn : n ≠ 0)
    (hle : a + n + b.page ≤ addressSpace) : b.pageEnd a n ≠ 0 := by
  have hpos := hb.page_pos
  have hmod := Nat.mod_lt (a + n + (b.page - 1)) hpos
  unfold pageEnd
  dsimp only
  rw [wrap_of_lt (by omega), wrap_of_lt (by omega), if_neg (by omega)]
  omega

theorem le_of_dvd_of_lt {d x y : ℕ} (hx : d ∣ x) (hy : d ∣ y) (h : x < y) : x + d ≤ y := by
  obtain ⟨i, rfl⟩ := hx
  obtain ⟨j, rfl⟩ := hy
  have hij : i < j := lt_of_mul_lt_mul_left h (Nat.zero_le d)
  calc d * i + d = d * (i + 1) := by ring
    _ ≤ d * j := Nat.mul_le_mul_left d hij

/-! ## Releasing -/

theorem Sound.reserved_lt {b : GVBudget} (hb : b.Sound) : b.reserved < addressSpace := by
  rw [hb.reserved]
  have hle : total b.regions ≤ addressSpace - 1 := by
    apply total_le hb.apart
    intro r hr
    have h := hb.region r hr
    have h1 := h.span_lt
    exact ⟨h.limit_le, by omega⟩
  have hpos : 0 < addressSpace := by decide
  omega

/-- What is left of a region is sound, apart and shorter by what was released. -/
theorem Left.spec {page : ℕ} {r : GVRegion} {a e : ℕ} {left : List GVRegion}
    (h : Left r a e left) (hr : r.Sound page) (ha : page ∣ a) (he : page ∣ e) (hlt : a < e)
    (h1 : r.start ≤ a) (h2 : e ≤ r.limit) :
    (∀ t ∈ left, t.Sound page ∧ r.start ≤ t.start ∧ t.span ≤ r.span) ∧
      left.Pairwise GVRegion.Apart ∧ total left + (e - a) = r.limit - r.start := by
  have ho1 := hr.start_le
  have ho2 := hr.stop_le
  have ho3 := hr.limit_le
  have ho4 := hr.span_lt
  have hmax : page ∣ max r.stop e := by
    rcases max_choice r.stop e with h | h
    · rw [h]
      exact hr.stop_dvd
    · rw [h]
      exact he
  have hmin : page ∣ min r.stop a := min_of hr.stop_dvd ha
  -- The part above what is gone.
  have hback : GVRegion.Sound page { r with start := e, stop := max r.stop e } :=
    ⟨le_max_right _ _, max_le ho2 h2, ho3, ho4, he, hmax, hr.limit_dvd, hr.span_dvd⟩
  cases h with
  | head ha' =>
      refine ⟨?_, List.pairwise_singleton _ _, ?_⟩
      · intro t ht
        obtain rfl := List.mem_singleton.1 ht
        exact ⟨hback, by dsimp only; omega, le_rfl⟩
      · simp only [total_cons, total_nil]
        omega
  | tail h1' h2' =>
      refine ⟨?_, List.pairwise_singleton _ _, ?_⟩
      · intro t ht
        obtain rfl := List.mem_singleton.1 ht
        refine ⟨⟨le_min ho1 h1, min_le_right _ _, by dsimp only; omega, ho4, hr.start_dvd, hmin, ha,
          hr.span_dvd⟩, le_rfl, le_rfl⟩
      · simp only [total_cons, total_nil]
        omega
  | hole h1' h2' =>
      refine ⟨?_, ?_, ?_⟩
      · intro t ht
        rcases List.mem_cons.1 ht with rfl | ht
        · exact ⟨hback, by dsimp only; omega, le_rfl⟩
        · obtain rfl := List.mem_singleton.1 ht
          exact ⟨⟨le_min ho1 h1, min_le_right _ _, le_rfl, by dsimp only; omega, hr.start_dvd, hmin,
            ha, ha⟩, le_rfl, by dsimp only; omega⟩
      · rw [List.pairwise_cons]
        refine ⟨?_, List.pairwise_singleton _ _⟩
        intro t ht
        obtain rfl := List.mem_singleton.1 ht
        exact .inr (le_of_lt hlt)
      · simp only [total_cons, total_nil]
        omega

/-- What `gv_init` sets and nothing changes. -/
def settings (b : GVBudget) : ℕ × ℕ × ℕ × ℕ := (b.budget, b.threshold, b.floor, b.page)

theorem forget_settings (b : GVBudget) (i a e : ℕ) : (b.forget i a e).settings = b.settings := by
  cases hr : b.regions[i]? with
  | none => simp only [GVBudget.forget, hr]
  | some r =>
      obtain ⟨rest, -, ⟨heq, -⟩ | ⟨left, regions, -, -, heq⟩⟩ := b.forget_cases hr
      · rw [heq]
      · rw [heq, settings, settings]

/-- Releasing a piece of a region's own part. -/
theorem Sound.forget {b : GVBudget} (hb : b.Sound) {i a e : ℕ} {r : GVRegion}
    (hi : b.regions[i]? = some r) (ha : b.page ∣ a) (he : b.page ∣ e) (hlt : a < e)
    (h1 : r.start ≤ a) (h2 : e ≤ r.limit) : (b.forget i a e).Sound := by
  obtain ⟨rest, hperm, ⟨heq, -⟩ | ⟨left, regions, hleft, hregions, heq⟩⟩ := b.forget_cases hi
  · rw [heq]
    exact hb
  rw [heq]
  have hmem : ∀ t ∈ r :: rest, t.Sound b.page := fun t ht => hb.region t (hperm.mem_iff.2 ht)
  have hapart : (r :: rest).Pairwise GVRegion.Apart :=
    (hperm.pairwise_iff fun h => GVRegion.Apart.symm h).1 hb.apart
  obtain ⟨hr, hrest⟩ := List.pairwise_cons.1 hapart
  obtain ⟨hsound, hpair, hsum⟩ := hleft.spec (hmem r List.mem_cons_self) ha he hlt h1 h2
  have htotal : b.reserved = (r.limit - r.start) + total rest := by
    rw [hb.reserved, total_perm hperm, total_cons]
  have hbound := hb.reserved_lt
  refine ⟨hb.page_pos, hb.page_dvd, hb.floor_dvd, hb.floor_le, ?_, ?_, ?_, hb.claim⟩
  · intro t ht
    rcases List.mem_append.1 (hregions.mem_iff.1 ht) with ht | ht
    · exact (hsound t ht).1
    · exact hmem t (List.mem_cons_of_mem r ht)
  · refine (hregions.pairwise_iff fun h => GVRegion.Apart.symm h).2 ?_
    rw [List.pairwise_append]
    refine ⟨hpair, hrest, ?_⟩
    intro t ht u hu
    exact (hr u hu).mono (hsound t ht).2.1 (hsound t ht).2.2
  · dsimp only
    rw [total_perm hregions, total_append]
    have hle : e - a ≤ b.reserved := by omega
    have hsub : b.reserved + addressSpace - (e - a) = b.reserved - (e - a) + addressSpace := by
      omega
    rw [wrap, hsub, Nat.add_mod_right, Nat.mod_eq_of_lt (by omega)]
    omega

theorem unclaim_dvd {page a e : ℕ} {claims : List GVClaim} (h : ∀ c ∈ claims, page ∣ c.stop)
    (ha : page ∣ a) : ∀ c ∈ unclaim claims a e, page ∣ c.stop := by
  intro c hc
  obtain ⟨c', hc', hone⟩ := mem_unclaim.1 hc
  rcases (unclaimOne_cases hone).2 with hstop | ⟨hstop, -⟩
  · rw [hstop]
    exact h c' hc'
  · rw [hstop]
    exact ha

theorem Sound.claims {b : GVBudget} (hb : b.Sound) {claims : List GVClaim}
    (h : ∀ c ∈ claims, b.page ∣ c.stop) : Sound { b with claims := claims } :=
  ⟨hb.page_pos, hb.page_dvd, hb.floor_dvd, hb.floor_le, hb.region, hb.apart, hb.reserved, h⟩

theorem anchorAt_dvd {b : GVBudget} (hb : b.Sound) {a : ℕ} (ha : b.page ∣ a) :
    b.page ∣ (b.anchorAt a).2 := by
  unfold anchorAt
  split
  · rename_i r hr
    exact (hb.region r (List.mem_of_find?_eq_some hr)).limit_dvd
  · split
    · rename_i c hc
      exact hb.claim c (List.mem_of_find?_eq_some hc)
    · exact ha

theorem Sound.part_dvd {b : GVBudget} (hb : b.Sound) (cursor : ℕ) {stop : ℕ} {anchor : ℕ × ℕ}
    (hanchor : b.page ∣ anchor.2) (hstop : b.page ∣ stop) :
    b.page ∣ (b.part cursor stop anchor).2.1 := by
  refine part_bound b cursor ?_ hstop hanchor
  intro r hr
  have h := hb.region r hr
  exact ⟨h.start_dvd, h.stop_dvd, h.limit_dvd, h.span_dvd⟩

theorem Sound.release {b : GVBudget} (hb : b.Sound) {cursor stop : ℕ} {anchor : ℕ × ℕ}
    {p : Part × ℕ × Option ℕ} (hp : PartSpec b cursor stop anchor p) (hkind : p.1 ≠ .missing)
    (hcursor : b.page ∣ cursor) (hdvd : b.page ∣ p.2.1) :
    (b.release p.2.2 cursor p.2.1).Sound ∧ (b.release p.2.2 cursor p.2.1).page = b.page := by
  cases hp with
  | missing => exact absurd rfl hkind
  | outside => exact ⟨hb.claims (unclaim_dvd hb.claim hcursor), rfl⟩
  | @own _ until' _ r hlt _ hr h1 h2 hkind' =>
      have hstop := (hb.region _ (List.mem_of_getElem? hr)).stop_le
      have hlimit : until' ≤ r.limit := by
        rcases hkind' with ⟨-, -, h⟩ | ⟨-, -, h⟩
        · exact le_trans h hstop
        · exact h
      exact ⟨hb.forget hr hcursor hdvd hlt h1 hlimit,
        congrArg (·.2.2.2) (b.forget_settings _ _ _)⟩

theorem Sound.applyLoop {b : GVBudget} (hb : b.Sound) (kernel : Kernel) (op : Operation)
    {anchor : ℕ × ℕ} {stop a : ℕ} (hanchor : b.page ∣ anchor.2) (hstop : b.page ∣ stop)
    (ha : b.page ∣ a) (hle : a ≤ stop) :
    (applyLoop kernel op anchor stop (stop - a) b a none).1.Sound := by
  refine (applyLoop_rule
    (P := fun (b' : GVBudget) (cursor : ℕ) => b'.Sound ∧ b'.page = b.page ∧ b.page ∣ cursor)
    ?_ ?_ (stop - a) b a none ⟨hb, rfl, ha⟩ hle le_rfl).1
  · rintro b' cursor p ⟨hs, hpage, -⟩ - rfl - -
    rw [← hpage] at hanchor hstop ⊢
    exact ⟨hs, rfl, hs.part_dvd cursor hanchor hstop⟩
  · rintro b' cursor p ⟨hs, hpage, hcursor⟩ - rfl hspec hkind - -
    rw [← hpage] at hanchor hstop hcursor ⊢
    have hdvd := hs.part_dvd cursor hanchor hstop
    exact ⟨(hs.release hspec hkind hcursor hdvd).1, (hs.release hspec hkind hcursor hdvd).2, hdvd⟩

theorem Sound.sweep {b : GVBudget} (hb : b.Sound) : b.sweep.Settled := by
  have hperm := b.sweep_regions
  refine ⟨⟨hb.page_pos, hb.page_dvd, hb.floor_dvd, hb.floor_le, ?_, ?_, ?_, ?_⟩, ?_⟩
  · intro r hr
    exact hb.region r (mem_sweep_regions.1 hr).1
  · refine (hperm.pairwise_iff fun h => GVRegion.Apart.symm h).2 ?_
    exact hb.apart.sublist List.filter_sublist
  · have hfilter : ∀ l : List GVRegion,
        total (l.filter fun r => decide (r.start < r.limit)) = total l := by
      intro l
      induction l with
      | nil => rfl
      | cons r l ih =>
          by_cases hr : r.start < r.limit
          · rw [List.filter_cons_of_pos (by simpa using hr), total_cons, total_cons, ih]
          · rw [List.filter_cons_of_neg (by simpa using hr), total_cons, ih]
            omega
    rw [total_perm hperm, hfilter]
    exact hb.reserved
  · refine sweep_claims (P := fun claims => ∀ c ∈ claims, b.page ∣ c.stop) ?_ hb.claim
    intro claims r hr hc
    exact unclaim_dvd hc (hb.region r hr).limit_dvd
  · intro r hr
    exact (mem_sweep_regions.1 hr).2

/-- Operations other than unmapping leave the budget alone. -/
theorem applyLoop_of_ne_unmap (kernel : Kernel) {op : Operation} (hop : op ≠ .unmap)
    (anchor : ℕ × ℕ) (stop fuel : ℕ) : ∀ (b : GVBudget) (cursor : ℕ) (code : Option ℕ),
      (GVBudget.applyLoop kernel op anchor stop fuel b cursor code).1 = b := by
  induction fuel with
  | zero =>
      intro b cursor code
      rfl
  | succ fuel ih =>
      intro b cursor code
      rw [GVBudget.applyLoop]
      split
      · dsimp only
        split
        · exact ih _ _ _
        · rw [if_neg fun h => hop h.2]
          exact ih _ _ _
      · rfl

theorem Settled.gvApply {b : GVBudget} (hb : b.Settled) (kernel : Kernel) (op : Operation)
    (a n : ℕ) : (b.gvApply kernel op a n).budget.Settled := by
  unfold GVBudget.gvApply GVBudget.apply
  split
  swap
  · exact hb
  dsimp only
  split
  · exact hb
  split
  · exact hb
  rename_i hargs
  push Not at hargs
  split
  · exact hb
  · have ha : b.page ∣ a := Nat.dvd_of_mod_eq_zero hargs.2
    dsimp only
    split
    · exact (hb.toSound.applyLoop kernel op (anchorAt_dvd hb.toSound ha) (b.pageEnd_dvd a n) ha
        (le_pageEnd ha hargs.1)).sweep
    · rename_i hop
      rw [applyLoop_of_ne_unmap kernel hop]
      exact hb

/-! ## Mapping -/

theorem cutSpan_spec {page : ℕ} {r : GVRegion} (hr : r.Sound page) {address : ℕ} (size : ℕ)
    (ha : page ∣ address) :
    (cutSpan address size r).Sound page ∧ (cutSpan address size r).start = r.start ∧
      (cutSpan address size r).limit = r.limit ∧ (cutSpan address size r).span ≤ r.span := by
  unfold cutSpan
  split
  · exact ⟨hr, rfl, rfl, le_rfl⟩
  rename_i hin
  push Not at hin
  have h1 := hr.limit_le
  have h2 := hr.span_lt
  have hspan : (if address > r.limit then address else r.limit) ≤ r.span ∧
      r.limit ≤ (if address > r.limit then address else r.limit) ∧
      page ∣ (if address > r.limit then address else r.limit) := by
    split
    · exact ⟨le_of_lt hin.2, by omega, ha⟩
    · exact ⟨h1, le_rfl, hr.limit_dvd⟩
  exact ⟨⟨hr.start_le, hr.stop_le, hspan.2.1, lt_of_le_of_lt hspan.1 h2, hr.start_dvd, hr.stop_dvd,
    hr.limit_dvd, hspan.2.2⟩, rfl, rfl, hspan.1⟩

theorem Settled.claimed {b : GVBudget} (hb : b.Settled) {address : ℕ} (size : ℕ)
    (ha : b.page ∣ address) : (b.claim address size).Settled := by
  rcases b.claim_cases address size with heq | ⟨-, heq⟩ | ⟨-, heq⟩
  · rw [heq]
    exact hb
  · rw [heq]
    refine ⟨hb.toSound.claims ?_, hb.nonempty⟩
    intro c hc
    rcases List.mem_append.1 hc with hc | hc
    · exact hb.toSound.claim c hc
    · obtain rfl := List.mem_singleton.1 hc
      exact b.pageEnd_dvd address size
  · rw [heq]
    have hcut := fun r hr => cutSpan_spec (hb.region r hr) size ha
    refine ⟨⟨hb.page_pos, hb.page_dvd, hb.floor_dvd, hb.floor_le, ?_, ?_, ?_, hb.toSound.claim⟩, ?_⟩
    · intro t ht
      obtain ⟨r, hr, rfl⟩ := List.mem_map.1 ht
      exact (hcut r hr).1
    · dsimp only
      rw [List.pairwise_map]
      refine hb.apart.imp_of_mem ?_
      intro r t hr ht h
      obtain ⟨-, hr1, -, hr2⟩ := hcut r hr
      obtain ⟨-, ht1, -, ht2⟩ := hcut t ht
      exact ((h.mono hr1.ge hr2).symm.mono ht1.ge ht2).symm
    · dsimp only
      rw [hb.reserved, total, total, List.map_map]
      congr 1
      apply List.map_congr_left
      intro r hr
      obtain ⟨-, h1, h2, -⟩ := hcut r hr
      rw [Function.comp_apply, h1, h2]
    · intro t ht
      obtain ⟨r, hr, rfl⟩ := List.mem_map.1 ht
      obtain ⟨-, h1, h2, -⟩ := hcut r hr
      rw [h1, h2]
      exact hb.nonempty r hr

/-- A map call leaves the budget as it was, or claims what the kernel answered. -/
theorem gvMap_cases (b : GVBudget) (kernel : Kernel) (request : MapRequest) :
    (b.gvMap kernel request).budget = b ∨
      ∃ asked address, kernel.mmap asked = .ok address ∧ asked.size = request.size ∧
        (b.gvMap kernel request).budget = b.claim address asked.size := by
  unfold gvMap
  dsimp only
  generalize (request.address != 0 && b.reaches (b.anchorAt request.address)
    (wrap (request.address + request.size))
    (wrap (request.address + request.size) - request.address) request.address) = missing
  split
  · rename_i hoff
    cases hm : kernel.mmap request with
    | error code => exact .inl rfl
    | ok address =>
        refine .inl ?_
        dsimp only
        rw [if_neg (by simp [hoff])]
  · split
    · exact .inl rfl
    · generalize hasked :
        (if missing then ({ request with address := 0 } : MapRequest) else request) = asked
      have hsize : asked.size = request.size := by
        rw [← hasked]
        split <;> rfl
      cases hm : kernel.mmap asked with
      | error code => exact .inl rfl
      | ok address =>
          dsimp only
          split
          · exact .inr ⟨asked, address, hm, hsize, rfl⟩
          · exact .inl rfl

theorem Settled.gvMap {b : GVBudget} (hb : b.Settled) {kernel : Kernel}
    (hk : kernel.WellFormed b.page) (request : MapRequest) :
    (b.gvMap kernel request).budget.Settled := by
  obtain h | ⟨asked, address, hm, -, h⟩ := b.gvMap_cases kernel request
  · rw [h]
    exact hb
  · rw [h]
    exact hb.claimed _ (hk asked address hm).2.1

/-! ## Reserving -/

/-- What `gv_reserve` may ask for: no more than `size`, whole pages where it is
less, and within the budget or the floor. -/
structure WantOk (b : GVBudget) (size want : ℕ) : Prop where
  le : want ≤ size
  short : want < size → b.page ∣ want ∧ b.page ≤ want
  bound : b.reserved + want ≤ max b.budget (b.reserved + b.floor)

theorem sub_mod_spec {page x : ℕ} (hpos : 0 < page) (hx : page ≤ x) :
    page ∣ x - x % page ∧ page ≤ x - x % page := by
  refine ⟨Nat.dvd_sub_mod x, ?_⟩
  have hdvd : page ∣ x - x % page := Nat.dvd_sub_mod x
  have hmod := Nat.mod_lt x hpos
  exact Nat.le_of_dvd (by omega) hdvd

theorem firstWant_ok {b : GVBudget} (hb : b.Sound) (size : ℕ) : b.WantOk size (b.firstWant size) := by
  have hpos := hb.page_pos
  have hfloor := hb.floor_le
  unfold firstWant
  dsimp only
  generalize hroom : (if b.reserved < b.budget then b.budget - b.reserved else 0) = room
  have hroom' : b.reserved + room ≤ max b.budget b.reserved := by
    rw [← hroom]
    split <;> omega
  by_cases hsize : size > room
  swap
  · rw [if_neg hsize, if_neg (lt_irrefl size), if_neg (lt_irrefl size)]
    exact ⟨le_rfl, fun h => absurd h (lt_irrefl size), by omega⟩
  rw [if_pos hsize]
  generalize hwant : (if room > b.floor then room else b.floor) = want
  have hle : b.page ≤ want ∧ b.reserved + want ≤ max b.budget (b.reserved + b.floor) := by
    rw [← hwant]
    split <;> omega
  by_cases hcap : want > size
  · rw [if_pos hcap, if_neg (lt_irrefl size)]
    exact ⟨le_rfl, fun h => absurd h (lt_irrefl size), by omega⟩
  rw [if_neg hcap]
  split
  · have h := sub_mod_spec hpos hle.1
    exact ⟨by omega, fun _ => h, by omega⟩
  · rename_i hno
    exact ⟨by omega, fun h => absurd h hno, hle.2⟩

theorem nextWant_ok {b : GVBudget} (hb : b.Sound) {size want : ℕ} (h : b.WantOk size want)
    (hwant : b.page < want) : b.WantOk size (b.nextWant want) ∧ b.nextWant want < want := by
  have hpos := hb.page_pos
  have h1 := h.le
  have h2 := h.bound
  have hlt : b.nextWant want < want := by
    unfold nextWant
    dsimp only
    split <;> omega
  have hdvd : b.page ∣ b.nextWant want ∧ b.page ≤ b.nextWant want := by
    unfold nextWant
    dsimp only
    split
    · exact ⟨dvd_rfl, le_rfl⟩
    · rename_i hno
      exact ⟨Nat.dvd_sub_mod _, by omega⟩
  exact ⟨⟨by omega, fun _ => hdvd, by omega⟩, hlt⟩

theorem reserveLoop_spec {b : GVBudget} (hb : b.Sound) (kernel : Kernel) (size : ℕ)
    (prot flags : BitVec 32) (fd : ℤ) (fuel : ℕ) :
    ∀ want, b.WantOk size want →
      b.WantOk size (b.reserveLoop kernel size prot flags fd fuel want).2.1 ∧
        ∀ start, (b.reserveLoop kernel size prot flags fd fuel want).1 = .ok start →
          kernel.mmap (reservation 0
            (b.mappedFor size (b.reserveLoop kernel size prot flags fd fuel want).2.1)
            prot flags fd) = .ok start := by
  induction fuel with
  | zero =>
      intro want h
      exact ⟨h, fun start hs => by cases hs⟩
  | succ fuel ih =>
      intro want h
      rw [reserveLoop]
      dsimp only
      split
      · rename_i address heq
        refine ⟨h, ?_⟩
        intro start hs
        cases hs
        exact heq
      · split
        · exact ⟨h, fun start hs => by cases hs⟩
        · rename_i hgo
          push Not at hgo
          exact ih _ (nextWant_ok hb h hgo.2).1

/-- The loop ends before it runs out of steps. -/
theorem reserveLoop_fuel {b : GVBudget} (hb : b.Sound) (kernel : Kernel) (size : ℕ)
    (prot flags : BitVec 32) (fd : ℤ) (fuel : ℕ) :
    ∀ want, b.WantOk size want → want < fuel →
      b.reserveLoop kernel size prot flags fd (fuel + 1) want =
        b.reserveLoop kernel size prot flags fd fuel want := by
  induction fuel with
  | zero =>
      intro want _ hlt
      omega
  | succ fuel ih =>
      intro want h hlt
      conv_lhs => rw [reserveLoop]
      conv_rhs => rw [reserveLoop]
      dsimp only
      cases kernel.mmap (reservation 0 (b.mappedFor size want) prot flags fd) with
      | ok address => rfl
      | error code =>
          dsimp only
          by_cases hgo : code ≠ ENOMEM ∨ want ≤ b.page
          · rw [if_pos hgo, if_pos hgo]
          · rw [if_neg hgo, if_neg hgo]
            push Not at hgo
            obtain ⟨hok, hless⟩ := nextWant_ok hb h hgo.2
            rw [ih _ hok (by omega)]

/-- The region of a placement the kernel made. -/
theorem newRegion_spec {b : GVBudget} (hb : b.Sound) {start size want : ℕ}
    (hsize : size < addressSpace) (hwant : b.WantOk size want) (hstart : b.page ∣ start)
    (hmapped : b.mappedFor size want ≠ 0)
    (hle : start + b.mappedFor size want + b.page ≤ addressSpace) :
    (b.newRegion start size want).Sound b.page ∧
      (b.newRegion start size want).start = start ∧
      start < (b.newRegion start size want).limit ∧
      (b.newRegion start size want).limit ≤ start + want + b.page ∧
      ∀ t, b.page ∣ t → start + size ≤ t → (b.newRegion start size want).span ≤ t := by
  have hpos := hb.page_pos
  have h1 := hwant.le
  -- The end of the span asked for is the first page from there on.
  have hasked : ∀ t, b.page ∣ t → start + size ≤ t → b.pageEnd start size ≤ t := by
    intro t ht hst
    by_cases h0 : b.pageEnd start size = 0
    · omega
    by_contra hgt
    push Not at hgt
    have hnext := le_of_dvd_of_lt ht (b.pageEnd_dvd start size) hgt
    have hend := (pageEnd_bounds hb (by omega) hsize h0).2
    omega
  unfold newRegion mappedFor at *
  by_cases hshort : want < size
  · obtain ⟨hdvd, hpage⟩ := hwant.short hshort
    rw [if_pos hshort] at hmapped hle
    have hsum : want + b.page < addressSpace := by
      have hnext := le_of_dvd_of_lt hdvd hb.page_dvd (lt_trans hshort hsize)
      rcases lt_or_eq_of_le hnext with h | h
      · exact h
      · rw [h, wrap, Nat.mod_self] at hmapped
        exact absurd rfl hmapped
    rw [wrap_of_lt hsum] at hle
    have hown : b.pageEnd start want = start + want := pageEnd_of_dvd hb hstart hdvd (by omega)
    dsimp only
    rw [if_pos hshort, hown, wrap_of_lt (by omega)]
    dsimp only
    have hspan : ∀ t, b.page ∣ t → start + size ≤ t →
        (if b.pageEnd start size > start + want + b.page then b.pageEnd start size
          else start + want + b.page) ≤ t := by
      intro t ht hst
      split
      · exact hasked t ht hst
      · exact le_of_dvd_of_lt (dvd_add hstart hdvd) ht (by omega)
    have hends := b.pageEnd_dvd start size
    have hlt : b.pageEnd start size < addressSpace := pageEnd_lt start size
    refine ⟨⟨by dsimp only; omega, by dsimp only; omega, ?_, ?_, hstart, dvd_add hstart hdvd,
      dvd_add (dvd_add hstart hdvd) dvd_rfl, ?_⟩, rfl, by omega, le_rfl, hspan⟩
    · dsimp only
      split <;> omega
    · dsimp only
      split <;> omega
    · dsimp only
      split
      · exact hends
      · exact dvd_add (dvd_add hstart hdvd) dvd_rfl
  · rw [if_neg hshort] at hmapped hle
    have heq : want = size := by omega
    subst heq
    have hne := pageEnd_ne_zero hb hmapped hle
    obtain ⟨hge, hlt⟩ := pageEnd_bounds hb (by omega) hsize hne
    dsimp only
    rw [if_neg hshort]
    dsimp only
    have hdvd := b.pageEnd_dvd start want
    exact ⟨⟨by dsimp only; omega, le_rfl, le_rfl, pageEnd_lt start want, hstart, hdvd, hdvd, hdvd⟩,
      rfl, by omega, by omega, hasked⟩

theorem nextSpan_le (size start : ℕ) (regions : List GVRegion) :
    ∀ next, next ≤ regions.foldl (fun next r =>
      if start < r.span ∧ wrap (start + size) > r.start ∧ r.span > next then r.span else next)
      next := by
  induction regions with
  | nil =>
      intro next
      exact le_rfl
  | cons r rest ih =>
      intro next
      refine le_trans ?_ (ih _)
      dsimp only
      split <;> omega

/-- Where no span is in the way, the search stays. -/
theorem not_overlap_of_nextSpan {regions : List GVRegion} {start size : ℕ}
    (h : nextSpan regions start size = start) :
    ∀ r ∈ regions, r.span ≤ start ∨ wrap (start + size) ≤ r.start := by
  induction regions with
  | nil => simp
  | cons r rest ih =>
      by_cases hin : start < r.span ∧ wrap (start + size) > r.start
      · -- The search would have moved past `r`.
        exfalso
        have hle := nextSpan_le size start rest r.span
        rw [nextSpan, List.foldl_cons, if_pos ⟨hin.1, hin.2, hin.1⟩] at h
        omega
      · rw [nextSpan, List.foldl_cons, if_neg (by tauto)] at h
        intro t ht
        rcases List.mem_cons.1 ht with rfl | ht
        · omega
        · exact ih h t ht

theorem freeSpanLoop_spec (b : GVBudget) (kernel : Kernel) (size fuel : ℕ) :
    ∀ start, b.freeSpanLoop kernel size fuel start ≠ 0 →
      wrap (b.freeSpanLoop kernel size fuel start + size) > b.freeSpanLoop kernel size fuel start ∧
        nextSpan b.regions (b.freeSpanLoop kernel size fuel start) size =
          b.freeSpanLoop kernel size fuel start := by
  induction fuel with
  | zero =>
      intro start h
      exact absurd rfl h
  | succ fuel ih =>
      intro start
      rw [freeSpanLoop]
      dsimp only
      split
      swap
      · intro h
        exact absurd rfl h
      rename_i hwrap
      split
      · exact ih _
      rename_i hnext
      rw [not_not] at hnext
      split
      · exact fun _ => ⟨hwrap, hnext⟩
      split
      · exact fun _ => ⟨hwrap, hnext⟩
      · exact ih _

theorem Settled.settle {b : GVBudget} (hb : b.Settled) {start size want : ℕ}
    (calls : List KernelCall) (hsound : (b.newRegion start size want).Sound b.page)
    (hlt : (b.newRegion start size want).start < (b.newRegion start size want).limit)
    (hapart : ∀ t ∈ b.regions, t.Apart (b.newRegion start size want)) :
    (b.settle start size want calls).budget.Settled ∧
      (b.settle start size want calls).budget.reserved =
        b.reserved + ((b.newRegion start size want).limit -
          (b.newRegion start size want).start) := by
  unfold GVBudget.settle
  generalize b.newRegion start size want = r at *
  have hmem : ∀ t ∈ b.regions ++ [r], t.Sound b.page := by
    intro t ht
    rcases List.mem_append.1 ht with ht | ht
    · exact hb.region t ht
    · obtain rfl := List.mem_singleton.1 ht
      exact hsound
  have hpair : (b.regions ++ [r]).Pairwise GVRegion.Apart := by
    rw [List.pairwise_append]
    refine ⟨hb.apart, List.pairwise_singleton _ _, ?_⟩
    intro t ht u hu
    obtain rfl := List.mem_singleton.1 hu
    exact hapart t ht
  have htotal : total (b.regions ++ [r]) = b.reserved + (r.limit - r.start) := by
    rw [total_append, hb.reserved, total_cons, total_nil, Nat.add_zero]
  have hbound : total (b.regions ++ [r]) ≤ addressSpace - 1 := by
    apply total_le hpair
    intro t ht
    have h := hmem t ht
    have h1 := h.span_lt
    exact ⟨h.limit_le, by omega⟩
  have hpos : 0 < addressSpace := by decide
  have hwrap : wrap (b.reserved + (r.limit - r.start)) = b.reserved + (r.limit - r.start) :=
    wrap_of_lt (by omega)
  refine ⟨⟨⟨hb.page_pos, hb.page_dvd, hb.floor_dvd, hb.floor_le, hmem, hpair, ?_,
    hb.toSound.claim⟩, ?_⟩, hwrap⟩
  · dsimp only
    rw [hwrap, htotal]
  · intro t ht
    rcases List.mem_append.1 ht with ht | ht
    · exact hb.nonempty t ht
    · obtain rfl := List.mem_singleton.1 ht
      exact hlt

theorem gvReserve_cases {b : GVBudget} (hb : b.Settled) {kernel : Kernel}
    (hk : kernel.WellFormed b.page) {size : ℕ} (hsize : size < addressSpace)
    (prot flags : BitVec 32) (fd : ℤ) :
    (∃ code calls, b.gvReserve kernel size prot flags fd = ⟨b, .error code, 0, calls⟩) ∨
    (∃ address, b.page ∣ address ∧ b.regions.length = gvMaxRegions ∧
      b.gvReserve kernel size prot flags fd =
        ⟨b.claim address size, .ok address, size, [.mmap (reservation 0 size prot flags fd)]⟩) ∨
    ∃ start want calls, b.gvReserve kernel size prot flags fd = b.settle start size want calls ∧
      b.WantOk size want ∧ (b.newRegion start size want).Sound b.page ∧
      (b.newRegion start size want).start = start ∧
      start < (b.newRegion start size want).limit ∧
      (b.newRegion start size want).limit ≤ start + want + b.page ∧
      ∀ t ∈ b.regions, t.Apart (b.newRegion start size want) := by
  unfold gvReserve
  split
  · rename_i hfull
    dsimp only
    cases hm : kernel.mmap (reservation 0 size prot flags fd) with
    | error code => exact .inl ⟨code, _, rfl⟩
    | ok address =>
        exact .inr (.inl ⟨address, (hk _ _ hm).2.1, hfull, rfl⟩)
  dsimp only
  obtain ⟨hwant, hplaced⟩ := reserveLoop_spec hb.toSound kernel size prot flags fd
    (b.firstWant size + 1) _ (firstWant_ok hb.toSound size)
  generalize b.reserveLoop kernel size prot flags fd (b.firstWant size + 1) (b.firstWant size) =
    e at *
  obtain ⟨answer, want, calls⟩ := e
  dsimp only at hwant hplaced
  cases answer with
  | error code => exact .inl ⟨code, calls, rfl⟩
  | ok start =>
      dsimp only
      obtain ⟨hne, hdvd, hle⟩ := hk _ _ (hplaced start rfl)
      by_cases hmis : b.Misplaced kernel start size want
      swap
      · -- The kernel's placement stays.
        rw [if_neg hmis]
        obtain ⟨h1, h2, h3, h4, h5⟩ := newRegion_spec hb.toSound hsize hwant hdvd hne hle
        refine .inr (.inr ⟨start, want, calls, rfl, hwant, h1, h2, h3, h4, ?_⟩)
        intro t ht
        have hover : b.overlapsReservation start size = false := by
          by_contra hc
          exact hmis (.inl (by simpa using hc))
        simp only [overlapsReservation, Bool.or_eq_false_iff, beq_eq_false_iff_ne, ne_eq,
          List.any_eq_false, decide_eq_true_eq, not_and, not_lt] at hover
        have hend := (pageEnd_bounds hb.toSound (by omega) hsize hover.1).1
        have hspan := h5 _ (b.pageEnd_dvd start size) hend
        by_cases hs : start < t.span
        · have := hover.2 t ht hs
          exact .inr (by omega)
        · exact .inl (by omega)
      rw [if_pos hmis]
      by_cases hhole : b.freeSpan kernel kernel.imageHeader size = 0
      · rw [if_pos hhole]
        exact .inl ⟨_, _, rfl⟩
      rw [if_neg hhole]
      obtain ⟨hwrap, hnext⟩ := b.freeSpanLoop_spec kernel size 4096 _ hhole
      change wrap (b.freeSpan kernel kernel.imageHeader size + size) >
        b.freeSpan kernel kernel.imageHeader size at hwrap
      change nextSpan b.regions (b.freeSpan kernel kernel.imageHeader size) size =
        b.freeSpan kernel kernel.imageHeader size at hnext
      generalize b.freeSpan kernel kernel.imageHeader size = hole at *
      cases hm : kernel.mmap (reservation hole (b.mappedFor size want) prot flags fd) with
      | error code => exact .inl ⟨_, _, rfl⟩
      | ok moved =>
          dsimp only
          by_cases heq : moved = hole
          swap
          · rw [if_neg heq]
            exact .inl ⟨_, _, rfl⟩
          rw [if_pos heq]
          subst heq
          -- It was moved to a hole between the spans.
          obtain ⟨hne', hdvd', hle'⟩ := hk _ _ hm
          obtain ⟨h1, h2, h3, h4, h5⟩ := newRegion_spec hb.toSound hsize hwant hdvd' hne' hle'
          refine .inr (.inr ⟨moved, want, _, rfl, hwant, h1, h2, h3, h4, ?_⟩)
          have hlt := lt_of_le_wrap (x := moved) (by omega) hsize (le_of_lt hwrap)
          rw [wrap_of_lt hlt] at hwrap
          intro t ht
          rcases not_overlap_of_nextSpan hnext t ht with h | h
          · exact .inl (by omega)
          · rw [wrap_of_lt hlt] at h
            exact .inr (h5 _ (hb.region t ht).start_dvd h)

theorem Settled.gvReserve {b : GVBudget} (hb : b.Settled) {kernel : Kernel}
    (hk : kernel.WellFormed b.page) {size : ℕ} (hsize : size < addressSpace)
    (prot flags : BitVec 32) (fd : ℤ) :
    (b.gvReserve kernel size prot flags fd).budget.Settled ∧
      (b.gvReserve kernel size prot flags fd).granted ≤ size ∧
      (b.gvReserve kernel size prot flags fd).budget.reserved ≤
        max b.budget (b.reserved + b.floor) + b.page := by
  rcases gvReserve_cases hb hk hsize prot flags fd with ⟨code, calls, heq⟩ |
    ⟨address, hdvd, -, heq⟩ | ⟨start, want, calls, heq, hwant, h1, h2, h3, h4, h5⟩
  · rw [heq]
    exact ⟨hb, Nat.zero_le _, by dsimp only; omega⟩
  · rw [heq]
    have hs := hb.claimed size hdvd
    have hreserved : (b.claim address size).reserved = b.reserved := by
      rcases b.claim_cases address size with h | ⟨-, h⟩ | ⟨-, h⟩ <;> rw [h]
    exact ⟨hs, le_rfl, by dsimp only; omega⟩
  · rw [heq]
    obtain ⟨hs, hreserved⟩ := hb.settle calls h1 (by rw [h2]; exact h3) h5
    have hbound := hwant.bound
    refine ⟨hs, hwant.le, ?_⟩
    rw [hreserved, h2]
    omega

theorem settled_gvInit {page : ℕ} (bytes threshold floor : ℕ) (hpos : 0 < page)
    (hdvd : page ∣ addressSpace) : (gvInit page bytes threshold floor).Settled := by
  refine ⟨⟨hpos, hdvd, ?_, ?_, ?_, List.Pairwise.nil, rfl, ?_⟩, ?_⟩
  · simp only [gvInit]
    split
    · exact Nat.dvd_sub_mod floor
    · exact dvd_rfl
  · simp only [gvInit]
    split
    · rename_i h
      exact (sub_mod_spec hpos (le_of_lt h)).2
    · exact le_rfl
  · intro r hr
    cases hr
  · intro c hc
    cases hc
  · intro r hr
    cases hr

end GVBudget

/-! ## The settings stay -/

namespace GVBudget

theorem claim_settings (b : GVBudget) (address size : ℕ) : (b.claim address size).settings = b.settings := by
  rcases b.claim_cases address size with h | ⟨-, h⟩ | ⟨-, h⟩ <;> rw [h] <;> simp only [settings]

theorem applyLoop_settings (kernel : Kernel) (op : Operation) (anchor : ℕ × ℕ) (stop fuel : ℕ) :
    ∀ (b : GVBudget) (cursor : ℕ) (code : Option ℕ),
      (applyLoop kernel op anchor stop fuel b cursor code).1.settings = b.settings := by
  induction fuel with
  | zero =>
      intro b cursor code
      rfl
  | succ fuel ih =>
      intro b cursor code
      rw [applyLoop]
      dsimp only
      split
      · split
        · exact ih _ _ _
        · dsimp only
          rw [ih]
          split
          · cases hr : (b.part cursor stop anchor).2.2 with
            | none => rfl
            | some i => exact forget_settings b i _ _
          · rfl
      · rfl

theorem gvApply_settings (b : GVBudget) (kernel : Kernel) (op : Operation) (a n : ℕ) :
    (b.gvApply kernel op a n).budget.settings = b.settings := by
  have hloop := applyLoop_settings kernel op (b.anchorAt a) (b.pageEnd a n) (b.pageEnd a n - a) b a none
  unfold gvApply apply
  split
  · dsimp only
    split
    · rfl
    split
    · rfl
    split
    · rfl
    · dsimp only
      split
      · exact hloop
      · exact hloop
  · rfl

theorem gvMap_settings (b : GVBudget) (kernel : Kernel) (request : MapRequest) :
    (b.gvMap kernel request).budget.settings = b.settings := by
  obtain h | ⟨asked, address, -, -, h⟩ := b.gvMap_cases kernel request
  · rw [h]
  · rw [h]
    exact b.claim_settings _ _

theorem gvReserve_settings (b : GVBudget) (kernel : Kernel) (size : ℕ) (prot flags : BitVec 32)
    (fd : ℤ) : (b.gvReserve kernel size prot flags fd).budget.settings = b.settings := by
  unfold gvReserve
  dsimp only
  split
  · split
    · rfl
    · exact b.claim_settings _ _
  · split
    · rfl
    · split
      · split
        · rfl
        · split
          · rfl
          · split <;> rfl
      · rfl

end GVBudget

theorem outcome_settings (b : GVBudget) (s : BudgetStep) : (s.outcome b).budget.settings = b.settings := by
  unfold BudgetStep.outcome
  split
  · exact b.gvReserve_settings _ _ _ _ _
  · exact b.gvMap_settings _ _
  · exact b.gvApply_settings _ _ _ _
  · exact b.gvApply_settings _ _ _ _
  · exact b.gvApply_settings _ _ _ _

/-! ## Runs -/

theorem run_settings (b : GVBudget) (steps : List BudgetStep) :
    (b.run steps).settings = b.settings := by
  induction steps generalizing b with
  | nil => rfl
  | cons s steps ih => exact (ih (s.outcome b).budget).trans (outcome_settings b s)

theorem toNat_lt (x : BitVec 64) : x.toNat < addressSpace := x.isLt

/-- A call keeps the invariant. -/
theorem GVBudget.Settled.step {b : GVBudget} (hb : b.Settled) {s : BudgetStep}
    (hk : s.kernel.WellFormed b.page) : (s.outcome b).budget.Settled := by
  unfold BudgetStep.outcome
  split
  · exact (hb.gvReserve hk (toNat_lt _) _ _ _).1
  · exact hb.gvMap hk _
  · exact hb.gvApply _ _ _ _
  · exact hb.gvApply _ _ _ _
  · exact hb.gvApply _ _ _ _

theorem GVBudget.Settled.run {b : GVBudget} (hb : b.Settled) {steps : List BudgetStep}
    (hk : ∀ s ∈ steps, s.kernel.WellFormed b.page) :
    (b.run steps).Settled ∧ (b.run steps).page = b.page := by
  induction steps generalizing b with
  | nil => exact ⟨hb, rfl⟩
  | cons s steps ih =>
      have hpage : (s.outcome b).budget.page = b.page :=
        congrArg (·.2.2.2) (outcome_settings b s)
      have hnext := ih (hb.step (hk s List.mem_cons_self)) (by
        intro t ht
        rw [hpage]
        exact hk t (List.mem_cons_of_mem s ht))
      exact ⟨hnext.1, hnext.2.trans hpage⟩

/-- Accounting. In every state a run reaches, the regions are in order and apart,
and `reserved` is the sum of their own parts; the next successful reservation
grants no more than was asked and stays within a page of the budget, or of what
the floor allows. -/
theorem accounting_run {page : ℕ} (hpos : 0 < page) (hdvd : page ∣ addressSpace)
    (bytes threshold floor : ℕ) (steps : List BudgetStep)
    (hk : ∀ s ∈ steps, s.kernel.WellFormed page) :
    let b := (gvInit page bytes threshold floor).run steps
    (∀ r ∈ b.regions, r.start < r.limit ∧ r.start ≤ r.stop ∧ r.stop ≤ r.limit ∧
      r.limit ≤ r.span) ∧
    b.regions.Pairwise (fun r t => ∀ x, ¬ (r.start ≤ x ∧ x < r.span ∧ t.start ≤ x ∧ x < t.span)) ∧
    b.reserved = (b.regions.map fun r => r.limit - r.start).sum ∧
    ∀ (size : BitVec 64) (prot flags : BitVec 32) (fd : ℤ) (kernel : Kernel) (address : ℕ),
      kernel.WellFormed page →
      (b.gvReserve kernel size.toNat prot flags fd).answer = .ok address →
      (b.gvReserve kernel size.toNat prot flags fd).granted ≤ size.toNat ∧
        (b.gvReserve kernel size.toNat prot flags fd).budget.reserved ≤
          max b.budget (b.reserved + b.floor) + page := by
  obtain ⟨hb, hpage⟩ := (GVBudget.settled_gvInit bytes threshold floor hpos hdvd).run hk
  intro b
  have hpage' : b.page = page := hpage
  refine ⟨?_, ?_, hb.reserved, ?_⟩
  · intro r hr
    have h := hb.region r hr
    exact ⟨hb.nonempty r hr, h.start_le, h.stop_le, h.limit_le⟩
  · refine hb.apart.imp ?_
    intro r t h x hx
    rcases h with h | h <;> omega
  · intro size prot flags fd kernel address hkernel _
    obtain ⟨-, h1, h2⟩ := hb.gvReserve (by rwa [hpage']) (toNat_lt size) prot flags fd
    rw [hpage'] at h2
    exact ⟨h1, h2⟩

/-- A kernel that makes every mapping of up to `2 ^ 40` bytes at `address` and
refuses nothing else. -/
def placingKernel (address : ℕ) : Kernel where
  mmap request :=
    if request.size = 0 ∨ request.size > 2 ^ 40 then .error ENOMEM else .ok address
  munmap _ _ := none
  mprotect _ _ _ := none
  madvise _ _ _ := none
  vmRegion _ _ := none
  imageHeader := 16384

theorem wellFormed_placingKernel {address : ℕ} (hdvd : 16384 ∣ address) (hle : address ≤ 2 ^ 48) :
    (placingKernel address).WellFormed 16384 := by
  intro request a h
  simp only [placingKernel] at h
  split at h
  · cases h
  · rename_i hsize
    push Not at hsize
    cases h
    refine ⟨hsize.1, hdvd, ?_⟩
    unfold addressSpace
    omega

/-- Four pages asked for with a budget of two: two are granted, and a guard. -/
theorem accounting_run_downsized :
    let b := (gvInit 16384 32768 16384 16384).run
      [⟨.reserve 65536#64 3#32 0x1002#32 (-1), placingKernel 0x100000000⟩]
    b.regions = [⟨0x100000000, 0x100008000, 0x10000c000, 0x100010000⟩] ∧
      b.reserved = (b.regions.map fun r => r.limit - r.start).sum := by
  refine ⟨by decide, ?_⟩
  refine (accounting_run (by decide) (by decide) 32768 16384 16384 _ ?_).2.2.1
  intro s hs
  obtain rfl := List.mem_singleton.1 hs
  exact wellFormed_placingKernel (by decide) (by decide)

end Tolkara
