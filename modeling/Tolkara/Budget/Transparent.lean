import Tolkara.Budget.Accounting

/-!
# A budget that was never exceeded

While every reservation is granted in full, nothing is missing and the budget
should not be noticed. `Whole` is the state of regions in which it is not: no
guard and no missing part. The one call that leaves it is an unmapping of the end
of a region (`TrimsTail`): `forget` moves the limit back and keeps the span, and
what the application gave back counts as missing from then on.
-/

namespace Tolkara

open Library

namespace KernelCall

/-- The range of an unmapping, protecting or advising call has `x`. -/
def Covers (x : ℕ) : KernelCall → Prop
  | .mmap _ => False
  | .munmap a n | .mprotect a n _ | .madvise a n _ => a ≤ x ∧ x < a + n

end KernelCall

namespace GVBudget

/-- No guard and no missing part. -/
def Whole (b : GVBudget) : Prop := ∀ r ∈ b.regions, r.stop = r.limit ∧ r.limit = r.span

/-- Every piece is outside or granted. -/
theorem Whole.part {b : GVBudget} (h : b.Whole) {cursor stop : ℕ} {anchor : ℕ × ℕ}
    {p : Part × ℕ × Option ℕ} (hp : PartSpec b cursor stop anchor p) :
    p.1 ≠ .missing ∧ p.1 ≠ .guard := by
  cases hp with
  | missing hr h1 h2 =>
      have hw := h _ (List.mem_of_getElem? hr)
      omega
  | outside => simp
  | own _ _ hr h1 h2 hkind =>
      have hw := h _ (List.mem_of_getElem? hr)
      rcases hkind with ⟨-, rfl, -⟩ | ⟨hstop, -, -⟩
      · simp
      · omega

theorem Whole.reaches {b : GVBudget} (h : b.Whole) (anchor : ℕ × ℕ) (stop fuel : ℕ) :
    ∀ cursor, b.reaches anchor stop fuel cursor = false := by
  induction fuel with
  | zero =>
      intro cursor
      rfl
  | succ fuel ih =>
      intro cursor
      rw [GVBudget.reaches]
      split
      · rename_i hlt
        obtain ⟨h1, h2⟩ := h.part (b.part_spec anchor hlt)
        dsimp only
        rw [if_neg (by tauto)]
        exact ih _
      · rfl

theorem Operation.covers_call (op : Operation) (a n x : ℕ) :
    (op.call a n).Covers x ↔ a ≤ x ∧ x < a + n := by
  cases op <;> rfl

/-- Where no piece is passed over, the calls cover the range. -/
theorem applyLoop_covers {kernel : Kernel} {op : Operation} {anchor : ℕ × ℕ} {stop : ℕ}
    {P : GVBudget → ℕ → Prop}
    (hskip : ∀ b cursor p, P b cursor → cursor < stop → b.part cursor stop anchor = p →
      PartSpec b cursor stop anchor p → Skipped kernel op cursor p → P b p.2.1)
    (hrelease : ∀ b cursor p, P b cursor → cursor < stop → b.part cursor stop anchor = p →
      PartSpec b cursor stop anchor p → p.1 ≠ .missing → op = .unmap →
      kernel.munmap cursor (p.2.1 - cursor) = none → P (b.release p.2.2 cursor p.2.1) p.2.1)
    (hwhole : ∀ b cursor, P b cursor → b.Whole) (fuel : ℕ) :
    ∀ (b : GVBudget) (cursor : ℕ) (code : Option ℕ), P b cursor → cursor ≤ stop →
      stop - cursor ≤ fuel → ∀ x,
      (∃ c ∈ (applyLoop kernel op anchor stop fuel b cursor code).2.2, c.Covers x) ↔
        cursor ≤ x ∧ x < stop := by
  induction fuel with
  | zero =>
      intro b cursor code _ _ hfuel x
      simp only [applyLoop, List.not_mem_nil, false_and, exists_false, false_iff]
      omega
  | succ fuel ih =>
      intro b cursor code h hle hfuel x
      rw [applyLoop]
      by_cases hlt : cursor < stop
      swap
      · simp only [if_neg hlt, List.not_mem_nil, false_and, exists_false, false_iff]
        omega
      have hp := b.part_spec anchor hlt
      have h1 := hp.lt
      have h2 := hp.le
      obtain ⟨hm, hg⟩ := (hwhole b cursor h).part hp
      rw [if_pos hlt]
      dsimp only
      rw [if_neg (by tauto)]
      have hnext := ih (if op.ask kernel cursor ((b.part cursor stop anchor).2.1 - cursor) = none ∧
          op = .unmap then b.release (b.part cursor stop anchor).2.2 cursor
            (b.part cursor stop anchor).2.1 else b) (b.part cursor stop anchor).2.1
        (op.ask kernel cursor ((b.part cursor stop anchor).2.1 - cursor) <|> code) ?_ h2
        (by omega) x
      · simp only [List.mem_cons, exists_eq_or_imp, Operation.covers_call, hnext]
        omega
      · split
        · rename_i hdone
          obtain ⟨hnone, rfl⟩ := hdone
          exact hrelease b cursor _ h hlt rfl hp hm rfl hnone
        · rename_i hdone
          exact hskip b cursor _ h hlt rfl hp (skipped_of_not hdone)

/-! ## Unmapping -/

/-- The end of a region is unmapped and its beginning is not: the call starts inside
the own part, or the kernel refuses its first piece, which ends where the claim
the call starts in ends. -/
def TrimsTail (b : GVBudget) (kernel : Kernel) (a stop : ℕ) : Prop :=
  ∃ r ∈ b.regions, ∃ p, r.start < p ∧ p < r.limit ∧ r.limit ≤ stop ∧
    (p = a ∨ p = (b.anchorAt a).2 ∧ kernel.munmap r.start (p - r.start) ≠ none) ∧
    kernel.munmap p (r.limit - p) = none

theorem anchorAt_of_mem {b : GVBudget} (hb : b.Sound) {r : GVRegion} (hr : r ∈ b.regions) {a : ℕ}
    (h1 : r.start ≤ a) (h2 : a < r.limit) : b.anchorAt a = (r.start, r.limit) := by
  have hfind : b.regions.find? (fun r => decide (r.start ≤ a ∧ a < r.limit)) = some r := by
    cases hf : b.regions.find? (fun r => decide (r.start ≤ a ∧ a < r.limit)) with
    | none =>
        have h := List.find?_eq_none.1 hf r hr
        simp only [decide_eq_true_eq] at h
        exact absurd ⟨h1, h2⟩ h
    | some t =>
        have ht := List.find?_some hf
        rw [decide_eq_true_eq] at ht
        rw [hb.eq_of_common hr (List.mem_of_find?_eq_some hf) h1 h2 ht.1 ht.2]
  rw [anchorAt, hfind]

/-- Where the pieces of an unmapping call can cut a region, in the middle of the
call. A region that reaches over the cursor is as it was before the call, and
the cursor is where the call started or where its claim ends; regions ahead are
as they were, until the end of that claim. -/
structure Cuts (b : GVBudget) (kernel : Kernel) (a stop : ℕ) (b' : GVBudget) (cursor : ℕ) :
    Prop where
  inside : cursor < stop → ∀ t ∈ b'.regions, t.start < cursor → cursor < t.limit →
    t ∈ b.regions ∧
      (cursor = a ∨ cursor = (b.anchorAt a).2 ∧
        kernel.munmap t.start (cursor - t.start) ≠ none)
  ahead : cursor < stop → ∀ t ∈ b'.regions, cursor ≤ t.start → t.start < t.limit →
    t ∈ b.regions ∨ (b.anchorAt a).2 ≤ cursor

theorem Cuts.refl (b : GVBudget) (kernel : Kernel) (a stop : ℕ) : Cuts b kernel a stop b a :=
  ⟨fun _ _ ht _ _ => ⟨ht, .inl rfl⟩, fun _ _ ht _ _ => .inl ht⟩

/-- A piece of a region without a guard ends at the region's end, at the end of the
call or at the end of the claim it started in. -/
theorem Sound.cut {b : GVBudget} (hb : b.Sound) (cursor stop : ℕ) (anchor : ℕ × ℕ)
    (hw : b.Whole) {r : GVRegion} (hr : r ∈ b.regions)
    (h1 : r.start < (b.part cursor stop anchor).2.1)
    (h2 : (b.part cursor stop anchor).2.1 < r.limit)
    (h3 : (b.part cursor stop anchor).2.1 < stop) :
    (b.part cursor stop anchor).2.1 = anchor.2 := by
  have hbound := @part_bound (fun x => x = stop ∨ x = anchor.2 ∨
    ∃ t ∈ b.regions, t.start ≤ x ∧ x ≤ t.span ∧ (x = t.start ∨ x = t.limit)) b cursor stop anchor
    ?_ (.inl rfl) (.inr (.inl rfl))
  · rcases hbound with h | h | ⟨t, ht, ht1, ht2, h⟩
    · omega
    · exact h
    · -- No bound of a region lies inside another.
      exfalso
      have hr' := hb.region r hr
      have ht' := hb.region t ht
      have h4 := hr'.limit_le
      by_cases heq : t = r
      · subst heq
        omega
      · rcases hb.apart.forall hr ht (Ne.symm heq) with hap | hap <;> omega
  · intro t ht
    have ht' := hb.region t ht
    have hwt := hw t ht
    have h4 := ht'.start_le
    have h5 := ht'.stop_le
    have h6 := ht'.limit_le
    refine ⟨.inr (.inr ⟨t, ht, le_rfl, by omega, .inl rfl⟩),
      .inr (.inr ⟨t, ht, by omega, by omega, .inr (by omega)⟩),
      .inr (.inr ⟨t, ht, by omega, by omega, .inr rfl⟩),
      .inr (.inr ⟨t, ht, by omega, le_rfl, .inr (by omega)⟩)⟩

/-- The cursor is inside the own part of `r` only at the start of the call or where
its claim ends, and a piece that starts inside is not cut short by that claim. -/
theorem Cuts.not_cut {b b' : GVBudget} (hb : b.Sound) {kernel : Kernel} {a stop cursor : ℕ}
    (h : Cuts b kernel a stop b' cursor) (hs : b'.Sound) (hw : b'.Whole) (hlt : cursor < stop)
    {r : GVRegion} (hr : r ∈ b'.regions) (h1 : r.start < cursor) (h2 : cursor < r.limit)
    (hlt' : cursor < (b'.part cursor stop (b.anchorAt a)).2.1)
    (h3 : (b'.part cursor stop (b.anchorAt a)).2.1 < r.limit)
    (h4 : (b'.part cursor stop (b.anchorAt a)).2.1 < stop) : False := by
  have hcut := hs.cut cursor stop _ hw hr (lt_trans h1 hlt') h3 h4
  obtain ⟨hmem, rfl | ⟨heq, -⟩⟩ := h.inside hlt r hr h1 h2
  · rw [hcut, anchorAt_of_mem hb hmem (le_of_lt h1) h2] at h3
    exact absurd h3 (lt_irrefl _)
  · omega

theorem Sound.eq_of_piece {b : GVBudget} (hb : b.Sound) {cursor u : ℕ} {r t : GVRegion}
    (hr : r ∈ b.regions) (ht : t ∈ b.regions) (h1 : r.start ≤ cursor) (h2 : u ≤ r.limit)
    (hlt : cursor < u) (h3 : t.start < u) (h4 : u < t.limit) : t = r :=
  hb.eq_of_common ht hr (x := u - 1) (by omega) (by omega) (by omega) (by omega)

theorem Cuts.skip {b b' : GVBudget} (hb : b.Sound) {kernel : Kernel} {a stop cursor : ℕ}
    (h : Cuts b kernel a stop b' cursor) (hs : b'.Sound) (hw : b'.Whole) (hlt : cursor < stop)
    {p : Part × ℕ × Option ℕ} (heq : b'.part cursor stop (b.anchorAt a) = p)
    (hp : PartSpec b' cursor stop (b.anchorAt a) p)
    (hno : kernel.munmap cursor (p.2.1 - cursor) ≠ none) : Cuts b kernel a stop b' p.2.1 := by
  have hlt' := hp.lt
  refine ⟨?_, ?_⟩
  · intro hstop t ht h1 h2
    cases hp with
    | missing hr hl hsp =>
        have := hw _ (List.mem_of_getElem? hr)
        omega
    | outside _ _ hown hstart =>
        exfalso
        by_cases hc : t.start ≤ cursor
        · have := hown t ht hc
          dsimp only at *
          omega
        · have := hstart t ht (by omega)
          dsimp only at *
          omega
    | @own kind u k r _ _ hr hr1 hr2 hkind =>
        have hmem := List.mem_of_getElem? hr
        have hu : u ≤ r.limit := by
          have := hw r hmem
          rcases hkind with ⟨-, -, h⟩ | ⟨-, -, h⟩ <;> omega
        obtain rfl := hs.eq_of_piece hmem ht hr1 hu hlt' h1 h2
        have hu' : (b'.part cursor stop (b.anchorAt a)).2.1 = u := by rw [heq]
        have hcut := hs.cut cursor stop (b.anchorAt a) hw ht
          (by rw [hu']; exact h1) (by rw [hu']; exact h2) (by rw [hu']; exact hstop)
        have hstart : t.start = cursor := by
          by_contra hne
          exact h.not_cut hb hs hw hlt ht (by omega) hr2 (by rw [hu']; exact hlt')
            (by rw [hu']; exact h2) (by rw [hu']; exact hstop)
        rw [hu'] at hcut
        rcases h.ahead hlt t ht hstart.ge (by omega) with hb' | hle
        · rw [← hstart] at hno
          exact ⟨hb', .inr ⟨hcut, hno⟩⟩
        · dsimp only at *
          omega
  · intro hstop t ht h1 h2
    rcases h.ahead hlt t ht (by omega) h2 with h' | h'
    · exact .inl h'
    · exact .inr (by omega)

theorem Cuts.release {b b' : GVBudget} (hb : b.Sound) {kernel : Kernel} {a stop cursor : ℕ}
    (htail : ¬ b.TrimsTail kernel a stop) (h : Cuts b kernel a stop b' cursor) (hs : b'.Sound)
    (hw : b'.Whole) (hlt : cursor < stop) {p : Part × ℕ × Option ℕ}
    (heq : b'.part cursor stop (b.anchorAt a) = p)
    (hp : PartSpec b' cursor stop (b.anchorAt a) p)
    (hdone : kernel.munmap cursor (p.2.1 - cursor) = none) :
    (b'.release p.2.2 cursor p.2.1).Whole ∧
      Cuts b kernel a stop (b'.release p.2.2 cursor p.2.1) p.2.1 := by
  have hlt' := hp.lt
  have hle' := hp.le
  cases hp with
  | missing hr hl hsp =>
      have := hw _ (List.mem_of_getElem? hr)
      omega
  | @outside u _ _ hown hstart =>
      refine ⟨hw, ?_, ?_⟩
      · intro _ t ht h1 h2
        exfalso
        by_cases hc : t.start ≤ cursor
        · have := hown t ht hc
          dsimp only at *
          omega
        · have := hstart t ht (by omega)
          dsimp only at *
          omega
      · intro hstop t ht h1 h2
        dsimp only at *
        rcases h.ahead hlt t ht (by omega) h2 with h' | h'
        · exact .inl h'
        · exact .inr (by omega)
  | @own kind u k r _ _ hr hr1 hr2 hkind =>
      dsimp only at hlt' hle' hdone ⊢
      have hmem := List.mem_of_getElem? hr
      have hwr := hw r hmem
      have hu : u ≤ r.limit := by
        rcases hkind with ⟨-, -, h⟩ | ⟨-, -, h⟩ <;> omega
      have hu' : (b'.part cursor stop (b.anchorAt a)).2.1 = u := by rw [heq]
      -- A piece that starts inside the own part and ends before it ends the call.
      have hinside : r.start < cursor → u < r.limit → ¬ u < stop := by
        intro h1 h2 h3
        exact h.not_cut hb hs hw hlt hmem h1 hr2 (by rw [hu']; exact hlt')
          (by rw [hu']; exact h2) (by rw [hu']; exact h3)
      obtain ⟨rest, hperm, ⟨hsame, h1, h2⟩ | ⟨left, regions, hleft, hregions, hnew⟩⟩ :=
        b'.forget_cases (a := cursor) (e := u) hr
      · have hend := hinside h1 h2
        rw [GVBudget.release, hsame]
        exact ⟨hw, fun hc => absurd hc hend, fun hc => absurd hc hend⟩
      have hrest : ∀ t ∈ rest, t ∈ b'.regions ∧ r.Apart t := by
        intro t ht
        have hpair := (hperm.pairwise_iff fun h => GVRegion.Apart.symm h).1 hs.apart
        exact ⟨hperm.mem_iff.2 (List.mem_cons_of_mem r ht), (List.pairwise_cons.1 hpair).1 t ht⟩
      rw [GVBudget.release, hnew]
      -- The tail of a region is never released.
      have hleft' : r.start = cursor ∧
          left = [{ r with start := u, stop := max r.stop u }] ∨ ¬ u < stop ∧ r.start < cursor ∧
          left = [{ r with start := u, stop := max r.stop u },
            ⟨r.start, min r.stop cursor, cursor, cursor⟩] := by
        cases hleft with
        | head hc => exact .inl ⟨by omega, rfl⟩
        | tail h1 h2 =>
            exfalso
            obtain ⟨hmem', hwhere⟩ := h.inside hlt r hmem h1 hr2
            have hue : u = r.limit := by omega
            exact htail ⟨r, hmem', cursor, h1, hr2, by omega, hwhere, by rw [← hue]; exact hdone⟩
        | hole h1 h2 => exact .inr ⟨hinside h1 h2, h1, rfl⟩
      have hwhole : ∀ t ∈ left, t.stop = t.limit ∧ t.limit = t.span := by
        rcases hleft' with ⟨-, rfl⟩ | ⟨-, -, rfl⟩
        · intro t ht
          obtain rfl := List.mem_singleton.1 ht
          dsimp only
          omega
        · intro t ht
          rcases List.mem_cons.1 ht with rfl | ht
          · dsimp only
            omega
          · obtain rfl := List.mem_singleton.1 ht
            dsimp only
            omega
      refine ⟨?_, ?_, ?_⟩
      · intro t ht
        rcases List.mem_append.1 (hregions.mem_iff.1 ht) with ht | ht
        · exact hwhole t ht
        · exact hw t (hrest t ht).1
      · intro hstop t ht h1 h2
        exfalso
        rcases List.mem_append.1 (hregions.mem_iff.1 ht) with ht | ht
        · rcases hleft' with ⟨-, rfl⟩ | ⟨hend, -⟩
          · obtain rfl := List.mem_singleton.1 ht
            exact absurd h1 (lt_irrefl u)
          · exact hend hstop
        · obtain ⟨htmem, hap⟩ := hrest t ht
          have hl := (hs.region t htmem).limit_le
          have hl' := (hs.region r hmem).limit_le
          rcases hap with hap | hap <;> omega
      · intro hstop t ht h1 h2
        rcases List.mem_append.1 (hregions.mem_iff.1 ht) with ht | ht
        · rcases hleft' with ⟨-, rfl⟩ | ⟨hend, -⟩
          · obtain rfl := List.mem_singleton.1 ht
            dsimp only at h1 h2
            have hcut := hs.cut cursor stop (b.anchorAt a) hw hmem (by rw [hu']; omega)
              (by rw [hu']; exact h2) (by rw [hu']; exact hstop)
            rw [hu'] at hcut
            exact .inr hcut.ge
          · exact absurd hstop hend
        · rcases h.ahead hlt t (hrest t ht).1 (by omega) h2 with h' | h'
          · exact .inl h'
          · exact .inr (by omega)

theorem Whole.sweep {b : GVBudget} (h : b.Whole) : b.sweep.Whole :=
  fun r hr => h r (mem_sweep_regions.1 hr).1

/-- The loop of `apply` on whole regions: they stay whole, and the calls cover the
range. -/
theorem Whole.applyLoop {b : GVBudget} (hb : b.Sound) (hw : b.Whole) (kernel : Kernel)
    (op : Operation) {a stop : ℕ} (ha : b.page ∣ a) (hstop : b.page ∣ stop) (hle : a ≤ stop)
    (htail : op = .unmap → ¬ b.TrimsTail kernel a stop) :
    (applyLoop kernel op (b.anchorAt a) stop (stop - a) b a none).1.Whole ∧
      ∀ x, (∃ c ∈ (applyLoop kernel op (b.anchorAt a) stop (stop - a) b a none).2.2, c.Covers x) ↔
        a ≤ x ∧ x < stop := by
  by_cases hop : op = .unmap
  · subst hop
    have htail' := htail rfl
    have hanchor := anchorAt_dvd hb ha
    let P : GVBudget → ℕ → Prop := fun b' cursor =>
      b'.Sound ∧ b'.page = b.page ∧ b.page ∣ cursor ∧ b'.Whole ∧ Cuts b kernel a stop b' cursor
    have hrefuse : ∀ b' cursor p, P b' cursor → cursor < stop →
        b'.part cursor stop (b.anchorAt a) = p → PartSpec b' cursor stop (b.anchorAt a) p →
        Skipped kernel .unmap cursor p → P b' p.2.1 := by
      rintro b' cursor p ⟨hs, hpage, hcursor, hw', hcuts⟩ hlt hdef hspec hskip
      have hno := (hskip.resolve_left (hw'.part hspec).1).resolve_left (by simp)
      refine ⟨hs, hpage, ?_, hw', hcuts.skip hb hs hw' hlt hdef hspec hno⟩
      rw [← hdef, ← hpage]
      rw [← hpage] at hanchor hstop
      exact hs.part_dvd cursor hanchor hstop
    have hrelease : ∀ b' cursor p, P b' cursor → cursor < stop →
        b'.part cursor stop (b.anchorAt a) = p → PartSpec b' cursor stop (b.anchorAt a) p →
        p.1 ≠ .missing → Operation.unmap = .unmap →
        kernel.munmap cursor (p.2.1 - cursor) = none →
        P (b'.release p.2.2 cursor p.2.1) p.2.1 := by
      rintro b' cursor p ⟨hs, hpage, hcursor, hw', hcuts⟩ hlt hdef hspec hkind - hdone
      have hdvd : b'.page ∣ p.2.1 := by
        rw [← hdef]
        rw [← hpage] at hanchor hstop
        exact hs.part_dvd cursor hanchor hstop
      have hsound := hs.release hspec hkind (by rwa [hpage]) hdvd
      obtain ⟨h1, h2⟩ := hcuts.release hb htail' hs hw' hlt hdef hspec hdone
      exact ⟨hsound.1, hsound.2.trans hpage, by rwa [← hpage], h1, h2⟩
    have hinit : P b a := ⟨hb, rfl, ha, hw, Cuts.refl b kernel a stop⟩
    have hend := applyLoop_rule hrefuse hrelease (stop - a) b a none hinit hle le_rfl
    refine ⟨hend.2.2.2.1, ?_⟩
    exact applyLoop_covers hrefuse hrelease (fun _ _ h => h.2.2.2.1) (stop - a) b a none hinit hle
      le_rfl
  · refine ⟨by rw [applyLoop_of_ne_unmap kernel hop]; exact hw, ?_⟩
    refine applyLoop_covers (P := fun b' _ => b' = b) ?_ ?_ ?_ (stop - a) b a none rfl hle le_rfl
    · rintro b' cursor p rfl - - - -
      rfl
    · rintro b' cursor p - - - - - hc
      exact absurd hc hop
    · rintro b' cursor rfl
      exact hw

/-- Unmapping, protecting and advising on whole regions. -/
theorem Whole.gvApply {b : GVBudget} (hb : b.Settled) (hw : b.Whole) (hon : b.gvEnabled = true)
    (kernel : Kernel) (op : Operation) {a n : ℕ} (ha : b.page ∣ a) (halt : a < addressSpace)
    (htail : op = .unmap → ¬ b.TrimsTail kernel a (b.pageEnd a n)) :
    (b.gvApply kernel op a n).budget.Whole ∧
      (∀ c ∈ (b.gvApply kernel op a n).calls, ∃ a' n', c = op.call a' n') ∧
      ∀ x, (∃ c ∈ (b.gvApply kernel op a n).calls, c.Covers x) ↔
        a ≤ x ∧ x < b.pageEnd a n := by
  unfold GVBudget.gvApply GVBudget.apply
  rw [if_pos hon]
  dsimp only
  by_cases h0 : n = 0
  · -- Nothing is asked for; the kernel gives its own answer.
    subst h0
    rw [if_pos rfl]
    refine ⟨hw, ?_, ?_⟩
    · intro c hc
      obtain rfl := List.mem_singleton.1 hc
      exact ⟨a, 0, rfl⟩
    · intro x
      have hend : b.pageEnd a 0 ≤ a := by
        by_contra hgt
        push Not at hgt
        have hne : b.pageEnd a 0 ≠ 0 := by omega
        have hle := le_of_dvd_of_lt ha (b.pageEnd_dvd a 0) hgt
        have hlt := (pageEnd_bounds hb.toSound halt (by decide) hne).2
        omega
      simp only [List.mem_singleton, exists_eq_left, Operation.covers_call]
      omega
  rw [if_neg h0]
  by_cases hargs : b.pageEnd a n = 0 ∨ a % b.page ≠ 0
  · rw [if_pos hargs]
    have hzero : b.pageEnd a n = 0 := by
      rcases hargs with h | h
      · exact h
      · exact absurd (Nat.mod_eq_zero_of_dvd ha) h
    refine ⟨hw, by simp, ?_⟩
    intro x
    simp only [List.not_mem_nil, false_and, exists_false, false_iff]
    omega
  rw [if_neg hargs]
  push Not at hargs
  rw [hw.reaches, if_neg (by simp)]
  obtain ⟨h1, h2⟩ := hw.applyLoop hb.toSound kernel op ha (b.pageEnd_dvd a n)
    (le_pageEnd ha hargs.1) htail
  refine ⟨?_, ?_, h2⟩
  · dsimp only
    split
    · exact h1.sweep
    · exact h1
  · exact applyLoop_calls (P := fun _ _ => True) (Q := fun c => ∃ a' n', c = op.call a' n')
      (fun _ _ _ _ _ _ _ _ => trivial) (fun _ _ _ _ _ _ _ _ _ _ => trivial)
      (fun _ _ _ _ _ _ _ => ⟨_, _, rfl⟩) _ b a none trivial

/-- Claims cut no span of a whole region. -/
theorem Whole.claim {b : GVBudget} (hw : b.Whole) (address size : ℕ) :
    (b.claim address size).Whole := by
  rcases b.claim_cases address size with h | ⟨-, h⟩ | ⟨-, h⟩
  · rw [h]
    exact hw
  · rw [h]
    exact hw
  · rw [h]
    intro t ht
    obtain ⟨r, hr, rfl⟩ := List.mem_map.1 ht
    have hwr := hw r hr
    unfold cutSpan
    split
    · exact hwr
    · rename_i hin
      push Not at hin
      rw [if_neg (by omega)]
      exact ⟨hwr.1, rfl⟩

theorem Whole.gvMap {b : GVBudget} (hw : b.Whole) (hon : b.gvEnabled = true) (kernel : Kernel)
    (request : MapRequest) :
    (b.gvMap kernel request).budget.Whole ∧
      (b.gvMap kernel request).calls = [.mmap request] ∧
      (b.gvMap kernel request).answer = kernel.mmap request := by
  unfold GVBudget.gvMap
  dsimp only
  rw [hon, if_neg (by simp), hw.reaches, Bool.and_false, if_neg (by simp), if_neg (by simp)]
  cases kernel.mmap request with
  | error code => exact ⟨hw, rfl, rfl⟩
  | ok address => exact ⟨hw.claim address request.size, rfl, rfl⟩

theorem Whole.gvReserve {b : GVBudget} (hb : b.Settled) (hw : b.Whole) {kernel : Kernel}
    (hk : kernel.WellFormed b.page) {size : ℕ} (hsize : size < addressSpace)
    (prot flags : BitVec 32) (fd : ℤ)
    (hfull : ∀ address, (b.gvReserve kernel size prot flags fd).answer = .ok address →
      (b.gvReserve kernel size prot flags fd).granted = size) :
    (b.gvReserve kernel size prot flags fd).budget.Whole := by
  rcases gvReserve_cases hb hk hsize prot flags fd with ⟨code, calls, heq⟩ |
    ⟨address, -, -, heq⟩ | ⟨start, want, calls, heq, -⟩
  · rw [heq]
    exact hw
  · rw [heq]
    exact hw.claim address size
  · rw [heq] at hfull ⊢
    have hwant : want = size := hfull start rfl
    subst hwant
    intro r hr
    rcases List.mem_append.1 hr with hr | hr
    · exact hw r hr
    · obtain rfl := List.mem_singleton.1 hr
      rw [newRegion, if_neg (lt_irrefl want)]
      exact ⟨rfl, rfl⟩

end GVBudget

/-! ## Runs -/

/-- `P` holds at every step of a run, of the state before it. -/
def AllAlong (P : GVBudget → BudgetStep → Prop) : GVBudget → List BudgetStep → Prop
  | _, [] => True
  | b, s :: steps => P b s ∧ AllAlong P (s.outcome b).budget steps

namespace BudgetStep

/-- A reservation that succeeds is granted in full. -/
def GrantedInFull (b : GVBudget) (s : BudgetStep) : Prop :=
  match s.call with
  | .reserve size _ _ _ =>
    ∀ address, (s.outcome b).answer = .ok address → (s.outcome b).granted = size.toNat
  | _ => True

/-- What is unmapped, protected or advised starts at a page. -/
def Aligned (b : GVBudget) (s : BudgetStep) : Prop :=
  match s.call with
  | .unmap address _ | .protect address _ _ | .advise address _ _ => b.page ∣ address.toNat
  | _ => True

/-- The call unmaps the end of a region and not its beginning. -/
def TrimsTail (b : GVBudget) (s : BudgetStep) : Prop :=
  match s.call with
  | .unmap address size =>
    b.TrimsTail s.kernel address.toNat (b.pageEnd address.toNat size.toNat)
  | _ => False

/-- The kernel calls are `op` on ranges that cover `[a, stop)` and nothing else. -/
def CoversExactly (calls : List KernelCall) (op : GVBudget.Operation) (a stop : ℕ) : Prop :=
  (∀ c ∈ calls, ∃ a' n', c = op.call a' n') ∧
    ∀ x, (∃ c ∈ calls, c.Covers x) ↔ a ≤ x ∧ x < stop

/-- The kernel sees what it would see without a budget: a mapping call unchanged,
and exactly the range asked for, rounded to pages, unmapped, protected or
advised. -/
def Transparent (b : GVBudget) (s : BudgetStep) : Prop :=
  let range (op : GVBudget.Operation) (address size : BitVec 64) : Prop :=
    CoversExactly (s.outcome b).calls op address.toNat (b.pageEnd address.toNat size.toNat)
  match s.call with
  | .reserve .. => True
  | .map address size prot flags fd offset =>
    (s.outcome b).calls = [.mmap ⟨address.toNat, size.toNat, prot, flags, fd, offset⟩] ∧
      (s.outcome b).answer = s.kernel.mmap ⟨address.toNat, size.toNat, prot, flags, fd, offset⟩
  | .unmap address size => range .unmap address size
  | .protect address size prot => range (.protect prot) address size
  | .advise address size advice => range (.advise advice) address size

end BudgetStep

/-- One step on whole regions is transparent and leaves them whole. -/
theorem transparent_step {b : GVBudget} (hb : b.Settled) (hw : b.Whole)
    (hon : b.gvEnabled = true) {s : BudgetStep} (hk : s.kernel.WellFormed b.page)
    (hfull : s.GrantedInFull b) (ha : s.Aligned b) (htail : ¬ s.TrimsTail b) :
    s.Transparent b ∧ (s.outcome b).budget.Whole := by
  obtain ⟨call, kernel⟩ := s
  cases call with
  | reserve size prot flags fd =>
      exact ⟨trivial, hw.gvReserve hb hk (toNat_lt size) prot flags fd hfull⟩
  | map address size prot flags fd offset =>
      obtain ⟨h1, h2⟩ := hw.gvMap hon kernel ⟨address.toNat, size.toNat, prot, flags, fd, offset⟩
      exact ⟨h2, h1⟩
  | unmap address size =>
      obtain ⟨h1, h2⟩ := hw.gvApply hb hon kernel .unmap ha (toNat_lt address) fun _ => htail
      exact ⟨h2, h1⟩
  | protect address size prot =>
      obtain ⟨h1, h2⟩ := hw.gvApply hb hon kernel (.protect prot) (n := size.toNat) ha
        (toNat_lt address) fun h => by cases h
      exact ⟨h2, h1⟩
  | advise address size advice =>
      obtain ⟨h1, h2⟩ := hw.gvApply hb hon kernel (.advise advice) (n := size.toNat) ha
        (toNat_lt address) fun h => by cases h
      exact ⟨h2, h1⟩

theorem allAlong_transparent {b : GVBudget} (hb : b.Settled) (hw : b.Whole)
    (hon : b.gvEnabled = true) {steps : List BudgetStep}
    (hk : ∀ s ∈ steps, s.kernel.WellFormed b.page)
    (hcond : AllAlong (fun b s => s.GrantedInFull b ∧ s.Aligned b ∧ ¬ s.TrimsTail b) b steps) :
    AllAlong (fun b s => s.Transparent b) b steps := by
  induction steps generalizing b with
  | nil => trivial
  | cons s steps ih =>
      obtain ⟨⟨hfull, ha, htail⟩, hrest⟩ := hcond
      have hks := hk s List.mem_cons_self
      obtain ⟨h1, h2⟩ := transparent_step hb hw hon hks hfull ha htail
      have hset := outcome_settings b s
      have hpage : (s.outcome b).budget.page = b.page := congrArg (·.2.2.2) hset
      have hbudget : (s.outcome b).budget.budget = b.budget := congrArg (·.1) hset
      refine ⟨h1, ih (hb.step hks) h2 ?_ ?_ hrest⟩
      · rw [GVBudget.gvEnabled, hbudget]
        exact hon
      · intro t ht
        rw [hpage]
        exact hk t (List.mem_cons_of_mem s ht)

/-- The budget is transparent while every reservation is granted in full, as long as
no call unmaps the end of a region without its beginning. -/
theorem transparent_run {page : ℕ} (hpos : 0 < page) (hdvd : page ∣ addressSpace) {bytes : ℕ}
    (hon : bytes ≠ 0) (threshold floor : ℕ) (steps : List BudgetStep)
    (hk : ∀ s ∈ steps, s.kernel.WellFormed page)
    (hcond : AllAlong (fun b s => s.GrantedInFull b ∧ s.Aligned b ∧ ¬ s.TrimsTail b)
      (gvInit page bytes threshold floor) steps) :
    AllAlong (fun b s => s.Transparent b) (gvInit page bytes threshold floor) steps := by
  refine allAlong_transparent (GVBudget.settled_gvInit bytes threshold floor hpos hdvd) ?_ ?_ hk
    hcond
  · intro r hr
    cases hr
  · simpa [GVBudget.gvEnabled, gvInit] using hon

/-- Two pages, reserved within the budget of two. -/
def wholeStep : BudgetStep :=
  ⟨.reserve 32768#64 3#32 0x1002#32 (-1), placingKernel 0x100000000⟩

theorem wholeStep_outcome :
    (wholeStep.outcome (gvInit 16384 32768 16384 16384)).budget.regions =
        [⟨0x100000000, 0x100008000, 0x100008000, 0x100008000⟩] ∧
      (wholeStep.outcome (gvInit 16384 32768 16384 16384)).granted = 32768 ∧
      ((wholeStep.outcome (gvInit 16384 32768 16384 16384)).budget.anchorAt
        (0x100000000#64).toNat).2 = 0x100008000 := by
  decide

theorem grantedInFull_wholeStep :
    wholeStep.GrantedInFull (gvInit 16384 32768 16384 16384) := by
  intro address _
  rw [wholeStep_outcome.2.1]
  rfl

/-- Two pages are reserved and unmapped again. -/
theorem transparent_run_unmap :
    AllAlong (fun b s => s.Transparent b) (gvInit 16384 32768 16384 16384)
      [wholeStep, ⟨.unmap 0x100000000#64 32768#64, placingKernel 0⟩] := by
  refine transparent_run (by decide) (by decide) (by decide) 16384 16384 _ ?_ ?_
  · intro s hs
    rcases List.mem_cons.1 hs with rfl | hs
    · exact wellFormed_placingKernel (by decide) (by decide)
    · obtain rfl := List.mem_singleton.1 hs
      exact wellFormed_placingKernel (by decide) (by decide)
  · refine ⟨⟨grantedInFull_wholeStep, trivial, id⟩, ⟨trivial, ?_, ?_⟩, trivial⟩
    · change (16384 : ℕ) ∣ _
      decide
    · rintro ⟨r, hr, p, h1, h2, -, h3, -⟩
      rw [wholeStep_outcome.1] at hr
      obtain rfl := List.mem_singleton.1 hr
      rw [wholeStep_outcome.2.2] at h3
      simp only [BitVec.toNat_ofNat] at h1 h2 h3
      omega

/-- The second of the two pages is unmapped and then mapped again at its place: the
budget refuses, without asking the kernel, which would have agreed. -/
theorem transparent_run_trimmed :
    let b := (gvInit 16384 32768 16384 16384).run
      [wholeStep, ⟨.unmap 0x100004000#64 16384#64, placingKernel 0⟩]
    let again : BudgetStep :=
      ⟨.map 0x100004000#64 16384#64 3#32 0x1012#32 (-1) 0, placingKernel 0x100004000⟩
    wholeStep.GrantedInFull (gvInit 16384 32768 16384 16384) ∧
      (again.outcome b).calls = [] ∧ (again.outcome b).answer = .error ENOMEM ∧
      again.kernel.mmap ⟨0x100004000, 16384, 3#32, 0x1012#32, -1, 0⟩ = .ok 0x100004000 :=
  ⟨grantedInFull_wholeStep, by decide⟩

end Tolkara
