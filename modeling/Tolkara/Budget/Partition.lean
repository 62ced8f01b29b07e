import Tolkara.Budget.Accounting
import Tolkara.Library.Tiling

/-!
# The pieces of a call

`apply` walks over a range piece by piece and releases what it unmaps, so that `part`
answers from regions that the pieces before have moved and split. `pieces` are the
answers of a whole call, each with the budget it was found in. They tile the range,
and each is what it is in that budget and what it was at the start of the call:
from the cursor on, the regions are never changed (`SameFrom`).
-/

namespace Tolkara

open Library

namespace GVRegion

def Has (r : GVRegion) (x : ℕ) : GVBudget.Part → Prop
  | .outside => False
  | .granted => r.start ≤ x ∧ x < r.stop
  | .guard => r.start ≤ x ∧ r.stop ≤ x ∧ x < r.limit
  | .missing => r.limit ≤ x ∧ x < r.span

/-- `x` is in the mapping of the region. -/
def Owns (r : GVRegion) (x : ℕ) : Prop := r.start ≤ x ∧ x < r.limit

end GVRegion

namespace GVBudget

/-- A piece of a call, and the budget it was found in. -/
structure Piece where
  kind : Part
  start : ℕ
  stop : ℕ
  budget : GVBudget

namespace Piece

def Contains (p : Piece) (x : ℕ) : Prop := p.start ≤ x ∧ x < p.stop

def range (p : Piece) : ℕ × ℕ := (p.start, p.stop - p.start)

/-- The piece is in one part of one region, or outside of all regions. What the
call started in is not missing. -/
structure Fits (b : GVBudget) (anchor : ℕ × ℕ) (p : Piece) : Prop where
  within : p.kind ≠ .outside → ∃ r ∈ b.regions, ∀ x, p.Contains x → r.Has x p.kind
  outside : p.kind = .outside → ∀ x, p.Contains x → ∀ r ∈ b.regions, ¬ r.Owns x
  missing_iff : ∀ x, p.Contains x →
    (p.kind = .missing ↔
      (∃ r ∈ b.regions, r.Has x .missing) ∧ ¬ (anchor.1 ≤ x ∧ x < anchor.2))

end Piece

/-- The loop of `apply` does something at a piece. -/
def acts (op : Operation) (kind : Part) : Bool :=
  decide (¬ (kind = .missing ∨ kind = .guard ∧ op ≠ .unmap))

def after (b : GVBudget) (kernel : Kernel) (op : Operation) (cursor : ℕ)
    (p : Part × ℕ × Option ℕ) : GVBudget :=
  if acts op p.1 = true ∧ op.ask kernel cursor (p.2.1 - cursor) = none ∧ op = .unmap then
    b.release p.2.2 cursor p.2.1
  else b

/-- The pieces of `[cursor, stop)`, as the loop of `apply` finds them. -/
def pieces (kernel : Kernel) (op : Operation) (anchor : ℕ × ℕ) (stop : ℕ) :
    ℕ → GVBudget → ℕ → List Piece
  | 0, _, _ => []
  | fuel + 1, b, cursor =>
    if cursor < stop then
      let p := b.part cursor stop anchor
      ⟨p.1, cursor, p.2.1, b⟩ ::
        pieces kernel op anchor stop fuel (b.after kernel op cursor p) p.2.1
    else []

def callPieces (b : GVBudget) (kernel : Kernel) (op : Operation) (address size : ℕ) :
    List Piece :=
  let stop := b.pageEnd address size
  pieces kernel op (b.anchorAt address) stop (stop - address) b address

section

variable {kernel : Kernel} {op : Operation} {anchor : ℕ × ℕ} {stop : ℕ}

/-! ## The pieces and the loop -/

theorem applyLoop_pieces (fuel : ℕ) (b : GVBudget) (cursor : ℕ) (code : Option ℕ) :
    (applyLoop kernel op anchor stop fuel b cursor code).2.2 =
      ((pieces kernel op anchor stop fuel b cursor).filter fun p => acts op p.kind).map
        fun p => op.call p.start (p.stop - p.start) := by
  induction fuel generalizing b cursor code with
  | zero => rfl
  | succ fuel ih =>
      rw [applyLoop, pieces]
      by_cases hlt : cursor < stop
      swap
      · rw [if_neg hlt, if_neg hlt]
        rfl
      rw [if_pos hlt, if_pos hlt]
      dsimp only
      unfold after
      generalize b.part cursor stop anchor = p
      by_cases hkind : p.1 = .missing ∨ p.1 = .guard ∧ op ≠ .unmap
      · have hacts : acts op p.1 = false := by simp [acts, hkind]
        rw [if_pos hkind, ih, List.filter_cons, hacts]
        simp
      · have hacts : acts op p.1 = true := by simp [acts, hkind]
        rw [if_neg hkind, List.filter_cons]
        dsimp only
        rw [if_pos hacts, List.map_cons, ih, hacts]
        simp

/-- A call that does not unmap leaves the budget as it is. -/
theorem reaches_iff (hop : op ≠ .unmap) (b : GVBudget) (fuel cursor : ℕ) :
    b.reaches anchor stop fuel cursor = true ↔
      ∃ p ∈ pieces kernel op anchor stop fuel b cursor, p.kind = .guard ∨ p.kind = .missing := by
  induction fuel generalizing cursor with
  | zero => simp [reaches, pieces]
  | succ fuel ih =>
      rw [reaches, pieces]
      by_cases hlt : cursor < stop
      swap
      · simp [hlt]
      rw [if_pos hlt, if_pos hlt]
      dsimp only
      have hafter : b.after kernel op cursor (b.part cursor stop anchor) = b := by
        rw [after, if_neg (fun h => hop h.2.2)]
      rw [hafter]
      simp only [List.mem_cons, exists_eq_or_imp, ← ih]
      split
      · rename_i hkind
        simp [hkind]
      · rename_i hkind
        simp [hkind]

/-! ## The pieces tile the range -/

theorem pieces_pos {fuel : ℕ} {b : GVBudget} {cursor : ℕ} {p : Piece}
    (h : p ∈ pieces kernel op anchor stop fuel b cursor) : p.start < p.stop := by
  induction fuel generalizing b cursor with
  | zero => cases h
  | succ fuel ih =>
      rw [pieces] at h
      by_cases hlt : cursor < stop
      · rw [if_pos hlt] at h
        rcases List.mem_cons.1 h with rfl | h
        · exact (b.part_spec anchor hlt).lt
        · exact ih h
      · rw [if_neg hlt] at h
        cases h

/-- No piece is empty, so that the loop ends after as many rounds as there are bytes. -/
theorem pieces_tile {fuel : ℕ} {b : GVBudget} {cursor : ℕ} (hle : cursor ≤ stop)
    (hfuel : stop - cursor ≤ fuel) :
    Tiles cursor ((pieces kernel op anchor stop fuel b cursor).map Piece.range) stop := by
  induction fuel generalizing b cursor with
  | zero => exact (show cursor = stop by omega)
  | succ fuel ih =>
      rw [pieces]
      by_cases hlt : cursor < stop
      · have hp := b.part_spec anchor hlt
        have h1 := hp.lt
        have h2 := hp.le
        rw [if_pos hlt]
        refine ⟨rfl, ?_⟩
        have hnext := ih (b := b.after kernel op cursor (b.part cursor stop anchor)) h2 (by omega)
        have hend : cursor + ((b.part cursor stop anchor).2.1 - cursor) =
            (b.part cursor stop anchor).2.1 := by omega
        dsimp only [Piece.range]
        rw [hend]
        exact hnext
      · rw [if_neg hlt]
        exact (show cursor = stop by omega)

end

/-! ## What the pieces are -/

/-- The end of a piece is up to where nothing else begins. -/
theorem PartSpec.fits {b : GVBudget} {cursor stop : ℕ} {anchor : ℕ × ℕ} {p : Part × ℕ × Option ℕ}
    (h : PartSpec b cursor stop anchor p) (hanchor : anchor.1 ≤ cursor) :
    Piece.Fits b anchor ⟨p.1, cursor, p.2.1, b⟩ := by
  cases h with
  | @missing k r hr h1 h2 ha hstop =>
      have hx : ∀ x, cursor ≤ x ∧ x < min r.span stop → r.limit ≤ x ∧ x < r.span := by
        rintro x ⟨hx1, hx2⟩
        exact ⟨h1.trans hx1, hx2.trans_le (min_le_left _ _)⟩
      refine ⟨fun _ => ⟨r, List.mem_of_getElem? hr, hx⟩, nofun, fun x hin => ?_⟩
      refine iff_of_true rfl ⟨⟨r, List.mem_of_getElem? hr, hx x hin⟩, ?_⟩
      have hlow : cursor ≤ x := hin.1
      omega
  | @outside until' hlt hle hown hstart hmiss =>
      refine ⟨fun hne => absurd rfl hne, fun _ x hin r hr => ?_, fun x hin => ?_⟩
      · -- a region that begins at or before the cursor has ended, and no other begins
        rintro ⟨h1, h2⟩
        have hlow : cursor ≤ x := hin.1
        have hhigh : x < until' := hin.2
        by_cases hr' : r.start ≤ cursor
        · have := hown r hr hr'
          omega
        · have := hstart r hr (by omega)
          omega
      · refine iff_of_false nofun ?_
        rintro ⟨⟨r, hr, h1, h2⟩, hout⟩
        exact hout (hmiss r hr x hin.1 hin.2 h1 h2)
  | @own kind until' k r hlt hle hr h1 h2 hkind hmiss =>
      have hmissing : ∀ x, cursor ≤ x ∧ x < until' →
          ¬ ((∃ r ∈ b.regions, r.Has x .missing) ∧ ¬ (anchor.1 ≤ x ∧ x < anchor.2)) := by
        rintro x hin ⟨⟨t, ht, h3, h4⟩, hout⟩
        exact hout (hmiss t ht x hin.1 hin.2 h3 h4)
      rcases hkind with ⟨hstop, rfl, hend⟩ | ⟨hstop, rfl, hend⟩
      · refine ⟨fun _ => ⟨r, List.mem_of_getElem? hr, ?_⟩, nofun,
          fun x hin => iff_of_false nofun (hmissing x hin)⟩
        rintro x ⟨hlow, hhigh⟩
        exact ⟨h1.trans hlow, hhigh.trans_le hend⟩
      · refine ⟨fun _ => ⟨r, List.mem_of_getElem? hr, ?_⟩, nofun,
          fun x hin => iff_of_false nofun (hmissing x hin)⟩
        rintro x ⟨hlow, hhigh⟩
        exact ⟨h1.trans hlow, hstop.trans hlow, hhigh.trans_le hend⟩

/-! ## What the pieces were -/

/-- From `cursor` on, what the regions of `b` have is what those of `b'` have. -/
structure SameFrom (cursor : ℕ) (b b' : GVBudget) : Prop where
  kept : ∀ r ∈ b.regions, ∃ r' ∈ b'.regions, ∀ x, cursor ≤ x →
    (r.Owns x → r'.Owns x) ∧ (r.Has x .missing → r'.Has x .missing)
  old : ∀ r' ∈ b'.regions, ∃ r ∈ b.regions, ∀ x, cursor ≤ x → ∀ kind,
    r'.Has x kind → r.Has x kind

theorem SameFrom.refl (cursor : ℕ) (b : GVBudget) : SameFrom cursor b b where
  kept r hr := ⟨r, hr, fun _ _ => ⟨id, id⟩⟩
  old r hr := ⟨r, hr, fun _ _ _ => id⟩

theorem SameFrom.trans {cursor : ℕ} {b b' b'' : GVBudget} (h : SameFrom cursor b b')
    (h' : SameFrom cursor b' b'') : SameFrom cursor b b'' where
  kept r hr := by
    obtain ⟨r', hr', hkept⟩ := h.kept r hr
    obtain ⟨r'', hr'', hkept'⟩ := h'.kept r' hr'
    exact ⟨r'', hr'', fun x hx => ⟨(hkept' x hx).1 ∘ (hkept x hx).1,
      (hkept' x hx).2 ∘ (hkept x hx).2⟩⟩
  old r'' hr'' := by
    obtain ⟨r', hr', hold'⟩ := h'.old r'' hr''
    obtain ⟨r, hr, hold⟩ := h.old r' hr'
    exact ⟨r, hr, fun x hx kind => hold x hx kind ∘ hold' x hx kind⟩

theorem SameFrom.mono {cursor cursor' : ℕ} {b b' : GVBudget} (h : SameFrom cursor b b')
    (hle : cursor ≤ cursor') : SameFrom cursor' b b' where
  kept r hr := by
    obtain ⟨r', hr', hkept⟩ := h.kept r hr
    exact ⟨r', hr', fun x hx => hkept x (hle.trans hx)⟩
  old r' hr' := by
    obtain ⟨r, hr, hold⟩ := h.old r' hr'
    exact ⟨r, hr, fun x hx => hold x (hle.trans hx)⟩

/-- What `forget` leaves of a region has, behind what is gone, what the region had. -/
theorem Left.same {r : GVRegion} {a e : ℕ} {left : List GVRegion} (h : Left r a e left)
    (h1 : r.start ≤ a) (h2 : a < e) :
    (∃ r' ∈ left, ∀ x, e ≤ x →
        (r.Owns x → r'.Owns x) ∧ (r.Has x .missing → r'.Has x .missing)) ∧
      ∀ r' ∈ left, ∀ x, e ≤ x → ∀ kind, r'.Has x kind → r.Has x kind := by
  have hback : ∀ x, e ≤ x →
      let r' : GVRegion := { r with start := e, stop := max r.stop e }
      (r.Owns x → r'.Owns x) ∧ (r.Has x .missing → r'.Has x .missing) ∧
        ∀ kind, r'.Has x kind → r.Has x kind := by
    intro x hx r'
    refine ⟨fun h => ⟨hx, h.2⟩, id, fun kind h => ?_⟩
    cases kind <;> simp only [GVRegion.Has, r'] at h ⊢ <;> omega
  cases h with
  | head ha =>
      refine ⟨⟨_, List.mem_singleton_self _, fun x hx => ⟨(hback x hx).1, (hback x hx).2.1⟩⟩, ?_⟩
      intro r' hr' x hx kind
      obtain rfl := List.mem_singleton.1 hr'
      exact (hback x hx).2.2 kind
  | tail h1' h2' =>
      refine ⟨⟨_, List.mem_singleton_self _, fun x hx => ⟨?_, ?_⟩⟩, ?_⟩
      · rintro ⟨h4, h5⟩
        omega
      · rintro ⟨h4, h5⟩
        exact ⟨h2.le.trans hx, h5⟩
      · intro r' hr' x hx kind h
        obtain rfl := List.mem_singleton.1 hr'
        cases kind <;> simp only [GVRegion.Has] at h ⊢ <;> omega
  | hole h1' h2' =>
      refine ⟨⟨_, List.mem_cons_self, fun x hx => ⟨(hback x hx).1, (hback x hx).2.1⟩⟩, ?_⟩
      intro r' hr' x hx kind h
      rcases List.mem_cons.1 hr' with rfl | hr'
      · exact (hback x hx).2.2 kind h
      · -- what lies before the hole has nothing behind it
        obtain rfl := List.mem_singleton.1 hr'
        cases kind <;> simp only [GVRegion.Has] at h ⊢ <;> omega

theorem sameFrom_forget {b : GVBudget} {i a e : ℕ} {r : GVRegion} (hr : b.regions[i]? = some r)
    (h1 : r.start ≤ a) (h2 : a < e) : SameFrom e b (b.forget i a e) := by
  obtain ⟨rest, hperm, ⟨heq, -, -⟩ | ⟨left, regions, hleft, hregions, heq⟩⟩ := b.forget_cases hr
  · rw [heq]
    exact .refl e b
  · obtain ⟨⟨r', hr', hkept⟩, hold⟩ := hleft.same h1 h2
    rw [heq]
    constructor
    · intro t ht
      rcases List.mem_cons.1 (hperm.mem_iff.1 ht) with rfl | ht
      · exact ⟨r', hregions.mem_iff.2 (List.mem_append_left _ hr'), hkept⟩
      · exact ⟨t, hregions.mem_iff.2 (List.mem_append_right _ ht), fun _ _ => ⟨id, id⟩⟩
    · intro t ht
      rcases List.mem_append.1 (hregions.mem_iff.1 ht) with ht | ht
      · exact ⟨r, List.mem_of_getElem? hr, hold t ht⟩
      · exact ⟨t, hperm.mem_iff.2 (List.mem_cons_of_mem r ht), fun _ _ _ => id⟩

/-- A piece changes nothing behind it. -/
theorem sameFrom_after {b : GVBudget} {cursor stop : ℕ} {anchor : ℕ × ℕ}
    {p : Part × ℕ × Option ℕ} (h : PartSpec b cursor stop anchor p) (kernel : Kernel)
    (op : Operation) : SameFrom p.2.1 b (b.after kernel op cursor p) := by
  unfold after
  split
  · rename_i hdone
    cases h with
    | missing => exact absurd hdone.1 (by simp [acts])
    | outside => exact ⟨(SameFrom.refl _ b).kept, (SameFrom.refl _ b).old⟩
    | own hlt _ hr h1 => exact sameFrom_forget hr h1 hlt
  · exact .refl _ b

theorem Piece.Fits.of_same {b b' : GVBudget} {anchor : ℕ × ℕ} {p : Piece}
    (h : p.Fits b' anchor) (hsame : SameFrom p.start b b') : p.Fits b anchor where
  within hkind := by
    obtain ⟨r', hr', hin⟩ := h.within hkind
    obtain ⟨r, hr, hold⟩ := hsame.old r' hr'
    exact ⟨r, hr, fun x hx => hold x hx.1 _ (hin x hx)⟩
  outside hkind x hx r hr hown := by
    obtain ⟨r', hr', hkept⟩ := hsame.kept r hr
    exact h.outside hkind x hx r' hr' ((hkept x hx.1).1 hown)
  missing_iff x hx := by
    rw [h.missing_iff x hx]
    refine and_congr_left fun _ => ⟨?_, ?_⟩
    · rintro ⟨r', hr', hmissing⟩
      obtain ⟨r, hr, hold⟩ := hsame.old r' hr'
      exact ⟨r, hr, hold x hx.1 _ hmissing⟩
    · rintro ⟨r, hr, hmissing⟩
      obtain ⟨r', hr', hkept⟩ := hsame.kept r hr
      exact ⟨r', hr', (hkept x hx.1).2 hmissing⟩

theorem pieces_fit {kernel : Kernel} {op : Operation} {anchor : ℕ × ℕ} {stop fuel : ℕ}
    {b b' : GVBudget} {cursor : ℕ} (hanchor : anchor.1 ≤ cursor) (hsame : SameFrom cursor b b')
    {p : Piece} (h : p ∈ pieces kernel op anchor stop fuel b' cursor) :
    p.Fits p.budget anchor ∧ p.Fits b anchor := by
  induction fuel generalizing b' cursor with
  | zero => cases h
  | succ fuel ih =>
      rw [pieces] at h
      by_cases hlt : cursor < stop
      swap
      · rw [if_neg hlt] at h
        cases h
      have hp := b'.part_spec anchor hlt
      rw [if_pos hlt] at h
      rcases List.mem_cons.1 h with rfl | h
      · have hfits := hp.fits hanchor
        exact ⟨⟨hfits.within, hfits.outside, hfits.missing_iff⟩, hfits.of_same hsame⟩
      · exact ih (hanchor.trans hp.lt.le)
          ((hsame.mono hp.lt.le).trans (sameFrom_after hp kernel op)) h

theorem anchorAt_le (b : GVBudget) (address : ℕ) : (b.anchorAt address).1 ≤ address := by
  unfold anchorAt
  split
  · rename_i r hr
    have hin := List.find?_some hr
    simp only [decide_eq_true_eq] at hin
    exact hin.1
  · split
    · rename_i c hc
      have hin := List.find?_some hc
      simp only [decide_eq_true_eq] at hin
      exact hin.1
    · exact le_rfl

/-! ## Calls -/

section

variable {b : GVBudget} {kernel : Kernel} {op : Operation} {address size : ℕ}

theorem callPieces_tile (hle : address ≤ b.pageEnd address size) :
    Tiles address ((b.callPieces kernel op address size).map Piece.range)
      (b.pageEnd address size) :=
  pieces_tile hle le_rfl

theorem existsUnique_piece (hle : address ≤ b.pageEnd address size) {x : ℕ} (h1 : address ≤ x)
    (h2 : x < b.pageEnd address size) :
    ∃! p, p ∈ b.callPieces kernel op address size ∧ p.Contains x := by
  have htile : Tiles address ((b.callPieces kernel op address size).map Piece.range)
      (b.pageEnd address size) := callPieces_tile hle
  have hin : ∀ p : Piece, p.range.1 ≤ x ∧ x < p.range.1 + p.range.2 ↔ p.Contains x := by
    intro p
    simp only [Piece.range, Piece.Contains]
    omega
  obtain ⟨r, hr, hrange⟩ := htile.exists_mem h1 h2
  obtain ⟨p, hp, rfl⟩ := List.mem_map.1 hr
  refine ⟨p, ⟨hp, (hin p).1 hrange⟩, ?_⟩
  rintro q ⟨hq, hqx⟩
  by_contra hne
  have hqx' := (hin q).2 hqx
  have hsymm : Std.Symm fun p q : Piece => Library.Apart p.range q.range :=
    ⟨fun _ _ h => Or.symm h⟩
  rcases (List.pairwise_map.1 htile.pairwise_apart).forall hq hp hne with h | h <;> omega

/-- A call that is accepted does to the pieces what it says, and one that would open
memory which was not given does nothing. -/
theorem gvApply_pieces (hon : b.gvEnabled = true) (hsize : size ≠ 0)
    (hstop : b.pageEnd address size ≠ 0) (haligned : address % b.page = 0) :
    (op.opens = true ∧
        (∃ p ∈ b.callPieces kernel op address size, p.kind = .guard ∨ p.kind = .missing) →
      b.gvApply kernel op address size = ⟨b, .error ENOMEM, 0, []⟩) ∧
    (¬ (op.opens = true ∧
        ∃ p ∈ b.callPieces kernel op address size, p.kind = .guard ∨ p.kind = .missing) →
      (b.gvApply kernel op address size).calls =
        ((b.callPieces kernel op address size).filter fun p => acts op p.kind).map
          fun p => op.call p.start (p.stop - p.start)) := by
  have hopens : op.opens = true ∧
        b.reaches (b.anchorAt address) (b.pageEnd address size)
          (b.pageEnd address size - address) address = true ↔
      op.opens = true ∧
        ∃ p ∈ b.callPieces kernel op address size, p.kind = .guard ∨ p.kind = .missing := by
    refine and_congr_right fun h => ?_
    have hop : op ≠ .unmap := by
      rintro rfl
      cases h
    exact reaches_iff hop b _ _
  rw [← hopens, gvApply, if_pos hon, apply]
  dsimp only
  rw [if_neg hsize, if_neg (by tauto)]
  refine ⟨fun h => if_pos h, fun h => ?_⟩
  rw [if_neg h]
  exact applyLoop_pieces _ _ _ _

end

end GVBudget

/-- In every state a run reaches, a call that the budget accepts is cut into pieces
that make up the range up to the end of its last page. Each is in one part of one region or
outside, when it is found as well as before the call, and what the call started in does not
count as missing. The kernel is asked for the pieces that are not passed over, or, where
memory that was not given would be opened, for nothing. -/
theorem pieces_run {page : ℕ} (hpos : 0 < page) (hdvd : page ∣ addressSpace)
    (bytes threshold floor : ℕ) (steps : List BudgetStep) (kernel : Kernel)
    (op : GVBudget.Operation) (address size : BitVec 64) :
    let b := (gvInit page bytes threshold floor).run steps
    let stop := b.pageEnd address.toNat size.toNat
    let pieces := b.callPieces kernel op address.toNat size.toNat
    let anchor := b.anchorAt address.toNat
    b.gvEnabled = true → size ≠ 0#64 → stop ≠ 0 → address.toNat % page = 0 →
      (page ∣ stop ∧ address.toNat + size.toNat ≤ stop ∧
        stop < address.toNat + size.toNat + page) ∧
      (∀ p ∈ pieces, p.start < p.stop ∧ address.toNat ≤ p.start ∧ p.stop ≤ stop) ∧
      (∀ x, address.toNat ≤ x → x < stop → ∃! p, p ∈ pieces ∧ p.Contains x) ∧
      (∀ p ∈ pieces, p.Fits p.budget anchor ∧ p.Fits b anchor) ∧
      (op.opens = true ∧ (∃ p ∈ pieces, p.kind = .guard ∨ p.kind = .missing) →
        b.gvApply kernel op address.toNat size.toNat = ⟨b, .error ENOMEM, 0, []⟩) ∧
      (¬ (op.opens = true ∧ ∃ p ∈ pieces, p.kind = .guard ∨ p.kind = .missing) →
        (b.gvApply kernel op address.toNat size.toNat).calls =
          (pieces.filter fun p => GVBudget.acts op p.kind).map
            fun p => op.call p.start (p.stop - p.start)) ∧
      ((∀ s ∈ steps, s.kernel.WellFormed page) → ∀ x, ∀ r ∈ b.regions, ∀ t ∈ b.regions,
        r.start ≤ x → x < r.span → t.start ≤ x → x < t.span → r = t) := by
  intro b stop pieces anchor hon hsize hstop haligned
  have hpage : b.page = page :=
    congrArg (·.2.2.2) (run_settings (gvInit page bytes threshold floor) steps)
  have hsize' : size.toNat ≠ 0 := fun h => hsize (BitVec.eq_of_toNat_eq h)
  have hbounds := GVBudget.pageEnd_bounds_of_page (b := b) (by rwa [hpage])
    (by rw [hpage]; exact Nat.le_of_dvd (by decide) hdvd) (toNat_lt address) (toNat_lt size) hstop
  rw [hpage] at hbounds
  have hle : address.toNat ≤ stop := (Nat.le_add_right _ _).trans hbounds.1
  have htile : Tiles address.toNat (pieces.map GVBudget.Piece.range) stop :=
    GVBudget.callPieces_tile hle
  obtain ⟨hrefused, hcalls⟩ :=
    @GVBudget.gvApply_pieces b kernel op address.toNat size.toNat hon hsize' hstop (by rwa [hpage])
  refine ⟨⟨?_, hbounds⟩, ?_, ?_, ?_, hrefused, hcalls, ?_⟩
  · rw [← hpage]
    exact b.pageEnd_dvd _ _
  · intro p hp
    have hlt : p.start < p.stop := GVBudget.pieces_pos hp
    have hwithin := htile.mem_within _ (List.mem_map_of_mem (f := GVBudget.Piece.range) hp)
    simp only [GVBudget.Piece.range] at hwithin
    exact ⟨hlt, hwithin.1, by omega⟩
  · exact fun x h1 h2 => GVBudget.existsUnique_piece hle h1 h2
  · exact fun p hp => GVBudget.pieces_fit (b.anchorAt_le _) (.refl _ b) hp
  · intro hk x r hr t ht h1 h2 h3 h4
    have hb := ((GVBudget.settled_gvInit bytes threshold floor hpos hdvd).run hk).1
    by_contra hne
    rcases hb.apart.forall hr ht hne with h | h <;> omega

/-- Four pages of which two are granted cannot be made readable and writable at once. -/
theorem pieces_run_protect :
    let b := (gvInit 16384 32768 16384 16384).run
      [⟨.reserve 65536#64 3#32 0x1002#32 (-1), placingKernel 0x100000000⟩]
    b.gvProtect (placingKernel 0) 0x100000000 65536 3#32 = ⟨b, .error ENOMEM, 0, []⟩ :=
  (pieces_run (by decide) (by decide) 32768 16384 16384
    [⟨.reserve 65536#64 3#32 0x1002#32 (-1), placingKernel 0x100000000⟩] (placingKernel 0)
    (.protect 3#32) 0x100000000#64 65536#64 (by decide) (by decide) (by decide)
    (by decide)).2.2.2.2.1 (by decide)

end Tolkara
