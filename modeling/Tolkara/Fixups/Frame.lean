import Tolkara.Fixups.Asked
import Tolkara.Image.Faithful

/-!
# Fixups are what they report

Whatever the streams, the blob and the records in memory say, every pointer that is written lies
in a segment of the image: behind opcodes it is aligned in one that has a protection, and in a
chain it is on the page where the chain starts. Its value is what the slide makes of the pointer
before it, or what the resolver answers and the stream or the import adds.
-/

namespace Tolkara

open Library

namespace GuestFixups

variable {σ : Type} {host : GFHost σ} {image : LoadedImage} {slide : ℕ} {m : Flat}
  {base : List GFObservation} {s : Fixing σ}

/-! ## Opcodes -/

def OpcodeSlot (image : LoadedImage) (a : ℕ) : Prop :=
  ∃ s ∈ image.segments, s.prot ≠ 0#32 ∧ s.address ≤ a ∧ a + 8 ≤ s.address + s.size ∧
    (a - s.address) % 8 = 0

def Resolved (host : GFHost σ) (image : LoadedImage) (symbol : CString) (ordinal : ℤ)
    (weak lazy found : Bool) (value : ℕ) : Prop :=
  -3 ≤ ordinal ∧ ordinal ≤ (image.dylibs.length : ℤ) ∧
    ∃ context, (host.resolve context symbol ordinal weak lazy).1 = (found, value)

/-- A bind that a stream asks for with its registers: the symbol and the place are theirs, and
their addend is added to what the resolver answers. -/
def StreamBind (host : GFHost σ) (image : LoadedImage) (b : BindStream) (r : Binding)
    (symbol : CString) (o : GFObservation) : Prop :=
  target image r.segment r.offset = some o.address ∧ r.symbol = some symbol ∧
    ∃ value, Resolved host image symbol r.ordinal (r.flags % 2 = 1 || b.weak) b.lazy true value ∧
      o.value = (value + r.addend) % 2 ^ 64

/-- What opcodes make of the word `old` behind the pointers `before`: a stream asks for it that
was read behind some of these. -/
def OpcodeFixup (host : GFHost σ) (image : LoadedImage) (slide : ℕ) (m : Flat)
    (before : List GFObservation) (old : ℕ) (o : GFObservation) : Prop :=
  OpcodeSlot image o.address ∧ ∃ earlier, earlier <+: before ∧
    match o.symbol with
    | none => o.value = (old + slide) % 2 ^ 64 ∧ ∃ bytes c r count skip,
        ReadAt image m earlier image.dyldInfo.rebase bytes ∧
        RebaseAsked bytes c r (count + 1) skip ∧
        target image r.segment r.offset = some o.address
    | some symbol => ∃ b ∈ bindStreams image, ∃ bytes c r count skip,
        ReadAt image m earlier b.range bytes ∧ b.Asked image bytes c r (count + 1) skip ∧
        StreamBind host image b r symbol o

abbrev Found (P : List GFObservation → ℕ → GFObservation → Prop) (m : Flat)
    (before : List GFObservation) (o : GFObservation) : Prop :=
  P before ((after m before).word o.address) o

structure Placed (image : LoadedImage) : Prop where
  bounded : ∀ s ∈ image.segments, s.address + s.size ≤ uint64Max
  aligned : ∀ s ∈ image.segments, s.address % pageSize = 0 ∧ s.size % pageSize = 0

theorem target_slot (hplaced : Placed image) {segment offset a : ℕ}
    (h : target image segment offset = some a) : OpcodeSlot image a := by
  unfold target at h
  split at h
  · cases h
  · rename_i s hs
    have hmem := List.mem_of_getElem? hs
    have hbounded := hplaced.bounded s hmem
    split_ifs at h with hbad
    simp only [not_or, not_lt, not_not] at hbad
    obtain ⟨hprot, hle, hroom, haligned⟩ := hbad
    have hno : (s.address + offset) % 2 ^ 64 = s.address + offset := by
      refine Nat.mod_eq_of_lt ?_
      unfold uint64Max at hbounded
      omega
    rw [hno] at h
    cases h
    refine ⟨s, hmem, hprot, Nat.le_add_right _ _, by omega, ?_⟩
    rw [Nat.add_sub_cancel_left]
    exact haligned

theorem rebaseOnce_keeps (hplaced : Placed image) {bytes : List UInt8}
    (hread : ReadAt image m base image.dyldInfo.rebase bytes) {c : Cursor} {skip count : ℕ}
    {r : Rebasing} (hasked : RebaseAsked bytes c r (count + 1) skip)
    (h : Wrote (Found (OpcodeFixup host image slide m) m) base m s []) :
    (rebaseOnce host image slide c skip r).Meets s
      (fun r' t => Wrote (Found (OpcodeFixup host image slide m) m) base m t [] ∧
        RebaseAsked bytes c r' count skip)
      fun _ t => Stopped (Found (OpcodeFixup host image slide m) m) base m t := by
  unfold rebaseOnce
  refine Attempt.meets_bind.2 (Attempt.meets_check.2 ⟨fun _ => ?_, fun _ => h.stopped⟩)
  refine Attempt.meets_bind.2 (Attempt.meets_change.2 ?_)
  generalize hs' : { s with rebases := s.rebases + 1 } = s'
  have h : Wrote (Found (OpcodeFixup host image slide m) m) base m s' [] := hs' ▸ h.same rfl rfl
  refine Attempt.meets_bind.2 (Attempt.meets_observe.2 ?_)
  refine Attempt.meets_bind.2 (Attempt.meets_check.2 ⟨fun _ => ?_, fun _ => h.stopped⟩)
  refine Attempt.meets_bind.2 (Attempt.meets_lift.2 ⟨fun a ha => ?_, fun _ _ => h.stopped⟩)
  have htarget := obtained_ok.1 ha
  refine Attempt.meets_bind.2 ((readWord_keeps h a).imp (fun read t hword => ?_)
    fun _ _ => False.elim)
  obtain ⟨h, hword⟩ := hword
  refine Attempt.meets_bind.2 (Attempt.meets_lift.2 ⟨fun old hold => ?_, fun _ _ => h.stopped⟩)
  have hdue : Found (OpcodeFixup host image slide m) m t.observed
      ⟨a, (old + slide) % 2 ^ 64, none⟩ := by
    refine ⟨target_slot hplaced htarget, base, h.since, ?_⟩
    dsimp only
    refine ⟨?_, bytes, c, r, count, skip, hread, hasked, htarget⟩
    rw [hword old (obtained_ok.1 hold)]
  refine Attempt.meets_bind.2 ((writeWord_keeps h host hdue).imp (fun written s h => ?_)
    fun _ _ => False.elim)
  refine Attempt.meets_bind.2 (Attempt.meets_check.2 ⟨fun hyes => ?_, fun hno => ?_⟩)
  · have hwrote := h.1 hyes
    refine Attempt.meets_bind.2 (Attempt.meets_lift.2 ⟨fun offset hoffset => ?_, fun _ _ => ?_⟩)
    · refine Attempt.meets_bind.2 ((notify_keeps hwrote).imp (fun _ _ h => ⟨h, ?_⟩)
        fun _ _ => False.elim)
      refine .fixed hasked ?_
      rw [obtained_ok.1 hoffset]
      rfl
    · exact ⟨_, le_rfl, hwrote⟩
  · exact (h.2 (Bool.not_eq_true _ ▸ hno)).stopped

theorem rebaseRun_keeps (hplaced : Placed image) {bytes : List UInt8}
    (hread : ReadAt image m base image.dyldInfo.rebase bytes) {c : Cursor} {skip count : ℕ}
    {r : Rebasing} (hasked : RebaseAsked bytes c r count skip)
    (h : Wrote (Found (OpcodeFixup host image slide m) m) base m s []) :
    (rebaseRun host image slide c skip count r).Meets s
      (fun r' t => Wrote (Found (OpcodeFixup host image slide m) m) base m t [] ∧
        RebaseAsked bytes c r' 0 skip)
      fun _ t => Stopped (Found (OpcodeFixup host image slide m) m) base m t := by
  induction count generalizing r s with
  | zero => exact ⟨h, hasked⟩
  | succ count ih =>
      exact Attempt.meets_bind.2 ((rebaseOnce_keeps hplaced hread hasked h).imp
        (fun r _ h => ih h.2 h.1) fun _ _ => id)

theorem rebaseLoop_keeps (hplaced : Placed image) {bytes : List UInt8}
    (hread : ReadAt image m base image.dyldInfo.rebase bytes) (fuel : ℕ) {c : Cursor} {skip : ℕ}
    {r : Rebasing} (hasked : RebaseAsked bytes c r 0 skip)
    (h : Wrote (Found (OpcodeFixup host image slide m) m) base m s []) :
    Keeps (Found (OpcodeFixup host image slide m) m) base m (rebaseLoop host image slide fuel c r)
      s := by
  induction fuel generalizing c r skip s with
  | zero => exact h.stopped
  | succ fuel ih =>
      rw [rebaseLoop]
      cases hbyte : c.bytes[c.p]? with
      | none => exact h.stopped
      | some byte =>
          dsimp only
          cases hopcode : rebaseOpcode (byte.toNat / 16) (byte.toNat % 16)
              { c with p := c.p + 1 } r with
          | done => exact h
          | invalid => exact h.stopped
          | run c' r' count skip' =>
              dsimp only
              split
              · exact h.stopped
              · rename_i hrefused
                have hgood : c'.bad = false := Bool.eq_false_iff.2 fun h => hrefused (.inl h)
                exact Attempt.meets_bind.2 ((rebaseRun_keeps hplaced hread
                  (.read hasked hbyte hopcode hgood) h).imp (fun r _ h => ih h.2 h.1)
                  fun _ _ => id)

theorem bindOnce_keeps (hplaced : Placed image) {b : BindStream} (hb : b ∈ bindStreams image)
    {bytes : List UInt8} (hread : ReadAt image m base b.range bytes) {c : Cursor}
    {skip count : ℕ} {r : Binding} (hasked : b.Asked image bytes c r (count + 1) skip)
    (h : Wrote (Found (OpcodeFixup host image slide m) m) base m s []) :
    (bindOnce host image b.lazy b.weak c skip r).Meets s
      (fun r' t => r' = { r with offset := (r.offset + 8 + skip) % 2 ^ 64 } ∧
        Wrote (Found (OpcodeFixup host image slide m) m) base m t [])
      fun _ t => Stopped (Found (OpcodeFixup host image slide m) m) base m t := by
  unfold bindOnce
  refine Attempt.meets_bind.2 (Attempt.meets_check.2 ⟨fun _ => ?_, fun _ => h.stopped⟩)
  refine Attempt.meets_bind.2 (Attempt.meets_lift.2 ⟨fun symbol hsymbol => ?_,
    fun _ _ => h.stopped⟩)
  refine Attempt.meets_bind.2 (Attempt.meets_check.2 ⟨fun hordinal => ?_, fun _ => h.stopped⟩)
  refine Attempt.meets_bind.2 (Attempt.meets_change.2 ?_)
  generalize hs' : { s with binds := s.binds + 1 } = s'
  have h : Wrote (Found (OpcodeFixup host image slide m) m) base m s' [] := hs' ▸ h.same rfl rfl
  refine Attempt.meets_bind.2 (Attempt.meets_observe.2 ?_)
  refine Attempt.meets_bind.2 (Attempt.meets_check.2 ⟨fun _ => ?_, fun _ => h.stopped⟩)
  refine Attempt.meets_bind.2 (Attempt.meets_lift.2 ⟨fun a ha => ?_, fun _ _ => h.stopped⟩)
  have htarget := obtained_ok.1 ha
  refine Attempt.meets_bind.2 ((ask_keeps h host symbol _ _ b.lazy).imp
    (fun found t hfound => ?_) fun _ _ => False.elim)
  obtain ⟨h, -, hanswer⟩ := hfound
  refine Attempt.meets_bind.2 (Attempt.meets_check.2 ⟨fun hyes => ?_, fun _ => h.stopped⟩)
  have hpair : found = (true, found.2) := Prod.ext hyes rfl
  rw [hpair] at hanswer
  have hdue : Found (OpcodeFixup host image slide m) m t.observed
      ⟨a, (found.2 + r.addend) % 2 ^ 64, some symbol⟩ :=
    ⟨target_slot hplaced htarget, base, h.since, b, hb, bytes, c, r, count, skip, hread, hasked,
      htarget, obtained_ok.1 hsymbol, found.2, ⟨hordinal.2, hordinal.1, _, hanswer.symm⟩, rfl⟩
  exact report_keeps h host hdue _ _

theorem bindRun_keeps (hplaced : Placed image) {b : BindStream} (hb : b ∈ bindStreams image)
    {bytes : List UInt8} (hread : ReadAt image m base b.range bytes) {c : Cursor}
    {skip count : ℕ} {r : Binding} (hasked : b.Asked image bytes c r count skip)
    (h : Wrote (Found (OpcodeFixup host image slide m) m) base m s []) :
    (bindRun host image b.lazy b.weak c skip count r).Meets s
      (fun r' t => Wrote (Found (OpcodeFixup host image slide m) m) base m t [] ∧
        b.Asked image bytes c r' 0 skip)
      fun _ t => Stopped (Found (OpcodeFixup host image slide m) m) base m t := by
  induction count generalizing r s with
  | zero => exact ⟨h, hasked⟩
  | succ count ih =>
      refine Attempt.meets_bind.2 ((bindOnce_keeps hplaced hb hread hasked h).imp
        (fun r _ h => ih ?_ h.2) fun _ _ => id)
      rw [h.1]
      exact .fixed hasked rfl

theorem bindLoop_keeps (hplaced : Placed image) {b : BindStream} (hb : b ∈ bindStreams image)
    {bytes : List UInt8} (hread : ReadAt image m base b.range bytes) (fuel : ℕ) {c : Cursor}
    {skip : ℕ} {r : Binding} (hasked : b.Asked image bytes c r 0 skip)
    (h : Wrote (Found (OpcodeFixup host image slide m) m) base m s []) :
    Keeps (Found (OpcodeFixup host image slide m) m) base m
      (bindLoop host image b.lazy b.weak fuel c r) s := by
  have hend (r : Binding) (c : Cursor) : Keeps (Found (OpcodeFixup host image slide m) m) base m
      (if b.lazy && r.ended then return () else stop c : Fix σ Unit) s := by
    split
    · exact h
    · exact h.stopped
  induction fuel generalizing c r skip s with
  | zero => exact hend r c
  | succ fuel ih =>
      rw [bindLoop]
      cases hbyte : c.bytes[c.p]? with
      | none => exact hend r c
      | some byte =>
          dsimp only
          cases hopcode : bindOpcode image.dylibs.length b.lazy (byte.toNat / 16)
              (byte.toNat % 16) { c with p := c.p + 1 } { r with ended := false } with
          | done => exact h
          | invalid => exact h.stopped
          | run c' r' count skip' =>
              dsimp only
              split
              · exact h.stopped
              · rename_i hrefused
                have hgood : c'.bad = false := Bool.eq_false_iff.2 fun h => hrefused (.inl h)
                refine Attempt.meets_bind.2 ((bindRun_keeps hplaced hb hread
                  (.read hasked hbyte hopcode hgood) h).imp (fun r _ h => ih h.2 h.1 fun r c => ?_)
                  fun _ _ => id)
                split
                · exact h.1
                · exact h.1.stopped

/-! ## Chains -/

/-- What a record says, for the word `old`. DYLD_CHAINED_PTR_64_OFFSET counts from the header,
and a bind adds the addend of its import and its own. -/
def ListedChains.Record {blob : List UInt8} (x : ListedChains image blob) (host : GFHost σ)
    (slide old : ℕ) (o : GFObservation) : Prop :=
  match o.symbol with
  | none => old < 2 ^ 63 ∧ old / 2 ^ 44 % 2 ^ 7 = 0 ∧
      o.value = (old % 2 ^ 36 + old / 2 ^ 36 % 2 ^ 8 * 2 ^ 56 +
        (if x.format = 6 then image.headerAddress else 0) + slide) % 2 ^ 64
  | some symbol => 2 ^ 63 ≤ old ∧ old / 2 ^ 32 % 2 ^ 19 = 0 ∧
      ∃ named, x.imports[old % 2 ^ 24]? = some named ∧ named.name = symbol ∧
        ∃ found value, Resolved host image symbol named.ordinal named.weak false found value ∧
          (found = true ∨ named.weak = true) ∧
          o.value = (value + named.addend + old / 2 ^ 24 % 2 ^ 8) % 2 ^ 64

/-- What chains make of the word `old`: the blob, which is read before anything is written, lists
a page with it. -/
def ChainFixup (host : GFHost σ) (image : LoadedImage) (slide : ℕ) (m : Flat) (old : ℕ)
    (o : GFObservation) : Prop :=
  ∃ range blob, image.chained = some range ∧ ReadAt image m [] range blob ∧
    ∃ (x : ListedChains image blob) (page : ℕ), x.Slot page o.address ∧ x.Record host slide old o

theorem importLoop_ordinals {blob : List UInt8} {header : ChainedHeader} (left i : ℕ)
    {imports result : List ChainedImport}
    (himports : ∀ x ∈ imports, -3 ≤ x.ordinal ∧ x.ordinal ≤ (image.dylibs.length : ℤ))
    (h : importLoop image blob header left i imports = .ok result) :
    ∀ x ∈ result, -3 ≤ x.ordinal ∧ x.ordinal ≤ (image.dylibs.length : ℤ) := by
  induction left generalizing i imports with
  | zero =>
      cases h
      exact himports
  | succ left ih =>
      simp only [importLoop, readImport, bind_ok, need_ok] at h
      obtain ⟨x, ⟨fields, -, name, -, -, hordinal, hx⟩, h⟩ := h
      cases hx
      refine ih (i + 1) (fun y hy => ?_) h
      rcases List.mem_append.1 hy with hy | hy
      · exact himports y hy
      · rw [List.mem_singleton.1 hy]
        exact hordinal

theorem ListedChains.ordinals {blob : List UInt8} (x : ListedChains image blob) :
    ∀ named ∈ x.imports, -3 ≤ named.ordinal ∧ named.ordinal ≤ (image.dylibs.length : ℤ) :=
  importLoop_ordinals _ _ (List.forall_mem_nil _) x.imports_eq

section Chains

variable {range : ℕ × ℕ} {blob : List UInt8}

theorem chainedValue_keeps {P : List GFObservation → GFObservation → Prop}
    (x : ListedChains image blob) (address raw : ℕ) (h : Wrote P base m s []) :
    (chainedValue host (x.chains slide) address raw).Meets s
      (fun value t => Wrote P base m t [] ∧ t.observed = s.observed ∧
        x.Record host slide raw ⟨address, value.1, value.2⟩)
      fun _ t => Stopped P base m t := by
  unfold chainedValue
  split
  · rename_i hbind
    unfold chainedBind
    refine Attempt.meets_bind.2 (Attempt.meets_check.2 ⟨fun hreserved => ?_, fun _ => h.stopped⟩)
    refine Attempt.meets_bind.2 (Attempt.meets_lift.2 ⟨fun named hnamed => ?_,
      fun _ _ => h.stopped⟩)
    have himport := obtained_ok.1 hnamed
    have hordinal := x.ordinals named (List.mem_of_getElem? himport)
    refine Attempt.meets_bind.2 ((ask_keeps h host _ _ _ _).imp (fun answer t hasked => ?_)
      fun _ _ => False.elim)
    obtain ⟨h, hobserved, hanswer⟩ := hasked
    refine Attempt.meets_bind.2 (Attempt.meets_check.2 ⟨fun hweak => ?_, fun _ => h.stopped⟩)
    exact Attempt.meets_bind.2 (Attempt.meets_change.2 ⟨h.same rfl rfl, hobserved, hbind, hreserved,
      named, himport, rfl, answer.1, answer.2,
      ⟨hordinal.1, hordinal.2, _, hanswer.symm⟩, hweak, rfl⟩)
  · rename_i hrebase
    unfold chainedRebase
    refine Attempt.meets_bind.2 (Attempt.meets_check.2 ⟨fun hreserved => ?_, fun _ => h.stopped⟩)
    exact Attempt.meets_bind.2 (Attempt.meets_change.2 ⟨h.same rfl rfl, rfl,
      Nat.lt_of_not_le hrebase, hreserved, rfl⟩)

theorem chainedOnce_keeps (hchained : image.chained = some range)
    (hread : ReadAt image m [] range blob) (x : ListedChains image blob) {page pageEnd : ℕ}
    (address : ℕ)
    (hpage : ∀ a, x.pageStart page ≤ a → a ≤ (pageEnd + 2 ^ 64 - 8) % 2 ^ 64 → x.Slot page a)
    (h : Wrote (Found (fun _ => ChainFixup host image slide m) m) base m s []) :
    Keeps (Found (fun _ => ChainFixup host image slide m) m) base m
      (chainedOnce host (x.chains slide) (x.pageStart page) pageEnd address) s := by
  unfold Keeps chainedOnce
  refine Attempt.meets_bind.2 (Attempt.meets_check.2 ⟨fun hin => ?_, fun _ => h.stopped⟩)
  have hslot := hpage address hin.2 hin.1
  refine Attempt.meets_bind.2 ((readWord_keeps h address).imp (fun read t hword => ?_)
    fun _ _ => False.elim)
  obtain ⟨h, hword⟩ := hword
  refine Attempt.meets_bind.2 (Attempt.meets_lift.2 ⟨fun raw hraw => ?_, fun _ _ => h.stopped⟩)
  have hold := hword raw (obtained_ok.1 hraw)
  refine Attempt.meets_bind.2 ((chainedValue_keeps x address raw h).imp
    (fun value s hvalue => ?_) fun _ _ => id)
  obtain ⟨h, hobserved, hrecord⟩ := hvalue
  have hdue : Found (fun _ => ChainFixup host image slide m) m s.observed
      ⟨address, value.1, value.2⟩ := by
    refine ⟨range, blob, hchained, hread, x, page, hslot, ?_⟩
    dsimp only
    rw [hobserved, ← hold]
    exact hrecord
  exact (report_keeps h host hdue _ _).imp (fun _ _ h => h.2) fun _ _ => id

theorem pointerLoop_keeps (hchained : image.chained = some range)
    (hread : ReadAt image m [] range blob) (x : ListedChains image blob) {page pageEnd : ℕ}
    (hpage : ∀ a, x.pageStart page ≤ a → a ≤ (pageEnd + 2 ^ 64 - 8) % 2 ^ 64 → x.Slot page a)
    (steps address : ℕ)
    (h : Wrote (Found (fun _ => ChainFixup host image slide m) m) base m s []) :
    Keeps (Found (fun _ => ChainFixup host image slide m) m) base m
      (pointerLoop host (x.chains slide) (x.pageStart page) pageEnd steps address) s := by
  induction steps generalizing address s with
  | zero => exact h.stopped
  | succ steps ih =>
      refine Attempt.meets_bind.2 ((chainedOnce_keeps hchained hread x address hpage h).imp
        (fun next s h => ?_) fun _ _ => id)
      cases next with
      | none => exact h
      | some address => exact ih address h

theorem chain_keeps (hplaced : Placed image) (hchained : image.chained = some range)
    (hread : ReadAt image m [] range blob) (x : ListedChains image blob) {page : ℕ}
    (hlisted : page < x.pageCount) (offset : ℕ)
    (h : Wrote (Found (fun _ => ChainFixup host image slide m) m) base m s []) :
    Keeps (Found (fun _ => ChainFixup host image slide m) m) base m
      (chain host (x.chains slide) x.segmentOffset page offset) s := by
  unfold Keeps chain
  refine Attempt.meets_bind.2 (Attempt.meets_check.2 ⟨fun _ => ?_, fun _ => h.stopped⟩)
  refine Attempt.meets_bind.2 (Attempt.meets_check.2 ⟨fun hinside => ?_, fun _ => h.stopped⟩)
  change x.segment.address ≤ x.pageStart page ∧
    x.pageStart page < (x.segment.address + x.segment.size) % 2 ^ 64 at hinside
  refine pointerLoop_keeps hchained hread x (fun a hlow hhigh => ?_) _ _ h
  change a ≤ (min ((x.pageStart page + x.pageSize) % 2 ^ 64)
    ((x.segment.address + x.segment.size) % 2 ^ 64) + 2 ^ 64 - 8) % 2 ^ 64 at hhigh
  have hmem := List.mem_of_getElem? x.segment_eq
  have hbounded := hplaced.bounded x.segment hmem
  have haligned := hplaced.aligned x.segment hmem
  have hsize := x.size
  have hend : (x.segment.address + x.segment.size) % 2 ^ 64 =
      x.segment.address + x.segment.size :=
    Nat.mod_eq_of_lt (by unfold uint64Max at hbounded; omega)
  rw [hend] at hinside hhigh
  -- Neither the end of the page nor the end of the segment wraps: both are on page borders.
  have hroom : x.segment.address + x.segment.size + 16384 ≤ 2 ^ 64 := by
    unfold uint64Max pageSize at *
    omega
  have hpageEnd : (x.pageStart page + x.pageSize) % 2 ^ 64 = x.pageStart page + x.pageSize :=
    Nat.mod_eq_of_lt (by omega)
  rw [hpageEnd] at hhigh
  have hmin : 8 ≤ min (x.pageStart page + x.pageSize) (x.segment.address + x.segment.size) := by
    unfold pageSize at haligned
    omega
  have hlast : (min (x.pageStart page + x.pageSize) (x.segment.address + x.segment.size) +
      2 ^ 64 - 8) % 2 ^ 64 =
        min (x.pageStart page + x.pageSize) (x.segment.address + x.segment.size) - 8 := by
    omega
  rw [hlast] at hhigh
  exact ⟨hlisted, hinside.1, hlow, by omega, by omega⟩

theorem startList_keeps (hplaced : Placed image) (hchained : image.chained = some range)
    (hread : ReadAt image m [] range blob) (x : ListedChains image blob) {page : ℕ}
    (hlisted : page < x.pageCount) (i fuel place : ℕ)
    (h : Wrote (Found (fun _ => ChainFixup host image slide m) m) base m s []) :
    Keeps (Found (fun _ => ChainFixup host image slide m) m) base m
      (startList host (x.chains slide) blob i x.segmentOffset page fuel place) s := by
  induction fuel generalizing place s with
  | zero => exact h.stopped
  | succ fuel ih =>
      refine Attempt.meets_bind.2 (Attempt.meets_lift.2 ⟨fun offset _ => ?_, fun _ _ => h.stopped⟩)
      refine Attempt.meets_bind.2 ((chain_keeps hplaced hchained hread x hlisted offset h).imp
        (fun _ s h => ?_) fun _ _ => id)
      split
      · exact h
      · exact ih _ h

theorem pageLoop_keeps (hplaced : Placed image) (hchained : image.chained = some range)
    (hread : ReadAt image m [] range blob) (x : ListedChains image blob) (i place : ℕ)
    {left page : ℕ} (hlisted : page + left ≤ x.pageCount)
    (h : Wrote (Found (fun _ => ChainFixup host image slide m) m) base m s []) :
    Keeps (Found (fun _ => ChainFixup host image slide m) m) base m
      (pageLoop host (x.chains slide) blob i place x.segmentOffset left page) s := by
  induction left generalizing page s with
  | zero => exact h
  | succ left ih =>
      have hpage : page < x.pageCount := by omega
      refine Attempt.meets_bind.2 (Attempt.meets_lift.2 ⟨fun start _ => ?_, fun _ _ => h.stopped⟩)
      have hchains : Keeps (Found (fun _ => ChainFixup host image slide m) m) base m
          (pageChains host (x.chains slide) blob i place x.segmentOffset page start) s := by
        unfold pageChains
        split
        · exact h
        · split
          · exact startList_keeps hplaced hchained hread x hpage i _ _ h
          · exact chain_keeps hplaced hchained hread x hpage start h
      exact Attempt.meets_bind.2 (hchains.imp (fun _ _ h => ih (by omega) h) fun _ _ => id)

theorem chainedSegment_keeps (hplaced : Placed image) (hchained : image.chained = some range)
    (hread : ReadAt image m [] range blob) {header : ChainedHeader}
    (hheader : chainedHeader blob = .ok header) {imports : List ChainedImport}
    (himports : importLoop image blob header header.importsCount 0 [] = .ok imports) {i info : ℕ}
    (hinfo : blobNumber blob (header.startsOffset + 4 + i * 4) 4 = some info)
    (h : Wrote (Found (fun _ => ChainFixup host image slide m) m) base m s []) :
    Keeps (Found (fun _ => ChainFixup host image slide m) m) base m
      (chainedSegment host image slide blob header imports i info) s := by
  unfold Keeps chainedSegment
  refine Attempt.meets_bind.2 (Attempt.meets_lift.2 ⟨fun segment hsegment => ?_,
    fun _ _ => h.stopped⟩)
  refine Attempt.meets_bind.2 (Attempt.meets_lift.2 ⟨fun pageSize hpageSize => ?_,
    fun _ _ => h.stopped⟩)
  refine Attempt.meets_bind.2 (Attempt.meets_lift.2 ⟨fun format hformat => ?_,
    fun _ _ => h.stopped⟩)
  refine Attempt.meets_bind.2 (Attempt.meets_lift.2 ⟨fun offset hoffset => ?_,
    fun _ _ => h.stopped⟩)
  refine Attempt.meets_bind.2 (Attempt.meets_lift.2 ⟨fun count hcount => ?_,
    fun _ _ => h.stopped⟩)
  refine Attempt.meets_bind.2 (Attempt.meets_check.2 ⟨fun hplain => ?_, fun _ => h.stopped⟩)
  refine Attempt.meets_bind.2 (Attempt.meets_check.2 ⟨fun hsize => ?_, fun _ => h.stopped⟩)
  let x : ListedChains image blob :=
    { header := header
      imports := imports
      index := i
      info := info
      segment := segment
      pageSize := pageSize
      format := format
      segmentOffset := offset
      pageCount := count
      header_eq := hheader
      imports_eq := himports
      info_eq := hinfo
      segment_eq := obtained_ok.1 hsegment
      pageSize_eq := obtained_ok.1 hpageSize
      format_eq := obtained_ok.1 hformat
      offset_eq := obtained_ok.1 hoffset
      count_eq := obtained_ok.1 hcount
      plain := hplain
      size := hsize }
  exact pageLoop_keeps hplaced hchained hread x i _ (Nat.zero_add count).le h

theorem segmentLoop_keeps (hplaced : Placed image) (hchained : image.chained = some range)
    (hread : ReadAt image m [] range blob) {header : ChainedHeader}
    (hheader : chainedHeader blob = .ok header) {imports : List ChainedImport}
    (himports : importLoop image blob header header.importsCount 0 [] = .ok imports)
    (left i : ℕ) (h : Wrote (Found (fun _ => ChainFixup host image slide m) m) base m s []) :
    Keeps (Found (fun _ => ChainFixup host image slide m) m) base m
      (segmentLoop host image slide blob header imports left i) s := by
  induction left generalizing i s with
  | zero => exact h
  | succ left ih =>
      refine Attempt.meets_bind.2 (Attempt.meets_lift.2 ⟨fun info hinfo => ?_,
        fun _ _ => h.stopped⟩)
      have hsegment : Keeps (Found (fun _ => ChainFixup host image slide m) m) base m
          (startsOf host image slide blob header imports i info) s := by
        unfold startsOf
        split
        · exact h
        · exact chainedSegment_keeps hplaced hchained hread hheader himports
            (obtained_ok.1 hinfo) h
      exact Attempt.meets_bind.2 (hsegment.imp (fun _ _ h => ih _ h) fun _ _ => id)

theorem chained_keeps (hplaced : Placed image) (hchained : image.chained = some range)
    (hnew : s.observed = [])
    (h : Wrote (Found (fun _ => ChainFixup host image slide m) m) [] m s []) :
    Keeps (Found (fun _ => ChainFixup host image slide m) m) [] m (chained host image slide range)
      s := by
  unfold Keeps chained
  refine Attempt.meets_bind.2 ((stream_keeps h host image 0 range).imp
    (fun bytes s h => ?_) fun _ _ => False.elim)
  rw [hnew] at h
  obtain ⟨h, -, hbytes⟩ := h
  refine Attempt.meets_bind.2 (Attempt.meets_lift.2 ⟨fun blob hblob => ?_, fun _ _ => h.stopped⟩)
  refine Attempt.meets_bind.2 (Attempt.meets_lift.2 ⟨fun header hheader => ?_,
    fun _ _ => h.stopped⟩)
  refine Attempt.meets_bind.2 (Attempt.meets_lift.2 ⟨fun imports hread => ?_,
    fun _ _ => h.stopped⟩)
  simp only [readImports, bind_ok, need_ok, exists_const] at hread
  refine Attempt.meets_bind.2 (Attempt.meets_lift.2 ⟨fun count _ => ?_, fun _ _ => h.stopped⟩)
  exact segmentLoop_keeps hplaced hchained (hbytes blob (obtained_ok.1 hblob)) hheader hread.2.2.2
    count 0 h

end Chains

/-! ## Images -/

/-- The stream of opcodes that the call works on. -/
def StreamOf (image : LoadedImage) (i : ℕ) (range : ℕ × ℕ) : Prop :=
  i = 0 ∧ range = image.dyldInfo.rebase ∨ i ≠ 0 ∧ ⟨i = 1, i = 3, range⟩ ∈ bindStreams image

theorem opcodeStream_keeps (hplaced : Placed image) {i : ℕ} {range : ℕ × ℕ}
    (hstream : StreamOf image i range)
    (h : Wrote (Found (OpcodeFixup host image slide m) m) base m s []) :
    Keeps (Found (OpcodeFixup host image slide m) m) base m (opcodeStream host image slide i range)
      s := by
  unfold Keeps opcodeStream
  split
  · exact h
  · refine Attempt.meets_bind.2 ((stream_keeps h host image i range).imp
      (fun read t ht => ?_) fun _ _ => False.elim)
    obtain ⟨ht, -, hbytes⟩ := ht
    refine Attempt.meets_bind.2 (Attempt.meets_lift.2 ⟨fun bytes hread => ?_,
      fun _ _ => (ht.from h.since).stopped⟩)
    have hread := hbytes bytes (obtained_ok.1 hread)
    have hloop : Keeps (Found (OpcodeFixup host image slide m) m) s.observed m
        (if i = 0 then rebases host image slide bytes
          else binds host image (i = 1) (i = 3) bytes) t := by
      rcases hstream with ⟨rfl, rfl⟩ | ⟨hi, hb⟩
      · exact rebaseLoop_keeps hplaced hread _ .start ht
      · rw [if_neg hi]
        exact bindLoop_keeps hplaced hb hread _ .start ht
    refine Attempt.meets_rescue.2 ((hloop.from h.since).imp (fun _ _ => id) fun e s h => ?_)
    refine Attempt.meets_bind.2 (Attempt.meets_current.2 ?_)
    cases e <;> exact h

theorem opcodes_keeps (hplaced : Placed image)
    (h : Wrote (Found (OpcodeFixup host image slide m) m) base m s []) :
    Keeps (Found (OpcodeFixup host image slide m) m) base m (opcodes host image slide) s := by
  unfold Keeps opcodes
  refine Attempt.meets_bind.2 ((opcodeStream_keeps hplaced (.inl ⟨rfl, rfl⟩) h).imp
    (fun _ s h => ?_) fun _ _ => id)
  refine Attempt.meets_bind.2 ((opcodeStream_keeps hplaced (.inr ⟨by decide, ?_⟩) h).imp
    (fun _ s h => ?_) fun _ _ => id)
  · exact List.mem_cons_self
  refine Attempt.meets_bind.2 ((opcodeStream_keeps hplaced (.inr ⟨by decide, ?_⟩) h).imp
    (fun _ s h => ?_) fun _ _ => id)
  · exact List.mem_cons_of_mem _ List.mem_cons_self
  refine opcodeStream_keeps hplaced (.inr ⟨by decide, ?_⟩) h
  exact List.mem_cons_of_mem _ (List.mem_cons_of_mem _ List.mem_cons_self)

/-- What the fixups of an image make of a word, behind the pointers `before`. -/
def Fixup (host : GFHost σ) (image : LoadedImage) (slide : ℕ) (m : Flat)
    (before : List GFObservation) (old : ℕ) (o : GFObservation) : Prop :=
  if image.chained.isSome then ChainFixup host image slide m old o
  else OpcodeFixup host image slide m before old o

theorem apply_keeps (hplaced : Placed image) (hnew : s.observed = [])
    (h : Wrote (Found (Fixup host image slide m) m) [] m s []) :
    Keeps (Found (Fixup host image slide m) m) [] m (apply host image slide) s := by
  unfold apply
  cases hchained : image.chained with
  | some range =>
      have hfixup : Fixup host image slide m = fun _ => ChainFixup host image slide m := by
        funext before old o
        rw [Fixup, hchained]
        rfl
      rw [hfixup] at h ⊢
      exact Attempt.meets_bind.2 (Attempt.meets_check.2
        ⟨fun _ => chained_keeps hplaced hchained hnew h, fun _ => h.stopped⟩)
  | none =>
      have hfixup : Fixup host image slide m = OpcodeFixup host image slide m := by
        funext before old o
        rw [Fixup, hchained]
        rfl
      rw [hfixup] at h ⊢
      exact opcodes_keeps hplaced h

theorem placed_of_load {file : List UInt8} {kind : ImageKind}
    (h : load (readFile file) file.length kind = .ok image) :
    Placed image ∧ image.memory.Wf := by
  have haccepted := (load_faithful h).mapped.accepted
  exact ⟨⟨haccepted.bounded, haccepted.aligned⟩, haccepted.wf⟩

/-- The memory after the fixups of a loaded image is the one before them with the reported
pointers stored in order, and after a failure with at most one that was not reported. Every
pointer is in its slot and was due in the memory that it found. -/
theorem gfApplyObserved_writes {file : List UInt8} {kind : ImageKind}
    (h : load (readFile file) file.length kind = .ok image) (host : GFHost σ) (slide : ℕ)
    (context : σ) :
    ∃ extra, extra.length ≤ 1 ∧
      ((gfApplyObserved host image slide context).1 = .ok () → extra = []) ∧
      Wrote (Found (Fixup host image slide image.memory.flat) image.memory.flat) []
        image.memory.flat (gfApplyObserved host image slide context).2 extra := by
  obtain ⟨hplaced, hwf⟩ := placed_of_load h
  have hkeeps : Keeps (Found (Fixup host image slide image.memory.flat) image.memory.flat) []
      image.memory.flat (apply host image slide) (start image context) :=
    apply_keeps hplaced rfl (wrote_start hwf context)
  unfold gfApplyObserved
  cases hanswer : (apply host image slide (start image context)).1 with
  | ok u => exact ⟨[], Nat.zero_le _, fun _ => rfl, hkeeps.answered hanswer⟩
  | error e =>
      obtain ⟨extra, hlength, hwrote⟩ := hkeeps.failed hanswer
      exact ⟨extra, hlength, fun hok => (by cases hok), hwrote⟩

/-! ## Pointers that do not overlap -/

theorem Fixup.value_lt {before : List GFObservation} {old : ℕ} {o : GFObservation}
    (h : Fixup host image slide m before old o) : o.value < 2 ^ 64 := by
  have hpos : 0 < 2 ^ 64 := by decide
  unfold Fixup at h
  split at h
  · obtain ⟨_, _, -, -, x, _, -, hrecord⟩ := h
    unfold ListedChains.Record at hrecord
    split at hrecord
    · obtain ⟨-, -, hvalue⟩ := hrecord
      exact hvalue ▸ Nat.mod_lt _ hpos
    · obtain ⟨-, -, _, -, -, _, _, -, -, hvalue⟩ := hrecord
      exact hvalue ▸ Nat.mod_lt _ hpos
  · obtain ⟨-, _, -, h⟩ := h
    split at h
    · exact h.1 ▸ Nat.mod_lt _ hpos
    · obtain ⟨_, -, _, _, _, _, _, -, -, -, -, _, -, hvalue⟩ := h
      exact hvalue ▸ Nat.mod_lt _ hpos

/-- Each reported pointer is what its own bytes in the image asked for and is there in the end,
and no other byte has changed. -/
structure Settled (host : GFHost σ) (image : LoadedImage) (slide : ℕ) (s : Fixing σ) : Prop where
  due : ∀ before o rest, s.observed = before ++ o :: rest →
    Fixup host image slide image.memory.flat before (image.memory.flat.word o.address) o
  there : ∀ o ∈ s.observed, s.memory.flat.word o.address = o.value
  perm : s.memory.flat.perm = image.memory.flat.perm
  other : ∀ x, (∀ o ∈ s.observed, ¬ (o.address ≤ x ∧ x < o.address + 8)) →
    s.memory.flat.byte x = image.memory.flat.byte x

theorem Wrote.settled
    (h : Wrote (Found (Fixup host image slide image.memory.flat) image.memory.flat) base
      image.memory.flat s [])
    (hapart : (s.observed.map GFObservation.write).Pairwise Flat.Apart) :
    Settled host image slide s := by
  have hflat := h.memory_eq
  have hdue := h.due
  rw [List.append_nil] at hdue
  have hsplit {before rest : List GFObservation} {o : GFObservation}
      (hobserved : s.observed = before ++ o :: rest) :
      (∀ v ∈ before.map GFObservation.write, Flat.Apart v o.write) ∧
        ∀ v ∈ rest.map GFObservation.write, Flat.Apart v o.write := by
    rw [hobserved, List.map_append, List.map_cons, List.pairwise_append] at hapart
    obtain ⟨-, hlater, hearlier⟩ := hapart
    exact ⟨fun v hv => hearlier v hv _ List.mem_cons_self,
      fun v hv => Or.symm ((List.pairwise_cons.1 hlater).1 v hv)⟩
  refine ⟨fun before o rest hobserved => ?_, fun o ho => ?_, ?_, fun x hx => ?_⟩
  · have hword : (after image.memory.flat before).word o.address =
        image.memory.flat.word o.address :=
      Flat.word_storeAll_of_apart (w := o.write) _ (hsplit hobserved).1
    have hfound := hdue before o rest hobserved
    unfold Found at hfound
    rw [hword] at hfound
    exact hfound
  · obtain ⟨before, rest, hobserved⟩ := List.append_of_mem ho
    have hend : (image.memory.flat.storeAll (before.map GFObservation.write ++
          o.write :: rest.map GFObservation.write)).word o.address = o.value % 2 ^ 64 :=
      Flat.word_storeAll _ (hsplit hobserved).2
    rw [← List.map_cons, ← List.map_append, ← hobserved] at hend
    rw [hflat]
    exact hend.trans (Nat.mod_eq_of_lt (hdue before o rest hobserved).value_lt)
  · rw [hflat]
    exact Flat.perm_storeAll _ _
  · rw [hflat]
    refine Flat.byte_storeAll_of_outside _ fun w hw => ?_
    obtain ⟨o, ho, rfl⟩ := List.mem_map.1 hw
    exact hx o ho

/-- Where no two reported pointers overlap, each is made of what the image has at its place, and
of what the resolver answers. -/
theorem gfApplyObserved_apart {file : List UInt8} {kind : ImageKind}
    (h : load (readFile file) file.length kind = .ok image) (host : GFHost σ) (slide : ℕ)
    (context : σ) (hok : (gfApplyObserved host image slide context).1 = .ok ())
    (hapart : ((gfApplyObserved host image slide context).2.observed.map
      GFObservation.write).Pairwise Flat.Apart) :
    Settled host image slide (gfApplyObserved host image slide context).2 := by
  obtain ⟨extra, -, hnone, hwrote⟩ := gfApplyObserved_writes h host slide context
  rw [hnone hok] at hwrote
  exact hwrote.settled hapart

/-! ## Two images -/

/-- A small executable with two pointers behind its entry, of which opcodes rebase the second and
bind the first to a symbol with an addend of 3. -/
def opcodeFile : List UInt8 :=
  [0xcf, 0xfa, 0xed, 0xfe, 0x0c, 0, 0, 1, 0, 0, 0, 0, 2, 0, 0, 0,
    3, 0, 0, 0, 144, 0, 0, 0, 0, 0, 0, 0, 0, 0, 0, 0,
    0x19, 0, 0, 0, 72, 0, 0, 0] ++ ascii "__TEXT" ++ [0, 0, 0, 0, 0, 0, 0, 0, 0, 0,
    0, 0, 0, 0, 1, 0, 0, 0, 0, 0x40, 0, 0, 0, 0, 0, 0,
    0, 0, 0, 0, 0, 0, 0, 0, 218, 0, 0, 0, 0, 0, 0, 0,
    5, 0, 0, 0, 5, 0, 0, 0, 0, 0, 0, 0, 0, 0, 0, 0,
    0x28, 0, 0, 0x80, 24, 0, 0, 0, 176, 0, 0, 0, 0, 0, 0, 0, 0, 0, 0, 0, 0, 0, 0, 0,
    0x22, 0, 0, 0x80, 48, 0, 0, 0, 200, 0, 0, 0, 6, 0, 0, 0, 206, 0, 0, 0, 12, 0, 0, 0] ++
    List.replicate 24 0 ++
    [0xc0, 0x03, 0x5f, 0xd6, 0, 0, 0, 0, 0, 0, 0, 0, 0, 0, 0, 0, 0, 8, 0, 0, 1, 0, 0, 0] ++
    [0x11, 0x20, 0xc0, 1, 0x51, 0] ++
    [0x30, 0x40, 0x5f, 0x73, 0, 0x60, 3, 0x70, 0xb8, 1, 0x90, 0]

/-- The executable of `opcodeFile` with the same pointers as a chain of records. The target of
the second counts from the header, and the addend of the first is shared by the record and its
import. -/
def chainedFile : List UInt8 :=
  [0xcf, 0xfa, 0xed, 0xfe, 0x0c, 0, 0, 1, 0, 0, 0, 0, 2, 0, 0, 0,
    3, 0, 0, 0, 112, 0, 0, 0, 0, 0, 0, 0, 0, 0, 0, 0,
    0x19, 0, 0, 0, 72, 0, 0, 0] ++ ascii "__TEXT" ++ [0, 0, 0, 0, 0, 0, 0, 0, 0, 0,
    0, 0, 0, 0, 1, 0, 0, 0, 0, 0x40, 0, 0, 0, 0, 0, 0,
    0, 0, 0, 0, 0, 0, 0, 0, 15, 1, 0, 0, 0, 0, 0, 0,
    5, 0, 0, 0, 5, 0, 0, 0, 0, 0, 0, 0, 0, 0, 0, 0,
    0x28, 0, 0, 0x80, 24, 0, 0, 0, 176, 0, 0, 0, 0, 0, 0, 0, 0, 0, 0, 0, 0, 0, 0, 0,
    0x34, 0, 0, 0x80, 16, 0, 0, 0, 200, 0, 0, 0, 71, 0, 0, 0] ++ List.replicate 32 0 ++
    [0xc0, 0x03, 0x5f, 0xd6, 0, 0, 0, 0, 0, 0, 0, 2, 0, 0, 0x10, 0x80, 0, 8, 0, 0, 0, 0, 0, 0] ++
    [0, 0, 0, 0, 28, 0, 0, 0, 60, 0, 0, 0, 68, 0, 0, 0, 1, 0, 0, 0, 2, 0, 0, 0, 0, 0, 0, 0] ++
    [1, 0, 0, 0, 8, 0, 0, 0] ++
    [24, 0, 0, 0, 0, 0x40, 6, 0, 0, 0, 0, 0, 0, 0, 0, 0, 0, 0, 0, 0, 1, 0, 0xb8, 0] ++
    [0, 0, 0, 0, 1, 0, 0, 0] ++ [0x5f, 0x73, 0]

def opcodeImage : LoadedImage :=
  (load (readFile opcodeFile) opcodeFile.length .execute).toOption.getD LoadedImage.empty

def chainedImage : LoadedImage :=
  (load (readFile chainedFile) chainedFile.length .execute).toOption.getD LoadedImage.empty

/-- A resolver that gives another value every time, and a heap that never fails. -/
def countingHost : GFHost ℕ :=
  ⟨fun context _ _ _ _ => ((true, 0x5000 + context), context + 1), fun _ => true,
    fun _ _ => true⟩

theorem eq_ok_getD {ε α : Type} {x : Except ε α} {d : α} (h : x.isOk = true) :
    x = .ok (x.toOption.getD d) := by
  cases x with
  | error e => cases h
  | ok a => rfl

theorem eq_ok_of_isOk {ε : Type} {x : Except ε Unit} (h : x.isOk = true) : x = .ok () := by
  cases x with
  | error e => cases h
  | ok => rfl

/-- Both files are loaded and fixed up, the first by a rebase and then a bind, the second by a
bind and then a rebase. -/
theorem observed_opcodeFile :
    (load (readFile opcodeFile) opcodeFile.length .execute).isOk = true ∧
      (gfApplyObserved countingHost opcodeImage 0x200000 7).1.isOk = true ∧
      (gfApplyObserved countingHost opcodeImage 0x200000 7).2.observed =
        [⟨0x1000000c0, 0x100200800, none⟩, ⟨0x1000000b8, 0x500a, some (ascii "_s")⟩] := by
  decide +kernel

theorem observed_chainedFile :
    (load (readFile chainedFile) chainedFile.length .execute).isOk = true ∧
      (gfApplyObserved countingHost chainedImage 0x200000 7).1.isOk = true ∧
      (gfApplyObserved countingHost chainedImage 0x200000 7).2.observed =
        [⟨0x1000000b8, 0x500a, some (ascii "_s")⟩, ⟨0x1000000c0, 0x100200800, none⟩] := by
  decide +kernel

theorem load_opcodeFile :
    load (readFile opcodeFile) opcodeFile.length .execute = .ok opcodeImage := by
  unfold opcodeImage
  exact eq_ok_getD observed_opcodeFile.1

theorem load_chainedFile :
    load (readFile chainedFile) chainedFile.length .execute = .ok chainedImage := by
  unfold chainedImage
  exact eq_ok_getD observed_chainedFile.1

theorem gfApplyObserved_writes_both :
    (∃ extra, extra.length ≤ 1 ∧
      ((gfApplyObserved countingHost opcodeImage 0x200000 7).1 = .ok () → extra = []) ∧
      Wrote (Found (Fixup countingHost opcodeImage 0x200000 opcodeImage.memory.flat)
          opcodeImage.memory.flat) [] opcodeImage.memory.flat
        (gfApplyObserved countingHost opcodeImage 0x200000 7).2 extra) ∧
    ∃ extra, extra.length ≤ 1 ∧
      ((gfApplyObserved countingHost chainedImage 0x200000 7).1 = .ok () → extra = []) ∧
      Wrote (Found (Fixup countingHost chainedImage 0x200000 chainedImage.memory.flat)
          chainedImage.memory.flat) [] chainedImage.memory.flat
        (gfApplyObserved countingHost chainedImage 0x200000 7).2 extra :=
  ⟨gfApplyObserved_writes load_opcodeFile countingHost 0x200000 7,
    gfApplyObserved_writes load_chainedFile countingHost 0x200000 7⟩

theorem gfApplyObserved_apart_both :
    Settled countingHost opcodeImage 0x200000
        (gfApplyObserved countingHost opcodeImage 0x200000 7).2 ∧
      Settled countingHost chainedImage 0x200000
        (gfApplyObserved countingHost chainedImage 0x200000 7).2 := by
  obtain ⟨-, hopcodes, hobserved⟩ := observed_opcodeFile
  obtain ⟨-, hchains, hobserved'⟩ := observed_chainedFile
  refine ⟨gfApplyObserved_apart load_opcodeFile countingHost 0x200000 7 (eq_ok_of_isOk hopcodes) ?_,
    gfApplyObserved_apart load_chainedFile countingHost 0x200000 7 (eq_ok_of_isOk hchains) ?_⟩
  · rw [hobserved]
    exact List.pairwise_pair.2 (.inr (by decide))
  · rw [hobserved']
    exact List.pairwise_pair.2 (.inl (by decide))

end GuestFixups

end Tolkara
