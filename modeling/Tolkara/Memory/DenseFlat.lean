import Tolkara.Memory.DenseAccess
import Tolkara.Memory.Flat

/-!
# The dense memory is a flat memory

`flat` forgets the page array. With every heap allocation granted, each call of
the dense memory answers and does what the flat memory says.
-/

namespace Tolkara

namespace GuestMemory

/-- The permissions of a page, widened to the type of the interface. -/
def viewPerm (v : PageView) : Prot × Prot := (v.prot.setWidth 32, v.maxprot.setWidth 32)

def flat (m : GuestMemory) : Flat where
  perm k := (m.look k).map viewPerm
  byte := m.byteAt

/-- The shared calls on the dense memory: no JIT mappings, no thread, and a heap
that gives what is asked for. -/
def call (m : GuestMemory) : MemoryCall → MemoryReply × GuestMemory
  | .map a n prot maxprot replace =>
    let answer := gmMap (fun _ => true) m a n prot maxprot false replace
    ((answer.1, []), answer.2)
  | .unmap a n =>
    let answer := gmUnmap m a n
    ((answer.1, []), answer.2)
  | .protect a n prot =>
    let answer := gmProtect m a n prot
    ((answer.1, []), answer.2)
  | .read a buffer n =>
    let answer := gmRead m a buffer n
    ((answer.1, answer.2.2), answer.2.1)
  | .write a buffer n =>
    let answer := gmWrite (fun _ => true) m none a buffer n
    ((answer.1, []), answer.2)

/-! ## Permissions -/

theorem and_eq_self_of_and_not {w : ℕ} {x m : BitVec w} (h : x &&& ~~~m = 0#w) :
    x &&& m = x := by
  ext i hi
  have hbit : (x &&& ~~~m)[i] = false := by simp [h]
  simp only [BitVec.getElem_and, BitVec.getElem_not] at hbit ⊢
  revert hbit
  cases x[i] <;> simp

/-- Permissions fit into the byte they are stored in. -/
theorem setWidth_setWidth {p : Prot} (h : p &&& ~~~7#32 = 0#32) :
    (p.setWidth 8).setWidth 32 = p := by
  have hlt : p.toNat < 8 := by
    rw [← and_eq_self_of_and_not h, BitVec.toNat_and]
    exact lt_of_le_of_lt Nat.and_le_right (by decide)
  apply BitVec.eq_of_toNat_eq
  simp only [BitVec.toNat_setWidth]
  omega

theorem prot_of_protOk {prot maxprot : Prot} (h : ProtOk prot maxprot) :
    prot &&& ~~~7#32 = 0#32 := by
  rw [← and_eq_self_of_and_not h.2, BitVec.and_assoc, h.1, BitVec.and_zero]

/-! ## The views behind the flat memory -/

/-- Two dense memories with the same views are the same flat memory. -/
theorem flat_of_viewAt {m m' : GuestMemory} (h : ∀ b, m'.viewAt b = m.viewAt b) :
    m'.flat = m.flat := by
  have hbyte : m'.byteAt = m.byteAt := by
    funext x
    rw [byteAt, byteAt, h]
  have hlook : m'.look = m.look := by
    funext k
    rw [look, look, h]
  rw [flat, flat, hbyte, hlook]

theorem viewAt_eq_none {m : GuestMemory} {b : ℕ} :
    m.viewAt b = none ↔ pageAt m.pages b = none := Option.map_eq_none_iff

theorem perm_eq_none {m : GuestMemory} {k : ℕ} :
    m.flat.perm k = none ↔ pageAt m.pages (k * pageSize) = none := by
  change (m.look k).map viewPerm = none ↔ _
  rw [Option.map_eq_none_iff, look, viewAt_eq_none]

theorem inRange_mul {a n k : ℕ} : InRange a n (k * pageSize) ↔ Flat.InPages a n k := by
  simp [InRange, Flat.InPages]

theorem exists_inRange_iff {a n : ℕ} {P : ℕ → Prop} :
    (∃ b, InRange a n b ∧ P b) ↔ ∃ k, Flat.InPages a n k ∧ P (k * pageSize) := by
  constructor
  · rintro ⟨b, hb, hp⟩
    have hbk : b / pageSize * pageSize = b := Nat.div_mul_cancel (Nat.dvd_of_mod_eq_zero hb.2.2)
    exact ⟨b / pageSize, inRange_mul.1 (by rwa [hbk]), by rwa [hbk]⟩
  · rintro ⟨k, hk, hp⟩
    exact ⟨k * pageSize, inRange_mul.2 hk, hp⟩

/-- The page of an address is in a range of whole pages when the address is. -/
theorem inRange_pageBase {a n x : ℕ} (hr : PageRange a n) :
    InRange a n (pageBase x) ↔ a ≤ x ∧ x < a + n := by
  rw [pageBase_eq, inRange_mul, Flat.div_pageSize_of_inPages hr.2.1 hr.2.2.1]

/-- A change of mappings seen from the flat memory. -/
theorem flat_of_pageAt {m m' : GuestMemory} {a n : ℕ} (hr : PageRange a n)
    {f : ℕ → Option GMPage} {g : ℕ → Option (Prot × Prot)}
    (hpages : ∀ b, pageAt m'.pages b = if InRange a n b then f b else pageAt m.pages b)
    (hperm : ∀ b, InRange a n b → (f b).map (fun p => viewPerm (view p)) = g b)
    (hbyte : ∀ b, InRange a n b → ∀ p ∈ f b, (view p).bytes = zeroPage) :
    m'.flat = {
      perm := fun k => if Flat.InPages a n k then g (k * pageSize) else m.flat.perm k
      byte := fun x => if a ≤ x ∧ x < a + n then 0 else m.flat.byte x } := by
  have hview : ∀ b, m'.viewAt b = if InRange a n b then (f b).map view else m.viewAt b := by
    intro b
    rw [viewAt, viewAt, hpages]
    split <;> rfl
  rw [flat, Flat.mk.injEq]
  constructor
  · funext k
    rw [look, hview]
    simp only [inRange_mul]
    split
    · rename_i hk
      rw [← hperm _ (inRange_mul.2 hk), Option.map_map]
      rfl
    · rfl
  · funext x
    rw [byteAt, hview]
    simp only [inRange_pageBase hr]
    split
    · rename_i hx
      cases hf : f (pageBase x) with
      | none => rfl
      | some p =>
          have := hbyte _ ((inRange_pageBase hr).2 hx) p hf
          simp [this, zeroPage]
    · rfl

/-! ## The calls -/

theorem map_flat {m : GuestMemory} (hm : m.Wf) (a n : ℕ) (prot maxprot : Prot) (replace : Bool) :
    let answer := gmMap (fun _ => true) m a n prot maxprot false replace
    answer.1 = (m.flat.map a n prot maxprot replace).1 ∧ answer.2.Wf ∧
      answer.2.flat = (m.flat.map a n prot maxprot replace).2 := by
  intro answer
  have hover : (∃ k, Flat.InPages a n k ∧ m.flat.perm k ≠ none) ↔
      ∃ b, InRange a n b ∧ pageAt m.pages b ≠ none := by
    simp only [ne_eq, perm_eq_none]
    rw [exists_inRange_iff]
  unfold Flat.map
  rcases gmMap_spec hm a n prot maxprot false replace with ⟨hno, heq⟩ |
    ⟨hr, hp, hrep, hex, heq⟩ | ⟨hr, hp, hfree, m', heq, hwf, hpages⟩
  · rw [if_pos hno]
    exact ⟨by rw [show answer = _ from heq], by rw [show answer = _ from heq]; exact hm,
      by rw [show answer = _ from heq]⟩
  · rw [if_neg (not_not.2 ⟨hr, hp⟩), if_pos ⟨hrep, hover.2 hex⟩, show answer = _ from heq]
    exact ⟨rfl, hm, rfl⟩
  · have hno : ¬ (replace = false ∧ ∃ k, Flat.InPages a n k ∧ m.flat.perm k ≠ none) := by
      rintro ⟨hrep, hex⟩
      obtain ⟨b, hb, hne⟩ := hover.1 hex
      exact hne (hfree hrep b hb)
    rw [if_neg (not_not.2 ⟨hr, hp⟩), if_neg hno, show answer = _ from heq]
    refine ⟨rfl, hwf, flat_of_pageAt (g := fun _ => some (prot, maxprot)) hr hpages ?_ ?_⟩
    · intro b _
      simp only [Option.map_some, viewPerm, view]
      rw [setWidth_setWidth (prot_of_protOk hp), setWidth_setWidth hp.1]
    · rintro b _ p hp'
      cases hp'
      rfl

theorem unmap_flat {m : GuestMemory} (hm : m.Wf) (a n : ℕ) :
    (gmUnmap m a n).1 = (m.flat.unmap a n).1 ∧ (gmUnmap m a n).2.Wf ∧
      (gmUnmap m a n).2.flat = (m.flat.unmap a n).2 := by
  unfold Flat.unmap
  by_cases hr : PageRange a n
  · obtain ⟨m', heq, hwf, hpages⟩ := gmUnmap_spec hm a n hr
    rw [if_neg (not_not.2 hr), heq]
    exact ⟨rfl, hwf, flat_of_pageAt (f := fun _ => none) (g := fun _ => none) hr hpages
      (fun _ _ => rfl) (by simp)⟩
  · rw [if_pos hr, gmUnmap, if_pos hr]
    exact ⟨rfl, hm, rfl⟩

theorem protect_flat {m : GuestMemory} (hm : m.Wf) (a n : ℕ) (prot : Prot) :
    (gmProtect m a n prot).1 = (m.flat.protect a n prot).1 ∧ (gmProtect m a n prot).2.Wf ∧
      (gmProtect m a n prot).2.flat = (m.flat.protect a n prot).2 := by
  unfold Flat.protect
  by_cases hcond : PageRange a n ∧ prot &&& ~~~7#32 = 0#32
  swap
  · rw [if_pos hcond, gmProtect, if_pos (by tauto)]
    exact ⟨rfl, hm, rfl⟩
  rw [if_neg (not_not.2 hcond)]
  obtain ⟨hr, hp⟩ := hcond
  have hgap : (∃ k, Flat.InPages a n k ∧ m.flat.perm k = none) ↔
      ∃ b, InRange a n b ∧ pageAt m.pages b = none := by
    simp only [perm_eq_none]
    rw [exists_inRange_iff]
  have hdeny : (∃ k t, Flat.InPages a n k ∧ m.flat.perm k = some t ∧
      prot &&& ~~~t.2 ≠ 0#32) ↔
      ∃ b p, InRange a n b ∧ pageAt m.pages b = some p ∧
        prot &&& ~~~(p.maxprot.setWidth 32) ≠ 0#32 := by
    constructor
    · rintro ⟨k, t, hk, ht, hbad⟩
      obtain ⟨v, hv, rfl⟩ := Option.map_eq_some_iff.1 ht
      obtain ⟨p, hp, rfl⟩ := Option.map_eq_some_iff.1 hv
      exact ⟨_, p, inRange_mul.2 hk, hp, hbad⟩
    · rintro ⟨b, p, hb, hpage, hbad⟩
      obtain ⟨k, hk, hpage⟩ := (exists_inRange_iff (P := fun b => pageAt m.pages b = some p)).1
        ⟨b, hb, hpage⟩
      refine ⟨k, viewPerm (view p), hk, ?_, hbad⟩
      change (m.look k).map viewPerm = _
      rw [look, viewAt, hpage]
      rfl
  rcases gmProtect_spec hm a n prot hr hp with ⟨hex, heq⟩ | ⟨hall, hex, heq⟩ |
    ⟨hall, hok, m', heq, hwf, hpages⟩
  · rw [if_pos (hgap.2 hex), heq]
    exact ⟨rfl, hm, rfl⟩
  · rw [if_neg fun h => by
      obtain ⟨b, hb, hnone⟩ := hgap.1 h
      exact hall b hb hnone, if_pos (hdeny.2 hex), heq]
    exact ⟨rfl, hm, rfl⟩
  · rw [if_neg fun h => by
      obtain ⟨b, hb, hnone⟩ := hgap.1 h
      exact hall b hb hnone, if_neg fun h => by
      obtain ⟨b, p, hb, hpage, hbad⟩ := hdeny.1 h
      exact hbad (hok b p hb hpage), heq]
    refine ⟨rfl, hwf, ?_⟩
    have hview : ∀ b, m'.viewAt b = if InRange a n b then
        (m.viewAt b).map fun v => { v with prot := prot.setWidth 8 } else m.viewAt b := by
      intro b
      rw [viewAt, viewAt, hpages]
      split
      · rw [Option.map_map, Option.map_map]
        rfl
      · rfl
    change Flat.mk (fun k => (m'.look k).map viewPerm) m'.byteAt = _
    rw [Flat.mk.injEq]
    constructor
    · funext k
      rw [look, hview]
      simp only [inRange_mul]
      change _ = if Flat.InPages a n k then ((m.look k).map viewPerm).map _
        else (m.look k).map viewPerm
      split
      · rw [Option.map_map, Option.map_map, look]
        congr 1
        funext v
        simp only [Function.comp_apply, viewPerm]
        rw [setWidth_setWidth hp]
      · rfl
    · funext x
      change m'.byteAt x = m.byteAt x
      rw [byteAt, byteAt, hview]
      split
      · rw [Option.map_map]
        rfl
      · rfl

/-- The page-by-page answer without a thread. -/
theorem answer_flat (m : GuestMemory) {a n : ℕ} (hle : a + n ≤ uint64Max) (permission : Prot) :
    m.answer none a n permission = m.flat.access a n permission := by
  unfold answer Flat.access
  rw [if_neg (by omega)]
  apply checkPages_congr
  intro i _
  change _ = ((m.look _).map viewPerm).map _
  rw [Option.map_map]
  congr 1
  funext v
  simp [deniedView, denied, viewPerm, Flat.lacks]

theorem read_flat {m : GuestMemory} (hm : m.Wf) {a n : ℕ} (hle : a + n ≤ uint64Max)
    {buffer : Option Buffer} (hb : n ≠ 0 → buffer ≠ none) :
    ((gmRead m a buffer n).1, (gmRead m a buffer n).2.2) = m.flat.read a n ∧
      (gmRead m a buffer n).2.1.Wf ∧ (gmRead m a buffer n).2.1.flat = m.flat := by
  have hwf : ∀ f, Wf { m with faultAddress := f } := fun f =>
    ⟨hm.sorted, hm.aligned, hm.bounded⟩
  have hflat : ∀ f, flat { m with faultAddress := f } = m.flat := fun f =>
    flat_of_viewAt fun _ => rfl
  unfold gmRead Flat.read
  rw [← answer_flat m hle]
  cases buffer with
  | some buffer =>
      obtain ⟨f, heq⟩ := copy_read hm (fun _ => true) none a buffer n GM.READ
      rw [heq]
      exact ⟨rfl, hwf f, hflat f⟩
  | none =>
      have h0 : n = 0 := by
        by_contra h
        exact hb h rfl
      subst h0
      obtain ⟨f, heq⟩ := accessRange_eq hm none a 0 GM.READ
      rw [copy, if_neg (by simp), copyRange, heq]
      simp only [or_true, if_true]
      refine ⟨?_, hwf f, hflat f⟩
      split <;> rfl

theorem Written.flat {m m' : GuestMemory} {a n : ℕ} {buffer : Buffer}
    (h : Written m m' a n buffer) {t : Option GMThread} {permission : Prot}
    (hok : m.answer t a n permission = .ok) :
    m'.flat = { m.flat with
      byte := fun x => if a ≤ x ∧ x < a + n then buffer (x - a) else m.flat.byte x } := by
  change Flat.mk (fun k => (m'.look k).map viewPerm) m'.byteAt = _
  rw [Flat.mk.injEq]
  constructor
  · funext k
    rw [look, h.views, Option.map_map]
    rfl
  · funext x
    refine h.byteAt fun h1 h2 => ?_
    obtain ⟨v, hv, -⟩ := exists_view_of_answer hok h1 h2
    rw [hv]
    exact Option.some_ne_none v

theorem write_flat {m : GuestMemory} (hm : m.Wf) {a n : ℕ} (hle : a + n ≤ uint64Max)
    {buffer : Option Buffer} (hb : n ≠ 0 → buffer ≠ none) :
    let answer := gmWrite (fun _ => true) m none a buffer n
    answer.1 = (m.flat.write a buffer n).1 ∧ answer.2.Wf ∧
      answer.2.flat = (m.flat.write a buffer n).2 := by
  intro answer
  have hanswer : answer = gmWrite (fun _ => true) m none a buffer n := rfl
  unfold gmWrite at hanswer
  unfold Flat.write
  rw [← answer_flat m hle]
  obtain ⟨r, m', heq, hwf, hcases⟩ := copy_write hm (fun _ => true) none a buffer n GM.WRITE
  rw [heq] at hanswer
  rw [hanswer]
  rcases hcases with ⟨halike, hno, rfl⟩ | ⟨-, h0, -, ⟨hnone, -⟩ | ⟨-, k, hk⟩⟩ |
    ⟨b, rfl, h0, hok, rfl, hw⟩
  · refine ⟨rfl, hwf, ?_⟩
    dsimp only
    rw [flat_of_viewAt halike.views]
    rcases hno with hno | rfl
    · rw [if_neg hno]
    · have hzero := m.flat.write_zero a buffer
      rw [Flat.write, ← answer_flat m hle] at hzero
      exact hzero.symm
  · exact absurd hnone (hb h0)
  · cases hk
  · refine ⟨hok.symm, hwf, ?_⟩
    rw [if_pos hok]
    exact hw.flat hok

theorem call_flat {m : GuestMemory} (hm : m.Wf) {base size : ℕ} (hle : base + size ≤ uint64Max)
    {c : MemoryCall} (hin : c.Inside base size) (hb : c.Buffered) :
    (m.call c).1 = (m.flat.step c).1 ∧ (m.call c).2.Wf ∧
      (m.call c).2.flat = (m.flat.step c).2 := by
  cases c with
  | map a n prot maxprot replace =>
      obtain ⟨h1, h2, h3⟩ := map_flat hm a n prot maxprot replace
      exact ⟨congrArg (·, []) h1, h2, h3⟩
  | unmap a n =>
      obtain ⟨h1, h2, h3⟩ := unmap_flat hm a n
      exact ⟨congrArg (·, []) h1, h2, h3⟩
  | protect a n prot =>
      obtain ⟨h1, h2, h3⟩ := protect_flat hm a n prot
      exact ⟨congrArg (·, []) h1, h2, h3⟩
  | read a buffer n => exact read_flat hm (le_trans hin.2 hle) hb
  | write a buffer n =>
      obtain ⟨h1, h2, h3⟩ := write_flat hm (le_trans hin.2 hle) hb
      exact ⟨congrArg (·, []) h1, h2, h3⟩

end GuestMemory

end Tolkara
