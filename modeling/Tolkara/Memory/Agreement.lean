import Tolkara.Memory.DenseFlat
import Tolkara.Memory.SparseCalls

/-!
# Sparse and dense memories agree

`Space.flat` forgets the regions, the page table and the backing arena. Inside
its arena, and as long as it does not run out of regions or backing pages, each
call of the sparse memory answers and does what the flat memory says. The dense
memory does so too, hence the two agree call by call.
-/

namespace Tolkara

namespace Space

open Library TaggedInterval

def flat (s : Space) : Flat where
  perm := s.permAt
  byte x := if s.permAt (x / pageSize) = none then 0 else s.byteAt x

def call (s : Space) : MemoryCall → MemoryReply × Space
  | .map a n prot maxprot replace =>
    let answer := s.gmSparseMap a n prot maxprot replace
    ((answer.1, []), answer.2)
  | .unmap a n =>
    let answer := s.gmSparseUnmap a n
    ((answer.1, []), answer.2)
  | .protect a n prot =>
    let answer := s.gmSparseProtect a n prot
    ((answer.1, []), answer.2)
  | .read a buffer n => (s.gmSparseRead a buffer n, s)
  | .write a buffer n =>
    let answer := s.gmSparseWrite a buffer n
    ((answer.1, []), answer.2)

/-! ## Mappings -/

theorem flat_byte_of_cover {s : Space} (h : s.Inv) {x : ℕ} (hx : cover s.regions x ≠ none) :
    s.flat.byte x = s.byteAt x := by
  change (if s.permAt (x / pageSize) = none then 0 else s.byteAt x) = _
  rw [permAt_div h, if_neg hx]

theorem flat_byte_of_none {s : Space} (h : s.Inv) {x : ℕ} (hx : cover s.regions x = none) :
    s.flat.byte x = 0 := by
  change (if s.permAt (x / pageSize) = none then 0 else s.byteAt x) = _
  rw [permAt_div h, if_pos hx]

/-- Over whole pages, addresses and page numbers say the same. -/
theorem exists_cover_iff {s : Space} (h : s.Inv) {a n : ℕ} (hr : PageRange a n)
    {P : Option (Prot × Prot) → Prop} :
    (∃ x, a ≤ x ∧ x < a + n ∧ P (cover s.regions x)) ↔
      ∃ k, Flat.InPages a n k ∧ P (s.flat.perm k) := by
  constructor
  · rintro ⟨x, h1, h2, hx⟩
    refine ⟨x / pageSize, (Flat.div_pageSize_of_inPages hr.2.1 hr.2.2.1).2 ⟨h1, h2⟩, ?_⟩
    change P (s.permAt _)
    rwa [permAt_div h]
  · rintro ⟨k, hk, hp⟩
    exact ⟨k * pageSize, hk.1, hk.2, hp⟩

theorem Changed.perm {s s' : Space} {op : Operation} {a n : ℕ} {prot maxprot : Prot}
    (hc : Changed s s' op a n prot maxprot) (k : ℕ) :
    s'.flat.perm k = changed op a (a + n) prot maxprot (k * pageSize) (s.flat.perm k) :=
  hc.regions (k * pageSize)

/-- Outside the range of a change, bytes stay; a map or an unmap clears the ones
inside. -/
theorem Changed.byte {s s' : Space} (h : s.Inv) {op : Operation} {a n : ℕ} {prot maxprot : Prot}
    (hr : PageRange a n) (hc : Changed s s' op a n prot maxprot) (x : ℕ) :
    s'.flat.byte x =
      if op ≠ .protect ∧ a ≤ x ∧ x < a + n then 0 else s.flat.byte x := by
  have hcov := hc.regions x
  have hpage : (a ≤ pageBase x ∧ pageBase x < a + n) ↔ (a ≤ x ∧ x < a + n) := by
    have h1 := hr.2.1
    have h2 := hr.2.2.1
    unfold pageBase pageSize at *
    omega
  by_cases hin : op ≠ .protect ∧ a ≤ x ∧ x < a + n
  · rw [if_pos hin]
    cases hx : cover s'.regions x with
    | none => exact flat_byte_of_none hc.inv hx
    | some t =>
        have hne : cover s'.regions x ≠ none := by simp [hx]
        have hnone := hc.pages _ (pageKey_of_cover hc.inv hne)
        rw [if_pos ⟨hin.1, hpage.2 hin.2⟩] at hnone
        rw [flat_byte_of_cover hc.inv hne, byteAt, bytesAt, hnone]
        rfl
  · rw [if_neg hin]
    cases hx : cover s.regions x with
    | none =>
        rw [flat_byte_of_none h hx, flat_byte_of_none hc.inv]
        rw [hcov, hx]
        by_cases hr' : a ≤ x ∧ x < a + n
        · have hop : op = .protect := by tauto
          subst hop
          simp [changed]
        · exact changed_of_not hr' none
    | some t =>
        have hne : cover s.regions x ≠ none := by simp [hx]
        have hne' : cover s'.regions x ≠ none := by
          rw [hcov]
          exact cover_changed_ne_none hne hin
        have hsame := hc.pages _ (pageKey_of_cover h hne)
        rw [if_neg (by tauto)] at hsame
        rw [flat_byte_of_cover h hne, flat_byte_of_cover hc.inv hne', byteAt, byteAt, bytesAt,
          bytesAt, hsame]

theorem map_flat {s : Space} (h : s.Inv) {a n : ℕ} (hin : s.Contains a n) (prot maxprot : Prot)
    (replace : Bool) (hno : (s.gmSparseMap a n prot maxprot replace).1 ≠ .nomem) :
    (s.gmSparseMap a n prot maxprot replace).1 = (s.flat.map a n prot maxprot replace).1 ∧
      (s.gmSparseMap a n prot maxprot replace).2.flat =
        (s.flat.map a n prot maxprot replace).2 := by
  unfold gmSparseMap at *
  unfold Flat.map
  rcases change_spec h a n prot maxprot replace .map with ⟨hadm, heq⟩ |
    ⟨hadm, result, hobs, heq⟩ | ⟨-, -, -, heq⟩ | ⟨hadm, hclear, -, s', heq, hc⟩
  · have hbad : ¬ (PageRange a n ∧ ProtOk prot maxprot) := by
      unfold Admissible at hadm
      tauto
    rw [if_pos hbad, heq]
    exact ⟨rfl, rfl⟩
  · obtain ⟨hrep, rfl, hex⟩ := hobs
    rw [if_neg (not_not.2 ⟨hadm.1, hadm.2.2⟩),
      if_pos ⟨hrep, (exists_cover_iff (P := fun o => o ≠ none) h hadm.1).1 hex⟩, heq]
    exact ⟨rfl, rfl⟩
  · rw [heq] at hno
    exact absurd rfl hno
  · rw [if_neg (not_not.2 ⟨hadm.1, hadm.2.2⟩), if_neg, heq]
    · refine ⟨rfl, ?_⟩
      change Flat.mk s'.flat.perm s'.flat.byte = _
      rw [Flat.mk.injEq]
      constructor
      · funext k
        exact hc.perm k
      · funext x
        rw [hc.byte h hadm.1]
        simp
    · rintro ⟨hrep, hex⟩
      obtain ⟨x, h1, h2, hx⟩ := (exists_cover_iff (P := fun o => o ≠ none) h hadm.1).2 hex
      exact hx (hclear hrep x h1 h2)

theorem unmap_flat {s : Space} (h : s.Inv) {a n : ℕ} (hin : s.Contains a n)
    (hno : (s.gmSparseUnmap a n).1 ≠ .nomem) :
    (s.gmSparseUnmap a n).1 = (s.flat.unmap a n).1 ∧
      (s.gmSparseUnmap a n).2.flat = (s.flat.unmap a n).2 := by
  have hprot : ProtOk 0#32 0#32 := by decide
  unfold gmSparseUnmap at *
  unfold Flat.unmap
  rcases change_spec h a n 0#32 0#32 false .unmap with ⟨hadm, heq⟩ |
    ⟨-, _, hobs, -⟩ | ⟨-, -, -, heq⟩ | ⟨hadm, -, -, s', heq, hc⟩
  · have hbad : ¬ PageRange a n := by
      unfold Admissible at hadm
      tauto
    rw [if_pos hbad, heq]
    exact ⟨rfl, rfl⟩
  · exact hobs.elim
  · rw [heq] at hno
    exact absurd rfl hno
  · rw [if_neg (not_not.2 hadm.1), heq]
    refine ⟨rfl, ?_⟩
    change Flat.mk s'.flat.perm s'.flat.byte = _
    rw [Flat.mk.injEq]
    constructor
    · funext k
      exact hc.perm k
    · funext x
      rw [hc.byte h hadm.1]
      simp

theorem protect_flat {s : Space} (h : s.Inv) {a n : ℕ} (hin : s.Contains a n) (prot : Prot)
    (hno : (s.gmSparseProtect a n prot).1 ≠ .nomem) :
    (s.gmSparseProtect a n prot).1 = (s.flat.protect a n prot).1 ∧
      (s.gmSparseProtect a n prot).2.flat = (s.flat.protect a n prot).2 := by
  have hprot : ProtOk prot 7#32 ↔ prot &&& ~~~7#32 = 0#32 := by
    unfold ProtOk
    simp
  unfold gmSparseProtect at *
  unfold Flat.protect
  rcases change_spec h a n prot 7#32 false .protect with ⟨hadm, heq⟩ |
    ⟨hadm, result, hobs, heq⟩ | ⟨-, -, -, heq⟩ | ⟨hadm, hclear, -, s', heq, hc⟩
  · have hbad : ¬ (PageRange a n ∧ prot &&& ~~~7#32 = 0#32) := by
      unfold Admissible at hadm
      tauto
    rw [if_pos hbad, heq]
    exact ⟨rfl, rfl⟩
  · have hr := hadm.1
    rw [if_neg (not_not.2 ⟨hr, hprot.1 hadm.2.2⟩)]
    rcases hobs with ⟨rfl, hex⟩ | ⟨rfl, hall, x, t, h1, h2, hx, hbad⟩
    · rw [if_pos ((exists_cover_iff (P := fun o => o = none) h hr).1 hex), heq]
      exact ⟨rfl, rfl⟩
    · have hgap : ¬ ∃ k, Flat.InPages a n k ∧ s.flat.perm k = none := by
        intro hex
        obtain ⟨y, h3, h4, hy⟩ := (exists_cover_iff (P := fun o => o = none) h hr).2 hex
        exact hall y h3 h4 hy
      obtain ⟨k, hk, u, hu, hbad'⟩ := (exists_cover_iff
        (P := fun o => ∃ u, o = some u ∧ prot &&& ~~~u.2 ≠ 0#32) h hr).1 ⟨x, h1, h2, t, hx, hbad⟩
      rw [if_neg hgap, if_pos ⟨k, u, hk, hu, hbad'⟩, heq]
      exact ⟨rfl, rfl⟩
  · rw [heq] at hno
    exact absurd rfl hno
  · have hr := hadm.1
    have hgap : ¬ ∃ k, Flat.InPages a n k ∧ s.flat.perm k = none := by
      rintro ⟨k, hk, hnone⟩
      obtain ⟨t, ht, -⟩ := hclear _ hk.1 hk.2
      rw [show s.flat.perm k = cover s.regions (k * pageSize) from rfl, ht] at hnone
      cases hnone
    have hdeny : ¬ ∃ k t, Flat.InPages a n k ∧ s.flat.perm k = some t ∧
        prot &&& ~~~t.2 ≠ 0#32 := by
      rintro ⟨k, t, hk, hsome, hbad⟩
      obtain ⟨t', ht, hok⟩ := hclear _ hk.1 hk.2
      rw [show s.flat.perm k = cover s.regions (k * pageSize) from rfl, ht] at hsome
      cases hsome
      exact hbad hok
    rw [if_neg (not_not.2 ⟨hr, hprot.1 hadm.2.2⟩), if_neg hgap, if_neg hdeny, heq]
    refine ⟨rfl, ?_⟩
    change Flat.mk s'.flat.perm s'.flat.byte = _
    rw [Flat.mk.injEq]
    constructor
    · funext k
      exact hc.perm k
    · funext x
      rw [hc.byte h hr]
      simp

/-! ## Reads and writes -/

theorem checkAccess_flat {s : Space} (h : s.Inv) {a n : ℕ} (hin : s.Contains a n)
    (permission : Prot) : s.checkAccess a n permission = s.flat.access a n permission := by
  rw [checkAccess_eq h, if_pos hin]
  rfl

theorem read_flat {s : Space} (h : s.Inv) {a n : ℕ} (hin : s.Contains a n)
    {buffer : Option Buffer} (hb : n ≠ 0 → buffer ≠ none) :
    s.gmSparseRead a buffer n = s.flat.read a n := by
  unfold Flat.read gmSparseRead
  rw [← checkAccess_flat h hin]
  cases buffer with
  | none =>
      have h0 : n = 0 := by
        by_contra hne
        exact hb hne rfl
      subst h0
      have hbytes : (if s.checkAccess a 0 GM.READ = .ok then s.flat.bytes a 0 else []) = [] := by
        split <;> rfl
      rw [hbytes]
      rfl
  | some buffer =>
      rw [accessLocked_read]
      refine Prod.ext rfl ?_
      dsimp only
      split
      · rename_i hok
        apply List.map_congr_left
        intro i hi
        rw [List.mem_range] at hi
        obtain ⟨t, ht, -⟩ := (cover_of_checkAccess h hok).2 (a + i) (by omega) (by omega)
        rw [flat_byte_of_cover h (by simp [ht])]
      · rfl

theorem Wrote.byte {s s' : Space} (h : s.Inv) {a n : ℕ} {buffer : Buffer}
    (hw : Wrote s s' a n buffer) {x : ℕ} (hx : cover s.regions x ≠ none) :
    s'.byteAt x = if a ≤ x ∧ x < a + n then buffer (x - a) else s.byteAt x := by
  have hq := pageKey_of_cover h hx
  have hmod := Nat.mod_lt x (show 0 < pageSize by decide)
  have hoff : pageBase x + x % pageSize = x := Nat.sub_add_cancel (Nat.mod_le x pageSize)
  rw [byteAt, bytesAt, hw.pages _ hq]
  by_cases ht : Touches a n (pageBase x)
  · rw [if_pos ht]
    simp only [Option.map_some, Option.getD_some, overwrite, hoff, hmod, true_and]
    rfl
  · have hout : ¬ (a ≤ x ∧ x < a + n) := by
      intro hin
      exact ht (touches_iff_exists.2 ⟨x, hin.1, hin.2, rfl⟩)
    rw [if_neg ht, if_neg hout]
    rfl

theorem Wrote.flat {s s' : Space} (h : s.Inv) {a n : ℕ} {buffer : Buffer}
    (hw : Wrote s s' a n buffer) (hok : s.checkAccess a n GM.WRITE = .ok) :
    s'.flat.perm = s.flat.perm ∧ ∀ x, s'.flat.byte x =
      if a ≤ x ∧ x < a + n then buffer (x - a) else s.flat.byte x := by
  have hregions : ∀ x, cover s'.regions x = cover s.regions x := by
    intro x
    rw [hw.regions]
  constructor
  · funext k
    exact hregions (k * pageSize)
  · intro x
    by_cases hx : cover s.regions x = none
    · rw [flat_byte_of_none hw.inv ((hregions x).trans hx)]
      rw [if_neg, flat_byte_of_none h hx]
      rintro ⟨h1, h2⟩
      obtain ⟨t, ht, -⟩ := (cover_of_checkAccess h hok).2 x h1 h2
      rw [hx] at ht
      cases ht
    · rw [flat_byte_of_cover hw.inv (by rwa [hregions]), flat_byte_of_cover h hx,
        hw.byte h hx]

theorem write_flat {s : Space} (h : s.Inv) {a n : ℕ} (hin : s.Contains a n)
    {buffer : Option Buffer} (hb : n ≠ 0 → buffer ≠ none)
    (hno : (s.gmSparseWrite a buffer n).1 ≠ .nomem) :
    (s.gmSparseWrite a buffer n).1 = (s.flat.write a buffer n).1 ∧
      (s.gmSparseWrite a buffer n).2.flat = (s.flat.write a buffer n).2 := by
  unfold gmSparseWrite at *
  have hfirst : (s.flat.write a buffer n).1 = s.checkAccess a n GM.WRITE :=
    (checkAccess_flat h hin GM.WRITE).symm
  cases buffer with
  | none =>
      have h0 : n = 0 := by
        by_contra hne
        exact hb hne rfl
      subst h0
      rw [hfirst, Flat.write_zero]
      exact ⟨rfl, rfl⟩
  | some buffer =>
      rcases accessLocked_write h a buffer n with ⟨heq, hcase⟩ | ⟨heq, -⟩ |
        ⟨s', heq, hok, h0, -, hw⟩
      · rw [heq, hfirst]
        refine ⟨rfl, ?_⟩
        rcases hcase with hbad | rfl
        · rw [checkAccess_flat h hin] at hbad
          rw [Flat.write, if_neg hbad]
        · rw [Flat.write_zero]
      · rw [heq] at hno
        exact absurd rfl hno
      · rw [heq, hfirst]
        refine ⟨hok.symm, ?_⟩
        rw [Flat.write, ← checkAccess_flat h hin, if_pos hok]
        change Flat.mk s'.flat.perm s'.flat.byte = _
        rw [Flat.mk.injEq]
        obtain ⟨hperm, hbyte⟩ := hw.flat h hok
        exact ⟨hperm, funext hbyte⟩

/-- A write with backing for the pages it makes resident. -/
theorem gmSparseWrite_flat {s : Space} (h : s.Inv) {a n : ℕ} (hin : s.Contains a n)
    (hfits : s.Fits a n) (buffer : Buffer) :
    (s.gmSparseWrite a (some buffer) n).1 = (s.flat.write a (some buffer) n).1 ∧
      (s.gmSparseWrite a (some buffer) n).2.flat = (s.flat.write a (some buffer) n).2 := by
  apply write_flat h hin
  · intro _
    exact Option.some_ne_none buffer
  · unfold gmSparseWrite
    rcases accessLocked_write h a buffer n with ⟨heq, -⟩ | ⟨-, -, -, hno⟩ | ⟨s', heq, -⟩
    · rw [heq]
      dsimp only
      rw [checkAccess_flat h hin]
      exact checkPages_ne_nomem _ _ _ _
    · exact absurd hfits hno
    · rw [heq]
      nofun

/-! ## Calls -/

theorem call_inv {s : Space} (h : s.Inv) (c : MemoryCall) :
    (s.call c).2.Inv ∧ SameArena s (s.call c).2 := by
  have key : ∀ d : Call GMSparseExclusive,
      (s.perform d).space.Inv ∧ SameArena s (s.perform d).space := fun d =>
    ⟨(perform_effect h d).inv h, (perform_effect h d).arena⟩
  cases c with
  | map a n prot maxprot replace => exact key (.map a n prot maxprot replace)
  | unmap a n => exact key (.unmap a n)
  | protect a n prot => exact key (.protect a n prot)
  | read a buffer n => exact key (.read a buffer n)
  | write a buffer n => exact key (.write a buffer n)

/-- Each shared call on the sparse memory is the call on its flat memory, unless
it runs out of memory. -/
theorem call_flat {s : Space} (h : s.Inv) {base size : ℕ} (hbase : s.base = base)
    (hstop : s.stop = base + size) {c : MemoryCall} (hin : c.Inside base size) (hb : c.Buffered)
    (hno : (s.call c).1.1 ≠ .nomem) :
    (s.call c).1 = (s.flat.step c).1 ∧ (s.call c).2.flat = (s.flat.step c).2 := by
  have hcont : ∀ a n, (base ≤ a ∧ a + n ≤ base + size) → s.Contains a n := by
    intro a n hr
    unfold Contains
    omega
  cases c with
  | map a n prot maxprot replace =>
      obtain ⟨h1, h2⟩ := map_flat h (hcont a n hin) prot maxprot replace hno
      exact ⟨congrArg (·, []) h1, h2⟩
  | unmap a n =>
      obtain ⟨h1, h2⟩ := unmap_flat h (hcont a n hin) hno
      exact ⟨congrArg (·, []) h1, h2⟩
  | protect a n prot =>
      obtain ⟨h1, h2⟩ := protect_flat h (hcont a n hin) prot hno
      exact ⟨congrArg (·, []) h1, h2⟩
  | read a buffer n => exact ⟨read_flat h (hcont a n hin) hb, rfl⟩
  | write a buffer n =>
      obtain ⟨h1, h2⟩ := write_flat h (hcont a n hin) hb hno
      exact ⟨congrArg (·, []) h1, h2⟩

end Space

/-- Up to the first `GM_NOMEM` of the sparse memory, a fresh sparse and a fresh
dense memory give the same answers and the same bytes. -/
theorem sparse_agrees_dense {base size backingBytes : ℕ} {allocated : Bool}
    {arena : ℕ → PageBytes} {s : Space}
    (hinit : Space.gmSparseInit base size backingBytes allocated arena = (.ok, some s))
    (calls : List MemoryCall) (hin : ∀ c ∈ calls, c.Inside base size)
    (hbuffer : ∀ c ∈ calls, c.Buffered) :
    untilNomem (replies Space.call s calls) <+: replies GuestMemory.call GuestMemory.fresh calls := by
  obtain ⟨hinv, hbase, hstop, hregions, -, -, -⟩ := Space.gmSparseInit_spec hinit
  have hle : base + size ≤ uint64Max := by
    rw [← hstop]
    exact hinv.stop_le
  have hperm : ∀ k, s.permAt k = none := by
    intro k
    rw [Space.permAt, hregions]
    rfl
  have hflat : s.flat = GuestMemory.fresh.flat := by
    change Flat.mk s.flat.perm s.flat.byte = Flat.mk _ _
    rw [Flat.mk.injEq]
    constructor
    · funext k
      exact hperm k
    · funext x
      exact if_pos (hperm _)
  exact runs_agree
    (R := fun s m => (s.Inv ∧ s.base = base ∧ s.stop = base + size) ∧ s.flat = m)
    (Q := fun t m => t.Wf ∧ t.flat = m)
    (P := fun c => c.Inside base size ∧ c.Buffered)
    (by
      rintro s m c ⟨hc, hb⟩ ⟨⟨h1, h2, h3⟩, rfl⟩ hno
      obtain ⟨hreply, hflat'⟩ := Space.call_flat h1 h2 h3 hc hb hno
      obtain ⟨hinv', harena⟩ := Space.call_inv h1 c
      exact ⟨hreply, ⟨hinv', harena.base.trans h2, harena.stop.trans h3⟩, hflat'⟩)
    (by
      rintro t m c ⟨hc, hb⟩ ⟨h1, rfl⟩
      exact GuestMemory.call_flat h1 hle hc hb)
    ⟨⟨hinv, hbase, hstop⟩, rfl⟩ ⟨GuestMemory.wf_fresh, hflat.symm⟩
    fun c hc => ⟨hin c hc, hbuffer c hc⟩

/-- Two pages written across their border and read back. -/
theorem sparse_agrees_dense_border :
    ∃ s, Space.gmSparseInit 16384 32768 32768 true (fun _ => zeroPage) = (.ok, some s) ∧
      untilNomem (replies Space.call s [.map 16384 32768 3#32 7#32 false,
        .write 32767 (some fun _ => 5) 2, .read 32766 (some fun _ => 0) 4]) <+:
        replies GuestMemory.call GuestMemory.fresh [.map 16384 32768 3#32 7#32 false,
          .write 32767 (some fun _ => 5) 2, .read 32766 (some fun _ => 0) 4] := by
  have hinit : Space.gmSparseInit 16384 32768 32768 true (fun _ => zeroPage) = (.ok, some _) := rfl
  refine ⟨_, hinit, sparse_agrees_dense hinit _ ?_ ?_⟩
  · simp [MemoryCall.Inside]
  · simp [MemoryCall.Buffered]

end Tolkara
