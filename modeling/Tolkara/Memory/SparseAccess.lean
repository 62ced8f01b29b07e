import Tolkara.Memory.SparseRegions
import Tolkara.Memory.SparseTable

/-!
# Accesses of the sparse memory

Under the invariant `Inv` a space is two functions: `permAt`, the permissions
by page number, and `residentAt`, the generation and the bytes of the resident
pages. The access check is the page-by-page check over `permAt`, a read returns
the bytes of `byteAt`, and a write or a `gm_sparse_prepare` is refused exactly
when more pages are `missing` than the arena has left.
-/

namespace Tolkara

namespace Space

open Library TaggedInterval

/-- What every reachable space satisfies. -/
structure Inv (s : Space) : Prop where
  table : s.TableInv
  base_pos : 0 < s.base
  stop_le : s.stop ≤ uint64Max
  normal : Normal s.regions
  limit : s.regions.length ≤ regionLimit
  aligned : ∀ r ∈ s.regions, r.start % pageSize = 0 ∧ r.stop % pageSize = 0
  inside : ∀ r ∈ s.regions, s.base ≤ r.start ∧ r.stop ≤ s.stop
  mapped : ∀ q, PageKey q → s.residentAt q ≠ none →
    q % pageSize = 0 ∧ cover s.regions q ≠ none

def permAt (s : Space) (k : ℕ) : Option (Prot × Prot) := cover s.regions (k * pageSize)

/-- The bytes of the page at `q`: zero unless it is resident. -/
def bytesAt (s : Space) (q : ℕ) : PageBytes := ((s.residentAt q).map Prod.snd).getD zeroPage

/-- The generation of the page at `q`: zero unless it was written. -/
def genAt (s : Space) (q : ℕ) : ℕ := ((s.residentAt q).map Prod.fst).getD 0

def byteAt (s : Space) (x : ℕ) : UInt8 := s.bytesAt (pageBase x) (x % pageSize)

theorem pageGeneration_eq (s : Space) (a : ℕ) : s.pageGeneration a = s.genAt (pageBase a) := by
  rw [pageGeneration, genAt, residentAt, pageBase]
  cases s.pageSlot (a - a % pageSize) false <;> rfl

theorem pageKey_of_mod {q : ℕ} (hq : q % pageSize = 0) (hpos : 0 < q) : PageKey q := by
  refine ⟨by omega, ?_⟩
  rintro rfl
  simp [uint64Max, pageSize] at hq

theorem cover_pageBase {l : List Region}
    (hl : ∀ r ∈ l, r.start % pageSize = 0 ∧ r.stop % pageSize = 0) (x : ℕ) :
    cover l (pageBase x) = cover l x := by
  induction l with
  | nil => rfl
  | cons r l ih =>
      obtain ⟨h1, h2⟩ := hl r (by simp)
      have hiff : r.Contains (pageBase x) ↔ r.Contains x := by
        unfold TaggedInterval.Contains pageBase pageSize at *
        omega
      rw [cover_cons, cover_cons, ih fun q hq => hl q (by simp [hq])]
      simp only [hiff]

theorem permAt_div {s : Space} (h : s.Inv) (x : ℕ) :
    s.permAt (x / pageSize) = cover s.regions x := by
  rw [permAt, ← pageBase_eq, cover_pageBase h.aligned]

/-- A covered address lies in the arena. -/
theorem inside_of_cover {s : Space} (h : s.Inv) {x : ℕ} (hx : cover s.regions x ≠ none) :
    s.base ≤ x ∧ x < s.stop := by
  obtain ⟨t, ht⟩ := Option.ne_none_iff_exists'.1 hx
  obtain ⟨r, hr, hc, -⟩ := mem_of_cover_eq_some ht
  have := h.inside r hr
  have := hc.1
  have := hc.2
  omega

theorem pageKey_of_cover {s : Space} (h : s.Inv) {x : ℕ} (hx : cover s.regions x ≠ none) :
    PageKey (pageBase x) := by
  rw [← cover_pageBase h.aligned] at hx
  have := (inside_of_cover h hx).1
  have := h.base_pos
  exact pageKey_of_mod (pageBase_mod x) (by omega)

/-! ## The access check -/

/-- An access that every page before the `j`-th allows is decided from there on. -/
theorem checkPages_skip {β : Type*} {look : ℕ → Option β} {deny : β → Bool} {k j count : ℕ}
    (hj : j ≤ count) (h : ∀ i < j, ∃ p, look (k + i) = some p ∧ deny p = false) :
    checkPages look deny k count = checkPages look deny (k + j) (count - j) := by
  have := checkPages_add look deny k j (count - j) ((checkPages_eq_ok_iff look deny k j).2 h)
  rwa [show j + (count - j) = count by omega] at this

theorem checkAccess_eq {s : Space} (h : s.Inv) (a n : ℕ) (permission : Prot) :
    s.checkAccess a n permission =
      if s.Contains a n then
        checkPages s.permAt (deniedRegion permission) (a / pageSize) (pageCount a n)
      else .invalid := by
  unfold checkAccess
  by_cases hin : s.Contains a n
  swap
  · rw [if_pos hin, if_neg hin]
  rw [if_neg (not_not.2 hin), if_pos hin]
  by_cases h0 : n = 0
  · rw [if_pos h0, pageCount, if_pos h0, checkPages_zero]
  rw [if_neg h0]
  have hcount : pageCount a n = (a + n - 1) / pageSize - a / pageSize + 1 := by
    rw [pageCount, if_neg h0]
  -- A page is allowed when its first byte of the access is.
  have hpage : ∀ i x, Allowed s.regions permission a x →
      max a ((a / pageSize + i) * pageSize) < x →
      ∃ t, s.permAt (a / pageSize + i) = some t ∧ deniedRegion permission t = false := by
    intro i x hok hx
    obtain ⟨t, ht, hd⟩ := hok (max a ((a / pageSize + i) * pageSize)) (le_max_left _ _) hx
    refine ⟨t, ?_, hd⟩
    rw [← ht, ← permAt_div h]
    congr 1
    unfold pageSize
    omega
  -- Up to address `x` every page is allowed, so the page of `x` decides.
  have hskip : ∀ x, a ≤ x → x < a + n → Allowed s.regions permission a x →
      checkPages s.permAt (deniedRegion permission) (a / pageSize) (pageCount a n) =
        checkPages s.permAt (deniedRegion permission) (x / pageSize)
          ((a + n - 1) / pageSize - x / pageSize + 1) := by
    intro x hax hxs hok
    have hle : a / pageSize ≤ x / pageSize := Nat.div_le_div_right hax
    have hle' : x / pageSize ≤ (a + n - 1) / pageSize := Nat.div_le_div_right (by omega)
    rw [checkPages_skip (j := x / pageSize - a / pageSize) (by omega)]
    · rw [show a / pageSize + (x / pageSize - a / pageSize) = x / pageSize by omega, hcount]
      congr 1
      omega
    · intro i hi
      exact hpage i _ hok (by
        unfold pageSize at *
        omega)
  rcases checkLoop_cases permission (a + n) h.normal.1 (c := a) (by omega) with
    ⟨heq, hok⟩ | ⟨heq, x, hax, hxs, hok, hx⟩ | ⟨heq, x, t, hax, hxs, hok, hx, ht⟩
  · rw [heq, eq_comm, checkPages_eq_ok_iff]
    intro i hi
    exact hpage i _ hok (by
      unfold pageSize at *
      omega)
  · rw [heq, hskip x hax hxs hok, checkPages_succ, permAt_div h, hx]
  · rw [heq, hskip x hax hxs hok, checkPages_succ, permAt_div h, hx]
    simp [ht]

/-- Where an access is allowed, every address of it is covered. -/
theorem cover_of_checkAccess {s : Space} (h : s.Inv) {a n : ℕ} {permission : Prot}
    (hok : s.checkAccess a n permission = .ok) :
    s.Contains a n ∧ ∀ x, a ≤ x → x < a + n →
      ∃ t, cover s.regions x = some t ∧ deniedRegion permission t = false := by
  rw [checkAccess_eq h] at hok
  split at hok
  swap
  · cases hok
  rename_i hin
  refine ⟨hin, ?_⟩
  intro x hax hxs
  rw [checkPages_eq_ok_iff] at hok
  have hle : a / pageSize ≤ x / pageSize := Nat.div_le_div_right hax
  obtain ⟨t, ht, hd⟩ := hok (x / pageSize - a / pageSize) (by
    rw [pageCount, if_neg (by omega)]
    have : x / pageSize ≤ (a + n - 1) / pageSize := Nat.div_le_div_right (by omega)
    omega)
  rw [show a / pageSize + (x / pageSize - a / pageSize) = x / pageSize by omega,
    permAt_div h] at ht
  exact ⟨t, ht, hd⟩

/-- Every address of the range is mapped with the permission. -/
def Permits (s : Space) (permission : Prot) (a n : ℕ) : Prop :=
  ∀ x, a ≤ x → x < a + n → ∃ t, cover s.regions x = some t ∧ t.1 &&& permission = permission

theorem checkAccess_ok_iff {s : Space} (h : s.Inv) {a n : ℕ} {permission : Prot} :
    s.checkAccess a n permission = .ok ↔ s.Contains a n ∧ s.Permits permission a n := by
  constructor
  · intro hok
    obtain ⟨hin, hcover⟩ := cover_of_checkAccess h hok
    refine ⟨hin, ?_⟩
    intro x h1 h2
    obtain ⟨t, ht, hd⟩ := hcover x h1 h2
    exact ⟨t, ht, by simpa [deniedRegion] using hd⟩
  · rintro ⟨hin, hpermits⟩
    rw [checkAccess_eq h, if_pos hin, checkPages_eq_ok_iff]
    intro k hk
    -- Every page of the range holds one of its addresses.
    obtain ⟨x, h1, h2, hx⟩ : ∃ x, a ≤ x ∧ x < a + n ∧ x / pageSize = a / pageSize + k := by
      have h0 : n ≠ 0 := by
        rintro rfl
        simp [pageCount] at hk
      rw [pageCount, if_neg h0] at hk
      refine ⟨max a ((a / pageSize + k) * pageSize), le_max_left _ _, ?_, ?_⟩
      · unfold pageSize at *
        omega
      · unfold pageSize at *
        omega
    obtain ⟨t, ht, hp⟩ := hpermits x h1 h2
    refine ⟨t, ?_, by simpa [deniedRegion] using hp⟩
    rw [← hx, permAt_div h]
    exact ht

/-! ## Missing pages -/

def missing (s : Space) : ℕ → ℕ → ℕ
  | _, 0 => 0
  | k, count + 1 =>
    (if s.residentAt (k * pageSize) = none then 1 else 0) + s.missing (k + 1) count

theorem missing_congr {s s' : Space} {k count : ℕ}
    (h : ∀ i < count, s'.residentAt ((k + i) * pageSize) = none ↔
      s.residentAt ((k + i) * pageSize) = none) : s'.missing k count = s.missing k count := by
  induction count generalizing k with
  | zero => rfl
  | succ count ih =>
      rw [missing, missing, ih]
      · have h0 := h 0 (by omega)
        rw [Nat.add_zero] at h0
        simp only [h0]
      · intro i hi
        have := h (i + 1) (by omega)
        rwa [show k + (i + 1) = k + 1 + i by omega] at this

theorem residentAt_eq_none_iff_pageSlot (s : Space) (q : ℕ) :
    s.residentAt q = none ↔ s.pageSlot q false = none := by
  rw [residentAt, Option.map_eq_none_iff]

/-- The preflight compares the missing pages with the room in the arena. -/
theorem preflight_eq {s : Space} {stop : ℕ} :
    ∀ (count k needed : ℕ), (∀ i < count, (k + i) * pageSize < stop) →
      needed ≤ s.capacity - s.resident →
      s.preflight stop count (k * pageSize) needed =
        decide (needed + s.missing k count ≤ s.capacity - s.resident) := by
  intro count
  induction count with
  | zero =>
      intro k needed _ hle
      simpa [preflight, missing] using hle
  | succ count ih =>
      intro k needed hstop hle
      have hnext : k * pageSize + pageSize = (k + 1) * pageSize := by rw [Nat.succ_mul]
      have hstop' : ∀ i < count, (k + 1 + i) * pageSize < stop := by
        intro i hi
        have := hstop (i + 1) (by omega)
        rwa [show k + (i + 1) = k + 1 + i by omega] at this
      have h0 := hstop 0 (by omega)
      rw [Nat.add_zero] at h0
      rw [preflight, if_pos h0, missing, hnext]
      simp only [residentAt_eq_none_iff_pageSlot]
      by_cases hp : s.pageSlot (k * pageSize) false = none
      · rw [if_pos hp, if_pos hp]
        by_cases hfull : needed + 1 > s.capacity - s.resident
        · rw [if_pos hfull, eq_comm, decide_eq_false_iff_not]
          omega
        · rw [if_neg hfull, ih _ _ hstop' (by omega), Nat.add_assoc]
      · rw [if_neg hp, if_neg hp, ih _ _ hstop' hle, Nat.zero_add]

/-- The pages of an access, by number, begin before its end. -/
theorem page_lt_of_pageCount {a n i : ℕ} (hi : i < pageCount a n) :
    (a / pageSize + i) * pageSize < a + n := by
  unfold pageCount at hi
  split at hi
  · omega
  · unfold pageSize at *
    omega

/-! ## Writing -/

/-- The access `[a, a + n)` has a byte on the page at `q`. -/
def Touches (a n q : ℕ) : Prop :=
  q % pageSize = 0 ∧ n ≠ 0 ∧ q < a + n ∧ a < q + pageSize

instance (a n q : ℕ) : Decidable (Touches a n q) :=
  inferInstanceAs (Decidable (_ ∧ _ ∧ _ ∧ _))

theorem touches_iff_exists {a n q : ℕ} :
    Touches a n q ↔ ∃ x, a ≤ x ∧ x < a + n ∧ pageBase x = q := by
  constructor
  · rintro ⟨hq, h0, h1, h2⟩
    refine ⟨max a q, le_max_left _ _, by omega, ?_⟩
    unfold pageBase pageSize at *
    omega
  · rintro ⟨x, h1, h2, rfl⟩
    have := pageBase_le x
    have := pageBase_add_lt x
    exact ⟨pageBase_mod x, by omega, by omega, by omega⟩

theorem touches_iff_page {a n q : ℕ} :
    Touches a n q ↔ ∃ i < pageCount a n, q = (a / pageSize + i) * pageSize := by
  constructor
  · rintro ⟨hq, h0, h1, h2⟩
    refine ⟨q / pageSize - a / pageSize, ?_, ?_⟩
    · rw [pageCount, if_neg h0]
      unfold pageSize at *
      omega
    · unfold pageSize at *
      omega
  · rintro ⟨i, hi, rfl⟩
    have hlt := page_lt_of_pageCount hi
    have h0 : n ≠ 0 := by
      rintro rfl
      simp [pageCount] at hi
    refine ⟨Nat.mul_mod_left _ _, h0, hlt, ?_⟩
    unfold pageSize
    omega

theorem not_touches_zero (a q : ℕ) : ¬ Touches a 0 q := fun h => h.2.1 rfl

section

variable {a n c q : ℕ}

/-- The first chunk of an access takes one page. -/
theorem pageCount_chunk (h0 : n ≠ 0) (hc : min (pageSize - a % pageSize) n = c) :
    pageCount a n = pageCount (a + c) (n - c) + 1 := by
  have hmod := Nat.mod_lt a (show 0 < pageSize by decide)
  by_cases hone : n ≤ pageSize - a % pageSize
  · obtain rfl : c = n := by omega
    rw [pageCount_one h0 hone, Nat.sub_self, pageCount, if_pos rfl]
  · exact pageCount_succ (by omega) (by omega)

/-- What is behind the first chunk is on other pages. -/
theorem pageBase_ne_of_chunk (hc : min (pageSize - a % pageSize) n = c) :
    ∀ x, a + c ≤ x → x < a + c + (n - c) → pageBase x ≠ pageBase a := by
  intro x h1 h2
  unfold pageBase pageSize at *
  omega

/-- The other pages are those of the rest. -/
theorem touches_chunk (hc : min (pageSize - a % pageSize) n = c) (hq : q ≠ pageBase a) :
    Touches (a + c) (n - c) q ↔ Touches a n q := by
  rw [touches_iff_exists, touches_iff_exists]
  constructor
  · rintro ⟨x, h1, h2, h3⟩
    exact ⟨x, by omega, by omega, h3⟩
  · rintro ⟨x, h1, h2, h3⟩
    refine ⟨x, ?_, by omega, h3⟩
    by_contra hlt
    apply hq
    rw [← h3]
    unfold pageBase pageSize at *
    omega

end

theorem writeLoop_spec :
    ∀ (fuel : ℕ) (s : Space) (a n : ℕ) (buffer : Buffer), s.TableInv → n ≤ fuel →
      (∀ x, a ≤ x → x < a + n → PageKey (pageBase x)) →
      s.missing (a / pageSize) (pageCount a n) ≤ s.capacity - s.resident →
      (writeLoop fuel s a buffer n).TableInv ∧ SameShape s (writeLoop fuel s a buffer n) ∧
        ∀ q, PageKey q → (writeLoop fuel s a buffer n).residentAt q =
          if Touches a n q then some (s.generation, overwrite a n buffer q (s.bytesAt q))
          else s.residentAt q := by
  intro fuel
  induction fuel with
  | zero =>
      intro s a n buffer h hn _ _
      obtain rfl : n = 0 := by omega
      exact ⟨h, SameShape.refl s, fun q _ => (if_neg (not_touches_zero a q)).symm⟩
  | succ fuel ih =>
      intro s a n buffer h hn hkey hroom
      rw [writeLoop]
      by_cases h0 : n = 0
      · subst h0
        rw [if_pos rfl]
        exact ⟨h, SameShape.refl s, fun q _ => (if_neg (not_touches_zero a q)).symm⟩
      rw [if_neg h0]
      dsimp only
      rw [show a - a % pageSize = pageBase a from rfl]
      have hmod := Nat.mod_lt a (show 0 < pageSize by decide)
      generalize hc : min (pageSize - a % pageSize) n = c
      have hcp : c ≤ pageSize - a % pageSize := by omega
      have hcn : c ≤ n := by omega
      have hq := hkey a le_rfl (by omega)
      rw [pageCount_chunk h0 hc, missing, ← pageBase_eq] at hroom
      have hres := resident_le h
      obtain ⟨slot, t, ht, htinv, htshape, htres, htslot, htpages⟩ := slotFor_spec h hq (by
        intro hnone
        rw [if_pos ((residentAt_eq_none_iff_pageSlot s _).2 hnone)] at hroom
        omega)
      rw [ht]
      dsimp only
      obtain ⟨huinv, hushape, hures, hupages⟩ :=
        storeChunk_spec htinv hq htslot (a % pageSize) c buffer
      generalize hu : t.storeChunk slot (a % pageSize) c buffer = u at *
      have hpages : ∀ r, PageKey r → u.residentAt r =
          if r = pageBase a then
            some (s.generation, overwrite a c buffer (pageBase a) (s.bytesAt (pageBase a)))
          else s.residentAt r := by
        intro r hr
        rw [hupages r hr, htpages r hr, htpages _ hq]
        by_cases hra : r = pageBase a
        · rw [if_pos hra, if_pos hra, if_pos rfl, Option.map_some, htshape.generation,
            pageStore_eq_overwrite hcp]
          cases hsq : s.residentAt (pageBase a) with
          | none => simp [bytesAt, hsq]
          | some x => simp [bytesAt, hsq]
        · rw [if_neg hra, if_neg hra, if_neg hra]
      have hshape := htshape.trans hushape
      have hlater := pageBase_ne_of_chunk hc
      have hmiss : u.missing ((a + c) / pageSize) (pageCount (a + c) (n - c)) =
          s.missing (a / pageSize + 1) (pageCount (a + c) (n - c)) := by
        by_cases hone : n ≤ pageSize - a % pageSize
        · obtain rfl : c = n := by omega
          rw [Nat.sub_self, pageCount, if_pos rfl]
          rfl
        · rw [div_add_chunk (by omega)]
          apply missing_congr
          intro i hi
          have hlt := page_lt_of_pageCount hi
          rw [div_add_chunk (by omega)] at hlt
          have hk : pageBase ((a / pageSize + 1 + i) * pageSize) =
              (a / pageSize + 1 + i) * pageSize := by
            rw [pageBase_eq, Nat.mul_div_cancel _ (by decide)]
          have hge : a + c ≤ (a / pageSize + 1 + i) * pageSize := by
            unfold pageSize at *
            omega
          have hkey' := hkey _ (by omega) (show (a / pageSize + 1 + i) * pageSize < a + n by omega)
          rw [hk] at hkey'
          rw [hpages _ hkey', if_neg]
          rw [← hk]
          exact hlater _ hge hlt
      obtain ⟨hinv, hshape', hfinal⟩ := ih u (a + c) (n - c) (fun j => buffer (c + j)) huinv
        (by omega) (fun x h1 h2 => hkey x (by omega) (by omega)) (by
          rw [hmiss, hshape.capacity, hures, htres]
          omega)
      refine ⟨hinv, hshape.trans hshape', ?_⟩
      intro q hqk
      rw [hfinal q hqk, hpages q hqk, hshape.generation]
      by_cases hqa : q = pageBase a
      · subst hqa
        have htouch : Touches a n (pageBase a) :=
          touches_iff_exists.2 ⟨a, le_rfl, by omega, rfl⟩
        have hno : ¬ Touches (a + c) (n - c) (pageBase a) := by
          rw [touches_iff_exists]
          rintro ⟨x, h1, h2, h3⟩
          exact hlater x h1 h2 h3
        rw [if_neg hno, if_pos rfl, if_pos htouch, ← hc, overwrite_chunk]
      · have hiff := touches_chunk hc hqa
        rw [if_neg hqa]
        by_cases htouch : Touches a n q
        · have hub : u.bytesAt q = overwrite a c buffer q (s.bytesAt q) := by
            rw [overwrite_of_ne hcp htouch.1 hqa, bytesAt, hpages q hqk, if_neg hqa]
            rfl
          rw [if_pos htouch, if_pos (hiff.2 htouch), hub, overwrite_overwrite hcn]
        · rw [if_neg htouch, if_neg fun ht => htouch (hiff.1 ht)]

/-! ## Preparing -/

/-- What the second loop of `gm_sparse_prepare` does to the resident pages. -/
theorem prepareLoop_spec (stop : ℕ) :
    ∀ (count k : ℕ) (s : Space), s.TableInv → (∀ i < count, (k + i) * pageSize < stop) →
      (∀ i < count, PageKey ((k + i) * pageSize)) →
      s.missing k count ≤ s.capacity - s.resident →
      (prepareLoop stop count s (k * pageSize)).TableInv ∧
        SameShape s (prepareLoop stop count s (k * pageSize)) ∧
        ∀ q, PageKey q → (prepareLoop stop count s (k * pageSize)).residentAt q =
          if ∃ i < count, q = (k + i) * pageSize then
            some ((s.residentAt q).getD (0, zeroPage))
          else s.residentAt q := by
  intro count
  induction count with
  | zero =>
      intro k s h _ _ _
      exact ⟨h, SameShape.refl s, fun q _ => (if_neg (by simp)).symm⟩
  | succ count ih =>
      intro k s h hstop hkey hroom
      have h0 := hstop 0 (by omega)
      have hq := hkey 0 (by omega)
      rw [Nat.add_zero] at h0 hq
      have hshift : ∀ i, k + 1 + i = k + (i + 1) := by
        intro i
        omega
      have hne : ∀ i, (k + 1 + i) * pageSize ≠ k * pageSize := by
        intro i
        unfold pageSize
        omega
      rw [missing] at hroom
      have hres := resident_le h
      obtain ⟨slot, t, ht, htinv, htshape, htres, -, htpages⟩ := slotFor_spec h hq (by
        intro hnone
        rw [if_pos ((residentAt_eq_none_iff_pageSlot s _).2 hnone)] at hroom
        omega)
      rw [prepareLoop, if_pos h0, ht]
      dsimp only
      rw [← Nat.succ_mul]
      have hmiss : t.missing (k + 1) count = s.missing (k + 1) count := by
        apply missing_congr
        intro i hi
        have hkey' := hkey (i + 1) (by omega)
        rw [← hshift] at hkey'
        rw [htpages _ hkey', if_neg (hne i)]
      obtain ⟨hinv, hshape, hpages⟩ := ih (k + 1) t htinv
        (fun i hi => by rw [hshift]; exact hstop (i + 1) (by omega))
        (fun i hi => by rw [hshift]; exact hkey (i + 1) (by omega)) (by
          rw [hmiss, htshape.capacity, htres]
          omega)
      refine ⟨hinv, htshape.trans hshape, ?_⟩
      intro q hqk
      have hiff : (∃ i < count + 1, q = (k + i) * pageSize) ↔
          q = k * pageSize ∨ ∃ i < count, q = (k + 1 + i) * pageSize := by
        constructor
        · rintro ⟨i, hi, rfl⟩
          cases i with
          | zero => exact .inl rfl
          | succ i => exact .inr ⟨i, by omega, by rw [hshift]⟩
        · rintro (rfl | ⟨i, hi, rfl⟩)
          · exact ⟨0, by omega, rfl⟩
          · exact ⟨i + 1, by omega, by rw [hshift]⟩
      rw [hpages q hqk, htpages q hqk]
      by_cases hqk' : q = k * pageSize
      · subst hqk'
        have hno : ¬ ∃ i < count, k * pageSize = (k + 1 + i) * pageSize := by
          rintro ⟨i, -, hi⟩
          exact hne i hi.symm
        rw [if_neg hno, if_pos rfl, if_pos (hiff.2 (.inl rfl))]
      · have hiff' : (∃ i < count + 1, q = (k + i) * pageSize) ↔
            ∃ i < count, q = (k + 1 + i) * pageSize := by
          rw [hiff, or_iff_right hqk']
        simp only [hiff', if_neg hqk']

/-! ## Reading -/

theorem readLoop_eq (s : Space) :
    ∀ (fuel a n : ℕ), n ≤ fuel →
      s.readLoop fuel a n = (List.range n).map fun i => s.byteAt (a + i) := by
  intro fuel
  induction fuel with
  | zero =>
      intro a n hn
      obtain rfl : n = 0 := by omega
      rfl
  | succ fuel ih =>
      intro a n hn
      rw [readLoop]
      by_cases h0 : n = 0
      · subst h0
        rw [if_pos rfl]
        rfl
      rw [if_neg h0]
      dsimp only
      rw [show a - a % pageSize = pageBase a from rfl]
      have hmod := Nat.mod_lt a (show 0 < pageSize by decide)
      generalize hc : min (pageSize - a % pageSize) n = c
      rw [ih _ _ (by omega)]
      have hbytes : s.residentBytes (pageBase a) = s.bytesAt (pageBase a) := by
        rw [residentBytes, bytesAt, residentAt]
        cases s.pageSlot (pageBase a) false <;> rfl
      rw [hbytes]
      obtain ⟨d, rfl⟩ : ∃ d, n = c + d := ⟨n - c, by omega⟩
      rw [map_range_append, Nat.add_sub_cancel_left]
      congr 1
      · apply List.map_congr_left
        intro i hi
        rw [List.mem_range] at hi
        have hlt : i < pageSize - a % pageSize := by omega
        have hpage : pageBase (a + i) = pageBase a := pageBase_add hlt
        have hoff : (a + i) % pageSize = a % pageSize + i := by
          unfold pageSize at *
          omega
        rw [byteAt, hpage, hoff]
      · simp only [Nat.add_assoc]

end Space

end Tolkara
