import Tolkara.Memory.DensePages

/-!
# Reads and writes of the dense memory

What a caller can tell about a page is its `PageView`: the permissions, the JIT
flag and the bytes, where a page without storage reads as zero. `viewAt` is the
memory as a partial function from page addresses to views, and `byteAt` its
bytes by address.

Both paths of `copy` give the same answer, the page-by-page one of
`checkPages`. A read returns the bytes of `byteAt`; a write that succeeds
changes exactly the bytes of its range, and one that fails changes no view.
-/

namespace Tolkara

/-- What a caller can tell about a mapped page. -/
structure PageView where
  prot : BitVec 8
  maxprot : BitVec 8
  jit : Bool
  bytes : PageBytes

namespace GuestMemory

def view (p : GMPage) : PageView := ⟨p.prot, p.maxprot, p.jit, p.bytes.getD zeroPage⟩

def viewAt (m : GuestMemory) (b : ℕ) : Option PageView := (pageAt m.pages b).map view

/-- The byte at address `x`; zero where nothing is mapped. -/
def byteAt (m : GuestMemory) (x : ℕ) : UInt8 :=
  ((m.viewAt (pageBase x)).map fun v => v.bytes (x % pageSize)).getD 0

def look (m : GuestMemory) (k : ℕ) : Option PageView := m.viewAt (k * pageSize)

def deniedView (t : Option GMThread) (permission : Prot) (v : PageView) : Bool :=
  denied t permission v.prot v.jit

def answer (m : GuestMemory) (t : Option GMThread) (a n : ℕ) (permission : Prot) : GMResult :=
  if n > uint64Max - a then .invalid
  else checkPages m.look (deniedView t permission) (a / pageSize) (pageCount a n)

theorem look_div (m : GuestMemory) (a : ℕ) : m.look (a / pageSize) = m.viewAt (pageBase a) := by
  rw [look, pageBase_eq]

/-! ## The answer of an access -/

theorem accessLoop_eq {m : GuestMemory} (hm : m.Wf) (t : Option GMThread)
    (permission : Prot) (stop : ℕ) :
    ∀ fuel a, stop - a ≤ fuel →
      (m.accessLoop t permission stop fuel a).1 =
        checkPages m.look (deniedView t permission) (a / pageSize) (pageCount a (stop - a)) := by
  intro fuel
  induction fuel with
  | zero =>
      intro a ha
      have : stop - a = 0 := by omega
      rw [this]
      rfl
  | succ fuel ih =>
      intro a ha
      rw [accessLoop]
      by_cases hlt : a < stop
      swap
      · rw [if_neg hlt, show stop - a = 0 by omega]
        rfl
      rw [if_pos hlt, entry_eq hm]
      have hoff := sub_pageBase a
      have hcount : ∃ c, pageCount a (stop - a) = c + 1 ∧
          c = pageCount (a + min (pageSize - (a - pageBase a)) (stop - a))
            (stop - (a + min (pageSize - (a - pageBase a)) (stop - a))) ∧
          (c ≠ 0 → (a + min (pageSize - (a - pageBase a)) (stop - a)) / pageSize =
            a / pageSize + 1) := by
        rw [hoff]
        by_cases hc : pageSize - a % pageSize < stop - a
        · refine ⟨_, pageCount_succ rfl hc, ?_, ?_⟩
          · rw [min_eq_left hc.le]
            congr 1
            omega
          · intro _
            rw [min_eq_left hc.le]
            exact div_add_chunk rfl
        · refine ⟨0, pageCount_one (by omega) (by omega), ?_, by simp⟩
          rw [min_eq_right (by omega), show stop - (a + (stop - a)) = 0 by omega]
          rfl
      obtain ⟨c, hc, hrest, hdiv⟩ := hcount
      rw [hc, checkPages_succ, look_div, viewAt]
      cases hp : pageAt m.pages (pageBase a) with
      | none => rfl
      | some p =>
          simp only [Option.map_some]
          by_cases hd : denied t permission p.prot p.jit = true
          · rw [if_pos hd, if_pos (by exact hd)]
          · rw [if_neg hd, if_neg (by exact hd)]
            rw [ih _ (by unfold pageSize pageBase at *; omega), ← hrest]
            by_cases hc0 : c = 0
            · simp [hc0, checkPages_zero]
            · rw [hdiv hc0]

theorem accessRange_eq {m : GuestMemory} (hm : m.Wf) (t : Option GMThread) (a n : ℕ)
    (permission : Prot) : ∃ f, m.accessRange t a n permission =
      (m.answer t a n permission, { m with faultAddress := f }) := by
  unfold accessRange answer
  by_cases h : n > uint64Max - a
  · exact ⟨a, by rw [if_pos h, if_pos h]⟩
  · rw [if_neg h, if_neg h]
    have := accessLoop_eq hm t permission (a + n) n a (by omega)
    rw [Nat.add_sub_cancel_left] at this
    exact ⟨_, by rw [← this]⟩

/-- Where an access is allowed, every byte of it lies on a mapped page that
permits it. -/
theorem exists_view_of_answer {m : GuestMemory} {t : Option GMThread} {a n : ℕ}
    {permission : Prot} (h : m.answer t a n permission = .ok) {x : ℕ} (hax : a ≤ x)
    (hxn : x < a + n) :
    ∃ v, m.viewAt (pageBase x) = some v ∧ deniedView t permission v = false := by
  unfold answer at h
  split at h
  · cases h
  rw [checkPages_eq_ok_iff] at h
  have hi : x / pageSize - a / pageSize < pageCount a n := by
    rw [pageCount, if_neg (by omega)]
    unfold pageSize
    omega
  obtain ⟨v, hv, hd⟩ := h _ hi
  have hle : a / pageSize ≤ x / pageSize := Nat.div_le_div_right hax
  rw [Nat.add_sub_cancel' hle, look_div] at hv
  exact ⟨v, hv, hd⟩

theorem answer_one_page (m : GuestMemory) (t : Option GMThread) {a n : ℕ} (permission : Prot)
    (hn : n ≠ 0) (hpage : n ≤ pageSize - a % pageSize) (hmax : n ≤ uint64Max - a) :
    m.answer t a n permission =
      match m.viewAt (pageBase a) with
      | none => .unmapped
      | some v => if deniedView t permission v then .protection else .ok := by
  rw [answer, if_neg (by omega), pageCount_one hn hpage, checkPages_succ, look_div]
  cases m.viewAt (pageBase a) <;> rfl

/-! ## Reads -/

theorem byteAt_of_view {m : GuestMemory} {x : ℕ} {v : PageView}
    (h : m.viewAt (pageBase x) = some v) : m.byteAt x = v.bytes (x % pageSize) := by
  simp [byteAt, h]

theorem pageLoad_eq {m : GuestMemory} {a c : ℕ} {p : GMPage}
    (hp : pageAt m.pages (pageBase a) = some p) (hc : c ≤ pageSize - a % pageSize) :
    pageLoad (p.bytes.getD zeroPage) (a % pageSize) c =
      (List.range c).map fun i => m.byteAt (a + i) := by
  apply List.map_congr_left
  intro i hi
  have hi := List.mem_range.1 hi
  have hbase : pageBase (a + i) = pageBase a := by
    unfold pageBase pageSize at *
    omega
  have hv : m.viewAt (pageBase (a + i)) = some (view p) := by
    rw [hbase, viewAt, hp]
    rfl
  have hoff : (a + i) % pageSize = a % pageSize + i := by
    unfold pageSize at *
    omega
  rw [byteAt_of_view hv, hoff]
  rfl

theorem loadLoop_eq {m : GuestMemory} (hm : m.Wf) :
    ∀ fuel a n, n ≤ fuel → (∀ x, a ≤ x → x < a + n → m.viewAt (pageBase x) ≠ none) →
      m.loadLoop fuel a n = (List.range n).map fun i => m.byteAt (a + i) := by
  intro fuel
  induction fuel with
  | zero =>
      intro a n hn _
      obtain rfl : n = 0 := by omega
      rfl
  | succ fuel ih =>
      intro a n hn hmapped
      rw [loadLoop]
      by_cases h0 : n = 0
      · simp [h0]
      rw [if_neg h0, entry_eq hm]
      have hoff := sub_pageBase a
      have hview := hmapped a le_rfl (by omega)
      cases hp : pageAt m.pages (pageBase a) with
      | none => exact absurd (by rw [viewAt, hp]; rfl) hview
      | some p =>
          simp only [Option.map_some]
          rw [hoff, pageLoad_eq hp (by omega)]
          have hpos : 0 < min (pageSize - a % pageSize) n := by
            have := Nat.mod_lt a (show 0 < pageSize by decide)
            omega
          rw [ih _ _ (by omega) ?_]
          · have := map_range_append (fun i => m.byteAt (a + i))
              (min (pageSize - a % pageSize) n) (n - min (pageSize - a % pageSize) n)
            rw [Nat.add_sub_cancel' (by omega)] at this
            rw [this]
            simp only [Nat.add_assoc]
          · intro x h1 h2
            exact hmapped x (by omega) (by omega)

/-- A read through a non-null buffer: the answer, and the bytes when it is
allowed. Nothing but the fault address changes. -/
theorem copy_read {m : GuestMemory} (hm : m.Wf) (heap : Heap) (t : Option GMThread)
    (a : ℕ) (buffer : Buffer) (n : ℕ) (permission : Prot) :
    ∃ f, m.copy heap t a (some buffer) n permission false =
      (m.answer t a n permission, { m with faultAddress := f },
        if m.answer t a n permission = .ok then
          (List.range n).map fun i => m.byteAt (a + i) else []) := by
  unfold copy
  split
  · rename_i h
    have hans := m.answer_one_page t permission h.1 h.2.1 h.2.2
    rw [copyPage, show a - a % pageSize = pageBase a from rfl, entry_eq hm]
    rw [viewAt] at hans
    cases hp : pageAt m.pages (pageBase a) with
    | none =>
        rw [hp] at hans
        exact ⟨a, by rw [hans]; rfl⟩
    | some p =>
        rw [hp] at hans
        simp only [Option.map_some] at hans ⊢
        by_cases hd : denied t permission p.prot p.jit = true
        · rw [if_pos (by exact hd)] at hans
          exact ⟨a, by rw [hans, if_pos hd]; rfl⟩
        · rw [if_neg (by exact hd)] at hans
          refine ⟨0, ?_⟩
          rw [hans, if_neg hd, if_neg (by decide), if_pos rfl, pageLoad_eq hp h.2.1]
  · obtain ⟨f, hf⟩ := accessRange_eq hm t a n permission
    refine ⟨f, ?_⟩
    rw [copyRange, hf]
    dsimp only
    by_cases hok : m.answer t a n permission = .ok
    · by_cases h0 : n = 0
      · simp [h0]
      · have hload := loadLoop_eq (m := { m with faultAddress := f })
          ⟨hm.sorted, hm.aligned, hm.bounded⟩ n a n le_rfl ?_
        · rw [if_neg (by simp [hok, h0]), if_neg (by simp), if_pos hok, hload, hok]
          rfl
        · intro x h1 h2
          obtain ⟨v, hv, -⟩ := exists_view_of_answer hok h1 h2
          change m.viewAt (pageBase x) ≠ none
          rw [hv]
          simp
    · rw [if_pos (Or.inl hok), if_neg hok]

/-! ## Writes -/

def stored (a n : ℕ) (buffer : Buffer) (b : ℕ) (v : PageView) : PageView :=
  { v with bytes := overwrite a n buffer b v.bytes }

theorem stored_zero (a : ℕ) (buffer : Buffer) (b : ℕ) (v : PageView) :
    stored a 0 buffer b v = v := by
  rw [stored, overwrite_zero]

theorem stored_stored {a n c : ℕ} (hc : c ≤ n) (buffer : Buffer) (b : ℕ) (v : PageView) :
    stored (a + c) (n - c) (fun j => buffer (c + j)) b (stored a c buffer b v) =
      stored a n buffer b v := by
  unfold stored
  dsimp only
  rw [overwrite_overwrite hc]

theorem viewAt_storePage {m : GuestMemory} (hm : m.Wf) {a c : ℕ} {p : GMPage}
    (hp : pageAt m.pages (pageBase a) = some p) (hc : c ≤ pageSize - a % pageSize)
    (buffer : Buffer) (b : ℕ) :
    (m.storePage (m.lower (pageBase a)) p (a % pageSize) c buffer).viewAt b =
      (m.viewAt b).map (stored a c buffer b) := by
  have haddr := (mem_of_pageAt hp).2
  rw [viewAt, storePage]
  dsimp only
  rw [pageAt_set hm.sorted (getElem?_lower hm hp) (by rfl), haddr]
  by_cases hb : b = pageBase a
  · subst hb
    rw [if_pos rfl, viewAt, hp]
    simp only [Option.map_some, view, stored, Option.getD_some, pageStore_eq_overwrite hc]
  · rw [if_neg hb]
    cases hv : pageAt m.pages b with
    | none => simp [viewAt, hv]
    | some q =>
        obtain ⟨hq, rfl⟩ := mem_of_pageAt hv
        have hal := hm.aligned q hq
        have hid : stored a c buffer q.address (view q) = view q := by
          rw [stored, overwrite_of_ne hc hal hb]
        simp [viewAt, hv, hid]

theorem Wf.storePage {m : GuestMemory} (hm : m.Wf) {b : ℕ} {p : GMPage}
    (hp : pageAt m.pages b = some p) (offset n : ℕ) (buffer : Buffer) :
    (m.storePage (m.lower b) p offset n buffer).Wf :=
  hm.set (getElem?_lower hm hp) rfl

/-- The page at the view permits execution. -/
def execView (v : PageView) : Prop := v.prot.setWidth 32 &&& GM.EXEC ≠ 0#32

theorem storeLoop_spec :
    ∀ (fuel : ℕ) (m : GuestMemory) (a n : ℕ) (buffer : Buffer) (executable : Bool), m.Wf →
      n ≤ fuel → (∀ x, a ≤ x → x < a + n → m.viewAt (pageBase x) ≠ none) →
      (storeLoop fuel m a buffer n executable).1.Wf ∧
      (∀ b, (storeLoop fuel m a buffer n executable).1.viewAt b =
        (m.viewAt b).map (stored a n buffer b)) ∧
      ((storeLoop fuel m a buffer n executable).1.generation = m.generation ∧
        (storeLoop fuel m a buffer n executable).1.codeGeneration = m.codeGeneration ∧
        (storeLoop fuel m a buffer n executable).1.faultAddress = m.faultAddress) ∧
      ((storeLoop fuel m a buffer n executable).2 = true ↔ executable = true ∨
        ∃ x v, a ≤ x ∧ x < a + n ∧ m.viewAt (pageBase x) = some v ∧ execView v) := by
  intro fuel
  induction fuel with
  | zero =>
      intro m a n buffer executable hm hn _
      obtain rfl : n = 0 := by omega
      refine ⟨hm, ?_, ⟨rfl, rfl, rfl⟩, ?_⟩
      · intro b
        have hid : stored a 0 buffer b = id := funext fun v => stored_zero a buffer b v
        simp [storeLoop, hid]
      · simp only [storeLoop, Nat.add_zero]
        constructor
        · exact Or.inl
        · rintro (h | ⟨x, v, h1, h2, -⟩)
          · exact h
          · omega
  | succ fuel ih =>
      intro m a n buffer executable hm hn hmapped
      rw [storeLoop]
      by_cases h0 : n = 0
      · subst h0
        rw [if_pos rfl]
        refine ⟨hm, ?_, ⟨rfl, rfl, rfl⟩, ?_⟩
        · intro b
          have hid : stored a 0 buffer b = id := funext fun v => stored_zero a buffer b v
          simp [hid]
        · constructor
          · exact Or.inl
          · rintro (h | ⟨x, v, h1, h2, -⟩)
            · exact h
            · omega
      rw [if_neg h0, entry_eq hm]
      have hoff := sub_pageBase a
      have hview := hmapped a le_rfl (by omega)
      cases hp : pageAt m.pages (pageBase a) with
      | none => exact absurd (by rw [viewAt, hp]; rfl) hview
      | some p =>
          simp only [Option.map_some]
          rw [hoff]
          have hmodlt := Nat.mod_lt a (show 0 < pageSize by decide)
          generalize hcdef : min (pageSize - a % pageSize) n = c
          have hc : c ≤ pageSize - a % pageSize := by omega
          have hcn : c ≤ n := by omega
          have hstep := viewAt_storePage hm hp hc buffer
          have hmapped' : ∀ x, a + c ≤ x → x < a + c + (n - c) →
              (m.storePage (m.lower (pageBase a)) p (a % pageSize) c buffer).viewAt
                (pageBase x) ≠ none := by
            intro x h1 h2 hnone
            rw [hstep, Option.map_eq_none_iff] at hnone
            exact hmapped x (by omega) (by omega) hnone
          obtain ⟨hwf, hviews, hgen, hexec⟩ := ih _ (a + c) (n - c)
            (fun j => buffer (c + j)) (executable || (p.prot.setWidth 32 &&& GM.EXEC != 0#32))
            (hm.storePage hp _ _ _) (by omega) hmapped'
          refine ⟨hwf, ?_, ?_, ?_⟩
          · intro b
            rw [hviews, hstep, Option.map_map]
            congr 1
            funext v
            exact stored_stored hcn buffer b v
          · exact hgen
          · rw [hexec]
            have hthis : m.viewAt (pageBase a) = some (view p) := by
              rw [viewAt, hp]
              rfl
            have hfirst : ∀ x, a ≤ x → x < a + c → pageBase x = pageBase a := by
              intro x h1 h2
              unfold pageBase pageSize at *
              omega
            constructor
            · rintro (h | ⟨x, v, h1, h2, hv, he⟩)
              · rw [Bool.or_eq_true] at h
                rcases h with h | h
                · exact .inl h
                · refine .inr ⟨a, view p, le_rfl, by omega, hthis, ?_⟩
                  simpa [execView, view] using h
              · rw [hstep] at hv
                obtain ⟨w, hw, rfl⟩ := Option.map_eq_some_iff.1 hv
                exact .inr ⟨x, w, by omega, by omega, hw, he⟩
            · rintro (h | ⟨x, v, h1, h2, hv, he⟩)
              · exact .inl (by simp [h])
              · by_cases hx : x < a + c
                · rw [hfirst x h1 hx, hthis] at hv
                  left
                  cases hv
                  simpa [execView, view] using Or.inr he
                · refine .inr ⟨x, stored a c buffer (pageBase x) v, by omega, by omega, ?_, he⟩
                  rw [hstep, hv]
                  rfl

/-- The allocation of storage is not visible. -/
theorem allocateLoop_map (heap : Heap) (stop : ℕ) :
    ∀ (fuel k i : ℕ) (pages : List GMPage),
      (allocateLoop heap stop fuel k i pages).2.map (fun p => (p.address, view p)) =
        pages.map fun p => (p.address, view p) := by
  intro fuel
  induction fuel with
  | zero =>
      intro k i pages
      rfl
  | succ fuel ih =>
      intro k i pages
      rw [allocateLoop]
      cases hi : pages[i]? with
      | none => rfl
      | some p =>
          dsimp only
          split
          · cases hb : p.bytes with
            | some bytes => exact ih _ _ _
            | none =>
                dsimp only
                split
                · rw [ih]
                  exact map_set_eq (fun p => (p.address, view p)) hi (by simp [view, hb])
                · rfl
          · rfl

/-- With every allocation granted, the loop ends with storage everywhere it
went. -/
theorem allocateLoop_fst (stop : ℕ) :
    ∀ (fuel k i : ℕ) (pages : List GMPage),
      (allocateLoop (fun _ => true) stop fuel k i pages).1 = true := by
  intro fuel
  induction fuel with
  | zero =>
      intro k i pages
      rfl
  | succ fuel ih =>
      intro k i pages
      rw [allocateLoop]
      cases hi : pages[i]? with
      | none => rfl
      | some p =>
          dsimp only
          split
          · cases hb : p.bytes with
            | some bytes => exact ih _ _ _
            | none => exact ih _ _ _
          · rfl

theorem viewAt_of_map_eq {m m' : GuestMemory}
    (h : m'.pages.map (fun p => (p.address, view p)) =
      m.pages.map fun p => (p.address, view p)) (b : ℕ) : m'.viewAt b = m.viewAt b := by
  have key : ∀ l : List GMPage, (pageAt l b).map view =
      ((l.map fun p => (p.address, view p)).find? fun q => q.1 = b).map Prod.snd := by
    intro l
    rw [pageAt, List.find?_map, Option.map_map]
    rfl
  rw [viewAt, viewAt, key, key, h]

theorem Wf.of_map_eq {m m' : GuestMemory} (hm : m.Wf)
    (h : m'.pages.map (fun p => (p.address, view p)) =
      m.pages.map fun p => (p.address, view p)) : m'.Wf := by
  apply hm.of_addresses
  have := congrArg (List.map Prod.fst) h
  rw [List.map_map, List.map_map] at this
  exact this

/-- What a write did: nothing a caller can see, or exactly its range. -/
structure Written (m m' : GuestMemory) (a n : ℕ) (buffer : Buffer) : Prop where
  views : ∀ b, m'.viewAt b = (m.viewAt b).map (stored a n buffer b)
  generation : m'.generation = m.generation + 1
  codeGeneration : m'.codeGeneration = m.codeGeneration + 1 ∨
    m'.codeGeneration = m.codeGeneration ∧
      ∀ x v, a ≤ x → x < a + n → m.viewAt (pageBase x) = some v → ¬ execView v

/-- The memories look the same, generations included. -/
structure Alike (m m' : GuestMemory) : Prop where
  views : ∀ b, m'.viewAt b = m.viewAt b
  generation : m'.generation = m.generation
  codeGeneration : m'.codeGeneration = m.codeGeneration

theorem Alike.fault (m : GuestMemory) (f : ℕ) : Alike m { m with faultAddress := f } :=
  ⟨fun _ => rfl, rfl, rfl⟩

/-- What a write may answer and do: it is refused or empty, a buffer or storage is missing, or
exactly its range changes. -/
def WriteOutcome (m : GuestMemory) (heap : Heap) (t : Option GMThread) (a : ℕ)
    (buffer : Option Buffer) (n : ℕ) (permission : Prot) (r : GMResult) (m' : GuestMemory) : Prop :=
  Alike m m' ∧ (m.answer t a n permission ≠ .ok ∨ n = 0) ∧ r = m.answer t a n permission ∨
    Alike m m' ∧ n ≠ 0 ∧ m.answer t a n permission = .ok ∧
      ((buffer = none ∧ r = .invalid) ∨ (r = .nomem ∧ ∃ k, heap k = false)) ∨
    ∃ b, buffer = some b ∧ n ≠ 0 ∧ m.answer t a n permission = .ok ∧ r = .ok ∧ Written m m' a n b

theorem Wf.fault {m : GuestMemory} (hm : m.Wf) (f : ℕ) : Wf { m with faultAddress := f } :=
  ⟨hm.sorted, hm.aligned, hm.bounded⟩

theorem copyPage_write {m : GuestMemory} (hm : m.Wf) (heap : Heap) (t : Option GMThread)
    (a : ℕ) (buffer : Option Buffer) (n : ℕ) (permission : Prot)
    (h : n ≠ 0 ∧ n ≤ pageSize - a % pageSize ∧ n ≤ uint64Max - a) :
    ∃ r m', m.copyPage heap t a buffer n permission true = (r, m', []) ∧ m'.Wf ∧
      WriteOutcome m heap t a buffer n permission r m' := by
  have hans := m.answer_one_page t permission h.1 h.2.1 h.2.2
  rw [copyPage, show a - a % pageSize = pageBase a from rfl, entry_eq hm]
  rw [viewAt] at hans
  cases hp : pageAt m.pages (pageBase a) with
  | none =>
      rw [hp] at hans
      exact ⟨_, _, rfl, hm.fault _, .inl ⟨Alike.fault m _, .inl (by rw [hans]; simp),
        hans.symm⟩⟩
  | some p =>
      rw [hp] at hans
      simp only [Option.map_some] at hans ⊢
      by_cases hd : denied t permission p.prot p.jit = true
      · rw [if_pos (by exact hd)] at hans
        rw [if_pos hd]
        exact ⟨_, _, rfl, hm.fault _, .inl ⟨Alike.fault m _, .inl (by rw [hans]; simp),
          hans.symm⟩⟩
      rw [if_neg (by exact hd)] at hans
      rw [if_neg hd]
      cases buffer with
      | none =>
          exact ⟨_, _, rfl, hm.fault _, .inr (.inl ⟨Alike.fault m _, h.1, hans,
            .inl ⟨rfl, rfl⟩⟩)⟩
      | some buffer =>
          dsimp only
          rw [if_pos trivial]
          by_cases hmem : p.bytes.isNone = true ∧ heap 0 = false
          · rw [if_pos hmem]
            exact ⟨_, _, rfl, hm.fault _, .inr (.inl ⟨Alike.fault m _, h.1, hans,
              .inr ⟨rfl, 0, hmem.2⟩⟩)⟩
          rw [if_neg hmem]
          have hst := viewAt_storePage hm hp h.2.1 buffer
          have hwst := hm.storePage hp (a % pageSize) n buffer
          refine ⟨_, _, rfl, ⟨hwst.sorted, hwst.aligned, hwst.bounded⟩, .inr (.inr
            ⟨buffer, rfl, h.1, hans, rfl, ⟨hst, rfl, ?_⟩⟩)⟩
          by_cases he : p.prot.setWidth 32 &&& GM.EXEC ≠ 0#32
          · left
            exact if_pos he
          · right
            refine ⟨if_neg he, ?_⟩
            intro x v h1 h2 hv hev
            have hbase : pageBase x = pageBase a := by
              unfold pageBase pageSize at *
              omega
            rw [hbase, viewAt, hp] at hv
            cases hv
            exact he hev

theorem copyRange_write {m : GuestMemory} (hm : m.Wf) (heap : Heap) (t : Option GMThread)
    (a : ℕ) (buffer : Option Buffer) (n : ℕ) (permission : Prot) :
    ∃ r m', m.copyRange heap t a buffer n permission true = (r, m', []) ∧ m'.Wf ∧
      WriteOutcome m heap t a buffer n permission r m' := by
  obtain ⟨f, hf⟩ := accessRange_eq hm t a n permission
  unfold copyRange
  rw [hf]
  dsimp only
  by_cases hbad : m.answer t a n permission ≠ .ok ∨ n = 0
  · rw [if_pos hbad]
    exact ⟨_, _, rfl, hm.fault _, .inl ⟨Alike.fault m _, hbad, rfl⟩⟩
  rw [if_neg hbad]
  push Not at hbad
  obtain ⟨hok, hn⟩ := hbad
  cases buffer with
  | none =>
      exact ⟨_, _, rfl, hm.fault _, .inr (.inl ⟨Alike.fault m _, hn, hok, .inl ⟨rfl, rfl⟩⟩)⟩
  | some buffer =>
      dsimp only
      rw [if_pos rfl]
      generalize hfirst : lower { m with faultAddress := f } (pageBase a) = first
      generalize hfuel : count { m with faultAddress := f } - first = fuel
      have hmap := allocateLoop_map heap (a + n) fuel 0 first m.pages
      generalize hal : allocateLoop heap (a + n) fuel 0 first m.pages = allocated at hmap
      obtain ⟨granted, pages⟩ := allocated
      dsimp only at hmap ⊢
      have hwf' : Wf { m with pages := pages, faultAddress := f } := hm.of_map_eq hmap
      have hview : ∀ b, viewAt { m with pages := pages, faultAddress := f } b = m.viewAt b :=
        fun b => viewAt_of_map_eq hmap b
      by_cases hg : granted = false
      · rw [if_pos hg]
        refine ⟨_, _, rfl, hwf', .inr (.inl ⟨⟨hview, rfl, rfl⟩, hn, hok, .inr ⟨rfl, ?_⟩⟩)⟩
        by_contra hall
        push Not at hall
        have htrue : heap = fun _ => true := funext fun k => by simpa using hall k
        rw [htrue] at hal
        have := allocateLoop_fst (a + n) fuel 0 first m.pages
        rw [hal] at this
        simp [hg] at this
      rw [if_neg hg]
      have hmapped : ∀ x, a ≤ x → x < a + n →
          viewAt { m with pages := pages, faultAddress := f } (pageBase x) ≠ none := by
        intro x h1 h2
        obtain ⟨v, hv, -⟩ := exists_view_of_answer hok h1 h2
        rw [hview, hv]
        simp
      obtain ⟨hw, hviews, hgen, hexec⟩ := storeLoop_spec n
        { m with pages := pages, faultAddress := f } a n buffer false hwf' le_rfl hmapped
      refine ⟨_, _, rfl, ⟨hw.sorted, hw.aligned, hw.bounded⟩, .inr (.inr
        ⟨buffer, rfl, hn, hok, rfl, ⟨?_, ?_, ?_⟩⟩)⟩
      · intro b
        have := hviews b
        rw [hview] at this
        exact this
      · simp [hgen.1]
      · generalize hsl : storeLoop n { m with pages := pages, faultAddress := f } a buffer n
          false = st at *
        by_cases hs : st.2 = true
        · left
          simp [hs, hgen.2.1]
        · right
          refine ⟨by simp [hs, hgen.2.1], ?_⟩
          intro x v h1 h2 hv hev
          apply hs
          rw [hexec]
          exact .inr ⟨x, v, h1, h2, by rw [hview]; exact hv, hev⟩

/-- What a write answers and does. The answer is the page-by-page one, except
that an allowed nonempty write still needs a buffer and storage. -/
theorem copy_write {m : GuestMemory} (hm : m.Wf) (heap : Heap) (t : Option GMThread)
    (a : ℕ) (buffer : Option Buffer) (n : ℕ) (permission : Prot) :
    ∃ r m', m.copy heap t a buffer n permission true = (r, m', []) ∧ m'.Wf ∧
      (Alike m m' ∧ (m.answer t a n permission ≠ .ok ∨ n = 0) ∧
          r = m.answer t a n permission ∨
        Alike m m' ∧ n ≠ 0 ∧ m.answer t a n permission = .ok ∧
          ((buffer = none ∧ r = .invalid) ∨ (r = .nomem ∧ ∃ k, heap k = false)) ∨
        ∃ b, buffer = some b ∧ n ≠ 0 ∧ m.answer t a n permission = .ok ∧ r = .ok ∧
          Written m m' a n b) := by
  unfold copy
  split
  · rename_i h
    exact copyPage_write hm heap t a buffer n permission h
  · exact copyRange_write hm heap t a buffer n permission

theorem Alike.byteAt {m m' : GuestMemory} (h : Alike m m') (x : ℕ) : m'.byteAt x = m.byteAt x := by
  rw [GuestMemory.byteAt, h.views]
  rfl

theorem Written.byteAt {m m' : GuestMemory} {a n : ℕ} {buffer : Buffer}
    (h : Written m m' a n buffer) {x : ℕ} (hx : a ≤ x → x < a + n → m.viewAt (pageBase x) ≠ none) :
    m'.byteAt x = if a ≤ x ∧ x < a + n then buffer (x - a) else m.byteAt x := by
  have hoff : pageBase x + x % pageSize = x := Nat.sub_add_cancel (Nat.mod_le x pageSize)
  have hmod := Nat.mod_lt x (show 0 < pageSize by decide)
  rw [GuestMemory.byteAt, h.views, GuestMemory.byteAt]
  cases hv : m.viewAt (pageBase x) with
  | none =>
      rw [if_neg fun hin => hx hin.1 hin.2 hv]
      rfl
  | some v =>
      simp only [Option.map_some, Option.getD_some, stored, overwrite, hoff, hmod, true_and]

end GuestMemory

end Tolkara
