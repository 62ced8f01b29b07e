import Tolkara.Cpu.Fetch

/-!
# Accesses of the dense memory

`gm_read`, `gm_write`, `gm_populate` and `gm_fetch` of `runtime/GuestMemory.c`
in terms of pages: the first page of the range that refuses the access, in
address order, decides the result, and an access that is refused leaves every
page as it was. `PageByPage` says that of a result without a loop.

`copy` takes one of two paths. Where an access stays inside one page both of
them apply, and they are the same function.
-/

namespace Tolkara

namespace GuestMemory

/-! ## Reachable memories -/

inductive Reachable : GuestMemory → Prop
  | fresh : Reachable fresh
  | call {m : GuestMemory} (h : Reachable m) (op : MemoryOp) : Reachable (op.apply m)
  | read {m : GuestMemory} (h : Reachable m) (a : ℕ) (buffer : Option Buffer) (n : ℕ) :
      Reachable (m.gmRead a buffer n).2.1
  | fetch {m : GuestMemory} (h : Reachable m) (t : Option GMThread) (a : ℕ) :
      Reachable (m.gmFetch t a).2.1

/-- Without a buffer nothing is read or written, so the direction is immaterial. -/
theorem copy_null (heap : Heap) (m : GuestMemory) (t : Option GMThread) (a n : ℕ)
    (permission : Prot) (write : Bool) :
    m.copy heap t a none n permission write = m.copy heap t a none n permission true := by
  unfold copy copyPage copyRange
  rfl

theorem Wf.read {m : GuestMemory} (hm : m.Wf) (a : ℕ) (buffer : Option Buffer) (n : ℕ) :
    (m.gmRead a buffer n).2.1.Wf := by
  unfold gmRead
  cases buffer with
  | none =>
      rw [copy_null]
      obtain ⟨r, m', heq, hwf, -⟩ := copy_write hm (fun _ => true) none a none n GM.READ
      rw [heq]
      exact hwf
  | some buffer =>
      obtain ⟨f, heq⟩ := copy_read hm (fun _ => true) none a buffer n GM.READ
      rw [heq]
      exact (sameButFault_fault m f).wf hm

theorem Reachable.wf {m : GuestMemory} (h : m.Reachable) : m.Wf := by
  induction h with
  | fresh => exact wf_fresh
  | call _ op ih => exact (apply_codeStep ih op).wf
  | read _ a buffer n ih => exact ih.read a buffer n
  | fetch _ t a ih => exact (gmFetch_same ih t a).wf ih

/-! ## The page-by-page reading -/

/-- Page `k` lets a thread through: it is mapped with the permission, and a JIT
page is on the right side of the thread's write protection. -/
def Allows (m : GuestMemory) (t : Option GMThread) (permission : Prot) (k : ℕ) : Prop :=
  ∃ p, pageAt m.pages (k * pageSize) = some p ∧
    p.prot.setWidth 32 &&& permission = permission ∧
    ∀ thread, t = some thread → p.jit = true →
      (permission = GM.WRITE → thread.jitWriteProtected = false) ∧
      (permission = GM.EXEC → thread.jitWriteProtected = true)

/-- Some byte of `[a, a + n)` lies on page `k`. -/
def Touched (a n k : ℕ) : Prop := ∃ x, a ≤ x ∧ x < a + n ∧ x / pageSize = k

/-- The first page of the range that does not let the thread through decides the
result; a range past the end of the address space is no range. -/
def PageByPage (m : GuestMemory) (t : Option GMThread) (permission : Prot) (a n : ℕ)
    (r : GMResult) : Prop :=
  n > uint64Max - a ∧ r = .invalid ∨
    n ≤ uint64Max - a ∧ r = .ok ∧ (∀ k, Touched a n k → m.Allows t permission k) ∨
    n ≤ uint64Max - a ∧ ∃ k, Touched a n k ∧ ¬ m.Allows t permission k ∧
      (∀ j < k, Touched a n j → m.Allows t permission j) ∧
      r = if pageAt m.pages (k * pageSize) = none then .unmapped else .protection

theorem touched_iff {a n k : ℕ} :
    Touched a n k ↔ ∃ i < pageCount a n, k = a / pageSize + i := by
  constructor
  · rintro ⟨x, hax, hxn, rfl⟩
    have hle : a / pageSize ≤ x / pageSize := Nat.div_le_div_right hax
    refine ⟨x / pageSize - a / pageSize, ?_, by omega⟩
    rw [pageCount, if_neg (by omega)]
    have : x / pageSize ≤ (a + n - 1) / pageSize := Nat.div_le_div_right (by omega)
    omega
  · rintro ⟨i, hi, rfl⟩
    unfold pageCount at hi
    split at hi
    · omega
    · refine ⟨max a ((a / pageSize + i) * pageSize), le_max_left _ _, ?_, ?_⟩
      · unfold pageSize at *
        omega
      · unfold pageSize at *
        omega

theorem denied_eq_false {t : Option GMThread} {permission : Prot} {prot : BitVec 8}
    {jit : Bool} :
    denied t permission prot jit = false ↔
      prot.setWidth 32 &&& permission = permission ∧ ∀ thread, t = some thread → jit = true →
        (permission = GM.WRITE → thread.jitWriteProtected = false) ∧
        (permission = GM.EXEC → thread.jitWriteProtected = true) := by
  unfold denied
  cases t with
  | none => simp
  | some thread =>
      rw [Bool.or_eq_false_iff, bne_eq_false_iff_eq]
      refine and_congr_right fun _ => ?_
      constructor
      · rintro hd u hu rfl
        cases hu
        dsimp only at hd
        rw [Bool.true_and, Bool.or_eq_false_iff] at hd
        constructor
        · rintro rfl
          simpa using hd.1
        · rintro rfl
          simpa using hd.2
      · intro h
        cases jit with
        | false => rfl
        | true =>
            obtain ⟨hw, he⟩ := h thread rfl rfl
            dsimp only
            rw [Bool.true_and, Bool.or_eq_false_iff]
            constructor
            · by_cases hp : permission = GM.WRITE
              · simp [hw hp]
              · simp [hp]
            · by_cases hp : permission = GM.EXEC
              · simp [he hp]
              · simp [hp]

theorem allows_iff {m : GuestMemory} {t : Option GMThread} {permission : Prot} {k : ℕ} :
    m.Allows t permission k ↔ ∃ v, m.look k = some v ∧ deniedView t permission v = false := by
  unfold Allows look viewAt
  constructor
  · rintro ⟨p, hp, hok⟩
    exact ⟨view p, by rw [hp]; rfl, denied_eq_false.2 hok⟩
  · rintro ⟨v, hv, hok⟩
    obtain ⟨p, hp, rfl⟩ := Option.map_eq_some_iff.1 hv
    exact ⟨p, hp, denied_eq_false.1 hok⟩

/-- Of a refused range the first refusing page decides. -/
theorem checkPages_first {β : Type*} {look : ℕ → Option β} {deny : β → Bool} {k count : ℕ}
    (h : checkPages look deny k count ≠ .ok) :
    ∃ i < count, (¬ ∃ v, look (k + i) = some v ∧ deny v = false) ∧
      (∀ j < i, ∃ v, look (k + j) = some v ∧ deny v = false) ∧
      checkPages look deny k count = if look (k + i) = none then .unmapped else .protection := by
  induction count generalizing k with
  | zero => exact absurd rfl h
  | succ count ih =>
      rw [checkPages_succ] at h ⊢
      cases hk : look k with
      | none => exact ⟨0, by omega, by simp [hk], by simp, by simp [hk]⟩
      | some v =>
          cases hd : deny v with
          | true => exact ⟨0, by omega, by simp [hk, hd], by simp, by simp [hk, hd]⟩
          | false =>
              simp only [hk, hd, Bool.false_eq_true, if_false] at h ⊢
              obtain ⟨i, hi, hno, hbefore, heq⟩ := ih h
              have hshift : ∀ j, k + 1 + j = k + (j + 1) := fun j => by omega
              rw [hshift] at hno heq
              refine ⟨i + 1, by omega, hno, ?_, heq⟩
              intro j hj
              cases j with
              | zero => exact ⟨v, hk, hd⟩
              | succ j =>
                  rw [← hshift]
                  exact hbefore j (by omega)

theorem pageByPage_answer (m : GuestMemory) (t : Option GMThread) (permission : Prot)
    (a n : ℕ) : m.PageByPage t permission a n (m.answer t a n permission) := by
  unfold PageByPage answer
  by_cases hmax : n > uint64Max - a
  · exact .inl ⟨hmax, if_pos hmax⟩
  · rw [if_neg hmax]
    right
    by_cases hok : checkPages m.look (deniedView t permission) (a / pageSize)
        (pageCount a n) = .ok
    · refine .inl ⟨by omega, hok, ?_⟩
      rw [checkPages_eq_ok_iff] at hok
      intro k hk
      obtain ⟨i, hi, rfl⟩ := touched_iff.1 hk
      exact allows_iff.2 (hok i hi)
    · obtain ⟨i, hi, hno, hbefore, heq⟩ := checkPages_first hok
      refine .inr ⟨by omega, a / pageSize + i, touched_iff.2 ⟨i, hi, rfl⟩,
        fun hall => hno (allows_iff.1 hall), ?_, ?_⟩
      · intro j hj hjt
        obtain ⟨i', hi', rfl⟩ := touched_iff.1 hjt
        exact allows_iff.2 (hbefore i' (by omega))
      · rw [heq]
        simp [look, viewAt]

/-! ## The two paths -/

theorem lowerLoop_congr {pages pages' : List GMPage}
    (h : pages'.map GMPage.address = pages.map GMPage.address) (a fuel lo hi : ℕ) :
    lowerLoop pages' a fuel lo hi = lowerLoop pages a fuel lo hi := by
  induction fuel generalizing lo hi with
  | zero => rfl
  | succ fuel ih =>
      have hget : ∀ i : ℕ, pages'[i]?.map GMPage.address = pages[i]?.map GMPage.address := by
        intro i
        rw [← List.getElem?_map, ← List.getElem?_map, h]
      have hmid := hget (lo + (hi - lo) / 2)
      rw [lowerLoop, lowerLoop]
      dsimp only
      rw [ih, ih]
      cases hp : pages[lo + (hi - lo) / 2]? with
      | none =>
          rw [hp] at hmid
          rw [Option.map_eq_none_iff.1 hmid]
      | some p =>
          rw [hp] at hmid
          obtain ⟨q, hq, haddr⟩ := Option.map_eq_some_iff.1 hmid
          rw [hq]
          dsimp only
          rw [haddr]

/-- The search sees the addresses of the pages only. -/
theorem lower_congr {m m' : GuestMemory}
    (h : m'.pages.map GMPage.address = m.pages.map GMPage.address) (a : ℕ) :
    m'.lower a = m.lower a := by
  have hcount : m'.count = m.count := by
    have := congrArg List.length h
    rwa [List.length_map, List.length_map] at this
  unfold lower
  rw [hcount, lowerLoop_congr h]

theorem accessLoop_self (m : GuestMemory) (t : Option GMThread) (permission : Prot)
    (stop fuel : ℕ) : m.accessLoop t permission stop fuel stop = (.ok, 0) := by
  cases fuel with
  | zero => rfl
  | succ fuel => rw [accessLoop, if_neg (lt_irrefl _)]

theorem storeLoop_nil (fuel : ℕ) (m : GuestMemory) (a : ℕ) (buffer : Buffer)
    (executable : Bool) : storeLoop fuel m a buffer 0 executable = (m, executable) := by
  cases fuel with
  | zero => rfl
  | succ fuel => rw [storeLoop, if_pos rfl]

theorem loadLoop_nil (m : GuestMemory) (fuel a : ℕ) : m.loadLoop fuel a 0 = [] := by
  cases fuel with
  | zero => rfl
  | succ fuel => rw [loadLoop, if_pos rfl]

theorem allocateLoop_stop (heap : Heap) {stop i : ℕ} {pages : List GMPage}
    (h : ∀ p, pages[i]? = some p → stop ≤ p.address) (fuel k : ℕ) :
    allocateLoop heap stop fuel k i pages = (true, pages) := by
  cases fuel with
  | zero => rfl
  | succ fuel =>
      rw [allocateLoop]
      cases hp : pages[i]? with
      | none => rfl
      | some p => exact if_neg (not_lt.2 (h p hp))

section OnePage

variable {m : GuestMemory} {t : Option GMThread} {a n : ℕ} {permission : Prot}

theorem accessRange_one (hn : n ≠ 0) (hpage : n ≤ pageSize - a % pageSize)
    (hmax : n ≤ uint64Max - a) :
    m.accessRange t a n permission =
      match m.entry (pageBase a) with
      | none => (.unmapped, { m with faultAddress := a })
      | some (_, p) =>
        if denied t permission p.prot p.jit then (.protection, { m with faultAddress := a })
        else (.ok, { m with faultAddress := 0 }) := by
  obtain ⟨fuel, rfl⟩ := Nat.exists_eq_succ_of_ne_zero hn
  have hstep : a + min (pageSize - (a - pageBase a)) (a + (fuel + 1) - a) = a + (fuel + 1) := by
    unfold pageBase
    omega
  rw [accessRange, if_neg (by omega), accessLoop, if_pos (by omega), hstep, accessLoop_self]
  cases m.entry (pageBase a) with
  | none => rfl
  | some e =>
      dsimp only
      split <;> rfl

/-- A page after the one of `a` begins beyond the access. -/
theorem next_page (hm : m.Wf) {p : GMPage} (hp : pageAt m.pages (pageBase a) = some p)
    (hpage : n ≤ pageSize - a % pageSize) {q : GMPage}
    (hq : m.pages[m.lower (pageBase a) + 1]? = some q) : a + n ≤ q.address := by
  obtain ⟨hi, hpi⟩ := List.getElem?_eq_some_iff.1 (getElem?_lower hm hp)
  obtain ⟨hj, hqj⟩ := List.getElem?_eq_some_iff.1 hq
  have hlt : p.address < q.address := by
    rw [← hpi, ← hqj]
    exact List.pairwise_iff_getElem.1 hm.sorted _ _ hi hj (Nat.lt_succ_self _)
  have haddr := (mem_of_pageAt hp).2
  have hmod := hm.aligned q (List.mem_of_getElem? hq)
  have hbase := pageBase_mod a
  have hle := pageBase_le a
  rw [haddr] at hlt
  unfold pageBase pageSize at *
  omega

theorem allocateLoop_one (hm : m.Wf) (heap : Heap) {p : GMPage}
    (hp : pageAt m.pages (pageBase a) = some p) (hn : n ≠ 0)
    (hpage : n ≤ pageSize - a % pageSize) :
    allocateLoop heap (a + n) (m.count - m.lower (pageBase a)) 0 (m.lower (pageBase a)) m.pages =
      if p.bytes.isNone ∧ heap 0 = false then (false, m.pages)
      else (true, m.pages.set (m.lower (pageBase a))
        { p with bytes := some (p.bytes.getD zeroPage) }) := by
  have hget := getElem?_lower hm hp
  obtain ⟨hi, hpi⟩ := List.getElem?_eq_some_iff.1 hget
  obtain ⟨fuel, hfuel⟩ : ∃ fuel, m.count - m.lower (pageBase a) = fuel + 1 :=
    ⟨m.count - m.lower (pageBase a) - 1, by unfold count; omega⟩
  have hlt : p.address < a + n := by
    have := (mem_of_pageAt hp).2
    have := pageBase_le a
    omega
  rw [hfuel, allocateLoop, hget]
  dsimp only
  rw [if_pos hlt]
  cases hb : p.bytes with
  | some bytes =>
      have hset : m.pages.set (m.lower (pageBase a)) { p with bytes := some bytes } = m.pages := by
        have hself : { p with bytes := some bytes } = p := by rw [← hb]
        rw [hself, ← hpi, List.set_getElem_self]
      dsimp only [Option.isNone_some, Option.getD_some]
      rw [if_neg (by simp), hset]
      exact allocateLoop_stop heap (fun q hq => next_page hm hp hpage hq) _ _
  | none =>
      dsimp only [Option.isNone_none, Option.getD_none]
      cases hh : heap 0 with
      | false => rfl
      | true =>
          rw [if_pos rfl, if_neg (by simp)]
          refine allocateLoop_stop heap (fun q hq => next_page hm hp hpage (q := q) ?_) _ _
          rwa [List.getElem?_set_ne (by omega)] at hq

theorem chunk_one (hpage : n ≤ pageSize - a % pageSize) :
    min (pageSize - (a - pageBase a)) n = n := by
  unfold pageBase
  omega

theorem accessRange_page (hm : m.Wf) {p : GMPage} (hp : pageAt m.pages (pageBase a) = some p)
    (hn : n ≠ 0) (hpage : n ≤ pageSize - a % pageSize) (hmax : n ≤ uint64Max - a) :
    m.accessRange t a n permission =
      if denied t permission p.prot p.jit then (.protection, { m with faultAddress := a })
      else (.ok, { m with faultAddress := 0 }) := by
  rw [accessRange_one hn hpage hmax, entry_eq hm, hp]
  rfl

theorem loadLoop_one (hm : m.Wf) {p : GMPage} (hp : pageAt m.pages (pageBase a) = some p)
    (hn : n ≠ 0) (hpage : n ≤ pageSize - a % pageSize) :
    m.loadLoop n a n = pageLoad (p.bytes.getD zeroPage) (a % pageSize) n := by
  obtain ⟨fuel, rfl⟩ := Nat.exists_eq_succ_of_ne_zero hn
  rw [loadLoop, if_neg hn]
  dsimp only
  rw [chunk_one hpage, entry_eq hm, hp]
  dsimp only [Option.map_some]
  rw [Nat.sub_self, loadLoop_nil, List.append_nil, sub_pageBase]

theorem storeLoop_one (hm : m.Wf) {p : GMPage} (hp : pageAt m.pages (pageBase a) = some p)
    (buffer : Buffer) (executable : Bool) (hn : n ≠ 0) (hpage : n ≤ pageSize - a % pageSize) :
    storeLoop n m a buffer n executable =
      (m.storePage (m.lower (pageBase a)) p (a % pageSize) n buffer,
        executable || (p.prot.setWidth 32 &&& GM.EXEC != 0#32)) := by
  obtain ⟨fuel, rfl⟩ := Nat.exists_eq_succ_of_ne_zero hn
  rw [storeLoop, if_neg hn]
  dsimp only
  rw [chunk_one hpage, entry_eq hm, hp]
  dsimp only [Option.map_some]
  rw [Nat.sub_self, storeLoop_nil, sub_pageBase]

/-- A page given storage is found where it was. -/
theorem pageAt_allocated (hm : m.Wf) {p : GMPage} (hp : pageAt m.pages (pageBase a) = some p)
    (bytes : PageBytes) (f : ℕ) :
    let m' := { m with
      pages := m.pages.set (m.lower (pageBase a)) { p with bytes := some bytes }
      faultAddress := f }
    m'.Wf ∧ m'.lower (pageBase a) = m.lower (pageBase a) ∧
      pageAt m'.pages (pageBase a) = some { p with bytes := some bytes } := by
  have hget := getElem?_lower hm hp
  have hwf := hm.set (q := { p with bytes := some bytes }) hget rfl
  refine ⟨⟨hwf.sorted, hwf.aligned, hwf.bounded⟩, ?_, ?_⟩
  · exact lower_congr (map_set_eq GMPage.address (q := { p with bytes := some bytes }) hget rfl) _
  · dsimp only
    rw [pageAt_set hm.sorted (q := { p with bytes := some bytes }) hget rfl,
      if_pos (mem_of_pageAt hp).2.symm]

/-- Where both paths of `copy` apply they do the same, the fault address and the
generations included. -/
theorem copyPage_eq_copyRange (hm : m.Wf) (heap : Heap) (t : Option GMThread)
    (buffer : Option Buffer) (permission : Prot) (write : Bool) (hn : n ≠ 0)
    (hpage : n ≤ pageSize - a % pageSize) (hmax : n ≤ uint64Max - a) :
    m.copyPage heap t a buffer n permission write =
      m.copyRange heap t a buffer n permission write := by
  rw [copyPage, show a - a % pageSize = pageBase a from rfl, entry_eq hm]
  unfold copyRange
  cases hp : pageAt m.pages (pageBase a) with
  | none =>
      have haccess : m.accessRange t a n permission = _ := accessRange_one hn hpage hmax
      rw [entry_eq hm, hp] at haccess
      rw [haccess]
      rfl
  | some p =>
      have haccess : m.accessRange t a n permission = _ := accessRange_page hm hp hn hpage hmax
      dsimp only [Option.map_some]
      by_cases hd : denied t permission p.prot p.jit = true
      · rw [if_pos hd] at haccess
        rw [haccess, if_pos hd]
        rfl
      have hgo : ¬ ((GMResult.ok ≠ .ok) ∨ n = 0) := by simp [hn]
      rw [if_neg hd] at haccess
      rw [haccess, if_neg hd]
      dsimp only
      rw [if_neg hgo]
      cases buffer with
      | none => rfl
      | some buffer =>
          have hwf : Wf { m with faultAddress := 0 } := (sameButFault_fault m 0).wf hm
          cases write with
          | false =>
              dsimp only
              rw [if_neg Bool.false_ne_true, if_neg Bool.false_ne_true,
                loadLoop_one (m := { m with faultAddress := 0 }) hwf hp hn hpage]
          | true =>
              have halloc := allocateLoop_one (m := { m with faultAddress := 0 }) hwf heap hp hn
                hpage
              dsimp only at halloc ⊢
              rw [if_pos rfl, if_pos rfl, halloc]
              by_cases hmem : p.bytes.isNone = true ∧ heap 0 = false
              · rw [if_pos hmem, if_pos hmem]
                rfl
              · rw [if_neg hmem, if_neg hmem]
                obtain ⟨hwf', hlow, hp'⟩ := pageAt_allocated hm hp (p.bytes.getD zeroPage) 0
                have hstore := storeLoop_one hwf' hp' buffer false hn hpage
                rw [hlow] at hstore
                dsimp only at hstore ⊢
                rw [if_neg (show ¬ (true = false) by simp)]
                simp only [lower_fault, hstore, storePage, List.set_set, Option.getD_some,
                  Bool.false_or, bne_iff_ne]

end OnePage

/-! ## Reads, writes and fetches -/

/-- What a read has to answer and give: the page-by-page result, and on success
the bytes of the range. -/
structure Loads (m : GuestMemory) (t : Option GMThread) (permission : Prot) (a n : ℕ)
    (answer : GMResult × GuestMemory × List UInt8) : Prop where
  result : m.PageByPage t permission a n answer.1
  unchanged : ∀ b, answer.2.1.viewAt b = m.viewAt b
  bytes : answer.1 = .ok → answer.2.2 = (List.range n).map fun i => m.byteAt (a + i)

/-- What a write has to answer and do: the page-by-page result, unless the host
refuses storage for a range that is allowed; nothing when it fails; and on
success the bytes of the range and no others. -/
structure Stores (m : GuestMemory) (heap : Heap) (t : Option GMThread) (permission : Prot)
    (a n : ℕ) (buffer : Buffer) (answer : GMResult × GuestMemory) : Prop where
  result : m.PageByPage t permission a n answer.1 ∨
    answer.1 = .nomem ∧ m.PageByPage t permission a n .ok ∧ ∃ k, heap k = false
  failed : answer.1 ≠ .ok → ∀ b, answer.2.viewAt b = m.viewAt b
  bytes : answer.1 = .ok → ∀ x,
    answer.2.byteAt x = if a ≤ x ∧ x < a + n then buffer (x - a) else m.byteAt x
  permissions : ∀ b, (answer.2.viewAt b).map (fun v => (v.prot, v.maxprot, v.jit)) =
    (m.viewAt b).map fun v => (v.prot, v.maxprot, v.jit)

/-- Every access of the memory succeeds as a whole or changes nothing. -/
structure AllOrNothing (m : GuestMemory) : Prop where
  read : ∀ a n buffer, m.Loads none GM.READ a n (m.gmRead a (some buffer) n)
  write : ∀ heap t a n buffer,
    m.Stores heap t GM.WRITE a n buffer (m.gmWrite heap t a (some buffer) n)
  populate : ∀ heap a n buffer,
    m.Stores heap none 0#32 a n buffer (m.gmPopulate heap a (some buffer) n)
  fetch : ∀ t a, a % 4 = 0 → ∃ bytes,
    m.Loads t GM.EXEC a 4 ((m.gmFetch t a).1, (m.gmFetch t a).2.1, bytes) ∧
    (m.gmFetch t a).2.2 = BitVec.ofNat 32 (littleEndian bytes)
  misaligned : ∀ t a, a % 4 ≠ 0 →
    (m.gmFetch t a).1 = .invalid ∧ ∀ b, (m.gmFetch t a).2.1.viewAt b = m.viewAt b
  null : ∀ heap t a n permission write, n ≠ 0 →
    (m.copy heap t a none n permission write).1 ≠ .ok ∧
    ∀ b, (m.copy heap t a none n permission write).2.1.viewAt b = m.viewAt b
  zero : ∀ x p, pageAt m.pages (pageBase x) = some p → p.bytes = none → m.byteAt x = 0
  paths : ∀ heap t a buffer n permission write,
    n ≠ 0 → n ≤ pageSize - a % pageSize → n ≤ uint64Max - a →
    m.copyPage heap t a buffer n permission write = m.copyRange heap t a buffer n permission write

theorem loads_copy {m : GuestMemory} (hm : m.Wf) (heap : Heap) (t : Option GMThread) (a n : ℕ)
    (buffer : Buffer) (permission : Prot) :
    m.Loads t permission a n (m.copy heap t a (some buffer) n permission false) := by
  obtain ⟨f, heq⟩ := copy_read hm heap t a buffer n permission
  rw [heq]
  exact ⟨pageByPage_answer m t permission a n, fun _ => rfl, fun hok => if_pos hok⟩

theorem stores_copy {m : GuestMemory} (hm : m.Wf) (heap : Heap) (t : Option GMThread) (a n : ℕ)
    (buffer : Buffer) (permission : Prot) :
    m.Stores heap t permission a n buffer
      ((m.copy heap t a (some buffer) n permission true).1,
        (m.copy heap t a (some buffer) n permission true).2.1) := by
  obtain ⟨r, m', heq, -, hcases⟩ := copy_write hm heap t a (some buffer) n permission
  have hanswer := pageByPage_answer m t permission a n
  rw [heq]
  rcases hcases with ⟨hsame, hbad, rfl⟩ | ⟨hsame, hn, hok, ⟨hnull, -⟩ | ⟨rfl, hheap⟩⟩ |
    ⟨b, hb, hn, hok, rfl, hwritten⟩
  · refine ⟨.inl hanswer, fun _ => hsame.views, ?_, fun b => by rw [hsame.views]⟩
    intro hok x
    have hzero : n = 0 := hbad.resolve_left (not_not.2 hok)
    rw [hsame.byteAt, if_neg (by omega)]
  · cases hnull
  · rw [hok] at hanswer
    exact ⟨.inr ⟨rfl, hanswer, hheap⟩, fun _ => hsame.views, nofun, fun b => by rw [hsame.views]⟩
  · cases hb
    rw [hok] at hanswer
    refine ⟨.inl hanswer, fun hno => absurd rfl hno, ?_, ?_⟩
    · intro _ x
      refine hwritten.byteAt fun h1 h2 => ?_
      obtain ⟨v, hv, -⟩ := exists_view_of_answer hok h1 h2
      rw [hv]
      exact Option.some_ne_none v
    · intro b
      rw [hwritten.views, Option.map_map]
      rfl

theorem copy_null_refused {m : GuestMemory} (hm : m.Wf) (heap : Heap) (t : Option GMThread)
    (a : ℕ) {n : ℕ} (permission : Prot) (write : Bool) (hn : n ≠ 0) :
    (m.copy heap t a none n permission write).1 ≠ .ok ∧
      ∀ b, (m.copy heap t a none n permission write).2.1.viewAt b = m.viewAt b := by
  rw [copy_null]
  obtain ⟨r, m', heq, -, hcases⟩ := copy_write hm heap t a none n permission
  rw [heq]
  rcases hcases with ⟨hsame, hbad, rfl⟩ | ⟨hsame, -, -, ⟨-, rfl⟩ | ⟨rfl, -⟩⟩ | ⟨b, hb, -⟩
  · exact ⟨hbad.resolve_right hn, hsame.views⟩
  · exact ⟨nofun, hsame.views⟩
  · exact ⟨nofun, hsame.views⟩
  · cases hb

theorem byteAt_demandZero {m : GuestMemory} {x : ℕ} {p : GMPage}
    (hp : pageAt m.pages (pageBase x) = some p) (hbytes : p.bytes = none) : m.byteAt x = 0 := by
  unfold byteAt viewAt view
  rw [hp, Option.map_some, hbytes]
  rfl

/-- In every reachable memory an access succeeds as a whole or changes nothing. -/
theorem access_all_or_nothing {m : GuestMemory} (h : m.Reachable) : m.AllOrNothing where
  read a n buffer := loads_copy h.wf _ none a n buffer GM.READ
  write heap t a n buffer := stores_copy h.wf heap t a n buffer GM.WRITE
  populate heap a n buffer := stores_copy h.wf heap none a n buffer 0#32
  fetch t a ha := by
    have hloads := loads_copy h.wf (fun _ => true) t a 4 (fun _ => 0) GM.EXEC
    unfold gmFetch
    rw [if_neg (not_not.2 ha)]
    exact ⟨_, hloads, rfl⟩
  misaligned t a ha := by
    unfold gmFetch
    rw [if_pos ha]
    exact ⟨rfl, fun _ => rfl⟩
  null heap t a n permission write hn := copy_null_refused h.wf heap t a permission write hn
  zero x p hp hbytes := byteAt_demandZero hp hbytes
  paths heap t a buffer n permission write hn hpage hmax :=
    copyPage_eq_copyRange h.wf heap t buffer permission write hn hpage hmax

/-- A page that may be read and written. -/
theorem access_all_or_nothing_page :
    ((fresh.gmMap (fun _ => true) 16384 16384 3#32 3#32 false false).2).AllOrNothing :=
  access_all_or_nothing (Reachable.fresh.call (.map (fun _ => true) 16384 16384 3#32 3#32 false false))

end GuestMemory

end Tolkara
