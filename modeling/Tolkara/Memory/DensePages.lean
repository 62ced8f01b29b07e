import Mathlib.Data.Finset.Card
import Tolkara.Memory.Dense

/-!
# The page table of the dense memory

The binary search of the dense memory finds the cut of the sorted page array at
an address. From that follows what each operation on mappings does, read as a
partial function from page addresses to pages: `pageAt`. A map, unmap or
protect changes it on the pages of its range and nowhere else.
-/

namespace Tolkara

namespace GuestMemory

def pageAt (pages : List GMPage) (b : ℕ) : Option GMPage :=
  pages.find? fun p => p.address = b

/-- Page addresses are aligned, inside the address space and strictly
increasing. -/
structure Wf (m : GuestMemory) : Prop where
  sorted : m.pages.Pairwise fun p q => p.address < q.address
  aligned : ∀ p ∈ m.pages, p.address % pageSize = 0
  bounded : ∀ p ∈ m.pages, p.address + pageSize ≤ uint64Max

theorem wf_fresh : fresh.Wf :=
  ⟨by simp [fresh], by simp [fresh], by simp [fresh]⟩

/-! ## Lookup by address -/

@[simp] theorem pageAt_nil (b : ℕ) : pageAt [] b = none := rfl

theorem pageAt_append (l l' : List GMPage) (b : ℕ) :
    pageAt (l ++ l') b = (pageAt l b).or (pageAt l' b) := by
  simp [pageAt]

theorem pageAt_eq_none_iff {l : List GMPage} {b : ℕ} :
    pageAt l b = none ↔ ∀ p ∈ l, p.address ≠ b := by
  simp [pageAt]

theorem mem_of_pageAt {l : List GMPage} {b : ℕ} {p : GMPage} (h : pageAt l b = some p) :
    p ∈ l ∧ p.address = b := by
  refine ⟨List.mem_of_find?_eq_some h, ?_⟩
  simpa using List.find?_some h

theorem pageAt_of_mem {l : List GMPage}
    (h : l.Pairwise fun p q => p.address < q.address) {p : GMPage} (hp : p ∈ l) :
    pageAt l p.address = some p := by
  induction l with
  | nil => simp at hp
  | cons q l ih =>
      rw [List.pairwise_cons] at h
      rcases List.mem_cons.1 hp with rfl | hmem
      · simp [pageAt]
      · have hne : q.address ≠ p.address := (h.1 p hmem).ne
        have := ih h.2 hmem
        simpa [pageAt, hne] using this

theorem pageAt_freshPages (a count : ℕ) (prot maxprot : Prot) (jit : Bool) (b : ℕ)
    (ha : a % pageSize = 0) :
    pageAt (freshPages a count prot maxprot jit) b =
      if InRange a (count * pageSize) b then
        some ⟨b, none, prot.setWidth 8, maxprot.setWidth 8, jit⟩
      else none := by
  have hmem : ∀ p ∈ freshPages a count prot maxprot jit, ∃ i < count,
      p = ⟨a + i * pageSize, none, prot.setWidth 8, maxprot.setWidth 8, jit⟩ := by
    intro p hp
    obtain ⟨i, hi, rfl⟩ := List.mem_map.1 hp
    exact ⟨i, List.mem_range.1 hi, rfl⟩
  split
  · rename_i hb
    cases hf : pageAt (freshPages a count prot maxprot jit) b with
    | none =>
        rw [pageAt_eq_none_iff] at hf
        have hi : (b - a) / pageSize < count := by
          have := hb.2.1
          have := hb.1
          rw [Nat.div_lt_iff_lt_mul (by decide)]
          omega
        have hback : a + (b - a) / pageSize * pageSize = b := by
          unfold InRange pageSize at *
          omega
        exact absurd hback (hf _ (List.mem_map.2 ⟨_, List.mem_range.2 hi, rfl⟩))
    | some p =>
        obtain ⟨hp, rfl⟩ := mem_of_pageAt hf
        obtain ⟨i, -, rfl⟩ := hmem p hp
        rfl
  · rename_i hb
    rw [pageAt_eq_none_iff]
    intro p hp heq
    obtain ⟨i, hi, rfl⟩ := hmem p hp
    apply hb
    dsimp only at heq
    subst heq
    unfold InRange pageSize at *
    omega

/-! ## The binary search -/

/-- A sorted page array is cut in two at every address. -/
theorem exists_split {l : List GMPage} (h : l.Pairwise fun p q => p.address < q.address)
    (a : ℕ) : ∃ l₁ l₂, l = l₁ ++ l₂ ∧ (∀ p ∈ l₁, p.address < a) ∧
      ∀ p ∈ l₂, a ≤ p.address := by
  induction l with
  | nil => exact ⟨[], [], rfl, by simp, by simp⟩
  | cons q l ih =>
      rw [List.pairwise_cons] at h
      by_cases hq : q.address < a
      · obtain ⟨l₁, l₂, rfl, h1, h2⟩ := ih h.2
        refine ⟨q :: l₁, l₂, rfl, ?_, h2⟩
        intro p hp
        rcases List.mem_cons.1 hp with rfl | hp
        · exact hq
        · exact h1 p hp
      · refine ⟨[], q :: l, rfl, by simp, ?_⟩
        intro p hp
        rcases List.mem_cons.1 hp with rfl | hp
        · omega
        · have := h.1 p hp
          omega

theorem lowerLoop_eq {l₁ l₂ : List GMPage} {a : ℕ} (h1 : ∀ p ∈ l₁, p.address < a)
    (h2 : ∀ p ∈ l₂, a ≤ p.address) :
    ∀ fuel lo hi, lo ≤ l₁.length → l₁.length ≤ hi → hi ≤ (l₁ ++ l₂).length →
      hi - lo ≤ fuel → lowerLoop (l₁ ++ l₂) a fuel lo hi = l₁.length := by
  intro fuel
  induction fuel with
  | zero =>
      intro lo hi hlo hhi _ hfuel
      simp only [lowerLoop]
      omega
  | succ fuel ih =>
      intro lo hi hlo hhi hlen hfuel
      rw [lowerLoop]
      split
      · rename_i hlt
        dsimp only
        have hmid : lo + (hi - lo) / 2 < (l₁ ++ l₂).length := by omega
        rw [List.getElem?_eq_getElem hmid]
        dsimp only
        split
        · rename_i hadd
          have hside : lo + (hi - lo) / 2 < l₁.length := by
            by_contra hge
            rw [List.getElem_append_right (by omega)] at hadd
            have := h2 _ (List.getElem_mem (by
              rw [List.length_append] at hmid
              omega : lo + (hi - lo) / 2 - l₁.length < l₂.length))
            omega
          exact ih _ _ (by omega) hhi hlen (by omega)
        · rename_i hadd
          have hside : l₁.length ≤ lo + (hi - lo) / 2 := by
            by_contra hge
            rw [List.getElem_append_left (by omega)] at hadd
            have := h1 _ (List.getElem_mem (by omega : lo + (hi - lo) / 2 < l₁.length))
            omega
          exact ih _ _ hlo hside (by omega) (by omega)
      · omega

theorem lower_eq_length {m : GuestMemory} {l₁ l₂ : List GMPage} {a : ℕ}
    (h : m.pages = l₁ ++ l₂) (h1 : ∀ p ∈ l₁, p.address < a)
    (h2 : ∀ p ∈ l₂, a ≤ p.address) : m.lower a = l₁.length := by
  rw [lower, count, h]
  exact lowerLoop_eq h1 h2 _ 0 _ (by omega) (by simp) (by simp) (by omega)

/-- The two searches of a mapping operation cut the page array in three: below,
inside and above the range. -/
theorem exists_cut {m : GuestMemory} (hm : m.Wf) {a b : ℕ} (hab : a ≤ b) :
    ∃ l₁ l₂ l₃, m.pages = l₁ ++ l₂ ++ l₃ ∧ (∀ p ∈ l₁, p.address < a) ∧
      (∀ p ∈ l₂, a ≤ p.address ∧ p.address < b) ∧ (∀ p ∈ l₃, b ≤ p.address) ∧
      m.lower a = l₁.length ∧ m.lower b = l₁.length + l₂.length := by
  obtain ⟨l₁, l', hl, h1, h2⟩ := exists_split hm.sorted a
  have hs' : l'.Pairwise fun p q => p.address < q.address := by
    have := hm.sorted
    rw [hl, List.pairwise_append] at this
    exact this.2.1
  obtain ⟨l₂, l₃, rfl, h3, h4⟩ := exists_split hs' b
  refine ⟨l₁, l₂, l₃, by rw [hl, List.append_assoc], h1, ?_, h4,
    lower_eq_length hl h1 h2, ?_⟩
  · intro p hp
    exact ⟨h2 p (by simp [hp]), h3 p hp⟩
  · have hl' : m.pages = (l₁ ++ l₂) ++ l₃ := by rw [hl, List.append_assoc]
    have hbelow : ∀ p ∈ l₁ ++ l₂, p.address < b := by
      intro p hp
      rcases List.mem_append.1 hp with hp | hp
      · have := h1 p hp
        omega
      · exact h3 p hp
    simpa using lower_eq_length hl' hbelow h4

theorem take_drop_of_cut {m : GuestMemory} {a b : ℕ} {l₁ l₂ l₃ : List GMPage}
    (hcut : m.pages = l₁ ++ l₂ ++ l₃) (hlo : m.lower a = l₁.length)
    (hhi : m.lower b = l₁.length + l₂.length) :
    m.pages.take (m.lower a) = l₁ ∧ m.pages.drop (m.lower b) = l₃ := by
  constructor
  · rw [hlo, hcut, List.append_assoc, List.take_left]
  · rw [hhi, hcut, ← List.length_append, List.drop_left]

/-- The lookup of `access_range` and `copy` finds the page at its address. -/
theorem entry_eq {m : GuestMemory} (hm : m.Wf) (b : ℕ) :
    m.entry b = (pageAt m.pages b).map fun p => (m.lower b, p) := by
  obtain ⟨l₁, l₂, hl, h1, h2⟩ := exists_split hm.sorted b
  have hlow := lower_eq_length hl h1 h2
  have hnone : pageAt l₁ b = none := by
    rw [pageAt_eq_none_iff]
    intro p hp
    exact (h1 p hp).ne
  unfold entry
  rw [hlow, hl, List.getElem?_append_right le_rfl, Nat.sub_self, pageAt_append, hnone,
    Option.none_or]
  cases l₂ with
  | nil => simp
  | cons q l₂ =>
      dsimp only [List.getElem?_cons_zero]
      by_cases hq : q.address = b
      · simp [pageAt, hq]
      · have hrest : pageAt (q :: l₂) b = none := by
          rw [pageAt_eq_none_iff]
          intro p hp
          have hs := hm.sorted
          rw [hl, List.pairwise_append] at hs
          rcases List.mem_cons.1 hp with rfl | hp
          · exact hq
          · have := (List.pairwise_cons.1 hs.2.1).1 p hp
            have := h2 q (by simp)
            omega
        simp [hq, hrest]

theorem getElem?_lower {m : GuestMemory} (hm : m.Wf) {b : ℕ} {p : GMPage}
    (h : pageAt m.pages b = some p) : m.pages[m.lower b]? = some p := by
  have he := entry_eq hm b
  rw [h, entry] at he
  cases hi : m.pages[m.lower b]? with
  | none => simp [hi] at he
  | some q =>
      rw [hi] at he
      dsimp only at he
      split at he
      · simp only [Option.map_some, Option.some.injEq, Prod.mk.injEq, true_and] at he
        rw [he]
      · cases he

/-! ## Replacing one page -/

theorem pageAt_set {l : List GMPage} (h : l.Pairwise fun p q => p.address < q.address)
    {i : ℕ} {p q : GMPage} (hi : l[i]? = some p) (hq : q.address = p.address) (b : ℕ) :
    pageAt (l.set i q) b = if b = p.address then some q else pageAt l b := by
  induction l generalizing i with
  | nil => simp at hi
  | cons r l ih =>
      rw [List.pairwise_cons] at h
      cases i with
      | zero =>
          obtain rfl : r = p := by simpa using hi
          by_cases hb : b = r.address
          · simp [pageAt, hb, hq]
          · have hb' : r.address ≠ b := fun h => hb h.symm
            simp [pageAt, hb, hq, hb']
      | succ i =>
          have hi' : l[i]? = some p := by simpa using hi
          have hlt := h.1 p (List.mem_of_getElem? hi')
          rw [List.set_cons_succ]
          have ih' := ih h.2 hi'
          by_cases hr : r.address = b
          · have hb : b ≠ p.address := by omega
            simp [pageAt, hr, hb]
          · simpa [pageAt, hr] using ih'

theorem Wf.of_addresses {m m' : GuestMemory} (hm : m.Wf)
    (h : m'.pages.map GMPage.address = m.pages.map GMPage.address) : m'.Wf := by
  have hmem : ∀ r ∈ m'.pages, ∃ s ∈ m.pages, s.address = r.address := by
    intro r hr
    have : r.address ∈ m.pages.map GMPage.address := by
      rw [← h]
      exact List.mem_map_of_mem hr
    exact List.mem_map.1 this
  constructor
  · have hs := hm.sorted
    rw [← List.pairwise_map (R := (· < ·))] at hs ⊢
    rwa [h]
  · intro r hr
    obtain ⟨s, hs, hsr⟩ := hmem r hr
    rw [← hsr]
    exact hm.aligned s hs
  · intro r hr
    obtain ⟨s, hs, hsr⟩ := hmem r hr
    rw [← hsr]
    exact hm.bounded s hs

theorem map_set_eq {β : Type*} (f : GMPage → β) {l : List GMPage} {i : ℕ} {p q : GMPage}
    (hi : l[i]? = some p) (hq : f q = f p) : (l.set i q).map f = l.map f := by
  rw [List.map_set, hq]
  apply List.ext_getElem?
  intro j
  rw [List.getElem?_set]
  split
  · rename_i hj
    subst hj
    obtain ⟨hlen, hget⟩ := List.getElem?_eq_some_iff.1 hi
    simp [hlen, hget]
  · rfl

theorem Wf.set {m : GuestMemory} (hm : m.Wf) {i : ℕ} {p q : GMPage}
    (hi : m.pages[i]? = some p) (hq : q.address = p.address) :
    Wf { m with pages := m.pages.set i q } :=
  hm.of_addresses (map_set_eq GMPage.address hi hq)

/-! ## Map, unmap and protect -/

section Cut

variable {l₁ l₂ l₃ : List GMPage} {a n : ℕ}

theorem pageAt_cut_outside (h2 : ∀ p ∈ l₂, a ≤ p.address ∧ p.address < a + n)
    (l : List GMPage)
    (hl : ∀ p ∈ l, InRange a n p.address) (b : ℕ)
    (ha : ∀ p ∈ l₂, p.address % pageSize = 0) (hb : ¬ InRange a n b) :
    pageAt (l₁ ++ l ++ l₃) b = pageAt (l₁ ++ l₂ ++ l₃) b := by
  have hnew : pageAt l b = none := by
    rw [pageAt_eq_none_iff]
    rintro p hp rfl
    exact hb (hl p hp)
  have hold : pageAt l₂ b = none := by
    rw [pageAt_eq_none_iff]
    rintro p hp rfl
    exact hb ⟨(h2 p hp).1, (h2 p hp).2, ha p hp⟩
  simp [pageAt_append, hnew, hold]

theorem pageAt_cut_inside (h1 : ∀ p ∈ l₁, p.address < a)
    (h3 : ∀ p ∈ l₃, a + n ≤ p.address) (l : List GMPage) (b : ℕ) (hb : InRange a n b) :
    pageAt (l₁ ++ l ++ l₃) b = pageAt l b := by
  have hbelow : pageAt l₁ b = none := by
    rw [pageAt_eq_none_iff]
    intro p hp heq
    have := h1 p hp
    have := hb.1
    omega
  have habove : pageAt l₃ b = none := by
    rw [pageAt_eq_none_iff]
    intro p hp heq
    have := h3 p hp
    have := hb.2.1
    omega
  simp [pageAt_append, hbelow, habove]

theorem wf_cut {m : GuestMemory} (hm : m.Wf) (hcut : m.pages = l₁ ++ l₂ ++ l₃)
    (h1 : ∀ p ∈ l₁, p.address < a) (h3 : ∀ p ∈ l₃, a + n ≤ p.address)
    (hn : a + n ≤ uint64Max) (han : (a + n) % pageSize = 0) {l : List GMPage}
    (hs : l.Pairwise fun p q => p.address < q.address)
    (hl : ∀ p ∈ l, InRange a n p.address) (g c f : ℕ) :
    Wf ⟨l₁ ++ l ++ l₃, g, c, f⟩ := by
  have hold := hm.sorted
  rw [hcut, List.pairwise_append, List.pairwise_append] at hold
  constructor
  · rw [List.pairwise_append, List.pairwise_append]
    refine ⟨⟨hold.1.1, hs, ?_⟩, hold.2.1, ?_⟩
    · intro p hp q hq
      have := h1 p hp
      have := (hl q hq).1
      omega
    · intro p hp q hq
      have := h3 q hq
      rcases List.mem_append.1 hp with hp | hp
      · have := h1 p hp
        omega
      · have := (hl p hp).2.1
        omega
  · intro p hp
    rcases List.mem_append.1 hp with hp | hp
    · rcases List.mem_append.1 hp with hp | hp
      · exact hm.aligned p (by rw [hcut]; simp [hp])
      · exact (hl p hp).2.2
    · exact hm.aligned p (by rw [hcut]; simp [hp])
  · intro p hp
    rcases List.mem_append.1 hp with hp | hp
    · rcases List.mem_append.1 hp with hp | hp
      · exact hm.bounded p (by rw [hcut]; simp [hp])
      · have := hl p hp
        unfold InRange pageSize at *
        omega
    · exact hm.bounded p (by rw [hcut]; simp [hp])

end Cut

theorem pairwise_freshPages (a count : ℕ) (prot maxprot : Prot) (jit : Bool) :
    (freshPages a count prot maxprot jit).Pairwise fun p q => p.address < q.address := by
  rw [freshPages, List.pairwise_map]
  refine List.pairwise_lt_range.imp ?_
  intro i j hij
  dsimp only
  unfold pageSize
  omega

/-- A page array holds at most as many pages as the address space. -/
theorem count_le {m : GuestMemory} (hm : m.Wf) : m.count ≤ 2 ^ 50 := by
  have hnodup : (m.pages.map fun p => p.address / pageSize).Nodup := by
    rw [List.Nodup, List.pairwise_map]
    refine (List.Pairwise.imp_of_mem ?_ hm.sorted)
    intro p q hp hq hlt
    have := hm.aligned p hp
    have := hm.aligned q hq
    unfold pageSize at *
    omega
  have hsub : (m.pages.map fun p => p.address / pageSize).toFinset ⊆ Finset.range (2 ^ 50) := by
    intro k hk
    obtain ⟨p, hp, rfl⟩ := List.mem_map.1 (List.mem_toFinset.1 hk)
    have := hm.bounded p hp
    rw [Finset.mem_range]
    unfold pageSize uint64Max at *
    omega
  have hcard := Finset.card_le_card hsub
  rw [List.toFinset_card_of_nodup hnodup, List.length_map, Finset.card_range] at hcard
  exact hcard

/-- The two indices of a mapping operation differ exactly when some page of the
range is mapped. -/
theorem lower_eq_lower_iff {m : GuestMemory} (hm : m.Wf) (a n : ℕ) :
    m.lower a = m.lower (a + n) ↔ ∀ b, InRange a n b → pageAt m.pages b = none := by
  obtain ⟨l₁, l₂, l₃, hcut, h1, h2, h3, hlo, hhi⟩ := exists_cut hm (Nat.le_add_right a n)
  rw [hlo, hhi, hcut]
  constructor
  · intro h b hb
    have hnil : l₂ = [] := List.eq_nil_of_length_eq_zero (by omega)
    rw [pageAt_cut_inside h1 h3 l₂ b hb, hnil, pageAt_nil]
  · intro h
    cases l₂ with
    | nil => simp
    | cons q l₂ =>
        exfalso
        have hq := h2 q (by simp)
        have hal := hm.aligned q (by rw [hcut]; simp)
        have hb : InRange a n q.address := ⟨hq.1, hq.2, hal⟩
        have hnone := h q.address hb
        rw [pageAt_cut_inside h1 h3 _ _ hb] at hnone
        simp [pageAt] at hnone

theorem gmMap_spec {m : GuestMemory} (hm : m.Wf) (a n : ℕ) (prot maxprot : Prot)
    (jit replace : Bool) :
    (¬ (PageRange a n ∧ ProtOk prot maxprot) ∧
        gmMap (fun _ => true) m a n prot maxprot jit replace = (.invalid, m)) ∨
    (PageRange a n ∧ ProtOk prot maxprot ∧ replace = false ∧
        (∃ b, InRange a n b ∧ pageAt m.pages b ≠ none) ∧
        gmMap (fun _ => true) m a n prot maxprot jit replace = (.overlap, m)) ∨
    (PageRange a n ∧ ProtOk prot maxprot ∧
        (replace = false → ∀ b, InRange a n b → pageAt m.pages b = none) ∧
        ∃ m', gmMap (fun _ => true) m a n prot maxprot jit replace = (.ok, m') ∧ m'.Wf ∧
          ∀ b, pageAt m'.pages b =
            if InRange a n b then
              some ⟨b, none, prot.setWidth 8, maxprot.setWidth 8, jit⟩
            else pageAt m.pages b) := by
  unfold gmMap
  by_cases hr : PageRange a n ∧ ProtOk prot maxprot
  swap
  · left
    refine ⟨hr, if_pos ?_⟩
    tauto
  rw [if_neg (by tauto)]
  right
  dsimp only
  by_cases ho : replace = false ∧ m.lower a ≠ m.lower (a + n)
  · left
    rw [if_pos ho]
    refine ⟨hr.1, hr.2, ho.1, ?_, rfl⟩
    by_contra hall
    push Not at hall
    exact ho.2 ((lower_eq_lower_iff hm a n).2 hall)
  right
  rw [if_neg ho]
  refine ⟨hr.1, hr.2, ?_, ?_⟩
  · intro hrep
    apply (lower_eq_lower_iff hm a n).1
    by_contra hne
    exact ho ⟨hrep, hne⟩
  have hfit : ¬ n / pageSize > uint64Max / sizeofGMPage -
      (m.count - (m.lower (a + n) - m.lower a)) := by
    have hc := count_le hm
    have := hr.1.2.2.2
    unfold uint64Max sizeofGMPage pageSize at *
    omega
  rw [if_neg hfit, if_neg (by simp)]
  obtain ⟨l₁, l₂, l₃, hcut, h1, h2, h3, hlo, hhi⟩ := exists_cut hm (Nat.le_add_right a n)
  obtain ⟨htake, hdrop⟩ := take_drop_of_cut hcut hlo hhi
  refine ⟨_, rfl, ?_, ?_⟩
  · rw [htake, hdrop]
    refine wf_cut hm hcut h1 h3 hr.1.add_le hr.1.add_mod (pairwise_freshPages ..) ?_ _ _ _
    intro p hp
    obtain ⟨i, hi, rfl⟩ := List.mem_map.1 hp
    have hlt := List.mem_range.1 hi
    have ha := hr.1.2.1
    refine ⟨by simp, ?_, ?_⟩
    · have := hr.1.div_mul
      unfold pageSize at *
      simp only
      omega
    · unfold pageSize at *
      simp only
      omega
  · intro b
    dsimp only
    rw [htake, hdrop]
    have hfresh := pageAt_freshPages a (n / pageSize) prot maxprot jit b hr.1.2.1
    rw [hr.1.div_mul] at hfresh
    by_cases hb : InRange a n b
    · rw [if_pos hb, pageAt_cut_inside h1 h3 _ b hb, hfresh, if_pos hb]
    · rw [if_neg hb, hcut]
      have hnone : pageAt (freshPages a (n / pageSize) prot maxprot jit) b = none := by
        rw [hfresh]
        exact if_neg hb
      have hold : pageAt l₂ b = none := by
        rw [pageAt_eq_none_iff]
        rintro p hp rfl
        exact hb ⟨(h2 p hp).1, (h2 p hp).2, hm.aligned p (by rw [hcut]; simp [hp])⟩
      simp [pageAt_append, hnone, hold]

theorem gmUnmap_spec {m : GuestMemory} (hm : m.Wf) (a n : ℕ) (hr : PageRange a n) :
    ∃ m', gmUnmap m a n = (.ok, m') ∧ m'.Wf ∧
      ∀ b, pageAt m'.pages b = if InRange a n b then none else pageAt m.pages b := by
  unfold gmUnmap
  rw [if_neg (by tauto)]
  obtain ⟨l₁, l₂, l₃, hcut, h1, h2, h3, hlo, hhi⟩ := exists_cut hm (Nat.le_add_right a n)
  obtain ⟨htake, hdrop⟩ := take_drop_of_cut hcut hlo hhi
  refine ⟨_, rfl, ?_, ?_⟩
  · rw [htake, hdrop]
    have := wf_cut hm hcut h1 h3 hr.add_le hr.add_mod (l := []) (by simp) (by simp)
      (m.generation + 1) (m.codeGeneration + 1) m.faultAddress
    simpa using this
  · intro b
    dsimp only
    rw [htake, hdrop]
    by_cases hb : InRange a n b
    · have := pageAt_cut_inside h1 h3 [] b hb
      simpa [hb] using this
    · have hout : pageAt (l₁ ++ [] ++ l₃) b = pageAt (l₁ ++ l₂ ++ l₃) b :=
        pageAt_cut_outside h2 [] (by simp) b
          (fun p hp => hm.aligned p (by rw [hcut]; simp [hp])) hb
      simpa [hb, hcut] using hout

/-- The index difference counts the mapped pages of the range. -/
theorem lower_sub_lower_eq_iff {m : GuestMemory} (hm : m.Wf) {a n : ℕ} (hr : PageRange a n) :
    m.lower (a + n) - m.lower a = n / pageSize ↔
      ∀ b, InRange a n b → pageAt m.pages b ≠ none := by
  obtain ⟨l₁, l₂, l₃, hcut, h1, h2, h3, hlo, hhi⟩ := exists_cut hm (Nat.le_add_right a n)
  have hal : ∀ p ∈ l₂, p.address % pageSize = 0 := fun p hp =>
    hm.aligned p (by rw [hcut]; simp [hp])
  have hs : l₂.Pairwise fun p q => p.address < q.address := by
    have := hm.sorted
    rw [hcut, List.pairwise_append, List.pairwise_append] at this
    exact this.1.2.1
  have ha := hr.2.1
  have hdm := hr.div_mul
  -- The page indices of `l₂` are distinct, so their number is its length.
  have hnodup : (l₂.map fun p => (p.address - a) / pageSize).Nodup := by
    rw [List.Nodup, List.pairwise_map]
    refine List.Pairwise.imp_of_mem ?_ hs
    intro p q hp hq hlt
    have := hal p hp
    have := hal q hq
    have := h2 p hp
    unfold pageSize at *
    omega
  have hsub : (l₂.map fun p => (p.address - a) / pageSize).toFinset ⊆
      Finset.range (n / pageSize) := by
    intro k hk
    obtain ⟨p, hp, rfl⟩ := List.mem_map.1 (List.mem_toFinset.1 hk)
    have := h2 p hp
    rw [Finset.mem_range, Nat.div_lt_iff_lt_mul (by decide)]
    omega
  have hcard : (l₂.map fun p => (p.address - a) / pageSize).toFinset.card = l₂.length := by
    rw [List.toFinset_card_of_nodup hnodup, List.length_map]
  rw [hlo, hhi, Nat.add_sub_cancel_left, hcut]
  constructor
  · intro hlen b hb hnone
    have heq := Finset.eq_of_subset_of_card_le hsub (by rw [hcard, Finset.card_range]; omega)
    have hk : (b - a) / pageSize ∈ Finset.range (n / pageSize) := by
      have := hb.2.1
      have := hb.1
      rw [Finset.mem_range, Nat.div_lt_iff_lt_mul (by decide)]
      omega
    rw [← heq] at hk
    obtain ⟨p, hp, hpk⟩ := List.mem_map.1 (List.mem_toFinset.1 hk)
    rw [pageAt_cut_inside h1 h3 l₂ b hb, pageAt_eq_none_iff] at hnone
    apply hnone p hp
    have := hal p hp
    have := h2 p hp
    have := hb.1
    have := hb.2.2
    unfold pageSize at *
    omega
  · intro h
    rw [← hcard]
    have heq : (l₂.map fun p => (p.address - a) / pageSize).toFinset =
        Finset.range (n / pageSize) := by
      refine Finset.Subset.antisymm hsub ?_
      intro k hk
      have hk := Finset.mem_range.1 hk
      have hb : InRange a n (a + k * pageSize) := by
        refine ⟨by omega, ?_, ?_⟩ <;> unfold pageSize at * <;> omega
      have hne := h _ hb
      rw [pageAt_cut_inside h1 h3 l₂ _ hb] at hne
      obtain ⟨p, hp⟩ := Option.ne_none_iff_exists'.1 hne
      obtain ⟨hmem, hadd⟩ := mem_of_pageAt hp
      rw [List.mem_toFinset]
      refine List.mem_map.2 ⟨p, hmem, ?_⟩
      rw [hadd, Nat.add_sub_cancel_left, Nat.mul_div_cancel _ (by decide)]
    rw [heq, Finset.card_range]

theorem pageAt_map {l : List GMPage} (f : GMPage → GMPage)
    (hf : ∀ p, (f p).address = p.address) (b : ℕ) :
    pageAt (l.map f) b = (pageAt l b).map f := by
  simp only [pageAt, List.find?_map]
  congr 2
  ext p
  simp [hf]

theorem gmProtect_spec {m : GuestMemory} (hm : m.Wf) (a n : ℕ) (prot : Prot)
    (hr : PageRange a n) (hp : prot &&& ~~~7#32 = 0#32) :
    ((∃ b, InRange a n b ∧ pageAt m.pages b = none) ∧
        gmProtect m a n prot = (.unmapped, m)) ∨
    ((∀ b, InRange a n b → pageAt m.pages b ≠ none) ∧
      (∃ b p, InRange a n b ∧ pageAt m.pages b = some p ∧
        prot &&& ~~~(p.maxprot.setWidth 32) ≠ 0#32) ∧
      gmProtect m a n prot = (.protection, m)) ∨
    ((∀ b, InRange a n b → pageAt m.pages b ≠ none) ∧
      (∀ b p, InRange a n b → pageAt m.pages b = some p →
        prot &&& ~~~(p.maxprot.setWidth 32) = 0#32) ∧
      ∃ m', gmProtect m a n prot = (.ok, m') ∧ m'.Wf ∧
        ∀ b, pageAt m'.pages b =
          if InRange a n b then
            (pageAt m.pages b).map fun p => { p with prot := prot.setWidth 8 }
          else pageAt m.pages b) := by
  unfold gmProtect
  rw [if_neg (by tauto)]
  dsimp only
  by_cases hcnt : m.lower (a + n) - m.lower a = n / pageSize
  swap
  · left
    rw [if_pos hcnt]
    refine ⟨?_, rfl⟩
    rw [lower_sub_lower_eq_iff hm hr] at hcnt
    push Not at hcnt
    exact hcnt
  right
  rw [if_neg (by simpa using hcnt)]
  have hall := (lower_sub_lower_eq_iff hm hr).1 hcnt
  obtain ⟨l₁, l₂, l₃, hcut, h1, h2, h3, hlo, hhi⟩ := exists_cut hm (Nat.le_add_right a n)
  obtain ⟨htake, hdrop⟩ := take_drop_of_cut hcut hlo hhi
  have hslice : m.slice (m.lower a) (m.lower (a + n)) = l₂ := by
    rw [slice, hhi, hlo, hcut, ← List.length_append, List.take_left, List.drop_left]
  have hs : (l₁ ++ l₂ ++ l₃).Pairwise fun p q => p.address < q.address := by
    rw [← hcut]
    exact hm.sorted
  have hin : ∀ p ∈ l₂, InRange a n p.address := fun p hp =>
    ⟨(h2 p hp).1, (h2 p hp).2, hm.aligned p (by rw [hcut]; simp [hp])⟩
  rw [htake, hdrop, hslice]
  by_cases hden : l₂.any (fun p => prot &&& ~~~(p.maxprot.setWidth 32) != 0#32) = true
  · left
    rw [if_pos hden]
    refine ⟨hall, ?_, rfl⟩
    obtain ⟨p, hpm, hpd⟩ := List.any_eq_true.1 hden
    refine ⟨p.address, p, hin p hpm, ?_, by simpa using hpd⟩
    rw [hcut]
    exact pageAt_of_mem hs (by simp [hpm])
  · right
    rw [if_neg hden]
    refine ⟨hall, ?_, _, rfl, ?_, ?_⟩
    · intro b p hb hpb
      rw [hcut, pageAt_cut_inside h1 h3 l₂ b hb] at hpb
      by_contra hne
      apply hden
      rw [List.any_eq_true]
      exact ⟨p, (mem_of_pageAt hpb).1, by simpa using hne⟩
    · refine wf_cut hm hcut h1 h3 hr.add_le hr.add_mod ?_ ?_ _ _ _
      · rw [List.pairwise_append, List.pairwise_append] at hs
        rw [List.pairwise_map]
        exact hs.1.2.1
      · intro p hpm
        obtain ⟨q, hq, rfl⟩ := List.mem_map.1 hpm
        exact hin q hq
    · intro b
      dsimp only
      by_cases hb : InRange a n b
      · rw [if_pos hb, pageAt_cut_inside h1 h3 _ b hb, hcut,
          pageAt_cut_inside h1 h3 l₂ b hb]
        exact pageAt_map (fun p : GMPage => { p with prot := prot.setWidth 8 })
          (fun _ => rfl) b
      · rw [if_neg hb, hcut]
        refine pageAt_cut_outside h2 _ ?_ b (fun p hp => (hin p hp).2.2) hb
        intro p hpm
        obtain ⟨q, hq, rfl⟩ := List.mem_map.1 hpm
        exact hin q hq

end GuestMemory

end Tolkara
