import Tolkara.Memory.Agreement

/-!
# Exclusive monitors under interleaving

Threads share one sparse memory and keep their monitors themselves. Since every
call holds the memory's lock, an interleaving of the threads is one list of
calls; `System` is the space with the monitors by name.

A monitor records the generation of its page and the generation of the mappings.
Seen from a load, a state is `Clean` when nothing of either kind has moved, and
`Dirty` when one of them has moved past what the load saw. A call that does not
disturb the page keeps a clean state clean, one that does makes it dirty, and
a dirty state stays dirty: pages come back with generation 0 only after their
mapping changed.
-/

namespace Tolkara

namespace Space

open Library TaggedInterval

/-! ## One call and one page -/

/-- Pages carry generations the memory has already given out. -/
def Stamped (s : Space) : Prop := ∀ q, PageKey q → s.genAt q ≤ s.generation

/-- The write, if any, has a byte on the page at `q`. -/
def WriteTouches (w : Option (ℕ × ℕ)) (q : ℕ) : Prop := ∃ x ∈ w, Touches x.1 x.2 q

theorem genAt_of_residentAt {s s' : Space} {q : ℕ} (h : s'.residentAt q = s.residentAt q) :
    s'.genAt q = s.genAt q ∧ s'.bytesAt q = s.bytesAt q := by
  rw [genAt, genAt, bytesAt, bytesAt, h]
  exact ⟨rfl, rfl⟩

theorem Effect.generation_le {s s' : Space} {w : Option (ℕ × ℕ)} {r : Bool}
    (he : Effect s w r s') : s.generation ≤ s'.generation := by
  cases he with
  | same => exact le_rfl
  | wrote _ hw =>
      rw [hw.generation]
      omega
  | prepared hp => rw [hp.generation]
  | changed hc => rw [hc.generation]

theorem Effect.mappingGeneration {s s' : Space} {w : Option (ℕ × ℕ)} {r : Bool}
    (he : Effect s w r s') :
    s'.mappingGeneration = s.mappingGeneration + (if r then 1 else 0) := by
  cases he with
  | same => rfl
  | wrote _ hw => exact hw.mappingGeneration
  | prepared hp => exact hp.mappingGeneration
  | changed hc => exact hc.mappingGeneration

theorem Effect.regions {s s' : Space} {w : Option (ℕ × ℕ)} (he : Effect s w false s') :
    s'.regions = s.regions := by
  cases he with
  | same => rfl
  | wrote _ hw => exact hw.regions
  | prepared hp => exact hp.regions

theorem Effect.page_written {s s' : Space} {w : Option (ℕ × ℕ)} {r : Bool}
    (he : Effect s w r s') {q : ℕ} (hq : PageKey q) (ht : WriteTouches w q) :
    s'.genAt q = s.generation + 1 := by
  obtain ⟨x, hx, ht⟩ := ht
  cases he with
  | same => cases hx
  | prepared hp => cases hx
  | changed hc => cases hx
  | wrote _ hw =>
      cases hx
      rw [genAt, hw.pages q hq, if_pos ht]
      rfl

/-- A call that neither writes to the page nor changes the mappings leaves it as
it was. -/
theorem Effect.page_kept {s s' : Space} {w : Option (ℕ × ℕ)} (he : Effect s w false s') {q : ℕ}
    (hq : PageKey q) (ht : ¬ WriteTouches w q) :
    s'.genAt q = s.genAt q ∧ s'.bytesAt q = s.bytesAt q := by
  cases he with
  | same => exact ⟨rfl, rfl⟩
  | wrote _ hw =>
      apply genAt_of_residentAt
      rw [hw.pages q hq, if_neg fun htouch => ht ⟨_, rfl, htouch⟩]
  | prepared hp =>
      rcases hp.pages q hq with heq | ⟨hnone, hzero⟩
      · exact genAt_of_residentAt heq
      · rw [genAt, genAt, bytesAt, bytesAt, hnone, hzero]
        exact ⟨rfl, rfl⟩

theorem Effect.stamped {s s' : Space} {w : Option (ℕ × ℕ)} {r : Bool} (he : Effect s w r s')
    (h : s.Stamped) : s'.Stamped := by
  intro q hq
  have hle := he.generation_le
  have hold := h q hq
  by_cases ht : WriteTouches w q
  · have hgen := he.page_written hq ht
    cases he with
    | same => exact hold
    | prepared hp =>
        obtain ⟨x, hx, -⟩ := ht
        cases hx
    | changed hc =>
        obtain ⟨x, hx, -⟩ := ht
        cases hx
    | wrote _ hw => rw [hgen, hw.generation]
  · cases r with
    | false =>
        rw [(he.page_kept hq ht).1]
        omega
    | true =>
        cases he with
        | changed hc =>
            rw [genAt, hc.pages q hq]
            split
            · simp
            · exact le_trans hold hle

/-! ## The system -/

namespace Call

/-- The calls with the monitors themselves in place of their names. -/
def resolve (monitors : ℕ → GMSparseExclusive) : Call ℕ → Call GMSparseExclusive
  | .map a n prot maxprot replace => .map a n prot maxprot replace
  | .unmap a n => .unmap a n
  | .protect a n prot => .protect a n prot
  | .read a buffer n => .read a buffer n
  | .write a buffer n => .write a buffer n
  | .prepare a n permissions => .prepare a n permissions
  | .loadExclusive a buffer n monitor => .loadExclusive a buffer n (monitor.map monitors)
  | .storeExclusive a buffer n monitor stored =>
    .storeExclusive a buffer n (monitor.map monitors) stored
  | .compareExchange a expected desired previous n =>
    .compareExchange a expected desired previous n
  | .atomic a n operation operand previous => .atomic a n operation operand previous

def monitorOf : Call ℕ → Option ℕ
  | .loadExclusive _ _ _ monitor => monitor
  | .storeExclusive _ _ _ monitor _ => monitor
  | _ => none

end Call

/-- The shared space and every thread's monitors. -/
structure System where
  space : Space
  monitors : ℕ → GMSparseExclusive

namespace System

def reply (S : System) (c : Call ℕ) : Reply := S.space.perform (c.resolve S.monitors)

def step (S : System) (c : Call ℕ) : System where
  space := (S.reply c).space
  monitors := match c.monitorOf, (S.reply c).monitor with
    | some id, some monitor => Function.update S.monitors id monitor
    | _, _ => S.monitors

def run (S : System) (calls : List (Call ℕ)) : System := calls.foldl step S

/-- The call writes to the page of `a`, or changes the mappings. -/
def Disturbs (S : System) (a : ℕ) (c : Call ℕ) : Prop :=
  WriteTouches (S.space.writeOf (c.resolve S.monitors)) (pageBase a) ∨
    S.space.remaps (c.resolve S.monitors) = true

def Undisturbed (a : ℕ) : System → List (Call ℕ) → Prop
  | _, [] => True
  | S, c :: calls => ¬ S.Disturbs a c ∧ Undisturbed a (S.step c) calls

theorem step_effect {S : System} (h : S.space.Inv) (c : Call ℕ) :
    Effect S.space (S.space.writeOf (c.resolve S.monitors))
      (S.space.remaps (c.resolve S.monitors)) (S.step c).space :=
  perform_effect h _

/-- A call leaves the monitors it is not given alone. -/
theorem step_monitors {S : System} {c : Call ℕ} {id : ℕ} (h : c.monitorOf ≠ some id) :
    (S.step c).monitors id = S.monitors id := by
  unfold step
  dsimp only
  cases hm : c.monitorOf with
  | none => rfl
  | some id' =>
      cases (S.reply c).monitor with
      | none => rfl
      | some monitor =>
          dsimp only
          rw [Function.update_of_ne]
          rintro rfl
          exact h hm

theorem run_monitors {S : System} {calls : List (Call ℕ)} {id : ℕ}
    (h : ∀ c ∈ calls, c.monitorOf ≠ some id) : (S.run calls).monitors id = S.monitors id := by
  induction calls generalizing S with
  | nil => rfl
  | cons c calls ih =>
      change ((S.step c).run calls).monitors id = S.monitors id
      rw [ih fun d hd => h d (by simp [hd]), step_monitors (h c (by simp))]

/-- What every state of the system satisfies. -/
structure Good (S : System) : Prop where
  inv : S.space.Inv
  stamped : S.space.Stamped

theorem Good.step {S : System} (h : S.Good) (c : Call ℕ) : (S.step c).Good :=
  ⟨(step_effect h.inv c).inv h.inv, (step_effect h.inv c).stamped h.stamped⟩

theorem Good.run {S : System} (h : S.Good) (calls : List (Call ℕ)) : (S.run calls).Good := by
  induction calls generalizing S with
  | nil => exact h
  | cons c calls ih => exact ih (h.step c)

theorem run_arena {S : System} (h : S.Good) (calls : List (Call ℕ)) :
    SameArena S.space (S.run calls).space := by
  induction calls generalizing S with
  | nil => exact SameArena.refl _
  | cons c calls ih => exact (step_effect h.inv c).arena.trans (ih (h.step c))

/-! ## Clean and dirty states -/

/-- Nothing the monitor of a load in `S₀` looks at has moved. -/
structure Clean (S₀ S : System) (a : ℕ) : Prop where
  mapping : S.space.mappingGeneration = S₀.space.mappingGeneration
  regions : S.space.regions = S₀.space.regions
  gen : S.space.genAt (pageBase a) = S₀.space.genAt (pageBase a)
  bytes : S.space.bytesAt (pageBase a) = S₀.space.bytesAt (pageBase a)
  later : S₀.space.generation ≤ S.space.generation

/-- Something has moved past what a load in `S₀` saw. -/
structure Dirty (S₀ S : System) (a : ℕ) : Prop where
  moved : S₀.space.mappingGeneration < S.space.mappingGeneration ∨
    S.space.mappingGeneration = S₀.space.mappingGeneration ∧
      S₀.space.generation < S.space.genAt (pageBase a)
  later : S₀.space.generation ≤ S.space.generation

theorem Clean.refl (S : System) (a : ℕ) : Clean S S a := ⟨rfl, rfl, rfl, rfl, le_rfl⟩

theorem Clean.step {S₀ S : System} {a : ℕ} (h : Clean S₀ S a) (hg : S.Good)
    (hq : PageKey (pageBase a)) {c : Call ℕ} (hd : ¬ S.Disturbs a c) :
    Clean S₀ (S.step c) a := by
  unfold Disturbs at hd
  push Not at hd
  obtain ⟨hw, hr⟩ := hd
  have he := step_effect hg.inv c
  rw [Bool.eq_false_iff.2 hr] at he
  obtain ⟨hgen, hbytes⟩ := he.page_kept hq hw
  exact ⟨he.mappingGeneration.trans h.mapping, he.regions.trans h.regions, hgen.trans h.gen,
    hbytes.trans h.bytes, le_trans h.later he.generation_le⟩

theorem Clean.disturbed {S₀ S : System} {a : ℕ} (h : Clean S₀ S a) (hg : S.Good)
    (hq : PageKey (pageBase a)) {c : Call ℕ} (hd : S.Disturbs a c) :
    Dirty S₀ (S.step c) a := by
  have he := step_effect hg.inv c
  refine ⟨?_, le_trans h.later he.generation_le⟩
  have hmap := he.mappingGeneration
  have hlater := h.later
  cases hr : S.space.remaps (c.resolve S.monitors) with
  | true =>
      rw [hr, if_pos rfl, h.mapping] at hmap
      left
      omega
  | false =>
      rcases hd with hw | hr'
      · right
        rw [hr] at hmap
        refine ⟨hmap.trans h.mapping, ?_⟩
        rw [he.page_written hq hw]
        omega
      · rw [hr] at hr'
        cases hr'

theorem Dirty.step {S₀ S : System} {a : ℕ} (h : Dirty S₀ S a) (hg : S.Good)
    (hq : PageKey (pageBase a)) (c : Call ℕ) : Dirty S₀ (S.step c) a := by
  have he := step_effect hg.inv c
  refine ⟨?_, le_trans h.later he.generation_le⟩
  have hmap := he.mappingGeneration
  have hlater := h.later
  cases hr : S.space.remaps (c.resolve S.monitors) with
  | true =>
      rw [hr, if_pos rfl] at hmap
      left
      rcases h.moved with hm | ⟨hm, -⟩ <;> omega
  | false =>
      rw [hr, if_neg Bool.false_ne_true, Nat.add_zero] at hmap
      rw [hr] at he
      rcases h.moved with hm | ⟨hm, hgen⟩
      · left
        omega
      · right
        refine ⟨by omega, ?_⟩
        by_cases hw : WriteTouches (S.space.writeOf (c.resolve S.monitors)) (pageBase a)
        · rw [he.page_written hq hw]
          omega
        · rw [(he.page_kept hq hw).1]
          exact hgen

theorem Dirty.run {S₀ S : System} {a : ℕ} (h : Dirty S₀ S a) (hg : S.Good)
    (hq : PageKey (pageBase a)) (calls : List (Call ℕ)) : Dirty S₀ (S.run calls) a := by
  induction calls generalizing S with
  | nil => exact h
  | cons c calls ih => exact ih (h.step hg hq c) (hg.step c)

/-- A run from a clean state ends clean exactly when nothing disturbed it. -/
theorem Clean.run {S₀ S : System} {a : ℕ} (h : Clean S₀ S a) (hg : S.Good)
    (hq : PageKey (pageBase a)) (calls : List (Call ℕ)) :
    (Undisturbed a S calls ∧ Clean S₀ (S.run calls) a) ∨
      (¬ Undisturbed a S calls ∧ Dirty S₀ (S.run calls) a) := by
  induction calls generalizing S with
  | nil => exact .inl ⟨trivial, h⟩
  | cons c calls ih =>
      by_cases hd : S.Disturbs a c
      · refine .inr ⟨fun hu => hu.1 hd, ?_⟩
        exact (h.disturbed hg hq hd).run (hg.step c) hq calls
      · rcases ih (h.step hg hq hd) (hg.step c) with ⟨hu, hc⟩ | ⟨hu, hc⟩
        · exact .inl ⟨⟨hd, hu⟩, hc⟩
        · exact .inr ⟨fun hu' => hu hu'.2, hc⟩

/-! ## Loads and stores -/

/-- A successful load leaves the space alone, returns its bytes and records what
it saw. -/
theorem load_spec {S : System} (a : ℕ) (buffer : Option Buffer) (n id : ℕ)
    (h : (S.reply (.loadExclusive a buffer n (some id))).result = .ok) :
    AtomicSize a n ∧ buffer ≠ none ∧ S.space.checkAccess a n GM.READ = .ok ∧
      (S.step (.loadExclusive a buffer n (some id))).space = S.space ∧
      (S.reply (.loadExclusive a buffer n (some id))).bytes =
        (List.range n).map (fun i => S.space.byteAt (a + i)) ∧
      (S.step (.loadExclusive a buffer n (some id))).monitors id =
        ⟨a, S.space.genAt (pageBase a), S.space.mappingGeneration, n, true⟩ := by
  unfold step
  dsimp only [Call.monitorOf]
  unfold reply at *
  simp only [Call.resolve, Option.map_some, perform, gmSparseLoadExclusive] at h ⊢
  by_cases hsize : AtomicSize a n
  swap
  · rw [if_pos hsize] at h
    cases h
  rw [if_neg (not_not.2 hsize)] at h ⊢
  have hok : (S.space.accessLocked a buffer n false).1 = .ok := by
    by_contra hno
    rw [if_neg hno] at h
    exact hno h
  rw [if_pos hok]
  cases buffer with
  | none =>
      rw [accessLocked, if_pos hsize.1] at hok
      cases hok
  | some buffer =>
      rw [accessLocked_read] at hok ⊢
      dsimp only at hok ⊢
      refine ⟨hsize, by simp, hok, trivial, by rw [if_pos hok], ?_⟩
      rw [Function.update_self, pageGeneration_eq]

/-- What a store with its own buffer and flag answers and does. -/
theorem store_spec (S : System) {a n : ℕ} (id : ℕ) (data : Buffer) (hsize : AtomicSize a n) :
    let reply := S.reply (.storeExclusive a (some data) n (some id) true)
    (S.space.monitorHolds a n (S.monitors id) = false →
        reply.stored = some false ∧ reply.space = S.space) ∧
      (S.space.monitorHolds a n (S.monitors id) = true →
        reply.result = (S.space.accessLocked a (some data) n true).1 ∧
        reply.space = (S.space.accessLocked a (some data) n true).2.1 ∧
        (reply.stored = some true ↔ reply.result = .ok)) := by
  intro reply
  have hreply : reply = S.reply (.storeExclusive a (some data) n (some id) true) := rfl
  unfold System.reply at hreply
  simp only [Call.resolve, Option.map_some, perform, gmSparseStoreExclusive] at hreply
  rw [if_neg (by simp [hsize])] at hreply
  constructor
  · intro hv
    rw [hreply, hv]
    exact ⟨rfl, rfl⟩
  · intro hv
    rw [hv] at hreply
    simp only [if_true] at hreply
    by_cases hok : (S.space.accessLocked a (some data) n true).1 = .ok
    · rw [hreply, if_pos hok]
      exact ⟨hok.symm, rfl, by simp⟩
    · rw [hreply, if_neg hok]
      exact ⟨rfl, rfl, by simp [hok]⟩

/-- The monitor of a load stands in a clean state and not in a dirty one. -/
theorem monitorHolds_iff {s : Space} {a n g m : ℕ} :
    s.monitorHolds a n ⟨a, g, m, n, true⟩ = true ↔
      m = s.mappingGeneration ∧ g = s.genAt (pageBase a) := by
  simp [monitorHolds, pageGeneration_eq]

end System

theorem atomicSize_page {a n : ℕ} (h : AtomicSize a n) : n ≤ pageSize - a % pageSize := by
  obtain ⟨h0, h16, hpow, hmod⟩ := h
  have hn : n = 1 ∨ n = 2 ∨ n = 4 ∨ n = 8 ∨ n = 16 := by
    interval_cases n <;> simp_all
  unfold pageSize
  rcases hn with rfl | rfl | rfl | rfl | rfl <;> omega

theorem checkAccess_congr {s s' : Space} (hbase : s'.base = s.base) (hstop : s'.stop = s.stop)
    (hregions : s'.regions = s.regions) (a n : ℕ) (permission : Prot) :
    s'.checkAccess a n permission = s.checkAccess a n permission := by
  have hiff : s'.Contains a n ↔ s.Contains a n := by rw [Contains, Contains, hbase, hstop]
  unfold checkAccess
  rw [hregions]
  simp only [hiff]

/-- The page of `a` permits writing. -/
def Writable (s : Space) (a : ℕ) : Prop :=
  ∃ r ∈ s.regions, r.start ≤ a ∧ a < r.stop ∧ r.prot &&& GM.WRITE = GM.WRITE

/-- The page of `a` has a backing page, or there is one left for it. -/
def Backed (s : Space) (a : ℕ) : Prop :=
  s.pageSlot (pageBase a) false ≠ none ∨ s.resident < s.capacity

theorem accessLocked_of_writable {s : Space} (h : s.Inv) {a n : ℕ} (data : Buffer)
    (hsize : AtomicSize a n) (hin : s.Contains a n) (hw : s.Writable a) (hb : s.Backed a) :
    (s.accessLocked a (some data) n true).1 = .ok := by
  have hcount := pageCount_one hsize.1 (atomicSize_page hsize)
  have hcheck : s.checkAccess a n GM.WRITE = .ok := by
    obtain ⟨r, hr, h1, h2, hp⟩ := hw
    rw [checkAccess_eq h, if_pos hin, hcount, checkPages_succ, permAt_div h,
      cover_eq_some_of_mem h.normal.1 hr ⟨h1, h2⟩]
    have hd : deniedRegion GM.WRITE r.tag = false := by simpa [deniedRegion, Region.prot] using hp
    simp [hd, checkPages_zero]
  have hfits : s.Fits a n := by
    unfold Fits
    rw [hcount, missing, missing, ← pageBase_eq]
    simp only [residentAt_eq_none_iff_pageSlot]
    rcases hb with hb | hb
    · rw [if_neg hb]
      omega
    · split <;> omega
  rcases accessLocked_write h a data n with ⟨-, hno⟩ | ⟨-, -, -, hno⟩ | ⟨s', heq, -⟩
  · rcases hno with hno | hno
    · exact absurd hcheck hno
    · exact absurd hno hsize.1
  · exact absurd hfits hno
  · rw [heq]

/-- A clean page reads as it did for the load. -/
theorem System.Clean.read {S₀ S : System} {a n : ℕ} (h : System.Clean S₀ S a)
    (harena : SameArena S₀.space S.space) (hsize : AtomicSize a n)
    (hcheck : S₀.space.checkAccess a n GM.READ = .ok) (b : Buffer) :
    S.space.gmSparseRead a (some b) n =
      (.ok, (List.range n).map fun i => S₀.space.byteAt (a + i)) := by
  have hread : S.space.checkAccess a n GM.READ = .ok := by
    rw [checkAccess_congr harena.base harena.stop h.regions]
    exact hcheck
  rw [gmSparseRead, accessLocked_read, hread, if_pos rfl, Prod.mk.injEq]
  refine ⟨rfl, List.map_congr_left ?_⟩
  intro i hi
  rw [List.mem_range] at hi
  rw [byteAt, byteAt, pageBase_add (lt_of_lt_of_le hi (atomicSize_page hsize)), h.bytes]

/-- A write under the lock has all of its effect or none. -/
theorem accessLocked_answer {s : Space} (h : s.Inv) (a : ℕ) (data : Buffer) {n : ℕ}
    (hn : n ≠ 0) :
    ((s.accessLocked a (some data) n true).1 = .ok →
      (s.accessLocked a (some data) n true).2.1.flat.perm = s.flat.perm ∧
      ∀ x, (s.accessLocked a (some data) n true).2.1.flat.byte x =
        if a ≤ x ∧ x < a + n then data (x - a) else s.flat.byte x) ∧
    ((s.accessLocked a (some data) n true).1 ≠ .ok →
      (s.accessLocked a (some data) n true).2.1 = s) := by
  rcases accessLocked_write h a data n with ⟨heq, hno⟩ | ⟨heq, -⟩ | ⟨s', heq, hok, -, -, hwrote⟩
  · rw [heq]
    exact ⟨fun hok => absurd hok (hno.resolve_right hn), fun _ => rfl⟩
  · rw [heq]
    exact ⟨fun hok => absurd hok GMResult.noConfusion, fun _ => rfl⟩
  · rw [heq]
    exact ⟨fun _ => hwrote.flat h hok, fun hne => absurd rfl hne⟩

/-- Monitors are exact: after a load, a store with the same monitor goes through
exactly when no call in between disturbed the page. Then the bytes are still the
ones that were loaded, and the memory becomes the same memory with the data in
their place. Otherwise it stays as it is. -/
theorem storeExclusive_exact {base size backingBytes : ℕ} {allocated : Bool}
    {arena : ℕ → PageBytes} {s : Space}
    (hinit : gmSparseInit base size backingBytes allocated arena = (.ok, some s))
    (monitors : ℕ → GMSparseExclusive) (before between : List (Call ℕ)) (a n id : ℕ)
    (buffer : Option Buffer) (data : Buffer)
    (hload : (((System.mk s monitors).run before).reply
      (.loadExclusive a buffer n (some id))).result = .ok)
    (hunused : ∀ c ∈ between, c.monitorOf ≠ some id) :
    let S₀ := (System.mk s monitors).run before
    let load := S₀.reply (.loadExclusive a buffer n (some id))
    let S₁ := S₀.step (.loadExclusive a buffer n (some id))
    let S₂ := S₁.run between
    let store := S₂.reply (.storeExclusive a (some data) n (some id) true)
    (store.stored = some true →
      System.Undisturbed a S₁ between ∧ S₂.space.gmSparseRead a buffer n = (.ok, load.bytes) ∧
      store.space.flat.perm = S₂.space.flat.perm ∧
      ∀ x, store.space.flat.byte x =
        if a ≤ x ∧ x < a + n then data (x - a) else S₂.space.flat.byte x) ∧
    (store.stored ≠ some true → store.space = S₂.space) ∧
    (System.Undisturbed a S₁ between → S₂.space.Writable a → S₂.space.Backed a →
      store.result = .ok ∧ store.stored = some true) := by
  intro S₀ load S₁ S₂ store
  obtain ⟨hinv, -, -, -, hgen, -, hempty⟩ := gmSparseInit_spec hinit
  have hgood : (System.mk s monitors).Good := by
    refine ⟨hinv, ?_⟩
    intro q hq
    rw [genAt, hempty q hq]
    simp
  have hgood₀ : S₀.Good := hgood.run before
  have hgood₁ : S₁.Good := hgood₀.step _
  have hgood₂ : S₂.Good := hgood₁.run between
  obtain ⟨hsize, hbuffer, hcheck, hspace, hbytes, hmonitor⟩ := System.load_spec a buffer n id hload
  change S₁.space = S₀.space at hspace
  change S₁.monitors id = _ at hmonitor
  have hmonitor₂ : S₂.monitors id = _ := (System.run_monitors hunused).trans hmonitor
  have hpos := hsize.1
  have hq : PageKey (pageBase a) :=
    pageKey_of_checkAccess hgood₀.inv hcheck le_rfl (by omega)
  have hcases := (System.Clean.refl S₁ a).run hgood₁ hq between
  change _ ∧ System.Clean S₁ S₂ a ∨ _ ∧ System.Dirty S₁ S₂ a at hcases
  have harena := System.run_arena hgood₁ between
  change SameArena S₁.space S₂.space at harena
  have hin : S₂.space.Contains a n := by
    have hc := (cover_of_checkAccess hgood₀.inv hcheck).1
    unfold Contains at hc ⊢
    rwa [harena.base, harena.stop, hspace]
  obtain ⟨hstale, hfresh⟩ := System.store_spec S₂ id data hsize
  change (_ → store.stored = some false ∧ store.space = S₂.space) at hstale
  change (_ → store.result = _ ∧ store.space = _ ∧ (store.stored = some true ↔ _)) at hfresh
  rw [hmonitor₂, ← hspace] at hstale hfresh
  have hstamp := hgood₁.stamped _ hq
  have hholds := Bool.eq_false_or_eq_true (S₂.space.monitorHolds a n ⟨a,
    S₁.space.genAt (pageBase a), S₁.space.mappingGeneration, n, true⟩)
  obtain ⟨hwrites, hkeeps⟩ := accessLocked_answer hgood₂.inv a data hpos
  refine ⟨fun hstored => ?_, fun hrefused => ?_, fun hu hw hb => ?_⟩
  · rcases hholds with hholds | hholds
    swap
    · rw [(hstale hholds).1] at hstored
      cases hstored
    obtain ⟨hres, hafter, hiff⟩ := hfresh hholds
    have hok := hres.symm.trans (hiff.1 hstored)
    rw [System.monitorHolds_iff] at hholds
    rcases hcases with ⟨hu, hclean⟩ | ⟨-, hdirty⟩
    · obtain ⟨b, rfl⟩ := Option.ne_none_iff_exists'.1 hbuffer
      rw [← hspace] at hcheck hbytes
      have hread := hclean.read harena hsize hcheck b
      rw [← hbytes] at hread
      rw [hafter]
      exact ⟨hu, hread, hwrites hok⟩
    · rcases hdirty.moved with hm | ⟨-, hg⟩ <;> omega
  · rcases hholds with hholds | hholds
    swap
    · exact (hstale hholds).2
    obtain ⟨hres, hafter, hiff⟩ := hfresh hholds
    rw [hafter]
    exact hkeeps fun hok => hrefused (hiff.2 (hres.trans hok))
  · rcases hcases with ⟨-, hclean⟩ | ⟨hno, -⟩
    swap
    · exact absurd hu hno
    obtain ⟨hres, -, hiff⟩ :=
      hfresh (System.monitorHolds_iff.2 ⟨hclean.mapping.symm, hclean.gen.symm⟩)
    have hok := accessLocked_of_writable hgood₂.inv data hsize hin hw hb
    rw [hok] at hres
    exact ⟨hres, hiff.2 hres⟩

/-- A write to the other page leaves a monitor alone, and the store does its work. -/
theorem storeExclusive_exact_other_page :
    ∃ s, gmSparseInit 16384 32768 32768 true (fun _ => zeroPage) = (.ok, some s) ∧
      let S₀ := (System.mk s fun _ => ⟨0, 0, 0, 0, false⟩).run
        [.map 16384 32768 3#32 3#32 false]
      let S₁ := S₀.step (.loadExclusive 16384 (some fun _ => 0) 8 (some 0))
      let S₂ := S₁.run [.write 32768 (some fun _ => 1) 1]
      let store := S₂.reply (.storeExclusive 16384 (some fun _ => 2) 8 (some 0) true)
      store.stored = some true ∧
        System.Undisturbed 16384 S₁ [.write 32768 (some fun _ => 1) 1] ∧
        store.space.flat.byte 16391 = 2 := by
  have hinit : gmSparseInit 16384 32768 32768 true (fun _ => zeroPage) = (.ok, some _) := rfl
  refine ⟨_, hinit, rfl, ?_⟩
  have hexact := storeExclusive_exact hinit (fun _ => ⟨0, 0, 0, 0, false⟩)
    [.map 16384 32768 3#32 3#32 false] [.write 32768 (some fun _ => 1) 1] 16384 8 0
    (some fun _ => 0) (fun _ => 2) rfl (by simp [Call.monitorOf])
  obtain ⟨hundisturbed, -, -, hbyte⟩ := hexact.1 rfl
  exact ⟨hundisturbed, (hbyte 16391).trans rfl⟩

end Space

end Tolkara
