import Tolkara.Cpu.Fetch

/-!
# The decode cache is invisible

`CacheOk` ties the cache to the memory: as long as the code generation it was
filled at is the current one, every valid entry is what a fetch under the write
protection it was filled at would decode to. The code generation only grows, so
a cache that is out of date stays so until it is emptied. With it, a step of
`gc_run` and a step of the interpreter without a cache do the same, and so do
whole sessions of runs with anything from `Outside` in between.
-/

namespace Tolkara

open GuestMemory

/-! ## Executing a decoded instruction -/

theorem execute_congr (heap : Heap) (c : GCRegisters) (t : GMThread) (d : GCDecoded)
    {m m' : GuestMemory} (h : SameButFault m m') :
    (execute heap c t d m').1 = (execute heap c t d m).1 ∧
      SameButFault (execute heap c t d m).2 (execute heap c t d m').2 := by
  unfold execute gmWrite gmRead
  simp only [copy_congr heap h, copy_congr (fun _ => true) h]
  split
  · exact ⟨rfl, SameButFault.refl _⟩
  · split
    · exact ⟨rfl, SameButFault.refl _⟩
    · split
      · exact ⟨rfl, h⟩
      · exact ⟨rfl, h⟩

theorem execute_codeStep (heap : Heap) (c : GCRegisters) (t : GMThread) (d : GCDecoded)
    {m : GuestMemory} (hm : m.Wf) : CodeStep m (execute heap c t d m).2 := by
  unfold execute
  dsimp only
  split
  · have hstep := copy_codeStep hm heap (some t) (c.reg d.rn true + d.immediate).toNat
      (some fun j => byteOf (c.reg d.rd false).toNat j) d.amount GM.WRITE
    split <;> exact hstep
  · split
    · obtain ⟨f, hf⟩ := copy_read hm (fun _ => true) none (c.reg d.rn true + d.immediate).toNat
        (fun _ => 0) d.amount GM.READ
      unfold gmRead
      rw [hf]
      have hsame := CodeStep.of_same hm (sameButFault_fault m f)
      dsimp only
      split <;> exact hsame
    · split <;> exact CodeStep.refl hm

/-! ## The invariant -/

/-- The cache agrees with the memory, or is known to be out of date. -/
structure CacheOk (c : GuestCPU) (m : GuestMemory) : Prop where
  le : c.cacheGeneration ≤ m.codeGeneration
  entries : c.cacheGeneration = m.codeGeneration → ∀ k, (c.cache k).valid = true →
    ∃ i, m.fetchOf ⟨c.cacheWriteProtected⟩ (c.cache k).pc.toNat = .ok i ∧
      c.cache k = decode (c.cache k).pc i

theorem CacheOk.congr {c c' : GuestCPU} {m : GuestMemory} (h : CacheOk c m)
    (hgen : c'.cacheGeneration = c.cacheGeneration)
    (hwp : c'.cacheWriteProtected = c.cacheWriteProtected) (hcache : c'.cache = c.cache) :
    CacheOk c' m := by
  refine ⟨by rw [hgen]; exact h.le, ?_⟩
  rw [hgen, hwp, hcache]
  exact h.entries

theorem CacheOk.codeStep {c : GuestCPU} {m m' : GuestMemory} (h : CacheOk c m)
    (hs : CodeStep m m') : CacheOk c m' := by
  have h1 := h.le
  have h2 := hs.le
  refine ⟨by omega, ?_⟩
  intro heq k hk
  obtain ⟨i, hi, hd⟩ := h.entries (by omega) k hk
  exact ⟨i, by rw [hs.fetch (by omega), hi], hd⟩

theorem flush_spec {c : GuestCPU} {m : GuestMemory} (h : CacheOk c m) :
    CacheOk (c.flush m) m ∧ (c.flush m).cacheGeneration = m.codeGeneration ∧
      (c.flush m).cacheWriteProtected = (c.flush m).thread.jitWriteProtected ∧
      (c.flush m).registers = c.registers ∧ (c.flush m).retired = c.retired ∧
      (c.flush m).thread = c.thread := by
  unfold GuestCPU.flush
  split
  · refine ⟨⟨le_rfl, ?_⟩, rfl, rfl, rfl, rfl, rfl⟩
    intro _ k hk
    cases hk
  · rename_i hcond
    push Not at hcond
    exact ⟨h, hcond.1, hcond.2, rfl, rfl, rfl⟩

theorem gmFetch_eq_fetchOf {m : GuestMemory} {t : GMThread} {a : ℕ} :
    (∀ i, m.fetchOf t a = .ok i → (m.gmFetch (some t) a).1 = .ok ∧
      (m.gmFetch (some t) a).2.2 = i) ∧
    (∀ r, m.fetchOf t a = .error r → (m.gmFetch (some t) a).1 = r ∧ r ≠ .ok) := by
  unfold fetchOf
  dsimp only
  constructor
  · intro i h
    split at h
    · rename_i hok
      cases h
      exact ⟨hok, rfl⟩
    · cases h
  · intro r h
    split at h
    · cases h
    · rename_i hno
      cases h
      exact ⟨rfl, hno⟩

/-- What `lookup` finds with an up-to-date cache is what a fetch decodes to. -/
theorem lookup_spec {c : GuestCPU} {m : GuestMemory} (hm : m.Wf) (h : CacheOk c m)
    (hgen : c.cacheGeneration = m.codeGeneration)
    (hwp : c.cacheWriteProtected = c.thread.jitWriteProtected) :
    ∃ c' m', c.lookup m =
        ((m.fetchOf c.thread c.registers.pc.toNat).map (decode c.registers.pc), c', m') ∧
      CacheOk c' m' ∧ SameButFault m m' ∧ c'.registers = c.registers ∧
      c'.retired = c.retired ∧ c'.thread = c.thread := by
  have ht : (⟨c.cacheWriteProtected⟩ : GMThread) = c.thread := by rw [hwp]
  unfold GuestCPU.lookup
  dsimp only
  split
  · -- A miss: fetch and decode.
    obtain ⟨hhit, hmiss⟩ :=
      gmFetch_eq_fetchOf (m := m) (t := c.thread) (a := c.registers.pc.toNat)
    have hsame := gmFetch_same hm (some c.thread) c.registers.pc.toNat
    have hok := h.codeStep (CodeStep.of_same hm hsame)
    cases hf : m.fetchOf c.thread c.registers.pc.toNat with
    | error r =>
        obtain ⟨hr, hne⟩ := hmiss r hf
        rw [if_pos (by rwa [hr]), hr]
        exact ⟨{ c with memoryResult := r }, _, rfl, hok.congr rfl rfl rfl, hsame, rfl, rfl, rfl⟩
    | ok i =>
        obtain ⟨hr, hi⟩ := hhit i hf
        rw [if_neg (not_not.2 hr), hr, hi]
        refine ⟨{ c with
          memoryResult := .ok
          cache := Function.update c.cache (GuestCPU.slot c.registers.pc)
            (decode c.registers.pc i) }, _, rfl, ⟨hok.le, ?_⟩, hsame, rfl, rfl, rfl⟩
        intro heq k hk
        dsimp only at hk heq ⊢
        by_cases hks : k = GuestCPU.slot c.registers.pc
        · subst hks
          rw [Function.update_self] at hk ⊢
          have hpc : (decode c.registers.pc i).pc = c.registers.pc := decode_pc _ _
          refine ⟨i, ?_, by rw [hpc]⟩
          rw [hpc, (CodeStep.of_same hm hsame).fetch hsame.codeGeneration, ht]
          exact hf
        · rw [Function.update_of_ne hks] at hk ⊢
          exact hok.entries heq k hk
  · -- A hit: the entry is what the fetch would give.
    rename_i hvalid
    push Not at hvalid
    rw [Ne, Bool.not_eq_false] at hvalid
    obtain ⟨i, hi, hd⟩ := h.entries hgen _ hvalid.1
    rw [ht, hvalid.2] at hi
    rw [hvalid.2] at hd
    refine ⟨c, m, ?_, h, SameButFault.refl m, rfl, rfl, rfl⟩
    rw [hi, hd]
    rfl

/-! ## Steps and runs -/

/-- The CPU with the cache and the one without are at the same point. -/
structure SameMachine (c : GuestCPU) (m : GuestMemory) (c' : FreshCPU) (m' : GuestMemory) :
    Prop where
  registers : c'.registers = c.registers
  retired : c'.retired = c.retired
  thread : c'.thread = c.thread
  memory : SameButFault m m'
  wf : m.Wf
  cache : CacheOk c m

theorem step_same (heap : Heap) {c : GuestCPU} {m : GuestMemory} {c' : FreshCPU}
    {m' : GuestMemory} (h : SameMachine c m c' m') :
    (c.step heap m).1 = (c'.step heap m').1 ∧
      SameMachine (c.step heap m).2.1 (c.step heap m).2.2 (c'.step heap m').2.1
        (c'.step heap m').2.2 := by
  obtain ⟨hflush, hgen, hwp, hfr, hft, hfth⟩ := flush_spec h.cache
  obtain ⟨c₁, m₁, hlook, hok₁, hsame₁, hr₁, ht₁, hth₁⟩ := lookup_spec h.wf hflush hgen hwp
  rw [hfr, hfth] at hlook
  rw [hfr] at hr₁
  rw [hft] at ht₁
  rw [hfth] at hth₁
  have hwf₁ := hsame₁.wf h.wf
  obtain ⟨hfetch1, hfetch2⟩ := gmFetch_congr h.memory (some c.thread) c.registers.pc.toNat
  obtain ⟨hhit, hmiss⟩ :=
    gmFetch_eq_fetchOf (m := m) (t := c.thread) (a := c.registers.pc.toNat)
  have hsame' := gmFetch_same (h.memory.wf h.wf) (some c.thread) c.registers.pc.toNat
  have hmem : SameButFault m₁ (m'.gmFetch (some c.thread) c.registers.pc.toNat).2.1 :=
    hsame₁.symm.trans (h.memory.trans hsame')
  unfold GuestCPU.step FreshCPU.step
  rw [hlook, h.registers, h.thread]
  dsimp only
  cases hf : m.fetchOf c.thread c.registers.pc.toNat with
  | error r =>
      obtain ⟨hr, hne⟩ := hmiss r hf
      rw [if_pos (by rw [hfetch1, hr]; exact hne)]
      exact ⟨rfl, h.registers.trans hr₁.symm, h.retired.trans ht₁.symm, h.thread.trans hth₁.symm,
        hmem, hwf₁, hok₁⟩
  | ok i =>
      obtain ⟨hr, hi⟩ := hhit i hf
      rw [if_neg (by rw [hfetch1, hr]; simp), hfetch2, hi]
      simp only [Except.map]
      rw [hr₁, hth₁]
      obtain ⟨hexec, hmem'⟩ :=
        execute_congr heap c.registers c.thread (decode c.registers.pc i) hmem
      have hcode := execute_codeStep heap c.registers c.thread (decode c.registers.pc i) hwf₁
      have hok₂ := hok₁.codeStep hcode
      generalize execute heap c.registers c.thread (decode c.registers.pc i) m₁ = e at *
      generalize execute heap c.registers c.thread (decode c.registers.pc i)
        (m'.gmFetch (some c.thread) c.registers.pc.toNat).2.1 = e' at *
      obtain ⟨x, n⟩ := e
      obtain ⟨x', n'⟩ := e'
      dsimp only at hexec hmem' hcode hok₂
      subst hexec
      cases x' with
      | retired registers =>
          exact ⟨rfl, rfl, by dsimp only; rw [h.retired, ht₁], rfl, hmem', hcode.wf,
            hok₂.congr rfl rfl rfl⟩
      | fault result =>
          exact ⟨rfl, h.registers, h.retired.trans ht₁.symm, h.thread, hmem', hcode.wf,
            hok₂.congr rfl rfl rfl⟩
      | unsupported =>
          exact ⟨rfl, h.registers, h.retired.trans ht₁.symm, h.thread, hmem', hcode.wf,
            hok₂.congr rfl rfl rfl⟩

/-- What happens outside keeps the two CPUs together. -/
theorem outside_same {c : GuestCPU} {m : GuestMemory} {c' : FreshCPU} {m' : GuestMemory}
    (h : SameMachine c m c' m') (o : Outside) :
    SameMachine { c with thread := (o.apply (c.thread, m)).1 } (o.apply (c.thread, m)).2
      { c' with thread := (o.apply (c'.thread, m')).1 } (o.apply (c'.thread, m')).2 := by
  cases o with
  | memory op =>
      have hcode := apply_codeStep h.wf op
      exact ⟨h.registers, h.retired, h.thread, apply_congr h.memory op, hcode.wf,
        (h.cache.codeStep hcode).congr rfl rfl rfl⟩
  | jitWriteProtected value =>
      exact ⟨h.registers, h.retired, rfl, h.memory, h.wf, h.cache.congr rfl rfl rfl⟩

theorem outsideAll_same (l : List Outside) :
    ∀ {c : GuestCPU} {m : GuestMemory} {c' : FreshCPU} {m' : GuestMemory},
      SameMachine c m c' m' →
        SameMachine { c with thread := (outsideAll (c.thread, m) l).1 }
          (outsideAll (c.thread, m) l).2
          { c' with thread := (outsideAll (c'.thread, m') l).1 }
          (outsideAll (c'.thread, m') l).2 := by
  induction l with
  | nil =>
      intro c m c' m' h
      exact h
  | cons o l ih =>
      intro c m c' m' h
      exact ih (outside_same h o)

/-- `gc_run` and the run without a cache end alike. -/
theorem run_same (heap : ℕ → Heap) (outside : ℕ → List Outside) (returnPc : BitVec 64) (n : ℕ) :
    ∀ {c : GuestCPU} {m : GuestMemory} {c' : FreshCPU} {m' : GuestMemory},
      SameMachine c m c' m' →
        (gcRun heap outside returnPc n c m).1 = (freshRun heap outside returnPc n c' m').1 ∧
          SameMachine (gcRun heap outside returnPc n c m).2.1
            (gcRun heap outside returnPc n c m).2.2
            (freshRun heap outside returnPc n c' m').2.1
            (freshRun heap outside returnPc n c' m').2.2 := by
  induction n with
  | zero =>
      intro c m c' m' h
      exact ⟨by rw [gcRun, freshRun, h.registers], h⟩
  | succ n ih =>
      intro c m c' m' h
      have hout := outsideAll_same (outside n) h
      obtain ⟨hres, hstep⟩ := step_same (heap n) hout
      rw [gcRun, freshRun]
      dsimp only
      by_cases hpc : c.registers.pc = returnPc
      · rw [if_pos hpc, if_pos (by rwa [h.registers])]
        exact ⟨rfl, hout⟩
      rw [if_neg hpc, if_neg (by rwa [h.registers])]
      generalize GuestCPU.step (heap n) _ _ = e at *
      generalize FreshCPU.step (heap n) _ _ = e' at *
      obtain ⟨r, c₁, m₁⟩ := e
      obtain ⟨r', c₁', m₁'⟩ := e'
      dsimp only at hres hstep
      subst hres
      cases r with
      | none => exact ih hstep
      | some result => exact ⟨rfl, hstep⟩

/-! ## Sessions -/

/-- What the owner of a CPU does with it: run it, work on its memory or its write
protection, or set its registers. -/
inductive Event where
  | run (heap : ℕ → Heap) (outside : ℕ → List Outside) (returnPc : BitVec 64) (budget : ℕ)
  | outside (o : Outside)
  | registers (registers : GCRegisters)

/-- What can be seen after an event: the answer of the run if it was one, the
registers with the flags, the retired count and the contents of the memory. -/
structure Seen where
  result : Option GCResult
  registers : GCRegisters
  retired : BitVec 64
  pages : List GMPage

def session (c : GuestCPU) (m : GuestMemory) : List Event → List Seen
  | [] => []
  | .run heap outside returnPc budget :: events =>
    let e := gcRun heap outside returnPc budget c m
    ⟨some e.1, e.2.1.registers, e.2.1.retired, e.2.2.pages⟩ :: session e.2.1 e.2.2 events
  | .outside o :: events =>
    let s := o.apply (c.thread, m)
    ⟨none, c.registers, c.retired, s.2.pages⟩ :: session { c with thread := s.1 } s.2 events
  | .registers registers :: events =>
    ⟨none, registers, c.retired, m.pages⟩ :: session { c with registers := registers } m events

/-- The same events on a CPU that fetches and decodes at every step. -/
def freshSession (c : FreshCPU) (m : GuestMemory) : List Event → List Seen
  | [] => []
  | .run heap outside returnPc budget :: events =>
    let e := freshRun heap outside returnPc budget c m
    ⟨some e.1, e.2.1.registers, e.2.1.retired, e.2.2.pages⟩ :: freshSession e.2.1 e.2.2 events
  | .outside o :: events =>
    let s := o.apply (c.thread, m)
    ⟨none, c.registers, c.retired, s.2.pages⟩ :: freshSession { c with thread := s.1 } s.2 events
  | .registers registers :: events =>
    ⟨none, registers, c.retired, m.pages⟩ :: freshSession { c with registers := registers } m events

theorem session_same (events : List Event) :
    ∀ {c : GuestCPU} {m : GuestMemory} {c' : FreshCPU} {m' : GuestMemory},
      SameMachine c m c' m' → session c m events = freshSession c' m' events := by
  induction events with
  | nil =>
      intro c m c' m' _
      rfl
  | cons e events ih =>
      intro c m c' m' h
      cases e with
      | run heap outside returnPc budget =>
          obtain ⟨hres, hsame⟩ := run_same heap outside returnPc budget h
          rw [session, freshSession, ih hsame, hres, hsame.registers, hsame.retired, hsame.memory.pages]
      | outside o =>
          have hsame := outside_same h o
          rw [session, freshSession, ih hsame, h.registers, h.retired, hsame.memory.pages]
      | registers registers =>
          have hsame : SameMachine { c with registers := registers } m
              { c' with registers := registers } m' :=
            ⟨rfl, h.retired, h.thread, h.memory, h.wf, h.cache.congr rfl rfl rfl⟩
          rw [session, freshSession, ih hsame, h.retired, h.memory.pages]

/-- The cache of a CPU just reset is empty. -/
theorem cacheOk_gcReset (entry stack : BitVec 64) (m : GuestMemory) :
    CacheOk (gcReset entry stack) m := by
  refine ⟨Nat.zero_le _, ?_⟩
  intro _ k hk
  cases hk

theorem wf_applyAll (setup : List MemoryOp) :
    ∀ {m : GuestMemory}, m.Wf → (setup.foldl MemoryOp.apply m).Wf := by
  induction setup with
  | nil =>
      intro m hm
      exact hm
  | cons op setup ih =>
      intro m hm
      exact ih (apply_codeStep hm op).wf

/-- The decode cache is invisible. From a CPU just reset and a memory that any
calls built, any events give the same to see as without a cache. -/
theorem session_eq_freshSession (setup : List MemoryOp) (entry stack : BitVec 64)
    (events : List Event) :
    session (gcReset entry stack) (setup.foldl MemoryOp.apply fresh) events =
      freshSession ⟨(gcReset entry stack).registers, 0#64, ⟨true⟩⟩
        (setup.foldl MemoryOp.apply fresh) events := by
  apply session_same
  exact ⟨rfl, rfl, rfl, SameButFault.refl _, wf_applyAll setup wf_fresh,
    cacheOk_gcReset entry stack _⟩

end Tolkara
