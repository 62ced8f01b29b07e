import Tolkara.Fixups.Formats

/-!
# What is said is done

Between two steps of a call the pointers `done` are written, each with the value of its meaning.
A step reads only a pointer that is not among them, so it finds there what the memory said in the
beginning.
-/

namespace Tolkara

open Library

namespace GuestFixups

variable {σ : Type} {host : GFHost σ} {resolve : CString → ℤ → ℕ} {image : LoadedImage}
  {slide : ℕ} {m : Flat} {s : Fixing σ} {done : List GFPointer}

/-- A resolver that knows every symbol, and a heap that gives what is asked for. -/
structure Answers (host : GFHost σ) (resolve : CString → ℤ → ℕ) : Prop where
  resolved : ∀ context symbol ordinal weak lazy,
    (host.resolve context symbol ordinal weak lazy).1 = (true, resolve symbol ordinal)
  malloc : ∀ k, host.malloc k = true
  heap : ∀ k i, host.heap k i = true

/-- A pointer that can be read. -/
def Ready (m : Flat) (a : ℕ) : Prop := a + 8 ≤ uint64Max ∧ m.access a 8 GM.READ = .ok

/-- Two pointers have no byte in common. -/
def GFPointer.Apart (p q : GFPointer) : Prop :=
  p.address + 8 ≤ q.address ∨ q.address + 8 ≤ p.address

/-- Pointers that are apart and can be read. -/
structure Fine (m : Flat) (l : List GFPointer) : Prop where
  apart : l.Pairwise GFPointer.Apart
  ready : ∀ p ∈ l, Ready m p.address

def rebaseCount (l : List GFPointer) : ℕ := l.countP fun p => p.meaning.isRebase

def bindCount (l : List GFPointer) : ℕ := l.countP fun p => !p.meaning.isRebase

@[simp] theorem rebaseCount_append (l l' : List GFPointer) :
    rebaseCount (l ++ l') = rebaseCount l + rebaseCount l' := List.countP_append

@[simp] theorem bindCount_append (l l' : List GFPointer) :
    bindCount (l ++ l') = bindCount l + bindCount l' := List.countP_append

/-- No more of them than the opcodes may ask for. -/
def Within (l : List GFPointer) : Prop := rebaseCount l ≤ 1000000 ∧ bindCount l ≤ 1000000

/-- The pointers of `done` are written and reported, and nothing else. -/
structure Written (resolve : CString → ℤ → ℕ) (slide : ℕ) (m : Flat) (done : List GFPointer)
    (s : Fixing σ) : Prop where
  wf : s.memory.Wf
  flat : s.memory.flat = after m (done.map (GFPointer.observation resolve slide))
  observed : s.observed = done.map (GFPointer.observation resolve slide)

/-- They are counted as well. -/
structure Done (resolve : CString → ℤ → ℕ) (slide : ℕ) (m : Flat) (done : List GFPointer)
    (s : Fixing σ) : Prop extends Written resolve slide m done s where
  rebases : s.rebases = rebaseCount done
  binds : s.binds = bindCount done

/-- A part of a call that answers `a` and writes the pointers of `l`. -/
abbrev Does {α : Type} (resolve : CString → ℤ → ℕ) (slide : ℕ) (m : Flat) (l : List GFPointer)
    (x : Fix σ α) (s : Fixing σ) (a : α) : Prop :=
  x.Meets s (fun b t => b = a ∧ Done resolve slide m l t) fun _ _ => False

theorem Fine.left {l l' : List GFPointer} (h : Fine m (l ++ l')) : Fine m l where
  apart := (List.pairwise_append.1 h.apart).1
  ready p hp := h.ready p (List.mem_append_left _ hp)

theorem Within.left {l l' : List GFPointer} (h : Within (l ++ l')) : Within l := by
  unfold Within at h ⊢
  rw [rebaseCount_append, bindCount_append] at h
  exact ⟨by omega, by omega⟩

/-! ## One pointer -/

theorem Written.access (h : Written resolve slide m done s) (a n : ℕ) (permission : Prot) :
    s.memory.flat.access a n permission = m.access a n permission := by
  rw [h.flat, after, Flat.access, Flat.perm_storeAll]
  rfl

/-- A pointer that is still to come is as it was. -/
theorem Written.word (h : Written resolve slide m done s) {p : GFPointer}
    (hfine : Fine m (done ++ [p])) : s.memory.flat.word p.address = m.word p.address := by
  obtain ⟨-, -, hapart⟩ := List.pairwise_append.1 hfine.apart
  rw [h.flat, after]
  refine Flat.word_storeAll_of_apart m (w := (p.address, 0)) fun v hv => ?_
  rw [List.map_map] at hv
  obtain ⟨q, hq, rfl⟩ := List.mem_map.1 hv
  exact hapart q hq p (List.mem_singleton_self p)

theorem ready_last {p : GFPointer} (hfine : Fine m (done ++ [p])) : Ready m p.address :=
  hfine.ready p (List.mem_append_right _ (List.mem_singleton_self p))

theorem readBytes_run (hwf : s.memory.Wf) {a n : ℕ} (hle : a + n ≤ uint64Max)
    (hok : s.memory.flat.access a n GM.READ = .ok) :
    ∃ memory, memory.Wf ∧ memory.flat = s.memory.flat ∧
      readBytes a n s = (.ok (some (s.memory.flat.bytes a n)), { s with memory := memory }) := by
  obtain ⟨f, hcopy⟩ := GuestMemory.copy_read hwf (fun _ => true) none a (fun _ => 0) n GM.READ
  rw [GuestMemory.answer_flat _ hle, hok, if_pos rfl] at hcopy
  refine ⟨{ s.memory with faultAddress := f }, ⟨hwf.sorted, hwf.aligned, hwf.bounded⟩,
    GuestMemory.flat_of_viewAt fun _ => rfl, ?_⟩
  unfold readBytes GuestMemory.gmRead
  rw [hcopy]
  rfl

theorem readWord_run (h : Written resolve slide m done s) {p : GFPointer}
    (hfine : Fine m (done ++ [p])) :
    ∃ memory, memory.Wf ∧ memory.flat = s.memory.flat ∧
      readWord p.address s = (.ok (some (m.word p.address)), { s with memory := memory }) := by
  obtain ⟨hle, hok⟩ := ready_last hfine
  obtain ⟨memory, hwf, hflat, hrun⟩ := readBytes_run h.wf hle ((h.access _ _ _).trans hok)
  refine ⟨memory, hwf, hflat, ?_⟩
  rw [readWord, Attempt.run_bind hrun, ← h.word hfine]
  rfl

theorem ask_run (hhost : Answers host resolve) (s : Fixing σ) (symbol : CString) (ordinal : ℤ)
    (weak lazy : Bool) :
    ∃ context, ask host symbol ordinal weak lazy s =
      (.ok (true, resolve symbol ordinal), { s with context := context }) := by
  refine ⟨(host.resolve s.context symbol ordinal weak lazy).2, ?_⟩
  unfold ask
  dsimp only
  rw [hhost.resolved]

theorem access_mapped {a n : ℕ} {permission : Prot} (h : m.access a n permission = .ok) :
    m.access a n 0#32 = .ok := by
  rw [Flat.access, checkPages_eq_ok_iff] at h ⊢
  intro i hi
  obtain ⟨t, ht, -⟩ := h i hi
  exact ⟨t, ht, by simp [Flat.lacks]⟩

theorem gmPopulate_ok {memory : GuestMemory} {heap : Heap} (hwf : memory.Wf)
    (hheap : ∀ i, heap i = true) {a : ℕ} (hle : a + 8 ≤ uint64Max) {permission : Prot}
    (hok : memory.flat.access a 8 permission = .ok) (buffer : Buffer) :
    (memory.gmPopulate heap a (some buffer) 8).1 = .ok := by
  have hanswer : memory.answer none a 8 0#32 = .ok := by
    rw [GuestMemory.answer_flat _ hle]
    exact access_mapped hok
  obtain ⟨r, memory', heq, -, hcases⟩ :=
    GuestMemory.copy_write hwf heap none a (some buffer) 8 0#32
  rw [GuestMemory.gmPopulate, heq]
  rcases hcases with ⟨-, hbad, -⟩ | ⟨-, -, -, ⟨hnull, -⟩ | ⟨-, k, hk⟩⟩ | ⟨b, -, -, -, hr, -⟩
  · exact absurd hanswer (hbad.resolve_right (by decide))
  · cases hnull
  · rw [hheap k] at hk
    cases hk
  · exact hr

theorem writeWord_run (hhost : Answers host resolve) (h : Written resolve slide m done s)
    {p : GFPointer} (hfine : Fine m (done ++ [p])) (value : ℕ) :
    ∃ memory, memory.Wf ∧ memory.flat = s.memory.flat.store (p.address, value) ∧
      writeWord host p.address value s = (.ok true, { s with memory := memory }) := by
  obtain ⟨hle, hok⟩ := ready_last hfine
  have hpopulate : (s.memory.gmPopulate (host.heap s.observed.length) p.address
      (some (byteOf value)) 8).1 = .ok :=
    gmPopulate_ok h.wf (hhost.heap _) hle ((h.access _ _ _).trans hok) _
  obtain ⟨hwf, hflat⟩ :=
    GuestMemory.gmPopulate_flat h.wf (host.heap s.observed.length) p.address value
  rw [if_pos hpopulate] at hflat
  refine ⟨_, hwf, hflat, ?_⟩
  unfold writeWord
  dsimp only
  rw [decide_eq_true hpopulate]

theorem Written.same {t : Fixing σ} (h : Written resolve slide m done s)
    (hwf : t.memory.Wf) (hflat : t.memory.flat = s.memory.flat)
    (hobserved : t.observed = s.observed) : Written resolve slide m done t :=
  ⟨hwf, hflat.trans h.flat, hobserved.trans h.observed⟩

/-- A pointer that is counted and written is done once it is reported. -/
theorem notify_does (h : Written resolve slide m done s) {p : GFPointer}
    (hrebases : s.rebases = rebaseCount (done ++ [p]))
    (hbinds : s.binds = bindCount (done ++ [p]))
    {memory : GuestMemory} (hwf : memory.Wf)
    (hflat : memory.flat = s.memory.flat.store (p.address, p.meaning.value resolve slide)) :
    Does resolve slide m (done ++ [p])
      (notify p.address (p.meaning.value resolve slide) p.meaning.symbol)
      { s with memory := memory } () := by
  refine Attempt.meets_change.2 ⟨rfl, ⟨⟨hwf, ?_, ?_⟩, hrebases, hbinds⟩⟩
  · rw [after, List.map_map, List.map_append, List.map_singleton, Flat.storeAll_concat]
    rw [h.flat, after, List.map_map] at hflat
    exact hflat
  · rw [List.map_append, List.map_singleton, ← h.observed]
    rfl

theorem report_does {τ : Type} (hhost : Answers host resolve) (h : Written resolve slide m done s)
    {p : GFPointer} (hfine : Fine m (done ++ [p]))
    (hrebases : s.rebases = rebaseCount (done ++ [p]))
    (hbinds : s.binds = bindCount (done ++ [p])) (e : GFError)
    (answer : τ) :
    Does resolve slide m (done ++ [p]) (do
      let written ← writeWord host p.address (p.meaning.value resolve slide)
      .check (written = true) e
      notify p.address (p.meaning.value resolve slide) p.meaning.symbol
      return answer) s answer := by
  obtain ⟨memory, hwf, hflat, hrun⟩ :=
    writeWord_run hhost h hfine (p.meaning.value resolve slide)
  refine Attempt.meets_bind.2 (Attempt.meets_of_run hrun ?_)
  refine Attempt.meets_bind.2 (Attempt.meets_check.2 ⟨fun _ => ?_, fun hno => absurd rfl hno⟩)
  exact Attempt.meets_bind.2 ((notify_does h hrebases hbinds hwf hflat).imp
    (fun _ _ h => ⟨rfl, h.2⟩) fun _ _ => id)

/-! ## Opcodes -/

theorem rebaseOnce_does (hhost : Answers host resolve) (h : Done resolve slide m done s)
    (c : Cursor) {skip : ℕ} {r r' : Rebasing} {p : GFPointer}
    (hsaid : rebaseOnceSaid image m skip r = some (p, r')) (hfine : Fine m (done ++ [p]))
    (hwithin : Within (done ++ [p])) :
    Does resolve slide m (done ++ [p]) (rebaseOnce host image slide c skip r) s r' := by
  unfold rebaseOnceSaid at hsaid
  split_ifs at hsaid with htype
  obtain ⟨address, htarget, hsaid⟩ := Option.bind_eq_some_iff.1 hsaid
  obtain ⟨offset, hoffset, hsaid⟩ := Option.bind_eq_some_iff.1 hsaid
  cases hsaid
  have hrebases := rebaseCount_append done [⟨address, .rebase (m.word address)⟩]
  have hbinds := bindCount_append done [⟨address, .rebase (m.word address)⟩]
  change _ = rebaseCount done + 1 at hrebases
  change _ = bindCount done at hbinds
  generalize hs' : { s with rebases := s.rebases + 1 } = s'
  have hs : Written resolve slide m done s' := hs' ▸ ⟨h.wf, h.flat, h.observed⟩
  have hcounted : s'.rebases = s.rebases + 1 := hs' ▸ rfl
  unfold Does rebaseOnce
  refine Attempt.meets_bind.2 (Attempt.meets_check.2 ⟨fun _ => ?_, fun hno => hno htype⟩)
  refine Attempt.meets_bind.2 (Attempt.meets_change.2 ?_)
  rw [hs']
  refine Attempt.meets_bind.2 (Attempt.meets_observe.2 ?_)
  refine Attempt.meets_bind.2 (Attempt.meets_check.2 ⟨fun _ => ?_, fun hno => hno ?_⟩)
  swap
  · rw [hcounted, h.rebases, ← hrebases]
    exact hwithin.1
  rw [htarget]
  refine Attempt.meets_bind.2 (Attempt.meets_ok.2 ?_)
  obtain ⟨memory, hwf, hflat, hrun⟩ := readWord_run hs hfine
  refine Attempt.meets_bind.2 (Attempt.meets_of_run hrun ?_)
  refine Attempt.meets_bind.2 (Attempt.meets_ok.2 ?_)
  have ht : Written resolve slide m done { s' with memory := memory } := hs.same hwf hflat rfl
  obtain ⟨memory', hwf', hflat', hrun'⟩ :=
    writeWord_run hhost ht hfine ((m.word address + slide) % 2 ^ 64)
  refine Attempt.meets_bind.2 (Attempt.meets_of_run hrun' ?_)
  refine Attempt.meets_bind.2 (Attempt.meets_check.2 ⟨fun _ => ?_, fun hno => absurd rfl hno⟩)
  rw [hoffset]
  refine Attempt.meets_bind.2 (Attempt.meets_ok.2 ?_)
  refine Attempt.meets_bind.2 ((notify_does ht ?_ ?_ hwf' hflat').imp (fun _ _ h => ⟨rfl, h.2⟩)
    fun _ _ => id)
  · rw [hrebases, ← h.rebases]
    exact hcounted
  · rw [hbinds, ← h.binds]
    exact hs' ▸ rfl

theorem bindOnce_does (hhost : Answers host resolve) (h : Done resolve slide m done s)
    (lazy weakStream : Bool) (c : Cursor) {skip : ℕ} {r r' : Binding} {p : GFPointer}
    (hsaid : bindOnceSaid image skip r = some (p, r')) (hfine : Fine m (done ++ [p]))
    (hwithin : Within (done ++ [p])) :
    Does resolve slide m (done ++ [p]) (bindOnce host image lazy weakStream c skip r) s r' := by
  unfold bindOnceSaid at hsaid
  split_ifs at hsaid with hgood
  obtain ⟨htype, hordinal⟩ := hgood
  obtain ⟨symbol, hsymbol, hsaid⟩ := Option.bind_eq_some_iff.1 hsaid
  obtain ⟨address, htarget, hsaid⟩ := Option.bind_eq_some_iff.1 hsaid
  cases hsaid
  have hrebases := rebaseCount_append done
    [⟨address, .bind symbol r.ordinal (r.addend % 2 ^ 64)⟩]
  have hbinds := bindCount_append done [⟨address, .bind symbol r.ordinal (r.addend % 2 ^ 64)⟩]
  change _ = rebaseCount done at hrebases
  change _ = bindCount done + 1 at hbinds
  generalize hs' : { s with binds := s.binds + 1 } = s'
  have hs : Written resolve slide m done s' := hs' ▸ ⟨h.wf, h.flat, h.observed⟩
  have hcounted : s'.binds = s.binds + 1 := hs' ▸ rfl
  unfold Does bindOnce
  refine Attempt.meets_bind.2 (Attempt.meets_check.2 ⟨fun _ => ?_, fun hno => hno htype⟩)
  rw [hsymbol]
  refine Attempt.meets_bind.2 (Attempt.meets_ok.2 ?_)
  refine Attempt.meets_bind.2 (Attempt.meets_check.2 ⟨fun _ => ?_, fun hno => hno hordinal⟩)
  refine Attempt.meets_bind.2 (Attempt.meets_change.2 ?_)
  rw [hs']
  refine Attempt.meets_bind.2 (Attempt.meets_observe.2 ?_)
  refine Attempt.meets_bind.2 (Attempt.meets_check.2 ⟨fun _ => ?_, fun hno => hno ?_⟩)
  swap
  · rw [hcounted, h.binds, ← hbinds]
    exact hwithin.2
  rw [htarget]
  refine Attempt.meets_bind.2 (Attempt.meets_ok.2 ?_)
  obtain ⟨context, hask⟩ := ask_run hhost s' symbol r.ordinal (r.flags % 2 = 1 || weakStream) lazy
  refine Attempt.meets_bind.2 (Attempt.meets_of_run hask ?_)
  refine Attempt.meets_bind.2 (Attempt.meets_check.2 ⟨fun _ => ?_, fun hno => absurd rfl hno⟩)
  have ht : Written resolve slide m done { s' with context := context } :=
    hs.same hs.wf rfl rfl
  have hvalue : (resolve symbol r.ordinal + r.addend) % 2 ^ 64 =
      (GFMeaning.bind symbol r.ordinal (r.addend % 2 ^ 64)).value resolve slide :=
    (Nat.add_mod_mod _ _ _).symm
  dsimp only
  rw [hvalue]
  refine report_does hhost ht hfine ?_ ?_ _ _
  · rw [hrebases, ← h.rebases]
    exact hs' ▸ rfl
  · rw [hbinds, ← h.binds]
    exact hcounted

section Loops

variable {ρ : Type} {once : ρ → Option (GFPointer × ρ)}

theorem run_does {step : ρ → Fix σ ρ} {run : ℕ → ρ → Fix σ ρ} (hzero : ∀ r, run 0 r = pure r)
    (hsucc : ∀ count r, run (count + 1) r = step r >>= run count)
    (hstep : ∀ done s r p r', Done resolve slide m done s → once r = some (p, r') →
      Fine m (done ++ [p]) → Within (done ++ [p]) →
      Does resolve slide m (done ++ [p]) (step r) s r')
    {count : ℕ} {r r' : ρ} {l : List GFPointer} (h : Done resolve slide m done s)
    (hsaid : runSaid once count r = some (l, r')) (hfine : Fine m (done ++ l))
    (hwithin : Within (done ++ l)) : Does resolve slide m (done ++ l) (run count r) s r' := by
  induction count generalizing r l done s with
  | zero =>
      cases hsaid
      rw [List.append_nil, hzero]
      exact ⟨rfl, h⟩
  | succ count ih =>
      obtain ⟨⟨p, r₁⟩, honce, hsaid⟩ := Option.bind_eq_some_iff.1 hsaid
      obtain ⟨⟨rest, r₂⟩, hrest, hsaid⟩ := Option.bind_eq_some_iff.1 hsaid
      cases hsaid
      have happend : done ++ p :: rest = (done ++ [p]) ++ rest := List.append_cons done p rest
      rw [happend] at hfine hwithin ⊢
      rw [hsucc]
      refine Attempt.meets_bind.2 ((hstep done s r p r₁ h honce hfine.left hwithin.left).imp
        (fun r₁' t ht => ?_) fun _ _ => id)
      obtain ⟨rfl, ht⟩ := ht
      exact ih ht hrest hfine hwithin

end Loops

theorem rebaseLoop_does (hhost : Answers host resolve) {fuel : ℕ} {c : Cursor} {r : Rebasing}
    {l : List GFPointer} (h : Done resolve slide m done s)
    (hsaid : rebaseLoopSaid image m fuel c r = some l) (hfine : Fine m (done ++ l))
    (hwithin : Within (done ++ l)) :
    Does resolve slide m (done ++ l) (rebaseLoop host image slide fuel c r) s () := by
  induction fuel generalizing c r l done s with
  | zero => cases hsaid
  | succ fuel ih =>
      rw [rebaseLoopSaid] at hsaid
      rw [rebaseLoop]
      generalize c.bytes[c.p]? = next at hsaid ⊢
      obtain _ | byte := next
      · cases hsaid
      dsimp only at hsaid ⊢
      generalize rebaseOpcode (byte.toNat / 16) (byte.toNat % 16) { c with p := c.p + 1 } r =
        decoded at hsaid ⊢
      obtain _ | c' | ⟨c', r', count, skip⟩ := decoded
      · cases hsaid
        rw [List.append_nil]
        exact ⟨rfl, h⟩
      · cases hsaid
      dsimp only at hsaid ⊢
      split_ifs at hsaid with hbad
      rw [if_neg hbad]
      obtain ⟨⟨first, r₁⟩, hfirst, hsaid⟩ := Option.bind_eq_some_iff.1 hsaid
      obtain ⟨rest, hrest, hsaid⟩ := Option.bind_eq_some_iff.1 hsaid
      cases hsaid
      rw [← List.append_assoc] at hfine hwithin ⊢
      refine Attempt.meets_bind.2 ((run_does (fun _ => rfl) (fun _ _ => rfl)
        (fun done s r p r' h => rebaseOnce_does hhost h c') h hfirst hfine.left
        hwithin.left).imp (fun r₁' t ht => ?_) fun _ _ => id)
      obtain ⟨rfl, ht⟩ := ht
      exact ih ht hrest hfine hwithin

theorem bindLoop_does (hhost : Answers host resolve) (lazy weakStream : Bool) {fuel : ℕ}
    {c : Cursor} {r : Binding} {l : List GFPointer} (h : Done resolve slide m done s)
    (hsaid : bindLoopSaid image lazy fuel c r = some l) (hfine : Fine m (done ++ l))
    (hwithin : Within (done ++ l)) :
    Does resolve slide m (done ++ l) (bindLoop host image lazy weakStream fuel c r) s () := by
  induction fuel generalizing c r l done s with
  | zero =>
      rw [bindLoopSaid] at hsaid
      rw [bindLoop]
      split_ifs at hsaid ⊢
      cases hsaid
      rw [List.append_nil]
      exact ⟨rfl, h⟩
  | succ fuel ih =>
      rw [bindLoopSaid] at hsaid
      rw [bindLoop]
      generalize c.bytes[c.p]? = next at hsaid ⊢
      obtain _ | byte := next
      · dsimp only at hsaid ⊢
        split_ifs at hsaid ⊢
        cases hsaid
        rw [List.append_nil]
        exact ⟨rfl, h⟩
      dsimp only at hsaid ⊢
      generalize bindOpcode image.dylibs.length lazy (byte.toNat / 16) (byte.toNat % 16)
        { c with p := c.p + 1 } { r with ended := false } = decoded at hsaid ⊢
      obtain _ | c' | ⟨c', r', count, skip⟩ := decoded
      · cases hsaid
        rw [List.append_nil]
        exact ⟨rfl, h⟩
      · cases hsaid
      dsimp only at hsaid ⊢
      split_ifs at hsaid with hbad
      rw [if_neg hbad]
      obtain ⟨⟨first, r₁⟩, hfirst, hsaid⟩ := Option.bind_eq_some_iff.1 hsaid
      obtain ⟨rest, hrest, hsaid⟩ := Option.bind_eq_some_iff.1 hsaid
      cases hsaid
      rw [← List.append_assoc] at hfine hwithin ⊢
      refine Attempt.meets_bind.2 ((run_does (fun _ => rfl) (fun _ _ => rfl)
        (fun done s r p r' h => bindOnce_does hhost h lazy weakStream c') h hfirst hfine.left
        hwithin.left).imp (fun r₁' t ht => ?_) fun _ _ => id)
      obtain ⟨rfl, ht⟩ := ht
      exact ih ht hrest hfine hwithin

/-- No pointer lies in the stream. -/
def Beside (image : LoadedImage) (l : List GFPointer) (range : ℕ × ℕ) : Prop :=
  ∀ place, streamPlace image range = some place →
    ∀ p ∈ l, p.address + 8 ≤ place ∨ place + range.2 ≤ p.address

theorem Written.bytes (h : Written resolve slide m done s) {a n : ℕ}
    (hbeside : ∀ p ∈ done, p.address + 8 ≤ a ∨ a + n ≤ p.address) :
    s.memory.flat.bytes a n = m.bytes a n := by
  refine List.map_congr_left fun i hi => ?_
  have hi := List.mem_range.1 hi
  rw [h.flat, after]
  refine Flat.byte_storeAll_of_outside m fun w hw => ?_
  rw [List.map_map] at hw
  obtain ⟨p, hp, rfl⟩ := List.mem_map.1 hw
  have hapart := hbeside p hp
  change ¬(p.address ≤ a + i ∧ a + i < p.address + 8)
  omega

theorem stream_does (hhost : Answers host resolve) (h : Done resolve slide m done s) (buffer : ℕ)
    {range : ℕ × ℕ} {bytes : List UInt8} (hsaid : streamSaid image m range = some bytes)
    (hbeside : Beside image done range) :
    Does resolve slide m done (stream host image buffer range.1 range.2) s (some bytes) := by
  obtain ⟨place, hplace, hsaid⟩ := Option.bind_eq_some_iff.1 hsaid
  split_ifs at hsaid with hgood
  obtain ⟨hsize, hle, hok⟩ := hgood
  cases hsaid
  have hsame := h.bytes (hbeside place hplace)
  obtain ⟨segment, hsegment, hplace⟩ := Option.map_eq_some_iff.1 hplace
  obtain ⟨memory, hwf, hflat, hrun⟩ := readBytes_run h.wf hle ((h.access _ _ _).trans hok)
  rw [stream, if_neg (by omega), hsegment]
  dsimp only
  rw [if_pos (hhost.malloc buffer), hplace]
  rw [hsame] at hrun
  exact Attempt.meets_of_run hrun ⟨rfl, ⟨h.same hwf hflat rfl, h.rebases, h.binds⟩⟩

theorem describe_does {l : List GFPointer} (i : ℕ) {x : Fix σ Unit}
    (h : Does resolve slide m l x s ()) : Does resolve slide m l (describe i x) s () := by
  rw [describe, Does, Attempt.meets_rescue]
  exact h.imp (fun _ _ => id) fun _ _ => False.elim

theorem opcodeStream_does (hhost : Answers host resolve) (h : Done resolve slide m done s) (i : ℕ)
    {range : ℕ × ℕ} {l : List GFPointer} (hsaid : opcodeStreamSaid image m i range = some l)
    (hbeside : Beside image done range) (hfine : Fine m (done ++ l))
    (hwithin : Within (done ++ l)) :
    Does resolve slide m (done ++ l) (opcodeStream host image slide i range) s () := by
  unfold opcodeStreamSaid at hsaid
  unfold opcodeStream
  by_cases hempty : range.2 = 0
  · rw [if_pos hempty] at hsaid ⊢
    cases hsaid
    rw [List.append_nil]
    exact ⟨rfl, h⟩
  rw [if_neg hempty] at hsaid ⊢
  obtain ⟨bytes, hbytes, hsaid⟩ := Option.bind_eq_some_iff.1 hsaid
  refine Attempt.meets_bind.2 ((stream_does hhost h i hbytes hbeside).imp
    (fun read t ht => ?_) fun _ _ => id)
  obtain ⟨rfl, ht⟩ := ht
  refine Attempt.meets_bind.2 (Attempt.meets_ok.2 (describe_does i ?_))
  by_cases hi : i = 0
  · rw [if_pos hi] at hsaid ⊢
    exact rebaseLoop_does hhost ht hsaid hfine hwithin
  · rw [if_neg hi] at hsaid ⊢
    unfold binds
    simp only [decide_eq_true_eq]
    exact bindLoop_does hhost _ _ ht hsaid hfine hwithin

theorem opcodes_does (hhost : Answers host resolve) (h : Done resolve slide m [] s)
    {l : List GFPointer} (hsaid : opcodesSaid image m = some l)
    (hbeside : ∀ range ∈ [image.dyldInfo.lazyBind, image.dyldInfo.bind, image.dyldInfo.weakBind],
      Beside image l range) (hfine : Fine m l) (hwithin : Within l) :
    Does resolve slide m l (opcodes host image slide) s () := by
  obtain ⟨rebases, hrebases, hsaid⟩ := Option.bind_eq_some_iff.1 hsaid
  obtain ⟨lazy, hlazy, hsaid⟩ := Option.bind_eq_some_iff.1 hsaid
  obtain ⟨binds, hbinds, hsaid⟩ := Option.bind_eq_some_iff.1 hsaid
  obtain ⟨weak, hweak, hsaid⟩ := Option.bind_eq_some_iff.1 hsaid
  cases hsaid
  have hlater : ∀ range ∈ [image.dyldInfo.lazyBind, image.dyldInfo.bind, image.dyldInfo.weakBind],
      ∀ before after, before ++ after = rebases ++ lazy ++ binds ++ weak →
        Beside image before range := by
    intro range hrange before after hsplit place hplace p hp
    exact hbeside range hrange place hplace p (hsplit ▸ List.mem_append_left after hp)
  have hnone : Beside image [] image.dyldInfo.rebase := fun _ _ _ hp => absurd hp List.not_mem_nil
  have hfine₃ : Fine m (rebases ++ lazy ++ binds) := hfine.left
  have hfine₂ : Fine m (rebases ++ lazy) := hfine₃.left
  refine Attempt.meets_bind.2 ((opcodeStream_does hhost h 0 hrebases hnone hfine₂.left
    hwithin.left.left.left).imp (fun _ s h => ?_) fun _ _ => id)
  refine Attempt.meets_bind.2 ((opcodeStream_does hhost h.2 1 hlazy
    (hlater _ (by simp) rebases (lazy ++ binds ++ weak) (by simp)) hfine₂
    hwithin.left.left).imp (fun _ s h => ?_) fun _ _ => id)
  refine Attempt.meets_bind.2 ((opcodeStream_does hhost h.2 2 hbinds
    (hlater _ (by simp) (rebases ++ lazy) (binds ++ weak) (by simp)) hfine₃
    hwithin.left).imp (fun _ s h => ?_) fun _ _ => id)
  exact opcodeStream_does hhost h.2 3 hweak
    (hlater _ (by simp) (rebases ++ lazy ++ binds) weak (by simp)) hfine hwithin

end GuestFixups

end Tolkara
