import Tolkara.Budget.Partition
import Tolkara.Budget.Transparent

/-!
# What was asked for and not mapped

The kernel may put the mapping of another library into the missing part of a reservation. While
the guard page in front of it is mapped, no call of the budget changes anything there
(`Withholds`), except where the application was given a mapping of its own and the call begins in
it. Such a mapping is remembered as a claim, and a claim is never more than what was obtained.
-/

namespace Tolkara

open Library

namespace KernelCall

/-- The call is about `x`. A mapping that is not fixed takes what is free. -/
def Names (x : ℕ) : KernelCall → Prop
  | .mmap r => r.fixed = true ∧ r.address ≤ x ∧ x < r.address + r.size
  | call => call.Covers x

/-- The kernel works on whole pages. -/
def Touches (page x : ℕ) (call : KernelCall) : Prop := ∃ y, y / page = x / page ∧ call.Names y

theorem names_call {op : GVBudget.Operation} {a n x : ℕ} (h : (op.call a n).Names x) :
    a ≤ x ∧ x < a + n := by
  cases op <;> exact h

/-- The call takes back a mapping that the kernel made among the same calls. -/
def TakesBack (kernel : Kernel) (calls : List KernelCall) (call : KernelCall) : Prop :=
  ∃ request address, .mmap request ∈ calls ∧ kernel.mmap request = .ok address ∧
    call = .munmap address request.size

end KernelCall

namespace BudgetStep

/-- What `gv_counts` lets through is reserved, and nothing is fixed at 0, where `gv_map` does not
look at the range, or past the end. -/
def Accepted (s : BudgetStep) : Prop :=
  match s.call with
  | .reserve _ _ flags _ => flags &&& MAP_FIXED = 0#32
  | .map address size _ flags _ _ =>
    flags &&& MAP_FIXED ≠ 0#32 →
      address ≠ 0#64 ∧ address.toNat + size.toNat < addressSpace
  | _ => True

/-- The address a call is about; a reservation has none. -/
def address (s : BudgetStep) : Option ℕ :=
  match s.call with
  | .reserve .. => none
  | .map address .. | .unmap address _ | .protect address _ _ | .advise address _ _ =>
    some address.toNat

def Unmaps (b : GVBudget) (x : ℕ) (s : BudgetStep) : Prop :=
  match s.call with
  | .unmap address size => address.toNat ≤ x ∧ x < b.pageEnd address.toNat size.toNat
  | _ => False

def obtained (b : GVBudget) (s : BudgetStep) : List (ℕ × ℕ) :=
  match (s.outcome b).answer with
  | .error _ => []
  | .ok a =>
    match s.call with
    | .reserve .. => [(a, b.pageEnd a (s.outcome b).granted)]
    | .map _ size _ _ _ _ => [(a, b.pageEnd a size.toNat)]
    | _ => []

end BudgetStep

namespace GVBudget

/-- The mappings that the calls of a run answered with. -/
def obtained : GVBudget → List BudgetStep → List (ℕ × ℕ)
  | _, [] => []
  | b, s :: steps => s.obtained b ++ obtained (s.outcome b).budget steps

/-- `x` is in the missing part of the region whose mapping ends at `limit`. -/
def Withholds (b : GVBudget) (limit x : ℕ) : Prop :=
  ∃ r ∈ b.regions, r.limit = limit ∧ r.start < limit ∧ limit ≤ x ∧ x < r.span

/-- Every claim is part of a mapping. -/
def Claims (b : GVBudget) (mappings : List (ℕ × ℕ)) : Prop :=
  ∀ c ∈ b.claims, ∃ m ∈ mappings, m.1 ≤ c.start ∧ c.stop ≤ m.2

/-! ## What is withheld stays so -/

section Withheld

variable {b : GVBudget} {limit x : ℕ}

/-- A hole that leaves the last byte in front of the missing part leaves the missing part. -/
theorem Withholds.forget (h : b.Withholds limit x) {i a e : ℕ} {r : GVRegion}
    (hr : b.regions[i]? = some r) (hlast : r.limit = limit → e < limit) :
    (b.forget i a e).Withholds limit x := by
  obtain ⟨t, ht, hlimit, hstart, hx⟩ := h
  obtain ⟨rest, hperm, ⟨heq, -, -⟩ | ⟨left, regions, hleft, hregions, heq⟩⟩ := b.forget_cases hr
  · rw [heq]
    exact ⟨t, ht, hlimit, hstart, hx⟩
  rw [heq]
  rcases List.mem_cons.1 (hperm.mem_iff.1 ht) with rfl | ht
  · have hend := hlast hlimit
    cases hleft with
    | head =>
        exact ⟨_, hregions.mem_iff.2 (List.mem_append_left _ List.mem_cons_self), hlimit, hend, hx⟩
    | tail => omega
    | hole =>
        exact ⟨_, hregions.mem_iff.2 (List.mem_append_left _ List.mem_cons_self), hlimit, hend, hx⟩
  · exact ⟨t, hregions.mem_iff.2 (List.mem_append_right _ ht), hlimit, hstart, hx⟩

theorem Withholds.sweep (h : b.Withholds limit x) : b.sweep.Withholds limit x := by
  obtain ⟨r, hr, hlimit, hstart, hx⟩ := h
  exact ⟨r, mem_sweep_regions.2 ⟨hr, by omega⟩, hlimit, hstart, hx⟩

/-- The last page in front of the missing part is not unmapped. -/
theorem Withholds.gvApply (h : b.Withholds limit x) (kernel : Kernel) (op : Operation)
    {a n guard : ℕ} (hpos : 0 < b.page) (hguard : limit = guard + b.page) (hdvd : b.page ∣ limit)
    (hkept : op = .unmap → ¬ (a ≤ guard ∧ guard < b.pageEnd a n)) :
    (b.gvApply kernel op a n).budget.Withholds limit x := by
  unfold GVBudget.gvApply GVBudget.apply
  split
  swap
  · exact h
  dsimp only
  split
  · exact h
  split
  · exact h
  rename_i hargs
  push Not at hargs
  split
  · exact h
  dsimp only
  by_cases hop : op = .unmap
  swap
  · rw [if_neg hop, applyLoop_of_ne_unmap kernel hop]
    exact h
  rw [if_pos hop]
  refine Withholds.sweep ?_
  have ha : b.page ∣ a := Nat.dvd_of_mod_eq_zero hargs.2
  by_cases hle : a ≤ b.pageEnd a n
  swap
  · have hfuel : b.pageEnd a n - a = 0 := by omega
    rw [hfuel]
    exact h
  refine (applyLoop_rule (P := fun b' cursor => b'.Withholds limit x ∧ a ≤ cursor) ?_ ?_ _ b a none
    ⟨h, le_rfl⟩ hle le_rfl).1
  · rintro b' cursor p ⟨hw, hcursor⟩ - - hp -
    exact ⟨hw, hcursor.trans hp.lt.le⟩
  · rintro b' cursor p ⟨hw, hcursor⟩ - - hp hmissing - -
    refine ⟨?_, hcursor.trans hp.lt.le⟩
    have hstop := hp.le
    cases hp with
    | missing => exact absurd rfl hmissing
    | outside => exact hw
    | own _ hle hr _ h2 =>
        refine hw.forget hr fun hlimit => ?_
        -- the piece does not reach past the guard page
        by_contra hlast
        have hroom := le_of_dvd_of_lt ha hdvd (by omega)
        exact hkept hop (by omega)

theorem Withholds.claim (h : b.Withholds limit x) (hroom : b.claims.length < gvMaxClaims)
    (address size : ℕ) : (b.claim address size).Withholds limit x := by
  rcases b.claim_cases address size with heq | ⟨-, heq⟩ | ⟨hfull, -⟩
  · rw [heq]
    exact h
  · rw [heq]
    exact h
  · exact absurd hroom hfull

theorem Withholds.gvMap (h : b.Withholds limit x) (hroom : b.claims.length < gvMaxClaims)
    (kernel : Kernel) (request : MapRequest) :
    (b.gvMap kernel request).budget.Withholds limit x := by
  obtain heq | ⟨asked, address, -, -, heq⟩ := b.gvMap_cases kernel request
  · rw [heq]
    exact h
  · rw [heq]
    exact h.claim hroom _ _

theorem Withholds.gvReserve (h : b.Withholds limit x) (hroom : b.claims.length < gvMaxClaims)
    (hb : b.Settled) {kernel : Kernel} (hk : kernel.WellFormed b.page) {size : ℕ}
    (hsize : size < addressSpace) (prot flags : BitVec 32) (fd : ℤ) :
    (b.gvReserve kernel size prot flags fd).budget.Withholds limit x := by
  rcases gvReserve_cases hb hk hsize prot flags fd with ⟨code, calls, heq⟩ |
    ⟨address, -, -, heq⟩ | ⟨start, want, calls, heq, -⟩
  · rw [heq]
    exact h
  · rw [heq]
    exact h.claim hroom _ _
  · rw [heq]
    obtain ⟨r, hr, hx⟩ := h
    exact ⟨r, List.mem_append_left _ hr, hx⟩

end Withheld

/-! ## What is claimed was obtained -/

section Claims

variable {b : GVBudget} {mappings : List (ℕ × ℕ)}

theorem Claims.mono (h : b.Claims mappings) {mappings' : List (ℕ × ℕ)}
    (hsub : mappings ⊆ mappings') : b.Claims mappings' := by
  intro c hc
  obtain ⟨m, hm, hin⟩ := h c hc
  exact ⟨m, hsub hm, hin⟩

theorem claims_unclaim {claims : List GVClaim} {a e : ℕ}
    (h : ∀ c ∈ claims, ∃ m ∈ mappings, m.1 ≤ c.start ∧ c.stop ≤ m.2) :
    ∀ c ∈ unclaim claims a e, ∃ m ∈ mappings, m.1 ≤ c.start ∧ c.stop ≤ m.2 := by
  intro c hc
  obtain ⟨c', hc', hone⟩ := mem_unclaim.1 hc
  obtain ⟨m, hm, hin⟩ := h c' hc'
  have hcases := unclaimOne_cases hone
  exact ⟨m, hm, by omega, by omega⟩

theorem forget_claims (b : GVBudget) (i a e : ℕ) : (b.forget i a e).claims = b.claims := by
  cases hr : b.regions[i]? with
  | none => simp only [GVBudget.forget, hr]
  | some r =>
      obtain ⟨rest, -, ⟨heq, -⟩ | ⟨left, regions, -, -, heq⟩⟩ := b.forget_cases hr
      · rw [heq]
      · rw [heq]

theorem Claims.gvApply (h : b.Claims mappings) (kernel : Kernel) (op : Operation) (a n : ℕ) :
    (b.gvApply kernel op a n).budget.Claims mappings := by
  unfold GVBudget.gvApply GVBudget.apply
  split
  swap
  · exact h
  dsimp only
  split
  · exact h
  split
  · exact h
  split
  · exact h
  dsimp only
  have hloop : (applyLoop kernel op (b.anchorAt a) (b.pageEnd a n) (b.pageEnd a n - a) b a
      none).1.Claims mappings := by
    by_cases hle : a ≤ b.pageEnd a n
    · refine applyLoop_rule (P := fun b' _ => b'.Claims mappings) ?_ ?_ _ b a none h hle le_rfl
      · exact fun b' _ p hc _ _ _ _ => hc
      · intro b' cursor p hc _ _ _ _ _ _
        unfold release
        split
        · intro c hin
          rw [forget_claims] at hin
          exact hc c hin
        · exact claims_unclaim hc
    · have hfuel : b.pageEnd a n - a = 0 := by omega
      rw [hfuel]
      exact h
  split
  · exact sweep_claims
      (P := fun claims => ∀ c ∈ claims, ∃ m ∈ mappings, m.1 ≤ c.start ∧ c.stop ≤ m.2)
      (fun claims r _ hc => claims_unclaim hc) hloop
  · exact hloop

theorem Claims.claim (h : b.Claims mappings) {address size : ℕ}
    (hin : (address, b.pageEnd address size) ∈ mappings) :
    (b.claim address size).Claims mappings := by
  rcases b.claim_cases address size with heq | ⟨-, heq⟩ | ⟨-, heq⟩
  · rw [heq]
    exact h
  · rw [heq]
    intro c hc
    rcases List.mem_append.1 hc with hc | hc
    · exact h c hc
    · obtain rfl := List.mem_singleton.1 hc
      exact ⟨_, hin, le_rfl, le_rfl⟩
  · rw [heq]
    exact h

end Claims

/-! ## What a call touches -/

section Calls

variable {b : GVBudget} {x : ℕ}

/-- A guard page is a page, in front of the end of the address space. -/
theorem limit_of_wrap {page : ℕ} (hdvd : page ∣ addressSpace) {r : GVRegion}
    (hr : r.Sound page) (hne : r.start < r.limit) (h : r.limit = wrap (r.stop + page)) :
    r.limit = r.stop + page := by
  have h1 := hr.stop_le
  have h2 := hr.limit_le
  have h3 := hr.span_lt
  rcases (le_of_dvd_of_lt hr.stop_dvd hdvd (by omega)).lt_or_eq with hlt | heq
  · rw [h, wrap_of_lt hlt]
  · rw [heq, wrap, Nat.mod_self] at h
    omega

def Claimed (b : GVBudget) (address x : ℕ) : Prop :=
  ∃ c ∈ b.claims, c.start ≤ address ∧ address < c.stop ∧ c.start ≤ x ∧ x < c.stop

theorem Sound.claimed_of_anchor (hb : b.Sound) {address : ℕ}
    (hmissing : ∃ r ∈ b.regions, r.Has x .missing)
    (h : (b.anchorAt address).1 ≤ x ∧ x < (b.anchorAt address).2) : b.Claimed address x := by
  obtain ⟨r, hr, h1, h2⟩ := hmissing
  unfold anchorAt at h
  split at h
  · -- what is missing from one region is in no other region's mapping
    rename_i t ht
    have hmem := List.mem_of_find?_eq_some ht
    have hlimit := (hb.region t hmem).limit_le
    have hr' := hb.region r hr
    have hr1 := hr'.start_le
    have hr2 := hr'.stop_le
    by_cases heq : r = t
    · subst heq
      omega
    · rcases hb.apart.forall hr hmem heq with hapart | hapart <;> omega
  · split at h
    · rename_i c hc
      have hin := List.find?_some hc
      simp only [decide_eq_true_eq] at hin
      exact ⟨c, List.mem_of_find?_eq_some hc, hin.1, hin.2, h.1, h.2⟩
    · omega

theorem Sound.gvApply_spares (hb : b.Sound) (hon : b.gvEnabled = true) {kernel : Kernel}
    {op : Operation} {a n : ℕ} {call : KernelCall} (hcall : call ∈ (b.gvApply kernel op a n).calls)
    (hx : call.Names x) (hmissing : ∃ r ∈ b.regions, r.Has x .missing) : b.Claimed a x := by
  by_cases hsize : n = 0
  · rw [gvApply, if_pos hon, apply, if_pos hsize] at hcall
    obtain rfl := List.mem_singleton.1 hcall
    have hin := KernelCall.names_call hx
    omega
  by_cases hargs : b.pageEnd a n = 0 ∨ a % b.page ≠ 0
  · rw [gvApply, if_pos hon, apply, if_neg hsize, if_pos hargs] at hcall
    cases hcall
  push Not at hargs
  obtain ⟨hrefused, hcalls⟩ := @gvApply_pieces b kernel op a n hon hsize hargs.1 hargs.2
  by_cases hopens : op.opens = true ∧
      ∃ p ∈ b.callPieces kernel op a n, p.kind = .guard ∨ p.kind = .missing
  · rw [hrefused hopens] at hcall
    cases hcall
  rw [hcalls hopens] at hcall
  obtain ⟨p, hp, rfl⟩ := List.mem_map.1 hcall
  obtain ⟨hp, hacts⟩ := List.mem_filter.1 hp
  have hfits := (pieces_fit (b.anchorAt_le a) (.refl _ b) hp).2
  have hlt := pieces_pos hp
  have hin := KernelCall.names_call hx
  refine hb.claimed_of_anchor hmissing ?_
  by_contra hout
  have hkind := (hfits.missing_iff x ⟨hin.1, by omega⟩).2 ⟨hmissing, hout⟩
  rw [acts, hkind] at hacts
  simp at hacts

/-- What a call to `gv_map` asks of the kernel and what it makes of the answer. -/
theorem gvMap_outcome (hon : b.gvEnabled = true) (kernel : Kernel) (request : MapRequest) :
    b.gvMap kernel request = ⟨b, .error ENOMEM, 0, []⟩ ∨
    ∃ asked : MapRequest,
      (asked = request ∧ (request.address = 0 ∨
          b.reaches (b.anchorAt request.address) (wrap (request.address + request.size))
            (wrap (request.address + request.size) - request.address) request.address = false) ∨
        asked = { request with address := 0 } ∧ request.fixed = false) ∧
      ((∃ code, b.gvMap kernel request = ⟨b, .error code, 0, [.mmap asked]⟩) ∨
        ∃ address, kernel.mmap asked = .ok address ∧
          b.gvMap kernel request =
            ⟨b.claim address request.size, .ok address, 0, [.mmap asked]⟩) := by
  have hoff : ¬ b.gvEnabled = false := by simp [hon]
  unfold gvMap
  dsimp only
  rw [if_neg hoff]
  generalize hmissing : (request.address != 0 && b.reaches (b.anchorAt request.address)
    (wrap (request.address + request.size))
    (wrap (request.address + request.size) - request.address) request.address) = missing
  by_cases hrefused : missing = true ∧ request.fixed = true
  · rw [if_pos hrefused]
    exact .inl rfl
  rw [if_neg hrefused]
  refine .inr ⟨if missing then { request with address := 0 } else request, ?_, ?_⟩
  · cases missing with
    | false =>
        refine .inl ⟨rfl, ?_⟩
        simpa [or_iff_not_imp_left] using hmissing
    | true => exact .inr ⟨rfl, by simpa using hrefused⟩
  · have hsize : (if missing then ({ request with address := 0 } : MapRequest)
        else request).size = request.size := by
      split <;> rfl
    generalize (if missing then ({ request with address := 0 } : MapRequest)
      else request) = asked at hsize ⊢
    cases hm : kernel.mmap asked with
    | error code => exact .inl ⟨code, rfl⟩
    | ok address =>
        refine .inr ⟨address, rfl, ?_⟩
        dsimp only
        rw [if_pos hon, hsize]

theorem Sound.gvMap_spares (hb : b.Sound) (hon : b.gvEnabled = true) {kernel : Kernel}
    {request : MapRequest} (haccepted : request.fixed = true →
      request.address ≠ 0 ∧ request.address + request.size < addressSpace)
    {call : KernelCall} (hcall : call ∈ (b.gvMap kernel request).calls) (hx : call.Names x)
    (hmissing : ∃ r ∈ b.regions, r.Has x .missing) : b.Claimed request.address x := by
  rcases gvMap_outcome hon kernel request with heq | ⟨asked, hasked, hdone⟩
  · rw [heq] at hcall
    cases hcall
  have hcall : call = .mmap asked := by
    rcases hdone with ⟨code, heq⟩ | ⟨address, -, heq⟩ <;>
    · rw [heq] at hcall
      exact List.mem_singleton.1 hcall
  subst hcall
  obtain ⟨hfixed, h1, h2⟩ := hx
  rcases hasked with ⟨rfl, hreaches⟩ | ⟨rfl, hfree⟩
  swap
  · change request.fixed = true at hfixed
    rw [hfree] at hfixed
    cases hfixed
  obtain ⟨hne, hend⟩ := haccepted hfixed
  replace hreaches := hreaches.resolve_left hne
  rw [wrap_of_lt hend, Nat.add_sub_cancel_left] at hreaches
  -- the pieces of a call that changes nothing
  have htile : Tiles asked.address
      ((pieces kernel (.advise 0#32) (b.anchorAt asked.address) (asked.address + asked.size)
        asked.size b asked.address).map Piece.range) (asked.address + asked.size) :=
    pieces_tile (by omega) (by omega)
  obtain ⟨range, hrange, hin⟩ := htile.exists_mem h1 h2
  obtain ⟨p, hp, rfl⟩ := List.mem_map.1 hrange
  have hlt := pieces_pos hp
  have hfits := (pieces_fit (b.anchorAt_le asked.address) (.refl _ b) hp).2
  simp only [Piece.range] at hin
  refine hb.claimed_of_anchor hmissing ?_
  by_contra hout
  have hkind := (hfits.missing_iff x ⟨hin.1, by omega⟩).2 ⟨hmissing, hout⟩
  have hfound := (reaches_iff (fun h => by cases h) b asked.size asked.address).2
    ⟨p, hp, .inr hkind⟩
  rw [hreaches] at hfound
  cases hfound

/-- The retry loop only maps, and its answer is the last answer. -/
theorem reserveLoop_calls (b : GVBudget) (kernel : Kernel) (size : ℕ) (prot flags : BitVec 32)
    (fd : ℤ) (fuel : ℕ) : ∀ want,
      (∀ call ∈ (b.reserveLoop kernel size prot flags fd fuel want).2.2,
        ∃ n, call = .mmap (reservation 0 n prot flags fd)) ∧
      ∀ start, (b.reserveLoop kernel size prot flags fd fuel want).1 = .ok start →
        let mapped := b.mappedFor size (b.reserveLoop kernel size prot flags fd fuel want).2.1
        .mmap (reservation 0 mapped prot flags fd) ∈
            (b.reserveLoop kernel size prot flags fd fuel want).2.2 ∧
          kernel.mmap (reservation 0 mapped prot flags fd) = .ok start := by
  induction fuel with
  | zero =>
      intro want
      refine ⟨fun call hcall => ?_, fun start h => ?_⟩
      · cases hcall
      · cases h
  | succ fuel ih =>
      intro want
      rw [reserveLoop]
      dsimp only
      cases hm : kernel.mmap (reservation 0 (b.mappedFor size want) prot flags fd) with
      | ok address =>
          refine ⟨fun call hcall => ⟨_, List.mem_singleton.1 hcall⟩, fun start h => ?_⟩
          cases h
          exact ⟨List.mem_singleton_self _, hm⟩
      | error code =>
          dsimp only
          split
          · refine ⟨fun call hcall => ⟨_, List.mem_singleton.1 hcall⟩, fun start h => ?_⟩
            cases h
          · obtain ⟨h1, h2⟩ := ih (b.nextWant want)
            refine ⟨fun call hcall => ?_, fun start h => ?_⟩
            · rcases List.mem_cons.1 hcall with rfl | hcall
              · exact ⟨_, rfl⟩
              · exact h1 call hcall
            · exact ⟨List.mem_cons_of_mem _ (h2 start h).1, (h2 start h).2⟩

/-- The last call of a reservation protects the guard page of the new region. -/
theorem settle_calls {start size want : ℕ} {calls : List KernelCall} {call : KernelCall}
    (h : call ∈ (b.settle start size want calls).calls) :
    call ∈ calls ∨ ∃ r, (b.settle start size want calls).budget.regions = b.regions ++ [r] ∧
      call = .mprotect r.stop b.page PROT_NONE ∧ r.limit = wrap (r.stop + b.page) := by
  rcases List.mem_append.1 h with h | h
  · exact .inl h
  · by_cases hshort : want < size
    · rw [if_pos hshort] at h
      refine .inr ⟨b.newRegion start size want, rfl, List.mem_singleton.1 h, ?_⟩
      unfold newRegion
      dsimp only
      rw [if_pos hshort]
    · rw [if_neg hshort] at h
      cases h

/-- A reservation maps, takes back what it has mapped, or protects its own guard page. -/
theorem gvReserve_calls (b : GVBudget) (kernel : Kernel) (size : ℕ) (prot flags : BitVec 32)
    (fd : ℤ) {call : KernelCall} (hcall : call ∈ (b.gvReserve kernel size prot flags fd).calls) :
    (∃ a n, call = .mmap (reservation a n prot flags fd)) ∨
    call.TakesBack kernel (b.gvReserve kernel size prot flags fd).calls ∨
    ∃ r, (b.gvReserve kernel size prot flags fd).budget.regions = b.regions ++ [r] ∧
      call = .mprotect r.stop b.page PROT_NONE ∧ r.limit = wrap (r.stop + b.page) := by
  unfold gvReserve at hcall ⊢
  by_cases hfull : b.regions.length = gvMaxRegions
  · rw [if_pos hfull] at hcall
    dsimp only at hcall
    cases hm : kernel.mmap (reservation 0 size prot flags fd) <;>
    · rw [hm] at hcall
      exact .inl ⟨_, _, List.mem_singleton.1 hcall⟩
  rw [if_neg hfull] at hcall ⊢
  dsimp only at hcall ⊢
  obtain ⟨hmaps, hlast⟩ :=
    b.reserveLoop_calls kernel size prot flags fd (b.firstWant size + 1) (b.firstWant size)
  generalize b.reserveLoop kernel size prot flags fd (b.firstWant size + 1) (b.firstWant size) =
    e at *
  obtain ⟨answer, want, calls⟩ := e
  have hloop : call ∈ calls → ∃ a n, call = .mmap (reservation a n prot flags fd) := by
    intro h
    obtain ⟨n, hn⟩ := hmaps call h
    exact ⟨0, n, hn⟩
  cases answer with
  | error code => exact .inl (hloop hcall)
  | ok start =>
      obtain ⟨hmem, hmapped⟩ := hlast start rfl
      dsimp only at hcall hmem hmapped ⊢
      by_cases hmis : b.Misplaced kernel start size want
      swap
      · rw [if_neg hmis] at hcall ⊢
        rcases settle_calls hcall with h | h
        · exact .inl (hloop h)
        · exact .inr (.inr h)
      rw [if_pos hmis] at hcall ⊢
      generalize b.freeSpan kernel kernel.imageHeader size = hole at *
      by_cases hhole : hole = 0
      · rw [if_pos hhole] at hcall ⊢
        rcases List.mem_append.1 hcall with h | h
        · exact .inl (hloop h)
        · obtain rfl := List.mem_singleton.1 h
          exact .inr (.inl ⟨_, _, List.mem_append_left _ hmem, hmapped, rfl⟩)
      rw [if_neg hhole] at hcall ⊢
      cases hm : kernel.mmap (reservation hole (b.mappedFor size want) prot flags fd) with
      | error code =>
          rw [hm] at hcall
          dsimp only at hcall ⊢
          rcases List.mem_append.1 hcall with h | h
          · exact .inl (hloop h)
          · rcases List.mem_cons.1 h with rfl | h
            · exact .inl ⟨_, _, rfl⟩
            · obtain rfl := List.mem_singleton.1 h
              exact .inr (.inl ⟨_, _, List.mem_append_left _ hmem, hmapped, rfl⟩)
      | ok moved =>
          rw [hm] at hcall
          dsimp only at hcall ⊢
          by_cases heq : moved = hole
          · rw [if_pos heq] at hcall ⊢
            rcases settle_calls hcall with h | h
            · rcases List.mem_append.1 h with h | h
              · exact .inl (hloop h)
              · rcases List.mem_cons.1 h with rfl | h
                · exact .inl ⟨_, _, rfl⟩
                · obtain rfl := List.mem_singleton.1 h
                  exact .inr (.inl ⟨_, _,
                    List.mem_append_left _ (List.mem_append_left _ hmem), hmapped, rfl⟩)
            · exact .inr (.inr h)
          · rw [if_neg heq] at hcall ⊢
            rcases List.mem_append.1 hcall with h | h
            · exact .inl (hloop h)
            · rcases List.mem_cons.1 h with rfl | h
              · exact .inl ⟨_, _, rfl⟩
              rcases List.mem_cons.1 h with rfl | h
              · exact .inr (.inl ⟨_, _,
                  List.mem_append_right _ List.mem_cons_self, hm, rfl⟩)
              · obtain rfl := List.mem_singleton.1 h
                exact .inr (.inl ⟨_, _, List.mem_append_left _ hmem, hmapped, rfl⟩)

theorem Settled.gvReserve_spares (hb : b.Settled) {kernel : Kernel}
    (hk : kernel.WellFormed b.page) {size : ℕ} (hsize : size < addressSpace)
    {prot flags : BitVec 32} (hflags : flags &&& MAP_FIXED = 0#32) {fd : ℤ} {call : KernelCall}
    (hcall : call ∈ (b.gvReserve kernel size prot flags fd).calls) (hx : call.Names x)
    (hmissing : ∃ r ∈ b.regions, r.Has x .missing) :
    call.TakesBack kernel (b.gvReserve kernel size prot flags fd).calls := by
  rcases b.gvReserve_calls kernel size prot flags fd hcall with ⟨a, n, rfl⟩ | htakes |
    ⟨r, hregions, rfl, hlimit⟩
  · have hfixed := hx.1
    simp [MapRequest.fixed, reservation, hflags] at hfixed
  · exact htakes
  · -- the guard page is in the new region, which is apart from the others
    exfalso
    obtain ⟨hb', -, -⟩ := hb.gvReserve hk hsize prot flags fd
    have hpage : (b.gvReserve kernel size prot flags fd).budget.page = b.page :=
      congrArg (·.2.2.2) (b.gvReserve_settings kernel size prot flags fd)
    have hmem : r ∈ (b.gvReserve kernel size prot flags fd).budget.regions := by
      rw [hregions]
      exact List.mem_append_right _ (List.mem_singleton_self r)
    have hr := hb'.region r hmem
    have hne := hb'.nonempty r hmem
    have hapart := hb'.apart
    rw [hregions, List.pairwise_append] at hapart
    obtain ⟨t, ht, h1, h2⟩ := hmissing
    have htr := hapart.2.2 t ht r (List.mem_singleton_self r)
    have ht' := hb.region t ht
    have hbounds := And.intro ht'.start_le ht'.stop_le
    obtain ⟨hlow, hhigh⟩ := hx
    have hend : r.limit = r.stop + b.page := by
      rw [← hpage] at hlimit ⊢
      exact limit_of_wrap hb'.page_dvd hr hne hlimit
    have h3 := hr.start_le
    have h4 := hr.limit_le
    rcases htr with h | h <;> omega

end Calls


/-! ## Runs -/

section Runs

variable {b : GVBudget}

/-- What a call touches of the missing parts it has mapped itself, or the application was given
it in the mapping that the call begins in. -/
theorem Settled.step_spares (hb : b.Settled) (hon : b.gvEnabled = true) {s : BudgetStep}
    (hk : s.kernel.WellFormed b.page) (hs : s.Accepted) {call : KernelCall}
    (hcall : call ∈ (s.outcome b).calls) {x : ℕ} (hx : call.Names x)
    (hmissing : ∃ r ∈ b.regions, r.Has x .missing) :
    call.TakesBack s.kernel (s.outcome b).calls ∨ ∃ a, s.address = some a ∧ b.Claimed a x := by
  obtain ⟨kind, kernel⟩ := s
  cases kind with
  | reserve size prot flags fd =>
      exact .inl (hb.gvReserve_spares hk (toNat_lt size) hs hcall hx hmissing)
  | map address size prot flags fd offset =>
      refine .inr ⟨_, rfl, hb.toSound.gvMap_spares hon (fun hfixed => ?_) hcall hx hmissing⟩
      obtain ⟨hne, hend⟩ := hs (by simpa [MapRequest.fixed] using hfixed)
      exact ⟨fun h => hne (BitVec.eq_of_toNat_eq h), hend⟩
  | unmap address size => exact .inr ⟨_, rfl, hb.toSound.gvApply_spares hon hcall hx hmissing⟩
  | protect address size prot =>
      exact .inr ⟨_, rfl, hb.toSound.gvApply_spares hon hcall hx hmissing⟩
  | advise address size advice =>
      exact .inr ⟨_, rfl, hb.toSound.gvApply_spares hon hcall hx hmissing⟩

theorem Withholds.step {limit x : ℕ} (h : b.Withholds limit x) (hb : b.Settled) {s : BudgetStep}
    (hk : s.kernel.WellFormed b.page) (hroom : b.claims.length < gvMaxClaims) {guard : ℕ}
    (hguard : limit = guard + b.page) (hkept : ¬ s.Unmaps b guard) :
    (s.outcome b).budget.Withholds limit x := by
  have hdvd : b.page ∣ limit := by
    obtain ⟨r, hr, hlimit, -⟩ := h
    rw [← hlimit]
    exact (hb.region r hr).limit_dvd
  obtain ⟨kind, kernel⟩ := s
  cases kind with
  | reserve size prot flags fd => exact h.gvReserve hroom hb hk (toNat_lt size) prot flags fd
  | map address size prot flags fd offset => exact h.gvMap hroom kernel _
  | unmap address size => exact h.gvApply kernel .unmap hb.page_pos hguard hdvd fun _ => hkept
  | protect address size prot =>
      exact h.gvApply kernel (.protect prot) (n := size.toNat) hb.page_pos hguard hdvd
        fun h => by cases h
  | advise address size advice =>
      exact h.gvApply kernel (.advise advice) (n := size.toNat) hb.page_pos hguard hdvd
        fun h => by cases h

theorem Withholds.run {limit x guard : ℕ} {steps : List BudgetStep} (h : b.Withholds limit x)
    (hb : b.Settled) (hk : ∀ s ∈ steps, s.kernel.WellFormed b.page)
    (hguard : limit = guard + b.page)
    (hall : AllAlong (fun b s => b.claims.length < gvMaxClaims ∧ ¬ s.Unmaps b guard) b steps) :
    (b.run steps).Withholds limit x := by
  induction steps generalizing b with
  | nil => exact h
  | cons s steps ih =>
      obtain ⟨⟨hroom, hkept⟩, hall⟩ := hall
      have hks := hk s List.mem_cons_self
      have hpage : (s.outcome b).budget.page = b.page := congrArg (·.2.2.2) (outcome_settings b s)
      refine ih (h.step hb hks hroom hguard hkept) (hb.step hks) ?_ ?_ hall
      · intro t ht
        rw [hpage]
        exact hk t (List.mem_cons_of_mem s ht)
      · rw [hpage]
        exact hguard

/-- What is claimed after a call was claimed before or is what the call has obtained, in whole
pages. -/
theorem Claims.step {mappings : List (ℕ × ℕ)} (h : b.Claims mappings) (hb : b.Settled)
    (hon : b.gvEnabled = true) {s : BudgetStep} (hk : s.kernel.WellFormed b.page) :
    (s.outcome b).budget.Claims (mappings ++ s.obtained b) ∧
      ∀ m ∈ s.obtained b, b.page ∣ m.1 ∧ b.page ∣ m.2 := by
  have hleft : mappings ⊆ mappings ++ s.obtained b := List.subset_append_left _ _
  obtain ⟨kind, kernel⟩ := s
  have happly : ∀ op a n, (b.gvApply kernel op a n).budget.Claims
      (mappings ++ BudgetStep.obtained b ⟨kind, kernel⟩) :=
    fun op a n => (h.gvApply kernel op a n).mono hleft
  have hnone : BudgetStep.obtained b ⟨kind, kernel⟩ = [] →
      ∀ m ∈ BudgetStep.obtained b ⟨kind, kernel⟩, b.page ∣ m.1 ∧ b.page ∣ m.2 := by
    intro hnil m hm
    rw [hnil] at hm
    cases hm
  have hone : ∀ a n, b.page ∣ a → ∀ m ∈ [(a, b.pageEnd a n)], b.page ∣ m.1 ∧ b.page ∣ m.2 := by
    intro a n ha m hm
    obtain rfl := List.mem_singleton.1 hm
    exact ⟨ha, b.pageEnd_dvd a n⟩
  cases kind with
  | reserve size prot flags fd =>
      rcases gvReserve_cases hb hk (toNat_lt size) prot flags fd with ⟨code, calls, heq⟩ |
        ⟨address, ha, -, heq⟩ | ⟨start, want, calls, heq, -, hsound, hstart, -⟩
      · have houtcome : BudgetStep.outcome b ⟨.reserve size prot flags fd, kernel⟩ = _ := heq
        refine ⟨?_, hnone ?_⟩
        · rw [houtcome]
          exact h.mono hleft
        · rw [BudgetStep.obtained, houtcome]
      · have houtcome : BudgetStep.outcome b ⟨.reserve size prot flags fd, kernel⟩ = _ := heq
        have hobtained : BudgetStep.obtained b ⟨.reserve size prot flags fd, kernel⟩ =
            [(address, b.pageEnd address size.toNat)] := by
          rw [BudgetStep.obtained, houtcome]
        rw [houtcome, hobtained]
        refine ⟨Claims.claim ?_ ?_, hone address _ ha⟩
        · exact h.mono (List.subset_append_left _ _)
        · exact List.mem_append_right _ (List.mem_singleton_self _)
      · have houtcome : BudgetStep.outcome b ⟨.reserve size prot flags fd, kernel⟩ = _ := heq
        have hobtained : BudgetStep.obtained b ⟨.reserve size prot flags fd, kernel⟩ =
            [(start, b.pageEnd start want)] := by
          rw [BudgetStep.obtained, houtcome]
          rfl
        rw [houtcome, hobtained]
        refine ⟨?_, hone start want ?_⟩
        · exact h.mono (List.subset_append_left _ _)
        · rw [← hstart]
          exact hsound.start_dvd
  | map address size prot flags fd offset =>
      rcases gvMap_outcome hon kernel ⟨address.toNat, size.toNat, prot, flags, fd, offset⟩ with
        heq | ⟨asked, -, ⟨code, heq⟩ | ⟨a, hm, heq⟩⟩
      · have houtcome : BudgetStep.outcome b ⟨.map address size prot flags fd offset, kernel⟩ = _ :=
          heq
        refine ⟨?_, hnone ?_⟩
        · rw [houtcome]
          exact h.mono hleft
        · rw [BudgetStep.obtained, houtcome]
      · have houtcome : BudgetStep.outcome b ⟨.map address size prot flags fd offset, kernel⟩ = _ :=
          heq
        refine ⟨?_, hnone ?_⟩
        · rw [houtcome]
          exact h.mono hleft
        · rw [BudgetStep.obtained, houtcome]
      · have houtcome : BudgetStep.outcome b ⟨.map address size prot flags fd offset, kernel⟩ = _ :=
          heq
        have hobtained : BudgetStep.obtained b ⟨.map address size prot flags fd offset, kernel⟩ =
            [(a, b.pageEnd a size.toNat)] := by
          rw [BudgetStep.obtained, houtcome]
        rw [houtcome, hobtained]
        refine ⟨Claims.claim ?_ ?_, hone a _ (hk asked a hm).2.1⟩
        · exact h.mono (List.subset_append_left _ _)
        · exact List.mem_append_right _ (List.mem_singleton_self _)
  | unmap address size =>
      refine ⟨happly _ _ _, hnone ?_⟩
      unfold BudgetStep.obtained
      split <;> rfl
  | protect address size prot =>
      refine ⟨happly _ _ _, hnone ?_⟩
      unfold BudgetStep.obtained
      split <;> rfl
  | advise address size advice =>
      refine ⟨happly _ _ _, hnone ?_⟩
      unfold BudgetStep.obtained
      split <;> rfl

theorem Claims.run {mappings : List (ℕ × ℕ)} {steps : List BudgetStep} (h : b.Claims mappings)
    (hb : b.Settled) (hon : b.gvEnabled = true)
    (hk : ∀ s ∈ steps, s.kernel.WellFormed b.page) :
    (b.run steps).Claims (mappings ++ b.obtained steps) ∧
      ∀ m ∈ b.obtained steps, b.page ∣ m.1 ∧ b.page ∣ m.2 := by
  induction steps generalizing b mappings with
  | nil =>
      refine ⟨h.mono (List.subset_append_left _ _), fun m hm => ?_⟩
      cases hm
  | cons s steps ih =>
      have hks := hk s List.mem_cons_self
      obtain ⟨hclaims, hdvd⟩ := h.step hb hon hks
      have hset := outcome_settings b s
      have hpage : (s.outcome b).budget.page = b.page := congrArg (·.2.2.2) hset
      have hbudget : (s.outcome b).budget.budget = b.budget := congrArg (·.1) hset
      obtain ⟨hlast, hdvd'⟩ := ih hclaims (hb.step hks)
        (by rw [GVBudget.gvEnabled, hbudget]; exact hon)
        (fun t ht => by rw [hpage]; exact hk t (List.mem_cons_of_mem s ht))
      rw [hpage] at hdvd'
      refine ⟨?_, fun m hm => ?_⟩
      · rw [List.append_assoc] at hlast
        exact hlast
      · rcases List.mem_append.1 hm with hm | hm
        · exact hdvd m hm
        · exact hdvd' m hm

/-- A reservation that is granted less than it asked for withholds the rest, behind a guard
page. -/
theorem Settled.withholds_of_granted (hb : b.Settled) {kernel : Kernel}
    (hk : kernel.WellFormed b.page) {size : ℕ} (hsize : size < addressSpace)
    {prot flags : BitVec 32} {fd : ℤ} {address : ℕ}
    (hanswer : (b.gvReserve kernel size prot flags fd).answer = .ok address)
    (hshort : (b.gvReserve kernel size prot flags fd).granted < size) :
    let done := b.gvReserve kernel size prot flags fd
    let guard := b.pageEnd address done.granted
    done.budget.Settled ∧ done.budget.page = b.page ∧ b.page ∣ guard + b.page ∧
      ∀ x, guard + b.page ≤ x → x < b.pageEnd address size →
        done.budget.Withholds (guard + b.page) x := by
  intro done guard
  have hdone := (hb.gvReserve hk hsize prot flags fd).1
  have hpage : done.budget.page = b.page :=
    congrArg (·.2.2.2) (b.gvReserve_settings kernel size prot flags fd)
  refine ⟨hdone, hpage, dvd_add (b.pageEnd_dvd _ _) dvd_rfl, ?_⟩
  rcases gvReserve_cases hb hk hsize prot flags fd with ⟨code, calls, heq⟩ |
    ⟨_, -, -, heq⟩ | ⟨start, want, calls, heq, -, hsound, hstart, hlt, -⟩
  · rw [heq] at hanswer
    cases hanswer
  · rw [heq] at hshort
    exact absurd hshort (lt_irrefl size)
  · intro x h1 h2
    have hgranted : done.granted = want := congrArg Outcome.granted heq
    have hbudget : done.budget.regions = b.regions ++ [b.newRegion start size want] :=
      congrArg (fun o => o.budget.regions) heq
    rw [heq] at hanswer hshort
    obtain rfl : start = address := Except.ok.inj hanswer
    change want < size at hshort
    dsimp only [guard] at h1 ⊢
    rw [hgranted] at h1 ⊢
    -- the guard page does not wrap around
    have hstop : (b.newRegion start size want).stop = b.pageEnd start want := by
      unfold newRegion
      dsimp only
      rw [if_pos hshort]
    have hspan : b.pageEnd start size ≤ (b.newRegion start size want).span := by
      unfold newRegion
      dsimp only
      rw [if_pos hshort]
      dsimp only
      split <;> omega
    have hlimit : (b.newRegion start size want).limit = b.pageEnd start want + b.page := by
      rw [← hstop]
      refine limit_of_wrap hb.page_dvd hsound (by omega) ?_
      unfold newRegion
      dsimp only
      rw [if_pos hshort]
    refine ⟨b.newRegion start size want, ?_, hlimit, ?_, h1, by omega⟩
    · rw [hbudget]
      exact List.mem_append_right _ (List.mem_singleton_self _)
    · omega

end Runs

end GVBudget

/-- An address and the one it shares a page with are on the same side of a bound of pages. -/
theorem le_iff_of_page {page d x y : ℕ} (hpos : 0 < page) (hdvd : page ∣ d)
    (hsame : y / page = x / page) : d ≤ y ↔ d ≤ x := by
  obtain ⟨k, rfl⟩ := hdvd
  rw [Nat.mul_comm, ← Nat.le_div_iff_mul_le hpos, ← Nat.le_div_iff_mul_le hpos, hsame]

end Tolkara
