import Tolkara.Cpu.Rejection
import Tolkara.SoftwareVM.Basic

/-!
# Copying and filling in the software memory

`gsv_copy` is `memmove` on the two memories taken together, and `gsv_fill` is
`memset`. Once the source may be read and the destination has been prepared, no
chunk can fail (`Ready`), and every chunk is one move of `Library.Moves`; the
direction of the loop is the one in which the moves compose.
-/

namespace Tolkara

open Library

namespace Space

open TaggedInterval

/-! ## Prepared pages -/

/-- The pages of the range are resident. -/
def Resident (s : Space) (a n : ℕ) : Prop := ∀ q, Touches a n q → s.residentAt q ≠ none

theorem missing_eq_zero {s : Space} {k count : ℕ}
    (h : ∀ i < count, s.residentAt ((k + i) * pageSize) ≠ none) : s.missing k count = 0 := by
  induction count generalizing k with
  | zero => rfl
  | succ count ih =>
      have h0 := h 0 (by omega)
      rw [Nat.add_zero] at h0
      rw [missing, if_neg h0, Nat.zero_add]
      apply ih
      intro i hi
      have := h (i + 1) (by omega)
      rwa [show k + (i + 1) = k + 1 + i by omega] at this

theorem Resident.fits {s : Space} {a n : ℕ} (h : s.Resident a n) : s.Fits a n := by
  unfold Fits
  rw [missing_eq_zero fun i hi => h _ (touches_iff_page.2 ⟨i, hi, rfl⟩)]
  exact Nat.zero_le _

theorem Touches.mono {a n q off c : ℕ} (h : Touches (a + off) c q) (hc : off + c ≤ n) :
    Touches a n q := by
  obtain ⟨hq, h0, h1, h2⟩ := h
  exact ⟨hq, by omega, by omega, by omega⟩

theorem Permits.mono {s : Space} {permission : Prot} {a n off c : ℕ}
    (h : s.Permits permission a n) (hc : off + c ≤ n) : s.Permits permission (a + off) c :=
  fun x h1 h2 => h x (by omega) (by omega)

theorem Contains.mono {s : Space} {a n off c : ℕ} (h : s.Contains a n) (hc : off + c ≤ n) :
    s.Contains (a + off) c := by
  unfold Contains at h ⊢
  omega

theorem gmSparsePrepare_read (s : Space) (a n : ℕ) :
    s.gmSparsePrepare a n GM.READ = (s.checkAccess a n GM.READ, s) := by
  unfold gmSparsePrepare
  rw [if_neg (by decide)]
  exact if_pos (.inr (.inr (by decide)))

/-- Preparing changes no byte and no mapping. -/
theorem Prepared.flat {s s' : Space} (h : s.Inv) (hp : Prepared s s') : s'.flat = s.flat := by
  have hperm : s'.permAt = s.permAt := by
    funext k
    unfold permAt
    rw [hp.regions]
  have hbyte : s'.flat.byte = s.flat.byte := by
    funext x
    by_cases hx : cover s.regions x = none
    · rw [flat_byte_of_none h hx, flat_byte_of_none hp.inv (by rw [hp.regions, hx])]
    · rw [flat_byte_of_cover h hx, flat_byte_of_cover hp.inv (by rwa [hp.regions])]
      unfold byteAt bytesAt
      rcases hp.pages _ (pageKey_of_cover h hx) with heq | ⟨hnone, heq⟩
      · rw [heq]
      · rw [heq, hnone]
        rfl
  change Flat.mk s'.permAt s'.flat.byte = Flat.mk s.permAt s.flat.byte
  rw [hperm, hbyte]

theorem fits_zero (s : Space) (a : ℕ) : s.Fits a 0 := Nat.zero_le _

/-- When `gm_sparse_prepare` for writing goes through; otherwise it does nothing. -/
theorem gmSparsePrepare_write (s : Space) (a n : ℕ) :
    ((s.gmSparsePrepare a n GM.WRITE).1 = .ok ↔
        s.checkAccess a n GM.WRITE = .ok ∧ s.Fits a n) ∧
      ((s.gmSparsePrepare a n GM.WRITE).1 ≠ .ok → (s.gmSparsePrepare a n GM.WRITE).2 = s) := by
  unfold gmSparsePrepare
  rw [if_neg (by decide)]
  dsimp only
  by_cases hno : s.checkAccess a n GM.WRITE ≠ .ok ∨ n = 0 ∨ GM.WRITE &&& GM.WRITE = 0#32
  · rw [if_pos hno]
    refine ⟨⟨fun hok => ⟨hok, ?_⟩, And.left⟩, fun _ => rfl⟩
    rcases hno with hno | rfl | hno
    · exact absurd hok hno
    · exact s.fits_zero a
    · exact absurd hno (by decide)
  · rw [if_neg hno, preflight_eq_decide]
    push Not at hno
    by_cases hfits : s.Fits a n
    · rw [if_neg (by simpa using hfits)]
      exact ⟨⟨fun _ => ⟨hno.1, hfits⟩, fun _ => rfl⟩, fun hbad => absurd rfl hbad⟩
    · rw [if_pos (by simpa using hfits)]
      exact ⟨⟨nofun, fun hok => absurd hok.2 hfits⟩, fun _ => rfl⟩

/-- The pages of the range are resident, and nothing a read sees has changed. -/
structure PreparedFor (s s' : Space) (a n : ℕ) : Prop where
  inv : s'.Inv
  arena : SameArena s s'
  regions : s'.regions = s.regions
  flat : s'.flat = s.flat
  resident : s'.Resident a n

theorem preparedFor_write {s : Space} (h : s.Inv) {a n : ℕ}
    (hok : (s.gmSparsePrepare a n GM.WRITE).1 = .ok) :
    PreparedFor s (s.gmSparsePrepare a n GM.WRITE).2 a n := by
  rcases gmSparsePrepare_spec h a n GM.WRITE with ⟨heq, hzero⟩ | ⟨-, hp, hresident⟩
  · obtain rfl : n = 0 := (hzero hok).resolve_right (by decide)
    rw [heq]
    exact ⟨h, SameArena.refl s, rfl, rfl, fun q hq => absurd hq (not_touches_zero a q)⟩
  · exact ⟨hp.inv, hp.arena, hp.regions, hp.flat h, hresident⟩

/-- A write into resident pages. -/
structure WrittenFor (s s' : Space) (a n : ℕ) (buffer : Buffer) : Prop where
  inv : s'.Inv
  arena : SameArena s s'
  regions : s'.regions = s.regions
  byte : s'.flat.byte = put s.flat.byte a n buffer
  resident : ∀ b c, s.Resident b c → (∀ x, b ≤ x → x < b + c → cover s.regions x ≠ none) →
    s'.Resident b c

/-- With its pages resident a write that is allowed goes through. -/
theorem gmSparseWrite_resident {s : Space} (h : s.Inv) {a n : ℕ}
    (hok : s.checkAccess a n GM.WRITE = .ok) (hres : s.Resident a n) (buffer : Buffer) :
    (s.gmSparseWrite a (some buffer) n).1 = .ok ∧
      WrittenFor s (s.gmSparseWrite a (some buffer) n).2 a n buffer := by
  unfold gmSparseWrite
  rcases accessLocked_write h a buffer n with ⟨heq, hno⟩ | ⟨-, -, -, hno⟩ | ⟨s', heq, -, -, -, hw⟩
  · obtain rfl : n = 0 := hno.resolve_left (not_not.2 hok)
    rw [heq]
    exact ⟨hok, h, SameArena.refl s, rfl, (put_zero _ _ _).symm, fun _ _ hr _ => hr⟩
  · exact absurd hres.fits hno
  · rw [heq]
    refine ⟨rfl, hw.inv, hw.arena, hw.regions, funext (hw.flat h hok).2, ?_⟩
    intro b c hr hcover q hq
    obtain ⟨x, h1, h2, rfl⟩ := touches_iff_exists.1 hq
    rw [hw.pages _ (pageKey_of_cover h (hcover x h1 h2))]
    split
    · exact Option.some_ne_none _
    · exact hr _ hq

end Space

namespace SoftwareVM

/-! ## Chunks -/

/-- The same address space with the same mappings. -/
structure SameMapping (v v' : SoftwareVM) : Prop where
  enabled : v'.enabled = v.enabled
  base : v'.base = v.base
  span : v'.span = v.span
  regions : v'.memory.regions = v.memory.regions

theorem SameMapping.refl (v : SoftwareVM) : SameMapping v v := ⟨rfl, rfl, rfl, rfl⟩

theorem SameMapping.trans {v v' v'' : SoftwareVM} (h : SameMapping v v') (h' : SameMapping v' v'') :
    SameMapping v v'' :=
  ⟨h'.enabled.trans h.enabled, h'.base.trans h.base, h'.span.trans h.span,
    h'.regions.trans h.regions⟩

/-- Every chunk can be read. -/
structure ReadyFrom (v : SoftwareVM) (software : Bool) (s n : ℕ) : Prop where
  kind : ∀ x, s ≤ x → x < s + n → v.gsvAddress x = software
  inv : software = true → v.memory.Inv
  access : software = true → v.memory.checkAccess s n GM.READ = .ok

/-- Every chunk can be written. -/
structure ReadyTo (v : SoftwareVM) (software : Bool) (d n : ℕ) : Prop where
  kind : ∀ x, d ≤ x → x < d + n → v.gsvAddress x = software
  inv : software = true → v.memory.Inv
  access : software = true → v.memory.checkAccess d n GM.WRITE = .ok
  resident : software = true → v.memory.Resident d n

theorem checkAccess_mono {s : Space} (h : s.Inv) {a n off c : ℕ} {permission : Prot}
    (hok : s.checkAccess a n permission = .ok) (hc : off + c ≤ n) :
    s.checkAccess (a + off) c permission = .ok := by
  rw [Space.checkAccess_ok_iff h] at hok ⊢
  exact ⟨hok.1.mono hc, hok.2.mono hc⟩

theorem ReadyFrom.readChunk {v : SoftwareVM} {software : Bool} {s n off c : ℕ}
    (h : v.ReadyFrom software s n) (hc : off + c ≤ n) :
    (v.readChunk software (s + off) c).1 = .ok ∧
      ∀ j < c, (v.readChunk software (s + off) c).2 j = v.byte (s + off + j) := by
  unfold SoftwareVM.readChunk
  cases hsoftware : software with
  | false =>
      refine ⟨rfl, ?_⟩
      intro j hj
      have hkind := h.kind (s + off + j) (by omega) (by omega)
      rw [byte, hkind, hsoftware]
      rfl
  | true =>
      have hok := checkAccess_mono (h.inv hsoftware) (h.access hsoftware) hc
      have hin := ((Space.checkAccess_ok_iff (h.inv hsoftware)).1 hok).1
      have hread := Space.read_flat (h.inv hsoftware) hin
        fun _ => Option.some_ne_none (fun _ => 0 : Buffer)
      rw [if_pos rfl, hread]
      have haccess : v.memory.flat.access (s + off) c GM.READ = .ok := by
        rw [← Space.checkAccess_flat (h.inv hsoftware) hin, hok]
      refine ⟨haccess, ?_⟩
      intro j hj
      have hkind := h.kind (s + off + j) (by omega) (by omega)
      rw [byte, hkind, hsoftware, if_pos rfl]
      dsimp only
      rw [Flat.read, if_pos haccess]
      simp [Flat.bytes, List.getD_eq_getElem?_getD, hj]

/-- What writing a chunk keeps. -/
structure Wrote (v v' : SoftwareVM) (d n : ℕ) (bounce : Buffer) : Prop where
  mapping : SameMapping v v'
  byte : v'.byte = put v.byte d n bounce
  readyFrom : ∀ {software s m}, v.ReadyFrom software s m → v'.ReadyFrom software s m
  readyTo : ∀ {software b m}, v.ReadyTo software b m → v'.ReadyTo software b m

theorem ReadyTo.writeChunk {v : SoftwareVM} {software : Bool} {d n off c : ℕ}
    (h : v.ReadyTo software d n) (hc : off + c ≤ n) (bounce : Buffer) :
    (v.writeChunk software (d + off) bounce c).1 = .ok ∧
      v.Wrote (v.writeChunk software (d + off) bounce c).2 (d + off) c bounce := by
  unfold SoftwareVM.writeChunk
  cases hsoftware : software with
  | false =>
      refine ⟨rfl, ⟨rfl, rfl, rfl, rfl⟩, ?_, fun h => ⟨h.kind, h.inv, h.access⟩,
        fun h => ⟨h.kind, h.inv, h.access, h.resident⟩⟩
      funext x
      change (if v.gsvAddress x then v.memory.flat.byte x else put v.host (d + off) c bounce x) =
        put v.byte (d + off) c bounce x
      unfold put
      by_cases hx : d + off ≤ x ∧ x < d + off + c
      · have hkind := h.kind x (by omega) (by omega)
        rw [hkind, hsoftware, if_pos hx, if_pos hx]
        rfl
      · rw [if_neg hx, if_neg hx]
        rfl
  | true =>
      have hinv := h.inv hsoftware
      have hok := checkAccess_mono hinv (h.access hsoftware) hc
      obtain ⟨hwritten, hw⟩ := Space.gmSparseWrite_resident hinv hok
        (fun q hq => h.resident hsoftware q (hq.mono hc)) bounce
      have hcheck : ∀ {a m permission}, v.memory.checkAccess a m permission = .ok →
          (v.memory.gmSparseWrite (d + off) (some bounce) c).2.checkAccess a m permission = .ok := by
        intro a m permission hok'
        rw [Space.checkAccess_ok_iff hinv] at hok'
        rw [Space.checkAccess_ok_iff hw.inv]
        unfold Space.Contains Space.Permits at *
        rwa [hw.arena.base, hw.arena.stop, hw.regions]
      rw [if_pos rfl]
      refine ⟨hwritten, ⟨rfl, rfl, rfl, hw.regions⟩, ?_,
        fun h => ⟨h.kind, fun _ => hw.inv, fun hs => hcheck (h.access hs)⟩,
        fun h => ⟨h.kind, fun _ => hw.inv, fun hs => hcheck (h.access hs), ?_⟩⟩
      · funext x
        change (if v.gsvAddress x then
          (v.memory.gmSparseWrite (d + off) (some bounce) c).2.flat.byte x else v.host x) = _
        rw [hw.byte]
        unfold put
        by_cases hx : d + off ≤ x ∧ x < d + off + c
        · have hkind := h.kind x (by omega) (by omega)
          rw [hkind, hsoftware, if_pos hx, if_pos hx]
          rfl
        · rw [if_neg hx, if_neg hx]
          rfl
      · intro hs
        refine hw.resident _ _ (h.resident hs) ?_
        intro x h1 h2
        obtain ⟨t, ht, -⟩ := ((Space.checkAccess_ok_iff hinv).1 (h.access hs)).2 x h1 h2
        rw [ht]
        exact Option.some_ne_none t

/-- A round takes something, and no more than is left. -/
theorem chunk_bounds {n completed : ℕ} (hmore : completed < n) :
    min (n - completed) bounceSize ≠ 0 ∧ min (n - completed) bounceSize ≤ n - completed := by
  unfold bounceSize
  omega

theorem copyRound {v : SoftwareVM} {toSoftware fromSoftware : Bool} {d s n off c : ℕ}
    (hs : v.ReadyFrom fromSoftware s n) (hd : v.ReadyTo toSoftware d n) (hc : off + c ≤ n) :
    let read := v.readChunk fromSoftware (s + off) c
    let written := v.writeChunk toSoftware (d + off) read.2 c
    read.1 = .ok ∧ written.1 = .ok ∧ SameMapping v written.2 ∧
      written.2.byte = move v.byte (d + off) (s + off) c ∧
      written.2.ReadyFrom fromSoftware s n ∧ written.2.ReadyTo toSoftware d n := by
  intro read written
  obtain ⟨hread, hbytes⟩ := hs.readChunk hc
  obtain ⟨hwritten, hw⟩ := hd.writeChunk hc read.2
  refine ⟨hread, hwritten, hw.mapping, ?_, hw.readyFrom hs, hw.readyTo hd⟩
  rw [hw.byte]
  exact put_congr _ hbytes

theorem copyLoop_forward {toSoftware fromSoftware : Bool} {d s n : ℕ} (hside : d ≤ s ∨ s + n ≤ d) :
    ∀ (fuel completed : ℕ) (v : SoftwareVM), v.ReadyFrom fromSoftware s n →
      v.ReadyTo toSoftware d n → n - completed ≤ fuel →
      let answer := copyLoop toSoftware fromSoftware false d s n fuel completed v
      answer.1 = .ok ∧ SameMapping v answer.2 ∧
        answer.2.byte = move v.byte (d + completed) (s + completed) (n - completed) := by
  intro fuel
  induction fuel with
  | zero =>
      intro completed v hs hd hfuel
      rw [Nat.le_zero.1 hfuel, move_zero]
      exact ⟨rfl, SameMapping.refl v, rfl⟩
  | succ fuel ih =>
      intro completed v hs hd hfuel
      rw [copyLoop]
      by_cases hmore : completed < n
      · simp only [if_pos hmore, Bool.false_eq_true, if_false]
        have hchunk := chunk_bounds hmore
        generalize min (n - completed) bounceSize = chunk at hchunk
        obtain ⟨hread, hwritten, hmapping, hbyte, hs', hd'⟩ :=
          copyRound hs hd (show completed + chunk ≤ n by omega)
        rw [if_neg (not_not.2 hread), if_neg (not_not.2 hwritten)]
        obtain ⟨hok, hmapping', hmoved⟩ := ih (completed + chunk) _ hs' hd' (by omega)
        refine ⟨hok, hmapping.trans hmapping', ?_⟩
        rw [hmoved, hbyte, show n - completed = chunk + (n - (completed + chunk)) by omega,
          move_add _ (by omega), Nat.add_assoc, Nat.add_assoc]
      · rw [if_neg hmore, Nat.sub_eq_zero_of_le (not_lt.1 hmore), move_zero]
        exact ⟨rfl, SameMapping.refl v, rfl⟩

theorem copyLoop_reverse {toSoftware fromSoftware : Bool} {d s n : ℕ} (hside : s ≤ d) :
    ∀ (fuel completed : ℕ) (v : SoftwareVM), v.ReadyFrom fromSoftware s n →
      v.ReadyTo toSoftware d n → n - completed ≤ fuel →
      let answer := copyLoop toSoftware fromSoftware true d s n fuel completed v
      answer.1 = .ok ∧ SameMapping v answer.2 ∧
        answer.2.byte = move v.byte d s (n - completed) := by
  intro fuel
  induction fuel with
  | zero =>
      intro completed v hs hd hfuel
      rw [Nat.le_zero.1 hfuel, move_zero]
      exact ⟨rfl, SameMapping.refl v, rfl⟩
  | succ fuel ih =>
      intro completed v hs hd hfuel
      rw [copyLoop]
      by_cases hmore : completed < n
      · simp only [if_pos hmore, if_true]
        have hchunk := chunk_bounds hmore
        generalize min (n - completed) bounceSize = chunk at hchunk
        obtain ⟨hread, hwritten, hmapping, hbyte, hs', hd'⟩ :=
          copyRound hs hd (show n - completed - chunk + chunk ≤ n by omega)
        rw [if_neg (not_not.2 hread), if_neg (not_not.2 hwritten)]
        obtain ⟨hok, hmapping', hmoved⟩ := ih (completed + chunk) _ hs' hd' (by omega)
        refine ⟨hok, hmapping.trans hmapping', ?_⟩
        rw [hmoved, hbyte, ← Nat.sub_sub, ← move_add_back _ hside,
          Nat.sub_add_cancel hchunk.2]
      · rw [if_neg hmore, Nat.sub_eq_zero_of_le (not_lt.1 hmore), move_zero]
        exact ⟨rfl, SameMapping.refl v, rfl⟩

/-- The whole loop: from the back exactly where the destination begins inside the source. -/
theorem copyLoop_move {toSoftware fromSoftware : Bool} {d s n : ℕ} {v : SoftwareVM}
    (hs : v.ReadyFrom fromSoftware s n) (hd : v.ReadyTo toSoftware d n) :
    let answer :=
      copyLoop toSoftware fromSoftware (decide (d > s ∧ d - s < n)) d s n n 0 v
    answer.1 = .ok ∧ SameMapping v answer.2 ∧ answer.2.byte = move v.byte d s n := by
  by_cases hreverse : d > s ∧ d - s < n
  · rw [decide_eq_true hreverse]
    exact copyLoop_reverse (by omega) n 0 v hs hd (Nat.sub_le n 0)
  · rw [decide_eq_false hreverse]
    exact copyLoop_forward (by omega) n 0 v hs hd (Nat.sub_le n 0)

theorem fillLoop_put {d n : ℕ} (value : UInt8) :
    ∀ (fuel completed : ℕ) (v : SoftwareVM), v.ReadyTo true d n → n - completed ≤ fuel →
      let answer := fillLoop d (fun _ => value) n fuel completed v
      answer.1 = .ok ∧ SameMapping v answer.2 ∧
        answer.2.byte = put v.byte (d + completed) (n - completed) fun _ => value := by
  intro fuel
  induction fuel with
  | zero =>
      intro completed v hd hfuel
      rw [Nat.le_zero.1 hfuel, put_zero]
      exact ⟨rfl, SameMapping.refl v, rfl⟩
  | succ fuel ih =>
      intro completed v hd hfuel
      rw [fillLoop]
      by_cases hmore : completed < n
      · simp only [if_pos hmore]
        have hchunk := chunk_bounds hmore
        generalize min (n - completed) bounceSize = chunk at hchunk
        obtain ⟨hwritten, hw⟩ :=
          hd.writeChunk (show completed + chunk ≤ n by omega) fun _ => value
        rw [if_neg (not_not.2 hwritten)]
        obtain ⟨hok, hmapping, hput⟩ := ih (completed + chunk) _ (hw.readyTo hd) (by omega)
        refine ⟨hok, hw.mapping.trans hmapping, ?_⟩
        rw [hput, hw.byte, show n - completed = chunk + (n - (completed + chunk)) by omega,
          put_add, Nat.add_assoc]
      · rw [if_neg hmore, Nat.sub_eq_zero_of_le (not_lt.1 hmore), put_zero]
        exact ⟨rfl, SameMapping.refl v, rfl⟩

/-! ## Preparing -/

theorem prepare_read {v : SoftwareVM} (hv : v.Started) {s n : ℕ} (hs : v.Whole s n) :
    (v.prepare s n GM.READ).2 = v ∧
      ((v.prepare s n GM.READ).1 = .ok ↔ v.Permits GM.READ s n) ∧
      (v.Permits GM.READ s n → v.ReadyFrom (v.gsvAddress s) s n) := by
  unfold prepare Permits
  by_cases ha : v.gsvAddress s = true
  · have he := (gsvAddress_iff.1 ha).1
    have hcheck : v.memory.checkAccess s n GM.READ = .ok ↔
        v.memory.Contains s n ∧ v.memory.Permits GM.READ s n :=
      Space.checkAccess_ok_iff (hv.inv he)
    rw [if_pos ha, Space.gmSparsePrepare_read]
    refine ⟨rfl, ?_, fun hp => ⟨fun x => hs.eq, fun _ => hv.inv he, fun _ => ?_⟩⟩
    · exact ⟨fun hok _ => (hcheck.1 hok).2, fun hp => hcheck.2 ⟨hs.contains hv ha, hp ha⟩⟩
    · exact hcheck.2 ⟨hs.contains hv ha, hp ha⟩
  · rw [if_neg ha]
    exact ⟨rfl, ⟨fun _ h => absurd h ha, fun _ => rfl⟩, fun _ =>
      ⟨fun x => hs.eq, fun h => absurd h ha, fun h => absurd h ha⟩⟩

/-- A destination that has been prepared. -/
structure PreparedTo (v v' : SoftwareVM) (d n : ℕ) : Prop where
  mapping : SameMapping v v'
  byte : v'.byte = v.byte
  readyTo : v'.ReadyTo (v.gsvAddress d) d n
  readyFrom : ∀ {software s m}, v.ReadyFrom software s m → v'.ReadyFrom software s m

theorem prepare_write {v : SoftwareVM} (hv : v.Started) {d n : ℕ} (hd : v.Whole d n) :
    ((v.prepare d n GM.WRITE).1 = .ok ↔ v.Permits GM.WRITE d n ∧ v.Backed d n) ∧
      ((v.prepare d n GM.WRITE).1 ≠ .ok → (v.prepare d n GM.WRITE).2 = v) ∧
      ((v.prepare d n GM.WRITE).1 = .ok → v.PreparedTo (v.prepare d n GM.WRITE).2 d n) := by
  unfold prepare Permits Backed
  by_cases ha : v.gsvAddress d = true
  · have hinv := hv.inv (gsvAddress_iff.1 ha).1
    have hcheck : v.memory.checkAccess d n GM.WRITE = .ok ↔
        v.memory.Contains d n ∧ v.memory.Permits GM.WRITE d n :=
      Space.checkAccess_ok_iff hinv
    obtain ⟨hok, hsame⟩ := v.memory.gmSparsePrepare_write d n
    rw [if_pos ha]
    dsimp only
    refine ⟨?_, ?_, ?_⟩
    · rw [hok, hcheck, and_iff_right (hd.contains hv ha)]
      exact ⟨fun h => ⟨fun _ => h.1, fun _ => h.2⟩, fun h => ⟨h.1 ha, h.2 ha⟩⟩
    · intro hno
      rw [hsame hno]
    · intro hwent
      have hp := Space.preparedFor_write hinv hwent
      have hkeep : ∀ {a m permission}, v.memory.checkAccess a m permission = .ok →
          (v.memory.gmSparsePrepare d n GM.WRITE).2.checkAccess a m permission = .ok := by
        intro a m permission hok'
        rw [Space.checkAccess_ok_iff hinv] at hok'
        rw [Space.checkAccess_ok_iff hp.inv]
        unfold Space.Contains Space.Permits at *
        rwa [hp.arena.base, hp.arena.stop, hp.regions]
      refine ⟨⟨rfl, rfl, rfl, hp.regions⟩, ?_, ⟨fun x => hd.eq, fun _ => hp.inv,
        fun _ => hkeep (hok.1 hwent).1, fun _ => hp.resident⟩,
        fun h => ⟨h.kind, fun _ => hp.inv, fun hs => hkeep (h.access hs)⟩⟩
      funext x
      change (if v.gsvAddress x then (v.memory.gmSparsePrepare d n GM.WRITE).2.flat.byte x
        else v.host x) = v.byte x
      rw [hp.flat]
      rfl
  · rw [if_neg ha]
    exact ⟨⟨fun _ => ⟨fun h => absurd h ha, fun h => absurd h ha⟩, fun _ => rfl⟩, fun _ => rfl,
      fun _ => ⟨SameMapping.refl v, rfl, ⟨fun x => hd.eq, fun h => absurd h ha,
        fun h => absurd h ha, fun h => absurd h ha⟩, id⟩⟩

/-! ## The two functions -/

/-- A call that sets the `n` bytes from `d` on to those of `f` where that is possible, and
otherwise does nothing. -/
structure Sets (v : SoftwareVM) (answer : GMResult × SoftwareVM) (possible : Prop) (d n : ℕ)
    (f : ℕ → UInt8) : Prop where
  accepted : answer.1 = .ok ↔ possible
  bytes : answer.1 = .ok → ∀ x, answer.2.byte x = if d ≤ x ∧ x < d + n then f (x - d) else v.byte x
  mapping : SameMapping v answer.2
  refused : answer.1 ≠ .ok → answer.2 = v

/-- A write of the host memory alone. -/
theorem sets_host {v : SoftwareVM} {d n : ℕ} (hd : v.Whole d n) (ha : v.gsvAddress d = false)
    {possible : Prop} (hpossible : possible) {f : Buffer} :
    v.Sets (.ok, { v with host := put v.host d n f }) possible d n f := by
  refine ⟨⟨fun _ => hpossible, fun _ => rfl⟩, ?_, ⟨rfl, rfl, rfl, rfl⟩, fun h => absurd rfl h⟩
  intro _ x
  change (if v.gsvAddress x then v.memory.flat.byte x else put v.host d n f x) = _
  unfold put
  by_cases hx : d ≤ x ∧ x < d + n
  · rw [hd.eq hx.1 hx.2, ha, if_neg Bool.false_ne_true, if_pos hx, if_pos hx]
  · rw [if_neg hx, if_neg hx]
    rfl

theorem gsvCopy_sets {v : SoftwareVM} (hv : v.Started) {d s n : ℕ} (hd : v.Whole d n)
    (hs : v.Whole s n) :
    v.Sets (v.gsvCopy d s n) (v.Permits GM.READ s n ∧ v.Permits GM.WRITE d n ∧ v.Backed d n) d n
      fun j => v.byte (s + j) := by
  unfold gsvCopy
  dsimp only
  by_cases hhost : (!v.gsvAddress d && !v.gsvAddress s) = true
  · rw [if_pos hhost]
    simp only [Bool.and_eq_true, Bool.not_eq_true'] at hhost
    obtain ⟨hd', hs'⟩ := hhost
    have hbytes : move v.host d s n = put v.host d n fun j => v.byte (s + j) := by
      apply put_congr
      intro j hj
      rw [byte, hs.eq (Nat.le_add_right s j) (by omega), hs']
      rfl
    rw [hbytes]
    refine sets_host hd hd' ?_
    exact ⟨fun h => absurd (h.symm.trans hs') nofun, fun h => absurd (h.symm.trans hd') nofun,
      fun h => absurd (h.symm.trans hd') nofun⟩
  rw [if_neg hhost]
  obtain ⟨hsame, hread, hfrom⟩ := prepare_read hv hs
  by_cases hpermits : v.Permits GM.READ s n
  swap
  · rw [if_pos (mt hread.1 hpermits)]
    exact ⟨⟨fun hok => absurd (hread.1 hok) hpermits, fun h => absurd h.1 hpermits⟩,
      fun hok => absurd (hread.1 hok) hpermits, by rw [hsame]; exact SameMapping.refl v,
      fun _ => hsame⟩
  rw [if_neg (not_not.2 (hread.2 hpermits)), hsame]
  obtain ⟨hwrite, hnothing, hprepared⟩ := prepare_write hv hd
  by_cases hok : (v.prepare d n GM.WRITE).1 = .ok
  swap
  · rw [if_pos hok]
    exact ⟨⟨fun h => absurd h hok, fun h => absurd (hwrite.2 h.2) hok⟩, fun h => absurd h hok,
      by rw [hnothing hok]; exact SameMapping.refl v, hnothing⟩
  rw [if_neg (not_not.2 hok)]
  have hp := hprepared hok
  obtain ⟨hdone, hmapping, hbyte⟩ := copyLoop_move (hp.readyFrom (hfrom hpermits)) hp.readyTo
  rw [hp.byte] at hbyte
  refine ⟨⟨fun _ => ⟨hpermits, hwrite.1 hok⟩, fun _ => hdone⟩, ?_, hp.mapping.trans hmapping,
    fun h => absurd hdone h⟩
  intro _ x
  rw [hbyte]
  rfl

theorem gsvFill_sets {v : SoftwareVM} (hv : v.Started) {d n : ℕ} (hd : v.Whole d n)
    (value : BitVec 32) :
    v.Sets (v.gsvFill d value n) (v.Permits GM.WRITE d n ∧ v.Backed d n) d n
      fun _ => byteOf value.toNat 0 := by
  unfold gsvFill
  dsimp only
  by_cases ha : v.gsvAddress d = false
  · rw [if_pos ha]
    refine sets_host hd ha ?_
    exact ⟨fun h => absurd (h.symm.trans ha) nofun, fun h => absurd (h.symm.trans ha) nofun⟩
  rw [if_neg ha]
  obtain ⟨hwrite, hnothing, hprepared⟩ := prepare_write hv hd
  by_cases hok : (v.prepare d n GM.WRITE).1 = .ok
  swap
  · rw [if_pos hok]
    exact ⟨hwrite, fun h => absurd h hok, by rw [hnothing hok]; exact SameMapping.refl v, hnothing⟩
  rw [if_neg (not_not.2 hok)]
  have hp := hprepared hok
  have hready := hp.readyTo
  rw [Bool.eq_true_of_not_eq_false ha] at hready
  obtain ⟨hdone, hmapping, hbyte⟩ := fillLoop_put (byteOf value.toNat 0) n 0 _ hready (Nat.sub_le n 0)
  refine ⟨⟨fun _ => hwrite.1 hok, fun _ => hdone⟩, ?_, hp.mapping.trans hmapping,
    fun h => absurd hdone h⟩
  intro _ x
  rw [hbyte, hp.byte]
  rfl

/-- `gsv_copy` moves the bytes as they were before the call and `gsv_fill` sets them, or nothing
changes. -/
theorem copy_fill {v : SoftwareVM} (hv : v.Started) :
    (∀ d s n, v.Whole d n → v.Whole s n →
      v.Sets (v.gsvCopy d s n) (v.Permits GM.READ s n ∧ v.Permits GM.WRITE d n ∧ v.Backed d n) d n
        fun j => v.byte (s + j)) ∧
    ∀ d value n, v.Whole d n →
      v.Sets (v.gsvFill d value n) (v.Permits GM.WRITE d n ∧ v.Backed d n) d n
        fun _ => byteOf value.toNat 0 :=
  ⟨fun _ _ _ => gsvCopy_sets hv, fun _ value _ hd => gsvFill_sets hv hd value⟩

/-- An arena of one page that may be read and written. -/
def pageVM : SoftwareVM := ⟨true, 16384, 16384, pageSpace, fun _ => 7⟩

theorem started_pageVM : pageVM.Started := fun _ =>
  ⟨16384, true, fun _ => zeroPage, _, [.map 16384 16384 3#32 3#32 false], rfl, rfl⟩

theorem whole_pageVM {a n : ℕ} (h : 16384 ≤ a) (h' : a + n ≤ 32768) : pageVM.Whole a n := by
  refine ⟨by omega, true, ?_⟩
  intro x h1 h2
  rw [gsvAddress_iff]
  exact ⟨rfl, by change 16384 ≤ x; omega, by change x < 16384 + 16384; omega⟩

/-- A copy that overlaps its source, and a fill. -/
theorem copy_fill_page :
    pageVM.Sets (pageVM.gsvCopy 16390 16386 5)
        (pageVM.Permits GM.READ 16386 5 ∧ pageVM.Permits GM.WRITE 16390 5 ∧
          pageVM.Backed 16390 5) 16390 5 (fun j => pageVM.byte (16386 + j)) ∧
      pageVM.Sets (pageVM.gsvFill 16390 300#32 5)
        (pageVM.Permits GM.WRITE 16390 5 ∧ pageVM.Backed 16390 5) 16390 5 (fun _ => 44) :=
  ⟨(copy_fill started_pageVM).1 _ _ _ (whole_pageVM (by decide) (by decide))
      (whole_pageVM (by decide) (by decide)),
    (copy_fill started_pageVM).2 16390 300#32 5 (whole_pageVM (by decide) (by decide))⟩

end SoftwareVM

end Tolkara
