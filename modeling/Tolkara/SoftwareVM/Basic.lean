import Tolkara.Library.Moves
import Tolkara.Memory.Agreement

/-!
# The software memory

`runtime/GuestSoftwareVM.c`: one part of the address space is an arena that a
sparse memory stands for, the rest is memory of the host. A pointer is software
where `gsv_address` says so. The functions here take pointers of both kinds and
go through a buffer on the stack, in chunks; addresses are natural numbers, since
a range of C does not wrap.

Seen from outside the two memories are one, `byte`.
-/

namespace Tolkara

/-- What the functions read and write: the arena and the host memory. -/
structure SoftwareVM where
  enabled : Bool
  base : ℕ
  span : ℕ
  memory : Space
  host : ℕ → UInt8

namespace SoftwareVM

def gsvAddress (v : SoftwareVM) (a : ℕ) : Bool :=
  v.enabled && decide (a ≥ v.base ∧ a - v.base < v.span)

def prepare (v : SoftwareVM) (p n : ℕ) (permissions : Prot) : GMResult × SoftwareVM :=
  if v.gsvAddress p then
    let answer := v.memory.gmSparsePrepare p n permissions
    (answer.1, { v with memory := answer.2 })
  else (.ok, v)

/-! ## Copying -/

def bounceSize : ℕ := 4096

def readChunk (v : SoftwareVM) (software : Bool) (s n : ℕ) : GMResult × Buffer :=
  if software then
    let answer := v.memory.gmSparseRead s (some fun _ => 0) n
    (answer.1, fun j => answer.2.getD j 0)
  else (.ok, fun j => v.host (s + j))

def writeChunk (v : SoftwareVM) (software : Bool) (d : ℕ) (bounce : Buffer) (n : ℕ) :
    GMResult × SoftwareVM :=
  if software then
    let answer := v.memory.gmSparseWrite d (some bounce) n
    (answer.1, { v with memory := answer.2 })
  else (.ok, { v with host := Library.put v.host d n bounce })

/-- The loop of `gsv_copy`. A round copies at least one byte, so `size` rounds are enough. -/
def copyLoop (toSoftware fromSoftware reverse : Bool) (d s size : ℕ) :
    ℕ → ℕ → SoftwareVM → GMResult × SoftwareVM
  | 0, _, v => (.ok, v)
  | fuel + 1, completed, v =>
    if completed < size then
      let chunk := min (size - completed) bounceSize
      let offset := if reverse then size - completed - chunk else completed
      let read := v.readChunk fromSoftware (s + offset) chunk
      if read.1 ≠ .ok then (read.1, v)
      else
        let written := v.writeChunk toSoftware (d + offset) read.2 chunk
        if written.1 ≠ .ok then written
        else copyLoop toSoftware fromSoftware reverse d s size fuel (completed + chunk) written.2
    else (.ok, v)

/-- Between two ranges of the host this is `memmove`. -/
def gsvCopy (v : SoftwareVM) (d s size : ℕ) : GMResult × SoftwareVM :=
  let toSoftware := v.gsvAddress d
  let fromSoftware := v.gsvAddress s
  if !toSoftware && !fromSoftware then (.ok, { v with host := Library.move v.host d s size })
  else
    let source := v.prepare s size GM.READ
    if source.1 ≠ .ok then source
    else
      let destination := source.2.prepare d size GM.WRITE
      if destination.1 ≠ .ok then destination
      else
        copyLoop toSoftware fromSoftware (decide (d > s ∧ d - s < size)) d s size size 0
          destination.2

/-! ## Filling -/

def fillLoop (d : ℕ) (bounce : Buffer) (size : ℕ) : ℕ → ℕ → SoftwareVM → GMResult × SoftwareVM
  | 0, _, v => (.ok, v)
  | fuel + 1, completed, v =>
    if completed < size then
      let chunk := min (size - completed) bounceSize
      let written := v.writeChunk true (d + completed) bounce chunk
      if written.1 ≠ .ok then written
      else fillLoop d bounce size fuel (completed + chunk) written.2
    else (.ok, v)

/-- Outside the arena this is `memset`: the byte is the low one of `value`. -/
def gsvFill (v : SoftwareVM) (d : ℕ) (value : BitVec 32) (size : ℕ) : GMResult × SoftwareVM :=
  let bounce : Buffer := fun _ => byteOf value.toNat 0
  if v.gsvAddress d = false then (.ok, { v with host := Library.put v.host d size bounce })
  else
    let destination := v.prepare d size GM.WRITE
    if destination.1 ≠ .ok then destination
    else fillLoop d bounce size size 0 destination.2

/-! ## The two memories as one -/

/-- The byte at an address, of either memory. -/
def byte (v : SoftwareVM) (x : ℕ) : UInt8 :=
  if v.gsvAddress x then v.memory.flat.byte x else v.host x

/-- The arena is one that `gsv_start` made and calls on its memory lead to. -/
def Started (v : SoftwareVM) : Prop :=
  v.enabled = true → ∃ (backingBytes : ℕ) (allocated : Bool) (arena : ℕ → PageBytes) (s₀ : Space)
    (calls : List (Space.Call GMSparseExclusive)),
    Space.gmSparseInit v.base v.span backingBytes allocated arena = (.ok, some s₀) ∧
      v.memory = s₀.run calls

/-- A range of addresses on one side of the arena's edge. -/
def Whole (v : SoftwareVM) (a n : ℕ) : Prop :=
  a + n ≤ 2 ^ 64 ∧ ∃ software, ∀ x, a ≤ x → x < a + n → v.gsvAddress x = software

/-- What of the range is software is mapped with the permission. -/
def Permits (v : SoftwareVM) (permission : Prot) (a n : ℕ) : Prop :=
  v.gsvAddress a = true → v.memory.Permits permission a n

/-- The pages a write would create have backing. -/
def Backed (v : SoftwareVM) (a n : ℕ) : Prop := v.gsvAddress a = true → v.memory.Fits a n

theorem Started.inv {v : SoftwareVM} (h : v.Started) (he : v.enabled = true) : v.memory.Inv := by
  obtain ⟨backingBytes, allocated, arena, s₀, calls, hinit, heq⟩ := h he
  rw [heq]
  exact Space.inv_run (Space.gmSparseInit_spec hinit).1 calls

theorem Started.arena {v : SoftwareVM} (h : v.Started) (he : v.enabled = true) :
    v.memory.base = v.base ∧ v.memory.stop = v.base + v.span := by
  obtain ⟨backingBytes, allocated, arena, s₀, calls, hinit, heq⟩ := h he
  obtain ⟨hinv, hbase, hstop, -⟩ := Space.gmSparseInit_spec hinit
  have hsame := Space.arena_run hinv calls
  rw [heq, hsame.base, hsame.stop]
  exact ⟨hbase, hstop⟩

theorem gsvAddress_iff {v : SoftwareVM} {a : ℕ} :
    v.gsvAddress a = true ↔ v.enabled = true ∧ v.base ≤ a ∧ a < v.base + v.span := by
  unfold gsvAddress
  rw [Bool.and_eq_true, decide_eq_true_eq]
  constructor
  · rintro ⟨he, h1, h2⟩
    exact ⟨he, h1, by omega⟩
  · rintro ⟨he, h1, h2⟩
    exact ⟨he, h1, by omega⟩

/-- The kind of a range is the kind of its first address. -/
theorem Whole.eq {v : SoftwareVM} {a n : ℕ} (h : v.Whole a n) {x : ℕ} (h1 : a ≤ x)
    (h2 : x < a + n) : v.gsvAddress x = v.gsvAddress a := by
  obtain ⟨-, software, heq⟩ := h
  rw [heq x h1 h2, heq a le_rfl (by omega)]

/-- A range that begins in the arena lies in it. -/
theorem Whole.contains {v : SoftwareVM} {a n : ℕ} (hv : v.Started) (h : v.Whole a n)
    (ha : v.gsvAddress a = true) : v.memory.Contains a n := by
  obtain ⟨he, h1, h2⟩ := gsvAddress_iff.1 ha
  obtain ⟨hbase, hstop⟩ := hv.arena he
  unfold Space.Contains
  rw [hbase, hstop]
  refine ⟨h1, by omega, ?_⟩
  by_cases h0 : n = 0
  · omega
  · have hlast := h.eq (x := a + n - 1) (by omega) (by omega)
    rw [ha, gsvAddress_iff] at hlast
    omega

end SoftwareVM

end Tolkara
