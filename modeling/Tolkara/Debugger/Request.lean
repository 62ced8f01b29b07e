import Tolkara.Discovery.Wire

/-!
# Requests to prepare an arena

`DebugArenaRequest`: the process, its challenge and the regions a debugger is asked to
prepare. A value of the structure satisfies what its initialiser checks, so that the
session and the service need no checks of their own.
-/

namespace Tolkara

namespace DebugArenaRequest

structure Region where
  address : ℕ
  size : ℕ
deriving DecidableEq, Repr

namespace Region

def page : ℕ := 16384

def Valid (challengeAddress : ℕ) (r : Region) : Prop :=
  16384 ≤ r.address ∧ r.address % page = 0 ∧ 0 < r.size ∧ r.size ≤ 536870912 ∧
    r.size % page = 0 ∧ r.address ≤ 0x0000ffffffffffff - r.size ∧
    (r.address + r.size ≤ challengeAddress ∨ challengeAddress + 32 ≤ r.address)

instance (challengeAddress : ℕ) (r : Region) : Decidable (r.Valid challengeAddress) :=
  inferInstanceAs (Decidable (_ ∧ _))

/-- Two regions without a byte in common. -/
def Apart (r other : Region) : Prop :=
  r.address + r.size ≤ other.address ∨ other.address + other.size ≤ r.address

instance (r other : Region) : Decidable (r.Apart other) :=
  inferInstanceAs (Decidable (_ ∨ _))

end Region

/-- The loop over the regions: each is valid, they are apart, and together not larger
than 512 MiB. -/
def checkRegions (challengeAddress : ℕ) :
    List Region → ℕ → List Region → Except PairingError Unit
  | _, _, [] => .ok ()
  | earlier, total, r :: rest =>
    if ¬ r.Valid challengeAddress then .error .malformed
    else if 536870912 < total + r.size then .error .oversized
    else if ¬ ∀ other ∈ earlier, r.Apart other then .error .malformed
    else checkRegions challengeAddress (earlier ++ [r]) (total + r.size) rest

theorem checkRegions_ok {challengeAddress : ℕ} {earlier regions : List Region} {total : ℕ}
    (h : checkRegions challengeAddress earlier total regions = .ok ()) :
    (∀ r ∈ regions, r.Valid challengeAddress ∧ ∀ other ∈ earlier, r.Apart other) ∧
      regions.Pairwise Region.Apart := by
  induction regions generalizing earlier total with
  | nil => exact ⟨fun _ hr => absurd hr List.not_mem_nil, List.Pairwise.nil⟩
  | cons r rest ih =>
      rw [checkRegions] at h
      split_ifs at h with hvalid hsize hapart
      obtain ⟨hall, hpairwise⟩ := ih h
      refine ⟨fun t ht => ?_, List.pairwise_cons.mpr ⟨fun t ht => ?_, hpairwise⟩⟩
      · rcases List.mem_cons.mp ht with rfl | hmem
        · exact ⟨hvalid, hapart⟩
        · exact ⟨(hall t hmem).1, fun other hother =>
            (hall t hmem).2 other (List.mem_append_left _ hother)⟩
      · exact ((hall t ht).2 r (List.mem_append_right _ (List.mem_singleton.mpr rfl))).symm

end DebugArenaRequest

/-- `DebugArenaRequest`, with what its initialiser has checked. -/
structure DebugArenaRequest where
  pid : ℕ
  uid : ℕ
  challengeAddress : ℕ
  challenge : List UInt8
  regions : List DebugArenaRequest.Region
  challenge_length : challenge.length = 32
  regions_ne_nil : regions ≠ []
  regions_valid : ∀ r ∈ regions, r.Valid challengeAddress
  regions_apart : regions.Pairwise DebugArenaRequest.Region.Apart

namespace DebugArenaRequest

/-- `DebugArenaRequest.init`, run in a process `ownPid`. -/
def make (ownPid pid helperPID uid challengeAddress : ℕ)
    (challenge : List UInt8) (regions : List Region) : Except PairingError DebugArenaRequest :=
  if h : 1 < pid ∧ pid ≤ 2147483647 ∧ pid ≠ helperPID ∧ pid ≠ ownPid ∧ challenge.length = 32 ∧
      (challenge.any fun b => b ≠ 0) ∧ 4096 ≤ challengeAddress ∧
      challengeAddress ≤ 0x0000ffffffffffff - 32 ∧ regions ≠ [] ∧ regions.length ≤ 4 then
    match hcheck : checkRegions challengeAddress [] 0 regions with
    | .error e => .error e
    | .ok () => .ok
      { pid := pid
        uid := uid
        challengeAddress := challengeAddress
        challenge := challenge
        regions := regions
        challenge_length := h.2.2.2.2.1
        regions_ne_nil := h.2.2.2.2.2.2.2.2.1
        regions_valid := fun r hr => ((checkRegions_ok hcheck).1 r hr).1
        regions_apart := (checkRegions_ok hcheck).2 }
  else .error .malformed

theorem make_ok {ownPid pid helperPID uid challengeAddress : ℕ}
    {challenge : List UInt8} {regions : List Region} {request : DebugArenaRequest}
    (h : make ownPid pid helperPID uid challengeAddress challenge regions = .ok request) :
    request.pid = pid ∧ request.challenge = challenge ∧ request.regions = regions := by
  unfold make at h
  split at h
  · split at h
    · cases h
    · cases h
      exact ⟨rfl, rfl, rfl⟩
  · cases h

end DebugArenaRequest

end Tolkara
