import Tolkara.Fixups.Frame

/-!
# The loops end

Every loop of the fixups stops by itself: an opcode takes at least a byte of its stream, and a list
of chain starts two bytes of the blob. More rounds than there are bytes change nothing.
-/

namespace Tolkara

open Library

namespace GuestFixups

variable {σ : Type} {c c' : Cursor}

/-- A cursor further on in the same bytes. -/
structure On (c c' : Cursor) : Prop where
  bytes : c'.bytes = c.bytes
  le : c.p ≤ c'.p
  inside : c'.p ≤ c.bytes.length

theorem On.refl (hp : c.p ≤ c.bytes.length) : On c c := ⟨rfl, le_rfl, hp⟩

theorem On.trans {c'' : Cursor} (h : On c c') (h' : On c' c'') : On c c'' :=
  ⟨h'.bytes.trans h.bytes, h.le.trans h'.le, h.bytes ▸ h'.inside⟩

theorem On.p_le (h : On c c') : c'.p ≤ c'.bytes.length := by
  rw [h.bytes]
  exact h.inside

theorem on_uleb (hp : c.p ≤ c.bytes.length) : On c (uleb c).2 := by
  obtain ⟨v, c', h, hbytes, hle, hinside⟩ := lebLoop_inside false 10 0 hp 0#64
  rw [uleb, leb, h]
  exact ⟨hbytes, hle, hinside⟩

theorem on_sleb (hp : c.p ≤ c.bytes.length) : On c (sleb c).2 := by
  obtain ⟨v, c', h, hbytes, hle, hinside⟩ := lebLoop_inside true 10 0 hp 0#64
  rw [sleb, leb, h]
  exact ⟨hbytes, hle, hinside⟩

/-- An opcode that goes on is read within its stream. -/
def Decoded.On {ρ : Type} (c : Cursor) (d : Decoded ρ) : Prop :=
  ∀ c' r count skip, d = .run c' r count skip → GuestFixups.On c c'

theorem Decoded.on_run {ρ : Type} (h : GuestFixups.On c c') (r : ρ) (count skip : ℕ) :
    Decoded.On c (.run c' r count skip) := by
  intro c'' r' count' skip' heq
  cases heq
  exact h

theorem Decoded.on_done {ρ : Type} : Decoded.On (ρ := ρ) c .done := by
  intro c' r count skip heq
  cases heq

theorem Decoded.on_invalid {ρ : Type} : Decoded.On (ρ := ρ) c (.invalid c') := by
  intro c' r count skip heq
  cases heq

theorem on_rebaseOpcode (op imm : ℕ) (r : Rebasing) (hp : c.p ≤ c.bytes.length) :
    (rebaseOpcode op imm c r).On c := by
  have hsame := On.refl hp
  have hone := on_uleb hp
  have htwo := hone.trans (on_uleb hone.p_le)
  unfold rebaseOpcode
  split
  · exact Decoded.on_done
  · exact Decoded.on_run hsame _ _ _
  · exact Decoded.on_run hone _ _ _
  · dsimp only
    split
    · exact Decoded.on_invalid
    · exact Decoded.on_run hone _ _ _
  · split
    · exact Decoded.on_invalid
    · exact Decoded.on_run hsame _ _ _
  · exact Decoded.on_run hsame _ _ _
  · exact Decoded.on_run hone _ _ _
  · exact Decoded.on_run hone _ _ _
  · exact Decoded.on_run htwo _ _ _
  · exact Decoded.on_invalid

theorem on_bindOpcode (dylibCount : ℕ) (lazy : Bool) (op imm : ℕ) (r : Binding)
    (hp : c.p ≤ c.bytes.length) : (bindOpcode dylibCount lazy op imm c r).On c := by
  have hsame := On.refl hp
  have hone := on_uleb hp
  have htwo := hone.trans (on_uleb hone.p_le)
  unfold bindOpcode
  split
  · split
    · exact Decoded.on_run hsame _ _ _
    · exact Decoded.on_done
  · exact Decoded.on_run hsame _ _ _
  · dsimp only
    split
    · exact Decoded.on_invalid
    · exact Decoded.on_run hone _ _ _
  · exact Decoded.on_run hsame _ _ _
  · dsimp only
    split
    · exact Decoded.on_invalid
    · rename_i hfound
      rw [List.length_drop] at hfound
      apply Decoded.on_run
      refine ⟨rfl, ?_, ?_⟩
      · dsimp only
        omega
      · dsimp only
        omega
  · exact Decoded.on_run hsame _ _ _
  · exact Decoded.on_run (on_sleb hp) _ _ _
  · exact Decoded.on_run hone _ _ _
  · exact Decoded.on_run hone _ _ _
  · exact Decoded.on_run hsame _ _ _
  · exact Decoded.on_run hone _ _ _
  · exact Decoded.on_run hsame _ _ _
  · exact Decoded.on_run htwo _ _ _
  · exact Decoded.on_invalid

theorem on_opcode {byte : UInt8} (h : c.bytes[c.p]? = some byte) :
    On c { c with p := c.p + 1 } ∧ c.p < c.bytes.length := by
  obtain ⟨hlt, -⟩ := List.getElem?_eq_some_iff.1 h
  exact ⟨⟨rfl, Nat.le_succ _, hlt⟩, hlt⟩

theorem rebaseLoop_more (host : GFHost σ) (image : LoadedImage) (slide more : ℕ) {fuel : ℕ}
    (hfuel : c.bytes.length - c.p < fuel) (r : Rebasing) :
    rebaseLoop host image slide (fuel + more) c r = rebaseLoop host image slide fuel c r := by
  induction fuel generalizing c r with
  | zero => exact absurd hfuel (Nat.not_lt_zero _)
  | succ fuel ih =>
      rw [Nat.add_right_comm, rebaseLoop, rebaseLoop]
      cases hbyte : c.bytes[c.p]? with
      | none => rfl
      | some byte =>
          obtain ⟨hnext, hlt⟩ := on_opcode hbyte
          have hon := on_rebaseOpcode (byte.toNat / 16) (byte.toNat % 16) r hnext.p_le
          dsimp only
          cases hopcode : rebaseOpcode (byte.toNat / 16) (byte.toNat % 16)
              { c with p := c.p + 1 } r with
          | done => rfl
          | invalid => rfl
          | run c' r' count skip =>
              have hstep := hnext.trans (hon c' r' count skip hopcode)
              have hle := (hon c' r' count skip hopcode).le
              have hless : c'.bytes.length - c'.p < fuel := by
                rw [hstep.bytes]
                dsimp only at hle
                omega
              dsimp only
              split
              · rfl
              · exact congrArg (_ >>= ·) (funext fun r => ih hless r)

theorem bindLoop_more (host : GFHost σ) (image : LoadedImage) (lazy weakStream : Bool)
    (more : ℕ) {fuel : ℕ} (hfuel : c.bytes.length - c.p < fuel) (r : Binding) :
    bindLoop host image lazy weakStream (fuel + more) c r =
      bindLoop host image lazy weakStream fuel c r := by
  induction fuel generalizing c r with
  | zero => exact absurd hfuel (Nat.not_lt_zero _)
  | succ fuel ih =>
      rw [Nat.add_right_comm, bindLoop, bindLoop]
      cases hbyte : c.bytes[c.p]? with
      | none => rfl
      | some byte =>
          obtain ⟨hnext, hlt⟩ := on_opcode hbyte
          have hon := on_bindOpcode image.dylibs.length lazy (byte.toNat / 16) (byte.toNat % 16)
            { r with ended := false } hnext.p_le
          dsimp only
          cases hopcode : bindOpcode image.dylibs.length lazy (byte.toNat / 16)
              (byte.toNat % 16) { c with p := c.p + 1 } { r with ended := false } with
          | done => rfl
          | invalid => rfl
          | run c' r' count skip =>
              have hstep := hnext.trans (hon c' r' count skip hopcode)
              have hle := (hon c' r' count skip hopcode).le
              have hless : c'.bytes.length - c'.p < fuel := by
                rw [hstep.bytes]
                dsimp only at hle
                omega
              dsimp only
              split
              · rfl
              · exact congrArg (_ >>= ·) (funext fun r => ih hless r)

theorem startList_more (host : GFHost σ) (x : Chains) (blob : List UInt8)
    (i segmentOffset page more : ℕ) {fuel place : ℕ} (hfuel : blob.length - place < fuel) :
    startList host x blob i segmentOffset page (fuel + more) place =
      startList host x blob i segmentOffset page fuel place := by
  induction fuel generalizing place with
  | zero => exact absurd hfuel (Nat.not_lt_zero _)
  | succ fuel ih =>
      rw [Nat.add_right_comm, startList, startList]
      cases hread : blobNumber blob place 2 with
      | none => rfl
      | some offset =>
          have hroom : place + 2 ≤ blob.length := by
            unfold blobNumber at hread
            split_ifs at hread with hbad
            omega
          have hless : blob.length - (place + 2) < fuel := by omega
          rw [ih hless]

end GuestFixups

end Tolkara
