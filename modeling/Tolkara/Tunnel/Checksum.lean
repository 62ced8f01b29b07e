import Tolkara.Library.EndAround
import Tolkara.Tunnel.Codec

/-!
# Checksums

The complement of a one's-complement sum of words. Bytes that carry their checksum sum up
to a multiple of the highest word, which is never the empty sum.
-/

namespace Tolkara

namespace TunnelTCPCodec

/-- The one's-complement sum of the words is all ones. -/
def Checked (bytes : List UInt8) : Prop := 0 < wordSum bytes ∧ 65535 ∣ wordSum bytes

def fill (i : ℕ) (bytes : List UInt8) (check : BitVec 16) : List UInt8 :=
  (bytes.set i (highByte check.toNat)).set (i + 1) (lowByte check.toNat)

def blank (i : ℕ) (bytes : List UInt8) : List UInt8 := (bytes.set i 0).set (i + 1) 0

@[simp]
theorem length_fill (i : ℕ) (bytes : List UInt8) (check : BitVec 16) :
    (fill i bytes check).length = bytes.length := by
  simp [fill]

@[simp]
theorem length_blank (i : ℕ) (bytes : List UInt8) : (blank i bytes).length = bytes.length := by
  simp [blank]

theorem fill_blank (i : ℕ) (bytes : List UInt8) (check : BitVec 16) :
    fill i (blank i bytes) check = fill i bytes check := by
  rw [fill, fill, blank, List.set_comm _ _ (by omega : i + 1 ≠ i), List.set_set, List.set_set]

/-! ## Bytes and words -/

theorem toNat_highByte {n : ℕ} (h : n < 65536) : (highByte n).toNat = n / 256 :=
  UInt8.toNat_ofNat_of_lt' (Nat.div_lt_of_lt_mul h)

theorem toNat_lowByte (n : ℕ) : (lowByte n).toNat = n % 256 :=
  UInt8.toNat_ofNat_of_lt' (Nat.mod_lt _ (by decide))

theorem toNat_word {n : ℕ} (h : n < 65536) :
    (highByte n).toNat * 256 + (lowByte n).toNat = n := by
  rw [toNat_highByte h, toNat_lowByte]
  exact Nat.div_add_mod' n 256

theorem wordSum_append {front : List UInt8} (h : front.length % 2 = 0) (bytes : List UInt8) :
    wordSum (front ++ bytes) = wordSum front + wordSum bytes := by
  induction front using wordSum.induct with
  | case1 => rw [List.nil_append, wordSum, Nat.zero_add]
  | case2 high => simp at h
  | case3 high low rest ih =>
      have hrest : rest.length % 2 = 0 := by
        rw [List.length_cons, List.length_cons] at h
        omega
      rw [List.cons_append, List.cons_append, wordSum, wordSum, ih hrest]
      exact (Nat.add_assoc _ _ _).symm

/-- A word on an even place is added to the others. -/
theorem wordSum_set {bytes : List UInt8} {i : ℕ} (heven : i % 2 = 0)
    (hi : i + 1 < bytes.length) (high low : UInt8) :
    wordSum ((bytes.set i high).set (i + 1) low) =
      wordSum (blank i bytes) + (high.toNat * 256 + low.toNat) := by
  induction bytes using wordSum.induct generalizing i with
  | case1 => exact absurd hi (Nat.not_lt_zero _)
  | case2 only => simp at hi
  | case3 first second rest ih =>
      match i with
      | 0 =>
          simp only [blank, List.set_cons_zero, List.set_cons_succ, wordSum, UInt8.toNat_zero]
          omega
      | 1 => simp at heven
      | i + 2 =>
          have hlong : i + 1 < rest.length := by
            rw [List.length_cons, List.length_cons] at hi
            omega
          have hrest := ih (by omega) hlong
          simp only [blank, List.set_cons_succ, wordSum] at hrest ⊢
          rw [hrest]
          omega

theorem wordSum_le (bytes : List UInt8) :
    wordSum bytes ≤ 65535 * ((bytes.length + 1) / 2) := by
  induction bytes using wordSum.induct with
  | case1 => exact Nat.zero_le _
  | case2 high =>
      have := high.toNat_lt
      rw [wordSum, List.length_singleton]
      omega
  | case3 high low rest ih =>
      have hhigh := high.toNat_lt
      have hlow := low.toNat_lt
      rw [wordSum, List.length_cons, List.length_cons]
      omega

theorem wordSum_pos {bytes : List UInt8} {byte : UInt8} (hmem : byte ∈ bytes) (hne : byte ≠ 0) :
    0 < wordSum bytes := by
  have hpos : 0 < byte.toNat := Nat.pos_of_ne_zero fun h => hne (UInt8.toNat_inj.1 h)
  induction bytes using wordSum.induct with
  | case1 => cases hmem
  | case2 high =>
      rw [List.mem_singleton.1 hmem] at hpos
      rw [wordSum]
      omega
  | case3 high low rest ih =>
      rw [wordSum]
      rcases List.mem_cons.1 hmem with rfl | hmem
      · omega
      · rcases List.mem_cons.1 hmem with rfl | hmem
        · omega
        · have := ih hmem
          omega

/-! ## The checksum -/

theorem carryLoop_eq_carries (fuel sum : ℕ) :
    carryLoop fuel sum = Library.carries 65536 fuel sum := by
  induction fuel generalizing sum with
  | zero => rfl
  | succ fuel ih => rw [carryLoop, Library.carries, ih]

variable {bytes : List UInt8}

/-- What the code's 32-bit sum holds. -/
theorem wordSum_lt (h : bytes.length ≤ 131072) : wordSum bytes < 65536 * 65536 := by
  have := wordSum_le bytes
  omega

theorem toNat_checksum (h : bytes.length ≤ 131072) :
    (checksum bytes).toNat = 65535 - Library.endAround 65535 (wordSum bytes) := by
  have hcarries : carryLoop 16 (wordSum bytes) = Library.endAround 65535 (wordSum bytes) := by
    rw [carryLoop_eq_carries]
    exact Library.carries_eq (wordSum_lt h)
  have hle := Library.endAround_le (by decide : 0 < 65535) (wordSum bytes)
  rw [checksum, hcarries, BitVec.toNat_not, BitVec.toNat_ofNat, Nat.mod_eq_of_lt (by omega)]

theorem checksum_eq_zero_iff (h : bytes.length ≤ 131072) :
    checksum bytes = 0 ↔ Checked bytes := by
  have hle := Library.endAround_le (by decide : 0 < 65535) (wordSum bytes)
  rw [← BitVec.toNat_inj, toNat_checksum h, Checked,
    ← Library.endAround_eq_top (by decide : 0 < 65535)]
  change _ = 0 ↔ _
  omega

/-- The checksum of bytes, written into them, makes them sum up. -/
theorem checked_fill {front : List UInt8} (hfront : front.length % 2 = 0) {i : ℕ}
    (heven : i % 2 = 0) (hi : i + 1 < bytes.length)
    (hlength : (front ++ bytes).length ≤ 131072)
    (hpos : 0 < wordSum (front ++ blank i bytes)) :
    Checked (front ++ fill i bytes (checksum (front ++ blank i bytes))) := by
  have hblank : (front ++ blank i bytes).length ≤ 131072 := by
    rwa [List.length_append, length_blank, ← List.length_append]
  have hsum : wordSum (front ++ fill i bytes (checksum (front ++ blank i bytes))) =
      wordSum (front ++ blank i bytes) +
        (65535 - Library.endAround 65535 (wordSum (front ++ blank i bytes))) := by
    rw [← toNat_checksum hblank, wordSum_append hfront, wordSum_append hfront, fill,
      wordSum_set heven hi, toNat_word (BitVec.isLt _), Nat.add_assoc]
  rw [Checked, hsum]
  exact (Library.endAround_eq_top (by decide)).1
    (Library.endAround_add_complement (by decide) hpos)

end TunnelTCPCodec

end Tolkara
