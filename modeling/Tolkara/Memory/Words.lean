import Tolkara.Memory.Basic

/-!
# Words in memory

A word is stored with its low byte first. Reading back what was stored gives the
word, cut to the bytes that were written.
-/

namespace Tolkara

theorem littleEndian_lt (bytes : List UInt8) : littleEndian bytes < 256 ^ bytes.length := by
  induction bytes with
  | nil => simp [littleEndian]
  | cons b bytes ih =>
      have hb := b.toNat_lt
      rw [littleEndian, List.length_cons, pow_succ]
      omega

theorem byteOf_zero (value : ℕ) : (byteOf value 0).toNat = value % 256 := by
  unfold byteOf
  simp

/-- The bytes of a word after the first are the bytes of the rest. -/
theorem byteOf_succ (value i : ℕ) : byteOf value (i + 1) = byteOf (value / 256) i := by
  unfold byteOf
  rw [pow_succ', Nat.div_div_eq_div_mul]

/-- The word that `n` stored bytes hold. -/
theorem littleEndian_byteOf (value n : ℕ) :
    littleEndian ((List.range n).map (byteOf value)) = value % 256 ^ n := by
  induction n generalizing value with
  | zero => simp [littleEndian, Nat.mod_one]
  | succ n ih =>
      have htail : (List.range n).map (byteOf value ∘ Nat.succ) =
          (List.range n).map (byteOf (value / 256)) :=
        List.map_congr_left fun i _ => byteOf_succ value i
      rw [List.range_succ_eq_map, List.map_cons, List.map_map, littleEndian, byteOf_zero, htail, ih,
        pow_succ', Nat.mod_mul]

end Tolkara
