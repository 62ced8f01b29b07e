import Tolkara.Image.ExportReads
import Tolkara.Library.LEB128

/-!
# The numbers of fixups and of tries

`leb` reads the numbers of the fixup opcodes and `export_uleb` those of a trie, the one with a
flag for what went wrong and the other with an answer. Both give back what was written, and
without a sign they are the same reader (`leb_false_eq`).
-/

namespace Tolkara

open Library

/-- `Cursor`: where the next byte is, before the end of the bytes. -/
structure Cursor where
  bytes : List UInt8
  p : ℕ
  bad : Bool
deriving DecidableEq, Repr

/-- The loop of `leb`; `none` is a read of a byte that is not there. -/
def lebLoop (sign : Bool) : ℕ → ℕ → Cursor → BitVec 64 → Option (BitVec 64 × Cursor)
  | 0, _, c, _ => some (0#64, { c with bad := true })
  | fuel + 1, shift, c, value =>
    if 70 ≤ shift ∨ c.p = c.bytes.length then some (0#64, { c with bad := true })
    else do
      let byte ← c.bytes[c.p]?
      let c := { c with p := c.p + 1 }
      let payload := byte.toNat % 128
      if shift = 63 ∧ (if sign then payload ≠ 0 ∧ payload ≠ 127 else 2 ≤ payload) then
        some (0#64, { c with bad := true })
      else
        let value := value ||| BitVec.ofNat 64 payload <<< shift
        if byte.toNat < 128 then
          if sign ∧ shift < 63 ∧ 64 ≤ payload then
            some (value ||| BitVec.allOnes 64 <<< (shift + 7), c)
          else some (value, c)
        else lebLoop sign fuel (shift + 7) c value

def leb (c : Cursor) (sign : Bool) : Option (BitVec 64 × Cursor) :=
  lebLoop sign 10 0 c 0#64

/-! ## Words -/

theorem ofNat_or_shift {k value : ℕ} (h : value < 2 ^ k) (x : ℕ) :
    BitVec.ofNat 64 value ||| BitVec.ofNat 64 x <<< k = BitVec.ofNat 64 (value + x * 2 ^ k) := by
  have hshift : BitVec.ofNat 64 x <<< k = BitVec.ofNat 64 (x <<< k) := by
    apply BitVec.eq_of_toNat_eq
    rw [BitVec.toNat_shiftLeft, BitVec.toNat_ofNat, BitVec.toNat_ofNat, Nat.shiftLeft_eq,
      Nat.shiftLeft_eq, Nat.mod_mul_mod]
  have hsum : value + x * 2 ^ k = value ||| x <<< k := by
    rw [Nat.or_comm, ← Nat.shiftLeft_add_eq_or_of_lt h, Nat.shiftLeft_eq, Nat.add_comm]
  rw [hshift, hsum, BitVec.ofNat_or]

theorem ofNat_or_sign {k value : ℕ} (h : value < 2 ^ k) :
    BitVec.ofNat 64 value ||| BitVec.allOnes 64 <<< k = BitVec.ofInt 64 (value - 2 ^ k) := by
  have hones : BitVec.allOnes 64 = BitVec.ofNat 64 (2 ^ 64 - 1) := rfl
  have hsum : ((value + (2 ^ 64 - 1) * 2 ^ k : ℕ) : ℤ) =
      (value - 2 ^ k : ℤ) + 2 ^ 64 * (2 ^ k : ℤ) := by
    push_cast
    ring
  rw [hones, ofNat_or_shift h, ← BitVec.ofInt_natCast, hsum]
  apply BitVec.eq_of_toInt_eq
  rw [BitVec.toInt_ofInt, BitVec.toInt_ofInt]
  exact Int.add_mul_bmod_self_left _ _ _

/-! ## Without a sign -/

/-- What `leb` makes of the answer of `export_uleb`. -/
def Cursor.Answers (c : Cursor) (answer : Option (ℕ × ℕ)) (result : BitVec 64 × Cursor) : Prop :=
  match answer with
  | some (value, p) => result = (BitVec.ofNat 64 value, { c with p := p })
  | none => result.1 = 0#64 ∧ result.2.bad = true

theorem lt_pow_succ {value b k : ℕ} (h : value < 2 ^ (7 * k)) :
    value + b % 128 * 2 ^ (7 * k) < 2 ^ (7 * (k + 1)) := by
  have hpow : 2 ^ (7 * (k + 1)) = 128 * 2 ^ (7 * k) := by
    rw [show 7 * (k + 1) = 7 + 7 * k by omega, Nat.pow_add]
  have hmul : b % 128 * 2 ^ (7 * k) ≤ 127 * 2 ^ (7 * k) := Nat.mul_le_mul_right _ (by omega)
  omega

theorem lebLoop_false {c : Cursor} {fuel round value : ℕ} (hround : fuel + round = 10)
    (hp : c.p ≤ c.bytes.length) (hvalue : value < 2 ^ (7 * round)) :
    ∃ result, lebLoop false fuel (7 * round) c (BitVec.ofNat 64 value) = some result ∧
      c.Answers (exportUlebLoop c.bytes c.bytes.length fuel (7 * round) c.p value) result := by
  induction fuel generalizing c round value with
  | zero => exact ⟨_, rfl, rfl, rfl⟩
  | succ fuel ih =>
      have hshift : 7 * round ≤ 63 := by omega
      rw [lebLoop, exportUlebLoop]
      by_cases hend : c.p = c.bytes.length
      · rw [if_pos (Or.inr hend), if_neg (by omega)]
        exact ⟨_, rfl, rfl, rfl⟩
      · have hlt : c.p < c.bytes.length := by omega
        rw [if_neg (by omega), if_pos ⟨hshift, hlt⟩, getElem?_eq_getD hlt]
        simp only [Option.bind_eq_bind, Option.bind_some, Bool.false_eq_true, if_false, false_and]
        set byte := c.bytes.getD c.p 0
        have hbyte : byte.toNat < 256 := byte.toNat_lt
        rw [ofNat_or_shift hvalue]
        by_cases hlast : 7 * round = 63 ∧ 2 ≤ byte.toNat
        · rw [if_pos hlast]
          by_cases hpayload : 2 ≤ byte.toNat % 128
          · rw [if_pos ⟨hlast.1, hpayload⟩]
            exact ⟨_, rfl, rfl, rfl⟩
          · -- the byte says that there is one more, and there is no room for it
            have hfuel : fuel = 0 := by omega
            rw [if_neg (fun h => hpayload h.2), if_neg (by omega), hfuel]
            exact ⟨_, rfl, rfl, rfl⟩
        · rw [if_neg hlast, if_neg (by omega)]
          by_cases hmore : byte.toNat < 128
          · rw [if_pos hmore, if_pos hmore]
            exact ⟨_, rfl, rfl⟩
          · rw [if_neg hmore, if_neg hmore]
            exact ih (c := { c with p := c.p + 1 }) (by omega) (by exact hlt) (lt_pow_succ hvalue)

theorem leb_false_eq {c : Cursor} (hp : c.p ≤ c.bytes.length) :
    ∃ result, leb c false = some result ∧
      c.Answers (exportUleb c.bytes c.p c.bytes.length) result :=
  lebLoop_false (rfl : 10 + 0 = 10) hp (by norm_num)

/-! ## With a sign -/

namespace Cursor

variable {c : Cursor} {b : UInt8} {rest : List UInt8} {fuel round value : ℕ}

theorem getElem?_of_drop (h : c.bytes.drop c.p = b :: rest) : c.bytes[c.p]? = some b := by
  rw [← List.head?_drop, h]
  rfl

theorem p_lt_of_drop (h : c.bytes.drop c.p = b :: rest) : c.p < c.bytes.length := by
  by_contra hlt
  rw [List.drop_eq_nil_of_le (by omega)] at h
  cases h

end Cursor

/-- The values of 64 bits with a sign, seven bits a round. -/
def Fits (s : ℤ) (round : ℕ) : Prop :=
  -2 ^ 63 ≤ s * 2 ^ (7 * round) ∧ s * 2 ^ (7 * round) < 2 ^ 63

section

variable {c : Cursor} {b : UInt8} {rest : List UInt8} {fuel round value : ℕ}

theorem fits_cons {s : ℤ} (hround : round ≤ 8) :
    Fits ((b.toNat % 128 : ℕ) + 128 * s) round ↔ Fits s (round + 1) := by
  have hb : b.toNat % 128 < 128 := Nat.mod_lt _ (by norm_num)
  unfold Fits
  interval_cases round <;> norm_num <;> omega

theorem lebLoop_more (hbytes : c.bytes.drop c.p = b :: rest) (hb : 128 ≤ b.toNat)
    (hround : round ≤ 8) (hvalue : value < 2 ^ (7 * round)) :
    lebLoop true (fuel + 1) (7 * round) c (BitVec.ofNat 64 value) =
      lebLoop true fuel (7 * (round + 1)) { c with p := c.p + 1 }
        (BitVec.ofNat 64 (value + b.toNat % 128 * 2 ^ (7 * round))) := by
  have hp := Cursor.p_lt_of_drop hbytes
  rw [lebLoop, if_neg (by omega), Cursor.getElem?_of_drop hbytes]
  simp only [Option.bind_eq_bind, Option.bind_some]
  rw [if_neg (by omega), if_neg (by omega), ofNat_or_shift hvalue]
  rfl

theorem lebLoop_tenth (hbytes : c.bytes.drop c.p = b :: rest) (hb : 128 ≤ b.toNat)
    (value : BitVec 64) :
    ∃ c', lebLoop true 1 63 c value = some (0#64, c') ∧ c'.bad = true := by
  have hp := Cursor.p_lt_of_drop hbytes
  rw [lebLoop, if_neg (by omega), Cursor.getElem?_of_drop hbytes]
  simp only [Option.bind_eq_bind, Option.bind_some, if_true, true_and]
  by_cases hpayload : b.toNat % 128 ≠ 0 ∧ b.toNat % 128 ≠ 127
  · rw [if_pos hpayload]
    exact ⟨_, rfl, rfl⟩
  · rw [if_neg hpayload, if_neg (by omega)]
    exact ⟨_, rfl, rfl⟩

theorem lebLoop_last (hbytes : c.bytes.drop c.p = b :: rest) (hb : b.toNat < 128)
    (hround : round ≤ 9) (hvalue : value < 2 ^ (7 * round))
    (hfits : Fits (LEB128.signedValue [b]) round) :
    lebLoop true (fuel + 1) (7 * round) c (BitVec.ofNat 64 value) =
      some (BitVec.ofInt 64 (value + LEB128.signedValue [b] * 2 ^ (7 * round)),
        { c with p := c.p + 1 }) := by
  have hp := Cursor.p_lt_of_drop hbytes
  rw [lebLoop, if_neg (by omega), Cursor.getElem?_of_drop hbytes]
  simp only [Option.bind_eq_bind, Option.bind_some, if_true]
  rw [ofNat_or_shift hvalue, Nat.mod_eq_of_lt hb, if_pos hb]
  rw [LEB128.signedValue, Nat.mod_eq_of_lt hb] at hfits ⊢
  have hlast : ¬ (7 * round = 63 ∧ b.toNat ≠ 0 ∧ b.toNat ≠ 127) := by
    rintro ⟨h63, hzero, hones⟩
    unfold Fits at hfits
    rw [h63] at hfits
    split at hfits <;> omega
  rw [if_neg hlast]
  by_cases hsmall : b.toNat < 64
  · rw [if_neg (by omega), if_pos hsmall, ← BitVec.ofInt_natCast]
    push_cast
    rfl
  · rw [if_neg hsmall]
    by_cases hround' : 7 * round < 63
    · have hlt := lt_pow_succ (b := b.toNat) hvalue
      rw [Nat.mod_eq_of_lt hb] at hlt
      rw [if_pos ⟨trivial, hround', by omega⟩, show 7 * round + 7 = 7 * (round + 1) by omega,
        ofNat_or_sign hlt]
      congr 3
      rw [show 7 * (round + 1) = 7 + 7 * round by omega, pow_add]
      push_cast
      ring
    · -- in the tenth byte the sign is the lowest bit too
      have h63 : 7 * round = 63 := by omega
      have hones : b.toNat = 127 := by omega
      have hsum : ((value + b.toNat * 2 ^ (7 * round) : ℕ) : ℤ) =
          (value + ((b.toNat : ℕ) - 128) * 2 ^ (7 * round) : ℤ) + 2 ^ 64 * 64 := by
        rw [hones, h63]
        push_cast
        ring
      rw [if_neg (by omega), ← BitVec.ofInt_natCast, hsum]
      congr 2
      apply BitVec.eq_of_toInt_eq
      rw [BitVec.toInt_ofInt, BitVec.toInt_ofInt]
      exact Int.add_mul_bmod_self_left _ _ _

/-- A last byte that says more than 64 bits. -/
theorem lebLoop_unfit (hbytes : c.bytes.drop c.p = b :: rest) (hround : round ≤ 9)
    (hb : b.toNat < 128) (hfits : ¬ Fits (LEB128.signedValue [b]) round) (value : BitVec 64) :
    ∃ c', lebLoop true (fuel + 1) (7 * round) c value = some (0#64, c') ∧ c'.bad = true := by
  have hp := Cursor.p_lt_of_drop hbytes
  have hbounds := LEB128.signedValue_last_bounds b
  rw [lebLoop, if_neg (by omega), Cursor.getElem?_of_drop hbytes]
  simp only [Option.bind_eq_bind, Option.bind_some, if_true]
  have hlast : 7 * round = 63 ∧ b.toNat % 128 ≠ 0 ∧ b.toNat % 128 ≠ 127 := by
    unfold Fits at hfits
    rw [LEB128.signedValue] at hfits hbounds
    rw [Nat.mod_eq_of_lt hb] at hfits hbounds ⊢
    by_cases h9 : round = 9
    · subst h9
      split at hfits <;> omega
    · exfalso
      apply hfits
      have hpow : (2 : ℤ) ^ (7 * round) ≤ 2 ^ 56 := pow_le_pow_right₀ (by norm_num) (by omega)
      have hpos : (0 : ℤ) < 2 ^ (7 * round) := by positivity
      constructor <;> nlinarith
  rw [if_pos hlast]
  exact ⟨_, rfl, rfl⟩

theorem lebLoop_true {digits : List UInt8} (h : LEB128.Number digits)
    (hbytes : c.bytes.drop c.p = digits ++ rest) (hround : fuel + round = 10)
    (hlen : digits.length ≤ fuel) (hvalue : value < 2 ^ (7 * round))
    (hfits : Fits (LEB128.signedValue digits) round) :
    lebLoop true fuel (7 * round) c (BitVec.ofNat 64 value) =
      some (BitVec.ofInt 64 (value + LEB128.signedValue digits * 2 ^ (7 * round)),
        { c with p := c.p + digits.length }) := by
  induction h generalizing c fuel round value with
  | @last b hb =>
      obtain ⟨fuel, rfl⟩ : ∃ k, fuel = k + 1 := ⟨fuel - 1, by simp at hlen; omega⟩
      exact lebLoop_last hbytes hb (by omega) hvalue hfits
  | @more b digits hb h ih =>
      have hpos := h.length_pos
      rw [List.length_cons] at hlen
      obtain ⟨fuel, rfl⟩ : ∃ k, fuel = k + 1 := ⟨fuel - 1, by omega⟩
      have hround' : round ≤ 8 := by omega
      rw [LEB128.signedValue_cons h, fits_cons hround'] at hfits
      rw [lebLoop_more hbytes hb hround' hvalue,
        ih (c := { c with p := c.p + 1 }) (drop_add [b] hbytes) (by omega) (by omega)
          (lt_pow_succ hvalue) hfits, LEB128.signedValue_cons h, List.length_cons]
      congr 3
      · rw [show 7 * (round + 1) = 7 + 7 * round by omega, pow_add]
        push_cast
        ring
      · change c.p + 1 + digits.length = c.p + (digits.length + 1)
        omega

theorem lebLoop_true_unfit {digits : List UInt8} (h : LEB128.Number digits)
    (hbytes : c.bytes.drop c.p = digits ++ rest) (hround : fuel + round = 10) (hfuel : 0 < fuel)
    (hvalue : value < 2 ^ (7 * round)) (hfits : ¬ Fits (LEB128.signedValue digits) round) :
    ∃ c', lebLoop true fuel (7 * round) c (BitVec.ofNat 64 value) = some (0#64, c') ∧
      c'.bad = true := by
  induction h generalizing c fuel round value with
  | @last b hb =>
      obtain ⟨fuel, rfl⟩ : ∃ k, fuel = k + 1 := ⟨fuel - 1, by omega⟩
      exact lebLoop_unfit hbytes (by omega) hb hfits _
  | @more b digits hb h ih =>
      obtain ⟨fuel, rfl⟩ : ∃ k, fuel = k + 1 := ⟨fuel - 1, by omega⟩
      by_cases hround' : round ≤ 8
      · rw [LEB128.signedValue_cons h, fits_cons hround'] at hfits
        rw [lebLoop_more hbytes hb hround' hvalue]
        exact ih (c := { c with p := c.p + 1 }) (drop_add [b] hbytes) (by omega) (by omega)
          (lt_pow_succ hvalue) hfits
      · obtain rfl : round = 9 := by omega
        obtain rfl : fuel = 0 := by omega
        exact lebLoop_tenth hbytes hb _

/-- `leb` reads within the bytes, and stays there. -/
theorem lebLoop_inside (sign : Bool) (fuel shift : ℕ) (hp : c.p ≤ c.bytes.length)
    (value : BitVec 64) :
    ∃ v c', lebLoop sign fuel shift c value = some (v, c') ∧ c'.bytes = c.bytes ∧
      c.p ≤ c'.p ∧ c'.p ≤ c.bytes.length := by
  induction fuel generalizing c shift value with
  | zero => exact ⟨_, _, rfl, rfl, le_rfl, hp⟩
  | succ fuel ih =>
      rw [lebLoop]
      by_cases hend : 70 ≤ shift ∨ c.p = c.bytes.length
      · rw [if_pos hend]
        exact ⟨_, _, rfl, rfl, le_rfl, hp⟩
      · have hlt : c.p < c.bytes.length := by omega
        have hnext : c.p ≤ c.p + 1 := Nat.le_succ _
        rw [if_neg hend, getElem?_eq_getD hlt]
        simp only [Option.bind_eq_bind, Option.bind_some]
        generalize (c.bytes.getD c.p 0).toNat = byte
        by_cases hlast : shift = 63 ∧
            (if sign then byte % 128 ≠ 0 ∧ byte % 128 ≠ 127 else 2 ≤ byte % 128)
        · rw [if_pos hlast]
          exact ⟨_, _, rfl, rfl, hnext, hlt⟩
        · rw [if_neg hlast]
          split_ifs
          · exact ⟨_, _, rfl, rfl, hnext, hlt⟩
          · exact ⟨_, _, rfl, rfl, hnext, hlt⟩
          · obtain ⟨v, c', hrun, hsame, hle, hend'⟩ := ih (c := { c with p := c.p + 1 })
              (shift + 7) hlt (value ||| BitVec.ofNat 64 (byte % 128) <<< shift)
            exact ⟨v, c', hrun, hsame, hnext.trans hle, hend'⟩

end

/-! ## Too large a number -/

/-- Seven low bits do not make a number too large for the bits above them. -/
theorem unfit_cons {payload v round : ℕ} (hround : round ≤ 8)
    (h : 2 ^ 64 ≤ (payload % 128 + 128 * v) * 2 ^ (7 * round)) :
    2 ^ 64 ≤ v * 2 ^ (7 * (round + 1)) := by
  have hsplit : 2 ^ 64 = 2 ^ (57 - 7 * round) * 2 ^ (7 * (round + 1)) := by
    rw [← pow_add]
    congr 1
    omega
  have hpow : 2 ^ (7 * (round + 1)) = 128 * 2 ^ (7 * round) := by
    rw [show 7 * (round + 1) = 7 + 7 * round by omega, Nat.pow_add]
  by_contra hlt
  have hv : v < 2 ^ (57 - 7 * round) := by
    refine Nat.lt_of_mul_lt_mul_right (?_ : _ * 2 ^ (7 * (round + 1)) < _)
    rw [← hsplit]
    exact not_le.mp hlt
  have hsum : (payload % 128 + 128 * v) * 2 ^ (7 * round) < 2 ^ 64 :=
    calc
      (payload % 128 + 128 * v) * 2 ^ (7 * round) < (128 * (v + 1)) * 2 ^ (7 * round) :=
        Nat.mul_lt_mul_of_pos_right (by omega) (by positivity)
      _ = (v + 1) * 2 ^ (7 * (round + 1)) := by rw [hpow]; ring
      _ ≤ 2 ^ (57 - 7 * round) * 2 ^ (7 * (round + 1)) := Nat.mul_le_mul_right _ hv
      _ = 2 ^ 64 := hsplit.symm
  exact absurd h (not_le.mpr hsum)

theorem exportUlebLoop_unfit {bytes digits rest : List UInt8} (h : LEB128.Number digits)
    {stop fuel round cursor value : ℕ} (hbytes : bytes.drop cursor = digits ++ rest)
    (hround : fuel + round = 10) (hunfit : 2 ^ 64 ≤ LEB128.unsignedValue digits * 2 ^ (7 * round)) :
    exportUlebLoop bytes stop fuel (7 * round) cursor value = none := by
  induction h generalizing cursor fuel round value with
  | @last b hb =>
      rcases fuel with _ | fuel
      · rfl
      rw [exportUlebLoop]
      by_cases hmore : 7 * round ≤ 63 ∧ cursor < stop
      · have hlast : 7 * round = 63 ∧ 2 ≤ b.toNat := by
          rw [LEB128.unsignedValue, LEB128.unsignedValue, Nat.mul_zero, Nat.add_zero,
            Nat.mod_eq_of_lt hb] at hunfit
          by_cases h9 : round = 9
          · subst h9
            omega
          · exfalso
            have hpow : 2 ^ (7 * round) ≤ 2 ^ 56 := Nat.pow_le_pow_right (by norm_num) (by omega)
            have hmul : b.toNat * 2 ^ (7 * round) ≤ 127 * 2 ^ 56 := Nat.mul_le_mul (by omega) hpow
            omega
        rw [if_pos hmore, getD_of_drop hbytes, if_pos hlast]
      · rw [if_neg hmore]
  | @more b digits hb h ih =>
      rcases fuel with _ | fuel
      · rfl
      rw [exportUlebLoop]
      by_cases hmore : 7 * round ≤ 63 ∧ cursor < stop
      · rw [if_pos hmore, getD_of_drop hbytes]
        dsimp only
        by_cases hlast : 7 * round = 63 ∧ 2 ≤ b.toNat
        · rw [if_pos hlast]
        · have hround' : round ≤ 8 := by omega
          rw [if_neg hlast, if_neg (by omega)]
          exact ih (drop_add [b] hbytes) (by omega) (unfit_cons hround' hunfit)
      · rw [if_neg hmore]

theorem exportUleb_unfit {bytes digits rest : List UInt8} (h : LEB128.Number digits)
    {cursor stop : ℕ} (hbytes : bytes.drop cursor = digits ++ rest)
    (hunfit : 2 ^ 64 ≤ LEB128.unsignedValue digits) : exportUleb bytes cursor stop = none :=
  exportUlebLoop_unfit h hbytes (rfl : 10 + 0 = 10) (by simpa using hunfit)

/-! ## The three readers -/

theorem Leb.of_number {digits : List UInt8} (h : LEB128.Number digits) :
    Leb digits (LEB128.unsignedValue digits) := by
  induction h with
  | @last b hb =>
      rw [LEB128.unsignedValue, LEB128.unsignedValue, Nat.mod_eq_of_lt hb]
      exact .last hb
  | more hb h ih => exact .more hb ih

theorem uleb_unsigned {n : ℕ} (h : n < 2 ^ 64) : Uleb (LEB128.unsigned n) n where
  leb := by
    have hleb := Leb.of_number (LEB128.number_unsigned n)
    rwa [LEB128.unsignedValue_unsigned] at hleb
  length_le := LEB128.length_unsigned_le 9 (h.trans (by norm_num))
  lt := h

theorem fits_zero (s : ℤ) : Fits s 0 ↔ -2 ^ 63 ≤ s ∧ s < 2 ^ 63 := by
  unfold Fits
  norm_num

theorem leb_true_signed {c : Cursor} {rest : List UInt8} {v : BitVec 64}
    (hbytes : c.bytes.drop c.p = LEB128.signed v.toInt ++ rest) :
    leb c true = some (v, { c with p := c.p + (LEB128.signed v.toInt).length }) := by
  have hlo : -2 ^ 63 ≤ v.toInt := BitVec.le_toInt v
  have hhi : v.toInt < 2 ^ 63 := BitVec.toInt_lt
  have hlen : (LEB128.signed v.toInt).length ≤ 10 :=
    LEB128.length_signed_le 9 (by omega) (by omega)
  have hfits : Fits (LEB128.signedValue (LEB128.signed v.toInt)) 0 := by
    rw [LEB128.signedValue_signed, fits_zero]
    exact ⟨hlo, hhi⟩
  have hloop := lebLoop_true (LEB128.number_signed v.toInt) hbytes (rfl : 10 + 0 = 10)
    hlen (by norm_num : 0 < 2 ^ (7 * 0)) hfits
  rw [LEB128.signedValue_signed] at hloop
  rw [leb]
  simpa using hloop

theorem leb_false_unsigned {c : Cursor} {rest : List UInt8} {v : BitVec 64}
    (hbytes : c.bytes.drop c.p = LEB128.unsigned v.toNat ++ rest) :
    exportUleb c.bytes c.p c.bytes.length =
        some (v.toNat, c.p + (LEB128.unsigned v.toNat).length) ∧
      leb c false = some (v, { c with p := c.p + (LEB128.unsigned v.toNat).length }) := by
  have huleb := uleb_unsigned v.isLt
  have hlen : c.p + (LEB128.unsigned v.toNat).length ≤ c.bytes.length := by
    have := congrArg List.length hbytes
    have := huleb.length_pos
    rw [List.length_drop, List.length_append] at *
    omega
  have hexport := exportUleb_uleb huleb hbytes hlen
  obtain ⟨result, hrun, hanswer⟩ := leb_false_eq (c := c) (by omega)
  rw [hexport] at hanswer
  rw [hrun, hanswer, BitVec.ofNat_toNat]
  exact ⟨hexport, by simp⟩

theorem exportUlebLoop_lt {bytes : List UInt8} {stop fuel round cursor value v cursor' : ℕ}
    (hvalue : value < 2 ^ (7 * round)) (hround : fuel + round = 10)
    (h : exportUlebLoop bytes stop fuel (7 * round) cursor value = some (v, cursor')) :
    v < 2 ^ 64 := by
  induction fuel generalizing round cursor value with
  | zero => cases h
  | succ fuel ih =>
      have hnext := lt_pow_succ (b := (bytes.getD cursor 0).toNat) hvalue
      rw [exportUlebLoop] at h
      dsimp only at h
      split_ifs at h with hmore hlast hend
      · cases h
        by_cases h9 : round = 9
        · subst h9
          rw [Nat.mod_eq_of_lt hend] at hnext ⊢
          omega
        · exact hnext.trans_le (Nat.pow_le_pow_right (by norm_num) (by omega))
      · exact ih hnext (by omega) h

theorem exportUleb_lt {bytes : List UInt8} {stop cursor v cursor' : ℕ}
    (h : exportUleb bytes cursor stop = some (v, cursor')) : v < 2 ^ 64 :=
  exportUlebLoop_lt (by norm_num : 0 < 2 ^ (7 * 0)) (rfl : 10 + 0 = 10) h

theorem leb_true_unfit {c : Cursor} {digits rest : List UInt8} (h : LEB128.Number digits)
    (hbytes : c.bytes.drop c.p = digits ++ rest)
    (hunfit : ¬ (-2 ^ 63 ≤ LEB128.signedValue digits ∧ LEB128.signedValue digits < 2 ^ 63)) :
    ∃ c', leb c true = some (0#64, c') ∧ c'.bad = true := by
  rw [← fits_zero] at hunfit
  exact lebLoop_true_unfit h hbytes (rfl : 10 + 0 = 10) (by norm_num)
    (by norm_num : 0 < 2 ^ (7 * 0)) hunfit

theorem leb_false_unfit {c : Cursor} {digits rest : List UInt8} (h : LEB128.Number digits)
    (hp : c.p ≤ c.bytes.length) (hbytes : c.bytes.drop c.p = digits ++ rest)
    (hunfit : 2 ^ 64 ≤ LEB128.unsignedValue digits) :
    ∃ c', leb c false = some (0#64, c') ∧ c'.bad = true := by
  obtain ⟨⟨v, c'⟩, hrun, hanswer⟩ := leb_false_eq hp
  rw [exportUleb_unfit h hbytes hunfit] at hanswer
  obtain ⟨rfl, hbad⟩ := hanswer
  exact ⟨c', hrun, hbad⟩

/-- The readers give back what is written and stop behind it, whatever follows. Of any bytes
the two without a sign make the same, none reads beyond the end, and a number of more
than 64 bits is refused. -/
theorem leb_readers_exact (before : List UInt8) (bad : Bool) :
    (∀ (v : BitVec 64) (rest : List UInt8),
      let c : Cursor := ⟨before ++ (LEB128.unsigned v.toNat ++ rest), before.length, bad⟩
      let stop := c.p + (LEB128.unsigned v.toNat).length
      leb c false = some (v, { c with p := stop }) ∧
        exportUleb c.bytes c.p c.bytes.length = some (v.toNat, stop)) ∧
    (∀ (v : BitVec 64) (rest : List UInt8),
      let c : Cursor := ⟨before ++ (LEB128.signed v.toInt ++ rest), before.length, bad⟩
      leb c true = some (v, { c with p := c.p + (LEB128.signed v.toInt).length })) ∧
    (∀ bytes : List UInt8,
      let c : Cursor := ⟨before ++ bytes, before.length, bad⟩
      (∃ v c', leb c true = some (v, c') ∧ c'.p ≤ c.bytes.length) ∧
      exportUlebChecked c.bytes c.p c.bytes.length =
        some (exportUleb c.bytes c.p c.bytes.length) ∧
      ∃ v c', leb c false = some (v, c') ∧ c'.p ≤ c.bytes.length ∧
        match exportUleb c.bytes c.p c.bytes.length with
        | some (w, p) => v.toNat = w ∧ c' = { c with p := p }
        | none => c'.bad = true) ∧
    (∀ digits rest : List UInt8, LEB128.Number digits →
      let c : Cursor := ⟨before ++ (digits ++ rest), before.length, bad⟩
      (2 ^ 64 ≤ LEB128.unsignedValue digits →
        exportUleb c.bytes c.p c.bytes.length = none ∧
          ∃ c', leb c false = some (0#64, c') ∧ c'.bad = true) ∧
      (¬ (-2 ^ 63 ≤ LEB128.signedValue digits ∧ LEB128.signedValue digits < 2 ^ 63) →
        ∃ c', leb c true = some (0#64, c') ∧ c'.bad = true)) := by
  have hp : ∀ bytes : List UInt8, before.length ≤ (before ++ bytes).length := by
    intro bytes
    rw [List.length_append]
    omega
  refine ⟨?_, ?_, ?_, ?_⟩
  · intro v rest c stop
    have hbytes : c.bytes.drop c.p = LEB128.unsigned v.toNat ++ rest := List.drop_left
    obtain ⟨hexport, hleb⟩ := leb_false_unsigned hbytes
    exact ⟨hleb, hexport⟩
  · intro v rest c
    have hbytes : c.bytes.drop c.p = LEB128.signed v.toInt ++ rest := List.drop_left
    exact leb_true_signed hbytes
  · intro bytes c
    obtain ⟨v, c', hrun, _, _, hend⟩ := lebLoop_inside true 10 0 (c := c) (hp bytes) 0#64
    obtain ⟨w, d, hrun', _, _, hend'⟩ := lebLoop_inside false 10 0 (c := c) (hp bytes) 0#64
    obtain ⟨result, hleb, hanswer⟩ := leb_false_eq (c := c) (hp bytes)
    obtain rfl : (w, d) = result := Option.some.inj (hrun'.symm.trans hleb)
    refine ⟨⟨v, c', hrun, hend⟩, exportUlebChecked_eq le_rfl _, w, d, hleb, hend', ?_⟩
    cases hexport : exportUleb c.bytes c.p c.bytes.length with
    | none =>
        rw [hexport] at hanswer
        exact hanswer.2
    | some answer =>
        rw [hexport] at hanswer
        obtain ⟨rfl, rfl⟩ := Prod.mk.inj hanswer
        refine ⟨?_, rfl⟩
        rw [BitVec.toNat_ofNat, Nat.mod_eq_of_lt (exportUleb_lt hexport)]
  · intro digits rest hnumber c
    have hbytes : c.bytes.drop c.p = digits ++ rest := List.drop_left
    exact ⟨fun hunfit => ⟨exportUleb_unfit hnumber hbytes hunfit,
      leb_false_unfit hnumber (hp _) hbytes hunfit⟩, leb_true_unfit hnumber hbytes⟩

/-- Seventy bits. -/
theorem leb_readers_exact_ten :
    exportUleb [0x80, 0x80, 0x80, 0x80, 0x80, 0x80, 0x80, 0x80, 0x80, 0x02] 0 10 = none ∧
      ∃ c', leb ⟨[0x80, 0x80, 0x80, 0x80, 0x80, 0x80, 0x80, 0x80, 0x80, 0x02], 0, false⟩ false =
        some (0#64, c') ∧ c'.bad = true :=
  ((leb_readers_exact [] false).2.2.2
    [0x80, 0x80, 0x80, 0x80, 0x80, 0x80, 0x80, 0x80, 0x80, 0x02] []
    (by repeat' first | exact .last (by decide) | apply LEB128.Number.more (by decide))).1
      (by decide)

end Tolkara
