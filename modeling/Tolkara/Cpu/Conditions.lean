import Tolkara.Cpu.Destinations

/-!
# Comparing and branching

SUBS and ADDS leave four flags, B.cond and CSEL read them. `Relation` says what
each condition is about, in terms of the two operands as words of the width
compared: equality, the order of the unsigned values, the order of the signed
values, the sign of the wrapped difference and whether the exact signed
difference is representable. Carry and overflow of the source are formulas on
masked 64-bit words; both widths are read through `setWidth`.
-/

namespace Tolkara

/-! ## Bits of masked words -/

section Masked

variable {w : ℕ}

theorem toNat_and_mask (hw : w = 32 ∨ w = 64) (a : BitVec 64) :
    (a &&& mask w).toNat = a.toNat % 2 ^ w := by
  rcases hw with rfl | rfl
  · rw [BitVec.toNat_and]
    exact Nat.and_two_pow_sub_one_eq_mod _ 32
  · rw [mask, if_pos rfl, BitVec.and_allOnes, Nat.mod_eq_of_lt a.isLt]

theorem sign_bit (hw : w = 32 ∨ w = 64) (a : BitVec 64) :
    (a &&& (1#64 <<< (w - 1)) != 0#64) = a.getLsbD (w - 1) := by
  rw [show (1#64 <<< (w - 1)) = BitVec.twoPow 64 (w - 1) from rfl, BitVec.and_twoPow]
  cases a.getLsbD (w - 1) with
  | false => simp
  | true => rcases hw with rfl | rfl <;> decide

theorem getLsbD_sign (hw : w = 32 ∨ w = 64) {a : BitVec 64} (ha : a.toNat < 2 ^ w) :
    a.getLsbD (w - 1) = decide (2 ^ (w - 1) ≤ a.toNat) := by
  rw [BitVec.getLsbD, Nat.testBit_eq_decide_div_mod_eq, decide_eq_decide]
  rcases hw with rfl | rfl <;> omega

/-- A word read as a signed one. -/
theorem toInt_setWidth (a : BitVec 64) :
    (a.setWidth w).toInt = if 2 * (a.toNat % 2 ^ w) < 2 ^ w then ((a.toNat % 2 ^ w : ℕ) : ℤ)
      else ((a.toNat % 2 ^ w : ℕ) : ℤ) - (2 ^ w : ℕ) := by
  rw [BitVec.toInt_eq_toNat_cond, BitVec.toNat_setWidth]

end Masked

theorem flagByte_bits (n z c v : Bool) :
    (flagByte n z c v).getLsbD 3 = n ∧ (flagByte n z c v).getLsbD 2 = z ∧
      (flagByte n z c v).getLsbD 1 = c ∧ (flagByte n z c v).getLsbD 0 = v := by
  cases n <;> cases z <;> cases c <;> cases v <;> decide

/-! ## The flags of a subtraction and an addition -/

/-- The value is a signed word of `w` bits. -/
def Representable (w : ℕ) (value : ℤ) : Prop := -(2 ^ (w - 1) : ℤ) ≤ value ∧ value < 2 ^ (w - 1)

instance (w : ℕ) (value : ℤ) : Decidable (Representable w value) :=
  inferInstanceAs (Decidable (_ ∧ _))

/-- The four flags, each with its meaning. -/
structure FlagsAre (flags : BitVec 8) (negative zero carry overflow : Prop) : Prop where
  n : flags.getLsbD 3 = true ↔ negative
  z : flags.getLsbD 2 = true ↔ zero
  c : flags.getLsbD 1 = true ↔ carry
  v : flags.getLsbD 0 = true ↔ overflow

/-- A masked difference wraps at most once. -/
theorem toNat_masked_sub {w : ℕ} (hw : w = 32 ∨ w = 64) (a b : BitVec 64) :
    (((a &&& mask w) - (b &&& mask w)) &&& mask w).toNat =
      if b.toNat % 2 ^ w ≤ a.toNat % 2 ^ w then a.toNat % 2 ^ w - b.toNat % 2 ^ w
      else a.toNat % 2 ^ w + 2 ^ w - b.toNat % 2 ^ w := by
  rw [toNat_and_mask hw, BitVec.toNat_sub, toNat_and_mask hw, toNat_and_mask hw]
  rcases hw with rfl | rfl <;> split <;> omega

/-- A masked sum wraps at most once. -/
theorem toNat_masked_add {w : ℕ} (hw : w = 32 ∨ w = 64) (a b : BitVec 64) :
    (((a &&& mask w) + (b &&& mask w)) &&& mask w).toNat =
      if a.toNat % 2 ^ w + b.toNat % 2 ^ w < 2 ^ w then a.toNat % 2 ^ w + b.toNat % 2 ^ w
      else a.toNat % 2 ^ w + b.toNat % 2 ^ w - 2 ^ w := by
  rw [toNat_and_mask hw, BitVec.toNat_add, toNat_and_mask hw, toNat_and_mask hw]
  rcases hw with rfl | rfl <;> split <;> omega

/-- The masked operations are those on words of the width. -/
theorem setWidth_masked_sub {w : ℕ} (hw : w = 32 ∨ w = 64) (a b : BitVec 64) :
    (a.setWidth w - b.setWidth w).toNat =
      (((a &&& mask w) - (b &&& mask w)) &&& mask w).toNat := by
  rw [toNat_masked_sub hw, BitVec.toNat_sub, BitVec.toNat_setWidth, BitVec.toNat_setWidth]
  rcases hw with rfl | rfl <;> split <;> omega

theorem setWidth_masked_add {w : ℕ} (hw : w = 32 ∨ w = 64) (a b : BitVec 64) :
    (a.setWidth w + b.setWidth w).toNat =
      (((a &&& mask w) + (b &&& mask w)) &&& mask w).toNat := by
  rw [toNat_masked_add hw, BitVec.toNat_add, BitVec.toNat_setWidth, BitVec.toNat_setWidth]
  rcases hw with rfl | rfl <;> split <;> omega

/-- A word is negative when its sign bit is set. -/
theorem toInt_neg_iff {w : ℕ} (hw : w = 32 ∨ w = 64) (a : BitVec w) :
    a.toInt < 0 ↔ 2 ^ (w - 1) ≤ a.toNat := by
  have hlt := a.isLt
  rw [BitVec.toInt_eq_toNat_cond]
  rcases hw with rfl | rfl <;> split <;> omega

theorem setWidth_eq_iff {w : ℕ} (a b : BitVec 64) :
    a.setWidth w = b.setWidth w ↔ a.toNat % 2 ^ w = b.toNat % 2 ^ w := by
  rw [← BitVec.toNat_inj, BitVec.toNat_setWidth, BitVec.toNat_setWidth]

theorem arithmetic_flags {w : ℕ} (hw : w = 32 ∨ w = 64) (a b : BitVec 64) (sub : Bool)
    {x y result : BitVec 64} (hx : a &&& mask w = x) (hy : b &&& mask w = y)
    (hr : (if sub then x - y else x + y) &&& mask w = result) :
    FlagsAre (arithmetic a b sub w).2 (2 ^ (w - 1) ≤ result.toNat) (result = 0#64)
      (if sub then y ≤ x else result < x)
      ((if sub then ¬ (2 ^ (w - 1) ≤ x.toNat ↔ 2 ^ (w - 1) ≤ y.toNat)
          else (2 ^ (w - 1) ≤ x.toNat ↔ 2 ^ (w - 1) ≤ y.toNat)) ∧
        ¬ (2 ^ (w - 1) ≤ x.toNat ↔ 2 ^ (w - 1) ≤ result.toNat)) := by
  have hlt : ∀ v : BitVec 64, (v &&& mask w).toNat < 2 ^ w := fun v => by
    rw [toNat_and_mask hw]
    exact Nat.mod_lt _ (Nat.two_pow_pos w)
  have hbitx := getLsbD_sign hw (hx ▸ hlt a)
  have hbity := getLsbD_sign hw (hy ▸ hlt b)
  have hbitr := getLsbD_sign hw (hr ▸ hlt _)
  have hw64 : w - 1 < 64 := by omega
  unfold arithmetic
  dsimp only
  rw [hx, hy, hr, sign_bit hw, sign_bit hw]
  obtain ⟨hn, hz, hc, hv⟩ := flagByte_bits (result.getLsbD (w - 1)) (result == 0#64)
    (if sub then decide (y ≤ x) else decide (result < x))
    (((if sub then x ^^^ y else ~~~(x ^^^ y)) &&& (x ^^^ result)).getLsbD (w - 1))
  refine ⟨?_, ?_, ?_, ?_⟩
  · rw [hn, hbitr, decide_eq_true_eq]
  · rw [hz, beq_iff_eq]
  · rw [hc]
    cases sub <;> simp
  · rw [hv, BitVec.getLsbD_and, BitVec.getLsbD_xor, hbitx, hbitr]
    cases sub with
    | false =>
        rw [if_neg Bool.false_ne_true, BitVec.getLsbD_not, BitVec.getLsbD_xor, hbitx, hbity]
        simp [hw64]
    | true =>
        rw [if_pos rfl, BitVec.getLsbD_xor, hbitx, hbity]
        simp

theorem arithmetic_sub {w : ℕ} (hw : w = 32 ∨ w = 64) (a b : BitVec 64) :
    FlagsAre (arithmetic a b true w).2
      ((a.setWidth w - b.setWidth w).toInt < 0) (a.setWidth w = b.setWidth w)
      ((b.setWidth w).toNat ≤ (a.setWidth w).toNat)
      (¬ Representable w ((a.setWidth w).toInt - (b.setWidth w).toInt)) := by
  have hflags := arithmetic_flags hw a b true rfl rfl rfl
  have hA := toNat_and_mask hw a
  have hB := toNat_and_mask hw b
  have hR := toNat_masked_sub hw a b
  refine ⟨hflags.n.trans ?_, hflags.z.trans ?_, hflags.c.trans ?_, hflags.v.trans ?_⟩
  · rw [if_pos rfl, toInt_neg_iff hw, setWidth_masked_sub hw]
  · rw [if_pos rfl, ← BitVec.toNat_inj, hR, setWidth_eq_iff, BitVec.toNat_ofNat]
    rcases hw with rfl | rfl <;> split <;> omega
  · rw [if_pos rfl, BitVec.le_def, hA, hB, BitVec.toNat_setWidth, BitVec.toNat_setWidth]
  · rw [if_pos rfl, if_pos rfl, hA, hB, hR, toInt_setWidth, toInt_setWidth]
    have hltA := Nat.mod_lt a.toNat (Nat.two_pow_pos w)
    have hltB := Nat.mod_lt b.toNat (Nat.two_pow_pos w)
    generalize a.toNat % 2 ^ w = x at *
    generalize b.toNat % 2 ^ w = y at *
    unfold Representable
    rcases hw with rfl | rfl <;> split_ifs <;> omega

theorem arithmetic_add {w : ℕ} (hw : w = 32 ∨ w = 64) (a b : BitVec 64) :
    FlagsAre (arithmetic a b false w).2
      ((a.setWidth w + b.setWidth w).toInt < 0) (a.setWidth w + b.setWidth w = 0#w)
      (2 ^ w ≤ (a.setWidth w).toNat + (b.setWidth w).toNat)
      (¬ Representable w ((a.setWidth w).toInt + (b.setWidth w).toInt)) := by
  have hflags := arithmetic_flags hw a b false rfl rfl rfl
  have hA := toNat_and_mask hw a
  have hB := toNat_and_mask hw b
  have hR := toNat_masked_add hw a b
  refine ⟨hflags.n.trans ?_, hflags.z.trans ?_, hflags.c.trans ?_, hflags.v.trans ?_⟩
  · rw [if_neg Bool.false_ne_true, toInt_neg_iff hw, setWidth_masked_add hw]
  · rw [if_neg Bool.false_ne_true, ← BitVec.toNat_inj, ← BitVec.toNat_inj, setWidth_masked_add hw,
      BitVec.toNat_ofNat, BitVec.toNat_ofNat, Nat.zero_mod, Nat.zero_mod]
  · rw [if_neg Bool.false_ne_true, if_neg Bool.false_ne_true, BitVec.lt_def, hA, hR,
      BitVec.toNat_setWidth, BitVec.toNat_setWidth]
    rcases hw with rfl | rfl <;> split <;> omega
  · rw [if_neg Bool.false_ne_true, if_neg Bool.false_ne_true, hA, hB, hR, toInt_setWidth, toInt_setWidth]
    have hltA := Nat.mod_lt a.toNat (Nat.two_pow_pos w)
    have hltB := Nat.mod_lt b.toNat (Nat.two_pow_pos w)
    generalize a.toNat % 2 ^ w = x at *
    generalize b.toNat % 2 ^ w = y at *
    unfold Representable
    rcases hw with rfl | rfl <;> split_ifs <;> omega

/-! ## What a condition is about -/

/-- What each condition says of the operands of a comparison. -/
def Relation {w : ℕ} (a b : BitVec w) : ℕ → Prop
  | 0 => a = b
  | 1 => a ≠ b
  | 2 => b.toNat ≤ a.toNat
  | 3 => a.toNat < b.toNat
  | 4 => (a - b).toInt < 0
  | 5 => 0 ≤ (a - b).toInt
  | 6 => ¬ Representable w (a.toInt - b.toInt)
  | 7 => Representable w (a.toInt - b.toInt)
  | 8 => b.toNat < a.toNat
  | 9 => a.toNat ≤ b.toNat
  | 10 => b.toInt ≤ a.toInt
  | 11 => a.toInt < b.toInt
  | 12 => b.toInt < a.toInt
  | 13 => a.toInt ≤ b.toInt
  | _ => True

instance {w : ℕ} (a b : BitVec w) : DecidablePred (Relation a b)
  | 0 => inferInstanceAs (Decidable (a = b))
  | 1 => inferInstanceAs (Decidable (a ≠ b))
  | 2 => inferInstanceAs (Decidable (b.toNat ≤ a.toNat))
  | 3 => inferInstanceAs (Decidable (a.toNat < b.toNat))
  | 4 => inferInstanceAs (Decidable ((a - b).toInt < 0))
  | 5 => inferInstanceAs (Decidable (0 ≤ (a - b).toInt))
  | 6 => inferInstanceAs (Decidable (¬ Representable w (a.toInt - b.toInt)))
  | 7 => inferInstanceAs (Decidable (Representable w (a.toInt - b.toInt)))
  | 8 => inferInstanceAs (Decidable (b.toNat < a.toNat))
  | 9 => inferInstanceAs (Decidable (a.toNat ≤ b.toNat))
  | 10 => inferInstanceAs (Decidable (b.toInt ≤ a.toInt))
  | 11 => inferInstanceAs (Decidable (a.toInt < b.toInt))
  | 12 => inferInstanceAs (Decidable (b.toInt < a.toInt))
  | 13 => inferInstanceAs (Decidable (a.toInt ≤ b.toInt))
  | _ + 14 => inferInstanceAs (Decidable True)

/-- The wrapped difference has the wrong sign exactly when the exact one is not
representable. -/
theorem sub_negative_iff {w : ℕ} (hw : w = 32 ∨ w = 64) (a b : BitVec w) :
    ((a - b).toInt < 0 ↔ ¬ Representable w (a.toInt - b.toInt)) ↔ b.toInt ≤ a.toInt := by
  have hltA := a.isLt
  have hltB := b.isLt
  rw [toInt_neg_iff hw, BitVec.toNat_sub, BitVec.toInt_eq_toNat_cond, BitVec.toInt_eq_toNat_cond]
  unfold Representable
  rcases hw with rfl | rfl <;> split_ifs <;> omega

theorem not_iff_of_iff {p : Bool} {P : Prop} (h : p = true ↔ P) : (!p) = true ↔ ¬ P := by
  rw [Bool.not_eq_true', ← Bool.not_eq_true, h]

theorem condition_iff {w : ℕ} (hw : w = 32 ∨ w = 64) {a b : BitVec w} {flags : BitVec 8}
    (h : FlagsAre flags ((a - b).toInt < 0) (a = b) (b.toNat ≤ a.toNat)
      (¬ Representable w (a.toInt - b.toInt))) {cond : ℕ} (hcond : cond < 16) :
    condition flags cond = true ↔ Relation a b cond := by
  obtain ⟨hn, hz, hc, hv⟩ := h
  have hnat : a = b ↔ a.toNat = b.toNat := BitVec.toNat_inj.symm
  have hint : a = b ↔ a.toInt = b.toInt := BitVec.toInt_inj.symm
  have hge : (flags.getLsbD 3 == flags.getLsbD 0) = true ↔ b.toInt ≤ a.toInt := by
    rw [beq_iff_eq, Bool.eq_iff_iff, hn, hv]
    exact sub_negative_iff hw a b
  have hhi : (flags.getLsbD 1 && !flags.getLsbD 2) = true ↔ b.toNat < a.toNat := by
    rw [Bool.and_eq_true, not_iff_of_iff hz, hc, hnat]
    omega
  have hgt : (!flags.getLsbD 2 && (flags.getLsbD 3 == flags.getLsbD 0)) = true ↔
      b.toInt < a.toInt := by
    rw [Bool.and_eq_true, not_iff_of_iff hz, hge, hint]
    omega
  interval_cases cond
  · exact hz
  · exact not_iff_of_iff hz
  · exact hc
  · exact (not_iff_of_iff hc).trans not_le
  · exact hn
  · exact (not_iff_of_iff hn).trans not_lt
  · exact hv
  · exact (not_iff_of_iff hv).trans not_not
  · exact hhi
  · exact (not_iff_of_iff hhi).trans not_lt
  · exact hge
  · exact (not_iff_of_iff hge).trans not_le
  · exact hgt
  · exact (not_iff_of_iff hgt).trans not_lt
  · exact iff_of_true rfl trivial
  · exact iff_of_true rfl trivial

/-! ## The instructions -/

/-- The width of the registers an instruction works on. -/
def registerWidth (i : BitVec 32) : ℕ := if field i 31 1 = 1 then 64 else 32

theorem registerWidth_cases (i : BitVec 32) : registerWidth i = 32 ∨ registerWidth i = 64 := by
  unfold registerWidth
  split
  · exact .inr rfl
  · exact .inl rfl

/-- An addition or subtraction of an immediate. -/
def IsImmediate (i : BitVec 32) : Prop := i &&& 0x1f800000#32 = 0x11000000#32

instance (i : BitVec 32) : Decidable (IsImmediate i) := inferInstanceAs (Decidable (_ = _))

/-- An addition or subtraction of a shifted register. -/
def IsShifted (i : BitVec 32) : Prop :=
  i &&& 0x1f200000#32 = 0x0b000000#32 ∧ field i 22 3 ≠ 3 ∧ field i 10 63 < registerWidth i

instance (i : BitVec 32) : Decidable (IsShifted i) := inferInstanceAs (Decidable (_ ∧ _ ∧ _))

/-- SUBS of an immediate or a shifted register. -/
def IsSubs (i : BitVec 32) : Prop := (IsImmediate i ∨ IsShifted i) ∧ field i 29 3 = 3

/-- ADDS of an immediate or a shifted register. -/
def IsAdds (i : BitVec 32) : Prop := (IsImmediate i ∨ IsShifted i) ∧ field i 29 3 = 1

instance (i : BitVec 32) : Decidable (IsSubs i) := inferInstanceAs (Decidable (_ ∧ _))

instance (i : BitVec 32) : Decidable (IsAdds i) := inferInstanceAs (Decidable (_ ∧ _))

/-- B.cond. -/
def IsBranchIf (i : BitVec 32) : Prop := i &&& 0xff000010#32 = 0x54000000#32

def IsSelect (i : BitVec 32) : Prop := i &&& 0x7fe00c00#32 = 0x1a800000#32

instance (i : BitVec 32) : Decidable (IsBranchIf i) := inferInstanceAs (Decidable (_ = _))

instance (i : BitVec 32) : Decidable (IsSelect i) := inferInstanceAs (Decidable (_ = _))

/-- The first operand; register 31 is the stack pointer beside an immediate. -/
def firstOperand (r : GCRegisters) (i : BitVec 32) : BitVec (registerWidth i) :=
  (r.reg (field i 5 31) (decide (IsImmediate i))).setWidth (registerWidth i)

def secondOperand (r : GCRegisters) (i : BitVec 32) : BitVec (registerWidth i) :=
  (if IsImmediate i then BitVec.ofNat 64 (field i 10 4095 <<< (field i 22 1 * 12))
    else shifted (r.reg (field i 16 31) false) (field i 22 3) (field i 10 63) (registerWidth i)).setWidth
      (registerWidth i)

/-! ## What they do -/

section Decode

variable {i : BitVec 32}

theorem decode_immediate (h : IsImmediate i) (pc : BitVec 64) :
    decode pc i =
      { pc := pc, immediate := BitVec.ofNat 64 (field i 10 4095 <<< (field i 22 1 * 12))
        instruction := i, op := .addImm, rd := field i 0 31, rn := field i 5 31
        rm := field i 16 31, ra := field i 10 31, width := registerWidth i, shift := 0
        amount := 0, flags := field i 29 3, valid := true } := by
  have hnop : i ≠ 0xd503201f#32 := by
    rintro rfl
    exact absurd h (by decide)
  have hwide : i &&& 0x1f800000#32 ≠ 0x12800000#32 := mask_ne h (by decide)
  unfold decode
  dsimp only
  rw [if_neg hnop, if_neg hwide, if_pos (show i &&& 0x1f800000#32 = 0x11000000#32 from h)]
  rfl

theorem decode_shifted (h : IsShifted i) (pc : BitVec 64) :
    decode pc i =
      { pc := pc, immediate := 0#64, instruction := i, op := .addReg, rd := field i 0 31
        rn := field i 5 31, rm := field i 16 31, ra := field i 10 31, width := registerWidth i
        shift := field i 22 3, amount := field i 10 63, flags := field i 29 3
        valid := true } := by
  have hnop : i ≠ 0xd503201f#32 := by
    rintro rfl
    exact absurd h.1 (by decide)
  have hwide : i &&& 0x1f800000#32 ≠ 0x12800000#32 := mask_ne h.1 (by decide)
  have himm : i &&& 0x1f800000#32 ≠ 0x11000000#32 := mask_ne h.1 (by decide)
  unfold decode
  dsimp only
  rw [if_neg hnop, if_neg hwide, if_neg himm, if_pos h.1, if_pos (show field i 22 3 ≠ 3 ∧
    field i 10 63 < (if field i 31 1 = 1 then 64 else 32) from h.2)]
  rfl

theorem decode_branchIf (h : IsBranchIf i) (pc : BitVec 64) :
    (decode pc i).op = .cond ∧ (decode pc i).flags = field i 0 15 ∧
      (decode pc i).immediate = branchTarget pc (field i 5 0x7ffff) 19 := by
  have hne : ∀ m c : BitVec 32, 0x54000000#32 &&& m ≠ c &&& 0xff000010#32 → i &&& m ≠ c :=
    fun m c hd => mask_ne h hd
  have hnop : i ≠ 0xd503201f#32 := by
    rintro rfl
    exact absurd h (by decide)
  unfold decode
  dsimp only
  rw [if_neg hnop, if_neg (hne _ _ (by decide)), if_neg (hne _ _ (by decide)),
    if_neg (hne _ _ (by decide)), if_neg (hne _ _ (by decide)), if_neg (hne _ _ (by decide)),
    if_neg (hne _ _ (by decide)), if_neg (hne _ _ (by decide)), if_neg (hne _ _ (by decide)),
    if_neg (not_or.2 ⟨hne _ _ (by decide), not_or.2 ⟨hne _ _ (by decide), hne _ _ (by decide)⟩⟩),
    if_pos (show i &&& 0xff000010#32 = 0x54000000#32 from h)]
  exact ⟨rfl, rfl, rfl⟩

theorem field_of_mask_zero {k : ℕ} (hk : k < 32) (h : i &&& BitVec.twoPow 32 k = 0#32) :
    field i k 1 = 0 := by
  have hbit : i.getLsbD k = false := by
    by_contra hb
    rw [Bool.not_eq_false, mask_bit hk, h] at hb
    have hone := congrArg (fun v => v.getLsbD k) hb
    simp [hk] at hone
  rw [BitVec.getLsbD, Nat.testBit_eq_decide_div_mod_eq, decide_eq_false_iff_not] at hbit
  have hfield : field i k 1 = i.toNat >>> k % 2 := field_eq i k 1
  rw [Nat.shiftRight_eq_div_pow] at hfield
  omega

theorem decode_select (h : IsSelect i) (pc : BitVec 64) :
    decode pc i =
      { pc := pc, immediate := 0#64, instruction := i, op := .select, rd := field i 0 31
        rn := field i 5 31, rm := field i 16 31, ra := field i 10 31, width := registerWidth i
        shift := field i 12 15, amount := 0, flags := 0, valid := true } := by
  have hne : ∀ m c : BitVec 32, 0x1a800000#32 &&& m ≠ c &&& 0x7fe00c00#32 → i &&& m ≠ c :=
    fun m c hd => mask_ne h hd
  have hnop : i ≠ 0xd503201f#32 := by
    rintro rfl
    exact absurd h (by decide)
  have hselect : i &&& 0x3fe00800#32 = 0x1a800000#32 := mask_sub h _ (by decide)
  have h30 : field i 30 1 = 0 := field_of_mask_zero (by decide) (mask_sub h _ (by decide))
  have h10 : field i 10 1 = 0 := field_of_mask_zero (by decide) (mask_sub h _ (by decide))
  unfold decode
  dsimp only
  rw [if_neg hnop, if_neg (hne _ _ (by decide)), if_neg (hne _ _ (by decide)),
    if_neg (hne _ _ (by decide)), if_neg (hne _ _ (by decide)), if_neg (hne _ _ (by decide)),
    if_pos hselect, h30, h10]
  rfl

end Decode

theorem gcRegisterStep_of_pc {r : GCRegisters} (hpc : r.pc &&& 3#64 = 0#64)
    (hpc' : r.pc.toNat ≤ uint64Max - 4) (i : BitVec 32) :
    gcRegisterStep r i = registerDecoded r (decode r.pc i) := by
  unfold gcRegisterStep
  rw [if_neg (not_or.2 ⟨not_not.2 hpc, by omega⟩)]

/-- The flags that SUBS and ADDS leave are those of their operands. -/
theorem gcRegisterStep_arithmetic {r : GCRegisters} (hpc : r.pc &&& 3#64 = 0#64)
    (hpc' : r.pc.toNat ≤ uint64Max - 4) {i : BitVec 32} (hi : IsImmediate i ∨ IsShifted i)
    (hflags : field i 29 3 % 2 = 1) :
    ∃ (r' : GCRegisters) (a b : BitVec 64), gcRegisterStep r i = some r' ∧
      r'.pc = r.pc + 4#64 ∧
      r'.nzcv = (arithmetic a b ((field i 29 3).testBit 1) (registerWidth i)).2 ∧
      a.setWidth (registerWidth i) = firstOperand r i ∧
      b.setWidth (registerWidth i) = secondOperand r i := by
  have hset : (field i 29 3).testBit 0 = true := by
    rw [Nat.testBit_zero, hflags]
    rfl
  have hput : ∀ (c : GCRegisters) (k w : ℕ) (v : BitVec 64), (c.put k v w false).nzcv = c.nzcv := by
    intro c k w v
    unfold GCRegisters.put
    dsimp only
    split_ifs <;> rfl
  rw [gcRegisterStep_of_pc hpc hpc']
  rcases hi with hi | hi
  · rw [decode_immediate hi]
    unfold registerDecoded
    dsimp only
    rw [hset]
    refine ⟨_, _, _, rfl, rfl, hput _ _ _ _, ?_, ?_⟩
    · unfold firstOperand
      rw [decide_eq_true hi]
      rfl
    · unfold secondOperand
      rw [if_pos hi]
      rfl
  · have himm : ¬ IsImmediate i := mask_ne hi.1 (by decide)
    rw [decode_shifted hi]
    unfold registerDecoded
    dsimp only
    rw [hset]
    refine ⟨_, _, _, rfl, rfl, hput _ _ _ _, ?_, ?_⟩
    · unfold firstOperand
      rw [decide_eq_false himm]
      rfl
    · unfold secondOperand
      rw [if_neg himm]
      rfl

theorem and_three_eq_zero_iff (a : BitVec 64) : a &&& 3#64 = 0#64 ↔ a.toNat % 4 = 0 := by
  rw [← BitVec.toNat_inj, BitVec.toNat_and]
  exact Eq.congr_left (Nat.and_two_pow_sub_one_eq_mod _ 2)

/-- The instruction after one that retired can be executed too. -/
theorem next_pc {a : BitVec 64} (h : a &&& 3#64 = 0#64) (h' : a.toNat ≤ uint64Max - 8) :
    (a + 4#64) &&& 3#64 = 0#64 ∧ (a + 4#64).toNat ≤ uint64Max - 4 := by
  have hadd : (a + 4#64).toNat = a.toNat + 4 := by
    rw [BitVec.toNat_add, BitVec.toNat_ofNat]
    unfold uint64Max at h'
    omega
  rw [and_three_eq_zero_iff] at h ⊢
  rw [hadd]
  unfold uint64Max at *
  omega

theorem gcRegisterStep_branchIf {r : GCRegisters} (hpc : r.pc &&& 3#64 = 0#64)
    (hpc' : r.pc.toNat ≤ uint64Max - 4) {j : BitVec 32} (hj : IsBranchIf j) :
    gcRegisterStep r j = some { r with
      pc := if condition r.nzcv (field j 0 15) then branchTarget r.pc (field j 5 0x7ffff) 19
        else r.pc + 4#64 } := by
  obtain ⟨hop, hflags, himm⟩ := decode_branchIf hj r.pc
  rw [gcRegisterStep_of_pc hpc hpc']
  unfold registerDecoded
  rw [hop, hflags, himm]

theorem gcRegisterStep_select {r : GCRegisters} (hpc : r.pc &&& 3#64 = 0#64)
    (hpc' : r.pc.toNat ≤ uint64Max - 4) {j : BitVec 32} (hj : IsSelect j) :
    gcRegisterStep r j = some { r.put (field j 0 31)
      (if condition r.nzcv (field j 12 15) then r.reg (field j 5 31) false
        else r.reg (field j 16 31) false) (registerWidth j) false with pc := r.pc + 4#64 } := by
  rw [gcRegisterStep_of_pc hpc hpc', decode_select hj]
  rfl

theorem field_lt_sixteen (i : BitVec 32) (low : ℕ) : field i low 15 < 16 := by
  have h : field i low 15 = i.toNat >>> low % 16 := field_eq i low 4
  omega

/-- A comparison followed by B.cond or CSEL decides the relation of the condition
between the operands compared, at both widths; an addition sets carry and
overflow exactly. -/
theorem compare_branch {r : GCRegisters} (hpc : r.pc &&& 3#64 = 0#64)
    (hpc' : r.pc.toNat ≤ uint64Max - 8) :
    (∀ i, IsSubs i → ∃ r', gcRegisterStep r i = some r' ∧
      (∀ j, IsBranchIf j → gcRegisterStep r' j = some { r' with
        pc := if Relation (firstOperand r i) (secondOperand r i) (field j 0 15) then
          branchTarget r'.pc (field j 5 0x7ffff) 19 else r'.pc + 4#64 }) ∧
      ∀ j, IsSelect j → gcRegisterStep r' j = some { r'.put (field j 0 31)
        (if Relation (firstOperand r i) (secondOperand r i) (field j 12 15) then
          r'.reg (field j 5 31) false else r'.reg (field j 16 31) false)
        (registerWidth j) false with pc := r'.pc + 4#64 }) ∧
    ∀ i, IsAdds i → ∃ r', gcRegisterStep r i = some r' ∧
      (r'.nzcv.getLsbD 1 = true ↔
        2 ^ registerWidth i ≤ (firstOperand r i).toNat + (secondOperand r i).toNat) ∧
      (r'.nzcv.getLsbD 0 = true ↔
        ¬ Representable (registerWidth i) ((firstOperand r i).toInt + (secondOperand r i).toInt)) := by
  obtain ⟨hnext, hnext'⟩ := next_pc hpc hpc'
  constructor
  · rintro i ⟨hi, hflags⟩
    obtain ⟨r', a, b, hstep, hr'pc, hnzcv, ha, hb⟩ :=
      gcRegisterStep_arithmetic hpc (by omega) hi (by omega)
    rw [hflags] at hnzcv
    have hare := arithmetic_sub (registerWidth_cases i) a b
    rw [show Nat.testBit 3 1 = true from rfl] at hnzcv
    rw [← hnzcv, ha, hb] at hare
    have hdecide := fun cond (hcond : cond < 16) =>
      condition_iff (registerWidth_cases i) hare hcond
    rw [← hr'pc] at hnext hnext'
    refine ⟨r', hstep, ?_, ?_⟩
    · intro j hj
      rw [gcRegisterStep_branchIf hnext hnext' hj]
      simp only [hdecide _ (field_lt_sixteen j 0)]
    · intro j hj
      rw [gcRegisterStep_select hnext hnext' hj]
      simp only [hdecide _ (field_lt_sixteen j 12)]
  · rintro i ⟨hi, hflags⟩
    obtain ⟨r', a, b, hstep, -, hnzcv, ha, hb⟩ :=
      gcRegisterStep_arithmetic hpc (by omega) hi (by omega)
    rw [hflags] at hnzcv
    have hare := arithmetic_add (registerWidth_cases i) a b
    rw [show Nat.testBit 1 1 = false from rfl] at hnzcv
    rw [← hnzcv, ha, hb] at hare
    exact ⟨r', hstep, hare.c, hare.v⟩

section Fixture

/-- Every register holds the least signed number. -/
private def leastRegisters : GCRegisters := ⟨fun _ => 0x8000000000000000#64, 0#64, 0#64, 0#8⟩

/-- SUBS X0, X1, #1 and then B.MI two instructions on. -/
private def subsWord : BitVec 32 := 0xf1000420#32

private def branchWord : BitVec 32 := 0x54000044#32

theorem compare_branch_least :
    ∃ r', gcRegisterStep leastRegisters subsWord = some r' ∧
      gcRegisterStep r' branchWord = some { r' with
        pc := if Relation (firstOperand leastRegisters subsWord)
            (secondOperand leastRegisters subsWord) 4 then branchTarget r'.pc 2 19
          else r'.pc + 4#64 } :=
  have hsubs := (compare_branch (r := leastRegisters) rfl (by decide)).1 subsWord (by decide)
  hsubs.imp fun _ h => ⟨h.1, h.2.1 branchWord (by decide)⟩

/-- The least signed number less one: the exact difference is negative, and B.MI
is not taken. -/
theorem minus_least :
    IsSubs subsWord ∧ IsBranchIf branchWord ∧ field branchWord 0 15 = 4 ∧
      (firstOperand leastRegisters subsWord).toInt -
        (secondOperand leastRegisters subsWord).toInt < 0 ∧
      ((gcRegisterStep leastRegisters subsWord).bind fun r' =>
        gcRegisterStep r' branchWord).map GCRegisters.pc = some 8#64 ∧
      branchTarget 4#64 (field branchWord 5 0x7ffff) 19 = 12#64 := by
  decide

end Fixture

end Tolkara
