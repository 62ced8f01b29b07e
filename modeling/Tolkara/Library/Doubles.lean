import Mathlib

/-!
# The order of the doubles

A finite double stands for a rational number. It is written with all the 53 bits of its
mantissa unless its exponent is the least one, so the comparisons, which look at the exponent
first, are those of the numbers.
-/

namespace Tolkara

namespace Library

open Float.Model (UnpackedFloat Format)
open Float.Model.UnpackedFloat (Sign)

def rational : UnpackedFloat → ℚ
  | .finite s m e _ => (s.apply m : ℤ) * (2 : ℚ) ^ e
  | _ => 0

/-- The mantissa has all its bits, or the exponent is the least. -/
def FullMantissa : UnpackedFloat → Prop
  | .finite _ m e _ => m < 2 ^ 53 ∧ -1074 ≤ e ∧ (2 ^ 52 ≤ m ∨ e = -1074)
  | _ => True

theorem fullMantissa_unpack (x : Float.Model) : FullMantissa x.unpack := by
  have hbias : ((Format.binary64.exponentBias : ℕ) : ℤ) = 1023 := rfl
  have hzero : (BitVec.ofNat Format.binary64.exponentBits 0).toNat = 0 := rfl
  have hbits : ∀ m : BitVec Format.binary64.mantissaBitsWithoutImplicit, m.toNat < 2 ^ 52 :=
    fun m => m.isLt
  unfold Float.Model.unpack UnpackedFloat.unpack
  dsimp only
  split
  · split
    · trivial
    · trivial
  · split
    · rename_i hleast
      split
      · trivial
      · -- The subnormal numbers have the least exponent.
        rw [hleast]
        refine ⟨(hbits _).trans (by norm_num), ?_, .inr ?_⟩
        · rw [hzero, hbias]
          norm_num
        · rw [hzero, hbias]
          norm_num
    · rename_i hnormal
      have hpos := fun h => hnormal (BitVec.eq_of_toNat_eq h)
      rw [hzero] at hpos
      have hone := Nat.one_le_iff_ne_zero.mpr hpos
      refine ⟨BitVec.isLt _, ?_, .inl ?_⟩
      · change _ ≤ _ - ((1023 : ℤ) + 52)
        linarith
      · rw [BitVec.toNat_append]
        exact Nat.left_le_or

/-- The larger exponent decides. -/
theorem scaled_lt {m n : ℕ} {d e : ℤ} (hm : m < 2 ^ 53) (hn : 2 ^ 52 ≤ n) (hde : d < e) :
    (m : ℚ) * 2 ^ d < n * 2 ^ e := by
  have hbits : (m : ℚ) < 2 ^ 53 := by exact_mod_cast hm
  have hfull : (2 : ℚ) ^ 52 ≤ n := by exact_mod_cast hn
  calc (m : ℚ) * 2 ^ d < 2 ^ 53 * 2 ^ d := by gcongr
    _ = 2 ^ 52 * 2 ^ (d + 1) := by rw [zpow_add₀ two_ne_zero]; ring
    _ ≤ 2 ^ 52 * 2 ^ e := by
        gcongr
        · norm_num
        · omega
    _ ≤ n * 2 ^ e := by gcongr

theorem compare_scaled {m n : ℕ} {d e : ℤ} (hm : m < 2 ^ 53 ∧ -1074 ≤ d ∧ (2 ^ 52 ≤ m ∨ d = -1074))
    (hn : n < 2 ^ 53 ∧ -1074 ≤ e ∧ (2 ^ 52 ≤ n ∨ e = -1074)) :
    (compare d e).then (compare m n) = compare ((m : ℚ) * 2 ^ d) (n * 2 ^ e) := by
  rcases lt_trichotomy d e with hde | rfl | hde
  · have hlt := scaled_lt hm.1 (hn.2.2.resolve_right (by omega)) hde
    rw [compare_lt_iff_lt.mpr hde, compare_lt_iff_lt.mpr hlt]
    rfl
  · have hpos : (0 : ℚ) < 2 ^ d := by positivity
    rw [compare_eq_iff_eq.mpr rfl]
    change compare m n = _
    rcases lt_trichotomy m n with hmn | rfl | hmn
    · have hlt : (m : ℚ) * 2 ^ d < n * 2 ^ d := by gcongr
      rw [compare_lt_iff_lt.mpr hmn, compare_lt_iff_lt.mpr hlt]
    · rw [compare_eq_iff_eq.mpr rfl, compare_eq_iff_eq.mpr rfl]
    · have hlt : (n : ℚ) * 2 ^ d < m * 2 ^ d := by gcongr
      rw [compare_gt_iff_gt.mpr hmn, compare_gt_iff_gt.mpr hlt]
  · have hlt := scaled_lt hn.1 (hm.2.2.resolve_right (by omega)) hde
    rw [compare_gt_iff_gt.mpr hde, compare_gt_iff_gt.mpr hlt]
    rfl

theorem rational_positive {m : ℕ} {e : ℤ} (h : 0 < m) :
    rational (.finite .positive m e h) = (m : ℚ) * 2 ^ e := by
  simp [rational, Float.Model.UnpackedFloat.Sign.apply]

theorem rational_negative {m : ℕ} {e : ℤ} (h : 0 < m) :
    rational (.finite .negative m e h) = -((m : ℚ) * 2 ^ e) := by
  simp [rational, Float.Model.UnpackedFloat.Sign.apply]

theorem scaled_pos {m : ℕ} (e : ℤ) (h : 0 < m) : 0 < (m : ℚ) * 2 ^ e := by positivity

theorem swap_compare (a b : ℚ) : (compare a b).swap = compare (-a) (-b) := by
  rcases lt_trichotomy a b with h | rfl | h
  · rw [compare_lt_iff_lt.mpr h, compare_gt_iff_gt.mpr (neg_lt_neg h)]
    rfl
  · rw [compare_eq_iff_eq.mpr rfl, compare_eq_iff_eq.mpr rfl]
    rfl
  · rw [compare_gt_iff_gt.mpr h, compare_lt_iff_lt.mpr (neg_lt_neg h)]
    rfl

/-- The comparison of finite doubles is that of their numbers. -/
theorem compare_rational {x y : UnpackedFloat} (hx : FullMantissa x) (hy : FullMantissa y)
    (hfx : x.isFinite = true) (hfy : y.isFinite = true) :
    x.compare y = some (compare (rational x) (rational y)) := by
  cases x with
  | infinity s => cases hfx
  | notANumber => cases hfx
  | zero s =>
      cases y with
      | infinity t => cases hfy
      | notANumber => cases hfy
      | zero t =>
          rw [compare_eq_iff_eq.mpr (show rational (.zero s) = rational (.zero t) from rfl)]
          rfl
      | finite t n e hn =>
          have hpos := scaled_pos e hn
          cases t with
          | positive =>
              rw [rational_positive, compare_lt_iff_lt.mpr (show rational (.zero s) < _ from hpos)]
              rfl
          | negative =>
              rw [rational_negative, compare_gt_iff_gt.mpr
                (show -_ < rational (.zero s) from neg_neg_of_pos hpos)]
              rfl
  | finite s m d hm =>
      have hpos := scaled_pos d hm
      cases y with
      | infinity t => cases hfy
      | notANumber => cases hfy
      | zero t =>
          cases s with
          | positive =>
              rw [rational_positive, compare_gt_iff_gt.mpr (show rational (.zero t) < _ from hpos)]
              rfl
          | negative =>
              rw [rational_negative, compare_lt_iff_lt.mpr
                (show -_ < rational (.zero t) from neg_neg_of_pos hpos)]
              rfl
      | finite t n e hn =>
          have hpos' := scaled_pos e hn
          have hsame := compare_scaled hx hy
          cases s <;> cases t
          · rw [rational_negative, rational_negative]
            change some ((compare d e).then (compare m n)).swap = _
            rw [hsame, swap_compare]
          · rw [rational_negative, rational_positive, compare_lt_iff_lt.mpr
              ((neg_neg_of_pos hpos).trans hpos')]
            rfl
          · rw [rational_positive, rational_negative, compare_gt_iff_gt.mpr
              ((neg_neg_of_pos hpos').trans hpos)]
            rfl
          · rw [rational_positive, rational_positive, ← hsame]
            rfl

def doubleValue (x : Float) : ℚ := rational x.toModel.unpack

theorem compare_double {x y : Float} (hx : x.isFinite = true) (hy : y.isFinite = true) :
    x.toModel.unpack.compare y.toModel.unpack = some (compare (doubleValue x) (doubleValue y)) :=
  compare_rational (fullMantissa_unpack _) (fullMantissa_unpack _) hx hy

theorem lt_double {x y : Float} (hx : x.isFinite = true) (hy : y.isFinite = true) :
    x < y ↔ doubleValue x < doubleValue y := by
  have hlt : x < y ↔ (x.toModel.unpack.compare y.toModel.unpack == some .lt) = true :=
    decide_eq_true_iff
  rw [hlt, compare_double hx hy, beq_iff_eq, Option.some.injEq, compare_lt_iff_lt]

theorem le_double {x y : Float} (hx : x.isFinite = true) (hy : y.isFinite = true) :
    x ≤ y ↔ doubleValue x ≤ doubleValue y := by
  have hle : x ≤ y ↔ (x.toModel.unpack.compare y.toModel.unpack).any (·.isLE) = true :=
    decide_eq_true_iff
  rw [hle, compare_double hx hy, Option.any_some, Ordering.isLE_iff_ne_gt,
    compare_gt_iff_gt, not_lt]

end Library

end Tolkara
