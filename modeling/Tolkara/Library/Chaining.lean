import Mathlib.Tactic

/-!
# Cipher block chaining

A permutation of blocks as a permutation of texts of whole blocks: each block is added to the
one before it in its encrypted form.
-/

namespace Tolkara

namespace Library

def addBlock (block previous : List UInt8) : List UInt8 :=
  List.zipWith (· ^^^ ·) block previous

theorem length_addBlock {block previous : List UInt8} (h : block.length = previous.length) :
    (addBlock block previous).length = block.length := by
  rw [addBlock, List.length_zipWith, ← h, Nat.min_self]

theorem addBlock_addBlock {block previous : List UInt8} (h : block.length = previous.length) :
    addBlock (addBlock block previous) previous = block := by
  induction block generalizing previous with
  | nil => rfl
  | cons x block ih =>
      cases previous with
      | nil => cases h
      | cons y previous =>
          have htail := ih (Nat.succ.inj h)
          simp only [addBlock, List.zipWith_cons_cons] at htail ⊢
          rw [htail, UInt8.xor_assoc, UInt8.xor_self, UInt8.xor_zero]

/-- The first `k` blocks of `n` symbols, encrypted. -/
def chain (n : ℕ) (cipher : Equiv.Perm (List UInt8)) : ℕ → List UInt8 → List UInt8 → List UInt8
  | 0, _, _ => []
  | k + 1, previous, l =>
    let block := cipher (addBlock (l.take n) previous)
    block ++ chain n cipher k block (l.drop n)

/-- The first `k` blocks of `n` symbols, decrypted. -/
def unchain (n : ℕ) (cipher : Equiv.Perm (List UInt8)) :
    ℕ → List UInt8 → List UInt8 → List UInt8
  | 0, _, _ => []
  | k + 1, previous, l =>
    addBlock (cipher.symm (l.take n)) previous ++ unchain n cipher k (l.take n) (l.drop n)

variable {n k : ℕ} {cipher : Equiv.Perm (List UInt8)} {previous l : List UInt8}

theorem length_symm (hcipher : ∀ b, (cipher b).length = b.length) (b : List UInt8) :
    (cipher.symm b).length = b.length := by
  rw [← hcipher, Equiv.apply_symm_apply]

theorem length_first (h : l.length = (k + 1) * n) : (l.take n).length = n := by
  rw [List.length_take, h, Nat.succ_mul, Nat.min_eq_left (Nat.le_add_left _ _)]

theorem length_others (h : l.length = (k + 1) * n) : (l.drop n).length = k * n := by
  rw [List.length_drop, h, Nat.succ_mul, Nat.add_sub_cancel]

theorem length_chain (hcipher : ∀ b, (cipher b).length = b.length) (hl : l.length = k * n)
    (hprevious : previous.length = n) : (chain n cipher k previous l).length = k * n := by
  induction k generalizing previous l with
  | zero => rw [chain, List.length_nil, Nat.zero_mul]
  | succ k ih =>
      have hblock : (cipher (addBlock (l.take n) previous)).length = n := by
        rw [hcipher, length_addBlock ((length_first hl).trans hprevious.symm), length_first hl]
      rw [chain, List.length_append, ih (length_others hl) hblock, hblock, Nat.succ_mul,
        Nat.add_comm]

theorem length_unchain (hcipher : ∀ b, (cipher b).length = b.length) (hl : l.length = k * n)
    (hprevious : previous.length = n) : (unchain n cipher k previous l).length = k * n := by
  induction k generalizing previous l with
  | zero => rw [unchain, List.length_nil, Nat.zero_mul]
  | succ k ih =>
      have hplain := (length_symm hcipher (l.take n)).trans (length_first hl)
      rw [unchain, List.length_append, ih (length_others hl) (length_first hl),
        length_addBlock (hplain.trans hprevious.symm), hplain, Nat.succ_mul, Nat.add_comm]

theorem unchain_chain (hcipher : ∀ b, (cipher b).length = b.length) (hl : l.length = k * n)
    (hprevious : previous.length = n) :
    unchain n cipher k previous (chain n cipher k previous l) = l := by
  induction k generalizing previous l with
  | zero =>
      rw [Nat.zero_mul] at hl
      exact (List.length_eq_zero_iff.1 hl).symm
  | succ k ih =>
      have hsame := (length_first hl).trans hprevious.symm
      have hblock : (cipher (addBlock (l.take n) previous)).length = n := by
        rw [hcipher, length_addBlock hsame, length_first hl]
      rw [chain, unchain, List.take_left' hblock, List.drop_left' hblock,
        Equiv.symm_apply_apply, addBlock_addBlock hsame, ih (length_others hl) hblock,
        List.take_append_drop]

theorem chain_unchain (hcipher : ∀ b, (cipher b).length = b.length) (hl : l.length = k * n)
    (hprevious : previous.length = n) :
    chain n cipher k previous (unchain n cipher k previous l) = l := by
  induction k generalizing previous l with
  | zero =>
      rw [Nat.zero_mul] at hl
      exact (List.length_eq_zero_iff.1 hl).symm
  | succ k ih =>
      have hplain := (length_symm hcipher (l.take n)).trans (length_first hl)
      have hsame := hplain.trans hprevious.symm
      have hblock := (length_addBlock hsame).trans hplain
      rw [unchain, chain, List.take_left' hblock, List.drop_left' hblock,
        addBlock_addBlock hsame, Equiv.apply_symm_apply, ih (length_others hl) (length_first hl),
        List.take_append_drop]

end Library

end Tolkara
