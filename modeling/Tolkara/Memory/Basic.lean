import Mathlib.Data.List.Range
import Mathlib.Tactic

/-!
# Pages, permissions and results of guest memory

The vocabulary the dense memory (`runtime/GuestMemory.c`) and the sparse memory
(`runtime/GuestSparseMemory.c`) share. Addresses and sizes are natural numbers;
both implementations refuse a range that passes the end of the 64-bit address
space, and the bound is written out where they do. Permissions are machine
words, since the code tests them with masks. The bytes of a page are a function
of the offset, and a host buffer is a function of the index.

`checkPages` is the page-by-page reading of an access: the first offending page
in address order decides between an unmapped and a protected answer.
-/

namespace Tolkara

/-- `UINT64_MAX`, also `SIZE_MAX` of the 64-bit targets. -/
def uint64Max : ℕ := 18446744073709551615

def pageSize : ℕ := 16384

/-- A set of permissions, an `unsigned` in the source. -/
abbrev Prot := BitVec 32

namespace GM

def READ : Prot := 1#32

def WRITE : Prot := 2#32

def EXEC : Prot := 4#32

end GM

inductive GMResult where
  | ok
  | invalid
  | overlap
  | unmapped
  | protection
  | nomem
deriving DecidableEq, Repr

abbrev PageBytes := ℕ → UInt8

/-- The bytes a host buffer holds, by index. -/
abbrev Buffer := ℕ → UInt8

def zeroPage : PageBytes := fun _ => 0

def pageStore (bytes : PageBytes) (offset n : ℕ) (buffer : Buffer) : PageBytes :=
  fun i => if offset ≤ i ∧ i < offset + n then buffer (i - offset) else bytes i

def pageLoad (bytes : PageBytes) (offset n : ℕ) : List UInt8 :=
  (List.range n).map fun i => bytes (offset + i)

def littleEndian : List UInt8 → ℕ
  | [] => 0
  | b :: bytes => b.toNat + 256 * littleEndian bytes

def ascii (s : String) : List UInt8 := s.toList.map fun c => UInt8.ofNat c.toNat

/-- Byte `i` of a value stored with its low byte first. -/
def byteOf (value i : ℕ) : UInt8 := UInt8.ofNat (value / 256 ^ i)

/-- A nonempty page-aligned range that does not pass the end of the address
space: `range` of the dense and `aligned` of the sparse memory. -/
def PageRange (a n : ℕ) : Prop :=
  n ≠ 0 ∧ a % pageSize = 0 ∧ n % pageSize = 0 ∧ n ≤ uint64Max - a

instance (a n : ℕ) : Decidable (PageRange a n) :=
  inferInstanceAs (Decidable (_ ∧ _ ∧ _ ∧ _))

/-- The permissions a mapping asks for are ones that exist and are allowed. -/
def ProtOk (prot maxprot : Prot) : Prop :=
  maxprot &&& ~~~7#32 = 0#32 ∧ prot &&& ~~~maxprot = 0#32

instance (prot maxprot : Prot) : Decidable (ProtOk prot maxprot) :=
  inferInstanceAs (Decidable (_ ∧ _))

/-! ## Page arithmetic -/

def pageBase (a : ℕ) : ℕ := a - a % pageSize

def pageCount (a n : ℕ) : ℕ :=
  if n = 0 then 0 else (a + n - 1) / pageSize - a / pageSize + 1

theorem pageBase_eq (a : ℕ) : pageBase a = a / pageSize * pageSize := by
  have := Nat.div_add_mod a pageSize
  rw [pageBase, Nat.mul_comm]
  omega

theorem pageBase_mod (a : ℕ) : pageBase a % pageSize = 0 := by
  rw [pageBase_eq, Nat.mul_mod_left]

theorem sub_pageBase (a : ℕ) : a - pageBase a = a % pageSize := by
  have := Nat.mod_le a pageSize
  unfold pageBase
  omega

theorem pageBase_add_lt (a : ℕ) : a < pageBase a + pageSize := by
  unfold pageBase pageSize
  omega

theorem pageBase_le (a : ℕ) : pageBase a ≤ a := by
  unfold pageBase
  omega

theorem pageBase_add {a i : ℕ} (hi : i < pageSize - a % pageSize) :
    pageBase (a + i) = pageBase a := by
  unfold pageBase pageSize at *
  omega

/-- An access inside one page touches one page. -/
theorem pageCount_one {a n : ℕ} (hn : n ≠ 0) (h : n ≤ pageSize - a % pageSize) :
    pageCount a n = 1 := by
  rw [pageCount, if_neg hn]
  unfold pageSize at *
  omega

/-- An access that leaves its first page goes on with the next one. -/
theorem pageCount_succ {a n c : ℕ} (hc : c = pageSize - a % pageSize) (h : c < n) :
    pageCount a n = pageCount (a + c) (n - c) + 1 := by
  have h1 : n ≠ 0 := by omega
  have h2 : n - c ≠ 0 := by omega
  rw [pageCount, pageCount, if_neg h1, if_neg h2]
  unfold pageSize at *
  omega

theorem div_add_chunk {a c : ℕ} (hc : c = pageSize - a % pageSize) :
    (a + c) / pageSize = a / pageSize + 1 := by
  unfold pageSize at *
  omega

/-! ## Page ranges -/

theorem PageRange.add_le {a n : ℕ} (h : PageRange a n) : a + n ≤ uint64Max := by
  have := h.2.2.2
  have := h.1
  omega

theorem PageRange.add_mod {a n : ℕ} (h : PageRange a n) : (a + n) % pageSize = 0 := by
  have h1 := h.2.1
  have h2 := h.2.2.1
  unfold pageSize at *
  omega

theorem PageRange.div_mul {a n : ℕ} (h : PageRange a n) :
    n / pageSize * pageSize = n := Nat.div_mul_cancel (Nat.dvd_of_mod_eq_zero h.2.2.1)

/-- The page at `b` is one of the pages of `[a, a + n)`. -/
def InRange (a n b : ℕ) : Prop := a ≤ b ∧ b < a + n ∧ b % pageSize = 0

instance (a n b : ℕ) : Decidable (InRange a n b) :=
  inferInstanceAs (Decidable (_ ∧ _ ∧ _))

/-! ## Accesses page by page -/

/-- Page after page from `k` on: a page `look` does not know is unmapped, one
that `deny` rejects is protected. -/
def checkPages {β : Type*} (look : ℕ → Option β) (deny : β → Bool) : ℕ → ℕ → GMResult
  | _, 0 => .ok
  | k, count + 1 =>
    match look k with
    | none => .unmapped
    | some p => if deny p then .protection else checkPages look deny (k + 1) count

theorem checkPages_zero {β : Type*} (look : ℕ → Option β) (deny : β → Bool) (k : ℕ) :
    checkPages look deny k 0 = .ok := rfl

theorem checkPages_succ {β : Type*} (look : ℕ → Option β) (deny : β → Bool) (k count : ℕ) :
    checkPages look deny k (count + 1) =
      match look k with
      | none => .unmapped
      | some p => if deny p then .protection else checkPages look deny (k + 1) count := rfl

/-- An access succeeds exactly when every page is known and allowed. -/
theorem checkPages_eq_ok_iff {β : Type*} (look : ℕ → Option β) (deny : β → Bool)
    (k count : ℕ) :
    checkPages look deny k count = .ok ↔
      ∀ i < count, ∃ p, look (k + i) = some p ∧ deny p = false := by
  induction count generalizing k with
  | zero => simp [checkPages]
  | succ count ih =>
      rw [checkPages_succ, Nat.forall_lt_succ_left]
      cases hk : look k with
      | none => simp
      | some p =>
          cases hd : deny p with
          | true => simp [hd]
          | false =>
              simp only [hd, Bool.false_eq_true, ↓reduceIte, ih, Option.some.injEq,
                exists_eq_left', true_and]
              simp only [Nat.add_assoc, Nat.add_comm 1]

/-- An access check never runs out of memory. -/
theorem checkPages_ne_nomem {β : Type*} (look : ℕ → Option β) (deny : β → Bool) (k count : ℕ) :
    checkPages look deny k count ≠ .nomem := by
  induction count generalizing k with
  | zero => nofun
  | succ count ih =>
      rw [checkPages_succ]
      split
      · nofun
      · split
        · nofun
        · exact ih (k + 1)

/-- Only the answers of the pages inside the range matter. -/
theorem checkPages_congr {β γ : Type*} {look : ℕ → Option β} {deny : β → Bool}
    {look' : ℕ → Option γ} {deny' : γ → Bool} {k count : ℕ}
    (h : ∀ i < count, (look (k + i)).map deny = (look' (k + i)).map deny') :
    checkPages look deny k count = checkPages look' deny' k count := by
  induction count generalizing k with
  | zero => rfl
  | succ count ih =>
      rw [checkPages_succ, checkPages_succ]
      have h0 := h 0 (by omega)
      have hs : checkPages look deny (k + 1) count = checkPages look' deny' (k + 1) count := by
        apply ih
        intro i hi
        have := h (i + 1) (by omega)
        rwa [show k + (i + 1) = k + 1 + i by omega] at this
      rw [Nat.add_zero] at h0
      cases hl : look k <;> cases hl' : look' k <;> simp [hl, hl'] at h0 ⊢
      rw [h0, hs]

theorem checkPages_add {β : Type*} (look : ℕ → Option β) (deny : β → Bool) (k c d : ℕ)
    (h : checkPages look deny k c = .ok) :
    checkPages look deny k (c + d) = checkPages look deny (k + c) d := by
  induction c generalizing k with
  | zero => simp
  | succ c ih =>
      rw [checkPages_succ] at h
      rw [show c + 1 + d = c + d + 1 by omega, checkPages_succ]
      cases hk : look k with
      | none => simp [hk] at h
      | some p =>
          rw [hk] at h
          dsimp only at h ⊢
          split at h
          · cases h
          · rename_i hd
            rw [if_neg hd, ih (k + 1) h, show k + 1 + c = k + (c + 1) by omega]

/-! ## Bytes of a page -/

def overwrite (a n : ℕ) (buffer : Buffer) (b : ℕ) (bytes : PageBytes) : PageBytes := fun i =>
  if i < pageSize ∧ a ≤ b + i ∧ b + i < a + n then buffer (b + i - a) else bytes i

theorem overwrite_zero (a : ℕ) (buffer : Buffer) (b : ℕ) (bytes : PageBytes) :
    overwrite a 0 buffer b bytes = bytes := by
  funext i
  rw [overwrite, if_neg (by omega)]

/-- A write in two pieces. -/
theorem overwrite_overwrite {a n c : ℕ} (hc : c ≤ n) (buffer : Buffer) (b : ℕ)
    (bytes : PageBytes) :
    overwrite (a + c) (n - c) (fun j => buffer (c + j)) b (overwrite a c buffer b bytes) =
      overwrite a n buffer b bytes := by
  funext i
  unfold overwrite
  dsimp only
  by_cases h1 : i < pageSize ∧ a + c ≤ b + i ∧ b + i < a + c + (n - c)
  · rw [if_pos h1, if_pos (by omega)]
    congr 1
    omega
  · rw [if_neg h1]
    by_cases h2 : i < pageSize ∧ a ≤ b + i ∧ b + i < a + c
    · rw [if_pos h2, if_pos (by omega)]
    · rw [if_neg h2, if_neg (by omega)]

theorem pageStore_eq_overwrite {a c : ℕ} (hc : c ≤ pageSize - a % pageSize) (buffer : Buffer)
    (bytes : PageBytes) :
    pageStore bytes (a % pageSize) c buffer = overwrite a c buffer (pageBase a) bytes := by
  funext i
  have hmod := Nat.mod_lt a (show 0 < pageSize by decide)
  have hoff : pageBase a + a % pageSize = a := Nat.sub_add_cancel (Nat.mod_le a pageSize)
  unfold pageStore overwrite
  by_cases hi : a % pageSize ≤ i ∧ i < a % pageSize + c
  · rw [if_pos hi, if_pos (by omega)]
    congr 1
    omega
  · rw [if_neg hi, if_neg (by omega)]

/-- On its first page a write is the chunk up to the end of that page. -/
theorem overwrite_chunk (a n : ℕ) (buffer : Buffer) (bytes : PageBytes) :
    overwrite a (min (pageSize - a % pageSize) n) buffer (pageBase a) bytes =
      overwrite a n buffer (pageBase a) bytes := by
  funext i
  have hmod := Nat.mod_lt a (show 0 < pageSize by decide)
  have hoff : pageBase a + a % pageSize = a := Nat.sub_add_cancel (Nat.mod_le a pageSize)
  unfold overwrite
  congr 1
  rw [eq_iff_iff]
  omega

theorem overwrite_of_disjoint {a n b : ℕ} (h : b + pageSize ≤ a ∨ a + n ≤ b) (buffer : Buffer)
    (bytes : PageBytes) : overwrite a n buffer b bytes = bytes := by
  funext i
  rw [overwrite, if_neg (by omega)]

/-- A write that stays on its page leaves the others alone. -/
theorem overwrite_of_ne {a c b : ℕ} (hc : c ≤ pageSize - a % pageSize) (hb : b % pageSize = 0)
    (hne : b ≠ pageBase a) (buffer : Buffer) (bytes : PageBytes) :
    overwrite a c buffer b bytes = bytes := by
  apply overwrite_of_disjoint
  unfold pageBase pageSize at *
  omega

theorem map_range_append {β : Type*} (f : ℕ → β) (c d : ℕ) :
    (List.range (c + d)).map f =
      (List.range c).map f ++ (List.range d).map fun i => f (c + i) := by
  rw [List.range_add, List.map_append, List.map_map]
  rfl

end Tolkara
