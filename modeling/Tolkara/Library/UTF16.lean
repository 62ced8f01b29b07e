import Mathlib.Tactic

/-!
# UTF-16

The units of a text, one or two for each character. Texts with the same units are the same,
and as the units of an ASCII character stand for nothing else, a text can be split at
such a character before or after it is encoded.
-/

namespace Tolkara

namespace Library

/-! ## Splitting a list that is expanded -/

section

variable {α β : Type} [BEq α] [LawfulBEq α] [BEq β] [LawfulBEq β]

theorem nil_mem_splitOn {a : α} {s : List α} (h : s.head? = some a) : [] ∈ s.splitOn a := by
  cases s with
  | nil => cases h
  | cons x s =>
      obtain rfl : x = a := Option.some.inj h
      rw [List.splitOn_cons_eq_if_modifyHead, beq_self_eq_true, if_pos rfl]
      exact List.mem_cons_self

theorem splitOn_append_of_notMem {t : β} {l : List β} (h : t ∉ l) (xs : List β) :
    (l ++ xs).splitOn t = (xs.splitOn t).modifyHead (l ++ ·) := by
  induction l with
  | nil => exact (List.modifyHead_id ▸ rfl)
  | cons x l ih =>
      rw [List.mem_cons, not_or] at h
      have hne : (x == t) = false := beq_false_of_ne (Ne.symm h.1)
      rw [List.cons_append, List.splitOn_cons_eq_if_modifyHead, hne, ih h.2,
        if_neg Bool.false_ne_true, List.modifyHead_modifyHead]
      rfl

/-- A separator that is expanded to one that nothing else has. -/
theorem splitOn_flatMap {f : α → List β} {sep : α} {t : β} (hsep : f sep = [t])
    (hother : ∀ c, c ≠ sep → t ∉ f c) (s : List α) :
    (s.flatMap f).splitOn t = (s.splitOn sep).map (·.flatMap f) := by
  induction s with
  | nil => rfl
  | cons c s ih =>
      rw [List.flatMap_cons, List.splitOn_cons_eq_if_modifyHead]
      by_cases hc : c = sep
      · subst hc
        rw [hsep, List.singleton_append, List.splitOn_cons_eq_if_modifyHead, beq_self_eq_true,
          beq_self_eq_true, if_pos rfl, if_pos rfl, ih]
        rfl
      · have hne : (c == sep) = false := beq_false_of_ne hc
        rw [splitOn_append_of_notMem (hother c hc), ih, hne, if_neg Bool.false_ne_true]
        cases s.splitOn sep <;> rfl

end

/-! ## Units -/

def unitsOf (c : Char) : List UInt16 :=
  if c.toNat < 0x10000 then [UInt16.ofNat c.toNat]
  else
    [UInt16.ofNat (0xD800 + (c.toNat - 0x10000) / 0x400),
      UInt16.ofNat (0xDC00 + (c.toNat - 0x10000) % 0x400)]

def utf16 (s : List Char) : List UInt16 := s.flatMap unitsOf

theorem utf16_cons (c : Char) (s : List Char) : utf16 (c :: s) = unitsOf c ++ utf16 s := rfl

theorem toNat_unit {n : ℕ} (h : n < 0x10000) : (UInt16.ofNat n).toNat = n :=
  UInt16.toNat_ofNat_of_lt' h

theorem toNat_char (c : Char) : c.toNat < 0xD800 ∨ 0xDFFF < c.toNat ∧ c.toNat < 0x110000 :=
  c.valid

theorem unitsOf_cases (c : Char) :
    (∃ u, unitsOf c = [u] ∧ u.toNat = c.toNat ∧ (u.toNat < 0xD800 ∨ 0xDFFF < u.toNat)) ∨
      ∃ u v, unitsOf c = [u, v] ∧ 0xD800 ≤ u.toNat ∧ u.toNat ≤ 0xDBFF ∧ 0xDC00 ≤ v.toNat ∧
        c.toNat = 0x10000 + (u.toNat - 0xD800) * 0x400 + (v.toNat - 0xDC00) := by
  have hc := toNat_char c
  unfold unitsOf
  by_cases h : c.toNat < 0x10000
  · rw [if_pos h]
    refine .inl ⟨_, rfl, toNat_unit h, ?_⟩
    rw [toNat_unit h]
    omega
  · rw [if_neg h]
    refine .inr ⟨_, _, rfl, ?_⟩
    rw [toNat_unit (by omega), toNat_unit (by omega)]
    omega

theorem unitsOf_ne_nil (c : Char) : unitsOf c ≠ [] := by
  rcases unitsOf_cases c with ⟨u, h, -⟩ | ⟨u, v, h, -⟩ <;> rw [h] <;> exact List.cons_ne_nil _ _

theorem utf16_eq_nil {s : List Char} : utf16 s = [] ↔ s = [] := by
  cases s with
  | nil => exact ⟨fun _ => rfl, fun _ => rfl⟩
  | cons c s =>
      rw [utf16_cons, List.append_eq_nil_iff]
      exact ⟨fun h => absurd h.1 (unitsOf_ne_nil c), nofun⟩

/-- The first unit tells how many there are. -/
theorem unitsOf_append_inj {c d : Char} {xs ys : List UInt16}
    (h : unitsOf c ++ xs = unitsOf d ++ ys) : c = d ∧ xs = ys := by
  rcases unitsOf_cases c with ⟨u, hc, h1, h2⟩ | ⟨u, v, hc, h1, h2, h3, h4⟩ <;>
    rcases unitsOf_cases d with ⟨u', hd, h1', h2'⟩ | ⟨u', v', hd, h1', h2', h3', h4'⟩ <;>
    rw [hc, hd] at h
  · injection h with hu hxs
    rw [hu] at h1
    exact ⟨Char.toNat_inj.1 (h1.symm.trans h1'), hxs⟩
  · injection h with hu hxs
    rw [hu] at h2
    omega
  · injection h with hu hxs
    rw [hu] at h1 h2
    omega
  · injection h with hu htail
    injection htail with hv hxs
    rw [hu, hv] at h4
    exact ⟨Char.toNat_inj.1 (h4.trans h4'.symm), hxs⟩

theorem utf16_injective : Function.Injective utf16 := by
  intro s t h
  induction s generalizing t with
  | nil => exact (utf16_eq_nil.1 h.symm).symm
  | cons c s ih =>
      cases t with
      | nil => exact absurd (utf16_eq_nil.1 h) (List.cons_ne_nil _ _)
      | cons d t =>
          rw [utf16_cons, utf16_cons] at h
          obtain ⟨rfl, htail⟩ := unitsOf_append_inj h
          rw [ih htail]

theorem length_utf16_le (s : List Char) : (utf16 s).length ≤ 2 * s.length := by
  induction s with
  | nil => rfl
  | cons c s ih =>
      have hunits : (unitsOf c).length ≤ 2 := by
        unfold unitsOf
        split <;> simp
      rw [utf16_cons, List.length_append, List.length_cons]
      omega

/-! ## ASCII -/

theorem unitsOf_ascii {c : Char} (h : c.toNat < 0x80) : unitsOf c = [UInt16.ofNat c.toNat] :=
  if_pos (by omega)

/-- The unit of an ASCII character stands for nothing else. -/
theorem mem_unitsOf_ascii {c : Char} {u : UInt16} (hu : u.toNat < 0x80) :
    u ∈ unitsOf c ↔ c.toNat = u.toNat := by
  rcases unitsOf_cases c with ⟨v, hc, h1, -⟩ | ⟨v, w, hc, h1, h2, h3, h4⟩
  · rw [hc, List.mem_singleton, ← h1, eq_comm, UInt16.toNat_inj]
  · rw [hc, List.mem_cons, List.mem_singleton]
    constructor
    · rintro (rfl | rfl) <;> omega
    · intro h
      omega

theorem mem_utf16_ascii {s : List Char} {c : Char} (hc : c.toNat < 0x80) :
    UInt16.ofNat c.toNat ∈ utf16 s ↔ c ∈ s := by
  have hunit : (UInt16.ofNat c.toNat).toNat = c.toNat := toNat_unit (by omega)
  rw [utf16, List.mem_flatMap]
  constructor
  · rintro ⟨d, hd, hmem⟩
    rw [mem_unitsOf_ascii (by omega), hunit, Char.toNat_inj] at hmem
    rwa [← hmem]
  · intro h
    exact ⟨c, h, (mem_unitsOf_ascii (by omega)).2 hunit.symm⟩

theorem splitOn_utf16 {sep : Char} (hsep : sep.toNat < 0x80) (s : List Char) :
    (utf16 s).splitOn (UInt16.ofNat sep.toNat) = (s.splitOn sep).map utf16 := by
  refine splitOn_flatMap (unitsOf_ascii hsep) (fun c hc hmem => hc ?_) s
  have hunit : (UInt16.ofNat sep.toNat).toNat = sep.toNat := toNat_unit (by omega)
  rw [mem_unitsOf_ascii (by omega), hunit] at hmem
  exact Char.toNat_inj.1 hmem

/-- A text of ASCII characters has a unit for each. -/
theorem utf16_ascii {s : List Char} (h : ∀ c ∈ s, c.toNat < 0x80) :
    utf16 s = s.map fun c => UInt16.ofNat c.toNat := by
  induction s with
  | nil => rfl
  | cons c s ih =>
      rw [List.forall_mem_cons] at h
      rw [utf16_cons, unitsOf_ascii h.1, ih h.2]
      rfl

end Library

end Tolkara
