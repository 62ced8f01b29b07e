import Tolkara.Nib.Basic

/-!
# The two readers agree

What the reader at build time accepts is read at run time as well, to the same graph. The converse
fails only for numbers of more than 64 bits, which ten bytes can hold: one reader cuts them, the
other does not. Where the strict reader meets no such number the two answer the same.
-/

namespace Tolkara

open Library

namespace Nib

variable {τ α β : Type} {decode : List UInt8 → Option τ} {data : List UInt8} {n : Varint}
  {heap : ℕ → Bool}
  {offset next v : ℕ}

/-! ## Numbers -/

/-- The first nine rounds cut nothing. -/
theorem payload_mod {shift : ℕ} (hshift : shift ≤ 56) (b : UInt8) :
    b.toNat % 128 * 2 ^ shift % 2 ^ 64 = b.toNat % 128 * 2 ^ shift := by
  have hpow : 2 ^ shift ≤ 2 ^ 56 := Nat.pow_le_pow_right (by decide) hshift
  have hmul : b.toNat % 128 * 2 ^ shift ≤ 127 * 2 ^ 56 := Nat.mul_le_mul (by omega) hpow
  exact Nat.mod_eq_of_lt (by omega)

theorem add_payload_lt {value shift : ℕ} (hvalue : value < 2 ^ shift) (b : UInt8) :
    value + b.toNat % 128 * 2 ^ shift < 2 ^ (shift + 7) := by
  have hpow : 2 ^ (shift + 7) = 128 * 2 ^ shift := by rw [Nat.pow_add, Nat.mul_comm]
  have hmul : b.toNat % 128 * 2 ^ shift ≤ 127 * 2 ^ shift :=
    Nat.mul_le_mul_right _ (by omega)
  omega

/-- Only the tenth round cuts. -/
theorem add_payload_mod {value shift : ℕ} (hvalue : value < 2 ^ shift)
    (hshift : shift ≤ 56 ∨ shift = 63) (b : UInt8) :
    value + b.toNat % 128 * 2 ^ shift % 2 ^ 64 =
      (value + b.toNat % 128 * 2 ^ shift) % 2 ^ 64 := by
  rcases hshift with hshift | rfl
  · have hlt := add_payload_lt hvalue b
    have hpow : 2 ^ (shift + 7) ≤ 2 ^ 63 := Nat.pow_le_pow_right (by decide) (by omega)
    rw [payload_mod hshift]
    exact (Nat.mod_eq_of_lt (by omega)).symm
  · omega

theorem nibVarintLoop_ok {left round value : ℕ} (hround : round + left = 10)
    (hvalue : value < 2 ^ (7 * round))
    (h : varintLoop data left (7 * round) offset value = .ok (v, next)) :
    nibVarintLoop left (7 * round) ⟨data, offset, false⟩ value =
        (v % 2 ^ 64, ⟨data, next, false⟩) ∧
      offset < next ∧ next ≤ data.length := by
  induction left generalizing round offset value with
  | zero => cases h
  | succ left ih =>
      rw [varintLoop] at h
      rw [nibVarintLoop]
      cases hbyte : data[offset]? with
      | none =>
          rw [hbyte] at h
          cases h
      | some byte =>
          obtain ⟨hlt, -⟩ := List.getElem?_eq_some_iff.1 hbyte
          rw [hbyte] at h
          dsimp only at h ⊢
          split_ifs at h ⊢ with hlast
          · cases h
            rw [add_payload_mod hvalue (by omega)]
            exact ⟨rfl, Nat.lt_succ_self _, hlt⟩
          · cases left with
            | zero => cases h
            | succ left =>
                have hround' : round + 1 + (left + 1) = 10 := by omega
                have hnext := @ih (offset + 1) (round + 1) _ hround' (add_payload_lt hvalue byte) h
                rw [payload_mod (by omega)]
                exact ⟨hnext.1, Nat.lt_of_succ_lt hnext.2.1, hnext.2.2⟩

theorem nibVarintLoop_error {left round value : ℕ} {e : NibError} (hround : round + left = 10)
    (hvalue : value < 2 ^ (7 * round))
    (h : varintLoop data left (7 * round) offset value = .error e) :
    (nibVarintLoop left (7 * round) ⟨data, offset, false⟩ value).2.bad = true := by
  induction left generalizing round offset value with
  | zero => rfl
  | succ left ih =>
      rw [varintLoop] at h
      rw [nibVarintLoop]
      cases hbyte : data[offset]? with
      | none => rfl
      | some byte =>
          rw [hbyte] at h
          dsimp only at h ⊢
          split_ifs at h ⊢ with hlast
          cases left with
          | zero => rfl
          | succ left =>
              have hround' : round + 1 + (left + 1) = 10 := by omega
              rw [payload_mod (by omega)]
              exact @ih (offset + 1) (round + 1) _ hround' (add_payload_lt hvalue byte) h

theorem nibVarint_ok (h : varint data offset = .ok (v, next)) :
    nibVarint ⟨data, offset, false⟩ = (v % 2 ^ 64, ⟨data, next, false⟩) ∧
      offset < next ∧ next ≤ data.length :=
  nibVarintLoop_ok (rfl : 0 + 10 = 10) Nat.one_pos h

theorem nibVarint_error {e : NibError} (h : varint data offset = .error e) :
    (nibVarint ⟨data, offset, false⟩).2.bad = true :=
  nibVarintLoop_error (rfl : 0 + 10 = 10) Nat.one_pos h

theorem nibVarintLoop_bad {left shift value : ℕ} {c : AKNibCursor} (h : c.bad = true) :
    (nibVarintLoop left shift c value).2.bad = true := by
  induction left generalizing shift value c with
  | zero => rfl
  | succ left ih =>
      rw [nibVarintLoop]
      split
      · rfl
      · dsimp only
        split
        · exact h
        · exact ih h

theorem nibVarint_bad {c : AKNibCursor} (h : c.bad = true) : (nibVarint c).2.bad = true :=
  nibVarintLoop_bad h

/-- A reader of numbers that gives what `varint` gives, or nothing. -/
def Varint.Careful (n : Varint) : Prop :=
  ∀ data offset r, n data offset = .ok r → varint data offset = .ok r

theorem careful_varint : Varint.Careful varint := fun _ _ _ h => h

theorem strictVarint_ok {r : ℕ × ℕ} :
    strictVarint data offset = .ok r ↔ varint data offset = .ok r ∧ r.1 < 2 ^ 64 := by
  simp only [strictVarint, bind_ok, need_ok, exists_const]
  constructor
  · rintro ⟨a, ha, hlt, h⟩
    cases h
    exact ⟨ha, hlt⟩
  · rintro ⟨ha, hlt⟩
    exact ⟨r, ha, hlt, rfl⟩

theorem careful_strictVarint : Varint.Careful strictVarint :=
  fun _ _ _ h => (strictVarint_ok.1 h).1

theorem strictVarint_error {e : NibError} (h : strictVarint data offset = .error e)
    (he : e ≠ .overlong) : varint data offset = .error e := by
  simp only [strictVarint, bind_error, need_error] at h
  rcases h with h | ⟨r, -, h | ⟨u, -, h⟩⟩
  · exact h
  · exact absurd h.2.symm he
  · cases h

/-! ## Names -/

theorem take_trimmed (l : List UInt8) {length : ℕ} (h : length ≤ l.length) :
    l.take (trimmed l length) = (l.take length).rdropWhile (· = 0) := by
  induction length with
  | zero => rfl
  | succ length ih =>
      have hlt : length < l.length := h
      rw [trimmed, ← List.take_concat_get' l length hlt, List.getD_eq_getElem?_getD,
        List.getElem?_eq_getElem hlt, Option.getD_some]
      split
      · rename_i hzero
        rw [List.rdropWhile_concat_pos _ _ _ (by simp [hzero]), ih hlt.le]
      · rename_i hpos
        rw [List.rdropWhile_concat_neg _ _ _ (by simp [hpos]), List.take_concat_get' l length hlt]

theorem parseString_next {length : ℕ} {x : τ}
    (h : parseString decode data offset length = .ok (x, next)) :
    next = offset + length ∧ next ≤ data.length := by
  simp only [parseString, bind_ok, need_ok, exists_const] at h
  obtain ⟨hle, text, -, h⟩ := h
  cases h
  exact ⟨rfl, hle⟩

theorem nibString_ok {length : ℕ} {x : τ}
    (h : parseString decode data offset length = .ok (x, next)) :
    nibString decode ⟨data, offset, false⟩ length = (some x, ⟨data, next, false⟩) := by
  simp only [parseString, bind_ok, need_ok, obtained_ok, exists_const] at h
  obtain ⟨hle, text, htext, h⟩ := h
  cases h
  have hroom : length ≤ (data.drop offset).length := by
    rw [List.length_drop]
    omega
  rw [nibString, if_neg (by simp only [Bool.false_eq_true, false_or]; omega)]
  dsimp only
  rw [take_trimmed _ hroom, htext]

theorem nibString_error {length : ℕ} {e : NibError} (hoffset : offset ≤ data.length)
    (h : parseString decode data offset length = .error e) :
    (nibString decode ⟨data, offset, false⟩ length).1 = none := by
  simp only [parseString, bind_error, need_error, need_ok, obtained_error, exists_const] at h
  rw [nibString]
  rcases h with ⟨hroom, -⟩ | ⟨hroom, ⟨htext, -⟩ | ⟨text, -, h⟩⟩
  · rw [if_pos (.inr (by dsimp only; omega))]
  · have hle : length ≤ (data.drop offset).length := by
      rw [List.length_drop]
      omega
    rw [if_neg (by simp only [Bool.false_eq_true, false_or]; omega)]
    dsimp only
    rw [take_trimmed _ hle, htext]
  · cases h

/-! ## Values -/

theorem formats_eq (type : ℕ) :
    formats type = if width type = 0 then none else some (width type, scalar type) := by
  by_cases h : type < 11
  · interval_cases type <;> rfl
  · obtain ⟨k, rfl⟩ := Nat.exists_eq_add_of_le' (Nat.le_of_not_lt h)
    rfl

theorem nibData_ok (hheap : ∀ size, heap size = true) (hn : n.Careful)
    (hlength : data.length < 2 ^ 64) {length : ℕ × ℕ} (hnumber : n data offset = .ok length)
    (hroom : length.1 ≤ data.length - length.2) :
    nibData heap ⟨data, offset, false⟩ =
      (some (.data (hexText ((data.drop length.2).take length.1))),
        ⟨data, length.2 + length.1, false⟩) := by
  obtain ⟨hread, -⟩ := nibVarint_ok (hn _ _ _ hnumber)
  have hmod : length.1 % 2 ^ 64 = length.1 := Nat.mod_eq_of_lt (by omega)
  rw [nibData, hread]
  dsimp only
  rw [hmod, if_neg (by simp only [Bool.false_eq_true, false_or]; omega), if_neg (by simp [hheap])]

theorem nibValue_ok (hheap : ∀ size, heap size = true) (hn : n.Careful)
    (hlength : data.length < 2 ^ 64) {x : NibValue} (h : parseValue n data offset = .ok (x, next)) :
    nibValue heap ⟨data, offset, false⟩ = (some x, ⟨data, next, false⟩) := by
  simp only [parseValue, bind_ok, obtained_ok] at h
  obtain ⟨byte, hbyte, h⟩ := h
  rw [nibValue, hbyte]
  dsimp only
  split_ifs at h ⊢
  · cases h
    rfl
  · cases h
    rfl
  · cases h
    rfl
  · simp only [bind_ok, need_ok, exists_const] at h
    obtain ⟨length, hnumber, hroom, h⟩ := h
    cases h
    exact nibData_ok hheap hn hlength hnumber hroom
  · rename_i hbad
    simp only [bind_ok, obtained_ok, need_ok, exists_const, formats_eq] at h
    obtain ⟨format, hformat, hroom, -⟩ := h
    split_ifs at hformat with hwidth
    cases hformat
    dsimp only at hroom
    omega
  · simp only [bind_ok, obtained_ok, need_ok, exists_const, formats_eq] at h
    obtain ⟨format, hformat, hroom, h⟩ := h
    split_ifs at hformat with hwidth
    cases hformat
    cases h
    rfl

theorem parseValue_next (hn : n.Careful) {x : NibValue}
    (h : parseValue n data offset = .ok (x, next)) : next ≤ data.length := by
  simp only [parseValue, bind_ok, obtained_ok] at h
  obtain ⟨byte, hbyte, h⟩ := h
  obtain ⟨hlt, -⟩ := List.getElem?_eq_some_iff.1 hbyte
  split_ifs at h
  · cases h
    exact hlt
  · cases h
    exact hlt
  · cases h
    exact hlt
  · simp only [bind_ok, need_ok, exists_const] at h
    obtain ⟨length, hnumber, hroom, h⟩ := h
    obtain ⟨-, -, hle⟩ := nibVarint_ok (hn _ _ _ hnumber)
    cases h
    omega
  · simp only [bind_ok, need_ok, exists_const] at h
    obtain ⟨format, -, hroom, h⟩ := h
    cases h
    exact hroom

theorem nibData_number_error {e : NibError} (h : strictVarint data offset = .error e)
    (he : e ≠ .overlong) : (nibData heap ⟨data, offset, false⟩).1 = none := by
  rw [nibData, if_pos (.inl (nibVarint_error (strictVarint_error h he)))]

theorem nibData_room_error {length : ℕ × ℕ} (h : strictVarint data offset = .ok length)
    (hroom : ¬length.1 ≤ data.length - length.2) :
    (nibData heap ⟨data, offset, false⟩).1 = none := by
  obtain ⟨hread, hlt⟩ := strictVarint_ok.1 h
  rw [nibData, (nibVarint_ok hread).1]
  dsimp only
  rw [Nat.mod_eq_of_lt hlt, if_pos (.inr (by omega))]

theorem nibValue_error {e : NibError} (h : parseValue strictVarint data offset = .error e)
    (he : e ≠ .overlong) : (nibValue heap ⟨data, offset, false⟩).1 = none := by
  simp only [parseValue, bind_error, obtained_error, obtained_ok] at h
  rw [nibValue]
  rcases h with ⟨hbyte, -⟩ | ⟨byte, hbyte, h⟩
  · rw [hbyte]
  · rw [hbyte]
    dsimp only
    split_ifs at h ⊢
    · cases h
    · cases h
    · cases h
    · simp only [bind_error, need_error, need_ok, exists_const] at h
      rcases h with h | ⟨length, hnumber, ⟨hroom, -⟩ | ⟨-, h⟩⟩
      · exact nibData_number_error h he
      · exact nibData_room_error hnumber hroom
      · cases h
    · rfl
    · rename_i hgood
      rw [not_or, not_lt] at hgood
      simp only [bind_error, obtained_error, obtained_ok, need_error, need_ok, exists_const,
        formats_eq, if_neg hgood.1] at h
      rcases h with ⟨h, -⟩ | ⟨format, hformat, ⟨hroom, -⟩ | ⟨-, h⟩⟩
      · cases h
      · cases hformat
        dsimp only at hroom
        omega
      · cases h

/-! ## Entries -/

/-- What the second reader of entries reads the first reads as well, but for the cut. -/
def Follows (data : List UInt8) (cut : α → β)
    (entry' : List UInt8 → ℕ → Except NibError (α × ℕ))
    (entry : AKNibCursor → Option β × AKNibCursor) : Prop :=
  ∀ offset x next, entry' data offset = .ok (x, next) →
    entry ⟨data, offset, false⟩ = (some (cut x), ⟨data, next, false⟩) ∧ next ≤ data.length

/-- Where the second reader of entries fails, and not for an overlong number, so does the
first. -/
def Refuses (data : List UInt8) (entry' : List UInt8 → ℕ → Except NibError (α × ℕ))
    (entry : AKNibCursor → Option α × AKNibCursor) : Prop :=
  ∀ offset e, offset ≤ data.length → entry' data offset = .error e → e ≠ .overlong →
    (entry ⟨data, offset, false⟩).1 = none ∨ (entry ⟨data, offset, false⟩).2.bad = true

def cutPair (pair : ℕ × NibValue) : ℕ × NibValue := (pair.1 % 2 ^ 64, pair.2)

def cutObject (object : ℕ × ℕ × ℕ) : ℕ × ℕ × ℕ :=
  (object.1 % 2 ^ 64, object.2.1 % 2 ^ 64, object.2.2 % 2 ^ 64)

theorem objectEntry_follows (hn : n.Careful) :
    Follows data cutObject (parseObject n) objectEntry := by
  intro offset x next h
  simp only [parseObject, bind_ok] at h
  obtain ⟨cls, hcls, start, hstart, count, hcount, h⟩ := h
  cases h
  obtain ⟨hclsRead, -⟩ := nibVarint_ok (hn _ _ _ hcls)
  obtain ⟨hstartRead, -⟩ := nibVarint_ok (hn _ _ _ hstart)
  obtain ⟨hcountRead, -, hle⟩ := nibVarint_ok (hn _ _ _ hcount)
  refine ⟨?_, hle⟩
  simp only [objectEntry, hclsRead, hstartRead, hcountRead, cutObject]

theorem keyEntry_follows (hn : n.Careful) (hlength : data.length < 2 ^ 64) :
    Follows data id (parseKey n decode) (keyEntry decode) := by
  intro offset x next h
  simp only [parseKey, bind_ok] at h
  obtain ⟨size, hsize, h⟩ := h
  obtain ⟨hread, -⟩ := nibVarint_ok (hn _ _ _ hsize)
  obtain ⟨hnext, hle⟩ := parseString_next h
  have hmod : size.1 % 2 ^ 64 = size.1 := Nat.mod_eq_of_lt (by omega)
  simp only [keyEntry, hread, hmod]
  exact ⟨nibString_ok h, hle⟩

theorem classEntry_follows (hn : n.Careful) (hlength : data.length < 2 ^ 64) :
    Follows data id (parseClass n decode) (classEntry decode) := by
  intro offset x next h
  simp only [parseClass, bind_ok] at h
  obtain ⟨size, hsize, extras, hextras, h⟩ := h
  obtain ⟨hsizeRead, -⟩ := nibVarint_ok (hn _ _ _ hsize)
  obtain ⟨hextrasRead, -⟩ := nibVarint_ok (hn _ _ _ hextras)
  obtain ⟨hnext, hle⟩ := parseString_next h
  have hsizeMod : size.1 % 2 ^ 64 = size.1 := Nat.mod_eq_of_lt (by omega)
  have hextrasMod : extras.1 % 2 ^ 64 = extras.1 := Nat.mod_eq_of_lt (by omega)
  simp only [classEntry, hsizeRead, hextrasRead, hsizeMod, hextrasMod]
  rw [if_neg (by simp only [Bool.false_eq_true, false_or]; omega), Nat.mul_comm extras.1]
  exact ⟨nibString_ok h, hle⟩

theorem valueEntry_follows (hheap : ∀ size, heap size = true) (hn : n.Careful)
    (hlength : data.length < 2 ^ 64) :
    Follows data cutPair (parsePair n) (valueEntry heap) := by
  intro offset x next h
  simp only [parsePair, bind_ok] at h
  obtain ⟨key, hkey, value, hvalue, h⟩ := h
  cases h
  obtain ⟨hread, -⟩ := nibVarint_ok (hn _ _ _ hkey)
  refine ⟨?_, parseValue_next hn hvalue⟩
  simp only [valueEntry, hread, nibValue_ok hheap hn hlength hvalue, Bool.false_eq_true, if_false,
    Option.map_some, cutPair]

/-! ## Entries under the strict reader -/

theorem Follows.uncut {cut : α → α} {entry' : List UInt8 → ℕ → Except NibError (α × ℕ)}
    {entry : AKNibCursor → Option α × AKNibCursor} (h : Follows data cut entry' entry)
    (hcut : ∀ offset x next, entry' data offset = .ok (x, next) → cut x = x) :
    Follows data id entry' entry := by
  intro offset x next hx
  have hread := h offset x next hx
  rw [hcut offset x next hx] at hread
  exact hread

theorem objectEntry_strict : Follows data id (parseObject strictVarint) objectEntry := by
  refine (objectEntry_follows careful_strictVarint).uncut fun offset x next h => ?_
  simp only [parseObject, bind_ok, strictVarint_ok] at h
  obtain ⟨cls, ⟨-, hcls⟩, start, ⟨-, hstart⟩, count, ⟨-, hcount⟩, h⟩ := h
  cases h
  simp only [cutObject, Nat.mod_eq_of_lt hcls, Nat.mod_eq_of_lt hstart, Nat.mod_eq_of_lt hcount]

theorem valueEntry_strict (hheap : ∀ size, heap size = true) (hlength : data.length < 2 ^ 64) :
    Follows data id (parsePair strictVarint) (valueEntry heap) := by
  refine (valueEntry_follows hheap careful_strictVarint hlength).uncut fun offset x next h => ?_
  simp only [parsePair, bind_ok, strictVarint_ok] at h
  obtain ⟨key, ⟨-, hkey⟩, value, -, h⟩ := h
  cases h
  simp only [cutPair, Nat.mod_eq_of_lt hkey]

theorem objectEntry_refuses : Refuses data (parseObject strictVarint) objectEntry := by
  intro offset e _ h he
  simp only [parseObject, bind_error] at h
  right
  rcases h with h | ⟨cls, hcls, h | ⟨start, hstart, h | ⟨count, -, h⟩⟩⟩
  · exact nibVarint_bad (nibVarint_bad (nibVarint_error (strictVarint_error h he)))
  · simp only [objectEntry, (nibVarint_ok (strictVarint_ok.1 hcls).1).1]
    exact nibVarint_bad (nibVarint_error (strictVarint_error h he))
  · simp only [objectEntry, (nibVarint_ok (strictVarint_ok.1 hcls).1).1,
      (nibVarint_ok (strictVarint_ok.1 hstart).1).1]
    exact nibVarint_error (strictVarint_error h he)
  · cases h

theorem nibString_bad {c : AKNibCursor} {length : ℕ} (h : c.bad = true) :
    (nibString decode c length).1 = none := by
  rw [nibString, if_pos (.inl h)]

theorem keyEntry_refuses : Refuses data (parseKey strictVarint decode) (keyEntry decode) := by
  intro offset e _ h he
  simp only [parseKey, bind_error] at h
  left
  rcases h with h | ⟨size, hsize, h⟩
  · exact nibString_bad (nibVarint_error (strictVarint_error h he))
  · obtain ⟨hvarint, hlt⟩ := strictVarint_ok.1 hsize
    obtain ⟨hread, -, hle⟩ := nibVarint_ok hvarint
    simp only [keyEntry, hread, Nat.mod_eq_of_lt hlt]
    exact nibString_error hle h

theorem classEntry_refuses : Refuses data (parseClass strictVarint decode) (classEntry decode) := by
  intro offset e _ h he
  simp only [parseClass, bind_error] at h
  left
  rw [classEntry]
  rcases h with h | ⟨size, hsize, h | ⟨extras, hextras, h⟩⟩
  · rw [if_pos (.inl (nibVarint_bad (nibVarint_error (strictVarint_error h he))))]
  · rw [(nibVarint_ok (strictVarint_ok.1 hsize).1).1]
    dsimp only
    rw [if_pos (.inl (nibVarint_error (strictVarint_error h he)))]
  · obtain ⟨hsizeVarint, hsizeLt⟩ := strictVarint_ok.1 hsize
    obtain ⟨hextrasVarint, hextrasLt⟩ := strictVarint_ok.1 hextras
    obtain ⟨hextrasRead, -, hle⟩ := nibVarint_ok hextrasVarint
    simp only [(nibVarint_ok hsizeVarint).1, hextrasRead, Nat.mod_eq_of_lt hsizeLt,
      Nat.mod_eq_of_lt hextrasLt, Bool.false_eq_true, false_or]
    by_cases hroom : (data.length - extras.2) / 4 < extras.1
    · rw [if_pos hroom]
    · rw [if_neg hroom, Nat.mul_comm extras.1]
      exact nibString_error (by omega) h

theorem valueEntry_refuses : Refuses data (parsePair strictVarint) (valueEntry heap) := by
  intro offset e _ h he
  simp only [parsePair, bind_error] at h
  left
  rw [valueEntry]
  dsimp only
  rcases h with h | ⟨key, hkey, h | ⟨value, -, h⟩⟩
  · rw [if_pos (nibVarint_error (strictVarint_error h he))]
  · rw [(nibVarint_ok (strictVarint_ok.1 hkey).1).1]
    simp only [Bool.false_eq_true, if_false, nibValue_error h he, Option.map_none]
  · cases h

/-! ## Tables -/

section Tables

variable {cut : α → β} {entry' : List UInt8 → ℕ → Except NibError (α × ℕ)}
  {entry : AKNibCursor → Option β × AKNibCursor}

theorem tableLoop_ok (hf : Follows data cut entry' entry) {left : ℕ} {done table : List α}
    (h : parseLoop entry' data left offset done = .ok table) :
    tableLoop entry left ⟨data, offset, false⟩ (done.map cut) = some (table.map cut) := by
  induction left generalizing offset done with
  | zero =>
      cases h
      rfl
  | succ left ih =>
      simp only [parseLoop, bind_ok] at h
      obtain ⟨⟨x, next⟩, hx, h⟩ := h
      have hrest := ih h
      rw [List.map_append, List.map_singleton] at hrest
      rw [tableLoop, (hf offset x next hx).1]
      exact hrest

theorem tableLoop_error {entry : AKNibCursor → Option α × AKNibCursor}
    (hf : Follows data id entry' entry) (hr : Refuses data entry' entry) {left : ℕ}
    {done : List α} {e : NibError} (hoffset : offset ≤ data.length)
    (h : parseLoop entry' data left offset done = .error e) (he : e ≠ .overlong) :
    tableLoop entry left ⟨data, offset, false⟩ done = none := by
  induction left generalizing offset done with
  | zero => cases h
  | succ left ih =>
      simp only [parseLoop, bind_error] at h
      rw [tableLoop]
      rcases h with h | ⟨⟨x, next⟩, hx, h⟩
      · have hfail := hr offset e hoffset h he
        revert hfail
        rcases entry ⟨data, offset, false⟩ with ⟨_ | y, c⟩
        · intro _
          rfl
        · rintro (hnone | hbad)
          · cases hnone
          · exact if_pos hbad
      · obtain ⟨hread, hle⟩ := hf offset x next hx
        rw [hread]
        exact ih hle h

theorem parseLoop_length {left : ℕ} {done table : List α}
    (h : parseLoop entry' data left offset done = .ok table) :
    table.length = done.length + left := by
  induction left generalizing offset done with
  | zero =>
      cases h
      rfl
  | succ left ih =>
      simp only [parseLoop, bind_ok] at h
      obtain ⟨x, -, h⟩ := h
      rw [ih h, List.length_append, List.length_singleton]
      omega

theorem readTable_ok (hf : Follows data cut entry' entry) {kind : ℕ} {table : List α}
    (h : parseTable data kind entry' = .ok table) :
    readTable data kind entry = some (table.map cut) ∧ table.length ≤ 100000 := by
  simp only [parseTable, bind_ok, need_ok, exists_const] at h
  obtain ⟨⟨hcount, hlow, hhigh⟩, h⟩ := h
  have hlength := parseLoop_length h
  rw [List.length_nil] at hlength
  refine ⟨?_, by omega⟩
  rw [readTable, if_neg (by omega)]
  exact tableLoop_ok hf h

theorem readTable_error {entry : AKNibCursor → Option α × AKNibCursor}
    (hf : Follows data id entry' entry) (hr : Refuses data entry' entry) {kind : ℕ} {e : NibError}
    (h : parseTable data kind entry' = .error e) (he : e ≠ .overlong) :
    readTable data kind entry = none := by
  simp only [parseTable, bind_error, need_error, need_ok, exists_const] at h
  rw [readTable]
  rcases h with ⟨hbad, -⟩ | ⟨⟨hcount, hlow, hhigh⟩, h⟩
  · rw [if_pos (by omega)]
  · rw [if_neg (by omega)]
    exact tableLoop_error hf hr hhigh h he

end Tables

/-! ## The graph -/

section Graph

variable {keys classes : List τ} {values : List (ℕ × NibValue)} {objectCount : ℕ}

theorem fieldLoop_eq {start count : ℕ} {done : List (τ × NibValue)}
    (hroom : start + count ≤ values.length) :
    fieldLoop keys values objectCount count start done =
      (parseFields keys objectCount ((values.drop start).take count) done).toOption := by
  induction count generalizing start done with
  | zero => rfl
  | succ count ih =>
      have hlt : start < values.length := by omega
      rw [List.drop_eq_getElem_cons hlt, List.take_succ_cons, parseFields, fieldLoop,
        List.getElem?_eq_getElem hlt, toOption_bind, toOption_obtained]
      change (keys[(values[start]).1]?).bind _ = _
      congr 1
      funext key
      rw [toOption_bind, toOption_need]
      cases hdangles : dangles (values[start]).2 objectCount
      · exact ih (by omega)
      · rfl

theorem resolveObject_eq (object : ℕ × ℕ × ℕ) :
    resolveObject keys values classes objectCount object =
      (parseGraphObject keys values classes objectCount object).toOption := by
  rw [resolveObject, parseGraphObject, toOption_bind, toOption_obtained]
  change (classes[object.1]?).bind _ = _
  congr 1
  funext cls
  rw [toOption_bind, toOption_need]
  by_cases hroom : object.2.1 ≤ values.length ∧ object.2.2 ≤ values.length - object.2.1
  · rw [if_neg (by omega), if_pos hroom, Option.bind_some, toOption_bind,
      fieldLoop_eq (by omega)]
    rfl
  · rw [if_pos (by omega), if_neg hroom]
    rfl

theorem mapM_resolveObject (objects : List (ℕ × ℕ × ℕ)) :
    objects.mapM (resolveObject keys values classes objectCount) =
      (objects.mapM (parseGraphObject keys values classes objectCount)).toOption := by
  rw [toOption_mapM]
  exact congrArg (List.mapM · objects) (funext resolveObject_eq)

/-- A number that is used names an entry of a table, so the cut leaves it. -/
theorem getElem?_cut {l : List α} (hlength : l.length ≤ 100000) {i : ℕ} {a : α}
    (h : l[i]? = some a) : l[i % 2 ^ 64]? = some a := by
  obtain ⟨hlt, -⟩ := List.getElem?_eq_some_iff.1 h
  rw [Nat.mod_eq_of_lt (by omega), h]

theorem fieldLoop_cut (hkeys : keys.length ≤ 100000) {start count : ℕ}
    {done fields : List (τ × NibValue)}
    (h : fieldLoop keys values objectCount count start done = some fields) :
    fieldLoop keys (values.map cutPair) objectCount count start done = some fields := by
  induction count generalizing start done with
  | zero => exact h
  | succ count ih =>
      rw [fieldLoop] at h ⊢
      obtain ⟨pair, hpair, h⟩ := Option.bind_eq_some_iff.1 h
      obtain ⟨key, hkey, h⟩ := Option.bind_eq_some_iff.1 h
      rw [List.getElem?_map, hpair]
      change (keys[pair.1 % 2 ^ 64]?).bind _ = _
      rw [getElem?_cut hkeys hkey, Option.bind_some]
      change (if dangles pair.2 objectCount = true then _ else _) = _
      split_ifs at h ⊢
      exact ih h

theorem resolveObject_cut (hkeys : keys.length ≤ 100000) (hvalues : values.length ≤ 100000)
    (hclasses : classes.length ≤ 100000) {object : ℕ × ℕ × ℕ} {x : NibObject τ}
    (h : resolveObject keys values classes objectCount object = some x) :
    resolveObject keys (values.map cutPair) classes objectCount (cutObject object) = some x := by
  rw [resolveObject] at h ⊢
  obtain ⟨cls, hcls, h⟩ := Option.bind_eq_some_iff.1 h
  change (classes[object.1 % 2 ^ 64]?).bind _ = _
  rw [getElem?_cut hclasses hcls, Option.bind_some]
  split_ifs at h with hroom
  obtain ⟨fields, hfields, h⟩ := Option.bind_eq_some_iff.1 h
  have hstart : (cutObject object).2.1 = object.2.1 := Nat.mod_eq_of_lt (by omega)
  have hcount : (cutObject object).2.2 = object.2.2 := Nat.mod_eq_of_lt (by omega)
  rw [hstart, hcount, List.length_map, if_neg hroom, fieldLoop_cut hkeys hfields]
  exact h

theorem mapM_cut {γ : Type} {f : α → Option γ} {f' : β → Option γ} {cut : α → β}
    (hf : ∀ a b, f a = some b → f' (cut a) = some b) {l : List α} {bs : List γ}
    (h : l.mapM f = some bs) : (l.map cut).mapM f' = some bs := by
  induction l generalizing bs with
  | nil => exact h
  | cons a l ih =>
      rw [List.mapM_cons] at h
      obtain ⟨b, hb, h⟩ := Option.bind_eq_some_iff.1 h
      obtain ⟨rest, hrest, h⟩ := Option.bind_eq_some_iff.1 h
      rw [List.map_cons, List.mapM_cons, hf a b hb, ih hrest]
      exact h

end Graph

/-! ## The strict reader and the plain one -/

theorem strictVarint_same : SameUnless .overlong (strictVarint data offset)
    (varint data offset) := by
  unfold strictVarint need
  cases hn : varint data offset with
  | error e => exact .inr rfl
  | ok r =>
      change SameUnless _ ((if r.1 < 2 ^ 64 then Except.ok () else _) >>= fun _ => _) _
      split
      · exact .inr rfl
      · exact .inl rfl

theorem parseObject_same : SameUnless .overlong (parseObject strictVarint data offset)
    (parseObject varint data offset) :=
  strictVarint_same.bind fun _ => strictVarint_same.bind fun _ => strictVarint_same.bind fun _ =>
    .refl _

theorem parseKey_same : SameUnless .overlong (parseKey strictVarint decode data offset)
    (parseKey varint decode data offset) :=
  strictVarint_same.bind fun _ => .refl _

theorem parseClass_same : SameUnless .overlong (parseClass strictVarint decode data offset)
    (parseClass varint decode data offset) :=
  strictVarint_same.bind fun _ => strictVarint_same.bind fun _ => .refl _

theorem parseValue_same : SameUnless .overlong (parseValue strictVarint data offset)
    (parseValue varint data offset) :=
  (SameUnless.refl _).bind fun _ => .ite (.refl _) <| .ite (.refl _) <| .ite (.refl _) <|
    .ite (strictVarint_same.bind fun _ => .refl _) (.refl _)

theorem parsePair_same : SameUnless .overlong (parsePair strictVarint data offset)
    (parsePair varint data offset) :=
  strictVarint_same.bind fun _ => parseValue_same.bind fun _ => .refl _

theorem parseTable_same {entry entry' : List UInt8 → ℕ → Except NibError (α × ℕ)}
    (h : ∀ offset, SameUnless .overlong (entry data offset) (entry' data offset)) {kind : ℕ} :
    SameUnless .overlong (parseTable data kind entry) (parseTable data kind entry') := by
  have hloop : ∀ left offset (done : List α), SameUnless .overlong
      (parseLoop entry data left offset done) (parseLoop entry' data left offset done) := by
    intro left
    induction left with
    | zero => exact fun _ _ => .refl _
    | succ left ih => exact fun offset done => (h offset).bind fun x => ih x.2 _
  exact (SameUnless.refl _).bind fun _ => hloop _ _ _

theorem parseWith_same : SameUnless .overlong (parseWith strictVarint decode data)
    (parseWith varint decode data) :=
  (SameUnless.refl _).bind fun _ => (SameUnless.refl _).bind fun _ =>
    (parseTable_same fun _ => parseObject_same).bind fun _ =>
    (parseTable_same fun _ => parseKey_same).bind fun _ =>
    (parseTable_same fun _ => parsePair_same).bind fun _ =>
    (parseTable_same fun _ => parseClass_same).bind fun _ => .refl _

/-! ## Archives -/

theorem akReadNibArchive_ok (hheap : ∀ size, heap size = true)
    (hlength : data.length < 2 ^ 64) {graph : List (NibObject τ)}
    (h : parse decode data = .ok graph) : akReadNibArchive heap decode data = some graph := by
  simp only [parse, parseWith, bind_ok, need_ok, exists_const] at h
  obtain ⟨⟨hfull, hmagic⟩, ⟨hversion, hrevision⟩, objects, hobjects, keys, hkeys, values, hvalues,
    classes, hclasses, h⟩ := h
  obtain ⟨hobjectsRead, -⟩ := readTable_ok (objectEntry_follows careful_varint) hobjects
  obtain ⟨hkeysRead, hkeysLength⟩ := readTable_ok (keyEntry_follows careful_varint hlength) hkeys
  obtain ⟨hvaluesRead, hvaluesLength⟩ :=
    readTable_ok (valueEntry_follows hheap careful_varint hlength) hvalues
  obtain ⟨hclassesRead, hclassesLength⟩ :=
    readTable_ok (classEntry_follows careful_varint hlength) hclasses
  rw [List.map_id] at hkeysRead hclassesRead
  have hgraph : objects.mapM (resolveObject keys values classes objects.length) = some graph := by
    rw [mapM_resolveObject]
    exact toOption_some.2 h
  have hcut : (objects.map cutObject).mapM (resolveObject keys (values.map cutPair) classes
      objects.length) = some graph :=
    mapM_cut (fun _ _ => resolveObject_cut hkeysLength hvaluesLength hclassesLength) hgraph
  rw [akReadNibArchive, if_neg (not_or.2 ⟨by omega, not_not.2 hmagic⟩),
    if_neg (by omega), hobjectsRead, hkeysRead, hvaluesRead, hclassesRead]
  change (objects.map cutObject).mapM (resolveObject keys _ classes _) = _
  rw [List.length_map]
  exact hcut

theorem akReadNibArchive_error (hheap : ∀ size, heap size = true)
    (hlength : data.length < 2 ^ 64) {e : NibError}
    (h : parseWith strictVarint decode data = .error e) (he : e ≠ .overlong) :
    akReadNibArchive heap decode data = none := by
  simp only [parseWith, bind_error, need_error, need_ok, exists_const] at h
  have hkeysFollow : Follows data id (parseKey strictVarint decode) (keyEntry decode) :=
    keyEntry_follows careful_strictVarint hlength
  have hclassesFollow : Follows data id (parseClass strictVarint decode) (classEntry decode) :=
    classEntry_follows careful_strictVarint hlength
  rw [akReadNibArchive]
  rcases h with ⟨hbad, -⟩ | ⟨⟨hfull, hmagic⟩, h⟩
  · rw [if_pos (by rwa [← Nat.not_le, ← not_and_or])]
  rw [if_neg (not_or.2 ⟨by omega, not_not.2 hmagic⟩)]
  rcases h with ⟨hbad, -⟩ | ⟨⟨hversion, hrevision⟩, h⟩
  · rw [if_pos (by omega)]
  rw [if_neg (by omega)]
  rcases h with h | ⟨objects, hobjects, h⟩
  · rw [readTable_error objectEntry_strict objectEntry_refuses h he]
    rfl
  rw [(readTable_ok objectEntry_strict hobjects).1]
  rcases h with h | ⟨keys, hkeys, h⟩
  · rw [readTable_error hkeysFollow keyEntry_refuses h he]
    rfl
  rw [(readTable_ok hkeysFollow hkeys).1]
  rcases h with h | ⟨values, hvalues, h⟩
  · rw [readTable_error (valueEntry_strict hheap hlength) valueEntry_refuses h he]
    rfl
  rw [(readTable_ok (valueEntry_strict hheap hlength) hvalues).1]
  rcases h with h | ⟨classes, hclasses, h⟩
  · rw [readTable_error hclassesFollow classEntry_refuses h he]
    rfl
  rw [(readTable_ok hclassesFollow hclasses).1]
  simp only [List.map_id]
  change objects.mapM (resolveObject keys values classes objects.length) = none
  rw [mapM_resolveObject, h]
  rfl

/-- What the second reader accepts the first accepts, as the same graph. Where the second meets
no number of more than 64 bits, they answer the same. -/
theorem nibReaders_agree (decode : List UInt8 → Option τ) (data : List UInt8)
    (hheap : ∀ size, heap size = true) (hlength : data.length < 2 ^ 64) :
    (∀ graph, parse decode data = .ok graph → akReadNibArchive heap decode data = some graph) ∧
      (parseWith strictVarint decode data ≠ .error .overlong →
        akReadNibArchive heap decode data = (parse decode data).toOption) := by
  refine ⟨fun graph h => akReadNibArchive_ok hheap hlength h, fun hshort => ?_⟩
  have hsame : parseWith strictVarint decode data = parse decode data :=
    parseWith_same.resolve_left hshort
  cases hparse : parse decode data with
  | ok graph => exact akReadNibArchive_ok hheap hlength hparse
  | error e =>
      refine akReadNibArchive_error hheap hlength (hsame.trans hparse) ?_
      rintro rfl
      exact hshort (hsame.trans hparse)

/-- The header of an archive of one object, one key, one value and one class, with the offsets of
their tables. -/
def smallHeader (objects keys values classes : UInt8) : List UInt8 :=
  magic ++ [1, 0, 0, 0, 9, 0, 0, 0] ++
    [objects, keys, values, classes].flatMap fun offset => [1, 0, 0, 0, offset, 0, 0, 0]

/-- An object of class `N` whose field `k` refers to it. -/
def selfArchive : List UInt8 :=
  smallHeader 50 53 55 61 ++
    [0x80, 0x80, 0x81, 0x81, 107, 0x80, 10, 0, 0, 0, 0, 0x81, 0x80, 78]

theorem nibReaders_agree_self :
    akReadNibArchive (fun _ => true) some selfArchive = some [⟨[78], [([107], .ref 0)]⟩] :=
  (nibReaders_agree some selfArchive (fun _ => rfl) (by decide)).1 _ (by decide)

/-- The same with the class `2 ^ 64`: the first reader takes it for `0`. -/
example :
    let data := smallHeader 50 62 64 70 ++
      [0, 0, 0, 0, 0, 0, 0, 0, 0, 0x82, 0x80, 0x81, 0x81, 107, 0x80, 10, 0, 0, 0, 0,
        0x81, 0x80, 78]
    akReadNibArchive (fun _ => true) some data = some [⟨[78], [([107], .ref 0)]⟩] ∧
      parse some data = .error .invalidObject := by
  decide

end Nib

end Tolkara
