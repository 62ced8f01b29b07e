import Tolkara.Metal.LibraryContainer

/-!
# What is derived from a library

`Container` is the format: a header, sections one behind the other and records of
functions, which are tags and name a module in the code section. Whatever the bytes are, the
derivation reads what is there and ends (`localMetalLibraryData_failsOnly`), and it
derives nothing but from a container.
-/

namespace Tolkara

open Library

namespace Metal

/-! ## Reading -/

theorem plus_of_lt {a b : ℕ} (h : a + b < 2 ^ 64) : plus a b = a + b := Nat.mod_eq_of_lt h

theorem minus_of_le {a b : ℕ} (h : b ≤ a) (ha : a < 2 ^ 64) : minus a b = a - b := by
  rw [minus, show a + 2 ^ 64 - b = a - b + 2 ^ 64 by omega, Nat.add_mod_right,
    Nat.mod_eq_of_lt (by omega)]

section

variable {b l : List UInt8} {p n v : ℕ}

theorem bytesAt_ok :
    bytesAt b p n = .ok l ↔ p + n ≤ b.length ∧ (b.drop p).take n = l := by
  rw [bytesAt, obtained_ok]
  by_cases h : p + n ≤ b.length
  · rw [if_pos h, Option.some.injEq]
    exact ⟨fun heq => ⟨h, heq⟩, fun heq => heq.2⟩
  · rw [if_neg h]
    exact ⟨nofun, fun heq => absurd heq.1 h⟩

theorem number_ok :
    number b p n = .ok v ↔ p + n ≤ b.length ∧ littleEndian ((b.drop p).take n) = v := by
  simp only [number, bind_ok, bytesAt_ok, Except.ok.injEq]
  constructor
  · rintro ⟨_, ⟨h, rfl⟩, heq⟩
    exact ⟨h, heq⟩
  · rintro ⟨h, heq⟩
    exact ⟨_, ⟨h, rfl⟩, heq⟩

theorem byteAt_ok {x : UInt8} : byteAt b p = .ok x ↔ b[p]? = some x := obtained_ok

theorem bytesAt_failsOnly (h : p + n ≤ b.length) : FailsOnly .refused (bytesAt b p n) := by
  rw [bytesAt, if_pos h]
  exact .ok _

theorem number_failsOnly (h : p + n ≤ b.length) : FailsOnly .refused (number b p n) :=
  (bytesAt_failsOnly h).bind fun _ _ => .ok _

theorem byteAt_failsOnly (h : p < b.length) : FailsOnly .refused (byteAt b p) := by
  rw [byteAt, List.getElem?_eq_getElem h]
  exact .ok _

theorem take_append_drop_add (b : List UInt8) (p n : ℕ) :
    (b.drop p).take n ++ b.drop (p + n) = b.drop p := by
  rw [← List.drop_drop, List.take_append_drop]

end

/-! ## Sections -/

/-- The sections are in the file, one behind the other, and there is room for a number in the
first. -/
structure Sections.InOrder (s : Sections) (length : ℕ) : Prop where
  header_le : 88 ≤ s.table
  count_le : s.table + 4 ≤ s.pub
  table_le : s.table + s.tableSize ≤ s.pub
  pub_le : s.pub + s.pubSize ≤ s.priv
  priv_le : s.priv + s.privSize ≤ s.code
  code_le : s.code + s.codeSize ≤ length

theorem sectionFits_iff {offset size length : ℕ} (hlen : length < 2 ^ 64) :
    sectionFits offset size length = true ↔ 88 ≤ offset ∧ offset + size ≤ length := by
  rw [sectionFits, decide_eq_true_eq]
  refine and_congr_right fun _ => ⟨?_, fun h => ?_⟩
  · rintro ⟨h1, h2⟩
    rw [minus_of_le h1 hlen] at h2
    omega
  · rw [minus_of_le (by omega) hlen]
    omega

theorem Sections.inOrder {s : Sections} {length : ℕ} (hlen : length < 2 ^ 64)
    (h : s.ordered length = true) : s.InOrder length := by
  simp only [Sections.ordered, Bool.and_eq_true, sectionFits_iff hlen, Bool.not_eq_true',
    decide_eq_false_iff_not, not_or, not_lt] at h
  obtain ⟨⟨⟨⟨h1, h2⟩, h3⟩, h4⟩, h5, h6, h7, h8, h9, h10, h11⟩ := h
  rw [minus_of_le (by omega) (by omega)] at h6 h7 h9 h11
  exact ⟨h1.1, by omega, by omega, by omega, by omega, h4.2⟩

/-! ## Tags -/

/-- A tag with its name, its size and its value. -/
structure Tag where
  name : List UInt8
  size : List UInt8
  value : List UInt8
  name_length : name.length = 4
  size_length : size.length = 2
  size_eq : littleEndian size = value.length

def Tag.bytes (t : Tag) : List UInt8 := t.name ++ (t.size ++ t.value)

theorem Tag.length_bytes (t : Tag) : t.bytes.length = 6 + t.value.length := by
  rw [Tag.bytes, List.length_append, List.length_append, t.name_length, t.size_length]
  omega

theorem fieldOf_name (f : Field) : fieldOf f.name = some f := by cases f <;> decide

theorem fieldOf_eq_some {tag : List UInt8} {f : Field} : fieldOf tag = some f ↔ tag = f.name := by
  constructor
  · intro h
    unfold fieldOf at h
    split_ifs at h with h1 h2 h3 h4 <;> cases h <;> assumption
  · rintro rfl
    exact fieldOf_name f

/-- What is known of a field after some tags: its tag if it is found there, and that there is none
if it was found before. -/
def Recorded (b : List UInt8) (tags : List Tag) (f : Field) (before after : Option ℕ) : Prop :=
  match before with
  | some q => after = some q ∧ ∀ t ∈ tags, t.name ≠ f.name
  | none => ∀ q, after = some q → q + f.required ≤ b.length ∧
      ∃ t, tags.filter (fun t => t.name = f.name) = [t] ∧ t.value = (b.drop q).take f.required

theorem recorded_nil (b : List UInt8) (f : Field) (q : Option ℕ) : Recorded b [] f q q := by
  cases q with
  | none => exact nofun
  | some q => exact ⟨rfl, nofun⟩

theorem Recorded.other {b : List UInt8} {tags : List Tag} {f : Field} {before after : Option ℕ}
    (h : Recorded b tags f before after) {t : Tag} (hname : t.name ≠ f.name) :
    Recorded b (t :: tags) f before after := by
  cases before with
  | some q => exact ⟨h.1, List.forall_mem_cons.2 ⟨hname, h.2⟩⟩
  | none =>
      intro q hq
      obtain ⟨hle, u, hfilter, hvalue⟩ := h q hq
      refine ⟨hle, u, ?_, hvalue⟩
      rw [List.filter_cons, if_neg (by simpa using hname)]
      exact hfilter

theorem Recorded.own {b : List UInt8} {tags : List Tag} {f : Field} {q : ℕ} {after : Option ℕ}
    (h : Recorded b tags f (some q) after) {t : Tag} (hname : t.name = f.name)
    (hle : q + f.required ≤ b.length) (hvalue : t.value = (b.drop q).take f.required) :
    Recorded b (t :: tags) f none after := by
  intro q' hq'
  obtain ⟨hafter, hnone⟩ := h
  obtain rfl : q = q' := Option.some.inj (hafter.symm.trans hq')
  refine ⟨hle, t, ?_, hvalue⟩
  rw [List.filter_cons, if_pos (by simpa using hname)]
  have hempty : tags.filter (fun t => t.name = f.name) = [] := by
    rw [List.filter_eq_nil_iff]
    intro u hu
    simpa using hnone u hu
  rw [hempty]

/-! ## The loop over the tags -/

section

variable {b : List UInt8} {stop : ℕ}

theorem exists_tag {pos n : ℕ} (hn : littleEndian ((b.drop (pos + 4)).take 2) = n)
    (hle : pos + 6 + n ≤ b.length) :
    ∃ t : Tag, t.name = (b.drop pos).take 4 ∧ t.value = (b.drop (pos + 6)).take n ∧
      b.drop pos = t.bytes ++ b.drop (pos + 6 + n) := by
  refine ⟨⟨(b.drop pos).take 4, (b.drop (pos + 4)).take 2, (b.drop (pos + 6)).take n, ?_, ?_, ?_⟩,
    rfl, rfl, ?_⟩
  · rw [List.length_take, List.length_drop]
    omega
  · rw [List.length_take, List.length_drop]
    omega
  · rw [hn, List.length_take, List.length_drop]
    omega
  · rw [Tag.bytes, List.append_assoc, List.append_assoc, take_append_drop_add,
      take_append_drop_add b (pos + 4) 2, take_append_drop_add]

theorem tagLoop_failsOnly (hstop : stop ≤ b.length) (hlen : b.length < 2 ^ 64) (fuel : ℕ) :
    ∀ (pos : ℕ) (found : Field → Option ℕ), pos ≤ stop → stop - pos < fuel →
      FailsOnly .refused (tagLoop b stop fuel pos found) := by
  induction fuel with
  | zero =>
      intro pos found _ hfuel
      omega
  | succ fuel ih =>
      intro pos found hpos hfuel
      rw [tagLoop]
      refine .ite (fun hmore => ?_) fun _ => .ok _
      rw [minus_of_le hpos (by omega)] at hmore
      refine (bytesAt_failsOnly (by omega)).bind fun tag _ => ?_
      dsimp only
      rw [plus_of_lt (by omega)]
      refine .ite (fun _ => .ok _) fun _ => (FailsOnly.need _).bind fun _ htwo => ?_
      rw [need_ok, minus_of_le (by omega) (by omega)] at htwo
      refine (number_failsOnly (by omega)).bind fun n _ => ?_
      rw [plus_of_lt (by omega)]
      refine (FailsOnly.need _).bind fun _ hn => ?_
      rw [need_ok, minus_of_le (by omega) (by omega)] at hn
      rw [plus_of_lt (by omega)]
      cases fieldOf tag with
      | none => exact ih _ _ (by omega) (by omega)
      | some field => exact (FailsOnly.need _).bind fun _ _ => ih _ _ (by omega) (by omega)

theorem tagLoop_ok (hstop : stop ≤ b.length) (hlen : b.length < 2 ^ 64) (fuel : ℕ) :
    ∀ (pos : ℕ) (found : Field → Option ℕ) (w : Walk), pos ≤ stop →
      tagLoop b stop fuel pos found = .ok w →
      pos ≤ w.pos ∧ w.pos ≤ stop ∧ (w.terminated = true → ∃ tags : List Tag,
        b.drop pos = tags.flatMap Tag.bytes ++ (endTag ++ b.drop w.pos) ∧
          (∀ t ∈ tags, t.name ≠ endTag) ∧ ∀ f, Recorded b tags f (found f) (w.found f)) := by
  induction fuel with
  | zero =>
      intro pos found w _ h
      cases h
  | succ fuel ih =>
      intro pos found w hpos h
      rw [tagLoop] at h
      by_cases hmore : 4 ≤ minus stop pos
      swap
      · rw [if_neg hmore] at h
        cases h
        exact ⟨le_rfl, hpos, nofun⟩
      rw [if_pos hmore] at h
      rw [minus_of_le hpos (by omega)] at hmore
      obtain ⟨tag, htag, h⟩ := bind_ok.1 h
      obtain ⟨-, rfl⟩ := bytesAt_ok.1 htag
      dsimp only at h
      rw [plus_of_lt (by omega)] at h
      by_cases hend : (b.drop pos).take 4 = endTag
      · rw [if_pos hend] at h
        cases h
        refine ⟨by dsimp only; omega, by dsimp only; omega, fun _ => ⟨[], ?_, nofun, ?_⟩⟩
        · dsimp only
          rw [← hend, take_append_drop_add]
          rfl
        · exact fun f => recorded_nil b f _
      rw [if_neg hend] at h
      obtain ⟨_, htwo, h⟩ := bind_ok.1 h
      rw [need_ok, minus_of_le (by omega) (by omega)] at htwo
      obtain ⟨n, hn, h⟩ := bind_ok.1 h
      rw [plus_of_lt (by omega)] at h
      obtain ⟨_, hfits, h⟩ := bind_ok.1 h
      rw [need_ok, minus_of_le (by omega) (by omega)] at hfits
      rw [plus_of_lt (by omega)] at h
      obtain ⟨t, hname, hvalue, hbytes⟩ := exists_tag (number_ok.1 hn).2 (by omega)
      have hcons : ∀ tags : List Tag,
          b.drop (pos + 4 + 2 + n) = tags.flatMap Tag.bytes ++ (endTag ++ b.drop w.pos) →
          (∀ t ∈ tags, t.name ≠ endTag) →
          b.drop pos = (t :: tags).flatMap Tag.bytes ++ (endTag ++ b.drop w.pos) ∧
            ∀ u ∈ t :: tags, u.name ≠ endTag := by
        intro tags htags hnames
        rw [hbytes, List.flatMap_cons, List.append_assoc, ← htags]
        exact ⟨rfl, List.forall_mem_cons.2 ⟨by rw [hname]; exact hend, hnames⟩⟩
      cases hfield : fieldOf ((b.drop pos).take 4) with
      | none =>
          rw [hfield] at h
          obtain ⟨h1, h2, h3⟩ := ih _ _ _ (by omega) h
          refine ⟨by omega, h2, fun hw => ?_⟩
          obtain ⟨tags, htags, hnames, hfound⟩ := h3 hw
          obtain ⟨hall, hall'⟩ := hcons tags htags hnames
          refine ⟨t :: tags, hall, hall', fun f => (hfound f).other ?_⟩
          intro heq
          rw [hname] at heq
          rw [heq, fieldOf_name] at hfield
          cases hfield
      | some field =>
          rw [hfield] at h
          obtain ⟨_, hneed, h⟩ := bind_ok.1 h
          obtain ⟨hnone, hsize⟩ := need_ok.1 hneed
          obtain ⟨h1, h2, h3⟩ := ih _ _ _ (by omega) h
          refine ⟨by omega, h2, fun hw => ?_⟩
          obtain ⟨tags, htags, hnames, hfound⟩ := h3 hw
          obtain ⟨hall, hall'⟩ := hcons tags htags hnames
          refine ⟨t :: tags, hall, hall', fun f => ?_⟩
          have hown : t.name = field.name := hname.trans (fieldOf_eq_some.1 hfield)
          by_cases hf : f = field
          · subst hf
            have hrec := hfound f
            rw [Function.update_self] at hrec
            rw [hnone]
            exact hrec.own hown (by omega) (by rw [hvalue, hsize])
          · have hrec := hfound f
            rw [Function.update_of_ne hf] at hrec
            refine hrec.other fun heq => hf ?_
            have hsame := (fieldOf_name f).symm.trans (congrArg fieldOf (heq.symm.trans hown))
            exact Option.some.inj (hsame.trans (fieldOf_name field))

end

/-! ## Modules -/

/-- A wrapper of bitcode, which says where the bitcode is. -/
structure IsWrapper (m : List UInt8) : Prop where
  length_le : 24 ≤ m.length
  magic : littleEndian (m.take 4) = 0x0b17c0de
  version : littleEndian ((m.drop 4).take 4) = 0
  start_le : 20 ≤ littleEndian ((m.drop 8).take 4)
  bitcode_le : 4 ≤ littleEndian ((m.drop 12).take 4)
  fits : littleEndian ((m.drop 8).take 4) + littleEndian ((m.drop 12).take 4) ≤ m.length
  bitcode : (m.drop (littleEndian ((m.drop 8).take 4))).take 4 = [0x42, 0x43, 0xC0, 0xDE]

theorem take_drop_take {b : List UInt8} {p m o n : ℕ} (h : o + n ≤ m) :
    (((b.drop p).take m).drop o).take n = (b.drop (p + o)).take n := by
  rw [List.drop_take, List.take_take, List.drop_drop, min_eq_left (by omega)]

section

variable {b : List UInt8} {module n : ℕ}

theorem checkModule_failsOnly (hn : 24 ≤ n) (hle : module + n ≤ b.length)
    (hlen : b.length < 2 ^ 64) : FailsOnly .refused (checkModule b module n) := by
  refine (number_failsOnly (by omega)).bind fun start _ => ?_
  refine (number_failsOnly (by omega)).bind fun bitcode _ => ?_
  refine (number_failsOnly (by omega)).bind fun magic _ => ?_
  refine (FailsOnly.need _).bind fun _ _ => ?_
  refine (number_failsOnly (by omega)).bind fun version _ => ?_
  refine (FailsOnly.need _).bind fun _ hneed => ?_
  obtain ⟨-, -, hstart, hfour, hbitcode⟩ := need_ok.1 hneed
  rw [minus_of_le hstart (by omega)] at hbitcode
  exact (bytesAt_failsOnly (by omega)).bind fun _ _ => .need _

theorem checkModule_ok (hn : 24 ≤ n) (hle : module + n ≤ b.length) (hlen : b.length < 2 ^ 64)
    (h : checkModule b module n = .ok ()) : IsWrapper ((b.drop module).take n) := by
  simp only [checkModule, bind_ok, number_ok, bytesAt_ok, need_ok] at h
  obtain ⟨start, ⟨-, hstart⟩, bitcode, ⟨-, hbitcode⟩, magic, ⟨-, hmagic⟩, _, rfl, version,
    ⟨-, hversion⟩, _, ⟨rfl, h20, hstartle, h4, hfits⟩, bc, ⟨-, hbc⟩, rfl⟩ := h
  rw [minus_of_le hstartle (by omega)] at hfits
  have hlength : ((b.drop module).take n).length = n := by
    rw [List.length_take, List.length_drop]
    omega
  have hpart : ∀ o k, o + k ≤ n →
      (((b.drop module).take n).drop o).take k = (b.drop (module + o)).take k :=
    fun o k hok => take_drop_take hok
  constructor
  · rw [hlength]
    exact hn
  · have hfirst := hpart 0 4 (by omega)
    rw [List.drop_zero] at hfirst
    rw [hfirst]
    exact hmagic
  · rw [hpart 4 4 (by omega)]
    exact hversion
  · rw [hpart 8 4 (by omega), hstart]
    exact h20
  · rw [hpart 12 4 (by omega), hbitcode]
    exact h4
  · rw [hpart 8 4 (by omega), hpart 12 4 (by omega), hstart, hbitcode, hlength]
    omega
  · rw [hpart 8 4 (by omega), hstart, hpart start 4 (by omega)]
    exact hbc

end

/-! ## Records -/

structure FunctionRecord (sha256 : List UInt8 → List UInt8) (minor : ℕ)
    (code bytes : List UInt8) where
  size : List UInt8
  tags : List Tag
  value : Field → List UInt8
  offset : ℕ
  n : ℕ
  bytes_eq : bytes = size ++ (tags.flatMap Tag.bytes ++ endTag)
  size_length : size.length = 4
  size_eq : littleEndian size = bytes.length
  no_end : ∀ t ∈ tags, t.name ≠ endTag
  once : ∀ f : Field, ∃ t, tags.filter (fun t => t.name = f.name) = [t] ∧ t.value = value f
  value_length : ∀ f, (value f).length = f.required
  airMajor_eq : littleEndian ((value .version).take 2) = 2
  airMinor_eq : littleEndian (((value .version).drop 2).take 2) = minor
  offset_eq : littleEndian (((value .offsets).drop 16).take 8) = offset
  n_eq : littleEndian (value .moduleSize) = n
  within : offset + n ≤ code.length
  wrapper : IsWrapper ((code.drop offset).take n)
  hash_eq : sha256 ((code.drop offset).take n) = value .hash

section

variable {sha256 : List UInt8 → List UInt8} {b : List UInt8} {s : Sections} {minor pos : ℕ}

theorem record_failsOnly (hs : s.InOrder b.length) (hlen : b.length < 2 ^ 32) (hpos : 1 ≤ pos) :
    FailsOnly .refused (record sha256 b s minor pos) := by
  obtain ⟨h88, hcount, -, hpub, hpriv, hcode⟩ := hs
  refine (FailsOnly.need _).bind fun _ hneed => ?_
  obtain ⟨hle, hfour⟩ := need_ok.1 hneed
  rw [minus_of_le hle (by omega)] at hfour
  refine (number_failsOnly (by omega)).bind fun size _ => ?_
  refine (FailsOnly.need _).bind fun _ hneed => ?_
  obtain ⟨height, hsize⟩ := need_ok.1 hneed
  rw [minus_of_le hle (by omega)] at hsize
  dsimp only
  rw [plus_of_lt (by omega), plus_of_lt (by omega)]
  refine (tagLoop_failsOnly (by omega) (by omega) _ _ _ (by omega) (by omega)).bind
    fun walk hwalk => ?_
  refine (FailsOnly.need _).bind fun _ hneed => ?_
  obtain ⟨hterminated, hstop⟩ := need_ok.1 hneed
  obtain ⟨-, -, htags⟩ := tagLoop_ok (by omega) (by omega) _ _ _ _ (by omega) hwalk
  obtain ⟨tags, -, -, hrecorded⟩ := htags hterminated
  have hfield : ∀ f q, obtained (walk.found f) Stop.refused = .ok q → q + f.required ≤ b.length :=
    fun f q hq => (hrecorded f q (obtained_ok.1 hq)).1
  refine (FailsOnly.obtained _).bind fun hash hhash => ?_
  refine (FailsOnly.obtained _).bind fun offsets hoffsets => ?_
  refine (FailsOnly.obtained _).bind fun moduleSize hmoduleSize => ?_
  refine (FailsOnly.obtained _).bind fun version hversion => ?_
  have hhash' : hash + 32 ≤ b.length := hfield _ _ hhash
  have hoffsets' : offsets + 24 ≤ b.length := hfield _ _ hoffsets
  have hmoduleSize' : moduleSize + 8 ≤ b.length := hfield _ _ hmoduleSize
  have hversion' : version + 8 ≤ b.length := hfield _ _ hversion
  refine (number_failsOnly (by omega)).bind fun airMajor _ => ?_
  refine (FailsOnly.need _).bind fun _ _ => ?_
  refine (number_failsOnly (by omega)).bind fun airMinor _ => ?_
  refine (FailsOnly.need _).bind fun _ _ => ?_
  refine (number_failsOnly (by omega)).bind fun offset _ => ?_
  refine (number_failsOnly (by omega)).bind fun n _ => ?_
  refine (FailsOnly.need _).bind fun _ hneed => ?_
  obtain ⟨hoffset, hn, h24⟩ := need_ok.1 hneed
  rw [minus_of_le hoffset (by omega)] at hn
  refine (checkModule_failsOnly h24 (by omega) (by omega)).bind fun _ _ => ?_
  have hmod : n % 2 ^ 32 = n := Nat.mod_eq_of_lt (by omega)
  rw [hmod]
  refine (bytesAt_failsOnly (by omega)).bind fun module _ => ?_
  refine (bytesAt_failsOnly (by omega)).bind fun expected _ => ?_
  exact (FailsOnly.need _).bind fun _ _ => .ok _

/-- A round that goes on has read the record of a function. -/
theorem record_ok (hs : s.InOrder b.length) (hlen : b.length < 2 ^ 32) {next : ℕ}
    (h : record sha256 b s minor pos = .ok next) :
    pos ≤ next ∧ next ≤ s.pub ∧ ∃ bytes, b.drop pos = bytes ++ b.drop next ∧
      Nonempty (FunctionRecord sha256 minor ((b.drop s.code).take s.codeSize) bytes) := by
  obtain ⟨h88, hcount, -, hpub, hpriv, hcode⟩ := hs
  simp only [record, bind_ok, need_ok, obtained_ok, number_ok, bytesAt_ok] at h
  obtain ⟨_, ⟨hle, hfour⟩, size, ⟨hsizeat, hsizeeq⟩, _, ⟨height, hsize⟩, walk, hwalk, _,
    ⟨hterminated, hstop⟩, hash, hhash, offsets, hoffsets, moduleSize, hmoduleSize, version,
    hversion, airMajor, ⟨-, hmajor⟩, _, rfl, airMinor, ⟨-, hminor⟩, _, rfl, offset, ⟨-, hoffset⟩,
    n, ⟨-, hn⟩, _, ⟨hoffsetle, hnle, h24⟩, _, hmodule, module, ⟨-, hbytes⟩, expected,
    ⟨-, hexpected⟩, _, hsha, hnext⟩ := h
  rw [minus_of_le hle (by omega)] at hfour hsize
  rw [minus_of_le hoffsetle (by omega)] at hnle
  rw [plus_of_lt (by omega), plus_of_lt (by omega)] at hwalk
  rw [plus_of_lt (by omega)] at hstop
  obtain ⟨h1, h2, h3⟩ := tagLoop_ok (by omega) (by omega) _ _ _ _ (by omega) hwalk
  obtain ⟨tags, htags, hnames, hrecorded⟩ := h3 hterminated
  have hmod : n % 2 ^ 32 = n := Nat.mod_eq_of_lt (by omega)
  rw [hmod] at hbytes
  cases hnext
  have hcodelength : ((b.drop s.code).take s.codeSize).length = s.codeSize := by
    rw [List.length_take, List.length_drop]
    omega
  have hmoduleeq : ((((b.drop s.code).take s.codeSize).drop offset).take n) =
      (b.drop (s.code + offset)).take n := take_drop_take (by omega)
  have hdrop : b.drop pos =
      ((b.drop pos).take 4 ++ (tags.flatMap Tag.bytes ++ endTag)) ++ b.drop walk.pos :=
    calc
      b.drop pos = (b.drop pos).take 4 ++ b.drop (pos + 4) := (take_append_drop_add b pos 4).symm
      _ = _ := by rw [htags, List.append_assoc, List.append_assoc]
  have hlength : ((b.drop pos).take 4 ++ (tags.flatMap Tag.bytes ++ endTag)).length = size := by
    have hall := congrArg List.length hdrop
    rw [List.length_append, List.length_drop, List.length_drop] at hall
    omega
  -- the places that were found, as values
  have hfound : ∀ f, ∃ q, walk.found f = some q
    | .hash => ⟨_, hhash⟩
    | .offsets => ⟨_, hoffsets⟩
    | .moduleSize => ⟨_, hmoduleSize⟩
    | .version => ⟨_, hversion⟩
  choose place hplace using hfound
  obtain rfl : place .hash = hash := Option.some.inj ((hplace _).symm.trans hhash)
  obtain rfl : place .offsets = offsets := Option.some.inj ((hplace _).symm.trans hoffsets)
  obtain rfl : place .moduleSize = moduleSize :=
    Option.some.inj ((hplace _).symm.trans hmoduleSize)
  obtain rfl : place .version = version := Option.some.inj ((hplace _).symm.trans hversion)
  have hvalue : ∀ f : Field, ((b.drop (place f)).take f.required).length = f.required := by
    intro f
    have hin := (hrecorded f _ (hplace f)).1
    rw [List.length_take, List.length_drop]
    omega
  have hat : ∀ (f : Field) (o k : ℕ), o + k ≤ f.required →
      (((b.drop (place f)).take f.required).drop o).take k = (b.drop (place f + o)).take k :=
    fun f o k hok => take_drop_take hok
  refine ⟨by omega, by omega, _, hdrop, ⟨{
    size := (b.drop pos).take 4
    tags := tags
    value := fun f => (b.drop (place f)).take f.required
    offset := offset
    n := n
    bytes_eq := rfl
    size_length := ?_
    size_eq := hsizeeq.trans hlength.symm
    no_end := hnames
    once := fun f => (hrecorded f _ (hplace f)).2
    value_length := hvalue
    airMajor_eq := ?_
    airMinor_eq := ?_
    offset_eq := ?_
    n_eq := ?_
    within := ?_
    wrapper := ?_
    hash_eq := ?_ }⟩⟩
  · rw [List.length_take, List.length_drop]
    omega
  · have hfirst := hat .version 0 2 (by decide)
    rw [List.drop_zero] at hfirst
    rw [hfirst]
    exact hmajor
  · rw [hat .version 2 2 (by decide)]
    exact hminor
  · rw [hat .offsets 16 8 (by decide)]
    exact hoffset
  · exact hn
  · rw [hcodelength]
    omega
  · rw [hmoduleeq]
    exact checkModule_ok h24 (by omega) (by omega) hmodule
  · rw [hmoduleeq, hbytes, hsha, ← hexpected]
    rfl

theorem records_failsOnly (hs : s.InOrder b.length) (hlen : b.length < 2 ^ 32) (left : ℕ) :
    ∀ pos, 1 ≤ pos → FailsOnly .refused (records sha256 b s minor left pos) := by
  induction left with
  | zero => exact fun _ _ => .ok ()
  | succ left ih =>
      intro pos hpos
      refine (record_failsOnly hs hlen hpos).bind fun next hnext => ?_
      exact ih next (hpos.trans (record_ok hs hlen hnext).1)

theorem records_ok (hs : s.InOrder b.length) (hlen : b.length < 2 ^ 32) (left : ℕ) :
    ∀ pos, pos ≤ s.pub → records sha256 b s minor left pos = .ok () →
      ∃ (all : List (List UInt8)) (next : ℕ), all.length = left ∧
        b.drop pos = all.flatten ++ b.drop next ∧ next ≤ s.pub ∧
        ∀ r ∈ all,
          Nonempty (FunctionRecord sha256 minor ((b.drop s.code).take s.codeSize) r) := by
  induction left with
  | zero => exact fun pos hpos _ => ⟨[], pos, rfl, rfl, hpos, nofun⟩
  | succ left ih =>
      intro pos _ h
      obtain ⟨middle, hrecord, h⟩ := bind_ok.1 h
      obtain ⟨-, hmiddle, bytes, hdrop, hfunction⟩ := record_ok hs hlen hrecord
      obtain ⟨all, next, hlength, hdrop', hnext, hall⟩ := ih middle hmiddle h
      refine ⟨bytes :: all, next, congrArg (· + 1) hlength, ?_, hnext,
        List.forall_mem_cons.2 ⟨hfunction, hall⟩⟩
      rw [hdrop, hdrop', List.flatten_cons, List.append_assoc]

end

/-! ## Containers -/

/-- What the header of a library for macOS says about the system. -/
def OfMacOS (container : UInt8) (b : List UInt8) : Prop :=
  if container < 7 then ∀ i, 9 ≤ i → i < 16 → b[i]? = some 0
  else b[9]? = some 0 ∧ b[10]? = some 0 ∧ b[11]? = some 0x81 ∧
    (∃ major, b[12]? = some major ∧ major ≠ 0) ∧ ∀ i, 13 ≤ i → i < 16 → b[i]? = some 0

/-- The numbers of the header. -/
def Sections.At (s : Sections) (b : List UInt8) : Prop :=
  [s.table, s.tableSize, s.pub, s.pubSize, s.priv, s.privSize, s.code, s.codeSize] =
    [24, 32, 40, 48, 56, 64, 72, 80].map fun p => littleEndian ((b.drop p).take 8)

/-- A library for macOS. -/
structure Container (sha256 : List UInt8 → List UInt8) (b : List UInt8) where
  container : UInt8
  minor : ℕ
  sections : Sections
  records : List (List UInt8)
  length_ge : 88 ≤ b.length
  magic : b.take 8 = ascii "MTLB" ++ [1, 0x80, 2, 0]
  container_eq : b[8]? = some container
  known : (container.toNat, minor) ∈ [(2, 0), (3, 1), (5, 3), (7, 6), (8, 7)]
  size_eq : littleEndian ((b.drop 16).take 8) = b.length
  system : OfMacOS container b
  sections_at : sections.At b
  inOrder : sections.InOrder b.length
  count_eq : littleEndian ((b.drop sections.table).take 4) = records.length
  records_ne : records ≠ []
  records_at : ∃ rest, b.drop (sections.table + 4) = records.flatten ++ rest
  records_le : sections.table + 4 + records.flatten.length ≤ sections.pub
  functions : ∀ r ∈ records,
    Nonempty (FunctionRecord sha256 minor ((b.drop sections.code).take sections.codeSize) r)

theorem littleEndian_eq_zero {l : List UInt8} : littleEndian l = 0 ↔ ∀ x ∈ l, x = 0 := by
  induction l with
  | nil => simp [littleEndian]
  | cons x l ih =>
      rw [littleEndian, List.forall_mem_cons, ← ih, ← UInt8.toNat_inj]
      change _ ↔ x.toNat = 0 ∧ _
      omega

section

variable {sha256 : List UInt8 → List UInt8} {b : List UInt8} {container : UInt8} {minor : ℕ}

theorem zeros_of_number {p n : ℕ} (h : number b p n = .ok 0) :
    ∀ i, p ≤ i → i < p + n → b[i]? = some 0 := by
  obtain ⟨hle, hzero⟩ := number_ok.1 h
  rw [littleEndian_eq_zero] at hzero
  intro i h1 h2
  have hi : ((b.drop p).take n)[i - p]? = b[i]? := by
    rw [List.getElem?_take, if_pos (by omega), List.getElem?_drop, Nat.add_sub_cancel' h1]
  have hlt : i < b.length := by omega
  rw [List.getElem?_eq_getElem hlt] at hi ⊢
  rw [hzero _ (List.mem_of_getElem? hi)]

theorem airMinor_known (h : airMinor container = some minor) :
    (container.toNat, minor) ∈ [(2, 0), (3, 1), (5, 3), (7, 6), (8, 7)] := by
  unfold airMinor at h
  split_ifs at h with h1 h2
  · cases h
    rcases h1 with rfl | rfl | rfl <;> decide
  · cases h
    rcases h2 with rfl | rfl <;> decide

theorem checkSystem_failsOnly (legacy : Bool) (hlen : 88 ≤ b.length) :
    FailsOnly .refused (checkSystem b legacy) := by
  refine .ite (fun _ => ?_) fun _ => ?_
  · exact (number_failsOnly (by omega)).bind fun _ _ => .need _
  · refine (byteAt_failsOnly (by omega)).bind fun _ _ => (FailsOnly.need _).bind fun _ _ => ?_
    refine (byteAt_failsOnly (by omega)).bind fun _ _ => (FailsOnly.need _).bind fun _ _ => ?_
    refine (byteAt_failsOnly (by omega)).bind fun _ _ => (FailsOnly.need _).bind fun _ _ => ?_
    refine (byteAt_failsOnly (by omega)).bind fun _ _ => (FailsOnly.need _).bind fun _ _ => ?_
    exact (number_failsOnly (by omega)).bind fun _ _ => .need _

theorem checkSystem_ok (h : checkSystem b (decide (container < 7)) = .ok ()) :
    OfMacOS container b := by
  unfold checkSystem at h
  unfold OfMacOS
  by_cases hlegacy : container < 7
  · rw [if_pos (by simpa using hlegacy)] at h
    obtain ⟨_, hnumber, h⟩ := bind_ok.1 h
    obtain rfl := need_ok.1 h
    rw [if_pos hlegacy]
    exact zeros_of_number hnumber
  · rw [if_neg (by simpa using hlegacy)] at h
    simp only [bind_ok, need_ok, byteAt_ok] at h
    obtain ⟨_, h9, _, rfl, _, h10, _, rfl, _, h11, _, rfl, major, h12, _, hmajor, _, hnumber,
      rfl⟩ := h
    rw [if_neg hlegacy]
    exact ⟨h9, h10, h11, ⟨major, h12, hmajor⟩, zeros_of_number hnumber⟩

theorem readSections_failsOnly (hlen : 88 ≤ b.length) :
    FailsOnly .refused (readSections b) := by
  refine (number_failsOnly (by omega)).bind fun _ _ => ?_
  refine (number_failsOnly (by omega)).bind fun _ _ => ?_
  refine (number_failsOnly (by omega)).bind fun _ _ => ?_
  refine (number_failsOnly (by omega)).bind fun _ _ => ?_
  refine (number_failsOnly (by omega)).bind fun _ _ => ?_
  refine (number_failsOnly (by omega)).bind fun _ _ => ?_
  refine (number_failsOnly (by omega)).bind fun _ _ => ?_
  exact (number_failsOnly (by omega)).bind fun _ _ => .ok _

theorem readSections_ok {s : Sections} (h : readSections b = .ok s) : s.At b := by
  simp only [readSections, bind_ok, number_ok, Except.ok.injEq] at h
  obtain ⟨_, ⟨-, rfl⟩, _, ⟨-, rfl⟩, _, ⟨-, rfl⟩, _, ⟨-, rfl⟩, _, ⟨-, rfl⟩, _, ⟨-, rfl⟩, _,
    ⟨-, rfl⟩, _, ⟨-, rfl⟩, rfl⟩ := h
  rfl

/-- Three bytes at most change. -/
theorem derive_spec (simulator legacy : Bool) (minor : ℕ) (b : List UInt8) :
    (derive simulator legacy minor b).length = b.length ∧
      ∀ i, i ≠ 5 → i ≠ 11 → i ≠ 12 → (derive simulator legacy minor b)[i]? = b[i]? := by
  unfold derive
  cases legacy with
  | false =>
      refine ⟨by simp, fun i h5 h11 h12 => ?_⟩
      rw [if_neg Bool.false_ne_true, List.getElem?_set_ne h12.symm,
        List.getElem?_set_ne h11.symm, List.getElem?_set_ne h5.symm]
  | true =>
      refine ⟨by simp, fun i h5 h11 _ => ?_⟩
      rw [if_pos rfl, List.getElem?_set_ne h11.symm, List.getElem?_set_ne h5.symm]

end

/-- Whatever the bytes are, the derivation reads only them and ends. Where it gives a library,
this has as many bytes and differs in three at most, and the bytes were a container. -/
theorem localMetalLibraryData_spec (sha256 : List UInt8 → List UInt8) (simulator : Bool)
    (b : List UInt8) :
    (∀ e, localMetalLibraryData sha256 simulator b = .error e → e = .refused) ∧
      ∀ derived, localMetalLibraryData sha256 simulator b = .ok derived →
        derived.length = b.length ∧
          (∀ i, i ≠ 5 → i ≠ 11 → i ≠ 12 → derived[i]? = b[i]?) ∧
          Nonempty (Container sha256 b) := by
  constructor
  · change FailsOnly Stop.refused (localMetalLibraryData sha256 simulator b)
    refine (FailsOnly.need _).bind fun _ hneed => ?_
    obtain ⟨h88, hmax⟩ := need_ok.1 hneed
    refine (bytesAt_failsOnly (by omega)).bind fun _ _ => (FailsOnly.need _).bind fun _ _ => ?_
    refine (byteAt_failsOnly (by omega)).bind fun _ _ => (FailsOnly.obtained _).bind fun _ _ => ?_
    refine (number_failsOnly (by omega)).bind fun _ _ => (FailsOnly.need _).bind fun _ _ => ?_
    refine (checkSystem_failsOnly _ h88).bind fun _ _ => ?_
    refine (readSections_failsOnly h88).bind fun s _ => (FailsOnly.need _).bind fun _ hneed => ?_
    have hs := Sections.inOrder (by omega) (need_ok.1 hneed)
    obtain ⟨h1, h2, -, h4, h5, h6⟩ := id hs
    refine (number_failsOnly (by omega)).bind fun _ _ => (FailsOnly.need _).bind fun _ _ => ?_
    rw [plus_of_lt (by omega)]
    exact (records_failsOnly hs (by omega) _ _ (by omega)).bind fun _ _ => .ok _
  · intro derived h
    simp only [localMetalLibraryData, bind_ok, need_ok, obtained_ok, number_ok, bytesAt_ok,
      byteAt_ok] at h
    obtain ⟨_, ⟨h88, hmax⟩, _, ⟨-, rfl⟩, _, hmagic, container, hcontainer, minor, hminor, _,
      ⟨-, rfl⟩, _, hsize, _, hsystem, s, hsections, _, hordered, count, ⟨-, hcount⟩, _,
      ⟨hne, -⟩, _, hrecords, hderived⟩ := h
    cases hderived
    have hs := Sections.inOrder (by omega) hordered
    obtain ⟨h1, h2, -, h4, h5, h6⟩ := id hs
    rw [plus_of_lt (by omega)] at hrecords
    obtain ⟨all, next, hlength, hdrop, hnext, hall⟩ :=
      records_ok hs (by omega) count _ (by omega) hrecords
    obtain ⟨hsame, hbytes⟩ := derive_spec simulator (decide (container < 7)) minor b
    refine ⟨hsame, hbytes, ⟨{
      container := container
      minor := minor
      sections := s
      records := all
      length_ge := h88
      magic := hmagic
      container_eq := hcontainer
      known := airMinor_known hminor
      size_eq := hsize
      system := checkSystem_ok hsystem
      sections_at := readSections_ok hsections
      inOrder := hs
      count_eq := hcount.trans hlength.symm
      records_ne := ?_
      records_at := ⟨_, hdrop⟩
      records_le := ?_
      functions := hall }⟩⟩
    · rintro rfl
      exact hne hlength.symm
    · have hlengths := congrArg List.length hdrop
      rw [List.length_append, List.length_drop, List.length_drop] at hlengths
      omega

/-- A module of four bytes of bitcode in its wrapper. -/
def smallModule : List UInt8 :=
  [0xde, 0xc0, 0x17, 0x0b, 0, 0, 0, 0, 0x14, 0, 0, 0, 4, 0, 0, 0, 0, 0, 0, 0, 0x42, 0x43, 0xc0,
   0xde]

def smallHash : List UInt8 :=
  [0xd6, 0xe2, 0x36, 0x5e, 0x87, 0x5b, 0x63, 0x33, 0xdd, 0x46, 0xe8, 0x7f, 0xd1, 0x7a, 0x83,
   0x79, 0x43, 0x3c, 0xd1, 0x40, 0x5a, 0xc2, 0x24, 0xad, 0x63, 0xb0, 0x34, 0xcf, 0x8e, 0x46,
   0x0d, 0x7c]

def smallLibrary : List UInt8 :=
  [0x4d, 0x54, 0x4c, 0x42, 1, 0x80, 2, 0, 7, 0, 0, 0x81, 0x0f, 0, 0, 0, 0xdc, 0, 0, 0, 0, 0, 0,
   0, 0x58, 0, 0, 0, 0, 0, 0, 0, 0x6c, 0, 0, 0, 0, 0, 0, 0, 0xc4, 0, 0, 0, 0, 0, 0, 0, 0, 0, 0,
   0, 0, 0, 0, 0, 0xc4, 0, 0, 0, 0, 0, 0, 0, 0, 0, 0, 0, 0, 0, 0, 0, 0xc4, 0, 0, 0, 0, 0, 0, 0,
   0x18, 0, 0, 0, 0, 0, 0, 0, 1, 0, 0, 0, 0x68, 0, 0, 0, 0x48, 0x41, 0x53, 0x48, 0x20, 0, 0xd6,
   0xe2, 0x36, 0x5e, 0x87, 0x5b, 0x63, 0x33, 0xdd, 0x46, 0xe8, 0x7f, 0xd1, 0x7a, 0x83, 0x79,
   0x43, 0x3c, 0xd1, 0x40, 0x5a, 0xc2, 0x24, 0xad, 0x63, 0xb0, 0x34, 0xcf, 0x8e, 0x46, 0x0d,
   0x7c, 0x4f, 0x46, 0x46, 0x54, 0x18, 0, 0, 0, 0, 0, 0, 0, 0, 0, 0, 0, 0, 0, 0, 0, 0, 0, 0, 0,
   0, 0, 0, 0, 0, 0, 0x4d, 0x44, 0x53, 0x5a, 8, 0, 0x18, 0, 0, 0, 0, 0, 0, 0, 0x56, 0x45, 0x52,
   0x53, 8, 0, 2, 0, 6, 0, 0, 0, 0, 0, 0x45, 0x4e, 0x44, 0x54, 0xde, 0xc0, 0x17, 0x0b, 0, 0, 0,
   0, 0x14, 0, 0, 0, 4, 0, 0, 0, 0, 0, 0, 0, 0x42, 0x43, 0xc0, 0xde]

theorem localMetalLibraryData_spec_small :
    (((smallLibrary.set 5 0).set 11 0x82).set 12 0x11).length = smallLibrary.length ∧
      Nonempty (Container (fun m => if m = smallModule then smallHash else []) smallLibrary) :=
  have h := (localMetalLibraryData_spec (fun m => if m = smallModule then smallHash else []) false
    smallLibrary).2 (((smallLibrary.set 5 0).set 11 0x82).set 12 0x11) (by decide +kernel)
  ⟨h.1, h.2.2⟩

end Metal

end Tolkara
