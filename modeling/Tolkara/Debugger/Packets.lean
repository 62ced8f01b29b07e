import Tolkara.Debugger.Wire
import Tolkara.Library.Machines

/-!
# The packets are exact

What a packet may be made of (`DWItem`), what it stands for (`expand`), and that the parser
takes exactly that: a frame with its checksum gives the expansion where the buffer has
room, a frame with another checksum gives no packet, and an encoded payload comes back.
-/

namespace Tolkara

namespace DebugWire

open Library

/-! ## Frames -/

/-- What a server may write between `$` and `#`. -/
inductive DWItem
  | literal (b : UInt8)
  | escaped (b : UInt8)
  | repeated (c : UInt8)
deriving DecidableEq, Repr

namespace DWItem

def bytes : DWItem → List UInt8
  | literal b => [b]
  | escaped b => [125, b]
  | repeated c => [42, c]

def WellFormed (l : List UInt8) : DWItem → Prop
  | literal b => b ≠ 36 ∧ b ≠ 35 ∧ b ≠ 125 ∧ b ≠ 42
  | escaped _ => True
  | repeated c => l ≠ [] ∧ 32 ≤ c ∧ c ≤ 126 ∧ c ≠ 36 ∧ c ≠ 35 ∧ c ≠ 43 ∧ c ≠ 45

/-- What the items up to this one stand for, when those before it stand for `l`. -/
def expand (l : List UInt8) : DWItem → List UInt8
  | literal b => l ++ [b]
  | escaped b => l ++ [b ^^^ 0x20]
  | repeated c => l ++ List.replicate (c.toNat - 29) (l.getLastD 0)

end DWItem

def itemBytes (items : List DWItem) : List UInt8 := items.flatMap DWItem.bytes

def expand (l : List UInt8) (items : List DWItem) : List UInt8 := items.foldl DWItem.expand l

def WellFormed : List UInt8 → List DWItem → Prop
  | _, [] => True
  | l, i :: items => i.WellFormed l ∧ WellFormed (i.expand l) items

def byteSum (l : List UInt8) : ℕ := (l.map UInt8.toNat).sum

/-- Two hex digits of a number. -/
def IsChecksum (high low : UInt8) (n : ℕ) : Prop :=
  ∃ a b, hex high = some a ∧ hex low = some b ∧ 16 * a + b = n

/-- A frame: the items between `$` and `#`, and the two bytes of the checksum. -/
def frame (items : List DWItem) (high low : UInt8) : List UInt8 :=
  [36] ++ itemBytes items ++ [35, high, low]

@[simp] theorem byteSum_append (l m : List UInt8) : byteSum (l ++ m) = byteSum l + byteSum m := by
  rw [byteSum, List.map_append, List.sum_append]
  rfl

theorem add_byteSum_pair (n : ℕ) (x y : UInt8) :
    n + byteSum [x, y] = n + x.toNat + y.toNat := by
  rw [Nat.add_assoc]
  rfl

theorem itemBytes_cons (i : DWItem) (items : List DWItem) :
    itemBytes (i :: items) = i.bytes ++ itemBytes items := List.flatMap_cons

theorem DWItem.length_le_expand (l : List UInt8) (i : DWItem) :
    l.length ≤ (i.expand l).length := by
  cases i <;> rw [DWItem.expand, List.length_append] <;> exact Nat.le_add_right _ _

theorem length_le_expand (l : List UInt8) (items : List DWItem) :
    l.length ≤ (expand l items).length := by
  induction items generalizing l with
  | nil => exact le_refl _
  | cons i items ih => exact (i.length_le_expand l).trans (ih (i.expand l))

/-! ## One item -/

/-- The parser in the body of a packet that started from `q`: it holds `l`, and the bytes
so far add up to `n`. -/
structure Reading (q : DWParser) (l : List UInt8) (n : ℕ) (p : DWParser) : Prop where
  state : p.state = .body
  payload : p.payload = l
  sum : p.sum.toNat = n % 256
  capacity : p.capacity = q.capacity
  notification : p.notification = false
  zeroChecksum : p.zeroChecksum = q.zeroChecksum

variable {p q : DWParser} {l : List UInt8} {n : ℕ} {b : UInt8}

theorem feed_dollar (h : p.state = .seek) :
    Reading p [] 0 (dwFeed p 36).1 ∧ (dwFeed p 36).2 = .more := by
  have hfeed : dwFeed p 36 =
      ({ p with
          state := .body, payload := [], sum := 0, notification := false
          fits := Nat.zero_le _ }, .more) := by
    simp only [dwFeed, h]
    rfl
  rw [hfeed]
  exact ⟨⟨rfl, rfl, rfl, rfl, rfl, rfl⟩, rfl⟩

theorem feed_body (h : p.state = .body) (hdollar : b ≠ 36) (hhash : b ≠ 35) :
    dwFeed p b =
      if b = 125 then ({ p with sum := p.sum + b, state := .escape }, .more)
      else if b = 42 then ({ p with sum := p.sum + b, state := .repeating }, .more)
      else { p with sum := p.sum + b, state := .body }.append b := by
  cases p
  cases h
  simp only [dwFeed, if_neg hdollar, if_neg hhash]

theorem feed_escape (h : p.state = .escape) :
    dwFeed p b = { p with sum := p.sum + b, state := .body }.append (b ^^^ 0x20) := by
  simp only [dwFeed, h]

theorem Reading.fits (h : Reading q l n p) : l.length ≤ q.capacity := by
  rw [← h.payload, ← h.capacity]
  exact p.fits

theorem Reading.count (h : Reading q l n p) (b : UInt8) :
    Reading q l (n + b.toNat) { p with sum := p.sum + b, state := .body } := by
  refine ⟨rfl, h.payload, ?_, h.capacity, h.notification, h.zeroChecksum⟩
  rw [UInt8.toNat_add, h.sum, Nat.mod_add_mod]

theorem Reading.append (h : Reading q l n p) (hfits : l.length < q.capacity) :
    Reading q (l ++ [b]) n (p.append b).1 ∧ (p.append b).2 = .more := by
  rw [DWParser.append, dif_neg (by rw [h.payload, h.capacity]; exact hfits.ne)]
  exact ⟨⟨h.state, congrArg (· ++ [b]) h.payload, h.sum, h.capacity, h.notification,
    h.zeroChecksum⟩, rfl⟩

theorem Reading.append_full (h : Reading q l n p) (hfull : q.capacity ≤ l.length) :
    p.append b = p.fail .overflow := by
  have hlength : p.payload.length = p.capacity := by
    rw [h.payload, h.capacity]
    exact le_antisymm h.fits hfull
  rw [DWParser.append, dif_pos hlength]

theorem Reading.memset (h : Reading q l n p) {count : ℕ}
    (hfits : ¬ p.capacity - p.payload.length < count) :
    Reading q (l ++ List.replicate count (l.getLastD 0)) n (p.memset count hfits) := by
  have hpayload := congrArg (fun l => l ++ List.replicate count (l.getLastD 0)) h.payload
  exact ⟨h.state, hpayload, h.sum, h.capacity, h.notification, h.zeroChecksum⟩

theorem badRepeat_eq_false (h : (DWItem.repeated b).WellFormed l) :
    DWParser.badRepeat b = false := by
  obtain ⟨-, hlow, hhigh, hdollar, hhash, hplus, hminus⟩ := h
  simp only [DWParser.badRepeat, Bool.or_eq_false_iff, decide_eq_false_iff_not, beq_eq_false_iff_ne]
  exact ⟨⟨⟨⟨⟨UInt8.not_lt.2 hlow, UInt8.not_lt.2 hhigh⟩, hdollar⟩, hhash⟩, hplus⟩, hminus⟩

theorem feed_repeating (h : p.state = .repeating) (hitem : (DWItem.repeated b).WellFormed l)
    (hp : p.payload = l) :
    dwFeed p b =
      if h : p.capacity - p.payload.length < b.toNat - 29 then
        { p with sum := p.sum + b, state := .body }.fail .overflow
      else ({ p with sum := p.sum + b, state := .body }.memset (b.toNat - 29) h, .more) := by
  have hne : p.payload.isEmpty = false := by
    rw [hp, List.isEmpty_eq_false_iff]
    exact hitem.1
  simp only [dwFeed, h, hne, badRepeat_eq_false hitem, Bool.or_false, Bool.false_eq_true,
    if_false]

theorem Reading.item {i : DWItem} (h : Reading q l n p) (hi : i.WellFormed l)
    (hfits : (i.expand l).length ≤ q.capacity) :
    Reading q (i.expand l) (n + byteSum i.bytes) (respond dwFeed p i.bytes).1 ∧
      ∀ e ∈ (respond dwFeed p i.bytes).2, e = .more := by
  cases i with
  | literal b =>
      obtain ⟨hdollar, hhash, hescape, hrepeat⟩ := hi
      have hfeed := feed_body h.state hdollar hhash
      rw [if_neg hescape, if_neg hrepeat] at hfeed
      rw [DWItem.expand, List.length_append, List.length_singleton] at hfits
      obtain ⟨hread, hmore⟩ := (h.count b).append (b := b) hfits
      rw [DWItem.bytes, respond_singleton, List.forall_mem_singleton, hfeed]
      exact ⟨hread, hmore⟩
  | escaped b =>
      have hfeed := feed_body (b := 125) h.state (by decide) (by decide)
      rw [if_pos rfl] at hfeed
      rw [DWItem.expand, List.length_append, List.length_singleton] at hfits
      obtain ⟨hread, hmore⟩ := ((h.count 125).count b).append hfits (b := b ^^^ 0x20)
      rw [DWItem.bytes, add_byteSum_pair, respond_cons, respond_singleton, hfeed,
        feed_escape rfl]
      exact ⟨hread, List.forall_mem_cons.2 ⟨rfl, List.forall_mem_singleton.2 hmore⟩⟩
  | repeated c =>
      have hfeed := feed_body (b := 42) h.state (by decide) (by decide)
      rw [if_neg (by decide), if_pos rfl] at hfeed
      rw [DWItem.expand, List.length_append, List.length_replicate] at hfits
      have hroom : ¬ p.capacity - p.payload.length < c.toNat - 29 := by
        rw [h.payload, h.capacity]
        omega
      have hcount := feed_repeating (p := { p with sum := p.sum + 42, state := .repeating })
        rfl hi h.payload
      rw [dif_neg hroom] at hcount
      have hread := ((h.count 42).count c).memset hroom
      rw [DWItem.bytes, add_byteSum_pair, respond_cons, respond_singleton, hfeed, hcount]
      exact ⟨hread, List.forall_mem_cons.2 ⟨rfl, List.forall_mem_singleton.2 rfl⟩⟩

/-- An item for which the buffer has no room is given up. -/
theorem Reading.item_overflow {i : DWItem} (h : Reading q l n p) (hi : i.WellFormed l)
    (hfull : q.capacity < (i.expand l).length) :
    (respond dwFeed p i.bytes).1.state = .seek ∧
      ∀ e ∈ (respond dwFeed p i.bytes).2, e ≠ .packet := by
  cases i with
  | literal b =>
      obtain ⟨hdollar, hhash, hescape, hrepeat⟩ := hi
      have hfeed := feed_body h.state hdollar hhash
      rw [if_neg hescape, if_neg hrepeat] at hfeed
      rw [DWItem.expand, List.length_append, List.length_singleton] at hfull
      rw [DWItem.bytes, respond_singleton, List.forall_mem_singleton, hfeed,
        (h.count b).append_full (Nat.le_of_lt_succ hfull)]
      exact ⟨rfl, nofun⟩
  | escaped b =>
      have hfeed := feed_body (b := 125) h.state (by decide) (by decide)
      rw [if_pos rfl] at hfeed
      rw [DWItem.expand, List.length_append, List.length_singleton] at hfull
      rw [DWItem.bytes, respond_cons, respond_singleton, hfeed, feed_escape rfl,
        ((h.count 125).count b).append_full (Nat.le_of_lt_succ hfull)]
      exact ⟨rfl, List.forall_mem_cons.2 ⟨nofun, List.forall_mem_singleton.2 nofun⟩⟩
  | repeated c =>
      have hfeed := feed_body (b := 42) h.state (by decide) (by decide)
      rw [if_neg (by decide), if_pos rfl] at hfeed
      rw [DWItem.expand, List.length_append, List.length_replicate] at hfull
      have hroom : p.capacity - p.payload.length < c.toNat - 29 := by
        have := h.fits
        rw [h.payload, h.capacity]
        omega
      have hcount := feed_repeating (p := { p with sum := p.sum + 42, state := .repeating })
        rfl hi h.payload
      rw [dif_pos hroom] at hcount
      rw [DWItem.bytes, respond_cons, respond_singleton, hfeed, hcount]
      exact ⟨rfl, List.forall_mem_cons.2 ⟨nofun, List.forall_mem_singleton.2 nofun⟩⟩

/-! ## All items -/

theorem Reading.items {items : List DWItem} (h : Reading q l n p) (hi : WellFormed l items)
    (hfits : (expand l items).length ≤ q.capacity) :
    Reading q (expand l items) (n + byteSum (itemBytes items))
        (respond dwFeed p (itemBytes items)).1 ∧
      ∀ e ∈ (respond dwFeed p (itemBytes items)).2, e = .more := by
  induction items generalizing l n p with
  | nil => exact ⟨h, fun _ he => absurd he List.not_mem_nil⟩
  | cons i items ih =>
      obtain ⟨hread, hmore⟩ := h.item hi.1 ((length_le_expand (i.expand l) items).trans hfits)
      obtain ⟨hend, hlater⟩ := ih hread hi.2 hfits
      rw [itemBytes_cons, respond_append, byteSum_append, ← Nat.add_assoc]
      exact ⟨hend, fun e he => (List.mem_append.1 he).elim (hmore e) (hlater e)⟩

/-- No packet is under way: the parser looks for one, or takes a notification. -/
def Quiet (p : DWParser) : Prop := p.state = .seek ∨ p.notification = true

theorem quiet_fail (p : DWParser) (event : DWEvent) : Quiet (p.fail event).1 := Or.inl rfl

theorem Quiet.append (h : p.notification = true) (b : UInt8) :
    Quiet (p.append b).1 ∧ (p.append b).2 ≠ .packet := by
  rw [DWParser.append]
  split_ifs
  · exact ⟨quiet_fail _ _, nofun⟩
  · exact ⟨Or.inr h, nofun⟩

theorem Quiet.feed (h : Quiet p) (hb : b ≠ 36) :
    Quiet (dwFeed p b).1 ∧ (dwFeed p b).2 ≠ .packet := by
  have hnotification : p.state ≠ .seek → p.notification = true := h.resolve_left
  unfold dwFeed
  split
  case h_1 hstate =>
    split_ifs with h₁ h₂ h₃
    · exact ⟨h, nofun⟩
    · exact ⟨h, nofun⟩
    · exact ⟨Or.inr (beq_iff_eq.2 (h₃.resolve_left hb)), nofun⟩
    · exact ⟨h, nofun⟩
  all_goals have hn := hnotification (by rw [‹p.state = _›]; nofun)
  case h_2 =>
    rw [if_neg hb]
    split_ifs
    · exact ⟨Or.inr hn, nofun⟩
    · exact ⟨Or.inr hn, nofun⟩
    · exact ⟨Or.inr hn, nofun⟩
    · exact Quiet.append (p := { p with sum := p.sum + b }) hn b
  case h_3 => exact Quiet.append (p := { p with sum := p.sum + b, state := .body }) hn _
  case h_4 =>
    dsimp only
    split_ifs
    · exact ⟨quiet_fail _ _, nofun⟩
    · exact ⟨quiet_fail _ _, nofun⟩
    · exact ⟨Or.inr hn, nofun⟩
  case h_5 =>
    split
    · exact ⟨quiet_fail _ _, nofun⟩
    · exact ⟨Or.inr hn, nofun⟩
  case h_6 =>
    split
    · exact ⟨quiet_fail _ _, nofun⟩
    · dsimp only
      rw [if_pos hn]
      split_ifs
      · exact ⟨quiet_fail _ _, nofun⟩
      · exact ⟨Or.inr hn, nofun⟩

theorem DWItem.dollar_not_mem {i : DWItem} (hi : i.WellFormed l) (hne : i ≠ .escaped 36) :
    ∀ b ∈ i.bytes, b ≠ 36 := by
  cases i with
  | literal b => exact List.forall_mem_singleton.2 hi.1
  | escaped b =>
      have hb : b ≠ 36 := fun h => hne (congrArg _ h)
      exact List.forall_mem_cons.2 ⟨by decide, List.forall_mem_singleton.2 hb⟩
  | repeated c =>
      obtain ⟨-, -, -, hdollar, -⟩ := hi
      exact List.forall_mem_cons.2 ⟨by decide, List.forall_mem_singleton.2 hdollar⟩

theorem Quiet.items {items : List DWItem} (h : Quiet p) (hi : WellFormed l items)
    (hnone : DWItem.escaped 36 ∉ items) :
    Quiet (respond dwFeed p (itemBytes items)).1 ∧
      ∀ e ∈ (respond dwFeed p (itemBytes items)).2, e ≠ .packet := by
  have hbytes : ∀ b ∈ itemBytes items, b ≠ 36 := by
    induction items generalizing l with
    | nil => exact fun _ hb => absurd hb List.not_mem_nil
    | cons i items ih =>
        intro b hb
        rw [itemBytes_cons, List.mem_append] at hb
        rcases hb with hfirst | hrest
        · exact i.dollar_not_mem hi.1 (fun heq => hnone (heq ▸ List.mem_cons_self)) b hfirst
        · exact ih hi.2 (fun hmem => hnone (List.mem_cons_of_mem i hmem)) b hrest
  exact respond_keeps (fun s hs b hb => hs.feed (hbytes b hb)) h

/-! ## The checksum -/

theorem hex_lt {c : UInt8} {a : ℕ} (h : hex c = some a) : a < 16 := by
  unfold hex at h
  split_ifs at h with h₁ h₂ h₃ <;> cases h
  · have := UInt8.le_iff_toNat_le.1 h₁.2
    have h57 : (57 : UInt8).toNat = 57 := rfl
    omega
  · have := UInt8.le_iff_toNat_le.1 h₂.2
    have h102 : (102 : UInt8).toNat = 102 := rfl
    omega
  · have := UInt8.le_iff_toNat_le.1 h₃.2
    have h70 : (70 : UInt8).toNat = 70 := rfl
    omega

/-- The two digits put together. -/
theorem digits_value : ∀ a < 16, ∀ b < 16,
    (UInt8.ofNat ((UInt8.ofNat (a <<< 4)).toNat ||| b)).toNat = 16 * a + b := by
  decide

theorem hex_digits : ∀ a < 16, hex (digits.getD a 0) = some a := by decide

theorem append_ne_packet (p : DWParser) (b : UInt8) : (p.append b).2 ≠ .packet := by
  rw [DWParser.append]
  split_ifs <;> nofun

/-- A packet comes with the second digit of its checksum. -/
theorem state_of_packet (h : (dwFeed p b).2 = .packet) : p.state = .checkLow := by
  cases hstate : p.state with
  | checkLow => rfl
  | seek =>
      simp only [dwFeed, hstate] at h
      split_ifs at h
  | body =>
      simp only [dwFeed, hstate] at h
      split_ifs at h
      exact absurd h (append_ne_packet _ _)
  | escape =>
      simp only [dwFeed, hstate] at h
      exact absurd h (append_ne_packet _ _)
  | repeating =>
      simp only [dwFeed, hstate] at h
      split_ifs at h <;> cases h
  | checkHigh =>
      simp only [dwFeed, hstate] at h
      split at h <;> cases h

theorem feed_checkLow (h : p.state = .checkLow) :
    dwFeed p b =
      match hex b with
      | none => p.fail .malformed
      | some digit =>
        if UInt8.ofNat (p.expected.toNat ||| digit) ≠ p.sum ∧
            ¬ (p.zeroChecksum = true ∧ UInt8.ofNat (p.expected.toNat ||| digit) = 0) then
          { p with state := .seek }.fail .badChecksum
        else ({ p with state := .seek }, if p.notification then .notification else .packet) := by
  cases p
  cases h
  rfl

theorem feed_checkHigh (h : p.state = .checkHigh) :
    dwFeed p b =
      match hex b with
      | none => p.fail .malformed
      | some digit =>
        ({ p with expected := UInt8.ofNat (digit <<< 4), state := .checkLow }, .more) := by
  cases p
  cases h
  rfl

theorem feed_hash (h : p.state = .body) :
    dwFeed p 35 = ({ p with state := .checkHigh }, .more) := by
  cases p
  cases h
  rfl

/-- The end of a frame up to its last digit. -/
theorem respond_close {high : UInt8} {a : ℕ} (h : p.state = .body) (hhigh : hex high = some a)
    (low : UInt8) :
    respond dwFeed p [35, high, low] =
      let r := dwFeed { p with expected := UInt8.ofNat (a <<< 4), state := .checkLow } low
      (r.1, [.more, .more, r.2]) := by
  have hfirst := feed_checkHigh (p := { p with state := .checkHigh }) (b := high) rfl
  rw [hhigh] at hfirst
  rw [respond_cons, respond_cons, respond_singleton, feed_hash h, hfirst]

/-- The end of a frame with the checksum of its items. -/
theorem Reading.close {high low : UInt8} (h : Reading q l n p)
    (hsum : IsChecksum high low (n % 256)) :
    (respond dwFeed p [35, high, low]).1.payload = l ∧
      (respond dwFeed p [35, high, low]).2 = [.more, .more, .packet] := by
  obtain ⟨a, b, hhigh, hlow, hvalue⟩ := hsum
  have hexpected : UInt8.ofNat ((UInt8.ofNat (a <<< 4)).toNat ||| b) = p.sum := by
    rw [← UInt8.toNat_inj, digits_value a (hex_lt hhigh) b (hex_lt hlow), hvalue, h.sum]
  rw [respond_close h.state hhigh, feed_checkLow rfl, hlow]
  dsimp only
  rw [hexpected, if_neg fun hne => hne.1 rfl, h.notification]
  exact ⟨h.payload, rfl⟩

/-- The end of a frame with another checksum. -/
theorem Reading.close_other {high low : UInt8} (h : Reading q l n p)
    (hzero : q.zeroChecksum = false) (hsum : ¬ IsChecksum high low (n % 256)) :
    ∀ e ∈ (respond dwFeed p [35, high, low]).2, e ≠ .packet := by
  cases hhigh : hex high with
  | none =>
      have hfirst := feed_checkHigh (p := { p with state := .checkHigh }) (b := high) rfl
      rw [hhigh] at hfirst
      rw [respond_cons, respond_cons, respond_singleton, feed_hash h.state, hfirst]
      refine List.forall_mem_cons.2 ⟨nofun, List.forall_mem_cons.2 ⟨nofun, ?_⟩⟩
      exact List.forall_mem_singleton.2 fun hpacket => nomatch state_of_packet hpacket
  | some a =>
      rw [respond_close h.state hhigh, feed_checkLow rfl]
      refine List.forall_mem_cons.2 ⟨nofun, List.forall_mem_cons.2 ⟨nofun, ?_⟩⟩
      rw [List.forall_mem_singleton]
      cases hlow : hex low with
      | none => exact nofun
      | some b =>
          have hne : UInt8.ofNat ((UInt8.ofNat (a <<< 4)).toNat ||| b) ≠ p.sum := by
            intro heq
            rw [← UInt8.toNat_inj, digits_value a (hex_lt hhigh) b (hex_lt hlow), h.sum] at heq
            exact hsum ⟨a, b, hhigh, hlow, heq⟩
          have hoff : ¬ (p.zeroChecksum = true ∧
              UInt8.ofNat ((UInt8.ofNat (a <<< 4)).toNat ||| b) = 0) := by
            rw [h.zeroChecksum, hzero]
            exact fun hand => nomatch hand.1
          dsimp only
          rw [if_pos ⟨hne, hoff⟩]
          exact nofun

/-- A `$` is never the byte before the second digit. -/
theorem feed_dollar_state (p : DWParser) : (dwFeed p 36).1.state ≠ .checkLow := by
  cases hstate : p.state with
  | seek => exact ((feed_dollar hstate).1.state ▸ nofun)
  | body =>
      simp only [dwFeed, hstate]
      exact nofun
  | escape =>
      simp only [dwFeed, hstate, DWParser.append]
      split_ifs <;> nofun
  | repeating =>
      have hbad : DWParser.badRepeat 36 = true := rfl
      simp only [dwFeed, hstate, hbad, Bool.or_true, if_true]
      exact nofun
  | checkHigh =>
      rw [feed_checkHigh hstate]
      exact nofun
  | checkLow =>
      rw [feed_checkLow hstate]
      exact nofun

theorem feed_dollar_ne_packet (p : DWParser) : (dwFeed p 36).2 ≠ .packet := by
  intro h
  have hfeed := feed_checkLow (b := 36) (state_of_packet h)
  rw [hfeed] at h
  exact nomatch h

/-- The end of a frame while no packet is under way. -/
theorem Quiet.close (h : Quiet p) (high low : UInt8) :
    ∀ e ∈ (respond dwFeed p [35, high, low]).2, e ≠ .packet := by
  have hbyte : ∀ {r : DWParser} {b : UInt8}, Quiet r → (dwFeed r b).2 ≠ .packet := by
    intro r b hr
    by_cases hb : b = 36
    · rw [hb]
      exact feed_dollar_ne_packet r
    · exact (hr.feed hb).2
  have hhash := h.feed (b := 35) (by decide)
  refine List.forall_mem_cons.2 ⟨hhash.2, List.forall_mem_cons.2 ⟨hbyte hhash.1, ?_⟩⟩
  refine List.forall_mem_singleton.2 ?_
  by_cases hhigh : high = 36
  · rw [hhigh]
    exact fun hpacket => feed_dollar_state _ (state_of_packet hpacket)
  · exact hbyte (hhash.1.feed hhigh).1

/-- Items and the end of their frame, when the checksum is another: the parser has read the
items, or gave up at one of them and nothing after it starts a packet. -/
theorem Reading.frame_other {items : List DWItem} {high low : UInt8} (h : Reading q l n p)
    (hzero : q.zeroChecksum = false) (hi : WellFormed l items)
    (hsum : ¬ IsChecksum high low ((n + byteSum (itemBytes items)) % 256))
    (hstart : ∀ before after, items = before ++ after →
      q.capacity < (expand l before).length → DWItem.escaped 36 ∉ after) :
    ∀ e ∈ (respond dwFeed p (itemBytes items ++ [35, high, low])).2, e ≠ .packet := by
  induction items generalizing l n p with
  | nil => exact h.close_other hzero hsum
  | cons i items ih =>
      rw [itemBytes_cons, List.append_assoc, respond_append, List.forall_mem_append]
      by_cases hfits : (i.expand l).length ≤ q.capacity
      · obtain ⟨hread, hmore⟩ := h.item hi.1 hfits
        refine ⟨fun e he => hmore e he ▸ nofun, ih hread hi.2 ?_ ?_⟩
        · rwa [Nat.add_assoc, ← byteSum_append, ← itemBytes_cons]
        · exact fun before after heq => hstart (i :: before) after (congrArg (i :: ·) heq)
      · obtain ⟨hseek, hnone⟩ := h.item_overflow hi.1 (not_le.1 hfits)
        have hquiet := Quiet.items (Or.inl hseek) hi.2 (hstart [i] items rfl (not_le.1 hfits))
        rw [respond_append, List.forall_mem_append]
        exact ⟨hnone, hquiet.2, hquiet.1.close high low⟩

/-! ## Encoded payloads -/

def itemOf (b : UInt8) : DWItem :=
  if needsEscape b then .escaped (b ^^^ 0x20) else .literal b

theorem itemOf_wellFormed (l : List UInt8) (b : UInt8) : (itemOf b).WellFormed l := by
  rw [itemOf]
  split_ifs with h
  · trivial
  · simp only [needsEscape, Bool.or_eq_true, beq_iff_eq, not_or, and_assoc] at h
    exact h

theorem itemOf_expand (l : List UInt8) (b : UInt8) : (itemOf b).expand l = l ++ [b] := by
  rw [itemOf]
  split_ifs with h
  · rw [DWItem.expand, UInt8.xor_assoc, UInt8.xor_self, UInt8.xor_zero]
  · rfl

theorem wellFormed_itemOf (l payload : List UInt8) : WellFormed l (payload.map itemOf) := by
  induction payload generalizing l with
  | nil => trivial
  | cons b payload ih => exact ⟨itemOf_wellFormed l b, ih _⟩

theorem expand_itemOf (l payload : List UInt8) :
    expand l (payload.map itemOf) = l ++ payload := by
  induction payload generalizing l with
  | nil => exact (List.append_nil l).symm
  | cons b payload ih =>
      have hrest := ih ((itemOf b).expand l)
      rw [itemOf_expand, List.append_assoc] at hrest
      rw [List.map_cons, expand, List.foldl_cons, itemOf_expand]
      exact hrest

/-- What the loop of the encoder writes. -/
theorem dwBody_eq (payload out : List UInt8) (sum : UInt8) :
    (dwBody payload out sum).1 = out ++ itemBytes (payload.map itemOf) ∧
      (dwBody payload out sum).2.toNat =
        (sum.toNat + byteSum (itemBytes (payload.map itemOf))) % 256 := by
  induction payload generalizing out sum with
  | nil => exact ⟨(List.append_nil out).symm, (Nat.mod_eq_of_lt sum.toNat_lt).symm⟩
  | cons b payload ih =>
      rw [List.map_cons, itemBytes_cons, byteSum_append, ← List.append_assoc, ← Nat.add_assoc]
      rw [dwBody, itemOf]
      split_ifs
      · obtain ⟨hout, hsum⟩ := ih (out ++ [125] ++ [b ^^^ 0x20]) (sum + 125 + (b ^^^ 0x20))
        refine ⟨?_, ?_⟩
        · rw [hout, List.append_assoc out]
          rfl
        · rw [hsum, DWItem.bytes, add_byteSum_pair, UInt8.toNat_add, UInt8.toNat_add]
          omega
      · obtain ⟨hout, hsum⟩ := ih (out ++ [b]) (sum + b)
        refine ⟨hout, ?_⟩
        rw [hsum, UInt8.toNat_add, Nat.mod_add_mod]
        rfl

/-- The two digits that the encoder writes. -/
theorem isChecksum_digits (s : UInt8) :
    IsChecksum (digits.getD (s >>> 4).toNat 0) (digits.getD (s &&& 15).toNat 0) s.toNat := by
  have hhigh : (s >>> 4).toNat = s.toNat / 16 := by
    rw [UInt8.toNat_shiftRight]
    exact Nat.shiftRight_eq_div_pow _ 4
  have hlow : (s &&& 15).toNat = s.toNat % 16 := by
    rw [UInt8.toNat_and]
    exact Nat.and_two_pow_sub_one_eq_mod _ 4
  have hlt := s.toNat_lt
  refine ⟨s.toNat / 16, s.toNat % 16, ?_, ?_, Nat.div_add_mod _ _⟩
  · rw [hhigh]
    exact hex_digits _ (by omega)
  · rw [hlow]
    exact hex_digits _ (Nat.mod_lt _ (by decide))

theorem dwEncode_eq_some {payload bytes : List UInt8} {destination : Option ℕ}
    (h : dwEncode payload destination = some bytes) :
    ∃ high low, bytes = frame (payload.map itemOf) high low ∧
      IsChecksum high low (byteSum (itemBytes (payload.map itemOf)) % 256) := by
  cases destination with
  | none => cases h
  | some capacity =>
      rw [dwEncode] at h
      split_ifs at h
      cases hneeded : dwNeeded capacity payload (payload.length + 4) with
      | none =>
          rw [hneeded] at h
          cases h
      | some needed =>
          rw [hneeded] at h
          cases h
          obtain ⟨hout, hsum⟩ := dwBody_eq payload [36] 0
          refine ⟨_, _, congrArg (· ++ _) hout, ?_⟩
          have hdigits := isChecksum_digits (dwBody payload [36] 0).2
          rw [hsum, UInt8.toNat_zero, Nat.zero_add] at hdigits
          exact hdigits

/-! ## Exactness -/

def packetAnswers (bytes : List UInt8) : List DWEvent :=
  List.replicate (bytes.length - 1) .more ++ [.packet]

theorem eq_packetAnswers {bytes : List UInt8} {answers : List DWEvent}
    (hmore : ∀ e ∈ answers, e = .more) (hlength : answers.length + 1 = bytes.length) :
    answers ++ [.packet] = packetAnswers bytes := by
  rw [packetAnswers, ← hlength, Nat.add_sub_cancel, List.eq_replicate_iff.2 ⟨rfl, hmore⟩,
    List.length_replicate]

theorem respond_frame_eq (p : DWParser) (items : List DWItem) (high low : UInt8) :
    let body := respond dwFeed (dwFeed p 36).1 (itemBytes items)
    let close := respond dwFeed body.1 [35, high, low]
    respond dwFeed p (frame items high low) = (close.1, (dwFeed p 36).2 :: (body.2 ++ close.2)) := by
  rw [frame, List.append_assoc, List.singleton_append, respond_cons, respond_append]

theorem respond_frame {items : List DWItem} {high low : UInt8} (h : p.state = .seek)
    (hi : WellFormed [] items) (hsum : IsChecksum high low (byteSum (itemBytes items) % 256))
    (hfits : (expand [] items).length ≤ p.capacity) :
    (respond dwFeed p (frame items high low)).1.payload = expand [] items ∧
      (respond dwFeed p (frame items high low)).2 = packetAnswers (frame items high low) := by
  obtain ⟨hstart, hfirst⟩ := feed_dollar h
  obtain ⟨hread, hmore⟩ := hstart.items hi hfits
  rw [Nat.zero_add] at hread
  obtain ⟨hpayload, hend⟩ := hread.close hsum
  rw [respond_frame_eq, hend, hfirst]
  refine ⟨hpayload, ?_⟩
  have hbody : (respond dwFeed (dwFeed p 36).1 (itemBytes items)).2.length = _ :=
    length_respond _ _
  have hanswers : (.more :: ((respond dwFeed (dwFeed p 36).1 (itemBytes items)).2 ++
      [.more, .more])) ++ [.packet] = packetAnswers (frame items high low) := by
    refine eq_packetAnswers ?_ ?_
    · simp only [List.forall_mem_cons, List.forall_mem_append, List.not_mem_nil,
        false_implies, implies_true, and_true, true_and]
      exact hmore
    · simp only [frame, List.length_append, List.length_cons, List.length_nil, hbody]
      omega
  rw [← hanswers, List.cons_append, List.append_assoc]
  rfl

theorem respond_frame_other {items : List DWItem} {high low : UInt8} (h : p.state = .seek)
    (hzero : p.zeroChecksum = false) (hi : WellFormed [] items)
    (hsum : ¬ IsChecksum high low (byteSum (itemBytes items) % 256))
    (hstart : ∀ before after, items = before ++ after →
      p.capacity < (expand [] before).length → DWItem.escaped 36 ∉ after) :
    ∀ e ∈ (respond dwFeed p (frame items high low)).2, e ≠ .packet := by
  obtain ⟨hread, hfirst⟩ := feed_dollar h
  rw [← Nat.zero_add (byteSum _)] at hsum
  rw [frame, List.append_assoc, List.singleton_append, respond_cons]
  exact List.forall_mem_cons.2 ⟨hfirst ▸ nofun, hread.frame_other hzero hi hsum hstart⟩

/-- The codec is exact: an encoded payload comes back, a frame with its checksum is the
packet its items stand for where the buffer has room, and a frame with another checksum
is none, unless the buffer overflows and an escaped `$` after that starts a new one. -/
structure PacketsExact : Prop where
  encoded : ∀ payload destination bytes capacity, dwEncode payload destination = some bytes →
    payload.length ≤ capacity →
      (respond dwFeed (dwInit true capacity) bytes).1.payload = payload ∧
        (respond dwFeed (dwInit true capacity) bytes).2 = packetAnswers bytes
  framed : ∀ p items high low, p.state = .seek → WellFormed [] items →
    IsChecksum high low (byteSum (itemBytes items) % 256) →
    (expand [] items).length ≤ p.capacity →
      (respond dwFeed p (frame items high low)).1.payload = expand [] items ∧
        (respond dwFeed p (frame items high low)).2 = packetAnswers (frame items high low)
  other : ∀ p items high low, p.state = .seek → p.zeroChecksum = false → WellFormed [] items →
    ¬ IsChecksum high low (byteSum (itemBytes items) % 256) →
    (∀ before after, items = before ++ after →
      p.capacity < (expand [] before).length → DWItem.escaped 36 ∉ after) →
    .packet ∉ (respond dwFeed p (frame items high low)).2

theorem packets_exact : PacketsExact where
  encoded payload destination bytes capacity h hfits := by
    obtain ⟨high, low, rfl, hsum⟩ := dwEncode_eq_some h
    have hexpand := expand_itemOf [] payload
    rw [List.nil_append] at hexpand
    have hframe := respond_frame (p := dwInit true capacity) rfl (wellFormed_itemOf [] payload)
      hsum (by rwa [hexpand])
    rwa [hexpand] at hframe
  framed _ _ _ _ h hi hsum hfits := respond_frame h hi hsum hfits
  other _ _ _ _ h hzero hi hsum hstart hmem :=
    respond_frame_other h hzero hi hsum hstart _ hmem rfl

/-- An encoded `$a`, an `a` that is repeated, and the same with another checksum. -/
theorem packets_exact_repeated :
    let items := [.literal 97, .repeated 34]
    ((respond dwFeed (dwInit true 2) [36, 125, 4, 97, 35, 101, 50]).1.payload = [36, 97] ∧
      (respond dwFeed (dwInit true 2) [36, 125, 4, 97, 35, 101, 50]).2 =
        packetAnswers [36, 125, 4, 97, 35, 101, 50]) ∧
    ((respond dwFeed (dwInit true 8) (frame items 97 100)).1.payload =
        [97, 97, 97, 97, 97, 97] ∧
      (respond dwFeed (dwInit true 8) (frame items 97 100)).2 =
        packetAnswers (frame items 97 100)) ∧
    .packet ∉ (respond dwFeed (dwInit true 8) (frame items 48 48)).2 := by
  intro items
  have hitems : WellFormed [] items :=
    ⟨⟨by decide, by decide, by decide, by decide⟩,
      ⟨List.cons_ne_nil _ _, by decide, by decide, by decide, by decide, by decide, by decide⟩,
      trivial⟩
  have hsum : IsChecksum 97 100 (byteSum (itemBytes items) % 256) := ⟨10, 13, rfl, rfl, rfl⟩
  have hother : ¬ IsChecksum 48 48 (byteSum (itemBytes items) % 256) := by
    rintro ⟨a, b, ha, hb, hvalue⟩
    cases ha
    cases hb
    exact absurd hvalue (by decide)
  refine ⟨packets_exact.encoded [36, 97] (some 8) _ 2 rfl le_rfl,
    packets_exact.framed (dwInit true 8) items 97 100 rfl hitems hsum (by decide),
    packets_exact.other (dwInit true 8) items 48 48 rfl rfl hitems hother ?_⟩
  intro before after hsplit _ hmem
  have hescaped : DWItem.escaped 36 ∈ items := by
    rw [hsplit]
    exact List.mem_append_right before hmem
  exact absurd hescaped (by decide)

/-- An escaped `$` after the buffer has overflowed starts a packet, so that a frame with
another checksum than that of its items ends in one. -/
theorem packet_of_other_checksum :
    let p := dwInit true 0
    let items := [.literal 97, .escaped 36]
    p.state = .seek ∧ p.zeroChecksum = false ∧ WellFormed [] items ∧
      ¬ IsChecksum 48 48 (byteSum (itemBytes items) % 256) ∧
      .packet ∈ (respond dwFeed p (frame items 48 48)).2 := by
  have hliteral : (97 : UInt8) ≠ 36 ∧ (97 : UInt8) ≠ 35 ∧ (97 : UInt8) ≠ 125 ∧ (97 : UInt8) ≠ 42 :=
    by decide
  refine ⟨rfl, rfl, ⟨hliteral, trivial, trivial⟩, ?_, by decide⟩
  rintro ⟨a, b, ha, hb, hvalue⟩
  cases ha
  cases hb
  exact absurd hvalue (by decide)

end DebugWire

end Tolkara
