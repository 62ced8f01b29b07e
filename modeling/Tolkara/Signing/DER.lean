import Tolkara.Library.Delimited
import Tolkara.Library.Places

/-!
# Elements in DER and BER

The reader and the writer of `tools/sign_guest_local.m`. The strict reader takes definite
lengths in the shortest form, of at most four bytes, and tags of one byte. The reader of the
outer layers also takes a constructed element of indefinite length, which ends where an
end-of-contents marker stands in place of an element; its nesting is bounded. The writer does
not know the bound of four bytes.
-/

namespace Tolkara

namespace Signing

open Library

/-! ## Reading -/

structure Element where
  tag : UInt8
  content : List UInt8
deriving DecidableEq

structure Tlv extends Element where
  whole : List UInt8
deriving DecidableEq

/-- A length: its first byte, and what follows it. -/
def derLength (lb : UInt8) (p : List UInt8) : Option (ℕ × List UInt8) :=
  if lb &&& 0x80 = 0 then some (lb.toNat, p)
  else
    let n := (lb &&& 0x7f).toNat
    -- no indefinite form (0x80), at most 4 length bytes, no leading zero
    if n = 0 ∨ 4 < n ∨ p.length < n ∨ p.head? = some 0 then none
    else
      let len := placesValue 256 ((p.take n).map UInt8.toNat)
      if len < 0x80 then none else some (len, p.drop n)

def sglDerTlv : List UInt8 → Option (Tlv × List UInt8)
  | tag :: lb :: p =>
    if tag &&& 0x1f = 0x1f then none
    else
      match derLength lb p with
      | none => none
      | some (len, q) =>
        if q.length < len then none
        else
          some (⟨⟨tag, q.take len⟩, tag :: lb :: p.take (p.length - q.length + len)⟩, q.drop len)
  | _ => none

/-- `sgl_ber_tlv`, with the reader one level deeper. -/
def sglBerTlvWith (inner : Delimited UInt8 Element) : List UInt8 → Option (Element × List UInt8)
  | tag :: lb :: c =>
    if lb ≠ 0x80 then
      match sglDerTlv (tag :: lb :: c) with
      | none => none
      | some (t, rest) => some (t.toElement, rest)
    else if tag &&& 0x1f = 0x1f ∨ tag &&& 0x20 = 0 then none
    else
      match inner.seek [0, 0] c with
      | none => none
      | some q => some (⟨tag, c.take (c.length - q.length)⟩, q.drop 2)
  | _ => none

theorem length_derLength {lb : UInt8} {p q : List UInt8} {len : ℕ}
    (h : derLength lb p = some (len, q)) : q.length ≤ p.length := by
  unfold derLength at h
  split at h
  · obtain ⟨-, rfl⟩ := Prod.mk.inj (Option.some.inj h)
    exact le_rfl
  · dsimp only at h
    split at h
    · cases h
    · split at h
      · cases h
      · obtain ⟨-, rfl⟩ := Prod.mk.inj (Option.some.inj h)
        rw [List.length_drop]
        exact Nat.sub_le _ _

theorem length_sglDerTlv {l rest : List UInt8} {t : Tlv} (h : sglDerTlv l = some (t, rest)) :
    rest.length < l.length := by
  unfold sglDerTlv at h
  split at h
  · rename_i tag lb p
    split at h
    · cases h
    · cases hlen : derLength lb p with
      | none =>
          rw [hlen] at h
          cases h
      | some found =>
          obtain ⟨len, q⟩ := found
          rw [hlen] at h
          dsimp only at h
          split at h
          · cases h
          · obtain ⟨-, rfl⟩ := Prod.mk.inj (Option.some.inj h)
            have hq := length_derLength hlen
            rw [List.length_drop, List.length_cons, List.length_cons]
            omega
  · cases h

theorem length_sglBerTlvWith {inner : Delimited UInt8 Element} {l rest : List UInt8} {e : Element}
    (h : sglBerTlvWith inner l = some (e, rest)) : rest.length < l.length := by
  unfold sglBerTlvWith at h
  split at h
  · rename_i tag lb c
    split at h
    · cases hder : sglDerTlv (tag :: lb :: c) with
      | none =>
          rw [hder] at h
          cases h
      | some found =>
          rw [hder] at h
          obtain ⟨-, rfl⟩ := Prod.mk.inj (Option.some.inj h)
          exact length_sglDerTlv hder
    · split at h
      · cases h
      · cases hseek : inner.seek [0, 0] c with
        | none =>
            rw [hseek] at h
            cases h
        | some q =>
            rw [hseek] at h
            obtain ⟨-, rfl⟩ := Prod.mk.inj (Option.some.inj h)
            have hq := Delimited.length_le_of_seek hseek
            rw [List.length_drop, List.length_cons, List.length_cons]
            omega
  · cases h

def der : Delimited UInt8 Tlv := ⟨sglDerTlv, length_sglDerTlv⟩

def ber : ℕ → Delimited UInt8 Element
  | 0 => ⟨fun _ => none, nofun⟩
  | levels + 1 => ⟨sglBerTlvWith (ber levels), length_sglBerTlvWith⟩

/-- `sgl_ber_tlv`. A depth above 16 is refused. -/
def sglBerTlv (depth : ℕ) (l : List UInt8) : Option (Element × List UInt8) :=
  (ber (17 - depth)).next l

def sglBerNext (depth : ℕ) (want : UInt8) (l : List UInt8) : Option (List UInt8 × List UInt8) :=
  match sglBerTlv depth l with
  | none => none
  | some (e, rest) => if e.tag = want then some (e.content, rest) else none

def sglDerNext (want : UInt8) (l : List UInt8) : Option (Tlv × List UInt8) :=
  match sglDerTlv l with
  | none => none
  | some (t, rest) => if t.tag = want then some (t, rest) else none

theorem sglDerNext_eq_some {want : UInt8} {l rest : List UInt8} {t : Tlv} :
    sglDerNext want l = some (t, rest) ↔ sglDerTlv l = some (t, rest) ∧ t.tag = want := by
  unfold sglDerNext
  cases sglDerTlv l with
  | none => exact ⟨nofun, fun h => nomatch h.1⟩
  | some found =>
      obtain ⟨t', rest'⟩ := found
      dsimp only
      constructor
      · intro h
        split at h
        · rename_i htag
          obtain ⟨rfl, rfl⟩ := Prod.mk.inj (Option.some.inj h)
          exact ⟨rfl, htag⟩
        · cases h
      · rintro ⟨h, htag⟩
        obtain ⟨rfl, rfl⟩ := Prod.mk.inj (Option.some.inj h)
        exact if_pos htag

def derOf (want : UInt8) : Delimited UInt8 Tlv :=
  ⟨sglDerNext want, fun h => length_sglDerTlv (sglDerNext_eq_some.1 h).1⟩

/-- `sgl_alg_id`: the OID of an algorithm whose parameters are absent or NULL. -/
def sglAlgId (alg : List UInt8) : Option (List UInt8) :=
  match sglDerNext 0x06 alg with
  | none => none
  | some (oid, []) => some oid.content
  | some (oid, alg) =>
    match sglDerNext 0x05 alg with
    | none => none
    | some (null, alg) => if null.content = [] ∧ alg = [] then some oid.content else none

/-! ## Writing -/

def sglDerLen (len : ℕ) : List UInt8 :=
  if len < 0x80 then [UInt8.ofNat len]
  else
    let bytes := places 256 8 len
    UInt8.ofNat (0x80 ||| bytes.length) :: bytes.map UInt8.ofNat

def sglDer (tag : UInt8) (content : List UInt8) : List UInt8 :=
  tag :: (sglDerLen content.length ++ content)

def sglAlgSeq (oid : List UInt8) (withNull : Bool) : List UInt8 :=
  sglDer 0x30 (sglDer 0x06 oid ++ if withNull then [0x05, 0x00] else [])

/-! ## What is written is read -/

/-- A content whose length the reader takes. -/
def Fits (content : List UInt8) : Prop := content.length < 2 ^ 32

theorem Fits.mono {c c' : List UInt8} (h : Fits c') (hle : c.length ≤ c'.length) : Fits c :=
  Nat.lt_of_le_of_lt hle h

theorem shortLength : ∀ n < 0x80, UInt8.ofNat n &&& 0x80 = 0 ∧ UInt8.ofNat n ≠ 0x80 := by
  decide

theorem longLength : ∀ n < 9, n ≠ 0 → UInt8.ofNat (0x80 ||| n) &&& 0x80 ≠ 0 ∧
    (UInt8.ofNat (0x80 ||| n) &&& 0x7f).toNat = n ∧ UInt8.ofNat (0x80 ||| n) ≠ 0x80 := by
  decide

theorem map_toNat_ofNat {l : List ℕ} (h : ∀ d ∈ l, d < 256) :
    (l.map UInt8.ofNat).map UInt8.toNat = l := by
  rw [List.map_map]
  conv_rhs => rw [← List.map_id l]
  refine List.map_congr_left fun d hd => ?_
  rw [Function.comp_apply, UInt8.toNat_ofNat', Nat.mod_eq_of_lt (h d hd)]
  rfl

/-- A length below `2 ^ 32` is read back, whatever follows it. -/
theorem derLength_sglDerLen {len : ℕ} (h : len < 2 ^ 32) :
    ∃ lb t, sglDerLen len = lb :: t ∧ lb ≠ 0x80 ∧ ∀ s, derLength lb (t ++ s) = some (len, s) := by
  by_cases hshort : len < 0x80
  · obtain ⟨hbit, hne⟩ := shortLength len hshort
    refine ⟨UInt8.ofNat len, [], if_pos hshort, hne, fun s => ?_⟩
    rw [derLength, if_pos hbit, UInt8.toNat_ofNat', Nat.mod_eq_of_lt (by omega)]
    rfl
  · have hroom : len < 256 ^ 8 := Nat.lt_of_lt_of_le h (by norm_num)
    have hlength : (places 256 8 len).length ≤ 4 :=
      (length_places_le_iff (by norm_num) hroom).2 (by norm_num; exact h)
    obtain ⟨d, l, hplaces, hd⟩ := places_eq_cons (b := 256) (by norm_num) hroom (by omega)
    have hd256 : d < 256 := lt_of_mem_places (by norm_num) d (hplaces ▸ List.mem_cons_self)
    have hpos : (places 256 8 len).length ≠ 0 := by
      rw [hplaces]
      exact Nat.succ_ne_zero _
    obtain ⟨hbit, hn, hne⟩ := longLength _ (by omega) hpos
    refine ⟨_, _, if_neg hshort, hne, fun s => ?_⟩
    have hhead : ((places 256 8 len).map UInt8.ofNat ++ s).head? ≠ some 0 := by
      rw [hplaces]
      intro hzero
      have hbyte : UInt8.ofNat d = 0 := Option.some.inj hzero
      have hnat := congrArg UInt8.toNat hbyte
      rw [UInt8.toNat_ofNat', Nat.mod_eq_of_lt hd256] at hnat
      exact hd hnat
    have hroomy : ¬ ((places 256 8 len).map UInt8.ofNat ++ s).length <
        (places 256 8 len).length := by
      rw [List.length_append, List.length_map]
      omega
    have htaken : ¬ ((places 256 8 len).length = 0 ∨ 4 < (places 256 8 len).length ∨
        ((places 256 8 len).map UInt8.ofNat ++ s).length < (places 256 8 len).length ∨
        ((places 256 8 len).map UInt8.ofNat ++ s).head? = some 0) := by
      rintro (hzero | hmany | hless | hleading)
      · exact hpos hzero
      · exact absurd hmany (Nat.not_lt.2 hlength)
      · exact hroomy hless
      · exact hhead hleading
    have htake : ((places 256 8 len).map UInt8.ofNat ++ s).take (places 256 8 len).length =
        (places 256 8 len).map UInt8.ofNat := List.take_left' (List.length_map _)
    have hdrop : ((places 256 8 len).map UInt8.ofNat ++ s).drop (places 256 8 len).length = s :=
      List.drop_left' (List.length_map _)
    rw [derLength, if_neg hbit, hn, if_neg htaken, htake, hdrop,
      map_toNat_ofNat (lt_of_mem_places (by norm_num)), placesValue_places (by norm_num) hroom,
      if_neg hshort]

theorem derLength_sglDerLen_of_le {len : ℕ} (h : 2 ^ 32 ≤ len) :
    ∃ lb t, sglDerLen len = lb :: t ∧ lb ≠ 0x80 ∧ ∀ s, derLength lb (t ++ s) = none := by
  have hlong : 4 < (places 256 8 len).length :=
    lt_length_places (by norm_num) (by norm_num) (by norm_num; exact h)
  have hroom : (places 256 8 len).length ≤ 8 := length_places_le
  obtain ⟨hbit, hn, hne⟩ := longLength (places 256 8 len).length (by omega) (by omega)
  refine ⟨_, _, if_neg (by omega), hne, fun s => ?_⟩
  rw [derLength, if_neg hbit, hn, if_pos (Or.inr (Or.inl hlong))]

theorem length_sglDer (tag : UInt8) (c : List UInt8) :
    (sglDer tag c).length = (sglDerLen c.length).length + c.length + 1 := by
  rw [sglDer, List.length_cons, List.length_append]

theorem length_lt_length_sglDer (tag : UInt8) (c : List UInt8) :
    c.length < (sglDer tag c).length := by
  rw [length_sglDer]
  omega

theorem der_writes {tag : UInt8} {c : List UInt8} (htag : tag &&& 0x1f ≠ 0x1f) (hc : Fits c) :
    der.Writes (sglDer tag c) ⟨⟨tag, c⟩, sglDer tag c⟩ := by
  intro s
  obtain ⟨lb, t, hlen, -, hread⟩ := derLength_sglDerLen hc
  have hbytes : sglDer tag c ++ s = tag :: lb :: (t ++ (c ++ s)) := by
    rw [sglDer, hlen, List.cons_append, List.cons_append, List.cons_append, List.append_assoc]
  change sglDerTlv (sglDer tag c ++ s) = _
  rw [hbytes, sglDerTlv, if_neg htag, hread]
  have hroomy : ¬ (c ++ s).length < c.length := by
    rw [List.length_append]
    omega
  have hheader : (t ++ (c ++ s)).length - (c ++ s).length + c.length = (t ++ c).length := by
    simp only [List.length_append]
    omega
  have hwhole : tag :: lb :: (t ++ c) = sglDer tag c := by
    rw [sglDer, hlen]
    rfl
  dsimp only
  rw [if_neg hroomy, List.take_left, List.drop_left, hheader, ← List.append_assoc, List.take_left,
    hwhole]

/-- A content that does not fit makes the element unreadable. -/
theorem sglDerTlv_of_not_fits (tag : UInt8) {c : List UInt8} (hc : ¬ Fits c) (s : List UInt8) :
    sglDerTlv (sglDer tag c ++ s) = none := by
  obtain ⟨lb, t, hlen, -, hread⟩ := derLength_sglDerLen_of_le (Nat.not_lt.1 hc)
  have hbytes : sglDer tag c ++ s = tag :: lb :: (t ++ (c ++ s)) := by
    rw [sglDer, hlen, List.cons_append, List.cons_append, List.cons_append, List.append_assoc]
  rw [hbytes, sglDerTlv, hread]
  split
  · rfl
  · rfl

/-! ## What is read stands alone -/

theorem derLength_eq_some {lb : UInt8} {p q : List UInt8} {len : ℕ}
    (h : derLength lb p = some (len, q)) :
    ∃ t, p = t ++ q ∧ ∀ s, derLength lb (t ++ s) = some (len, s) := by
  unfold derLength at h
  split at h
  · rename_i hshort
    obtain ⟨rfl, rfl⟩ := Prod.mk.inj (Option.some.inj h)
    exact ⟨[], rfl, fun s => if_pos hshort⟩
  · rename_i hlong
    dsimp only at h
    split at h
    · cases h
    · rename_i hform
      split at h
      · cases h
      · rename_i hminimal
        obtain ⟨rfl, rfl⟩ := Prod.mk.inj (Option.some.inj h)
        obtain ⟨hpos, hmany, hroom, hhead⟩ : (lb &&& 0x7f).toNat ≠ 0 ∧ ¬ 4 < (lb &&& 0x7f).toNat ∧
            ¬ p.length < (lb &&& 0x7f).toNat ∧ p.head? ≠ some 0 := by tauto
        have hlength : (p.take (lb &&& 0x7f).toNat).length = (lb &&& 0x7f).toNat := by
          rw [List.length_take]
          omega
        refine ⟨p.take (lb &&& 0x7f).toNat, (List.take_append_drop _ _).symm, fun s => ?_⟩
        have hform' : ¬ ((lb &&& 0x7f).toNat = 0 ∨ 4 < (lb &&& 0x7f).toNat ∨
            (p.take (lb &&& 0x7f).toNat ++ s).length < (lb &&& 0x7f).toNat ∨
            (p.take (lb &&& 0x7f).toNat ++ s).head? = some 0) := by
          rintro (hzero | hover | hless | hleading)
          · exact hpos hzero
          · exact hmany hover
          · rw [List.length_append] at hless
            omega
          · rw [List.head?_append_of_ne_nil _ (List.ne_nil_of_length_pos (by omega)),
              List.head?_take, if_neg hpos] at hleading
            exact hhead hleading
        rw [derLength, if_neg hlong]
        dsimp only
        rw [if_neg hform', List.take_left' hlength, List.drop_left' hlength, if_neg hminimal]

/-- What is read begins with the bytes of the element, and these alone decide what is read. -/
theorem sglDerTlv_eq_some {l rest : List UInt8} {t : Tlv} (h : sglDerTlv l = some (t, rest)) :
    l = t.whole ++ rest ∧ der.Writes t.whole t := by
  unfold sglDerTlv at h
  split at h
  · rename_i tag lb p
    split at h
    · cases h
    · rename_i htag
      cases hlen : derLength lb p with
      | none =>
          rw [hlen] at h
          cases h
      | some found =>
          obtain ⟨len, q⟩ := found
          obtain ⟨header, rfl, hread⟩ := derLength_eq_some hlen
          rw [hlen] at h
          dsimp only at h
          split at h
          · cases h
          · rename_i hroom
            obtain ⟨rfl, rfl⟩ := Prod.mk.inj (Option.some.inj h)
            have hheader : (header ++ q).length - q.length + len = header.length + len := by
              rw [List.length_append]
              omega
            have hlength : (q.take len).length = len := by
              rw [List.length_take]
              omega
            dsimp only
            rw [hheader, List.take_length_add_append]
            refine ⟨?_, fun s => ?_⟩
            · rw [List.cons_append, List.cons_append, List.append_assoc, List.take_append_drop]
            · have hroom' : ¬ (q.take len ++ s).length < len := by
                rw [List.length_append]
                omega
              have hheader' : (header ++ (q.take len ++ s)).length - (q.take len ++ s).length + len =
                  header.length + len := by
                rw [List.length_append]
                omega
              change sglDerTlv (tag :: lb :: (header ++ q.take len ++ s)) = _
              rw [List.append_assoc, sglDerTlv, if_neg htag, hread]
              dsimp only
              rw [if_neg hroom', hheader', List.take_length_add_append, List.take_left' hlength,
                List.drop_left' hlength]
  · cases h

/-! ## Tags -/

theorem sglDerNext_of_writes {t : Tlv} (h : der.Writes t.whole t) (s : List UInt8) :
    sglDerNext t.tag (t.whole ++ s) = some (t, s) :=
  sglDerNext_eq_some.2 ⟨h s, rfl⟩

theorem derOf_writes {t : Tlv} (h : der.Writes t.whole t) : (derOf t.tag).Writes t.whole t :=
  sglDerNext_of_writes h

theorem sglDerNext_sglDer {tag : UInt8} {c : List UInt8} (htag : tag &&& 0x1f ≠ 0x1f) (hc : Fits c)
    (s : List UInt8) :
    sglDerNext tag (sglDer tag c ++ s) = some (⟨⟨tag, c⟩, sglDer tag c⟩, s) :=
  sglDerNext_of_writes (t := ⟨⟨tag, c⟩, sglDer tag c⟩) (der_writes htag hc) s

theorem sglDerNext_sglDer_nil {tag : UInt8} {c : List UInt8} (htag : tag &&& 0x1f ≠ 0x1f)
    (hc : Fits c) : sglDerNext tag (sglDer tag c) = some (⟨⟨tag, c⟩, sglDer tag c⟩, []) := by
  have hread := sglDerNext_sglDer htag hc []
  rwa [List.append_nil] at hread

/-! ## The outer layers -/

def indefinite (tag : UInt8) (content : List UInt8) : List UInt8 :=
  tag :: 0x80 :: (content ++ [0, 0])

/-- An element that a reader of so many levels takes, and that does not look like a marker. -/
def BerItem (levels : ℕ) (i : List UInt8) : Prop :=
  (∃ x, (ber levels).Writes i x) ∧ ∀ s, ¬ [0, 0] <+: i ++ s

theorem not_marker {b : UInt8} (hb : b ≠ 0) (l : List UInt8) : ¬ [0, 0] <+: b :: l := by
  intro h
  exact hb (List.cons_prefix_cons.1 h).1.symm

theorem ber_next_sglDer (levels : ℕ) {tag : UInt8} {c : List UInt8} (htag : tag &&& 0x1f ≠ 0x1f)
    (hc : Fits c) : (ber (levels + 1)).Writes (sglDer tag c) ⟨tag, c⟩ := by
  intro s
  obtain ⟨lb, t, hlen, hne, -⟩ := derLength_sglDerLen hc
  have hread : sglDerTlv (sglDer tag c ++ s) = some (⟨⟨tag, c⟩, sglDer tag c⟩, s) :=
    der_writes htag hc s
  change sglBerTlvWith (ber levels) (sglDer tag c ++ s) = _
  rw [sglDer, hlen] at hread ⊢
  rw [List.cons_append, List.cons_append, List.cons_append] at hread ⊢
  rw [sglBerTlvWith, if_pos hne, hread]

theorem ber_next_of_not_fits (levels : ℕ) (tag : UInt8) {c : List UInt8} (hc : ¬ Fits c)
    (s : List UInt8) : (ber levels).next (sglDer tag c ++ s) = none := by
  cases levels with
  | zero => rfl
  | succ levels =>
      obtain ⟨lb, t, hlen, hne, -⟩ := derLength_sglDerLen_of_le (Nat.not_lt.1 hc)
      have hread := sglDerTlv_of_not_fits tag hc s
      change sglBerTlvWith (ber levels) (sglDer tag c ++ s) = none
      rw [sglDer, hlen] at hread ⊢
      rw [List.cons_append, List.cons_append, List.cons_append] at hread ⊢
      rw [sglBerTlvWith, if_pos hne, hread]

theorem berItem_sglDer (levels : ℕ) {tag : UInt8} {c : List UInt8} (htag : tag &&& 0x1f ≠ 0x1f)
    (hne : tag ≠ 0) (hc : Fits c) : BerItem (levels + 1) (sglDer tag c) :=
  ⟨⟨_, ber_next_sglDer levels htag hc⟩, fun _ => not_marker hne _⟩

/-- Elements up to their marker are read as one element, whatever they contain. -/
theorem ber_next_indefinite {levels : ℕ} {tag : UInt8} {items : List (List UInt8)}
    (htag : tag &&& 0x1f ≠ 0x1f) (hconstructed : tag &&& 0x20 ≠ 0)
    (h : ∀ i ∈ items, BerItem levels i) :
    (ber (levels + 1)).Writes (indefinite tag items.flatten) ⟨tag, items.flatten⟩ := by
  intro s
  have hseek : (ber levels).seek [0, 0] (items.flatten ++ ([0, 0] ++ s)) = some ([0, 0] ++ s) := by
    rw [Delimited.seek_flatten h]
    exact Delimited.seek_of_marker (List.prefix_append _ _)
  have hcontent : (items.flatten ++ ([0, 0] ++ s)).length - ([0, 0] ++ s).length =
      items.flatten.length := by
    rw [List.length_append]
    omega
  have hbytes : indefinite tag items.flatten ++ s =
      tag :: 0x80 :: (items.flatten ++ ([0, 0] ++ s)) := by
    rw [indefinite, List.cons_append, List.cons_append, List.append_assoc]
  change sglBerTlvWith (ber levels) (indefinite tag items.flatten ++ s) = _
  rw [hbytes, sglBerTlvWith, if_neg (not_not.2 rfl), if_neg (not_or.2 ⟨htag, hconstructed⟩), hseek]
  dsimp only
  rw [hcontent, List.take_left]
  rfl

theorem berItem_indefinite {levels : ℕ} {tag : UInt8} {items : List (List UInt8)}
    (htag : tag &&& 0x1f ≠ 0x1f) (hconstructed : tag &&& 0x20 ≠ 0)
    (h : ∀ i ∈ items, BerItem levels i) : BerItem (levels + 1) (indefinite tag items.flatten) := by
  refine ⟨⟨_, ber_next_indefinite htag hconstructed h⟩, fun _ => not_marker ?_ _⟩
  rintro rfl
  exact hconstructed rfl

/-- An element that cannot be read makes the one around it unreadable. -/
theorem ber_next_indefinite_of_none {levels : ℕ} {tag : UInt8} {items : List (List UInt8)}
    {l : List UInt8} (h : ∀ i ∈ items, BerItem levels i) (hmarker : ¬ [0, 0] <+: l)
    (hnone : (ber levels).next l = none) :
    (ber (levels + 1)).next (tag :: 0x80 :: (items.flatten ++ l)) = none := by
  have hseek : (ber levels).seek [0, 0] (items.flatten ++ l) = none := by
    rw [Delimited.seek_flatten h, Delimited.seek_of_not_marker hmarker, hnone]
  change sglBerTlvWith (ber levels) (tag :: 0x80 :: (items.flatten ++ l)) = none
  rw [sglBerTlvWith, if_neg (not_not.2 rfl), hseek]
  split
  · rfl
  · rfl

end Signing

end Tolkara
