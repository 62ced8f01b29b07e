import Tolkara.Library.Groups
import Tolkara.Pairing.Wire

/-!
# The fields of a pairing message

A message is a sequence of fragments, each a type and at most 255 bytes. `PairingTLV.decode`
takes those messages apart in which the fragments of a type are contiguous, and joins them
(`decodeLoop_ok_iff`); `PairingTLV.encode` writes such a sequence, so that decoding gives its
entries back. Both stop at the limit of a message.
-/

namespace Tolkara

open Library

namespace PairingTLV

/-! ## Fragments -/

/-- A type and at most 255 bytes. -/
structure Fragment where
  type : UInt8
  bytes : List UInt8
  small : bytes.length ≤ 255

namespace Fragment

def encode (f : Fragment) : List UInt8 := f.type :: UInt8.ofNat f.bytes.length :: f.bytes

theorem toNat_length (f : Fragment) : (UInt8.ofNat f.bytes.length).toNat = f.bytes.length := by
  have hsmall := f.small
  rw [UInt8.toNat_ofNat']
  omega

end Fragment

/-- The bytes are complete fragments, those of a type contiguous. -/
def Fragmented (data : List UInt8) : Prop :=
  ∃ fs : List Fragment, data = fs.flatMap Fragment.encode ∧ Contiguous Fragment.type fs

/-! ## Decoding -/

def join (fields : List (UInt8 × List UInt8)) (f : Fragment) : List (UInt8 × List UInt8) :=
  append fields f.type f.bytes

theorem isSome_field {fields : List (UInt8 × List UInt8)} {type : UInt8} :
    (field fields type).isSome ↔ type ∈ fields.map Prod.fst := by
  unfold field
  induction fields with
  | nil => simp
  | cons p fields ih =>
      rw [List.lookup_cons, List.map_cons, List.mem_cons]
      by_cases htype : type = p.1
      · simp [htype]
      · rw [beq_false_of_ne htype]
        simp [htype, ih]

theorem mem_types_append {fields : List (UInt8 × List UInt8)} {type t : UInt8} {bytes : List UInt8} :
    t ∈ (append fields type bytes).map Prod.fst ↔ t ∈ type :: fields.map Prod.fst := by
  induction fields with
  | nil => rfl
  | cons p fields ih =>
      unfold append
      by_cases htype : p.1 = type
      · rw [if_pos htype]
        simp [htype]
      · rw [if_neg htype, List.map_cons, List.mem_cons, ih, List.map_cons, List.mem_cons,
          List.mem_cons, List.mem_cons]
        exact or_left_comm

theorem decodeLoop_ok_iff {rounds : ℕ} {bytes : List UInt8} {fields : List (UInt8 × List UInt8)}
    {previous : Option UInt8} {result : List (UInt8 × List UInt8)} (h : bytes.length ≤ rounds) :
    decodeLoop rounds bytes fields previous = .ok result ↔
      ∃ fs : List Fragment, bytes = fs.flatMap Fragment.encode ∧
        Follows Fragment.type (fields.map Prod.fst) previous fs ∧ result = fs.foldl join fields := by
  induction rounds generalizing bytes fields previous with
  | zero =>
      obtain rfl : bytes = [] := List.eq_nil_of_length_eq_zero (Nat.le_zero.1 h)
      rw [decodeLoop, Except.ok.injEq]
      constructor
      · rintro rfl
        exact ⟨[], rfl, trivial, rfl⟩
      · rintro ⟨fs, hbytes, -, rfl⟩
        cases fs with
        | nil => rfl
        | cons f fs => cases hbytes
  | succ rounds ih =>
      match bytes with
      | [] =>
          rw [decodeLoop, Except.ok.injEq]
          constructor
          · rintro rfl
            exact ⟨[], rfl, trivial, rfl⟩
          · rintro ⟨fs, hbytes, -, rfl⟩
            cases fs with
            | nil => rfl
            | cons f fs => cases hbytes
      | [b] =>
          rw [decodeLoop]
          refine ⟨nofun, ?_⟩
          rintro ⟨fs, hbytes, -, -⟩
          cases fs with
          | nil => cases hbytes
          | cons f fs =>
              have hlength := congrArg List.length hbytes
              simp [Fragment.encode] at hlength
      | type :: count :: rest =>
          rw [decodeLoop]
          simp only [List.length_cons] at h
          constructor
          · intro hok
            split_ifs at hok with hcount hseen
            obtain ⟨fs, hrest, hfollows, hresult⟩ :=
              (ih (by rw [List.length_drop]; omega)).1 hok
            rw [not_lt] at hcount
            have hlength : (rest.take count.toNat).length = count.toNat := by
              rw [List.length_take, Nat.min_eq_left hcount]
            have hsmall : (rest.take count.toNat).length ≤ 255 := by
              rw [hlength]
              exact Nat.le_of_lt_succ count.toNat_lt
            refine ⟨⟨type, rest.take count.toNat, hsmall⟩ :: fs, ?_, ⟨?_, ?_⟩, hresult⟩
            · rw [List.flatMap_cons, Fragment.encode, hlength, ← hrest, UInt8.ofNat_toNat]
              simp
            · intro hmem
              by_contra hprevious
              exact hseen ⟨isSome_field.2 hmem, hprevious⟩
            · exact hfollows.congr fun t => mem_types_append.symm
          · rintro ⟨fs, hbytes, hfollows, rfl⟩
            cases fs with
            | nil => cases hbytes
            | cons f fs =>
                rw [List.flatMap_cons, Fragment.encode] at hbytes
                simp only [List.cons_append, List.cons.injEq] at hbytes
                obtain ⟨rfl, rfl, rfl⟩ := hbytes
                rw [f.toNat_length, List.length_append, if_neg (by omega), if_neg, List.drop_left,
                  List.take_left, ih]
                · exact ⟨fs, rfl, hfollows.2.congr fun t => mem_types_append, rfl⟩
                · rw [List.length_append] at h
                  omega
                · rintro ⟨hsome, hprevious⟩
                  exact hprevious (hfollows.1 (isSome_field.1 hsome))

theorem decode_ok_iff {data : List UInt8} :
    (∃ fields, decode data = .ok fields) ↔ data.length ≤ limit ∧ Fragmented data := by
  unfold decode
  by_cases hlimit : limit < data.length
  · rw [if_pos hlimit]
    exact ⟨fun ⟨_, h⟩ => (by cases h), fun h => absurd hlimit (not_lt.2 h.1)⟩
  · rw [if_neg hlimit, and_iff_right (not_lt.1 hlimit)]
    constructor
    · rintro ⟨fields, hok⟩
      obtain ⟨fs, hdata, hfollows, -⟩ := (decodeLoop_ok_iff le_rfl).1 hok
      exact ⟨fs, hdata, follows_iff_contiguous.1 hfollows⟩
    · rintro ⟨fs, hdata, hcontiguous⟩
      exact ⟨_, (decodeLoop_ok_iff le_rfl).2
        ⟨fs, hdata, follows_iff_contiguous.2 hcontiguous, rfl⟩⟩

/-! ## Encoding -/

def cut (type : UInt8) : ℕ → List UInt8 → List Fragment
  | 0, _ => []
  | rounds + 1, bytes =>
    if bytes = [] then []
    else ⟨type, bytes.take 255, List.length_take_le _ _⟩ :: cut type rounds (bytes.drop 255)

def pieces (entry : UInt8 × List UInt8) : List Fragment :=
  if entry.2 = [] then [⟨entry.1, [], Nat.zero_le _⟩] else cut entry.1 entry.2.length entry.2

theorem fragments_eq (type : UInt8) (rounds : ℕ) (bytes : List UInt8) :
    fragments type rounds bytes = (cut type rounds bytes).flatMap Fragment.encode := by
  induction rounds generalizing bytes with
  | zero => rfl
  | succ rounds ih =>
      unfold fragments cut
      split
      · rfl
      · rw [ih, List.flatMap_cons, Fragment.encode, List.length_take]
        rfl

theorem pieces_eq (type : UInt8) (value : List UInt8) :
    (if value = [] then [type, 0] else []) ++ fragments type value.length value =
      (pieces (type, value)).flatMap Fragment.encode := by
  unfold pieces
  by_cases hvalue : value = []
  · rw [if_pos hvalue, if_pos hvalue, hvalue]
    rfl
  · rw [if_neg hvalue, if_neg hvalue, List.nil_append]
    exact fragments_eq type value.length value

theorem length_cut (type : UInt8) {rounds : ℕ} {bytes : List UInt8} (h : bytes.length ≤ rounds) :
    ((cut type rounds bytes).flatMap Fragment.encode).length =
      bytes.length + (bytes.length + 254) / 255 * 2 := by
  induction rounds generalizing bytes with
  | zero =>
      rw [List.eq_nil_of_length_eq_zero (Nat.le_zero.1 h)]
      rfl
  | succ rounds ih =>
      unfold cut
      split
      · rename_i hempty
        rw [hempty]
        rfl
      · rename_i hbytes
        have hpos := List.length_pos_of_ne_nil hbytes
        rw [List.flatMap_cons, List.length_append, ih (by rw [List.length_drop]; omega)]
        simp only [Fragment.encode, List.length_cons, List.length_take, List.length_drop]
        omega

theorem length_pieces (type : UInt8) (value : List UInt8) :
    ((pieces (type, value)).flatMap Fragment.encode).length =
      value.length + max 1 ((value.length + 254) / 255) * 2 := by
  unfold pieces
  by_cases hvalue : value = []
  · rw [if_pos hvalue, hvalue]
    rfl
  · have hpos := List.length_pos_of_ne_nil hvalue
    rw [if_neg hvalue, length_cut _ le_rfl, Nat.max_eq_right (by omega)]

/-- What `encode` writes, and that the types are new. -/
theorem encodeLoop_ok {entries : List (UInt8 × List UInt8)} {seen result bytes : List UInt8}
    (hresult : result.length ≤ limit) (h : encodeLoop entries seen result = .ok bytes) :
    bytes = result ++ (entries.flatMap pieces).flatMap Fragment.encode ∧ bytes.length ≤ limit ∧
      (entries.map Prod.fst).Nodup ∧ ∀ e ∈ entries, e.1 ∉ seen := by
  induction entries generalizing seen result with
  | nil =>
      cases h
      exact ⟨(List.append_nil _).symm, hresult, List.nodup_nil, List.forall_mem_nil _⟩
  | cons entry entries ih =>
      obtain ⟨type, value⟩ := entry
      rw [encodeLoop] at h
      split at h
      · cases h
      rename_i hseen
      split at h
      · cases h
      split at h
      · cases h
      rename_i hsize
      dsimp only at h
      have hpieces : (if value = [] then result ++ [type, 0] else result) ++
          fragments type value.length value =
          result ++ (pieces (type, value)).flatMap Fragment.encode := by
        rw [← pieces_eq]
        split <;> simp
      rw [hpieces] at h
      obtain ⟨hbytes, hlength, hnodup, hnew⟩ := ih (by
        rw [List.length_append, length_pieces]
        omega) h
      refine ⟨?_, hlength, ?_, ?_⟩
      · rw [hbytes, List.flatMap_cons, List.flatMap_append, List.append_assoc]
      · rw [List.map_cons, List.nodup_cons]
        refine ⟨fun hmem => ?_, hnodup⟩
        obtain ⟨e, he, htype⟩ := List.mem_map.1 hmem
        exact hnew e he (htype ▸ List.mem_cons_self)
      · intro e he
        rcases List.mem_cons.1 he with rfl | hrest
        · exact hseen
        · exact fun hmem => hnew e hrest (List.mem_cons_of_mem _ hmem)

/-! ## The round trip -/

theorem append_new {fields : List (UInt8 × List UInt8)} {type : UInt8}
    (hnew : type ∉ fields.map Prod.fst) (bytes : List UInt8) :
    append fields type bytes = fields ++ [(type, bytes)] := by
  induction fields with
  | nil => rfl
  | cons p fields ih =>
      rw [List.map_cons, List.mem_cons, not_or] at hnew
      unfold append
      rw [if_neg (Ne.symm hnew.1), ih hnew.2, List.cons_append]

theorem append_last {fields : List (UInt8 × List UInt8)} {type : UInt8}
    (hnew : type ∉ fields.map Prod.fst) (value bytes : List UInt8) :
    append (fields ++ [(type, value)]) type bytes = fields ++ [(type, value ++ bytes)] := by
  induction fields with
  | nil => simp [append]
  | cons p fields ih =>
      rw [List.map_cons, List.mem_cons, not_or] at hnew
      rw [List.cons_append, append, if_neg (Ne.symm hnew.1), ih hnew.2, List.cons_append]

theorem join_cut {fields : List (UInt8 × List UInt8)} {type : UInt8}
    (hnew : type ∉ fields.map Prod.fst) {rounds : ℕ} {bytes : List UInt8}
    (h : bytes.length ≤ rounds) (value : List UInt8) (later : List Fragment) :
    (cut type rounds bytes ++ later).foldl join (fields ++ [(type, value)]) =
      later.foldl join (fields ++ [(type, value ++ bytes)]) := by
  induction rounds generalizing bytes value with
  | zero =>
      rw [List.eq_nil_of_length_eq_zero (Nat.le_zero.1 h), List.append_nil]
      rfl
  | succ rounds ih =>
      unfold cut
      split
      · rename_i hempty
        rw [hempty, List.append_nil]
        rfl
      · rename_i hbytes
        have hpos := List.length_pos_of_ne_nil hbytes
        rw [List.cons_append, List.foldl_cons, join, append_last hnew,
          ih (by rw [List.length_drop]; omega), List.append_assoc, List.take_append_drop]

theorem follows_cut {seen : List UInt8} {type : UInt8} (rounds : ℕ) (bytes : List UInt8)
    {later : List Fragment} (h : Follows Fragment.type (type :: seen) (some type) later) :
    Follows Fragment.type (type :: seen) (some type) (cut type rounds bytes ++ later) := by
  induction rounds generalizing bytes with
  | zero => exact h
  | succ rounds ih =>
      unfold cut
      split
      · exact h
      · refine ⟨fun _ => rfl, (ih _).congr fun t => ?_⟩
        simp

theorem pieces_joined {fields : List (UInt8 × List UInt8)} {entry : UInt8 × List UInt8}
    (hnew : entry.1 ∉ fields.map Prod.fst) (previous : Option UInt8) {later : List Fragment}
    (h : Follows Fragment.type (entry.1 :: fields.map Prod.fst) (some entry.1) later) :
    Follows Fragment.type (fields.map Prod.fst) previous (pieces entry ++ later) ∧
      (pieces entry ++ later).foldl join fields = later.foldl join (fields ++ [entry]) := by
  obtain ⟨type, value⟩ := entry
  unfold pieces
  dsimp only at hnew h ⊢
  by_cases hvalue : value = []
  · rw [if_pos hvalue, hvalue, List.singleton_append, List.foldl_cons, join, append_new hnew]
    exact ⟨⟨fun hmem => absurd hmem hnew, h⟩, rfl⟩
  · have hpos := List.length_pos_of_ne_nil hvalue
    rw [if_neg hvalue]
    obtain ⟨n, hn⟩ := Nat.exists_eq_succ_of_ne_zero hpos.ne'
    rw [hn, cut, if_neg hvalue, List.cons_append, List.foldl_cons, join, append_new hnew,
      join_cut hnew (by rw [List.length_drop]; omega), List.take_append_drop]
    exact ⟨⟨fun hmem => absurd hmem hnew, follows_cut _ _ h⟩, rfl⟩

theorem entries_joined {entries fields : List (UInt8 × List UInt8)} {previous : Option UInt8}
    (hnodup : ((fields ++ entries).map Prod.fst).Nodup) :
    Follows Fragment.type (fields.map Prod.fst) previous (entries.flatMap pieces) ∧
      (entries.flatMap pieces).foldl join fields = fields ++ entries := by
  induction entries generalizing fields previous with
  | nil => exact ⟨trivial, (List.append_nil _).symm⟩
  | cons entry entries ih =>
      rw [List.append_cons] at hnodup
      obtain ⟨hfollows, hjoined⟩ := @ih (fields ++ [entry]) (some entry.1) hnodup
      have hnew : entry.1 ∉ fields.map Prod.fst := by
        rw [List.map_append, List.map_append, List.map_singleton, List.nodup_append,
          List.nodup_append] at hnodup
        exact fun hmem => hnodup.1.2.2 _ hmem _ (List.mem_singleton_self _) rfl
      have hmem : ∀ t, t ∈ entry.1 :: fields.map Prod.fst ↔ t ∈ (fields ++ [entry]).map Prod.fst := by
        intro t
        rw [List.map_append, List.mem_append, List.mem_cons, List.map_singleton,
          List.mem_singleton, or_comm]
      obtain ⟨hfollows', hjoined'⟩ := pieces_joined hnew previous (hfollows.congr hmem)
      rw [List.flatMap_cons, hjoined', hjoined, ← List.append_cons]
      exact ⟨hfollows', rfl⟩

theorem decode_encode {entries : List (UInt8 × List UInt8)} {bytes : List UInt8}
    (h : encode entries = .ok bytes) : decode bytes = .ok entries := by
  obtain ⟨hbytes, hlength, hnodup, -⟩ := encodeLoop_ok (Nat.zero_le _) h
  rw [List.nil_append] at hbytes
  obtain ⟨hfollows, hjoined⟩ := @entries_joined entries [] none hnodup
  unfold decode
  rw [if_neg (not_lt.2 hlength), decodeLoop_ok_iff le_rfl]
  exact ⟨_, hbytes, hfollows, hjoined.symm⟩

/-- Encoding and decoding together. -/
theorem fields_exact :
    (∀ entries bytes, encode entries = .ok bytes → decode bytes = .ok entries) ∧
      ∀ data, (∃ fields, decode data = .ok fields) ↔ data.length ≤ limit ∧ Fragmented data :=
  ⟨fun _ _ h => decode_encode h, fun _ => decode_ok_iff⟩

/-- An empty value, and one that takes two fragments. -/
theorem fields_exact_two :
    decode ([1, 0, 2, 255] ++ List.replicate 255 7 ++ [2, 45] ++ List.replicate 45 7) =
      .ok [(1, []), (2, List.replicate 300 7)] :=
  fields_exact.1 [(1, []), (2, List.replicate 300 7)] _ (by decide +kernel)

/-- Fragments beyond the limit of a message. -/
theorem fragmented_not_decoded :
    ¬ ∀ data, (∃ fields, decode data = .ok fields) ↔ Fragmented data := by
  intro h
  have hfragmented : Fragmented
      ((List.replicate 8193 (⟨0, [], Nat.zero_le _⟩ : Fragment)).flatMap Fragment.encode) := by
    refine ⟨_, rfl, ?_⟩
    intro l₁ x l₂ y l₃ heq _ z hz
    have hmem : ∀ f ∈ l₁ ++ x :: (l₂ ++ y :: l₃), f = ⟨0, [], Nat.zero_le _⟩ := by
      rw [← heq]
      exact fun f hf => List.eq_of_mem_replicate hf
    rw [hmem z (by simp [hz]), hmem x (by simp)]
  have hlimit := (decode_ok_iff.1 ((h _).2 hfragmented)).1
  rw [List.flatMap_replicate, List.length_flatten, List.map_replicate, List.sum_replicate] at hlimit
  exact absurd hlimit (by decide)

end PairingTLV

end Tolkara
