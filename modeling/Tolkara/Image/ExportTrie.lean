import Tolkara.Image.Basic
import Tolkara.Library.Tries

/-!
# Export tries

The format that `gi_export` reads. A node is the size of its terminal, the terminal,
the number of its edges and the edges, an edge its label with a zero and the place of
its child; numbers are LEB128. `Encodes` says that the trie of an image stands for a
map from symbols to exports, and `giExport_encodes` that `gi_export` then answers
as the map does.
-/

namespace Tolkara

open Library

/-! ## Numbers -/

/-- Seven bits a byte, the lowest first; every byte but the last has its high bit set. -/
inductive Leb : List UInt8 → ℕ → Prop
  | last {b : UInt8} (hb : b.toNat < 128) : Leb [b] b.toNat
  | more {b : UInt8} {digits : List UInt8} {v : ℕ} (hb : 128 ≤ b.toNat) (h : Leb digits v) :
      Leb (b :: digits) (b.toNat % 128 + 128 * v)

/-- A number of 64 bits, with leading zeros at most as many as the bits leave room for. -/
structure Uleb (digits : List UInt8) (v : ℕ) : Prop where
  leb : Leb digits v
  length_le : digits.length ≤ 10
  lt : v < 2 ^ 64

theorem getD_of_drop {α : Type} {bytes rest : List α} {cursor : ℕ} {b d : α}
    (h : bytes.drop cursor = b :: rest) : bytes.getD cursor d = b := by
  rw [List.getD_eq_getElem?_getD, ← List.head?_drop, h]
  rfl

theorem drop_add {α : Type} {bytes rest : List α} {cursor : ℕ} (part : List α)
    (h : bytes.drop cursor = part ++ rest) : bytes.drop (cursor + part.length) = rest := by
  rw [← List.drop_drop, h, List.drop_left]

theorem exportUlebLoop_leb {bytes digits : List UInt8} {v : ℕ} (h : Leb digits v)
    {rest : List UInt8} {stop cursor round value : ℕ} (hbytes : bytes.drop cursor = digits ++ rest)
    (hlen : digits.length + round ≤ 10) (hlt : v * 2 ^ (7 * round) < 2 ^ 64)
    (hstop : cursor + digits.length ≤ stop) :
    exportUlebLoop bytes stop (10 - round) (7 * round) cursor value =
      some (value + v * 2 ^ (7 * round), cursor + digits.length) := by
  induction h generalizing cursor round value with
  | @last b hb =>
      change 1 + round ≤ 10 at hlen
      change cursor + 1 ≤ stop at hstop
      rw [show 10 - round = (9 - round) + 1 by omega, exportUlebLoop, if_pos ⟨by omega, by omega⟩,
        getD_of_drop hbytes]
      have hlast : ¬ (7 * round = 63 ∧ 2 ≤ b.toNat) := by
        rintro ⟨h63, hb'⟩
        rw [h63] at hlt
        omega
      dsimp only
      rw [if_neg hlast, if_pos hb, Nat.mod_eq_of_lt hb]
      rfl
  | @more b digits v hb h ih =>
      have hpos : 0 < digits.length := by cases h <;> simp
      rw [List.length_cons] at hlen hstop
      rw [show 10 - round = (10 - (round + 1)) + 1 by omega, exportUlebLoop,
        if_pos ⟨by omega, by omega⟩, getD_of_drop hbytes]
      have hlast : ¬ (7 * round = 63 ∧ 2 ≤ b.toNat) := by omega
      have hpow : 2 ^ (7 * (round + 1)) = 128 * 2 ^ (7 * round) := by
        rw [show 7 * (round + 1) = 7 + 7 * round by omega, Nat.pow_add]
      have hvalue : v * 2 ^ (7 * (round + 1)) + b.toNat % 128 * 2 ^ (7 * round) =
          (b.toNat % 128 + 128 * v) * 2 ^ (7 * round) := by
        rw [hpow]
        ring
      have hrest : bytes.drop (cursor + 1) = digits ++ rest := drop_add [b] hbytes
      dsimp only
      rw [if_neg hlast, if_neg (by omega), show 7 * round + 7 = 7 * (round + 1) by omega,
        ih hrest (by omega) (by omega) (by omega), List.length_cons]
      congr 2
      · omega
      · omega

theorem Uleb.length_pos {digits : List UInt8} {v : ℕ} (h : Uleb digits v) : 0 < digits.length := by
  cases h.leb <;> exact Nat.succ_pos _

theorem exportUleb_uleb {bytes digits rest : List UInt8} {v cursor stop : ℕ} (h : Uleb digits v)
    (hbytes : bytes.drop cursor = digits ++ rest) (hstop : cursor + digits.length ≤ stop) :
    exportUleb bytes cursor stop = some (v, cursor + digits.length) := by
  have hloop : exportUlebLoop bytes stop (10 - 0) (7 * 0) cursor 0 =
      some (0 + v * 2 ^ (7 * 0), cursor + digits.length) :=
    exportUlebLoop_leb h.leb hbytes h.length_le (by simpa using h.lt) hstop
  rw [exportUleb, hloop]
  simp

/-! ## Exports -/

/-- The kinds of exports with an address, and their codes. -/
inductive ExportKind where
  | regular
  | threadLocal
  | absolute
deriving DecidableEq, Repr

def ExportKind.code : ExportKind → ℕ
  | .regular => 0
  | .threadLocal => 1
  | .absolute => 2

theorem ExportKind.code_eq_one_iff (kind : ExportKind) : kind.code = 1 ↔ kind = .threadLocal := by
  cases kind <;> decide

theorem ExportKind.code_eq_two_iff (kind : ExportKind) : kind.code = 2 ↔ kind = .absolute := by
  cases kind <;> decide

/-- What a symbol stands for: an address, or a symbol of another library, which has the same name
where `name` is empty. -/
inductive Export where
  | address (kind : ExportKind) (value : ℕ) (weak : Bool)
  | reexport (ordinal : ℕ) (name : CString)
deriving DecidableEq, Repr

def Export.answer : Export → GIExportResult
  | .address kind value weak =>
    .found
      { address := value
        absolute := kind = .absolute
        weak := weak
        perThread := kind = .threadLocal }
  | .reexport ordinal name => .reexport ordinal (if name = [] then none else some name)

def answerOf : Option Export → GIExportResult
  | none => .missing
  | some e => e.answer

namespace GuestImage

/-- An address in a segment that can be accessed. -/
def Maps (image : GuestImage) (a : ℕ) : Prop :=
  ∃ s ∈ image.segments, s.prot ≠ 0#32 ∧ s.address ≤ a ∧ a < s.address + s.size

/-- The address of one of the image's own descriptors. -/
def Describes (image : GuestImage) (a : ℕ) : Prop :=
  ∃ i, a = image.tlsDescriptors + 24 * i ∧ 24 * i < image.tlsDescriptorsSize

def Exports (image : GuestImage) : Export → Prop
  | .address kind value _ =>
    value ≤ uint64Max ∧ (kind ≠ .absolute → image.headerAddress ≤ value ∧ image.Maps value) ∧
      (kind = .threadLocal → image.Describes value)
  | .reexport ordinal name => 1 ≤ ordinal ∧ ordinal ≤ image.dylibs.length ∧ 0 ∉ name

inductive Terminal (image : GuestImage) : Export → List UInt8 → Prop
  | address {kind : ExportKind} {value : ℕ} {weak : Bool} {flags number : List UInt8}
      (hflags : Uleb flags (kind.code + 4 * weak.toNat))
      (hnumber : Uleb number
        (if kind = .absolute then value else value - image.headerAddress)) :
      Terminal image (.address kind value weak) (flags ++ number)
  | reexport {ordinal : ℕ} {name : CString} {kind : ExportKind} {weak : Bool}
      {flags number : List UInt8} (hflags : Uleb flags (kind.code + 4 * weak.toNat + 8))
      (hnumber : Uleb number ordinal) :
      Terminal image (.reexport ordinal name) (flags ++ (number ++ (name ++ [0])))

def Terminals (image : GuestImage) : Option Export → List UInt8 → Prop
  | none, bytes => bytes = []
  | some e, bytes => image.Terminal e bytes

inductive EdgesAre (image : GuestImage) : List (Edge UInt8) → List UInt8 → Prop
  | nil : EdgesAre image [] []
  | cons {label : CString} {target : ℕ} {place bytes : List UInt8} {edges : List (Edge UInt8)}
      (hlabel : 0 ∉ label) (hplace : Uleb place target) (htarget : target < image.exports.length)
      (hrest : EdgesAre image edges bytes) :
      EdgesAre image (⟨label, target⟩ :: edges) (label ++ 0 :: (place ++ bytes))

inductive NodeAt (image : GuestImage) :
    ℕ → Option Export → List (Edge UInt8) → Finset ℕ → Prop
  | mk {place : ℕ} {terminal : Option Export} {edges : List (Edge UInt8)}
      {size payload bytes rest : List UInt8} (hsize : Uleb size payload.length)
      (hterminal : image.Terminals terminal payload) (hcount : edges.length < 256)
      (hedges : image.EdgesAre edges bytes)
      (h : image.exports.drop place =
        size ++ (payload ++ UInt8.ofNat edges.length :: (bytes ++ rest))) :
      NodeAt image place terminal edges
        (Finset.Ico place (place + size.length + payload.length + 1 + bytes.length))

/-- The trie stands for the map, with at most 8000 edges without a label on a path. Without a trie
the map is empty. -/
def Encodes (image : GuestImage) (m : CString → Option Export) : Prop :=
  (image.exports = [] ∧ ∀ s, m s = none) ∨ ∃ room, Encoded image.NodeAt 0 8000 room m

/-! ## Reading a node -/

theorem flags_address (kind : ExportKind) (weak : Bool) :
    let flags := kind.code + 4 * weak.toNat
    flags % 4 = kind.code ∧ ¬ (16 ≤ flags ∨ flags % 4 = 3) ∧ ¬ flags / 8 % 2 = 1 ∧
      decide (flags / 4 % 2 = 1) = weak := by
  cases kind <;> cases weak <;> decide

theorem flags_reexport (kind : ExportKind) (weak : Bool) :
    let flags := kind.code + 4 * weak.toNat + 8
    ¬ (16 ≤ flags ∨ flags % 4 = 3) ∧ flags / 8 % 2 = 1 := by
  cases kind <;> cases weak <;> decide

theorem Maps.any {image : GuestImage} {a : ℕ} (h : image.Maps a) :
    (image.segments.any fun s =>
      decide (s.prot ≠ 0#32 ∧ s.address ≤ a ∧ a - s.address < s.size)) = true := by
  obtain ⟨s, hs, hprot, hle, hlt⟩ := h
  rw [List.any_eq_true]
  exact ⟨s, hs, decide_eq_true ⟨hprot, hle, by omega⟩⟩

theorem findIdx_zero {name : List UInt8} (rest : List UInt8) (h : 0 ∉ name) :
    (name ++ 0 :: rest).findIdx (· = 0) = name.length := by
  induction name with
  | nil => rfl
  | cons b name ih =>
      rw [List.mem_cons, not_or] at h
      rw [List.cons_append, List.findIdx_cons, ih h.2, decide_eq_false (Ne.symm h.1)]
      rfl

theorem exportTerminal_answer {image : GuestImage} {e : Export} {payload rest : List UInt8}
    {cursor : ℕ} (h : image.Terminal e payload) (he : image.Exports e)
    (hbytes : image.exports.drop cursor = payload ++ rest) :
    image.exportTerminal cursor (cursor + payload.length) = e.answer := by
  cases h with
  | @address kind value weak flags number hflags hnumber =>
      obtain ⟨hmax, hplaced, hdescribes⟩ := he
      obtain ⟨hkind, hvalid, hhere, hweak⟩ := flags_address kind weak
      rw [List.append_assoc] at hbytes
      have hnext := drop_add flags hbytes
      rw [List.length_append]
      unfold exportTerminal
      rw [exportUleb_uleb hflags hbytes (by omega)]
      dsimp only
      rw [if_neg hvalid, if_neg hhere, exportUleb_uleb hnumber hnext (by omega)]
      have hvalue : (if kind.code = 2 then
            if kind = .absolute then value else value - image.headerAddress
          else (if kind = .absolute then value else value - image.headerAddress) +
            image.headerAddress) = value := by
        simp only [kind.code_eq_two_iff]
        split_ifs with habsolute
        · rfl
        · exact Nat.sub_add_cancel (hplaced habsolute).1
      dsimp only
      rw [if_neg (by omega), hkind, hweak, hvalue]
      simp only [kind.code_eq_two_iff, kind.code_eq_one_iff]
      rw [if_neg, if_neg, if_neg]
      · rfl
      · rintro ⟨hthread, hbad⟩
        obtain ⟨i, rfl, hi⟩ := hdescribes hthread
        omega
      · rintro ⟨habsolute, hbad⟩
        exact hbad (hplaced habsolute).2.any
      · rintro ⟨habsolute, hbad⟩
        rw [if_neg habsolute] at hbad
        omega
  | @reexport ordinal name kind weak flags number hflags hnumber =>
      obtain ⟨hpos, hle, hname⟩ := he
      obtain ⟨hvalid, hthere⟩ := flags_reexport kind weak
      simp only [List.append_assoc] at hbytes
      have hnext := drop_add flags hbytes
      have hlast := drop_add number hnext
      unfold exportTerminal
      simp only [List.length_append, List.length_singleton]
      rw [exportUleb_uleb hflags hbytes (by omega)]
      dsimp only
      rw [if_neg hvalid, if_pos hthere, exportUleb_uleb hnumber hnext (by omega)]
      dsimp only
      rw [if_neg (by omega)]
      have himported : (image.exports.take (cursor + (flags.length + (number.length +
          (name.length + 1))))).drop (cursor + flags.length + number.length) = name ++ [0] := by
        rw [List.drop_take, hlast, ← List.append_assoc, List.take_left' (by simp; omega)]
      have hzero := findIdx_zero [] hname
      rw [himported, if_neg (by simp [hzero]), List.dropLast_concat]
      rfl

/-- The edges of a node: one without a label fits always, and two with labels never both. -/
theorem exportEdges_first {image : GuestImage} {symbol : CString} {edges : List (Edge UInt8)}
    {bytes : List UInt8} (h : image.EdgesAre edges bytes) {rest : List UInt8} {cursor : ℕ}
    (hbytes : image.exports.drop cursor = bytes ++ rest) (hbranching : Branching edges)
    {labelled : Bool} (hlabelled : labelled = true → ∀ e ∈ edges, e.label ≠ [] →
      ¬ e.label <+: symbol) (found : Option (ℕ × ℕ)) :
    image.exportEdges symbol edges.length cursor labelled found =
      some (found.or ((edges.find? fun e => e.label.isPrefixOf symbol).map fun e =>
        (e.target, e.label.length))) := by
  induction h generalizing cursor labelled found with
  | nil => simp [exportEdges]
  | @cons label target place bytes edges hlabel hplace htarget hrest ih =>
      have hedge : image.exports.drop cursor = label ++ 0 :: (place ++ (bytes ++ rest)) := by
        simpa using hbytes
      have hnext : image.exports.drop (cursor + label.length + 1) = place ++ (bytes ++ rest) :=
        drop_add [0] (drop_add label hedge)
      have hlater := drop_add place hnext
      have hinside : cursor + label.length + 1 + place.length ≤ image.exports.length := by
        have := congrArg List.length hnext
        have := hplace.length_pos
        simp only [List.length_drop, List.length_append] at *
        omega
      obtain ⟨hheads, hbranching'⟩ := List.pairwise_cons.1 hbranching
      rw [List.length_cons, exportEdges]
      dsimp only
      rw [hedge, findIdx_zero _ hlabel, if_neg (by simp), exportUleb_uleb hplace hnext hinside]
      dsimp only
      rw [List.take_left, if_neg (by omega)]
      have hfits : ¬ (label.isPrefixOf symbol = true ∧ label ≠ [] ∧ labelled = true) := by
        rintro ⟨hfit, hne, hsome⟩
        exact hlabelled hsome _ List.mem_cons_self hne (List.isPrefixOf_iff_prefix.1 hfit)
      rw [if_neg hfits, ih hlater hbranching' ?_]
      · rw [List.find?_cons]
        cases label.isPrefixOf symbol <;> cases found <;> rfl
      · intro hsome e he hne hfit
        rw [Bool.or_eq_true, Bool.and_eq_true] at hsome
        rcases hsome with hsome | ⟨hfit', hne'⟩
        · exact hlabelled hsome e (List.mem_cons_of_mem _ he) hne hfit
        · have hne'' : label ≠ [] := by simpa using hne'
          exact Branching.unique (e := ⟨label, target⟩) (hheads e he) hne'' hne
            (List.isPrefixOf_iff_prefix.1 hfit') hfit

theorem NodeAt.subset {image : GuestImage} {place : ℕ} {terminal : Option Export}
    {edges : List (Edge UInt8)} {own : Finset ℕ} (h : image.NodeAt place terminal edges own) :
    own ⊆ Finset.range image.exports.length ∧ ∀ e ∈ edges, e.label.length ≤ own.card := by
  obtain ⟨hsize, hterminal, hcount, hedges, h⟩ := h
  rename_i size payload bytes rest
  have hlen := congrArg List.length h
  simp only [List.length_drop, List.length_append, List.length_cons] at hlen
  constructor
  · intro i hi
    rw [Finset.mem_Ico] at hi
    rw [Finset.mem_range]
    omega
  · intro e he
    have hlabel : e.label.length ≤ bytes.length := by
      clear h hlen hcount
      induction hedges with
      | nil => exact absurd he List.not_mem_nil
      | @cons label target place bytes edges hlabel hplace htarget hrest ih =>
          simp only [List.length_append, List.length_cons]
          rcases List.mem_cons.1 he with rfl | he'
          · exact Nat.le_add_right _ _
          · have := ih he'
            omega
    rw [Nat.card_Ico]
    omega

theorem Terminal.length_pos {image : GuestImage} {e : Export} {payload : List UInt8}
    (h : image.Terminal e payload) : 0 < payload.length := by
  cases h with
  | address hflags hnumber =>
      have := hflags.length_pos
      rw [List.length_append]
      omega
  | reexport hflags hnumber =>
      have := hflags.length_pos
      rw [List.length_append]
      omega

theorem NodeAt.opened {image : GuestImage} {place : ℕ} {terminal : Option Export}
    {edges : List (Edge UInt8)} {own : Finset ℕ} (h : image.NodeAt place terminal edges own) :
    ∃ (payload bytes rest : List UInt8) (cursor : ℕ),
      place < image.exports.length ∧
      exportUleb image.exports place image.exports.length = some (payload.length, cursor) ∧
      cursor + payload.length < image.exports.length ∧
      image.Terminals terminal payload ∧ image.EdgesAre edges bytes ∧
      image.exports.drop cursor = payload ++ UInt8.ofNat edges.length :: (bytes ++ rest) ∧
      (image.exports.getD (cursor + payload.length) 0).toNat = edges.length ∧
      image.exports.drop (cursor + payload.length + 1) = bytes ++ rest := by
  obtain ⟨hsize, hterminal, hcount, hedges, h⟩ := h
  rename_i size payload bytes rest
  have hlen := congrArg List.length h
  have hpos := hsize.length_pos
  simp only [List.length_drop, List.length_append, List.length_cons] at hlen
  have hnext := drop_add size h
  have hlast := drop_add payload hnext
  refine ⟨payload, bytes, rest, place + size.length, by omega,
    exportUleb_uleb hsize h (by omega), by omega, hterminal, hedges, hnext, ?_,
    drop_add [_] hlast⟩
  rw [getD_of_drop hlast]
  exact UInt8.toNat_ofNat_of_lt' hcount

/-- One round of the walk at a node without an answer. -/
theorem exportWalk_edges {image : GuestImage} {fuel place : ℕ} {terminal : Option Export}
    {edges : List (Edge UInt8)} {own : Finset ℕ} {symbol : CString}
    (h : image.NodeAt place terminal edges own) (hgoes : symbol = [] → terminal = none)
    (hbranching : Branching edges) :
    image.exportWalk (fuel + 1) place symbol =
      match edges.find? fun e => e.label.isPrefixOf symbol with
      | none => .missing
      | some e => image.exportWalk fuel e.target (symbol.drop e.label.length) := by
  obtain ⟨payload, bytes, rest, cursor, hplace, hsize, hchildren, hterminal, hedges, -, hcount,
    hbytes⟩ := h.opened
  have hthrough : ¬ (symbol = [] ∧ payload.length ≠ 0) := by
    rintro ⟨h0, hne⟩
    rw [hgoes h0] at hterminal
    exact hne (congrArg List.length hterminal)
  rw [exportWalk, if_neg (by omega), hsize]
  dsimp only
  rw [if_neg (by omega), if_neg hthrough, if_neg (by omega), hcount,
    exportEdges_first hedges hbytes hbranching fun h => absurd h Bool.false_ne_true]
  cases edges.find? fun e => e.label.isPrefixOf symbol <;> rfl

theorem exportWalk_walks (image : GuestImage) :
    Walks image.NodeAt image.exportWalk answerOf image.Exports where
  here := by
    intro fuel place e edges own h he
    obtain ⟨payload, bytes, rest, cursor, hplace, hsize, hchildren, hterminal, -, hbytes, -, -⟩ :=
      h.opened
    rw [exportWalk, if_neg (by omega), hsize]
    dsimp only
    rw [if_neg (by omega), if_pos ⟨rfl, hterminal.length_pos.ne'⟩]
    exact exportTerminal_answer hterminal he hbytes
  stuck := by
    intro fuel place terminal edges own s h hgoes hbranching hno
    have hnone : (edges.find? fun e => e.label.isPrefixOf s) = none := by
      rw [List.find?_eq_none]
      exact fun e he hfit => hno e he (List.isPrefixOf_iff_prefix.1 hfit)
    rw [exportWalk_edges h hgoes hbranching, hnone]
    rfl
  follow := by
    intro fuel place terminal own s before e after h hgoes hbranching hfirst
    have hsome : ((before ++ e :: after).find? fun e' => e'.label.isPrefixOf (e.label ++ s)) =
        some e := by
      rw [List.find?_eq_some_iff_append]
      refine ⟨List.isPrefixOf_iff_prefix.2 (List.prefix_append _ _), before, after, rfl, ?_⟩
      intro e' he'
      rw [Bool.not_eq_true', ← Bool.not_eq_true]
      exact fun hfit => hfirst e' he' (List.isPrefixOf_iff_prefix.1 hfit)
    rw [exportWalk_edges h hgoes hbranching, hsome]
    dsimp only
    rw [List.drop_left]

theorem giExport_encodes {image : GuestImage} {m : CString → Option Export}
    (h : image.Encodes m) (hvalid : ∀ s e, m s = some e → image.Exports e) {symbol : CString}
    (hsymbol : symbol ≠ []) : image.giExport symbol = answerOf (m symbol) := by
  unfold giExport
  rw [if_neg hsymbol]
  rcases h with ⟨hempty, hnone⟩ | ⟨room, hstored⟩
  · rw [if_pos hempty, hnone]
    rfl
  · have hne : image.exports ≠ [] := by
      obtain ⟨terminal, edges, own, hreads⟩ := hstored.exists_reads
      obtain ⟨-, -, -, -, hplace, -⟩ := hreads.opened
      exact List.ne_nil_of_length_pos hplace
    rw [if_neg hne]
    split
    · rename_i hlong
      cases hs : m symbol with
      | none => rfl
      | some e =>
          obtain ⟨used, -, hin, hle⟩ := hstored.length_le (fun h => h.subset) hs
          have := Finset.card_le_card hin
          rw [Finset.card_range] at this
          omega
    · exact hstored.walk image.exportWalk_walks hvalid (by omega)

end GuestImage

end Tolkara
