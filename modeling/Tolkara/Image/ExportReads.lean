import Tolkara.Image.ExportTrie

/-!
# Reading a trie

`gi_export` once more, with every read of the trie spelled out: `none` is a read
of a byte that the trie does not have. The loops stop where those of the source do.
There is no such read, whatever the bytes are, and the answer is the same
(`giExportChecked_eq`); `giExport_exact` puts this beside the answers for the
tries that encode a map.
-/

namespace Tolkara

open Library

def readRange (bytes : List UInt8) (cursor stop : ℕ) : Option (List UInt8) :=
  if cursor ≤ stop ∧ stop ≤ bytes.length then some ((bytes.take stop).drop cursor) else none

def exportUlebLoopChecked (bytes : List UInt8) (stop : ℕ) :
    ℕ → ℕ → ℕ → ℕ → Option (Option (ℕ × ℕ))
  | 0, _, _, _ => some none
  | fuel + 1, shift, cursor, value =>
    if shift ≤ 63 ∧ cursor < stop then do
      let byte ← bytes[cursor]?
      if shift = 63 ∧ 2 ≤ byte.toNat then some none
      else
        let value := value + byte.toNat % 128 * 2 ^ shift
        if byte.toNat < 128 then some (some (value, cursor + 1))
        else exportUlebLoopChecked bytes stop fuel (shift + 7) (cursor + 1) value
    else some none

def exportUlebChecked (bytes : List UInt8) (cursor stop : ℕ) : Option (Option (ℕ × ℕ)) :=
  exportUlebLoopChecked bytes stop 10 0 cursor 0

namespace GuestImage

def exportTerminalChecked (image : GuestImage) (cursor children : ℕ) : Option GIExportResult := do
  match ← exportUlebChecked image.exports cursor children with
  | none => some .invalid
  | some (flags, cursor) =>
    let kind := flags % 4
    if 16 ≤ flags ∨ kind = 3 then some .invalid
    else if flags / 8 % 2 = 1 then
      match ← exportUlebChecked image.exports cursor children with
      | none => some .invalid
      | some (ordinal, cursor) =>
        if ordinal = 0 ∨ image.dylibs.length < ordinal then some .invalid
        else
          let imported ← readRange image.exports cursor children
          if imported = [] ∨ imported.findIdx (· = 0) ≠ imported.length - 1 then some .invalid
          else
            some (.reexport ordinal
              (if imported.dropLast = [] then none else some imported.dropLast))
    else
      match ← exportUlebChecked image.exports cursor children with
      | none => some .invalid
      | some (value, cursor) =>
        if cursor ≠ children then some .invalid
        else
          let isAbsolute := kind = 2
          if ¬ isAbsolute ∧ uint64Max - image.headerAddress < value then some .invalid
          else
            let value := if isAbsolute then value else value + image.headerAddress
            let mapped := image.segments.any fun s =>
              s.prot ≠ 0#32 ∧ s.address ≤ value ∧ value - s.address < s.size
            let perThread := kind = 1
            if ¬ isAbsolute ∧ ¬ mapped then some .invalid
            else if perThread ∧ (value < image.tlsDescriptors ∨
                image.tlsDescriptorsSize ≤ value - image.tlsDescriptors ∨
                (value - image.tlsDescriptors) % 24 ≠ 0) then some .invalid
            else
              some (.found
                { address := value
                  absolute := isAbsolute
                  weak := flags / 4 % 2 = 1
                  perThread := perThread })

/-- The zero that ends a label is looked for up to the end of the trie, and the label is then
compared with as much of the symbol. -/
def exportEdgesChecked (image : GuestImage) (symbol : CString) :
    ℕ → ℕ → Bool → Option (ℕ × ℕ) → Option (Option (Option (ℕ × ℕ)))
  | 0, _, _, found => some (some found)
  | count + 1, cursor, labelled, found => do
    let edge ← readRange image.exports cursor image.exports.length
    let length := edge.findIdx (· = 0)
    if edge.length ≤ length then some none
    else
      let label ← readRange image.exports cursor (cursor + length)
      let fits := label.isPrefixOf symbol
      match ← exportUlebChecked image.exports (cursor + length + 1) image.exports.length with
      | none => some none
      | some (offset, cursor) =>
        if image.exports.length ≤ offset then some none
        else if fits ∧ label ≠ [] ∧ labelled then some none
        else
          exportEdgesChecked image symbol count cursor (labelled || (fits && !label.isEmpty))
            (if fits ∧ found.isNone then some (offset, length) else found)

def exportWalkChecked (image : GuestImage) : ℕ → ℕ → CString → Option GIExportResult
  | 0, _, _ => some .invalid
  | budget + 1, node, symbol =>
    if image.exports.length ≤ node then some .invalid
    else do
      match ← exportUlebChecked image.exports node image.exports.length with
      | none => some .invalid
      | some (terminalSize, cursor) =>
        if image.exports.length - cursor < terminalSize then some .invalid
        else
          let children := cursor + terminalSize
          if symbol = [] ∧ terminalSize ≠ 0 then image.exportTerminalChecked cursor children
          else if children = image.exports.length then some .invalid
          else
            let count ← image.exports[children]?
            match ← image.exportEdgesChecked symbol count.toNat (children + 1) false none with
            | none => some .invalid
            | some none => some .missing
            | some (some (next, consumed)) =>
              exportWalkChecked image budget next (symbol.drop consumed)

def giExportChecked (image : GuestImage) (symbol : CString) : Option GIExportResult :=
  if symbol = [] then some .invalid
  else if image.exports = [] then some .missing
  else if image.exports.length < symbol.length then some .missing
  else image.exportWalkChecked (symbol.length + 8192) 0 symbol

end GuestImage

/-! ## No read outside -/

theorem getElem?_eq_getD {bytes : List UInt8} {i : ℕ} (h : i < bytes.length) :
    bytes[i]? = some (bytes.getD i 0) := by
  rw [List.getD_eq_getElem?_getD, List.getElem?_eq_getElem h]
  rfl

theorem exportUlebLoopChecked_eq {bytes : List UInt8} {stop : ℕ} (hstop : stop ≤ bytes.length)
    (fuel shift cursor value : ℕ) :
    exportUlebLoopChecked bytes stop fuel shift cursor value =
      some (exportUlebLoop bytes stop fuel shift cursor value) := by
  induction fuel generalizing shift cursor value with
  | zero => rfl
  | succ fuel ih =>
      unfold exportUlebLoopChecked exportUlebLoop
      split
      · rename_i hmore
        rw [getElem?_eq_getD (lt_of_lt_of_le hmore.2 hstop)]
        simp only [Option.bind_eq_bind, Option.bind_some, ih]
        split_ifs <;> rfl
      · rfl

theorem exportUlebChecked_eq {bytes : List UInt8} {stop : ℕ} (hstop : stop ≤ bytes.length)
    (cursor : ℕ) : exportUlebChecked bytes cursor stop = some (exportUleb bytes cursor stop) :=
  exportUlebLoopChecked_eq hstop 10 0 cursor 0

/-- The cursor moves on, and not beyond the end. -/
theorem exportUlebLoop_cursor {bytes : List UInt8} {stop fuel shift cursor value v cursor' : ℕ}
    (h : exportUlebLoop bytes stop fuel shift cursor value = some (v, cursor')) :
    cursor < cursor' ∧ cursor' ≤ stop := by
  induction fuel generalizing shift cursor value with
  | zero => cases h
  | succ fuel ih =>
      unfold exportUlebLoop at h
      dsimp only at h
      split_ifs at h with hmore hlast hend
      · cases h
        omega
      · have := ih h
        omega

theorem exportUleb_cursor {bytes : List UInt8} {stop cursor v cursor' : ℕ}
    (h : exportUleb bytes cursor stop = some (v, cursor')) : cursor < cursor' ∧ cursor' ≤ stop :=
  exportUlebLoop_cursor h

theorem readRange_eq {bytes : List UInt8} {cursor stop : ℕ} (h : cursor ≤ stop)
    (h' : stop ≤ bytes.length) :
    readRange bytes cursor stop = some ((bytes.take stop).drop cursor) :=
  if_pos ⟨h, h'⟩

namespace GuestImage

variable (image : GuestImage)

theorem exportTerminalChecked_eq {children : ℕ} (h : children ≤ image.exports.length)
    (cursor : ℕ) :
    image.exportTerminalChecked cursor children = some (image.exportTerminal cursor children) := by
  unfold exportTerminalChecked exportTerminal
  simp only [exportUlebChecked_eq h, Option.bind_eq_bind, Option.bind_some]
  cases hflags : exportUleb image.exports cursor children with
  | none => rfl
  | some answer =>
      obtain ⟨flags, cursor'⟩ := answer
      dsimp only
      cases hnumber : exportUleb image.exports cursor' children with
      | none => split_ifs <;> rfl
      | some answer' =>
          obtain ⟨number, cursor''⟩ := answer'
          have hcursor := exportUleb_cursor hnumber
          dsimp only
          rw [readRange_eq hcursor.2 h]
          simp only [Option.bind_some]
          split_ifs <;> rfl

theorem exportEdgesChecked_eq (symbol : CString) {cursor : ℕ}
    (h : cursor ≤ image.exports.length) (count : ℕ) (labelled : Bool)
    (found : Option (ℕ × ℕ)) :
    image.exportEdgesChecked symbol count cursor labelled found =
      some (image.exportEdges symbol count cursor labelled found) := by
  induction count generalizing cursor labelled found with
  | zero => rfl
  | succ count ih =>
      unfold exportEdgesChecked exportEdges
      rw [readRange_eq h le_rfl, List.take_length]
      simp only [Option.bind_eq_bind, Option.bind_some]
      split
      · rfl
      · rename_i hlabel
        rw [List.length_drop] at hlabel
        rw [readRange_eq (by omega) (by omega), List.drop_take, Nat.add_sub_cancel_left,
          exportUlebChecked_eq le_rfl]
        simp only [Option.bind_some]
        cases hoffset : exportUleb image.exports (cursor + (image.exports.drop cursor).findIdx
            (· = 0) + 1) image.exports.length with
        | none => rfl
        | some answer =>
            obtain ⟨offset, cursor'⟩ := answer
            dsimp only
            rw [ih (exportUleb_cursor hoffset).2]
            split_ifs <;> rfl

theorem exportWalkChecked_eq (budget node : ℕ) (symbol : CString) :
    image.exportWalkChecked budget node symbol = some (image.exportWalk budget node symbol) := by
  induction budget generalizing node symbol with
  | zero => rfl
  | succ budget ih =>
      unfold exportWalkChecked exportWalk
      rw [exportUlebChecked_eq le_rfl]
      simp only [Option.bind_eq_bind, Option.bind_some]
      split
      · rfl
      · cases hsize : exportUleb image.exports node image.exports.length with
        | none => rfl
        | some answer =>
            obtain ⟨terminalSize, cursor⟩ := answer
            have hcursor := exportUleb_cursor hsize
            dsimp only
            split
            · rfl
            · split
              · exact image.exportTerminalChecked_eq (by omega) cursor
              · split
                · rfl
                · rw [getElem?_eq_getD (by omega)]
                  simp only [Option.bind_some]
                  rw [image.exportEdgesChecked_eq symbol (by omega)]
                  simp only [Option.bind_some]
                  rcases image.exportEdges symbol _ _ false none with _ | _ | ⟨next, consumed⟩
                  · rfl
                  · rfl
                  · exact ih next (symbol.drop consumed)

/-- No read is outside the trie, and the reads give the answer. -/
theorem giExportChecked_eq (symbol : CString) :
    image.giExportChecked symbol = some (image.giExport symbol) := by
  unfold giExportChecked giExport
  split_ifs
  · rfl
  · rfl
  · rfl
  · exact image.exportWalkChecked_eq _ _ _

/-- Export lookup is exact on the tries that encode a map, and reads no byte outside any trie. -/
theorem giExport_exact :
    (∀ m : CString → Option Export, image.Encodes m → (∀ s e, m s = some e → image.Exports e) →
      ∀ symbol ≠ [], image.giExport symbol = answerOf (m symbol)) ∧
    ∀ symbol, image.giExportChecked symbol = some (image.giExport symbol) :=
  ⟨fun _ h hvalid _ hsymbol => giExport_encodes h hvalid hsymbol, image.giExportChecked_eq⟩

end GuestImage

/-! ## The trie of a library -/

/-- A symbol that is a prefix of another one: its terminal is on an edge without a label, and the
node there leads on. -/
def prefixImage : GuestImage :=
  { GuestImage.empty with
    segments := [⟨ascii "__TEXT", 0, 8192, 0, 8192, 5#32, 5#32⟩]
    exports := [0, 1] ++ ascii "_sample" ++ [0, 11, 0, 1, 0, 15, 3, 0, 128, 32, 1] ++
      ascii "Wait" ++ [0, 26, 3, 0, 132, 32, 0] }

/-- What is left of the map behind an edge. -/
def waitExports (s : CString) : Option Export :=
  if s = [] then some (.address .regular 4100 false) else none

def sampleExports (s : CString) : Option Export :=
  if s = [] then some (.address .regular 4096 false)
  else if s = ascii "Wait" then some (.address .regular 4100 false)
  else none

def prefixExports (s : CString) : Option Export :=
  if s = ascii "_sample" then some (.address .regular 4096 false)
  else if s = ascii "_sampleWait" then some (.address .regular 4100 false)
  else none

theorem sampleExports_wait (s : CString) : sampleExports (ascii "Wait" ++ s) = waitExports s := by
  have hne : ascii "Wait" ++ s ≠ [] := nofun
  unfold sampleExports waitExports
  rw [if_neg hne]
  simp only [List.append_right_eq_self]

theorem prefixExports_sample (s : CString) :
    prefixExports (ascii "_sample" ++ s) = sampleExports s := by
  have hwait : ascii "_sample" ++ s = ascii "_sampleWait" ↔ s = ascii "Wait" :=
    List.append_right_inj (ascii "_sample")
  unfold prefixExports sampleExports
  simp only [List.append_right_eq_self, hwait]

theorem uleb_byte {b : UInt8} (hb : b.toNat < 128) : Uleb [b] b.toNat :=
  ⟨.last hb, Nat.succ_le_succ (Nat.zero_le 9), by omega⟩

theorem terminal_prefixImage {b : UInt8} (hb : 128 ≤ b.toNat) :
    prefixImage.Terminal (.address .regular (b.toNat % 128 + 128 * 32) false) [0, b, 32] := by
  have hflags : Uleb [0] (ExportKind.regular.code + 4 * false.toNat) := uleb_byte (by decide)
  have hlast : Leb [32] 32 := .last (by decide)
  have hnumber : Uleb [b, 32] (b.toNat % 128 + 128 * 32) :=
    ⟨.more hb hlast, Nat.succ_le_succ (Nat.succ_le_succ (Nat.zero_le 8)), by omega⟩
  exact GuestImage.Terminal.address hflags hnumber

theorem exports_prefixImage (s : CString) (e : Export) (h : prefixExports s = some e) :
    prefixImage.Exports e := by
  have hvalid : ∀ value < 8192, prefixImage.Exports (.address .regular value false) := by
    intro value hlt
    refine ⟨by unfold uint64Max; omega, fun _ => ⟨Nat.zero_le _, ?_⟩, nofun⟩
    refine ⟨_, List.mem_singleton_self _, by decide, Nat.zero_le _, ?_⟩
    change value < 0 + 8192
    omega
  unfold prefixExports at h
  split_ifs at h <;> cases h <;> exact hvalid _ (by decide)

/-- A node with one edge, in front of what the edge leads to. -/
theorem encoded_one {place middle stop target empties : ℕ} {terminal : Option Export}
    {label : CString} {m m' : CString → Option Export}
    (hreads : prefixImage.NodeAt place terminal [⟨label, target⟩] (Finset.Ico place middle))
    (hnext : Encoded prefixImage.NodeAt target empties (Finset.Ico middle stop) m')
    (hlabel : label ≠ []) (hle : place ≤ middle ∧ middle ≤ stop) (hhere : m [] = terminal)
    (hedge : ∀ s, m (label ++ s) = m' s) (hcovers : ∀ s x, m s = some x → s = [] ∨ label <+: s) :
    Encoded prefixImage.NodeAt place empties (Finset.Ico place stop) m := by
  refine .node (fun _ => m') (fun _ => Finset.Ico middle stop) hreads (List.pairwise_singleton _ _)
    ?_ ?_ (Finset.Ico_subset_Ico_right hle.2) ?_ hhere ?_ ?_
  · intro e he
    rwa [List.mem_singleton.1 he]
  · intro e he
    rwa [List.mem_singleton.1 he]
  · exact fun e he => ⟨Finset.Ico_subset_Ico_left hle.1,
      Finset.Ico_disjoint_Ico_consecutive place middle stop⟩
  · intro e he s
    rw [List.mem_singleton.1 he]
    exact hedge s
  · intro s x hs
    exact (hcovers s x hs).imp_right fun h => ⟨_, List.mem_singleton_self _, h⟩

theorem encodes_prefixImage : prefixImage.Encodes prefixExports := by
  have hwait : Encoded prefixImage.NodeAt 26 7999 (Finset.Ico 26 31) waitExports := by
    have hreads : prefixImage.NodeAt 26 (some (.address .regular 4100 false)) []
        (Finset.Ico 26 31) :=
      @GuestImage.NodeAt.mk prefixImage 26 _ [] [3] [0, 132, 32] [] [] (uleb_byte (by decide))
        (terminal_prefixImage (b := 132) (by decide)) (by decide) .nil rfl
    refine .node (fun _ _ => none) (fun _ => ∅) hreads .nil nofun nofun subset_rfl nofun rfl
      nofun ?_
    intro s x hs
    exact .inl (Option.ite_none_right_eq_some.1 hs).1
  have hsample : Encoded prefixImage.NodeAt 15 7999 (Finset.Ico 15 31) sampleExports := by
    have hreads : prefixImage.NodeAt 15 (some (.address .regular 4096 false))
        [⟨ascii "Wait", 26⟩] (Finset.Ico 15 26) :=
      @GuestImage.NodeAt.mk prefixImage 15 (some (.address .regular 4096 false)) _ [3] [0, 128, 32]
        _ _ (uleb_byte (by decide)) (terminal_prefixImage (b := 128) (by decide)) (by decide)
        (.cons (by decide) (uleb_byte (b := 26) (by decide)) (by decide) .nil) rfl
    refine encoded_one hreads hwait (by decide) (by decide) rfl sampleExports_wait ?_
    intro s x hs
    unfold sampleExports at hs
    split_ifs at hs with h0 h1
    · exact .inl h0
    · exact .inr (h1 ▸ List.prefix_rfl)
  have hpass : Encoded prefixImage.NodeAt 11 8000 (Finset.Ico 11 31) sampleExports := by
    have hreads : prefixImage.NodeAt 11 none [⟨[], 15⟩] (Finset.Ico 11 15) :=
      @GuestImage.NodeAt.mk prefixImage 11 none _ [0] [] _ _ (uleb_byte (by decide)) rfl
        (by decide) (.cons (by decide) (uleb_byte (b := 15) (by decide)) (by decide) .nil) rfl
    exact .pass hreads (List.pairwise_singleton _ _) hsample
      (Finset.Ico_subset_Ico_right (by decide))
      ⟨Finset.Ico_subset_Ico_left (by decide), Finset.Ico_disjoint_Ico_consecutive 11 15 31⟩
  have hreads : prefixImage.NodeAt 0 none [⟨ascii "_sample", 11⟩] (Finset.Ico 0 11) :=
    @GuestImage.NodeAt.mk prefixImage 0 none _ [0] [] _ _ (uleb_byte (by decide)) rfl
      (by decide) (.cons (by decide) (uleb_byte (b := 11) (by decide)) (by decide) .nil) rfl
  refine .inr ⟨_, encoded_one hreads hpass (by decide) (by decide) rfl prefixExports_sample ?_⟩
  intro s x hs
  unfold prefixExports at hs
  split_ifs at hs with h0 h1
  · exact .inr (h0 ▸ List.prefix_rfl)
  · exact .inr (h1 ▸ ⟨ascii "Wait", rfl⟩)

theorem giExport_exact_prefix :
    prefixImage.giExport (ascii "_sampleWait") =
        answerOf (prefixExports (ascii "_sampleWait")) ∧
      prefixImage.giExport (ascii "_sampleWai") = .missing :=
  ⟨prefixImage.giExport_exact.1 _ encodes_prefixImage exports_prefixImage _ (by decide),
    prefixImage.giExport_exact.1 _ encodes_prefixImage exports_prefixImage _ (by decide)⟩

end Tolkara
