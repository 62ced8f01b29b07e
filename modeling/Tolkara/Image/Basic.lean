import Tolkara.Memory.Dense

/-!
# Guest images

`GuestImage`: what the loader keeps of an executable or a library. A C string is the
list of its bytes without the terminating zero, and an array with its count is a list.
`gi_export` walks the export trie of an image.
-/

namespace Tolkara

abbrev CString := List UInt8

structure GISegment where
  name : CString
  address : ℕ
  size : ℕ
  fileOffset : ℕ
  fileSize : ℕ
  prot : Prot
  maxprot : Prot

/-- A dynamic library of an image: `dylibs[i]` and `dylib_reexports[i]`. -/
structure GIDylib where
  name : CString
  reexport : Bool
deriving DecidableEq, Repr

structure GuestImage where
  memory : GuestMemory
  segments : List GISegment
  headerAddress : ℕ
  exports : List UInt8
  tlsDescriptors : ℕ
  tlsDescriptorsSize : ℕ
  tlsInitializerCount : ℕ
  dylibs : List GIDylib
  rpaths : List CString
  weakDefines : Bool

def GuestImage.empty : GuestImage :=
  { memory := GuestMemory.fresh
    segments := []
    headerAddress := 0
    exports := []
    tlsDescriptors := 0
    tlsDescriptorsSize := 0
    tlsInitializerCount := 0
    dylibs := []
    rpaths := []
    weakDefines := false }

structure GIExport where
  address : ℕ
  absolute : Bool
  weak : Bool
  perThread : Bool
deriving DecidableEq, Repr

/-- `GIExportResult` with what `out` holds: an address, or the ordinal of a library
and the name there when it is another one. -/
inductive GIExportResult where
  | invalid
  | missing
  | found (e : GIExport)
  | reexport (ordinal : ℕ) (name : Option CString)
deriving DecidableEq, Repr

def exportUlebLoop (bytes : List UInt8) (stop : ℕ) : ℕ → ℕ → ℕ → ℕ → Option (ℕ × ℕ)
  | 0, _, _, _ => none
  | fuel + 1, shift, cursor, value =>
    if shift ≤ 63 ∧ cursor < stop then
      let byte := (bytes.getD cursor 0).toNat
      if shift = 63 ∧ 2 ≤ byte then none
      else
        let value := value + byte % 128 * 2 ^ shift
        if byte < 128 then some (value, cursor + 1)
        else exportUlebLoop bytes stop fuel (shift + 7) (cursor + 1) value
    else none

def exportUleb (bytes : List UInt8) (cursor stop : ℕ) : Option (ℕ × ℕ) :=
  exportUlebLoop bytes stop 10 0 cursor 0

namespace GuestImage

def exportTerminal (image : GuestImage) (cursor children : ℕ) : GIExportResult :=
  match exportUleb image.exports cursor children with
  | none => .invalid
  | some (flags, cursor) =>
    let kind := flags % 4
    if 16 ≤ flags ∨ kind = 3 then .invalid
    else if flags / 8 % 2 = 1 then
      match exportUleb image.exports cursor children with
      | none => .invalid
      | some (ordinal, cursor) =>
        if ordinal = 0 ∨ image.dylibs.length < ordinal then .invalid
        else
          let imported := (image.exports.take children).drop cursor
          if imported = [] ∨ imported.findIdx (· = 0) ≠ imported.length - 1 then .invalid
          else .reexport ordinal (if imported.dropLast = [] then none else some imported.dropLast)
    else
      match exportUleb image.exports cursor children with
      | none => .invalid
      | some (value, cursor) =>
        if cursor ≠ children then .invalid
        else
          let isAbsolute := kind = 2
          if ¬ isAbsolute ∧ uint64Max - image.headerAddress < value then .invalid
          else
            let value := if isAbsolute then value else value + image.headerAddress
            let mapped := image.segments.any fun s =>
              s.prot ≠ 0#32 ∧ s.address ≤ value ∧ value - s.address < s.size
            let perThread := kind = 1
            if ¬ isAbsolute ∧ ¬ mapped then .invalid
            else if perThread ∧ (value < image.tlsDescriptors ∨
                image.tlsDescriptorsSize ≤ value - image.tlsDescriptors ∨
                (value - image.tlsDescriptors) % 24 ≠ 0) then .invalid
            else .found
              { address := value
                absolute := isAbsolute
                weak := flags / 4 % 2 = 1
                perThread := perThread }

/-- The edges of a trie node: the first that matches, with the characters it takes,
or none. -/
def exportEdges (image : GuestImage) (symbol : CString) :
    ℕ → ℕ → Bool → Option (ℕ × ℕ) → Option (Option (ℕ × ℕ))
  | 0, _, _, found => some found
  | count + 1, cursor, labelled, found =>
    let edge := image.exports.drop cursor
    let length := edge.findIdx (· = 0)
    if edge.length ≤ length then none
    else
      let label := edge.take length
      let fits := label.isPrefixOf symbol
      match exportUleb image.exports (cursor + length + 1) image.exports.length with
      | none => none
      | some (offset, cursor) =>
        if image.exports.length ≤ offset then none
        else if fits ∧ label ≠ [] ∧ labelled then none
        else
          exportEdges image symbol count cursor (labelled || (fits && !label.isEmpty))
            (if fits ∧ found.isNone then some (offset, length) else found)

def exportWalk (image : GuestImage) : ℕ → ℕ → CString → GIExportResult
  | 0, _, _ => .invalid
  | budget + 1, node, symbol =>
    if image.exports.length ≤ node then .invalid
    else
      match exportUleb image.exports node image.exports.length with
      | none => .invalid
      | some (terminalSize, cursor) =>
        if image.exports.length - cursor < terminalSize then .invalid
        else
          let children := cursor + terminalSize
          if symbol = [] ∧ terminalSize ≠ 0 then image.exportTerminal cursor children
          else if children = image.exports.length then .invalid
          else
            match image.exportEdges symbol (image.exports.getD children 0).toNat (children + 1)
                false none with
            | none => .invalid
            | some none => .missing
            | some (some (next, consumed)) =>
              exportWalk image budget next (symbol.drop consumed)

def giExport (image : GuestImage) (symbol : CString) : GIExportResult :=
  if symbol = [] then .invalid
  else if image.exports = [] then .missing
  else if image.exports.length < symbol.length then .missing
  else image.exportWalk (symbol.length + 8192) 0 symbol

/-- The loop of `gi_extent`: the lowest mapped address and the end of the highest. -/
def extentLoop : List GISegment → ℕ × ℕ → ℕ × ℕ
  | [], reach => reach
  | s :: rest, (start, stop) =>
    if s.size = 0 ∨ s.name = ascii "__PAGEZERO" then extentLoop rest (start, stop)
    else extentLoop rest
      (if s.address < start then s.address else start,
        if stop < s.address + s.size then s.address + s.size else stop)

/-- `gi_extent`: the page-aligned reach and the lowest address. -/
def giExtent (image : GuestImage) : ℕ × ℕ :=
  let (start, stop) := extentLoop image.segments (uint64Max, 0)
  if stop < start then (0, image.headerAddress)
  else ((stop - start + pageSize - 1) / pageSize * pageSize, start)

end GuestImage

end Tolkara
