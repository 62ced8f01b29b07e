import Tolkara.Fixups.Formats

/-!
# What the streams and the blob ask for

A stream of opcodes moves some registers, and at some of their states it asks for a fixup:
`Reached` follows the registers through the bytes alone, without the memory of the image. The
blob of the chains lists, for a segment, the pages with chains and the imports their records name.
Both were read from the memory as it was after some of the pointers, `ReadAt`.
-/

namespace Tolkara

open Library

namespace GuestFixups

variable {σ : Type}

def ReadAt (image : LoadedImage) (m : Flat) (earlier : List GFObservation) (range : ℕ × ℕ)
    (bytes : List UInt8) : Prop :=
  ∃ place, streamPlace image range = some place ∧
    bytes = (after m earlier).bytes place range.2

theorem stream_keeps {P : List GFObservation → GFObservation → Prop} {base : List GFObservation}
    {m : Flat} {s : Fixing σ} (h : Wrote P base m s []) (host : GFHost σ) (image : LoadedImage)
    (buffer : ℕ) (range : ℕ × ℕ) :
    (stream host image buffer range.1 range.2).Meets s
      (fun read t => Wrote P s.observed m t [] ∧ t.observed = s.observed ∧
        ∀ bytes, read = some bytes → ReadAt image m s.observed range bytes)
      fun _ _ => False := by
  have hnone : Wrote P s.observed m s [] ∧ s.observed = s.observed ∧
      ∀ bytes, (none : Option (List UInt8)) = some bytes →
        ReadAt image m s.observed range bytes :=
    ⟨h.here, rfl, fun bytes hread => by cases hread⟩
  unfold stream
  split
  · exact hnone
  · cases hsegment : streamSegment image range.1 range.2 with
    | none => exact hnone
    | some segment =>
        dsimp only
        split
        · refine (readBytes_keeps h.here _ _).imp (fun read t ht => ⟨ht.1, ht.2.2.1, ?_⟩)
            fun _ _ => id
          intro bytes hread
          refine ⟨_, by rw [streamPlace, hsegment]; rfl, ?_⟩
          rw [ht.2.2.2 bytes hread, h.memory_eq]
        · exact hnone

/-! ## Opcodes -/

/-- The states of the registers that a stream reaches: where it is read next, the registers, how
many fixups they are still to make and what is skipped after each. -/
inductive Reached {ρ : Type} (opcode : UInt8 → Cursor → ρ → Decoded ρ) (moved : ℕ → ρ → Option ρ)
    (bytes : List UInt8) (first : ρ) : Cursor → ρ → ℕ → ℕ → Prop
  | start : Reached opcode moved bytes first ⟨bytes, 0, false⟩ first 0 0
  | read {c c' : Cursor} {r r' : ρ} {skip count skip' : ℕ} {byte : UInt8}
      (h : Reached opcode moved bytes first c r 0 skip) (hbyte : c.bytes[c.p]? = some byte)
      (hopcode : opcode byte { c with p := c.p + 1 } r = .run c' r' count skip')
      (hgood : c'.bad = false) :
      Reached opcode moved bytes first c' r' count skip'
  | fixed {c : Cursor} {r r' : ρ} {count skip : ℕ}
      (h : Reached opcode moved bytes first c r (count + 1) skip) (hmoved : moved skip r = some r') :
      Reached opcode moved bytes first c r' count skip

/-- The rebase stream asks for a pointer with these registers. -/
def RebaseAsked (bytes : List UInt8) : Cursor → Rebasing → ℕ → ℕ → Prop :=
  Reached (fun byte => rebaseOpcode (byte.toNat / 16) (byte.toNat % 16))
    (fun skip r => (add r.offset (8 + skip)).map fun offset => { r with offset := offset })
    bytes ⟨uint64Max, 0, 0⟩

/-- One of the three bind streams, which may be the lazy or the weak one. -/
structure BindStream where
  lazy : Bool
  weak : Bool
  range : ℕ × ℕ

def bindStreams (image : LoadedImage) : List BindStream :=
  [⟨true, false, image.dyldInfo.lazyBind⟩, ⟨false, false, image.dyldInfo.bind⟩,
    ⟨false, true, image.dyldInfo.weakBind⟩]

def BindStream.Asked (b : BindStream) (image : LoadedImage) (bytes : List UInt8) :
    Cursor → Binding → ℕ → ℕ → Prop :=
  Reached (fun byte c r => bindOpcode image.dylibs.length b.lazy (byte.toNat / 16)
      (byte.toNat % 16) c { r with ended := false })
    (fun skip r => some { r with offset := (r.offset + 8 + skip) % 2 ^ 64 })
    bytes (.fresh (if b.weak then -3 else 0) false)

/-! ## Chains -/

/-- The chains of a segment as the blob lists them. -/
structure ListedChains (image : LoadedImage) (blob : List UInt8) where
  header : ChainedHeader
  imports : List ChainedImport
  index : ℕ
  info : ℕ
  segment : GISegment
  pageSize : ℕ
  format : ℕ
  segmentOffset : ℕ
  pageCount : ℕ
  header_eq : chainedHeader blob = .ok header
  imports_eq : importLoop image blob header header.importsCount 0 [] = .ok imports
  info_eq : blobNumber blob (header.startsOffset + 4 + index * 4) 4 = some info
  segment_eq : image.segments[index]? = some segment
  pageSize_eq : blobNumber blob (header.startsOffset + info + 4) 2 = some pageSize
  format_eq : blobNumber blob (header.startsOffset + info + 6) 2 = some format
  offset_eq : blobNumber blob (header.startsOffset + info + 8) 8 = some segmentOffset
  count_eq : blobNumber blob (header.startsOffset + info + 20) 2 = some pageCount
  plain : format = 2 ∨ format = 6
  size : pageSize = 4096 ∨ pageSize = 16384

namespace ListedChains

variable {image : LoadedImage} {blob : List UInt8} (x : ListedChains image blob)

def pageStart (page : ℕ) : ℕ := (image.headerAddress + x.segmentOffset + page * x.pageSize) % 2 ^ 64

/-- A pointer on a page of the segment. -/
structure Slot (page a : ℕ) : Prop where
  listed : page < x.pageCount
  starts : x.segment.address ≤ x.pageStart page
  above : x.pageStart page ≤ a
  onPage : a + 8 ≤ x.pageStart page + x.pageSize
  inside : a + 8 ≤ x.segment.address + x.segment.size

def chains (slide : ℕ) : Chains :=
  ⟨image, slide, x.imports, x.segment, x.format, x.pageSize⟩

end ListedChains

end GuestFixups

end Tolkara
