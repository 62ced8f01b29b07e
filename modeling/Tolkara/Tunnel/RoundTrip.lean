import Tolkara.Tunnel.Checksum

/-!
# What a packet decodes to

A packet is its addresses and its TCP part. It is decoded to the fields of the TCP part,
with the segment size its options name, whenever the part is well formed and carries its
checksum.
-/

namespace Tolkara

namespace TunnelTCPCodec

/-! ## Options -/

/-- The option bytes of a TCP header, with the segment size they name. -/
inductive Options : List UInt8 → Option (BitVec 16) → Prop
  | nil : Options [] none
  | last (rest : List UInt8) : Options (0 :: rest) none
  | skip {rest : List UInt8} {mss : Option (BitVec 16)} (h : Options rest mss) :
      Options (1 :: rest) mss
  | size {high low : UInt8} {rest : List UInt8} (hpos : 0 < (high.toBitVec ++ low.toBitVec).toNat)
      (h : Options rest none) :
      Options (2 :: 4 :: high :: low :: rest) (some (high.toBitVec ++ low.toBitVec))
  | other {kind size : UInt8} {value rest : List UInt8} {mss : Option (BitVec 16)}
      (hlast : kind ≠ 0) (hskip : kind ≠ 1) (hsize : kind ≠ 2)
      (hlength : size.toNat = value.length + 2) (h : Options rest mss) :
      Options (kind :: size :: (value ++ rest)) mss

/-- The bytes the option loop still sees. -/
def ahead (b : List UInt8) (stop i : ℕ) : List UInt8 := (b.take stop).drop i

variable {b : List UInt8} {stop i fuel : ℕ} {mss : Option (BitVec 16)}

theorem ahead_cons {byte : UInt8} {rest : List UInt8} (h : ahead b stop i = byte :: rest) :
    i < stop ∧ byteAt b i = byte ∧ ahead b stop (i + 1) = rest := by
  have hget : (b.take stop)[i]? = some byte := by
    rw [← List.head?_drop]
    exact congrArg List.head? h
  rw [List.getElem?_take] at hget
  split_ifs at hget with hlt
  refine ⟨hlt, ?_, ?_⟩
  · rw [byteAt, List.getD_eq_getElem?_getD, hget]
    rfl
  · rw [ahead, ← List.tail_drop]
    exact congrArg List.tail h

theorem ahead_nil (hi : stop ≤ i) : ahead b stop i = [] := by
  refine List.drop_eq_nil_of_le ?_
  rw [List.length_take]
  omega

theorem length_ahead (hstop : stop ≤ b.length) : (ahead b stop i).length = stop - i := by
  rw [ahead, List.length_drop, List.length_take, Nat.min_eq_left hstop]

theorem ahead_append {front rest : List UInt8} (h : ahead b stop i = front ++ rest) :
    ahead b stop (i + front.length) = rest := by
  rw [ahead] at h
  rw [ahead, ← List.drop_drop, h, List.drop_left]

/-- Well-formed options are passed, and the segment size they name is found. The induction
is on the options; the loop is at most as long as the bytes ahead of it. -/
theorem options_of_wellFormed {own : Option (BitVec 16)}
    (h : Options (ahead b stop i) own) (hfuel : stop ≤ i + fuel) (hstop : stop ≤ b.length)
    (honce : mss = none ∨ own = none) :
    options b stop fuel i mss = some (own.or mss) := by
  generalize hbytes : ahead b stop i = bytes at h
  induction h generalizing i fuel mss with
  | nil =>
      have hlength := length_ahead (i := i) hstop
      rw [hbytes, List.length_nil] at hlength
      cases fuel with
      | zero => rfl
      | succ fuel => exact if_neg (by omega)
  | last rest =>
      obtain ⟨hi, hkind, -⟩ := ahead_cons hbytes
      obtain ⟨fuel, rfl⟩ : ∃ n, fuel = n + 1 := ⟨fuel - 1, by omega⟩
      rw [options, if_pos hi]
      exact if_pos hkind
  | skip h ih =>
      obtain ⟨hi, hkind, hrest⟩ := ahead_cons hbytes
      obtain ⟨fuel, rfl⟩ : ∃ n, fuel = n + 1 := ⟨fuel - 1, by omega⟩
      rw [options, if_pos hi]
      dsimp only
      rw [hkind, if_neg (by decide), if_pos rfl]
      exact ih (by omega) honce hrest
  | size hpos h ih =>
      obtain ⟨hi, hkind, hsize⟩ := ahead_cons hbytes
      obtain ⟨hi', hlength, hvalue⟩ := ahead_cons hsize
      obtain ⟨-, hhigh, hlow⟩ := ahead_cons hvalue
      obtain ⟨hend, hlow, hrest⟩ := ahead_cons hlow
      obtain ⟨fuel, rfl⟩ : ∃ n, fuel = n + 1 := ⟨fuel - 1, by omega⟩
      have hnone : mss = none := honce.resolve_right (Option.some_ne_none _)
      have hword : u16 b (i + 2) = _ := congrArg₂ (fun x y => x.toBitVec ++ y.toBitVec) hhigh hlow
      rw [options, if_pos hi]
      dsimp only
      have hfits : i + 1 < stop ∧ 2 ≤ (4 : UInt8).toNat ∧ i + (4 : UInt8).toNat ≤ stop :=
        ⟨hi', by decide, hend⟩
      rw [hkind, hlength, if_neg (by decide), if_neg (by decide), if_neg (not_not.2 hfits),
        if_pos rfl, hword, if_pos ⟨by decide, hnone, hpos⟩]
      exact ih (by omega) (Or.inr rfl) hrest
  | @other kind size value rest found hlast hskip hsize hlength h ih =>
      obtain ⟨hi, hkind, hbehind⟩ := ahead_cons hbytes
      obtain ⟨hi', hfield, hvalue⟩ := ahead_cons hbehind
      obtain ⟨fuel, rfl⟩ : ∃ n, fuel = n + 1 := ⟨fuel - 1, by omega⟩
      have hrest := ahead_append hvalue
      have hcount := length_ahead (i := i + 1 + 1) hstop
      rw [hvalue, List.length_append] at hcount
      rw [options, if_pos hi]
      dsimp only
      rw [hkind, hfield, if_neg hlast, if_neg hskip, if_neg (by omega), if_neg hsize]
      refine ih (by omega) honce ?_
      rw [hlength, show i + (value.length + 2) = i + 1 + 1 + value.length by omega]
      exact hrest

/-! ## Packets -/

theorem toNat_bytes (high low : UInt8) :
    (high.toBitVec ++ low.toBitVec).toNat = high.toNat * 256 + low.toNat := by
  have hlow := low.toNat_lt
  rw [BitVec.toNat_append, ← Nat.shiftLeft_add_eq_or_of_lt low.toBitVec.isLt, Nat.shiftLeft_eq]
  rfl

/-- The packet of a TCP part between two addresses. -/
def ipv6 (source destination tcp : List UInt8) : List UInt8 :=
  [0x60, 0, 0, 0, highByte tcp.length, lowByte tcp.length, 6, 64] ++ source ++ destination ++ tcp

section

variable {source destination tcp : List UInt8}

theorem length_ipv6 (hs : source.length = 16) (hd : destination.length = 16) :
    (ipv6 source destination tcp).length = 40 + tcp.length := by
  simp only [ipv6, List.length_append, List.length_cons, List.length_nil, hs, hd]

theorem drop_ipv6 (hs : source.length = 16) (hd : destination.length = 16) :
    (ipv6 source destination tcp).drop 40 = tcp := by
  rw [ipv6]
  refine List.drop_left' ?_
  simp only [List.length_append, List.length_cons, List.length_nil, hs, hd]

theorem source_ipv6 (hs : source.length = 16) :
    ((ipv6 source destination tcp).drop 8).take 16 = source := by
  rw [ipv6, List.append_assoc, List.append_assoc]
  exact List.take_left' hs

theorem destination_ipv6 (hs : source.length = 16) (hd : destination.length = 16) :
    ((ipv6 source destination tcp).drop 24).take 16 = destination := by
  rw [ipv6, List.append_assoc, List.drop_left', List.take_left' hd]
  simp only [List.length_append, List.length_cons, List.length_nil, hs]

theorem byteAt_ipv6 (hs : source.length = 16) (hd : destination.length = 16) (i : ℕ) :
    byteAt (ipv6 source destination tcp) (40 + i) = byteAt tcp i := by
  rw [byteAt, byteAt, List.getD_eq_getElem?_getD, List.getD_eq_getElem?_getD,
    ← List.getElem?_drop, drop_ipv6 hs hd]

theorem u16_ipv6 (hs : source.length = 16) (hd : destination.length = 16) (i : ℕ) :
    u16 (ipv6 source destination tcp) (40 + i) = u16 tcp i := by
  rw [u16, u16, Nat.add_assoc, byteAt_ipv6 hs hd, byteAt_ipv6 hs hd]

theorem u32_ipv6 (hs : source.length = 16) (hd : destination.length = 16) (i : ℕ) :
    u32 (ipv6 source destination tcp) (40 + i) = u32 tcp i := by
  rw [u32, u32, Nat.add_assoc, u16_ipv6 hs hd, u16_ipv6 hs hd]

theorem ahead_ipv6 (hs : source.length = 16) (hd : destination.length = 16) (stop i : ℕ) :
    ahead (ipv6 source destination tcp) (40 + stop) (40 + i) = ahead tcp stop i := by
  rw [ahead, ahead, ← List.drop_drop, ← List.take_drop, drop_ipv6 hs hd]

end

/-- The fields of a TCP part, with the segment size its options name. -/
def segmentOf (tcp : List UInt8) (mss : Option (BitVec 16)) : TunnelTCPSegment :=
  { sequence := u32 tcp 4
    acknowledgement := u32 tcp 8
    flags := byteAt tcp 13
    window := u16 tcp 14
    payload := tcp.drop ((byteAt tcp 12).toNat / 16 * 4)
    mss := mss }

/-- A TCP part whose data offset, reserved bits and options are well formed, with the
segment size it names. -/
structure WellFormed (tcp : List UInt8) (mss : Option (BitVec 16)) : Prop where
  offset_ge : 20 ≤ (byteAt tcp 12).toNat / 16 * 4
  offset_le : (byteAt tcp 12).toNat / 16 * 4 ≤ tcp.length
  reserved : (byteAt tcp 12).toNat % 16 = 0
  options : Options (ahead tcp ((byteAt tcp 12).toNat / 16 * 4) 20) mss

/-- What a packet decodes to at the receiver it is addressed to. -/
theorem decode_ipv6 {endpoints : TunnelTCPEndpoints} {tcp : List UInt8} {mtu : ℕ}
    {mss : Option (BitVec 16)} (h : WellFormed tcp mss) (hlength : tcp.length ≤ 65535)
    (hmtu : 40 + tcp.length ≤ mtu) (hsource : u16 tcp 0 = endpoints.remotePort)
    (hdestination : u16 tcp 2 = endpoints.localPort)
    (hchecked : Checked (pseudo endpoints.remoteAddress.rawValue endpoints.localAddress.rawValue
      tcp.length ++ tcp)) :
    decode (ipv6 endpoints.remoteAddress.rawValue endpoints.localAddress.rawValue tcp) endpoints
      mtu = some (segmentOf tcp mss) := by
  have hs := endpoints.remoteAddress.length_rawValue
  have hd := endpoints.localAddress.length_rawValue
  have htotal := @length_ipv6 _ _ tcp hs hd
  have hu16 := @u16_ipv6 _ _ tcp hs hd
  have hu32 := @u32_ipv6 _ _ tcp hs hd
  have hbyte := @byteAt_ipv6 _ _ tcp hs hd
  have hdrop := @drop_ipv6 _ _ tcp hs hd
  have hfixed := h.offset_ge.trans h.offset_le
  have hstop : 40 + (byteAt tcp 12).toNat / 16 * 4 ≤ 40 + tcp.length :=
    Nat.add_le_add_left h.offset_le 40
  have hsize : u16 (ipv6 endpoints.remoteAddress.rawValue endpoints.localAddress.rawValue tcp) 4 =
      BitVec.ofNat 16 tcp.length := by
    refine BitVec.eq_of_toNat_eq ?_
    rw [BitVec.toNat_ofNat, Nat.mod_eq_of_lt (by omega)]
    exact (toNat_bytes _ _).trans (toNat_word (by omega))
  have hoptions := h.options
  rw [← @ahead_ipv6 _ _ tcp hs hd] at hoptions
  have hpassed := options_of_wellFormed hoptions
    (by omega : _ ≤ 40 + 20 + (byteAt tcp 12).toNat / 16 * 4) (by rwa [htotal]) (Or.inl rfl)
  have hbytes : 40 + tcp.length - 40 = tcp.length := Nat.add_sub_cancel_left _ _
  unfold decode
  dsimp only
  rw [htotal, if_neg (not_not.2 ⟨by omega, hmtu⟩), source_ipv6 hs, destination_ipv6 hs hd, hsize,
    hu16 0, hu16 2, if_neg, hbyte 12, hdrop, hbytes, if_neg]
  · rw [hpassed, Option.or_none, Option.map_some, hu32 4, hu32 8, hbyte 13, hu16 14, segmentOf,
      ← List.drop_drop, hdrop]
  · refine not_not.2 ⟨h.offset_ge, h.offset_le, h.reserved, (checksum_eq_zero_iff ?_).2 hchecked⟩
    simp only [pseudo, List.length_append, List.length_cons, List.length_nil, hs, hd]
    omega
  · refine not_not.2 ⟨?_, rfl, ?_, ?_, rfl, rfl, hsource, hdestination⟩
    · change (0x60 : UInt8).toNat / 16 = 6
      decide
    · change (64 : UInt8) ≠ 0
      decide
    · rw [BitVec.toNat_ofNat, Nat.mod_eq_of_lt (by omega), Nat.add_comm]

/-! ## The checksum of a TCP part -/

/-- Two TCP parts that differ in nothing but their checksums. -/
structure Alike (tcp tcp' : List UInt8) : Prop where
  length : tcp'.length = tcp.length
  bytes : ∀ i, i ≠ 16 → i ≠ 17 → byteAt tcp' i = byteAt tcp i

section

variable {tcp tcp' : List UInt8}

theorem alike_fill (tcp : List UInt8) (check : BitVec 16) : Alike tcp (fill 16 tcp check) := by
  refine ⟨length_fill 16 tcp check, fun i hi hi' => ?_⟩
  rw [byteAt, byteAt, List.getD_eq_getElem?_getD, List.getD_eq_getElem?_getD, fill,
    List.getElem?_set_ne hi'.symm, List.getElem?_set_ne hi.symm]

theorem Alike.u16 (h : Alike tcp tcp') {i : ℕ} (hi : i + 1 < 16) : u16 tcp' i = u16 tcp i := by
  rw [TunnelTCPCodec.u16, TunnelTCPCodec.u16, h.bytes i (by omega) (by omega),
    h.bytes (i + 1) (by omega) (by omega)]

theorem Alike.u32 (h : Alike tcp tcp') {i : ℕ} (hi : i + 3 < 16) : u32 tcp' i = u32 tcp i := by
  rw [TunnelTCPCodec.u32, TunnelTCPCodec.u32, h.u16 (by omega), h.u16 (by omega)]

/-- Behind the fixed part nothing differs. -/
theorem Alike.drop (h : Alike tcp tcp') {i : ℕ} (hi : 18 ≤ i) : tcp'.drop i = tcp.drop i := by
  refine List.ext_getElem (by rw [List.length_drop, List.length_drop, h.length]) ?_
  intro j hj hj'
  rw [List.length_drop] at hj hj'
  have hbyte := h.bytes (i + j) (by omega) (by omega)
  rw [byteAt, byteAt, List.getD_eq_getElem?_getD, List.getD_eq_getElem?_getD,
    List.getElem?_eq_getElem (by omega), List.getElem?_eq_getElem (by omega)] at hbyte
  rw [List.getElem_drop, List.getElem_drop]
  exact hbyte

theorem Alike.wellFormed (h : Alike tcp tcp') {mss : Option (BitVec 16)}
    (hw : WellFormed tcp mss) : WellFormed tcp' mss := by
  have hoffset := h.bytes 12 (by decide) (by decide)
  refine ⟨?_, ?_, ?_, ?_⟩
  · rw [hoffset]
    exact hw.offset_ge
  · rw [hoffset, h.length]
    exact hw.offset_le
  · rw [hoffset]
    exact hw.reserved
  · have hoptions := hw.options
    rw [ahead, List.drop_take] at hoptions
    rwa [hoffset, ahead, List.drop_take, h.drop (by decide)]

theorem Alike.segmentOf (h : Alike tcp tcp') {mss : Option (BitVec 16)}
    (hw : WellFormed tcp mss) : segmentOf tcp' mss = segmentOf tcp mss := by
  have hoffset := hw.offset_ge
  rw [TunnelTCPCodec.segmentOf, TunnelTCPCodec.segmentOf, h.u32 (by decide), h.u32 (by decide),
    h.u16 (by decide), h.bytes 13 (by decide) (by decide), h.bytes 12 (by decide) (by decide),
    h.drop (by omega)]

/-- The checksum over a pseudo-header, which is never empty, and the TCP part. -/
theorem checked_tcp {front : List UInt8} (heven : front.length % 2 = 0) {byte : UInt8}
    (hmem : byte ∈ front) (hne : byte ≠ 0) (hfixed : 20 ≤ tcp.length)
    (hlength : (front ++ tcp).length ≤ 131072) :
    Checked (front ++ fill 16 tcp (checksum (front ++ blank 16 tcp))) :=
  checked_fill heven rfl (by omega) hlength
    (wordSum_pos (List.mem_append_left (blank 16 tcp) hmem) hne)

/-- A well-formed TCP part that is sent with its checksum is decoded to its fields. -/
theorem decode_sealed {endpoints : TunnelTCPEndpoints} {mtu : ℕ} {mss : Option (BitVec 16)}
    (h : WellFormed tcp mss) (hlength : tcp.length ≤ 65535) (hmtu : 40 + tcp.length ≤ mtu)
    (hsource : u16 tcp 0 = endpoints.remotePort) (hdestination : u16 tcp 2 = endpoints.localPort) :
    decode (ipv6 endpoints.remoteAddress.rawValue endpoints.localAddress.rawValue
      (fill 16 tcp (checksum (pseudo endpoints.remoteAddress.rawValue
        endpoints.localAddress.rawValue tcp.length ++ blank 16 tcp)))) endpoints mtu =
      some (segmentOf tcp mss) := by
  have hs := endpoints.remoteAddress.length_rawValue
  have hd := endpoints.localAddress.length_rawValue
  have halike := alike_fill tcp (checksum (pseudo endpoints.remoteAddress.rawValue
    endpoints.localAddress.rawValue tcp.length ++ blank 16 tcp))
  have hfront : (pseudo endpoints.remoteAddress.rawValue endpoints.localAddress.rawValue
      tcp.length).length = 40 := by
    simp only [pseudo, List.length_append, List.length_cons, List.length_nil, hs, hd]
  have hprotocol : (6 : UInt8) ∈ pseudo endpoints.remoteAddress.rawValue
      endpoints.localAddress.rawValue tcp.length := by
    simp [pseudo]
  have hchecked := checked_tcp (by rw [hfront]) hprotocol (by decide)
    (h.offset_ge.trans h.offset_le) (by rw [List.length_append, hfront]; omega)
  rw [← halike.segmentOf h]
  refine decode_ipv6 (halike.wellFormed h) ?_ ?_ ?_ ?_ ?_
  · rwa [halike.length]
  · rwa [halike.length]
  · rwa [halike.u16 (by decide)]
  · rwa [halike.u16 (by decide)]
  · rwa [halike.length]

end

/-! ## What is encoded -/

theorem word16 (n : BitVec 16) :
    (highByte n.toNat).toBitVec ++ (lowByte n.toNat).toBitVec = n :=
  BitVec.eq_of_toNat_eq ((toNat_bytes _ _).trans (toNat_word n.isLt))

theorem word32 (n : BitVec 32) :
    ((UInt8.ofNat (n.toNat / 16777216)).toBitVec ++
        (UInt8.ofNat (n.toNat / 65536 % 256)).toBitVec : BitVec 16) ++
      ((UInt8.ofNat (n.toNat / 256 % 256)).toBitVec ++
        (UInt8.ofNat (n.toNat % 256)).toBitVec : BitVec 16) = n := by
  have hn := n.isLt
  have hbyte : ∀ m < 256, (UInt8.ofNat m).toNat = m := fun m hm => UInt8.toNat_ofNat_of_lt' hm
  refine BitVec.eq_of_toNat_eq ?_
  rw [BitVec.toNat_append, ← Nat.shiftLeft_add_eq_or_of_lt (BitVec.isLt _), Nat.shiftLeft_eq,
    toNat_bytes, toNat_bytes, hbyte _ (by omega), hbyte _ (by omega), hbyte _ (by omega),
    hbyte _ (by omega)]
  omega

/-- The TCP part of a segment, with its checksum not yet filled in. -/
def unchecked (segment : TunnelTCPSegment) (sourcePort destinationPort : BitVec 16) : List UInt8 :=
  header segment sourcePort destinationPort ++ segment.payload

/-- `encode` traps when the TCP part is longer than its length field can say. -/
def packetOf (segment : TunnelTCPSegment) (endpoints : TunnelTCPEndpoints) (incoming : Bool) :
    Option (List UInt8) :=
  if ((encode segment endpoints incoming).drop 40).length ≤ 65535 then
    some (encode segment endpoints incoming)
  else none

section

variable {segment : TunnelTCPSegment} (sourcePort destinationPort : BitVec 16)

theorem wellFormed_unchecked (hmss : segment.mss ≠ some 0) :
    WellFormed (unchecked segment sourcePort destinationPort) segment.mss := by
  cases hm : segment.mss with
  | none =>
      have hoffset : byteAt (unchecked segment sourcePort destinationPort) 12 = 0x50 := by
        rw [unchecked, header, hm]
        rfl
      refine ⟨?_, ?_, ?_, ?_⟩ <;> rw [hoffset]
      · decide
      · simp [unchecked, header, add16, add32, hm]
      · decide
      · rw [ahead_nil (by decide)]
        exact Options.nil
  | some mss =>
      have hoffset : byteAt (unchecked segment sourcePort destinationPort) 12 = 0x60 := by
        rw [unchecked, header, hm]
        rfl
      have hahead : ahead (unchecked segment sourcePort destinationPort) 24 20 =
          [2, 4, highByte mss.toNat, lowByte mss.toNat] := by
        rw [unchecked, header, hm]
        rfl
      have hpos : 0 < mss.toNat := by
        refine Nat.pos_of_ne_zero fun h => hmss ?_
        have hzero : mss = 0 := BitVec.eq_of_toNat_eq h
        rw [hm, hzero]
      refine ⟨?_, ?_, ?_, ?_⟩ <;> rw [hoffset]
      · decide
      · simp [unchecked, header, add16, add32, hm]
      · decide
      · have hsize : Options [2, 4, highByte mss.toNat, lowByte mss.toNat]
            (some ((highByte mss.toNat).toBitVec ++ (lowByte mss.toNat).toBitVec)) :=
          Options.size (by rwa [word16]) Options.nil
        rw [word16, ← hahead] at hsize
        exact hsize

theorem segmentOf_unchecked :
    segmentOf (unchecked segment sourcePort destinationPort) segment.mss = segment := by
  obtain ⟨sequence, acknowledgement, flags, window, payload, mss⟩ := segment
  have hsequence := word32 sequence
  have hacknowledgement := word32 acknowledgement
  have hwindow := word16 window
  cases mss with
  | none =>
      have hoffset : (0x50 : UInt8).toNat / 16 * 4 = 20 := by decide
      rw [segmentOf, TunnelTCPSegment.mk.injEq]
      refine ⟨hsequence, hacknowledgement, rfl, hwindow, ?_, rfl⟩
      change List.drop ((0x50 : UInt8).toNat / 16 * 4) _ = _
      rw [hoffset]
      rfl
  | some mss =>
      have hoffset : (0x60 : UInt8).toNat / 16 * 4 = 24 := by decide
      rw [segmentOf, TunnelTCPSegment.mk.injEq]
      refine ⟨hsequence, hacknowledgement, rfl, hwindow, ?_, rfl⟩
      change List.drop ((0x60 : UInt8).toNat / 16 * 4) _ = _
      rw [hoffset]
      rfl

end

theorem length_unchecked (segment : TunnelTCPSegment) (endpoints : TunnelTCPEndpoints) :
    40 + (unchecked segment endpoints.remotePort endpoints.localPort).length =
      (encode segment endpoints true).length := by
  rw [length_encode, unchecked, List.length_append]
  cases hm : segment.mss with
  | none =>
      simp [header, add16, add32, hm]
      omega
  | some mss =>
      simp [header, add16, add32, hm]
      omega

theorem decode_encode {segment : TunnelTCPSegment} {endpoints : TunnelTCPEndpoints} {mtu : ℕ}
    {packet : List UInt8} (hpacket : packetOf segment endpoints true = some packet)
    (hmss : segment.mss ≠ some 0) (hmtu : packet.length ≤ mtu) :
    decode packet endpoints mtu = some segment := by
  rw [packetOf] at hpacket
  split_ifs at hpacket with hfits
  obtain rfl := Option.some.inj hpacket
  have htotal := length_unchecked segment endpoints
  rw [List.length_drop] at hfits
  have hdecode := decode_sealed
    (wellFormed_unchecked endpoints.remotePort endpoints.localPort hmss) (by omega)
    (htotal.trans_le hmtu) (word16 endpoints.remotePort) (word16 endpoints.localPort)
  rw [segmentOf_unchecked, ipv6, length_fill] at hdecode
  exact hdecode

end TunnelTCPCodec

end Tolkara
