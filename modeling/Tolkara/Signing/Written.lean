import Tolkara.Signing.CMS

/-!
# What the writer writes is read

One lemma for each part of the CMS signature: the outer layers, the SignerInfo, the signed
attributes and the certificates. The outer layers are readable exactly when the certificates
and the SignerInfo fit.
-/

namespace Tolkara

namespace Signing

open Library

/-! ## Parts of what fits -/

namespace Fits

variable {tag : UInt8} {a b c : List UInt8}

theorem content (h : Fits (sglDer tag c)) : Fits c := h.mono (length_lt_length_sglDer tag c).le

theorem left (h : Fits (a ++ b)) : Fits a :=
  h.mono (by rw [List.length_append]; exact Nat.le_add_right _ _)

theorem right (h : Fits (a ++ b)) : Fits b :=
  h.mono (by rw [List.length_append]; exact Nat.le_add_left _ _)

end Fits

/-! ## Algorithms -/

theorem sglAlgId_sglDer {oid : List UInt8} (h : Fits oid) :
    sglAlgId (sglDer 0x06 oid) = some oid := by
  unfold sglAlgId
  rw [sglDerNext_sglDer_nil (by decide) h]

theorem sglAlgId_sglDer_null {oid : List UInt8} (h : Fits oid) :
    sglAlgId (sglDer 0x06 oid ++ [0x05, 0x00]) = some oid := by
  unfold sglAlgId
  rw [sglDerNext_sglDer (by decide) h]
  rfl

def algContent (oid : List UInt8) (withNull : Bool) : List UInt8 :=
  sglDer 0x06 oid ++ if withNull then [0x05, 0x00] else []

theorem sglAlgId_algContent {oid : List UInt8} (h : Fits oid) (withNull : Bool) :
    sglAlgId (algContent oid withNull) = some oid := by
  cases withNull with
  | false =>
      rw [algContent, if_neg Bool.false_ne_true, List.append_nil]
      exact sglAlgId_sglDer h
  | true => exact sglAlgId_sglDer_null h

/-- An algorithm in the place of an element. -/
theorem sglDerNext_sglAlgSeq {oid : List UInt8} {withNull : Bool} (h : Fits (sglAlgSeq oid withNull))
    (s : List UInt8) :
    sglDerNext 0x30 (sglAlgSeq oid withNull ++ s) =
      some (⟨⟨0x30, algContent oid withNull⟩, sglAlgSeq oid withNull⟩, s) :=
  sglDerNext_sglDer (by decide) h.content s

theorem sglAlgId_of_fits {oid : List UInt8} {withNull : Bool} (h : Fits (sglAlgSeq oid withNull)) :
    sglAlgId (algContent oid withNull) = some oid :=
  sglAlgId_algContent h.content.left.content withNull

/-! ## Elements that were read before -/

theorem IsElement.next {want : UInt8} {bytes : List UInt8} (h : IsElement want bytes)
    (s : List UInt8) : ∃ t : Tlv, t.whole = bytes ∧ sglDerNext want (bytes ++ s) = some (t, s) := by
  obtain ⟨t, -, hwhole, hread⟩ := h
  exact ⟨t, hwhole, hread s⟩

/-! ## The SignerInfo -/

def signatureOid (rsaKey : Bool) : List UInt8 := if rsaKey then kOidSHA256RSA else kOidSHA256ECDSA

theorem signatureAlg_eq (rsaKey : Bool) :
    (if rsaKey then sglAlgSeq kOidSHA256RSA true else sglAlgSeq kOidSHA256ECDSA false) =
      sglAlgSeq (signatureOid rsaKey) rsaKey := by
  cases rsaKey with
  | false => rfl
  | true => rfl

section

variable {issuerTLV serialTLV attrs sig : List UInt8} {rsaKey : Bool}

theorem signerInfo_eq :
    signerInfo issuerTLV serialTLV attrs sig rsaKey =
      sglDer 0x02 [1] ++ (sglDer 0x30 (issuerTLV ++ serialTLV) ++ (sglAlgSeq kOidSHA256 true ++
        (sglDer 0xa0 attrs ++ (sglAlgSeq (signatureOid rsaKey) rsaKey ++ sglDer 0x04 sig)))) := by
  rw [signerInfo, signatureAlg_eq]
  simp only [List.append_assoc]
  rfl

structure SignerInfoFits (issuerTLV serialTLV attrs sig : List UInt8) (rsaKey : Bool) : Prop where
  sid : Fits (issuerTLV ++ serialTLV)
  digestAlg : Fits (sglAlgSeq kOidSHA256 true)
  attrs : Fits attrs
  signatureAlg : Fits (sglAlgSeq (signatureOid rsaKey) rsaKey)
  sig : Fits sig

theorem signerInfoFits (h : Fits (signerInfo issuerTLV serialTLV attrs sig rsaKey)) :
    SignerInfoFits issuerTLV serialTLV attrs sig rsaKey := by
  rw [signerInfo_eq] at h
  have hsid := h.right
  have hdigest := hsid.right
  have hattrs := hdigest.right
  have halg := hattrs.right
  exact ⟨hsid.left.content, hdigest.left, hattrs.left.content, halg.left, halg.right.content⟩

theorem readSignerInfo_signerInfo (hissuer : IsElement 0x30 issuerTLV)
    (hserial : IsElement 0x02 serialTLV)
    (h : Fits (signerInfo issuerTLV serialTLV attrs sig rsaKey)) :
    readSignerInfo (signerInfo issuerTLV serialTLV attrs sig rsaKey) =
      .ok ⟨issuerTLV, serialTLV, attrs, signatureOid rsaKey, sig⟩ := by
  have hfits := signerInfoFits h
  obtain ⟨issuer, rfl, hreadIssuer⟩ := hissuer.next serialTLV
  obtain ⟨serial, rfl, hreadSerial⟩ := hserial.next []
  rw [List.append_nil] at hreadSerial
  simp only [readSignerInfo, bind_ok, obtained_ok, need_ok, exists_const, signerInfo_eq]
  exact ⟨_, sglDerNext_sglDer (by decide) (by unfold Fits; decide) _, rfl,
    _, sglDerNext_sglDer (by decide) hfits.sid _,
    _, hreadIssuer, _, hreadSerial, rfl,
    _, sglDerNext_sglAlgSeq hfits.digestAlg _, _, sglAlgId_of_fits hfits.digestAlg, rfl,
    _, sglDerNext_sglDer (by decide) hfits.attrs _,
    _, sglDerNext_sglAlgSeq hfits.signatureAlg _, _, sglAlgId_of_fits hfits.signatureAlg,
    _, sglDerNext_sglDer_nil (by decide) hfits.sig, _, rfl, rfl, rfl⟩

end

/-! ## The outer layers -/

def signedDataItems (certs si : List UInt8) : List (List UInt8) :=
  [sglDer 0x02 [1], sglDer 0x31 sglDigestAlgSeq, indefinite 0x30 [sglDer 0x06 kOidData].flatten,
    sglDer 0xa0 certs, sglDer 0x31 (sglDer 0x30 si)]

/-- The three layers around them. -/
def contentInfo (signedData : List UInt8) : List UInt8 :=
  indefinite 0x30
    [sglDer 0x06 kOidSignedData, indefinite 0xa0 [indefinite 0x30 signedData].flatten].flatten

theorem sglBuildCMS_eq (certDERs : List (List UInt8)) (issuerTLV serialTLV attrs sig : List UInt8)
    (rsaKey : Bool) :
    sglBuildCMS certDERs issuerTLV serialTLV attrs sig rsaKey =
      contentInfo (signedDataItems certDERs.flatten
        (signerInfo issuerTLV serialTLV attrs sig rsaKey)).flatten := by
  have hversion : version = sglDer 0x02 [1] := rfl
  simp only [sglBuildCMS, contentInfo, signedDataItems, indefinite, List.flatten_cons,
    List.flatten_nil, List.append_nil, List.append_assoc, List.cons_append, List.nil_append, hversion]

theorem fits_small {c : List UInt8} (h : c.length < 256) : Fits c := Nat.lt_trans h (by norm_num)

theorem berItem_singleton {levels : ℕ} {i : List UInt8} (h : BerItem levels i) :
    ∀ j ∈ [i], BerItem levels j := by
  intro j hj
  rwa [List.mem_singleton.1 hj]

theorem berItem_data : ∀ i ∈ [sglDer 0x06 kOidData], BerItem 13 i :=
  berItem_singleton (berItem_sglDer 12 (by decide) (by decide) (fits_small (by decide)))

theorem berItem_signedData : BerItem 16 (sglDer 0x06 kOidSignedData) :=
  berItem_sglDer 15 (by decide) (by decide) (fits_small (by decide))

theorem berItem_before : ∀ i ∈ [sglDer 0x02 [1], sglDer 0x31 sglDigestAlgSeq,
    indefinite 0x30 [sglDer 0x06 kOidData].flatten], BerItem 14 i := by
  intro i hi
  simp only [List.mem_cons, List.not_mem_nil, or_false] at hi
  rcases hi with rfl | rfl | rfl
  · exact berItem_sglDer 13 (by decide) (by decide) (fits_small (by decide))
  · exact berItem_sglDer 13 (by decide) (by decide) (fits_small (by decide))
  · exact berItem_indefinite (by decide) (by decide) berItem_data

theorem berItem_signedDataItems {certs si : List UInt8} (hcerts : Fits certs)
    (hsi : Fits (sglDer 0x30 si)) : ∀ i ∈ signedDataItems certs si, BerItem 14 i := by
  have hitems : signedDataItems certs si = [sglDer 0x02 [1], sglDer 0x31 sglDigestAlgSeq,
    indefinite 0x30 [sglDer 0x06 kOidData].flatten] ++
      [sglDer 0xa0 certs, sglDer 0x31 (sglDer 0x30 si)] := rfl
  intro i hi
  rw [hitems] at hi
  rcases List.mem_append.1 hi with hbefore | hafter
  · exact berItem_before i hbefore
  · simp only [List.mem_cons, List.not_mem_nil, or_false] at hafter
    rcases hafter with rfl | rfl
    · exact berItem_sglDer 13 (by decide) (by decide) hcerts
    · exact berItem_sglDer 13 (by decide) (by decide) hsi

theorem sglBerNext_of_writes {depth : ℕ} {tag : UInt8} {i c : List UInt8}
    (h : (ber (17 - depth)).Writes i ⟨tag, c⟩) (s : List UInt8) :
    sglBerNext depth tag (i ++ s) = some (c, s) := by
  rw [sglBerNext, sglBerTlv, h s]
  exact if_pos rfl

theorem sglBerNext_of_writes_nil {depth : ℕ} {tag : UInt8} {i c : List UInt8}
    (h : (ber (17 - depth)).Writes i ⟨tag, c⟩) : sglBerNext depth tag i = some (c, []) := by
  have hread := sglBerNext_of_writes h []
  rwa [List.append_nil] at hread

theorem readSignedData_contentInfo {certs si : List UInt8} (hcerts : Fits certs)
    (hsi : Fits (sglDer 0x30 si)) :
    readSignedData (contentInfo (signedDataItems certs si).flatten) = .ok (certs, si) := by
  have hitems := berItem_signedDataItems hcerts hsi
  have hsd : ∀ i ∈ [indefinite 0x30 (signedDataItems certs si).flatten], BerItem 15 i :=
    berItem_singleton (berItem_indefinite (by decide) (by decide) hitems)
  have hwrapper : ∀ i ∈ [sglDer 0x06 kOidSignedData,
      indefinite 0xa0 [indefinite 0x30 (signedDataItems certs si).flatten].flatten],
      BerItem 16 i := by
    intro i hi
    simp only [List.mem_cons, List.not_mem_nil, or_false] at hi
    rcases hi with rfl | rfl
    · exact berItem_signedData
    · exact berItem_indefinite (by decide) (by decide) hsd
  have hci : sglBerNext 0 0x30 (contentInfo (signedDataItems certs si).flatten) =
      some ([sglDer 0x06 kOidSignedData,
        indefinite 0xa0 [indefinite 0x30 (signedDataItems certs si).flatten].flatten].flatten, []) :=
    sglBerNext_of_writes_nil (ber_next_indefinite (by decide) (by decide) hwrapper)
  have hcontent : sglBerNext 1 0xa0
      (indefinite 0xa0 [indefinite 0x30 (signedDataItems certs si).flatten].flatten) =
      some ([indefinite 0x30 (signedDataItems certs si).flatten].flatten, []) :=
    sglBerNext_of_writes_nil (ber_next_indefinite (by decide) (by decide) hsd)
  have hsignedData : sglBerNext 2 0x30 (indefinite 0x30 (signedDataItems certs si).flatten) =
      some ((signedDataItems certs si).flatten, []) :=
    sglBerNext_of_writes_nil (ber_next_indefinite (by decide) (by decide) hitems)
  have hdigestAlg : sglDerNext 0x30 sglDigestAlgSeq =
      some (⟨⟨0x30, algContent kOidSHA256 true⟩, sglDigestAlgSeq⟩, []) :=
    sglDerNext_sglDer_nil (by decide) (fits_small (by decide))
  have heci : ∀ s, sglBerNext 3 0x30 (indefinite 0x30 [sglDer 0x06 kOidData].flatten ++ s) =
      some ([sglDer 0x06 kOidData].flatten, s) :=
    sglBerNext_of_writes (ber_next_indefinite (by decide) (by decide) berItem_data)
  have hcertificates : ∀ s, sglBerOptional 3 0xa0 (sglDer 0xa0 certs ++ s) = some (certs, s) := by
    intro s
    rw [sglBerOptional]
    exact (if_pos rfl).trans
      (sglBerNext_of_writes (ber_next_sglDer 13 (by decide) hcerts) s)
  have hcrls : ∀ c, sglBerOptional 3 0xa1 (sglDer 0x31 c) = some ([], sglDer 0x31 c) :=
    fun _ => if_neg (by rw [sglDer, List.head?_cons]; decide)
  have hsis : sglBerNext 3 0x31 (sglDer 0x31 (sglDer 0x30 si)) = some (sglDer 0x30 si, []) :=
    sglBerNext_of_writes_nil (ber_next_sglDer 13 (by decide) hsi)
  have hflatten : (signedDataItems certs si).flatten =
      sglDer 0x02 [1] ++ (sglDer 0x31 sglDigestAlgSeq ++
        (indefinite 0x30 [sglDer 0x06 kOidData].flatten ++
          (sglDer 0xa0 certs ++ sglDer 0x31 (sglDer 0x30 si)))) := by
    simp only [signedDataItems, List.flatten_cons, List.flatten_nil, List.append_nil]
  simp only [List.flatten_cons, List.flatten_nil, List.append_nil] at hci hcontent heci
  simp only [readSignedData, bind_ok, obtained_ok, need_ok, exists_const]
  refine ⟨_, hci, rfl, _, sglDerNext_sglDer (by decide) (fits_small (by decide)) _, rfl,
    _, hcontent, rfl, _, hsignedData, rfl, ?_⟩
  rw [hflatten]
  simp only [List.flatten_cons, List.flatten_nil, List.append_nil]
  exact ⟨_, sglDerNext_sglDer (by decide) (fits_small (by decide)) _,
    _, sglDerNext_sglDer (by decide) (fits_small (by decide)) _, _, heci _, rfl,
    _, hdigestAlg, rfl, _, sglAlgId_algContent (fits_small (by decide)) true, rfl,
    _, sglDerNext_sglDer_nil (by decide) (fits_small (by decide)), ⟨rfl, rfl⟩,
    _, hcertificates _, _, hcrls _, _, hsis, rfl,
    _, sglDerNext_sglDer_nil (by decide) hsi.content, rfl, rfl⟩

/-- An element of the SignedData that cannot be read makes everything unreadable. -/
theorem contentInfo_unreadable {items : List (List UInt8)} {tag : UInt8} {c l : List UInt8}
    (h : ∀ i ∈ items, BerItem 14 i) (htag : tag ≠ 0) (hc : ¬ Fits c) :
    sglBerNext 0 0x30 (contentInfo (items.flatten ++ (sglDer tag c ++ l))) = none := by
  have hnil : ∀ levels, ∀ i ∈ ([] : List (List UInt8)), BerItem levels i := nofun
  have hsd : ∀ s, (ber 15).next (0x30 :: 0x80 :: (items.flatten ++ (sglDer tag c ++ s))) = none :=
    fun s => ber_next_indefinite_of_none h (not_marker htag _) (ber_next_of_not_fits 14 tag hc s)
  have hcontent : ∀ s,
      (ber 16).next (0xa0 :: 0x80 :: 0x30 :: 0x80 :: (items.flatten ++ (sglDer tag c ++ s))) = none :=
    fun s => ber_next_indefinite_of_none (hnil 15) (not_marker (by decide) _) (hsd s)
  have hbytes : contentInfo (items.flatten ++ (sglDer tag c ++ l)) =
      0x30 :: 0x80 :: ([sglDer 0x06 kOidSignedData].flatten ++ (0xa0 :: 0x80 :: 0x30 :: 0x80 ::
        (items.flatten ++ (sglDer tag c ++ (l ++ ([0, 0] ++ ([0, 0] ++ [0, 0]))))))) := by
    simp only [contentInfo, indefinite, List.flatten_cons, List.flatten_nil, List.append_nil,
      List.append_assoc, List.cons_append]
  have hci : (ber 17).next (contentInfo (items.flatten ++ (sglDer tag c ++ l))) = none := by
    rw [hbytes]
    exact ber_next_indefinite_of_none (berItem_singleton berItem_signedData)
      (not_marker (by decide) _) (hcontent _)
  rw [sglBerNext, sglBerTlv, hci]

/-- The outer layers are unreadable where the certificates or the SignerInfo do not fit. -/
theorem readSignedData_of_not_fits {certs si : List UInt8}
    (h : ¬ (Fits certs ∧ Fits (sglDer 0x30 si))) :
    readSignedData (contentInfo (signedDataItems certs si).flatten) =
      .error "CMS: malformed ContentInfo" := by
  have hnone : sglBerNext 0 0x30 (contentInfo (signedDataItems certs si).flatten) = none := by
    by_cases hcerts : Fits certs
    · have hbefore : ∀ i ∈ [sglDer 0x02 [1], sglDer 0x31 sglDigestAlgSeq,
          indefinite 0x30 [sglDer 0x06 kOidData].flatten] ++ [sglDer 0xa0 certs], BerItem 14 i := by
        intro i hi
        rcases List.mem_append.1 hi with hbefore | hlast
        · exact berItem_before i hbefore
        · rw [List.mem_singleton.1 hlast]
          exact berItem_sglDer 13 (by decide) (by decide) hcerts
      have hbytes : (signedDataItems certs si).flatten = ([sglDer 0x02 [1],
          sglDer 0x31 sglDigestAlgSeq, indefinite 0x30 [sglDer 0x06 kOidData].flatten] ++
            [sglDer 0xa0 certs]).flatten ++ (sglDer 0x31 (sglDer 0x30 si) ++ []) := by
        simp only [signedDataItems, List.flatten_append, List.flatten_cons, List.flatten_nil,
          List.append_nil, List.append_assoc]
      rw [hbytes]
      exact contentInfo_unreadable hbefore (by decide) fun hsi => h ⟨hcerts, hsi⟩
    · have hbytes : (signedDataItems certs si).flatten = [sglDer 0x02 [1],
          sglDer 0x31 sglDigestAlgSeq, indefinite 0x30 [sglDer 0x06 kOidData].flatten].flatten ++
            (sglDer 0xa0 certs ++ sglDer 0x31 (sglDer 0x30 si)) := by
        simp only [signedDataItems, List.flatten_cons, List.flatten_nil, List.append_nil,
          List.append_assoc]
      rw [hbytes]
      exact contentInfo_unreadable berItem_before (by decide) hcerts
  rw [readSignedData, hnone]
  rfl

/-! ## The signed attributes -/

section

variable {Key : Type} {p : Platform Key} {cdHash oid value s : List UInt8} {st : AttributeState}

theorem attribute_writes (h : Fits (sglAttr oid value)) :
    (derOf 0x30).Writes (sglAttr oid value)
      ⟨⟨0x30, sglDer 0x06 oid ++ sglDer 0x31 value⟩, sglAttr oid value⟩ :=
  fun s => sglDerNext_sglDer (by decide) h.content s

theorem each_sglAttr (h : Fits (sglAttr oid value)) :
    (derOf 0x30).each "CMS: malformed signed attribute" (signedAttribute p cdHash)
        (sglAttr oid value ++ s) st =
      (match whichAttribute oid with
        | none => .ok st
        | some which => do
          need (which ∉ st.seen) "CMS: duplicate signed attribute"
          let ok ← checkAttribute p cdHash value which
          .ok ⟨which :: st.seen, if ok then st.failures else st.failures + 1⟩) >>=
        (derOf 0x30).each "CMS: malformed signed attribute" (signedAttribute p cdHash) s := by
  have hoid : sglDerNext 0x06 (sglDer 0x06 oid ++ sglDer 0x31 value) =
      some (⟨⟨0x06, oid⟩, sglDer 0x06 oid⟩, sglDer 0x31 value) :=
    sglDerNext_sglDer (by decide) h.content.left.content _
  have hvalue : sglDerNext 0x31 (sglDer 0x31 value) =
      some (⟨⟨0x31, value⟩, sglDer 0x31 value⟩, []) :=
    sglDerNext_sglDer_nil (by decide) h.content.right.content
  rw [Delimited.each_append (attribute_writes h), signedAttribute, hoid]
  change (obtained (sglDerNext 0x31 (sglDer 0x31 value)) _ >>= _) >>= _ = _
  rw [hvalue]
  rfl

/-- An attribute that is not bound to the code is passed over. -/
theorem each_unbound (h : Fits (sglAttr oid value)) (hwhich : whichAttribute oid = none) :
    (derOf 0x30).each "CMS: malformed signed attribute" (signedAttribute p cdHash)
        (sglAttr oid value ++ s) st =
      (derOf 0x30).each "CMS: malformed signed attribute" (signedAttribute p cdHash) s st := by
  rw [each_sglAttr h, hwhich]
  rfl

theorem each_bound {which : BoundAttribute} (h : Fits (sglAttr oid value))
    (hwhich : whichAttribute oid = some which) (hnew : which ∉ st.seen)
    (hcheck : checkAttribute p cdHash value which = .ok true) :
    (derOf 0x30).each "CMS: malformed signed attribute" (signedAttribute p cdHash)
        (sglAttr oid value ++ s) st =
      (derOf 0x30).each "CMS: malformed signed attribute" (signedAttribute p cdHash) s
        ⟨which :: st.seen, st.failures⟩ := by
  rw [each_sglAttr h, hwhich]
  dsimp only
  rw [need, if_pos hnew, hcheck]
  rfl

theorem checkAttribute_contentType (h : Fits (sglDer 0x06 kOidData)) :
    checkAttribute p cdHash (sglDer 0x06 kOidData) .contentType = .ok true := by
  simp only [checkAttribute, bind_ok, obtained_ok, need_ok, exists_const]
  exact ⟨_, sglDerNext_sglDer_nil (by decide) h.content, ⟨rfl, rfl⟩, trivial⟩

theorem checkAttribute_messageDigest (h : Fits (sglDer 0x04 cdHash)) :
    checkAttribute p cdHash (sglDer 0x04 cdHash) .messageDigest = .ok true := by
  simp only [checkAttribute, bind_ok, obtained_ok, need_ok, exists_const]
  exact ⟨_, sglDerNext_sglDer_nil (by decide) h.content, rfl,
    congrArg Except.ok (beq_self_eq_true cdHash)⟩

theorem agilityEntry_sglDer (h : Fits (sglDer 0x06 kOidSHA256 ++ sglDer 0x04 cdHash)) :
    agilityEntry cdHash (0, true) ⟨⟨0x30, sglDer 0x06 kOidSHA256 ++ sglDer 0x04 cdHash⟩, s⟩ =
      .ok (1, true) := by
  simp only [agilityEntry, bind_ok, obtained_ok, need_ok, exists_const]
  refine ⟨_, sglDerNext_sglDer (by decide) h.left.content _,
    _, sglDerNext_sglDer_nil (by decide) h.right.content, rfl, ?_⟩
  rw [if_pos rfl, beq_self_eq_true]
  rfl

theorem checkAttribute_agilityV2
    (h : Fits (sglDer 0x30 (sglDer 0x06 kOidSHA256 ++ sglDer 0x04 cdHash))) :
    checkAttribute p cdHash (sglDer 0x30 (sglDer 0x06 kOidSHA256 ++ sglDer 0x04 cdHash))
      .agilityV2 = .ok true := by
  have hwrites : (derOf 0x30).Writes (sglDer 0x30 (sglDer 0x06 kOidSHA256 ++ sglDer 0x04 cdHash))
      ⟨⟨0x30, sglDer 0x06 kOidSHA256 ++ sglDer 0x04 cdHash⟩, _⟩ :=
    fun s => sglDerNext_sglDer (by decide) h.content s
  have hloop : (derOf 0x30).each "CMS: malformed hash-agility-v2 attribute" (agilityEntry cdHash)
      (sglDer 0x30 (sglDer 0x06 kOidSHA256 ++ sglDer 0x04 cdHash) ++ []) (0, true) = _ :=
    Delimited.each_append hwrites [] (0, true)
  rw [agilityEntry_sglDer h.content, List.append_nil] at hloop
  rw [checkAttribute, hloop]
  rfl

theorem checkAttribute_agilityV1 (h : Fits (sglDer 0x04 (sglCdhashPlist (cdHash.take 20))))
    (hplist : p.propertyListWithData (sglCdhashPlist (cdHash.take 20)) =
      some (.dictionary [("cdhashes", .array [.data (cdHash.take 20)])])) :
    checkAttribute p cdHash (sglDer 0x04 (sglCdhashPlist (cdHash.take 20))) .agilityV1 =
      .ok true := by
  simp only [checkAttribute, bind_ok, obtained_ok, need_ok, exists_const]
  refine ⟨_, sglDerNext_sglDer_nil (by decide) h.content, rfl, ?_⟩
  dsimp only
  rw [hplist]
  exact congrArg Except.ok (beq_self_eq_true (cdHash.take 20))

/-- All signed attributes that the writer writes are right. -/
theorem checkAttributes_signedAttrs {signingTime : String}
    (h : Fits (sglSignedAttrsContent cdHash signingTime))
    (hplist : p.propertyListWithData (sglCdhashPlist (cdHash.take 20)) =
      some (.dictionary [("cdhashes", .array [.data (cdHash.take 20)])])) :
    checkAttributes p cdHash (sglSignedAttrsContent cdHash signingTime) = .ok 0 := by
  have hcontent : sglSignedAttrsContent cdHash signingTime =
      sglAttr kOidContentType (sglDer 0x06 kOidData) ++
        (sglAttr kOidSigningTime (sglDer 0x17 (asciiData signingTime)) ++
          (sglAttr kOidMessageDigest (sglDer 0x04 cdHash) ++
            (sglAttr kOidAppleHashAgilityV2
                (sglDer 0x30 (sglDer 0x06 kOidSHA256 ++ sglDer 0x04 cdHash)) ++
              (sglAttr kOidAppleHashAgilityV1
                (sglDer 0x04 (sglCdhashPlist (cdHash.take 20))) ++ [])))) := by
    simp only [sglSignedAttrsContent, signedAttrs, List.flatten_cons, List.flatten_nil]
  rw [hcontent] at h ⊢
  have htype := h.left
  have htime := h.right.left
  have hdigest := h.right.right.left
  have hv2 := h.right.right.right.left
  have hv1 := h.right.right.right.right.left
  rw [checkAttributes,
    each_bound htype rfl List.not_mem_nil (checkAttribute_contentType htype.content.right.content),
    each_unbound htime rfl,
    each_bound hdigest rfl (by decide) (checkAttribute_messageDigest hdigest.content.right.content),
    each_bound hv2 rfl (by decide) (checkAttribute_agilityV2 hv2.content.right.content),
    each_bound hv1 rfl (by decide) (checkAttribute_agilityV1 hv1.content.right.content hplist),
    Delimited.each_nil]
  rfl

end

end Signing

end Tolkara
