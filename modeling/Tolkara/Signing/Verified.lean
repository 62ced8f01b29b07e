import Tolkara.Signing.Written

/-!
# A written CMS signature verifies

The certificates are read one after another, and the one that the SignerInfo names is found.
With the lemmas about the other parts, what `sgl_build_cms` assembles passes `sgl_verify_cms`
without a failure exactly when the certificates and the SignerInfo are below 2^32 bytes.
-/

namespace Tolkara

namespace Signing

open Library

/-! ## The certificates -/

section

variable {Key : Type} (p : Platform Key) (issuerTLV serialTLV : List UInt8)

/-- Whether a certificate has this issuer and this serial number. -/
def isNamed (der : List UInt8) : Bool :=
  match sglParseCertificate p.initWithBytes der with
  | .ok info => info.issuerTLV == issuerTLV && info.serialTLV == serialTLV
  | .error _ => false

/-- One turn of the loop over the certificates, of which only the bytes matter. -/
def certificateTurn (s : CertificateState) (der : List UInt8) : Except String CertificateState :=
  signerCertificate p issuerTLV serialTLV s ⟨⟨0x30, []⟩, der⟩

variable {p issuerTLV serialTLV} {certs : List (List UInt8)} {der signer : List UInt8}
  {info : CertInfo}

theorem isNamed_iff (hparse : sglParseCertificate p.initWithBytes der = .ok info) :
    isNamed p issuerTLV serialTLV der = true ↔
      info.issuerTLV = issuerTLV ∧ info.serialTLV = serialTLV := by
  rw [isNamed, hparse]
  dsimp only
  rw [Bool.and_eq_true, beq_iff_eq, beq_iff_eq]

theorem certificateTurn_of_named {n : ℕ}
    (hparse : sglParseCertificate p.initWithBytes der = .ok info)
    (h : isNamed p issuerTLV serialTLV der = true) :
    certificateTurn p issuerTLV serialTLV ⟨none, n⟩ der = .ok ⟨some (der, info), n + 1⟩ := by
  obtain ⟨hissuer, hserial⟩ := (isNamed_iff hparse).1 h
  have hsame : ¬ (info.issuerTLV ≠ issuerTLV ∨ info.serialTLV ≠ serialTLV) := by
    rintro (hne | hne)
    · exact hne hissuer
    · exact hne hserial
  rw [certificateTurn, signerCertificate, hparse]
  change (if info.issuerTLV ≠ issuerTLV ∨ info.serialTLV ≠ serialTLV then _ else _) = _
  rw [if_neg hsame]
  rfl

theorem certificateTurn_of_not_named {s : CertificateState}
    (hparse : sglParseCertificate p.initWithBytes der = .ok info)
    (h : isNamed p issuerTLV serialTLV der = false) :
    certificateTurn p issuerTLV serialTLV s der = .ok { s with ncerts := s.ncerts + 1 } := by
  have hother : info.issuerTLV ≠ issuerTLV ∨ info.serialTLV ≠ serialTLV := by
    by_contra hsame
    rw [not_or, not_not, not_not] at hsame
    rw [(isNamed_iff hparse).2 hsame] at h
    cases h
  rw [certificateTurn, signerCertificate, hparse]
  exact if_pos hother

theorem turns_of_not_named
    (hparse : ∀ c ∈ certs, ∃ info, sglParseCertificate p.initWithBytes c = .ok info)
    (h : certs.filter (isNamed p issuerTLV serialTLV) = []) (s : CertificateState) :
    certs.foldlM (certificateTurn p issuerTLV serialTLV) s =
      .ok { s with ncerts := s.ncerts + certs.length } := by
  induction certs generalizing s with
  | nil => rfl
  | cons c certs ih =>
      obtain ⟨info, hinfo⟩ := hparse c List.mem_cons_self
      cases hnamed : isNamed p issuerTLV serialTLV c with
      | true =>
          rw [List.filter_cons_of_pos hnamed] at h
          cases h
      | false =>
          rw [List.filter_cons_of_neg (by rw [hnamed]; exact Bool.false_ne_true)] at h
          rw [List.foldlM_cons, certificateTurn_of_not_named hinfo hnamed]
          change certs.foldlM _ _ = _
          rw [ih (fun d hd => hparse d (List.mem_cons_of_mem _ hd)) h, List.length_cons]
          dsimp only
          rw [Nat.add_assoc, Nat.add_comm 1]

/-- The only certificate with the issuer and the serial number is found, wherever it stands. -/
theorem turns_of_named
    (hparse : ∀ c ∈ certs, ∃ info, sglParseCertificate p.initWithBytes c = .ok info)
    (h : certs.filter (isNamed p issuerTLV serialTLV) = [signer])
    (hsigner : sglParseCertificate p.initWithBytes signer = .ok info) (n : ℕ) :
    certs.foldlM (certificateTurn p issuerTLV serialTLV) ⟨none, n⟩ =
      .ok ⟨some (signer, info), n + certs.length⟩ := by
  induction certs generalizing n with
  | nil => cases h
  | cons c certs ih =>
      have hrest := fun d hd => hparse d (List.mem_cons_of_mem c hd)
      cases hnamed : isNamed p issuerTLV serialTLV c with
      | true =>
          rw [List.filter_cons_of_pos hnamed] at h
          obtain ⟨rfl, hnone⟩ := List.cons.inj h
          rw [List.foldlM_cons, certificateTurn_of_named hsigner hnamed]
          change certs.foldlM _ _ = _
          rw [turns_of_not_named hrest hnone, List.length_cons]
          dsimp only
          rw [Nat.add_assoc, Nat.add_comm 1]
      | false =>
          obtain ⟨other, hother⟩ := hparse c List.mem_cons_self
          rw [List.filter_cons_of_neg (by rw [hnamed]; exact Bool.false_ne_true)] at h
          rw [List.foldlM_cons, certificateTurn_of_not_named hother hnamed]
          change certs.foldlM _ _ = _
          rw [ih hrest h, List.length_cons, Nat.add_assoc, Nat.add_comm 1]

theorem findSigner_flatten
    (hparse : ∀ c ∈ certs, ∃ info, sglParseCertificate p.initWithBytes c = .ok info)
    (h : certs.filter (isNamed p issuerTLV serialTLV) = [signer])
    (hsigner : sglParseCertificate p.initWithBytes signer = .ok info) :
    findSigner p certs.flatten issuerTLV serialTLV = .ok (signer, info) := by
  have hitems : ∀ c ∈ certs, ∃ t, (derOf 0x30).Writes c t ∧
      ∀ s, signerCertificate p issuerTLV serialTLV s t =
        certificateTurn p issuerTLV serialTLV s c := by
    intro c hc
    obtain ⟨other, hother⟩ := hparse c hc
    obtain ⟨⟨t, -, rfl, hwrites⟩, -⟩ := sglParseCertificate_ok hother
    exact ⟨t, hwrites, fun _ => rfl⟩
  rw [findSigner, Delimited.each_flatten hitems, turns_of_named hparse h hsigner]
  rfl

end

/-! ## The whole -/

def keyAlgorithm (rsaKey : Bool) : SecKeyAlgorithm :=
  if rsaKey then .rsaSignatureMessagePKCS1v15SHA256 else .ecdsaSignatureMessageX962SHA256

theorem signatureAlgorithm_signatureOid (rsaKey : Bool) :
    signatureAlgorithm (signatureOid rsaKey) = some (keyAlgorithm rsaKey) := by
  cases rsaKey with
  | false => rfl
  | true => rfl

/-- What a signature is made over: the signed attributes of the CodeDirectory as a SET OF. -/
def signedMessage {Key : Type} (p : Platform Key) (cdBlob : List UInt8) (signingTime : String) :
    List UInt8 :=
  sglDer 0x31 (sglSignedAttrsContent (p.sglSha256 cdBlob) signingTime)

/-- A signer: certificates of which one is named, and a signature of the CodeDirectory that
verifies with its key. The property list of the hash is read as it is written. -/
structure Signs {Key : Type} (p : Platform Key) (certs : List (List UInt8))
    (issuerTLV serialTLV cdBlob : List UInt8) (cdTeam : Option String) (signingTime : String)
    (sig : List UInt8) (rsaKey : Bool) : Prop where
  certificates : ∀ c ∈ certs, ∃ info, sglParseCertificate p.initWithBytes c = .ok info
  signer : ∃ signer info, certs.filter (isNamed p issuerTLV serialTLV) = [signer] ∧
    sglParseCertificate p.initWithBytes signer = .ok info ∧
    (∀ team, cdTeam = some team → info.subjectOU = some team) ∧
    p.verifies signer (keyAlgorithm rsaKey) (signedMessage p cdBlob signingTime) sig = true
  not_zero : sglAllZero sig = false
  plist : p.propertyListWithData (sglCdhashPlist ((p.sglSha256 cdBlob).take 20)) =
    some (.dictionary [("cdhashes", .array [.data ((p.sglSha256 cdBlob).take 20)])])

section

variable {Key : Type} {p : Platform Key} {header : Fin 8 → UInt8} {certs : List (List UInt8)}
  {issuerTLV serialTLV cdBlob : List UInt8} {cdTeam : Option String} {signingTime : String}
  {sig : List UInt8} {rsaKey : Bool}

theorem verify_of_fits
    (h : Signs p certs issuerTLV serialTLV cdBlob cdTeam signingTime sig rsaKey)
    (hcerts : Fits certs.flatten)
    (hsi : Fits (sglDer 0x30 (signerInfo issuerTLV serialTLV
      (sglSignedAttrsContent (p.sglSha256 cdBlob) signingTime) sig rsaKey))) :
    sglVerifyCMS p (List.ofFn header ++ sglBuildCMS certs issuerTLV serialTLV
      (sglSignedAttrsContent (p.sglSha256 cdBlob) signingTime) sig rsaKey) cdBlob cdTeam =
      .ok 0 := by
  obtain ⟨signer, info, hnamed, hinfo, hteam, hverifies⟩ := h.signer
  have hfound : isNamed p issuerTLV serialTLV signer = true := by
    have hmem : signer ∈ certs.filter (isNamed p issuerTLV serialTLV) := by
      rw [hnamed]
      exact List.mem_singleton_self signer
    exact (List.mem_filter.1 hmem).2
  obtain ⟨hissuer, hserial⟩ := (isNamed_iff hinfo).1 hfound
  obtain ⟨-, hserialElement, hissuerElement⟩ := sglParseCertificate_ok hinfo
  rw [hissuer] at hissuerElement
  rw [hserial] at hserialElement
  have hbacked : ¬ (cdTeam.isSome ∧ cdTeam ≠ info.subjectOU) := by
    rintro ⟨hsome, hne⟩
    obtain ⟨team, hteamName⟩ := Option.isSome_iff_exists.1 hsome
    exact hne (hteamName.trans (hteam team hteamName).symm)
  have hattrs := checkAttributes_signedAttrs (signerInfoFits hsi.content).attrs h.plist
  have hread := readSignerInfo_signerInfo hissuerElement hserialElement hsi.content
  have hsigner := findSigner_flatten h.certificates hnamed hinfo
  rw [sglVerifyCMS, List.drop_left' List.length_ofFn, sglBuildCMS_eq,
    readSignedData_contentInfo hcerts hsi]
  simp only [bind_ok, obtained_ok]
  refine ⟨_, rfl, _, hread, _, hattrs, _, hsigner, _, signatureAlgorithm_signatureOid rsaKey, ?_⟩
  dsimp only
  rw [h.not_zero, if_neg Bool.false_ne_true, if_neg hbacked]
  rw [signedMessage] at hverifies
  rw [hverifies, if_pos rfl]

theorem verify_of_not_fits
    (h : ¬ (Fits certs.flatten ∧ Fits (sglDer 0x30 (signerInfo issuerTLV serialTLV
      (sglSignedAttrsContent (p.sglSha256 cdBlob) signingTime) sig rsaKey)))) :
    sglVerifyCMS p (List.ofFn header ++ sglBuildCMS certs issuerTLV serialTLV
      (sglSignedAttrsContent (p.sglSha256 cdBlob) signingTime) sig rsaKey) cdBlob cdTeam =
      .error "CMS: malformed ContentInfo" := by
  rw [sglVerifyCMS, List.drop_left' List.length_ofFn, sglBuildCMS_eq, readSignedData_of_not_fits h]
  rfl

/-- The CMS signature that is written verifies exactly when the certificates one after another
and the SignerInfo are shorter than 2^32 bytes; otherwise its ContentInfo is malformed. -/
theorem written_verified
    (h : Signs p certs issuerTLV serialTLV cdBlob cdTeam signingTime sig rsaKey) :
    (sglVerifyCMS p (List.ofFn header ++ sglBuildCMS certs issuerTLV serialTLV
      (sglSignedAttrsContent (p.sglSha256 cdBlob) signingTime) sig rsaKey) cdBlob cdTeam = .ok 0 ↔
      Fits certs.flatten ∧ Fits (sglDer 0x30 (signerInfo issuerTLV serialTLV
        (sglSignedAttrsContent (p.sglSha256 cdBlob) signingTime) sig rsaKey))) ∧
    (¬ (Fits certs.flatten ∧ Fits (sglDer 0x30 (signerInfo issuerTLV serialTLV
        (sglSignedAttrsContent (p.sglSha256 cdBlob) signingTime) sig rsaKey))) →
      sglVerifyCMS p (List.ofFn header ++ sglBuildCMS certs issuerTLV serialTLV
        (sglSignedAttrsContent (p.sglSha256 cdBlob) signingTime) sig rsaKey) cdBlob cdTeam =
        .error "CMS: malformed ContentInfo") := by
  refine ⟨⟨fun hok => ?_, ?_⟩, verify_of_not_fits⟩
  · by_contra hfits
    rw [verify_of_not_fits hfits] at hok
    cases hok
  · rintro ⟨hcerts, hsi⟩
    exact verify_of_fits h hcerts hsi

end

/-! ## A small certificate -/

/-- A certificate with the common name A and nothing that is not needed. -/
def smallCertificate : List UInt8 :=
  [0x30, 0x41,
    -- serial number, algorithm and issuer
    0x30, 0x37, 0x02, 0x01, 0x01, 0x30, 0x00, 0x30, 0x00,
    -- 1 January 2026 until 1 January 2027
    0x30, 0x1e, 0x17, 0x0d] ++ ascii "260101000000Z" ++ [0x17, 0x0d] ++ ascii "270101000000Z" ++
  [0x30, 0x0c, 0x31, 0x0a, 0x30, 0x08, 0x06, 0x03, 0x55, 0x04, 0x03, 0x0c, 0x01, 0x41,
    0x30, 0x00,
    0x30, 0x03, 0x06, 0x01, 0x2a, 0x03, 0x01, 0x00]

def emptyHash : Vector UInt8 32 :=
  #v[0xe3, 0xb0, 0xc4, 0x42, 0x98, 0xfc, 0x1c, 0x14, 0x9a, 0xfb, 0xf4, 0xc8, 0x99, 0x6f, 0xb9, 0x24,
    0x27, 0xae, 0x41, 0xe4, 0x64, 0x9b, 0x93, 0x4c, 0xa4, 0x95, 0x99, 0x1b, 0x78, 0x52, 0xb8, 0x55]

/-- A platform for which every signature that begins with 1 verifies. It knows one hash, and the
property list with it. -/
def smallPlatform : Platform Unit where
  ccSHA256 _ := emptyHash
  initWithBytes _ bytes := some (String.ofList (bytes.map fun b => Char.ofNat b.toNat))
  propertyListWithData bytes :=
    if bytes = sglCdhashPlist (emptyHash.toList.take 20) then
      some (.dictionary [("cdhashes", .array [.data (emptyHash.toList.take 20)])])
    else none
  copyKey _ := some ()
  isAlgorithmSupported _ _ := true
  verifySignature _ _ _ sig := sig.head? == some 1

def smallInfo : CertInfo where
  tbsTLV := smallCertificate.take 59 |>.drop 2
  serialTLV := [0x02, 0x01, 0x01]
  issuerTLV := [0x30, 0x00]
  subjectTLV := [0x30, 0x0c, 0x31, 0x0a, 0x30, 0x08, 0x06, 0x03, 0x55, 0x04, 0x03, 0x0c, 0x01, 0x41]
  subjectCN := "A"
  subjectOU := none
  notBefore := ⟨2026, 1, 1, 0, 0, 0⟩
  notAfter := ⟨2027, 1, 1, 0, 0, 0⟩
  sigAlgOID := [0x2a]
  signature := []
  selfSigned := false
  codeSigning := false

theorem smallCertificate_ok :
    sglParseCertificate smallPlatform.initWithBytes smallCertificate = .ok smallInfo := by
  rfl

theorem smallPlatform_signs {sig : List UInt8} (hsig : sig.head? = some 1) (rsaKey : Bool) :
    Signs smallPlatform [smallCertificate] [0x30, 0x00] [0x02, 0x01, 0x01] [] none "260601000000Z"
      sig rsaKey where
  certificates c hc := by
    rw [List.mem_singleton.1 hc]
    exact ⟨smallInfo, smallCertificate_ok⟩
  signer := by
    have hnamed : isNamed smallPlatform [0x30, 0x00] [0x02, 0x01, 0x01] smallCertificate = true :=
      (isNamed_iff smallCertificate_ok).2 ⟨rfl, rfl⟩
    refine ⟨smallCertificate, smallInfo, ?_, smallCertificate_ok, nofun, ?_⟩
    · rw [List.filter_cons_of_pos hnamed, List.filter_nil]
    · change (true && sig.head? == some 1) = true
      rw [hsig]
      rfl
  not_zero := by
    obtain ⟨l, rfl⟩ := List.head?_eq_some_iff.1 hsig
    rfl
  plist := by
    have hhash : smallPlatform.sglSha256 [] = emptyHash.toList := rfl
    have hread : ∀ bytes, smallPlatform.propertyListWithData bytes =
        if bytes = sglCdhashPlist (emptyHash.toList.take 20) then
          some (.dictionary [("cdhashes", .array [.data (emptyHash.toList.take 20)])])
        else none := fun _ => rfl
    rw [hhash, hread, if_pos rfl]

theorem written_verified_small :
    sglVerifyCMS smallPlatform (List.ofFn (![0xfa, 0xde, 0x0b, 0x01, 0, 0, 0, 0] : Fin 8 → UInt8) ++
      sglBuildCMS [smallCertificate] [0x30, 0x00] [0x02, 0x01, 0x01]
        (sglSignedAttrsContent (smallPlatform.sglSha256 []) "260601000000Z") [1] true) [] none =
      .ok 0 :=
  (written_verified (smallPlatform_signs rfl true)).1.2
    ⟨by unfold Fits; decide +kernel, by unfold Fits; decide +kernel⟩

theorem longSignature_not_fits {issuerTLV serialTLV attrs sig : List UInt8} {rsaKey : Bool}
    (h : sig.length = 2 ^ 32 - 1) :
    ¬ Fits (sglDer 0x30 (signerInfo issuerTLV serialTLV attrs sig rsaKey)) := by
  intro hfits
  have hinner := hfits.content
  rw [signerInfo_eq] at hinner
  have hsig : Fits (sglDer 0x04 sig) := hinner.right.right.right.right.right
  have hlonger := length_lt_length_sglDer 0x04 sig
  unfold Fits at hsig
  omega

/-- Certificates and signatures below 2^32 bytes are not enough. -/
theorem not_verified_below :
    ¬ ∀ (Key : Type) (p : Platform Key) (header : Fin 8 → UInt8) (certs : List (List UInt8))
      (issuerTLV serialTLV cdBlob : List UInt8) (cdTeam : Option String) (signingTime : String)
      (sig : List UInt8) (rsaKey : Bool),
      Signs p certs issuerTLV serialTLV cdBlob cdTeam signingTime sig rsaKey →
      (∀ c ∈ certs, c.length < 2 ^ 32) → sig.length < 2 ^ 32 →
      sglVerifyCMS p (List.ofFn header ++ sglBuildCMS certs issuerTLV serialTLV
        (sglSignedAttrsContent (p.sglSha256 cdBlob) signingTime) sig rsaKey) cdBlob cdTeam =
        .ok 0 := by
  intro hall
  have hlength : (List.replicate (2 ^ 32 - 1) (1 : UInt8)).length = 2 ^ 32 - 1 :=
    List.length_replicate
  have hhead : (List.replicate (2 ^ 32 - 1) (1 : UInt8)).head? = some 1 := by
    rw [List.head?_replicate, if_neg (by norm_num)]
  have hshort : ∀ c ∈ [smallCertificate], c.length < 2 ^ 32 := by
    intro c hc
    rw [List.mem_singleton.1 hc]
    decide
  have hok := hall Unit smallPlatform (fun _ => 0) [smallCertificate] [0x30, 0x00]
    [0x02, 0x01, 0x01] [] none "260601000000Z" _ true (smallPlatform_signs hhead true) hshort
    (by rw [hlength]; norm_num)
  rw [verify_of_not_fits fun hfits => longSignature_not_fits hlength hfits.2] at hok
  cases hok

end Signing

end Tolkara
