import Tolkara.Memory.Basic
import Tolkara.Signing.Certificate

/-!
# The CMS signature

`sgl_build_cms` and `sgl_verify_cms` of `tools/sign_guest_local.m`. The writer puts elements
of definite length into outer layers of indefinite length, and the verifier takes them apart
again, checks them against the CodeDirectory and counts what fails. SHA-256, property lists,
strings, keys and signatures belong to the platform. What the verifier prints is left out.
-/

namespace Tolkara

namespace Signing

open Library

/-! ## The platform -/

/-- What a property list holds, as far as the verifier looks at it. -/
inductive PropertyList
  | data (bytes : List UInt8)
  | array (items : List PropertyList)
  | dictionary (entries : List (String × PropertyList))
  | other

inductive SecKeyAlgorithm
  | rsaSignatureMessagePKCS1v15SHA256
  | ecdsaSignatureMessageX962SHA256

/-- What is taken from the frameworks. `copyKey` is the key of a certificate. -/
structure Platform (Key : Type) where
  ccSHA256 : List UInt8 → Vector UInt8 32
  initWithBytes : StringEncoding → List UInt8 → Option String
  propertyListWithData : List UInt8 → Option PropertyList
  copyKey : List UInt8 → Option Key
  isAlgorithmSupported : Key → SecKeyAlgorithm → Bool
  verifySignature : Key → SecKeyAlgorithm → List UInt8 → List UInt8 → Bool

/-- `sgl_sha256`. The length is cut to 32 bits. -/
def Platform.sglSha256 {Key : Type} (p : Platform Key) (data : List UInt8) : List UInt8 :=
  (p.ccSHA256 (data.take (data.length % 2 ^ 32))).toList

/-- Whether a signature verifies with the key of a certificate. -/
def Platform.verifies {Key : Type} (p : Platform Key) (der : List UInt8) (alg : SecKeyAlgorithm)
    (message sig : List UInt8) : Bool :=
  match p.copyKey der with
  | none => false
  | some key => p.isAlgorithmSupported key alg && p.verifySignature key alg message sig

/-! ## Writing -/

def kOidSignedData : List UInt8 := [0x2a, 0x86, 0x48, 0x86, 0xf7, 0x0d, 0x01, 0x07, 0x02]

def kOidData : List UInt8 := [0x2a, 0x86, 0x48, 0x86, 0xf7, 0x0d, 0x01, 0x07, 0x01]

def kOidSHA256 : List UInt8 := [0x60, 0x86, 0x48, 0x01, 0x65, 0x03, 0x04, 0x02, 0x01]

def kOidRSA : List UInt8 := [0x2a, 0x86, 0x48, 0x86, 0xf7, 0x0d, 0x01, 0x01, 0x01]

def kOidSHA256RSA : List UInt8 := [0x2a, 0x86, 0x48, 0x86, 0xf7, 0x0d, 0x01, 0x01, 0x0b]

def kOidSHA256ECDSA : List UInt8 := [0x2a, 0x86, 0x48, 0xce, 0x3d, 0x04, 0x03, 0x02]

def kOidContentType : List UInt8 := [0x2a, 0x86, 0x48, 0x86, 0xf7, 0x0d, 0x01, 0x09, 0x03]

def kOidSigningTime : List UInt8 := [0x2a, 0x86, 0x48, 0x86, 0xf7, 0x0d, 0x01, 0x09, 0x05]

def kOidMessageDigest : List UInt8 := [0x2a, 0x86, 0x48, 0x86, 0xf7, 0x0d, 0x01, 0x09, 0x04]

def kOidAppleHashAgilityV1 : List UInt8 := [0x2a, 0x86, 0x48, 0x86, 0xf7, 0x63, 0x64, 0x09, 0x01]

def kOidAppleHashAgilityV2 : List UInt8 := [0x2a, 0x86, 0x48, 0x86, 0xf7, 0x63, 0x64, 0x09, 0x02]

/-- `dataUsingEncoding` for ASCII. A text with other characters has no data, which counts as
none at all. -/
def asciiData (s : String) : List UInt8 :=
  if s.toList.all (fun c => c.toNat < 128) then ascii s else []

def base64Digit (v : ℕ) : UInt8 :=
  if v < 26 then UInt8.ofNat (65 + v)
  else if v < 52 then UInt8.ofNat (71 + v)
  else if v < 62 then UInt8.ofNat (v - 4)
  else if v = 62 then 43
  else 47

def base64 : List UInt8 → List UInt8
  | [] => []
  | [a] =>
    let v := a.toNat * 16
    [base64Digit (v / 64), base64Digit (v % 64), 61, 61]
  | [a, b] =>
    let v := (a.toNat * 256 + b.toNat) * 4
    [base64Digit (v / 4096), base64Digit (v / 64 % 64), base64Digit (v % 64), 61]
  | a :: b :: c :: rest =>
    let v := (a.toNat * 256 + b.toNat) * 256 + c.toNat
    base64Digit (v / 262144) :: base64Digit (v / 4096 % 64) :: base64Digit (v / 64 % 64) ::
      base64Digit (v % 64) :: base64 rest

def sglDigestAlgSeq : List UInt8 := sglAlgSeq kOidSHA256 true

def sglAttr (oid valueTlv : List UInt8) : List UInt8 :=
  sglDer 0x30 (sglDer 0x06 oid ++ sglDer 0x31 valueTlv)

def sglCdhashPlist (cdHash20 : List UInt8) : List UInt8 :=
  ascii "<?xml version=\"1.0\" encoding=\"UTF-8\"?>\n" ++
  ascii "<!DOCTYPE plist PUBLIC \"-//Apple//DTD PLIST 1.0//EN\" " ++
  ascii "\"http://www.apple.com/DTDs/PropertyList-1.0.dtd\">\n" ++
  ascii "<plist version=\"1.0\">\n<dict>\n\t<key>cdhashes</key>\n\t<array>\n\t\t<data>\n\t\t" ++
  base64 cdHash20 ++
  ascii "\n\t\t</data>\n\t</array>\n</dict>\n</plist>\n"

def signedAttrs (cdHash32 : List UInt8) (signingTime : String) : List (List UInt8) :=
  [sglAttr kOidContentType (sglDer 0x06 kOidData),
    sglAttr kOidSigningTime (sglDer 0x17 (asciiData signingTime)),
    sglAttr kOidMessageDigest (sglDer 0x04 cdHash32),
    sglAttr kOidAppleHashAgilityV2
      (sglDer 0x30 (sglDer 0x06 kOidSHA256 ++ sglDer 0x04 cdHash32)),
    sglAttr kOidAppleHashAgilityV1 (sglDer 0x04 (sglCdhashPlist (cdHash32.take 20)))]

def sglSignedAttrsContent (cdHash32 : List UInt8) (signingTime : String) : List UInt8 :=
  (signedAttrs cdHash32 signingTime).flatten

/-- The version 1 of the SignedData and of the SignerInfo. -/
def version : List UInt8 := [0x02, 0x01, 0x01]

def signerInfo (issuerTLV serialTLV attrsContent signature : List UInt8) (rsaKey : Bool) :
    List UInt8 :=
  version ++ sglDer 0x30 (issuerTLV ++ serialTLV) ++ sglDigestAlgSeq ++ sglDer 0xa0 attrsContent ++
    (if rsaKey then sglAlgSeq kOidSHA256RSA true else sglAlgSeq kOidSHA256ECDSA false) ++
    sglDer 0x04 signature

def sglBuildCMS (certDERs : List (List UInt8))
    (issuerTLV serialTLV attrsContent signature : List UInt8) (rsaKey : Bool) : List UInt8 :=
  [0x30, 0x80] ++ sglDer 0x06 kOidSignedData ++ [0xa0, 0x80] ++ [0x30, 0x80] ++ version ++
    sglDer 0x31 sglDigestAlgSeq ++ [0x30, 0x80] ++ sglDer 0x06 kOidData ++ [0, 0] ++
    sglDer 0xa0 certDERs.flatten ++
    sglDer 0x31 (sglDer 0x30 (signerInfo issuerTLV serialTLV attrsContent signature rsaKey)) ++
    [0, 0] ++ [0, 0] ++ [0, 0]

/-! ## Reading -/

def sglBerOptional (depth : ℕ) (want : UInt8) (l : List UInt8) :
    Option (List UInt8 × List UInt8) :=
  if l.head? = some want then sglBerNext depth want l else some ([], l)

/-- The outer layers: the certificates and the content of the only SignerInfo. -/
def readSignedData (cms : List UInt8) : Except String (List UInt8 × List UInt8) := do
  let (ci, rest) ← obtained (sglBerNext 0 0x30 cms) "CMS: malformed ContentInfo"
  need (rest = []) "CMS: malformed ContentInfo"
  let (x, ci) ← obtained (sglDerNext 0x06 ci) "CMS: not a SignedData"
  need (x.content = kOidSignedData) "CMS: not a SignedData"
  let (x, ci) ← obtained (sglBerNext 1 0xa0 ci) "CMS: malformed SignedData wrapper"
  need (ci = []) "CMS: malformed SignedData wrapper"
  let (sd, x) ← obtained (sglBerNext 2 0x30 x) "CMS: malformed SignedData wrapper"
  need (x = []) "CMS: malformed SignedData wrapper"
  let (ver, sd) ← obtained (sglDerNext 0x02 sd) "CMS: malformed SignedData"
  let (dalgs, sd) ← obtained (sglDerNext 0x31 sd) "CMS: malformed SignedData"
  let (eci, sd) ← obtained (sglBerNext 3 0x30 sd) "CMS: malformed SignedData"
  let unsupported := "CMS: unsupported SignedData version or digest algorithms (need v1, SHA-256)"
  need (ver.content = [1]) unsupported
  let (dalg, dalgs) ← obtained (sglDerNext 0x30 dalgs.content) unsupported
  need (dalgs = []) unsupported
  let oid ← obtained (sglAlgId dalg.content) unsupported
  need (oid = kOidSHA256) unsupported
  let (x, eci) ← obtained (sglDerNext 0x06 eci) "CMS: content is not detached id-data"
  need (x.content = kOidData ∧ eci = []) "CMS: content is not detached id-data"
  let (certs, sd) ← obtained (sglBerOptional 3 0xa0 sd) "CMS: malformed certificates"
  let (_, sd) ← obtained (sglBerOptional 3 0xa1 sd) "CMS: malformed CRLs"
  let (sis, sd) ← obtained (sglBerNext 3 0x31 sd) "CMS: malformed signerInfos"
  need (sd = []) "CMS: malformed signerInfos"
  let (si, sis) ← obtained (sglDerNext 0x30 sis) "CMS: need exactly one SignerInfo"
  need (sis = []) "CMS: need exactly one SignerInfo"
  .ok (certs, si.content)

structure SignerInfo where
  issuerTLV : List UInt8
  serialTLV : List UInt8
  attrs : List UInt8
  salgOid : List UInt8
  sig : List UInt8

def readSignerInfo (si : List UInt8) : Except String SignerInfo := do
  let unsupported := "CMS: unsupported SignerInfo version (need issuerAndSerialNumber)"
  let (siVer, si) ← obtained (sglDerNext 0x02 si) unsupported
  need (siVer.content = [1]) unsupported
  let (sid, si) ← obtained (sglDerNext 0x30 si) "CMS: malformed signer identifier"
  let (issuer, sid) ← obtained (sglDerNext 0x30 sid.content) "CMS: malformed signer identifier"
  let (serial, sid) ← obtained (sglDerNext 0x02 sid) "CMS: malformed signer identifier"
  need (sid = []) "CMS: malformed signer identifier"
  let (dalg, si) ← obtained (sglDerNext 0x30 si) "CMS: unsupported digest algorithm (need SHA-256)"
  let oid ← obtained (sglAlgId dalg.content) "CMS: unsupported digest algorithm (need SHA-256)"
  need (oid = kOidSHA256) "CMS: unsupported digest algorithm (need SHA-256)"
  let (attrs, si) ← obtained (sglDerNext 0xa0 si) "CMS: no signed attributes"
  let (salg, si) ← obtained (sglDerNext 0x30 si) "CMS: malformed signature algorithm"
  let salgOid ← obtained (sglAlgId salg.content) "CMS: malformed signature algorithm"
  let (sig, si) ← obtained (sglDerNext 0x04 si) "CMS: malformed signature"
  let si ← obtained (sglDerOptional 0xa1 si) "CMS: malformed unsigned attributes"
  need (si = []) "CMS: trailing data in SignerInfo"
  .ok ⟨issuer.whole, serial.whole, attrs.content, salgOid, sig.content⟩

inductive BoundAttribute
  | contentType
  | messageDigest
  | agilityV2
  | agilityV1
deriving DecidableEq

def whichAttribute (aoid : List UInt8) : Option BoundAttribute :=
  if aoid = kOidContentType then some .contentType
  else if aoid = kOidMessageDigest then some .messageDigest
  else if aoid = kOidAppleHashAgilityV2 then some .agilityV2
  else if aoid = kOidAppleHashAgilityV1 then some .agilityV1
  else none

/-- One entry of the attribute with a hash for every digest algorithm: the number of SHA-256
entries so far, and whether all of them are the hash. -/
def agilityEntry (cdHash : List UInt8) (found : ℕ × Bool) (e : Tlv) : Except String (ℕ × Bool) := do
  let (eoid, x) ← obtained (sglDerNext 0x06 e.content) "CMS: malformed hash-agility-v2 attribute"
  let (eh, x) ← obtained (sglDerNext 0x04 x) "CMS: malformed hash-agility-v2 attribute"
  need (x = []) "CMS: malformed hash-agility-v2 attribute"
  .ok (if eoid.content = kOidSHA256 then (found.1 + 1, found.2 && eh.content == cdHash) else found)

def listsOnly (plist : Option PropertyList) (cdHash20 : List UInt8) : Bool :=
  match plist with
  | some (.dictionary entries) =>
    match entries.lookup "cdhashes" with
    | some (.array [.data bytes]) => bytes == cdHash20
    | _ => false
  | _ => false

section

variable {Key : Type} (p : Platform Key)

/-- Whether the value of an attribute is the right one. -/
def checkAttribute (cdHash vals : List UInt8) : BoundAttribute → Except String Bool
  | .contentType => do
    let (v, vals) ← obtained (sglDerNext 0x06 vals) "CMS: contentType is not id-data"
    need (vals = [] ∧ v.content = kOidData) "CMS: contentType is not id-data"
    .ok true
  | .messageDigest => do
    let (v, vals) ← obtained (sglDerNext 0x04 vals) "CMS: malformed messageDigest"
    need (vals = []) "CMS: malformed messageDigest"
    .ok (v.content == cdHash)
  | .agilityV2 => do
    let (sha256Entries, ok) ← (derOf 0x30).each "CMS: malformed hash-agility-v2 attribute"
      (agilityEntry cdHash) vals (0, true)
    .ok (ok && sha256Entries == 1)
  | .agilityV1 => do
    let (v, vals) ← obtained (sglDerNext 0x04 vals) "CMS: malformed hash-agility-v1 attribute"
    need (vals = []) "CMS: malformed hash-agility-v1 attribute"
    .ok (listsOnly (p.propertyListWithData v.content) (cdHash.take 20))

/-- What the loop over the attributes has seen, and how many of them were wrong. -/
structure AttributeState where
  seen : List BoundAttribute
  failures : ℕ

def signedAttribute (cdHash : List UInt8) (s : AttributeState) (a : Tlv) :
    Except String AttributeState := do
  let (aoid, x) ← obtained (sglDerNext 0x06 a.content) "CMS: malformed signed attribute"
  let (vals, x) ← obtained (sglDerNext 0x31 x) "CMS: malformed signed attribute"
  need (x = []) "CMS: malformed signed attribute"
  match whichAttribute aoid.content with
  | none => .ok s
  | some which => do
    need (which ∉ s.seen) "CMS: duplicate signed attribute"
    let ok ← checkAttribute p cdHash vals.content which
    .ok ⟨which :: s.seen, if ok then s.failures else s.failures + 1⟩

def checkAttributes (cdHash attrs : List UInt8) : Except String ℕ := do
  let s ← (derOf 0x30).each "CMS: malformed signed attribute" (signedAttribute p cdHash) attrs ⟨[], 0⟩
  need (.contentType ∈ s.seen ∧ .messageDigest ∈ s.seen)
    "CMS: missing contentType or messageDigest signed attribute"
  .ok s.failures

/-- What the loop over the certificates has found: the signer, and how many there are. -/
structure CertificateState where
  signer : Option (List UInt8 × CertInfo)
  ncerts : ℕ

def signerCertificate (wantIssuer wantSerial : List UInt8) (s : CertificateState) (c : Tlv) :
    Except String CertificateState := do
  let info ← (sglParseCertificate p.initWithBytes c.whole).mapError fun _ =>
    "CMS: certificate " ++ toString s.ncerts ++ " does not parse"
  if info.issuerTLV ≠ wantIssuer ∨ info.serialTLV ≠ wantSerial then
    .ok { s with ncerts := s.ncerts + 1 }
  else do
    need (s.signer.isNone) "CMS: more than one certificate matches the signer"
    .ok ⟨some (c.whole, info), s.ncerts + 1⟩

/-- The embedded certificate that the SignerInfo names. -/
def findSigner (certs wantIssuer wantSerial : List UInt8) :
    Except String (List UInt8 × CertInfo) := do
  let s ← (derOf 0x30).each "CMS: malformed certificate" (signerCertificate p wantIssuer wantSerial)
    certs ⟨none, 0⟩
  obtained s.signer "CMS: the signer certificate is not embedded"

def signatureAlgorithm (salgOid : List UInt8) : Option SecKeyAlgorithm :=
  if salgOid = kOidSHA256RSA ∨ salgOid = kOidRSA then some .rsaSignatureMessagePKCS1v15SHA256
  else if salgOid = kOidSHA256ECDSA then some .ecdsaSignatureMessageX962SHA256
  else none

def sglAllZero (l : List UInt8) : Bool := l.all fun b => b == 0

/-- `sgl_verify_cms`: the number of failures, or the error that ends the program. -/
def sglVerifyCMS (blob cdBlob : List UInt8) (cdTeam : Option String) : Except String ℕ := do
  let (certs, si) ← readSignedData (blob.drop 8)
  let info ← readSignerInfo si
  let failures ← checkAttributes p (p.sglSha256 cdBlob) info.attrs
  let (signerDER, signerCert) ← findSigner p certs info.issuerTLV info.serialTLV
  -- A team the CodeDirectory claims must be backed by the signer's OU.
  let failures := if cdTeam.isSome ∧ cdTeam ≠ signerCert.subjectOU then failures + 1 else failures
  let alg ← obtained (signatureAlgorithm info.salgOid) "CMS: unsupported signature algorithm"
  if sglAllZero info.sig then .ok (failures + 1)
  else .ok (failures + if p.verifies signerDER alg (sglDer 0x31 info.attrs) info.sig then 0 else 1)

end

end Signing

end Tolkara
