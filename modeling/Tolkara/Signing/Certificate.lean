import Tolkara.Library.Readers
import Tolkara.Signing.DER

/-!
# Certificates

`sgl_parse_certificate` of `tools/sign_guest_local.m`. A certificate that it accepts is one
element and nothing else, and so are the issuer and the serial number it keeps of it. How
bytes become a string is left to the platform.
-/

namespace Tolkara

namespace Signing

open Library

inductive StringEncoding
  | utf8
  | utf16BigEndian

/-- The fields of the `struct tm` that a date is made from. -/
structure DerTime where
  year : ℕ
  month : ℕ
  day : ℕ
  hour : ℕ
  minute : ℕ
  second : ℕ
deriving DecidableEq

def decimalDigits (l : List UInt8) : ℕ := l.foldl (fun v b => v * 10 + (b.toNat - 48)) 0

/-- `UTCTime` has two digits of the year, `GeneralizedTime` four. -/
def sglDerTime (tag : UInt8) (p : List UInt8) : Option DerTime :=
  let ylen := if tag = 0x17 then 2 else if tag = 0x18 then 4 else 0
  if ylen = 0 ∨ p.length ≠ ylen + 11 ∨ p.getLast? ≠ some 90 then none
  else if ¬ p.dropLast.all (fun b => 48 ≤ b && b ≤ 57) then none
  else
    let year := decimalDigits (p.take ylen)
    let year := if ylen = 2 then year + (if year < 50 then 2000 else 1900) else year
    let f := fun i => decimalDigits ((p.drop (ylen + 2 * i)).take 2)
    if f 0 < 1 ∨ 12 < f 0 ∨ f 1 < 1 ∨ 31 < f 1 ∨ 23 < f 2 ∨ 59 < f 3 ∨ 59 < f 4 then none
    else some ⟨year, f 0, f 1, f 2, f 3, f 4⟩

structure CertInfo where
  tbsTLV : List UInt8
  serialTLV : List UInt8
  issuerTLV : List UInt8
  subjectTLV : List UInt8
  subjectCN : String
  subjectOU : Option String
  notBefore : DerTime
  notAfter : DerTime
  sigAlgOID : List UInt8
  signature : List UInt8
  selfSigned : Bool
  codeSigning : Bool
deriving DecidableEq

def sglDerOptional (want : UInt8) (l : List UInt8) : Option (List UInt8) :=
  if l.head? = some want then (sglDerNext want l).map Prod.snd else some l

section

variable (initWithBytes : StringEncoding → List UInt8 → Option String)

def sglDerString (tag : UInt8) (p : List UInt8) : Option String :=
  if tag = 0x1e then initWithBytes .utf16BigEndian p else initWithBytes .utf8 p

/-- One attribute of a name. An error is a return: of the string, or of none. -/
def nameAttribute (oidLastByte : UInt8) (a : Tlv) : Except (Option String) Unit :=
  match sglDerNext 0x06 a.content with
  | none => .error none
  | some (oid, ap) =>
    match sglDerTlv ap with
    | none => .error none
    | some (value, _) =>
      if oid.content = [0x55, 0x04, oidLastByte] then
        .error (sglDerString initWithBytes value.tag value.content)
      else .ok ()

def sglNameAttr (p : List UInt8) (oidLastByte : UInt8) : Option String :=
  let rdn := fun (_ : Unit) (set : Tlv) =>
    (derOf 0x30).each none (fun _ => nameAttribute initWithBytes oidLastByte) set.content ()
  match (derOf 0x31).each none rdn p () with
  | .error found => found
  | .ok _ => none

end

def kOidExtKeyUsage : List UInt8 := [0x55, 0x1d, 0x25]

def kOidCodeSigningKP : List UInt8 := [0x2b, 0x06, 0x01, 0x05, 0x05, 0x07, 0x03, 0x03]

def parseExtension (codeSigning : Bool) (x : Tlv) : Except Unit Bool := do
  let (oid, x) ← obtained (sglDerNext 0x06 x.content) ()
  let x ← obtained (sglDerOptional 0x01 x) ()
  let (val, x) ← obtained (sglDerNext 0x04 x) ()
  need (x = []) ()
  if oid.content ≠ kOidExtKeyUsage then .ok codeSigning
  else do
    let (kps, val) ← obtained (sglDerNext 0x30 val.content) ()
    need (val = []) ()
    (derOf 0x06).each () (fun codeSigning kp => .ok (codeSigning || kp.content == kOidCodeSigningKP))
      kps.content codeSigning

/-- `sgl_parse_extensions`: whether the code may be signed, or a failure. -/
def sglParseExtensions (ext : List UInt8) : Except Unit Bool := do
  let (seq, ext) ← obtained (sglDerNext 0x30 ext) ()
  need (ext = []) ()
  (derOf 0x30).each () parseExtension seq.content false

def validityTime (vp : List UInt8) : Except Unit (DerTime × List UInt8) := do
  let (t, vp) ← obtained (sglDerTlv vp) ()
  let time ← obtained (sglDerTime t.tag t.content) ()
  .ok (time, vp)

def parseValidity (vp : List UInt8) : Except Unit (DerTime × DerTime) := do
  let (notBefore, vp) ← validityTime vp
  let (notAfter, vp) ← validityTime vp
  need (vp = []) ()
  .ok (notBefore, notAfter)

/-- What is kept of the TBSCertificate. -/
structure TbsInfo where
  serial : Tlv
  issuer : Tlv
  notBefore : DerTime
  notAfter : DerTime
  subject : Tlv
  codeSigning : Bool

/-- What may follow the key: the unique identifiers and the extensions. -/
def parseTbsEnd (tbs : List UInt8) : Except Unit Bool := do
  let tbs ← obtained (sglDerOptional 0x81 tbs) ()
  let tbs ← obtained (sglDerOptional 0x82 tbs) ()
  if tbs = [] then .ok false
  else do
    let (x, tbs) ← obtained (sglDerNext 0xa3 tbs) ()
    let codeSigning ← sglParseExtensions x.content
    need (tbs = []) ()
    .ok codeSigning

def parseTbs (tbs : List UInt8) : Except Unit TbsInfo := do
  let tbs ← obtained (sglDerOptional 0xa0 tbs) ()
  let (serial, tbs) ← obtained (sglDerNext 0x02 tbs) ()
  let (_, tbs) ← obtained (sglDerNext 0x30 tbs) ()
  let (issuer, tbs) ← obtained (sglDerNext 0x30 tbs) ()
  let (vp, tbs) ← obtained (sglDerNext 0x30 tbs) ()
  let (notBefore, notAfter) ← parseValidity vp.content
  let (subject, tbs) ← obtained (sglDerNext 0x30 tbs) ()
  -- subjectPublicKeyInfo
  let (_, tbs) ← obtained (sglDerNext 0x30 tbs) ()
  let codeSigning ← parseTbsEnd tbs
  .ok ⟨serial, issuer, notBefore, notAfter, subject, codeSigning⟩

section

variable (initWithBytes : StringEncoding → List UInt8 → Option String)

def sglParseCertificate (der : List UInt8) : Except Unit CertInfo := do
  let (cert, rest) ← obtained (sglDerNext 0x30 der) ()
  need (rest = []) ()
  let (tbs, cert) ← obtained (sglDerNext 0x30 cert.content) ()
  let info ← parseTbs tbs.content
  let (alg, cert) ← obtained (sglDerNext 0x30 cert) ()
  let (oid, _) ← obtained (sglDerNext 0x06 alg.content) ()
  let (x, cert) ← obtained (sglDerNext 0x03 cert) ()
  need (x.content.head? = some 0 ∧ cert = []) ()
  let subjectCN ← obtained (sglNameAttr initWithBytes info.subject.content 0x03) ()
  .ok
    { tbsTLV := tbs.whole
      serialTLV := info.serial.whole
      issuerTLV := info.issuer.whole
      subjectTLV := info.subject.whole
      subjectCN := subjectCN
      subjectOU := sglNameAttr initWithBytes info.subject.content 0x0b
      notBefore := info.notBefore
      notAfter := info.notAfter
      sigAlgOID := oid.content
      signature := x.content.drop 1
      selfSigned := info.subject.whole == info.issuer.whole
      codeSigning := info.codeSigning }

end

/-! ## What is accepted -/

/-- These bytes are one element with this tag. -/
def IsElement (want : UInt8) (bytes : List UInt8) : Prop :=
  ∃ t : Tlv, t.tag = want ∧ t.whole = bytes ∧ (derOf want).Writes bytes t

theorem isElement_of_next {want : UInt8} {l rest : List UInt8} {t : Tlv}
    (h : sglDerNext want l = some (t, rest)) : l = t.whole ++ rest ∧ IsElement want t.whole := by
  obtain ⟨hread, rfl⟩ := sglDerNext_eq_some.1 h
  obtain ⟨hbytes, hwrites⟩ := sglDerTlv_eq_some hread
  exact ⟨hbytes, t, rfl, rfl, derOf_writes hwrites⟩

theorem parseTbs_ok {tbs : List UInt8} {info : TbsInfo} (h : parseTbs tbs = .ok info) :
    IsElement 0x02 info.serial.whole ∧ IsElement 0x30 info.issuer.whole := by
  simp only [parseTbs, bind_ok, obtained_ok] at h
  obtain ⟨_, -, ⟨serial, _⟩, hserial, _, -, ⟨issuer, _⟩, hissuer, _, -, _, -, _, -, _, -, _, -,
    hinfo⟩ := h
  cases hinfo
  exact ⟨(isElement_of_next hserial).2, (isElement_of_next hissuer).2⟩

theorem sglParseCertificate_ok {initWithBytes : StringEncoding → List UInt8 → Option String}
    {der : List UInt8} {info : CertInfo} (h : sglParseCertificate initWithBytes der = .ok info) :
    IsElement 0x30 der ∧ IsElement 0x02 info.serialTLV ∧ IsElement 0x30 info.issuerTLV := by
  simp only [sglParseCertificate, bind_ok, obtained_ok, need_ok, exists_const] at h
  obtain ⟨⟨cert, rest⟩, hcert, hrest, _, -, tbs, htbs, _, -, _, -, _, -, -, _, -, hinfo⟩ := h
  obtain rfl : rest = [] := hrest
  obtain ⟨hbytes, helement⟩ := isElement_of_next hcert
  cases hinfo
  rw [List.append_nil] at hbytes
  exact ⟨hbytes ▸ helement, parseTbs_ok htbs⟩

end Signing

end Tolkara
