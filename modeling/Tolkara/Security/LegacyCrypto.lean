import Tolkara.Library.Chaining
import Tolkara.Library.Padding

/-!
# Legacy encryption

The encryption calls of the retired CDSA interface: contexts that belong to attached modules,
and `crypt_data`, which encrypts with padding and checks the padding by hand when it
decrypts. AES in CBC mode is a parameter.
-/

namespace Tolkara

namespace LegacyCrypto

open Library

inductive AKCSSMReturn
  | ok | memory | pointer | unsupported | context | data | output | key
deriving DecidableEq, Repr

def aesId : ℕ := 0x80000001

def maxData : ℕ := 1024 * 1024

/-! ## Data -/

/-- A length and a pointer. What the pointer points to has at least this length. -/
structure AKCSSMData where
  length : ℕ
  data : Option (List UInt8)
  fits : ∀ bytes ∈ data, length ≤ bytes.length

namespace AKCSSMData

def zero : AKCSSMData := ⟨0, none, nofun⟩

/-- `valid_data` of a pointer that is not null. -/
def valid (d : AKCSSMData) : Bool := d.length ≤ maxData && (d.length == 0 || d.data.isSome)

def bytes (d : AKCSSMData) : List UInt8 := (d.data.getD []).take d.length

theorem valid_iff {d : AKCSSMData} :
    d.valid = true ↔ d.length ≤ maxData ∧ (d.length = 0 ∨ d.data.isSome = true) := by
  rw [valid, Bool.and_eq_true, Bool.or_eq_true, decide_eq_true_iff, beq_iff_eq]

theorem length_bytes {d : AKCSSMData} (h : d.valid = true) : d.bytes.length = d.length := by
  rw [bytes, List.length_take]
  rcases (valid_iff.1 h).2 with hzero | hsome
  · rw [hzero, Nat.zero_min]
  · obtain ⟨bytes, hbytes⟩ := Option.isSome_iff_exists.1 hsome
    rw [hbytes, Option.getD_some, Nat.min_eq_left (d.fits bytes hbytes)]

end AKCSSMData

/-! ## Contexts -/

/-- The key and the initialisation vector of a symmetric context. -/
structure SymmetricKey where
  key : List UInt8
  iv : List UInt8
  length_key : key.length = 16 ∨ key.length = 24 ∨ key.length = 32
  length_iv : iv.length = 16

/-- `kind` 1 derives a key, `kind` 2 encrypts. -/
inductive ContextKind
  | deriveKey
  | symmetric (key : SymmetricKey)

structure Module where
  id : ℕ

structure Context where
  id : ℕ
  module : ℕ
  kind : ContextKind

/-- The two lists, and the number of the next handle. No context outlives its module. -/
structure CSSMState where
  modules : List Module
  contexts : List Context
  serial : ℕ
  attached : ∀ c ∈ contexts, ∃ m ∈ modules, m.id = c.module

namespace CSSMState

def initial : CSSMState := ⟨[], [], 1, nofun⟩

def module (s : CSSMState) (id : ℕ) : Option Module := s.modules.find? fun m => m.id == id

def context (s : CSSMState) (id : ℕ) : Option Context := s.contexts.find? fun c => c.id == id

/-- `CSSM_ModuleAttach` once its arguments are those of this provider. -/
def moduleAttach (s : CSSMState) : ℕ × CSSMState :=
  (s.serial,
    { s with
      modules := ⟨s.serial⟩ :: s.modules
      serial := s.serial + 1
      attached := fun c hc =>
        let ⟨m, hm, hid⟩ := s.attached c hc
        ⟨m, List.mem_cons_of_mem _ hm, hid⟩ })

/-- `CSSM_ModuleDetach`: a module with contexts stays. -/
def moduleDetach (s : CSSMState) (id : ℕ) : AKCSSMReturn × CSSMState :=
  if h : ∃ c ∈ s.contexts, c.module = id then (.context, s)
  else if (s.module id).isNone then (.context, s)
  else
    (.ok,
      { s with
        modules := s.modules.eraseP fun m => m.id == id
        attached := fun c hc => by
          obtain ⟨m, hm, hid⟩ := s.attached c hc
          refine ⟨m, (List.mem_eraseP_of_neg ?_).2 hm, hid⟩
          rw [hid, beq_iff_eq]
          exact fun heq => h ⟨c, hc, heq⟩ })

def addContext (s : CSSMState) (id : ℕ) (kind : ContextKind) :
    AKCSSMReturn × Option ℕ × CSSMState :=
  match h : s.module id with
  | none => (.context, none, s)
  | some m =>
    (.ok, some s.serial,
      { s with
        contexts := ⟨s.serial, id, kind⟩ :: s.contexts
        serial := s.serial + 1
        attached := by
          refine List.forall_mem_cons.2 ⟨⟨m, List.mem_of_find?_eq_some h, ?_⟩, s.attached⟩
          have hfound := List.find?_some (p := fun m : Module => m.id == id) h
          exact beq_iff_eq.1 hfound })

def deleteContext (s : CSSMState) (id : ℕ) : AKCSSMReturn × CSSMState :=
  match s.context id with
  | none => (.context, s)
  | some _ =>
    (.ok,
      { s with
        contexts := s.contexts.eraseP fun c => c.id == id
        attached := fun c hc => s.attached c (List.mem_of_mem_eraseP hc) })

end CSSMState

structure AKCSSMKey where
  algorithmId : ℕ
  blobType : ℕ
  format : ℕ
  keyClass : ℕ
  logicalKeySizeInBits : ℕ
  keyData : AKCSSMData

/-- The guards on the key of a symmetric context. -/
def AKCSSMKey.usable (key : AKCSSMKey) : Bool :=
  key.algorithmId == aesId && key.blobType == 0 && key.format == 12 && key.keyClass == 2 &&
    key.keyData.valid &&
    (key.keyData.length == 16 || key.keyData.length == 24 || key.keyData.length == 32) &&
    key.logicalKeySizeInBits == key.keyData.length * 8

theorem AKCSSMKey.length_of_usable {key : AKCSSMKey} (h : key.usable = true) :
    key.keyData.bytes.length = 16 ∨ key.keyData.bytes.length = 24 ∨
      key.keyData.bytes.length = 32 := by
  simp only [usable, Bool.and_eq_true, Bool.or_eq_true, beq_iff_eq] at h
  rw [AKCSSMData.length_bytes h.1.1.2]
  exact or_assoc.1 h.1.2

theorem length_of_iv {iv : AKCSSMData} (h : (iv.valid && iv.length == 16) = true) :
    iv.bytes.length = 16 := by
  rw [Bool.and_eq_true, beq_iff_eq] at h
  rw [AKCSSMData.length_bytes h.1, h.2]

/-- `CSSM_CSP_CreateSymmetricContext`, with somewhere to put the handle and memory for the
context. -/
def createSymmetricContext (s : CSSMState) (id algorithm mode : ℕ) (key : Option AKCSSMKey)
    (iv : Option AKCSSMData) (padding : ℕ) (reserved : Bool) :
    AKCSSMReturn × Option ℕ × CSSMState :=
  if algorithm ≠ aesId ∨ mode ≠ 6 ∨ padding ≠ 7 ∨ reserved = true then (.unsupported, none, s)
  else
    match key with
    | none => (.key, none, s)
    | some key =>
      if hkey : key.usable = true then
        match iv with
        | none => (.data, none, s)
        | some iv =>
          if hiv : (iv.valid && iv.length == 16) = true then
            s.addContext id (.symmetric
              { key := key.keyData.bytes
                iv := iv.bytes
                length_key := AKCSSMKey.length_of_usable hkey
                length_iv := length_of_iv hiv })
          else (.data, none, s)
      else (.key, none, s)

/-! ## Encryption -/

/-- AES in CBC mode: inverse functions on whole blocks. -/
structure AesCbc where
  encrypt : SymmetricKey → List UInt8 → List UInt8
  decrypt : SymmetricKey → List UInt8 → List UInt8
  length_encrypt : ∀ key l, 16 ∣ l.length → (encrypt key l).length = l.length
  length_decrypt : ∀ key l, 16 ∣ l.length → (decrypt key l).length = l.length
  decrypt_encrypt : ∀ key l, 16 ∣ l.length → decrypt key (encrypt key l) = l
  encrypt_decrypt : ∀ key l, 16 ∣ l.length → encrypt key (decrypt key l) = l

/-- The mode over a permutation of the blocks for each key. -/
def AesCbc.ofCipher (cipher : SymmetricKey → Equiv.Perm (List UInt8))
    (h : ∀ key b, (cipher key b).length = b.length) : AesCbc where
  encrypt key l := chain 16 (cipher key) (l.length / 16) key.iv l
  decrypt key l := unchain 16 (cipher key) (l.length / 16) key.iv l
  length_encrypt key l hl :=
    (length_chain (h key) (Nat.div_mul_cancel hl).symm key.length_iv).trans (Nat.div_mul_cancel hl)
  length_decrypt key l hl :=
    (length_unchain (h key) (Nat.div_mul_cancel hl).symm key.length_iv).trans
      (Nat.div_mul_cancel hl)
  decrypt_encrypt key l hl := by
    have hblocks := (Nat.div_mul_cancel hl).symm
    rw [length_chain (h key) hblocks key.length_iv, ← hblocks]
    exact unchain_chain (h key) hblocks key.length_iv
  encrypt_decrypt key l hl := by
    have hblocks := (Nat.div_mul_cancel hl).symm
    rw [length_unchain (h key) hblocks key.length_iv, ← hblocks]
    exact chain_unchain (h key) hblocks key.length_iv

inductive CCOperation
  | encrypt | decrypt
deriving DecidableEq, Repr

/-- The errors of the cryptor, and `kCCDecodeError`. -/
inductive CCStatus
  | bufferTooSmall | memoryFailure | alignmentError | decodeError
deriving DecidableEq, Repr

/-- What a call finds: which allocations succeed, and what `malloc_func` gives. -/
structure Resources where
  scratch : Bool
  cryptor : Bool
  malloc : (n : ℕ) → Option (Vector UInt8 n)

/-- `CCCrypt` with the options of `crypt_data`: PKCS7 padding to encrypt, none to decrypt. -/
def ccCrypt (aes : AesCbc) (r : Resources) (operation : CCOperation) (key : SymmetricKey)
    (input : List UInt8) (capacity : ℕ) : Except CCStatus (List UInt8) :=
  let input := if operation = .encrypt then padTo UInt8.ofNat 16 input else input
  if input.length % 16 ≠ 0 then .error .alignmentError
  else if capacity < input.length then .error .bufferTooSmall
  else if r.cryptor = false then .error .memoryFailure
  else .ok (if operation = .encrypt then aes.encrypt key input else aes.decrypt key input)

/-- The padding that the last byte of `scratch` announces. -/
def announced (scratch : List UInt8) : ℕ := (scratch.getD (scratch.length - 1) 0).toNat

/-- The check of the padding: `invalid` after the loop over the last block. -/
def invalidPadding (scratch : List UInt8) : ℕ :=
  let padding := announced scratch
  (List.range 16).foldl
    (fun invalid i => invalid ||| (if i < padding then 1 else 0) *
      ((scratch.getD (scratch.length - 1 - i) 0).toNat ^^^ padding))
    (if padding = 0 ∨ 16 < padding then 1 else 0)

/-- What is to be published, from `CCCrypt` to the removal of the padding. -/
def translate (aes : AesCbc) (r : Resources) (operation : CCOperation) (key : SymmetricKey)
    (input : List UInt8) : Except CCStatus (List UInt8) :=
  match ccCrypt aes r operation key input (input.length + 16) with
  | .error e => .error e
  | .ok scratch =>
    if operation = .decrypt then
      if scratch.length < 16 then .error .decodeError
      else if invalidPadding scratch ≠ 0 then .error .decodeError
      else .ok (scratch.take (scratch.length - announced scratch))
    else .ok scratch

/-- `memcpy` to the start of a buffer, and its length. -/
def AKCSSMData.copy (buffer bytes : List UInt8) : AKCSSMData where
  length := bytes.length
  data := some (bytes ++ buffer.drop bytes.length)
  fits := by
    rintro _ ⟨⟩
    rw [List.length_append]
    exact Nat.le_add_right _ _

/-- The output takes the bytes, in its own buffer or in a new one. -/
def AKCSSMData.publish (output : AKCSSMData) (r : Resources) (bytes : List UInt8) :
    Except AKCSSMReturn AKCSSMData :=
  match output.data with
  | some buffer =>
    if output.length < bytes.length then .error .output else .ok (.copy buffer bytes)
  | none =>
    match r.malloc (if bytes.length = 0 then 1 else bytes.length) with
    | none => .error .memory
    | some buffer => .ok (.copy buffer.toList bytes)

/-- What a call passes, by pointers that may be null, and what it finds there afterwards. -/
structure CryptCall where
  id : ℕ
  input : Option AKCSSMData
  inputCount : ℕ
  output : Option AKCSSMData
  outputCount : ℕ
  actual : Option ℕ
  remaining : Option AKCSSMData

/-- `crypt_data` after its pointers have been checked and `actual` and `remaining` cleared. -/
def cryptChecked (aes : AesCbc) (s : CSSMState) (r : Resources) (operation : CCOperation)
    (call : CryptCall) (output : AKCSSMData) : AKCSSMReturn × CryptCall :=
  if call.inputCount ≠ 1 ∨ call.outputCount ≠ 1 then (.unsupported, call)
  else
    match call.input with
    | none => (.data, call)
    | some input =>
      if (input.valid && output.valid) = false then (.data, call)
      else
        match s.context call.id with
        | none => (.context, call)
        | some c =>
          match c.kind, s.module c.module with
          | .symmetric key, some _ =>
            if r.scratch = false then (.memory, call)
            else
              match translate aes r operation key input.bytes with
              | .error _ => (.data, call)
              | .ok bytes =>
                match output.publish r bytes with
                | .error status => (status, call)
                | .ok output =>
                  (.ok, { call with output := some output, actual := some bytes.length })
          | _, _ => (.context, call)

def cryptData (aes : AesCbc) (s : CSSMState) (r : Resources) (operation : CCOperation)
    (call : CryptCall) : AKCSSMReturn × CryptCall :=
  match call.actual, call.remaining, call.output with
  | some _, some _, some output =>
    cryptChecked aes s r operation { call with actual := some 0, remaining := some .zero } output
  | _, _, _ => (.pointer, call)

def encryptData (aes : AesCbc) (s : CSSMState) (r : Resources) (call : CryptCall) :
    AKCSSMReturn × CryptCall :=
  cryptData aes s r .encrypt call

def decryptData (aes : AesCbc) (s : CSSMState) (r : Resources) (call : CryptCall) :
    AKCSSMReturn × CryptCall :=
  cryptData aes s r .decrypt call

end LegacyCrypto

end Tolkara
