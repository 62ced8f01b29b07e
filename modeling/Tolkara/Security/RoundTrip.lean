import Mathlib.Data.LawfulXor.Basic
import Tolkara.Security.LegacyCrypto

/-!
# Decryption undoes encryption

When a call succeeds (`cryptData_eq_ok_iff`) and what it publishes then, that the padding
check by hand accepts exactly whole paddings, and from both that decryption returns what was
encrypted, shows nothing else, and leaves its output alone where it fails.
-/

namespace Tolkara

namespace LegacyCrypto

open Library

/-! ## The padding -/

theorem foldl_or_eq_zero (f : ℕ → ℕ) (l : List ℕ) (a : ℕ) :
    l.foldl (fun x i => x ||| f i) a = 0 ↔ a = 0 ∧ ∀ i ∈ l, f i = 0 := by
  induction l generalizing a with
  | nil => simp
  | cons i l ih => rw [List.foldl_cons, ih, Nat.or_eq_zero_iff, List.forall_mem_cons, and_assoc]

/-- The text with its whole padding. -/
def Padded (clear scratch : List UInt8) : Prop :=
  ∃ p, 0 < p ∧ p ≤ 16 ∧ scratch = clear ++ List.replicate p (UInt8.ofNat p)

theorem padded_padTo (l : List UInt8) : Padded l (padTo UInt8.ofNat 16 l) :=
  ⟨missing 16 l, missing_pos (by decide) l, missing_le 16 l, rfl⟩

theorem announced_padded {clear : List UInt8} {p : ℕ} (hpos : 0 < p) (hle : p ≤ 16) :
    announced (clear ++ List.replicate p (UInt8.ofNat p)) = p := by
  have hlast := (eq_append_replicate_iff (l := clear ++ List.replicate p (UInt8.ofNat p)) (p := p)
    (by simp) 0 (UInt8.ofNat p)).1 (by simp) 0 hpos
  rw [Nat.sub_zero] at hlast
  rw [announced, hlast, UInt8.toNat_ofNat_of_lt' (by rw [UInt8.size]; omega)]

/-- What the loop looks at: each byte of the announced padding says how long it is. -/
theorem invalidPadding_eq_zero {scratch : List UInt8} :
    invalidPadding scratch = 0 ↔ 0 < announced scratch ∧ announced scratch ≤ 16 ∧
      ∀ i < announced scratch,
        scratch.getD (scratch.length - 1 - i) 0 = UInt8.ofNat (announced scratch) := by
  have hlt : announced scratch < 256 := UInt8.toNat_lt _
  have hbyte : ∀ b : UInt8, b.toNat ^^^ announced scratch = 0 ↔ b = UInt8.ofNat (announced scratch) := by
    intro b
    rw [xor_eq_zero_iff, ← UInt8.toNat_inj, UInt8.toNat_ofNat_of_lt' hlt]
  rw [invalidPadding, foldl_or_eq_zero]
  constructor
  · rintro ⟨hrange, hloop⟩
    have hbounds : ¬ (announced scratch = 0 ∨ 16 < announced scratch) := by
      intro h
      rw [if_pos h] at hrange
      exact absurd hrange one_ne_zero
    refine ⟨by omega, by omega, fun i hi => (hbyte _).1 ?_⟩
    have hi' := hloop i (List.mem_range.2 (by omega))
    rwa [if_pos hi, Nat.one_mul] at hi'
  · rintro ⟨hpos, hle, hall⟩
    refine ⟨if_neg (by omega), fun i _ => ?_⟩
    by_cases hi : i < announced scratch
    · rw [(hbyte _).2 (hall i hi), Nat.mul_zero]
    · rw [if_neg hi, Nat.zero_mul]

/-- The check accepts exactly the texts with a whole padding, and it is what is taken off. -/
theorem padded_iff {scratch clear : List UInt8} (h : 16 ≤ scratch.length) :
    Padded clear scratch ↔ invalidPadding scratch = 0 ∧
      clear = scratch.take (scratch.length - announced scratch) := by
  constructor
  · rintro ⟨p, hpos, hle, rfl⟩
    have hp : announced (clear ++ List.replicate p (UInt8.ofNat p)) = p :=
      announced_padded hpos hle
    have hlength : p ≤ (clear ++ List.replicate p (UInt8.ofNat p)).length := by simp
    have htake : (clear ++ List.replicate p (UInt8.ofNat p)).take
        ((clear ++ List.replicate p (UInt8.ofNat p)).length - p) = clear := by
      rw [List.length_append, List.length_replicate, Nat.add_sub_cancel, List.take_left]
    rw [invalidPadding_eq_zero, hp, htake]
    refine ⟨⟨hpos, hle, (eq_append_replicate_iff hlength 0 _).1 ?_⟩, rfl⟩
    rw [htake]
  · rintro ⟨hvalid, rfl⟩
    obtain ⟨hpos, hle, hall⟩ := invalidPadding_eq_zero.1 hvalid
    exact ⟨announced scratch, hpos, hle,
      (eq_append_replicate_iff (hle.trans h) 0 _).2 hall⟩

/-! ## The cipher -/

theorem translate_encrypt {aes : AesCbc} {r : Resources} {key : SymmetricKey}
    {input bytes : List UInt8} :
    translate aes r .encrypt key input = .ok bytes ↔
      r.cryptor = true ∧ bytes = aes.encrypt key (padTo UInt8.ofNat 16 input) := by
  have hblocks := Nat.mod_eq_zero_of_dvd (dvd_length_padTo UInt8.ofNat (n := 16) (by decide) input)
  have hroom : ¬ input.length + 16 < (padTo UInt8.ofNat 16 input).length := by
    have := missing_le 16 input
    rw [length_padTo]
    omega
  cases hcryptor : r.cryptor with
  | false =>
      simp [translate, ccCrypt, hblocks, hroom, hcryptor]
  | true =>
      simp [translate, ccCrypt, hblocks, hroom, hcryptor, eq_comm]

theorem translate_decrypt {aes : AesCbc} {r : Resources} {key : SymmetricKey}
    {input bytes : List UInt8} :
    translate aes r .decrypt key input = .ok bytes ↔
      r.cryptor = true ∧ 16 ∣ input.length ∧ Padded bytes (aes.decrypt key input) := by
  have hroom : ¬ input.length + 16 < input.length := by omega
  by_cases hblocks : 16 ∣ input.length
  · have hlength := aes.length_decrypt key input hblocks
    have hmod := Nat.mod_eq_zero_of_dvd hblocks
    cases hcryptor : r.cryptor with
    | false => simp [translate, ccCrypt, hmod, hcryptor]
    | true =>
        have hcrypt : ccCrypt aes r .decrypt key input (input.length + 16) =
            .ok (aes.decrypt key input) := by
          simp [ccCrypt, hmod, hcryptor]
        rw [translate, hcrypt]
        dsimp only
        rw [if_pos rfl]
        by_cases hshort : (aes.decrypt key input).length < 16
        · rw [if_pos hshort]
          refine ⟨nofun, ?_⟩
          rintro ⟨-, -, p, hpos, -, hp⟩
          have hlen := congrArg List.length hp
          rw [List.length_append, List.length_replicate] at hlen
          omega
        · rw [if_neg hshort, padded_iff (not_lt.1 hshort)]
          by_cases hvalid : invalidPadding (aes.decrypt key input) = 0
          · rw [if_neg (not_not.2 hvalid), Except.ok.injEq]
            exact ⟨fun h => ⟨rfl, hblocks, hvalid, h.symm⟩, fun h => h.2.2.2.symm⟩
          · rw [if_pos hvalid]
            exact ⟨nofun, fun h => absurd h.2.2.1 hvalid⟩
  · have hmod : input.length % 16 ≠ 0 := fun h => hblocks (Nat.dvd_of_mod_eq_zero h)
    simp [translate, ccCrypt, hmod, hblocks]

/-! ## The output -/

/-- Whether an output can take `n` bytes. -/
def AKCSSMData.Room (output : AKCSSMData) (r : Resources) (n : ℕ) : Prop :=
  match output.data with
  | some _ => n ≤ output.length
  | none => (r.malloc (if n = 0 then 1 else n)).isSome = true

theorem AKCSSMData.bytes_copy (buffer bytes : List UInt8) :
    (AKCSSMData.copy buffer bytes).bytes = bytes := by
  rw [AKCSSMData.bytes, copy, Option.getD_some, List.take_left]

theorem AKCSSMData.of_publish {output out : AKCSSMData} {r : Resources} {bytes : List UInt8}
    (h : output.publish r bytes = .ok out) : out.length = bytes.length ∧ out.bytes = bytes := by
  unfold publish at h
  split at h
  · split_ifs at h
    cases h
    exact ⟨rfl, bytes_copy _ _⟩
  · split at h
    · cases h
    · cases h
      exact ⟨rfl, bytes_copy _ _⟩

theorem AKCSSMData.exists_publish {output : AKCSSMData} {r : Resources} {bytes : List UInt8}
    (h : output.Room r bytes.length) : ∃ out, output.publish r bytes = .ok out := by
  cases hdata : output.data with
  | some buffer =>
      rw [Room, hdata] at h
      rw [publish, hdata]
      exact ⟨_, if_neg (not_lt.2 h)⟩
  | none =>
      rw [Room, hdata] at h
      obtain ⟨buffer, hbuffer⟩ := Option.isSome_iff_exists.1 h
      rw [publish, hdata]
      dsimp only
      rw [hbuffer]
      exact ⟨_, rfl⟩

/-! ## Calls -/

/-- A context that can encrypt. -/
def CSSMState.Symmetric (s : CSSMState) (id : ℕ) (key : SymmetricKey) : Prop :=
  ∃ c, s.context id = some c ∧ c.kind = .symmetric key

theorem CSSMState.isSome_module {s : CSSMState} {id : ℕ} {c : Context}
    (h : s.context id = some c) : (s.module c.module).isSome = true := by
  obtain ⟨m, hm, hid⟩ := s.attached c (List.mem_of_find?_eq_some h)
  exact List.find?_isSome.2 ⟨m, hm, beq_iff_eq.2 hid⟩

theorem CSSMState.Symmetric.unique {s : CSSMState} {id : ℕ} {key key' : SymmetricKey}
    (h : s.Symmetric id key) (h' : s.Symmetric id key') : key = key' := by
  obtain ⟨c, hc, hkey⟩ := h
  obtain ⟨c', hc', hkey'⟩ := h'
  cases hc.symm.trans hc'
  cases hkey.symm.trans hkey'
  rfl

/-- What a call has to pass and to find before its data is looked at. -/
structure Ready (s : CSSMState) (r : Resources) (call : CryptCall) (key : SymmetricKey)
    (input output : AKCSSMData) : Prop where
  actual : call.actual.isSome = true
  remaining : call.remaining.isSome = true
  outputData : call.output = some output
  inputData : call.input = some input
  counts : call.inputCount = 1 ∧ call.outputCount = 1
  symmetric : s.Symmetric call.id key
  scratch : r.scratch = true
  validInput : input.valid = true
  validOutput : output.valid = true

variable {aes : AesCbc} {s : CSSMState} {r : Resources} {operation : CCOperation}
  {call : CryptCall} {key : SymmetricKey} {input output : AKCSSMData}

theorem Ready.cryptData_eq (h : Ready s r call key input output) :
    cryptData aes s r operation call =
      let call := { call with actual := some 0, remaining := some .zero }
      match translate aes r operation key input.bytes with
      | .error _ => (.data, call)
      | .ok bytes =>
        match output.publish r bytes with
        | .error status => (status, call)
        | .ok out => (.ok, { call with output := some out, actual := some bytes.length }) := by
  obtain ⟨_, hactual⟩ := Option.isSome_iff_exists.1 h.actual
  obtain ⟨_, hremaining⟩ := Option.isSome_iff_exists.1 h.remaining
  obtain ⟨c, hcontext, hkind⟩ := h.symmetric
  obtain ⟨m, hmodule⟩ := Option.isSome_iff_exists.1 (CSSMState.isSome_module hcontext)
  have hcounts : ¬ (call.inputCount ≠ 1 ∨ call.outputCount ≠ 1) := by
    rw [h.counts.1, h.counts.2]
    decide
  have hvalid : ¬ ((input.valid && output.valid) = false) := by
    rw [h.validInput, h.validOutput]
    decide
  have hscratch : ¬ (r.scratch = false) := by
    rw [h.scratch]
    decide
  rw [cryptData, hactual, hremaining, h.outputData]
  dsimp only
  rw [cryptChecked, if_neg hcounts]
  dsimp only
  rw [h.inputData]
  dsimp only
  rw [if_neg hvalid, hcontext]
  dsimp only
  rw [hkind, hmodule]
  exact if_neg hscratch

/-- A call that fails because of a null pointer, and changes nothing, or that has cleared the
count and the remaining data, and changes nothing else. -/
def Refused (call : CryptCall) (result : AKCSSMReturn × CryptCall) : Prop :=
  result.1 ≠ .ok ∧
    if result.1 = .pointer then result.2 = call
    else result.2 = { call with actual := some 0, remaining := some .zero }

theorem refused_of_ne {status : AKCSSMReturn} (hok : status ≠ .ok) (hpointer : status ≠ .pointer) :
    Refused call (status, { call with actual := some 0, remaining := some .zero }) := by
  refine ⟨hok, ?_⟩
  dsimp only
  rw [if_neg hpointer]

theorem ready_or_refused (aes : AesCbc) (s : CSSMState) (r : Resources)
    (operation : CCOperation) (call : CryptCall) :
    (∃ key input output, Ready s r call key input output) ∨
      Refused call (cryptData aes s r operation call) := by
  cases hactual : call.actual with
  | none => exact Or.inr (by simp [Refused, cryptData, hactual])
  | some n =>
  cases hremaining : call.remaining with
  | none => exact Or.inr (by simp [Refused, cryptData, hremaining])
  | some rest =>
  cases houtput : call.output with
  | none => exact Or.inr (by simp [Refused, cryptData, houtput])
  | some output =>
  have hchecked : cryptData aes s r operation call =
      cryptChecked aes s r operation
        { call with actual := some 0, remaining := some .zero } output := by
    rw [cryptData, hactual, hremaining, houtput]
  rw [hchecked]
  by_cases hcounts : call.inputCount = 1 ∧ call.outputCount = 1
  case neg => exact Or.inr (by simp [Refused, cryptChecked, hcounts, ← not_and_or])
  cases hinput : call.input with
  | none => exact Or.inr (by simp [Refused, cryptChecked, hcounts, hinput])
  | some input =>
  by_cases hvalid : input.valid = true ∧ output.valid = true
  case neg =>
    have hfalse : (input.valid && output.valid) = false := by
      rwa [← Bool.not_eq_true, Bool.and_eq_true]
    exact Or.inr (by simp [Refused, cryptChecked, hcounts, hinput, hfalse])
  cases hcontext : s.context call.id with
  | none => exact Or.inr (by simp [Refused, cryptChecked, hcounts, hinput, hvalid, hcontext])
  | some c =>
  cases hkind : c.kind with
  | deriveKey =>
      exact Or.inr (by
        simp [Refused, cryptChecked, hcounts, hinput, hvalid, hcontext, hkind])
  | symmetric key =>
  obtain ⟨m, hmodule⟩ := Option.isSome_iff_exists.1 (CSSMState.isSome_module hcontext)
  by_cases hscratch : r.scratch = true
  case neg =>
    exact Or.inr (by
      simp [Refused, cryptChecked, hcounts, hinput, hvalid, hcontext, hkind, hmodule, hscratch])
  exact Or.inl ⟨key, input, output,
    { actual := Option.isSome_iff_exists.2 ⟨n, hactual⟩
      remaining := Option.isSome_iff_exists.2 ⟨rest, hremaining⟩
      outputData := houtput
      inputData := hinput
      counts := hcounts
      symmetric := ⟨c, hcontext, hkind⟩
      scratch := hscratch
      validInput := hvalid.1
      validOutput := hvalid.2 }⟩

theorem publish_error {bytes : List UInt8} {status : AKCSSMReturn}
    (h : output.publish r bytes = .error status) : status = .output ∨ status = .memory := by
  unfold AKCSSMData.publish at h
  split at h
  · split_ifs at h
    cases h
    exact Or.inl rfl
  · split at h <;> cases h
    exact Or.inr rfl

theorem Ready.ok_iff (h : Ready s r call key input output) {call' : CryptCall} :
    cryptData aes s r operation call = (.ok, call') ↔
      ∃ bytes out, translate aes r operation key input.bytes = .ok bytes ∧
        output.publish r bytes = .ok out ∧
        call' = { call with
          output := some out, actual := some bytes.length, remaining := some .zero } := by
  rw [h.cryptData_eq]
  dsimp only
  cases htranslate : translate aes r operation key input.bytes with
  | error e =>
      refine ⟨nofun, ?_⟩
      rintro ⟨bytes, out, hbytes, -⟩
      cases hbytes
  | ok bytes =>
      dsimp only
      cases hpublish : output.publish r bytes with
      | error status =>
          refine ⟨fun heq => ?_, ?_⟩
          · have hok : status = .ok := congrArg Prod.fst heq
            rcases publish_error hpublish with rfl | rfl <;> cases hok
          · rintro ⟨bytes', out, hbytes, hout, -⟩
            cases hbytes
            cases hpublish.symm.trans hout
      | ok out =>
          constructor
          · intro heq
            exact ⟨bytes, out, rfl, hpublish, (congrArg Prod.snd heq).symm⟩
          · rintro ⟨bytes', out', hbytes, hout, rfl⟩
            cases hbytes
            cases hpublish.symm.trans hout
            rfl

theorem refused_of_failure (h : (cryptData aes s r operation call).1 ≠ .ok) :
    Refused call (cryptData aes s r operation call) := by
  rcases ready_or_refused aes s r operation call with ⟨key, input, output, hready⟩ | hrefused
  · rw [hready.cryptData_eq] at h ⊢
    dsimp only at h ⊢
    cases htranslate : translate aes r operation key input.bytes with
    | error e => exact refused_of_ne (by decide) (by decide)
    | ok bytes =>
        rw [htranslate] at h
        dsimp only at h ⊢
        cases hpublish : output.publish r bytes with
        | error status =>
            rcases publish_error hpublish with rfl | rfl
            · exact refused_of_ne (by decide) (by decide)
            · exact refused_of_ne (by decide) (by decide)
        | ok out =>
            rw [hpublish] at h
            exact absurd rfl h
  · exact hrefused

/-- What an encryption that succeeds has published. -/
theorem encryptData_ok {call' : CryptCall} (h : encryptData aes s r call = (.ok, call')) :
    ∃ key plain output cipher, Ready s r call key plain output ∧ call'.output = some cipher ∧
      cipher.length = plain.length + missing 16 plain.bytes ∧
      cipher.bytes = aes.encrypt key (padTo UInt8.ofNat 16 plain.bytes) := by
  rw [encryptData] at h
  rcases ready_or_refused aes s r .encrypt call with ⟨key, plain, output, hready⟩ | hrefused
  · obtain ⟨bytes, cipher, hbytes, hcipher, rfl⟩ := hready.ok_iff.1 h
    obtain ⟨-, rfl⟩ := translate_encrypt.1 hbytes
    obtain ⟨hlength, heq⟩ := AKCSSMData.of_publish hcipher
    refine ⟨key, plain, output, cipher, hready, rfl, ?_, heq⟩
    rw [hlength, aes.length_encrypt _ _ (dvd_length_padTo _ (by decide) _), length_padTo,
      AKCSSMData.length_bytes hready.validInput]
  · exact absurd (congrArg Prod.fst h) hrefused.1

/-- Decryption publishes only what was in front of a whole padding. -/
theorem decryptData_ok {call' : CryptCall} (h : decryptData aes s r call = (.ok, call')) :
    ∃ key input output out, Ready s r call key input output ∧ call'.output = some out ∧
      16 ∣ input.bytes.length ∧ Padded out.bytes (aes.decrypt key input.bytes) := by
  rw [decryptData] at h
  rcases ready_or_refused aes s r .decrypt call with ⟨key, input, output, hready⟩ | hrefused
  · obtain ⟨bytes, out, hbytes, hout, rfl⟩ := hready.ok_iff.1 h
    obtain ⟨-, hblocks, hpadded⟩ := translate_decrypt.1 hbytes
    obtain ⟨-, rfl⟩ := AKCSSMData.of_publish hout
    exact ⟨key, input, output, out, hready, rfl, hblocks, hpadded⟩
  · exact absurd (congrArg Prod.fst h) hrefused.1

/-! ## The round trip -/

/-- A call under a key that finds the memory it needs, and whose output can take `n`
bytes. -/
structure CanTake (s : CSSMState) (r : Resources) (call : CryptCall) (key : SymmetricKey)
    (n : ℕ) : Prop where
  actual : call.actual.isSome = true
  remaining : call.remaining.isSome = true
  counts : call.inputCount = 1 ∧ call.outputCount = 1
  symmetric : s.Symmetric call.id key
  scratch : r.scratch = true
  cryptor : r.cryptor = true
  output : ∃ output, call.output = some output ∧ output.valid = true ∧ output.Room r n

/-- The blocks of a text shorter than the limit are not more than the limit. -/
theorem length_add_missing_le {l : List UInt8} (h : l.length < maxData) :
    l.length + missing 16 l ≤ maxData := by
  rw [length_add_missing (by decide)]
  unfold maxData at *
  omega

/-- What was encrypted is a valid input, when the text is shorter than the limit. -/
theorem valid_cipher {plain : List UInt8} (h : plain.length < maxData)
    (hlength : input.length = plain.length + missing 16 plain)
    (hbytes : input.bytes = aes.encrypt key (padTo UInt8.ofNat 16 plain)) : input.valid = true := by
  refine AKCSSMData.valid_iff.2 ⟨hlength ▸ length_add_missing_le h, Or.inr ?_⟩
  cases hdata : input.data with
  | some bytes => rfl
  | none =>
      have hpos := missing_pos (n := 16) (by decide) plain
      have hempty := congrArg List.length hbytes
      rw [AKCSSMData.bytes, hdata, aes.length_encrypt _ _ (dvd_length_padTo _ (by decide) _),
        length_padTo] at hempty
      simp at hempty
      omega

theorem decryptData_encrypted {plain : List UInt8} (h : CanTake s r call key plain.length)
    (hinput : call.input = some input) (hshort : plain.length < maxData)
    (hlength : input.length = plain.length + missing 16 plain)
    (hbytes : input.bytes = aes.encrypt key (padTo UInt8.ofNat 16 plain)) :
    ∃ out, decryptData aes s r call =
        (.ok, { call with
          output := some out, actual := some plain.length, remaining := some .zero }) ∧
      out.length = plain.length ∧ out.bytes = plain := by
  obtain ⟨output, houtput, hvalid, hroom⟩ := h.output
  have hready : Ready s r call key input output :=
    { actual := h.actual
      remaining := h.remaining
      outputData := houtput
      inputData := hinput
      counts := h.counts
      symmetric := h.symmetric
      scratch := h.scratch
      validInput := valid_cipher hshort hlength hbytes
      validOutput := hvalid }
  have hblocks : 16 ∣ (padTo UInt8.ofNat 16 plain).length := dvd_length_padTo _ (by decide) _
  have htranslate : translate aes r .decrypt key input.bytes = .ok plain := by
    rw [translate_decrypt, hbytes, aes.decrypt_encrypt _ _ hblocks,
      aes.length_encrypt _ _ hblocks]
    exact ⟨h.cryptor, hblocks, padded_padTo plain⟩
  obtain ⟨out, hout⟩ := AKCSSMData.exists_publish hroom
  obtain ⟨houtLength, houtBytes⟩ := AKCSSMData.of_publish hout
  exact ⟨out, hready.ok_iff.2 ⟨plain, out, htranslate, hout, rfl⟩, houtLength, houtBytes⟩

theorem decryptData_long {n : ℕ} (h : CanTake s r call key n) (hinput : call.input = some input)
    (hlong : maxData < input.length) : (decryptData aes s r call).1 = .data := by
  obtain ⟨output, houtput, -, -⟩ := h.output
  obtain ⟨_, hactual⟩ := Option.isSome_iff_exists.1 h.actual
  obtain ⟨_, hremaining⟩ := Option.isSome_iff_exists.1 h.remaining
  have hinvalid : (input.valid && output.valid) = false := by
    rw [AKCSSMData.valid, decide_eq_false (not_le.2 hlong), Bool.false_and, Bool.false_and]
  simp [decryptData, cryptData, cryptChecked, hactual, hremaining, houtput, h.counts, hinput,
    hinvalid]

/-- Encryption and decryption under one key: what was encrypted comes back, unless it is
as long as the limit and is refused; decryption shows only what a whole padding follows;
and a failure leaves the output alone and, past the check of the pointers, clears the count. -/
structure RoundTrip (aes : AesCbc) : Prop where
  undoes : ∀ s r call call' key plain cipher, encryptData aes s r call = (.ok, call') →
    s.Symmetric call.id key → call.input = some plain → call'.output = some cipher →
    ∀ s₂ r₂ call₂ input, CanTake s₂ r₂ call₂ key plain.length → call₂.input = some input →
      input.length = cipher.length → input.bytes = cipher.bytes → plain.length ≠ maxData →
        ∃ out, decryptData aes s₂ r₂ call₂ =
            (.ok, { call₂ with
              output := some out, actual := some plain.length, remaining := some .zero }) ∧
          out.length = plain.length ∧ out.bytes = plain.bytes
  limit : ∀ s r call call' key plain cipher, encryptData aes s r call = (.ok, call') →
    s.Symmetric call.id key → call.input = some plain → call'.output = some cipher →
    ∀ s₂ r₂ call₂ input, CanTake s₂ r₂ call₂ key plain.length → call₂.input = some input →
      input.length = cipher.length → plain.length = maxData →
        (decryptData aes s₂ r₂ call₂).1 = .data
  clear : ∀ s r call call', decryptData aes s r call = (.ok, call') →
    ∃ key input out, s.Symmetric call.id key ∧ call.input = some input ∧
      call'.output = some out ∧ 16 ∣ input.bytes.length ∧
      Padded out.bytes (aes.decrypt key input.bytes)
  failure : ∀ s r operation call, (cryptData aes s r operation call).1 ≠ .ok →
    Refused call (cryptData aes s r operation call)

theorem roundTrip (aes : AesCbc) : RoundTrip aes where
  undoes s r call call' key plain cipher hencrypt hkey hplain hcipher s₂ r₂ call₂ input htake
      hinput hlength hbytes hne := by
    obtain ⟨key', plain', output, cipher', hready, hcipher', hcipherLength, hcipherBytes⟩ :=
      encryptData_ok hencrypt
    cases hcipher.symm.trans hcipher'
    cases hplain.symm.trans hready.inputData
    cases hkey.unique hready.symmetric
    have hplainLength := AKCSSMData.length_bytes hready.validInput
    have hle := (AKCSSMData.valid_iff.1 hready.validInput).1
    rw [hcipherLength] at hlength
    rw [hcipherBytes] at hbytes
    rw [← hplainLength] at htake hlength hne hle ⊢
    exact decryptData_encrypted htake hinput (lt_of_le_of_ne hle hne) hlength hbytes
  limit s r call call' key plain cipher hencrypt hkey hplain hcipher s₂ r₂ call₂ input htake
      hinput hlength heq := by
    obtain ⟨key', plain', output, cipher', hready, hcipher', hcipherLength, -⟩ :=
      encryptData_ok hencrypt
    cases hcipher.symm.trans hcipher'
    cases hplain.symm.trans hready.inputData
    have hpos := missing_pos (n := 16) (by decide) plain.bytes
    exact decryptData_long htake hinput (by omega)
  clear s r call call' h := by
    obtain ⟨key, input, output, out, hready, hout, hblocks, hpadded⟩ := decryptData_ok h
    exact ⟨key, input, out, hready.symmetric, hready.inputData, hout, hblocks, hpadded⟩
  failure _ _ _ _ h := refused_of_failure h

/-! ## One context -/

def zeroKey : SymmetricKey :=
  ⟨List.replicate 16 0, List.replicate 16 0, Or.inl rfl, rfl⟩

def oneContext : CSSMState :=
  (CSSMState.initial.moduleAttach.2.addContext 1 (.symmetric zeroKey)).2.2

def plenty : Resources := ⟨true, true, fun n => some (Vector.replicate n 0)⟩

/-- A call with an input, whose output the module is to allocate. -/
def callWith (input : AKCSSMData) : CryptCall := ⟨2, some input, 1, some .zero, 1, some 0, some .zero⟩

def AKCSSMData.ofBytes (bytes : List UInt8) : AKCSSMData where
  length := bytes.length
  data := some bytes
  fits := by
    rintro _ ⟨⟩
    exact le_refl _

theorem canTake_callWith (input : AKCSSMData) (n : ℕ) :
    CanTake oneContext plenty (callWith input) zeroKey n :=
  ⟨rfl, rfl, ⟨rfl, rfl⟩, ⟨_, rfl, rfl⟩, rfl, rfl, _, rfl, rfl, rfl⟩

theorem ready_callWith {input : AKCSSMData} (h : input.valid = true) :
    Ready oneContext plenty (callWith input) zeroKey input .zero where
  actual := rfl
  remaining := rfl
  outputData := rfl
  inputData := rfl
  counts := ⟨rfl, rfl⟩
  symmetric := ⟨_, rfl, rfl⟩
  scratch := rfl
  validInput := h
  validOutput := rfl

theorem encryptData_callWith (aes : AesCbc) {input : AKCSSMData} (h : input.valid = true) :
    ∃ cipher, encryptData aes oneContext plenty (callWith input) =
        (.ok, { callWith input with
          output := some cipher, actual := some cipher.length, remaining := some .zero }) ∧
      cipher.length = input.length + missing 16 input.bytes ∧
        cipher.bytes = aes.encrypt zeroKey (padTo UInt8.ofNat 16 input.bytes) := by
  have hroom : AKCSSMData.zero.Room plenty
      (aes.encrypt zeroKey (padTo UInt8.ofNat 16 input.bytes)).length := rfl
  obtain ⟨cipher, hcipher⟩ := AKCSSMData.exists_publish hroom
  obtain ⟨hlength, hbytes⟩ := AKCSSMData.of_publish hcipher
  refine ⟨cipher, (ready_callWith h).ok_iff.2
    ⟨_, cipher, translate_encrypt.2 ⟨rfl, rfl⟩, hcipher, by rw [hlength]⟩, ?_, hbytes⟩
  rw [hlength, aes.length_encrypt _ _ (dvd_length_padTo _ (by decide) _), length_padTo,
    AKCSSMData.length_bytes h]

/-- Two plain blocks and what AES makes of them under the key of zeros: `sixteen letters!`,
and the padding after it added to the first encrypted block. -/
def plainBlocks : List UInt8 × List UInt8 :=
  ([115, 105, 120, 116, 101, 101, 110, 32, 108, 101, 116, 116, 101, 114, 115, 33],
    [20, 41, 145, 153, 93, 9, 208, 6, 117, 241, 242, 19, 184, 79, 185, 251])

def encryptedBlocks : List UInt8 × List UInt8 :=
  ([4, 57, 129, 137, 77, 25, 192, 22, 101, 225, 226, 3, 168, 95, 169, 235],
    [130, 129, 59, 200, 236, 157, 46, 40, 175, 66, 217, 24, 171, 84, 89, 67])

theorem length_swap {x y : List UInt8} (h : x.length = y.length) (b : List UInt8) :
    (Equiv.swap x y b).length = b.length := by
  rw [Equiv.swap_apply_def]
  split_ifs with hx hy
  · rw [hx, h]
  · rw [hy, h]
  · rfl

/-- AES in CBC mode, as far as these two blocks show it. -/
def twoBlockAes : AesCbc :=
  .ofCipher
    (fun _ => (Equiv.swap plainBlocks.1 encryptedBlocks.1).trans
      (Equiv.swap plainBlocks.2 encryptedBlocks.2))
    fun _ b =>
      (length_swap (x := plainBlocks.2) (y := encryptedBlocks.2) rfl _).trans
        (length_swap (x := plainBlocks.1) (y := encryptedBlocks.1) rfl b)

def sixteenLetters : AKCSSMData := .ofBytes plainBlocks.1

/-- A whole block of text, and a second block that is all padding. -/
theorem roundTrip_sixteenLetters :
    ∃ cipher out : AKCSSMData, ∃ call call' : CryptCall,
      encryptData twoBlockAes oneContext plenty (callWith sixteenLetters) = (.ok, call) ∧
        call.output = some cipher ∧ cipher.bytes = encryptedBlocks.1 ++ encryptedBlocks.2 ∧
        decryptData twoBlockAes oneContext plenty (callWith cipher) = (.ok, call') ∧
          call'.output = some out ∧ out.bytes = plainBlocks.1 := by
  have hvalid : sixteenLetters.valid = true := by decide
  obtain ⟨cipher, hencrypt, -, hbytes⟩ := encryptData_callWith twoBlockAes hvalid
  have hsymmetric := (ready_callWith hvalid).symmetric
  obtain ⟨out, hdecrypt, -, hout⟩ := (roundTrip twoBlockAes).undoes _ _ _ _ zeroKey
    sixteenLetters cipher hencrypt hsymmetric rfl rfl oneContext plenty (callWith cipher) cipher
    (canTake_callWith cipher _) rfl rfl rfl (by decide)
  exact ⟨cipher, out, _, _, hencrypt, rfl, hbytes.trans (by decide), hdecrypt, rfl, hout⟩

/-! ## A text as long as the limit -/

theorem valid_longText : (AKCSSMData.ofBytes (List.replicate maxData 0)).valid = true :=
  AKCSSMData.valid_iff.2 ⟨(List.length_replicate).le, Or.inr rfl⟩

/-- No cipher decrypts every text that it encrypts: one as long as the limit is refused. -/
theorem not_all_decrypted : Nonempty AesCbc ∧ ∀ aes : AesCbc,
    ¬ ∀ s r call call' key plain cipher, encryptData aes s r call = (.ok, call') →
      s.Symmetric call.id key → call.input = some plain → call'.output = some cipher →
      ∀ s₂ r₂ call₂, CanTake s₂ r₂ call₂ key plain.length → call₂.input = some cipher →
        (decryptData aes s₂ r₂ call₂).1 = .ok := by
  refine ⟨⟨twoBlockAes⟩, fun aes h => ?_⟩
  obtain ⟨cipher, hencrypt, hlength, -⟩ := encryptData_callWith aes valid_longText
  have hlong : maxData < cipher.length := by
    have hpos := missing_pos (n := 16) (by decide)
      (AKCSSMData.ofBytes (List.replicate maxData 0)).bytes
    have hplain : (AKCSSMData.ofBytes (List.replicate maxData 0)).length = maxData :=
      List.length_replicate
    omega
  have htake := canTake_callWith cipher (AKCSSMData.ofBytes (List.replicate maxData 0)).length
  have hok := h _ _ _ _ zeroKey _ cipher hencrypt (ready_callWith valid_longText).symmetric rfl rfl
    _ _ _ htake rfl
  rw [decryptData_long htake rfl hlong] at hok
  cases hok

end LegacyCrypto

end Tolkara
