import Tolkara.Discovery.Wire

/-!
# RemoteXPC messages survive the wire

What the writer of `RemoteXPCWire` emits for a value, its reader takes back, whatever
stands before and after it and at the same count of nodes. The limits of the two sides
therefore agree, and a whole message decodes to itself. A dictionary has no order:
`Same` compares two values up to the order of the entries of their dictionaries.
-/

namespace Tolkara

namespace RemoteXPCValue

/-- The same value: a dictionary has no order. -/
inductive Same : RemoteXPCValue → RemoteXPCValue → Prop
  | refl (v : RemoteXPCValue) : Same v v
  | array {vs ws : List RemoteXPCValue} : List.Forall₂ Same vs ws → Same (.array vs) (.array ws)
  | dictionary {d e f : List (List UInt8 × RemoteXPCValue)} : e.Perm d →
      e.map Prod.fst = f.map Prod.fst → List.Forall₂ Same (e.map Prod.snd) (f.map Prod.snd) →
      Same (.dictionary d) (.dictionary f)

def Distinct (canonical : List UInt8 → List UInt8)
    (entries : List (List UInt8 × RemoteXPCValue)) : Prop :=
  entries.Pairwise fun a b => canonical a.1 ≠ canonical b.1

/-- A value of the source: its strings are UTF-8, and the keys of its dictionaries are
distinct. -/
inductive Valid (canonical : List UInt8 → List UInt8) : RemoteXPCValue → Prop
  | null : Valid canonical .null
  | bool (b : Bool) : Valid canonical (.bool b)
  | int (n : Int64) : Valid canonical (.int n)
  | uint (n : UInt64) : Valid canonical (.uint n)
  | double (n : UInt64) : Valid canonical (.double n)
  | date (n : UInt64) : Valid canonical (.date n)
  | data (d : List UInt8) : Valid canonical (.data d)
  | string {s : List UInt8} : isUTF8 s = true → Valid canonical (.string s)
  | uuid (d : List UInt8) : Valid canonical (.uuid d)
  | array {vs : List RemoteXPCValue} : (∀ v ∈ vs, Valid canonical v) →
      Valid canonical (.array vs)
  | dictionary {d : List (List UInt8 × RemoteXPCValue)} : Distinct canonical d →
      (∀ e ∈ d, isUTF8 e.1 = true) → (∀ e ∈ d, Valid canonical e.2) →
      Valid canonical (.dictionary d)

end RemoteXPCValue

def RemoteXPCMessage.Same (m m' : RemoteXPCMessage) : Prop :=
  m.flags = m'.flags ∧ m.identifier = m'.identifier ∧
    Option.Rel RemoteXPCValue.Same m.value m'.value

/-- A message of the source: `UInt32` flags, a `UInt64` identifier and a value. -/
structure RemoteXPCMessage.Valid (canonical : List UInt8 → List UInt8) (m : RemoteXPCMessage) :
    Prop where
  flags : m.flags < 2 ^ 32
  identifier : m.identifier < 2 ^ 64
  value : ∀ v, m.value = some v → v.Valid canonical

namespace RemoteXPCWire

open RemoteXPCValue

def numberBytes (n count : ℕ) : List UInt8 :=
  (List.range count).map fun i => UInt8.ofNat (n / 256 ^ i % 256)

@[simp] theorem length_numberBytes (n count : ℕ) : (numberBytes n count).length = count := by
  simp [numberBytes]

theorem numberBytes_succ (n count : ℕ) :
    numberBytes n (count + 1) = UInt8.ofNat (n % 256) :: numberBytes (n / 256) count := by
  simp only [numberBytes, List.range_succ_eq_map, List.map_cons, List.map_map, Nat.pow_zero,
    Nat.div_one]
  congr 1
  apply List.map_congr_left
  intro i _
  simp only [Function.comp, Nat.succ_eq_add_one, pow_succ', Nat.div_div_eq_div_mul]

theorem littleEndian_numberBytes {n count : ℕ} (h : n < 256 ^ count) :
    littleEndian (numberBytes n count) = n := by
  induction count generalizing n with
  | zero =>
      simp only [pow_zero, Nat.lt_one_iff] at h
      simp [numberBytes, littleEndian, h]
  | succ count ih =>
      have hrest : n / 256 < 256 ^ count := by
        rw [pow_succ] at h
        exact Nat.div_lt_of_lt_mul (by rwa [Nat.mul_comm] at h)
      rw [numberBytes_succ, littleEndian, ih hrest]
      have hbyte : (UInt8.ofNat (n % 256)).toNat = n % 256 := by simp
      rw [hbyte, Nat.mod_add_div]

namespace Writer

/-- What a step of the writer does: it appends bytes within the limit. -/
structure Appends (w w' : Writer) (e : List UInt8) : Prop where
  bytes : w'.bytes = w.bytes ++ e
  size : w'.bytes.length ≤ maximumPayload

theorem add_ok {w w' : Writer} {b : List UInt8} (hw : w.bytes.length ≤ maximumPayload)
    (h : w.add b = .ok w') : Appends w w' b ∧ w'.nodes = w.nodes := by
  unfold add at h
  split at h
  · rename_i hfits
    cases h
    refine ⟨⟨rfl, ?_⟩, rfl⟩
    simp only [List.length_append]
    omega
  · cases h

theorem number_ok {w w' : Writer} {n count : ℕ} (hw : w.bytes.length ≤ maximumPayload)
    (h : w.number n count = .ok w') : Appends w w' (numberBytes n count) ∧ w'.nodes = w.nodes :=
  add_ok hw h

theorem Appends.trans {w w' w'' : Writer} {e e' : List UInt8} (h : Appends w w' e)
    (h' : Appends w' w'' e') : Appends w w'' (e ++ e') :=
  ⟨by rw [h'.bytes, h.bytes, List.append_assoc], h'.size⟩

/-- The bytes after a text that fill a word. -/
def pad (length : ℕ) : List UInt8 := List.replicate ((4 - length % 4) % 4) 0

theorem text_ok {w w' : Writer} {s : List UInt8} {prefixed : Bool}
    (hw : w.bytes.length ≤ maximumPayload) (h : w.text s prefixed = .ok w') :
    (0 : UInt8) ∉ s ∧ s.length < maximumPayload ∧ w'.nodes = w.nodes ∧
      Appends w w' ((if prefixed then numberBytes (s.length + 1) 4 else []) ++
        ((s ++ [0]) ++ pad (s.length + 1))) := by
  unfold text at h
  simp only [bind, Except.bind, pure, Except.pure, throw, throwThe, MonadExceptOf.throw] at h
  split at h
  · cases h
  · rename_i hok
    simp only [List.contains_eq_mem, decide_eq_true_eq, not_or, not_le] at hok
    cases prefixed with
    | true =>
        simp only [if_true] at h
        split at h
        · cases h
        · rename_i w₁ h₁
          split at h
          · cases h
          · rename_i w₂ h₂
            obtain ⟨a₁, n₁⟩ := number_ok hw h₁
            obtain ⟨a₂, n₂⟩ := add_ok a₁.size h₂
            obtain ⟨a₃, n₃⟩ := add_ok a₂.size h
            refine ⟨hok.1, hok.2, by rw [n₃, n₂, n₁], ?_⟩
            simpa [pad] using a₁.trans (a₂.trans a₃)
    | false =>
        simp only [Bool.false_eq_true, if_false] at h
        split at h
        · cases h
        · rename_i w₂ h₂
          obtain ⟨a₂, n₂⟩ := add_ok hw h₂
          obtain ⟨a₃, n₃⟩ := add_ok a₂.size h
          refine ⟨hok.1, hok.2, by rw [n₃, n₂], ?_⟩
          simpa [pad] using a₂.trans a₃

/-- The length of a collection is written over its place. -/
theorem patchLength_bytes {w : Writer} {before zeros rest : List UInt8}
    (h : w.bytes = before ++ (zeros ++ rest)) (hzeros : zeros.length = 4) :
    (w.patchLength before.length).bytes = before ++ (numberBytes rest.length 4 ++ rest) := by
  have hcount : w.bytes.length - before.length - 4 = rest.length := by
    simp only [h, List.length_append, hzeros]
    omega
  have hdrop : w.bytes.drop (before.length + 4) = rest := by
    rw [h, ← List.append_assoc, List.drop_left' (by simp [hzeros])]
  simp only [patchLength, hcount, hdrop]
  rw [h, List.take_left' rfl, List.append_assoc]
  rfl

end Writer

namespace Reader

def advance (r : Reader) (n : ℕ) : Reader := { r with position := r.position + n }

@[simp] theorem advance_position (r : Reader) (n : ℕ) :
    (r.advance n).position = r.position + n := rfl

@[simp] theorem advance_nodes (r : Reader) (n : ℕ) : (r.advance n).nodes = r.nodes := rfl

@[simp] theorem advance_bytes (r : Reader) (n : ℕ) : (r.advance n).bytes = r.bytes := rfl

@[simp] theorem advance_advance (r : Reader) (n m : ℕ) :
    (r.advance n).advance m = r.advance (n + m) := by
  simp [advance, Nat.add_assoc]

/-- The bytes `e` stand at the place of the reader, with `rest` after them. -/
def Ahead (r : Reader) (e rest : List UInt8) : Prop := r.bytes.drop r.position = e ++ rest

theorem Ahead.advance {r : Reader} {e rest : List UInt8} (h : r.Ahead e rest) {rest' : List UInt8}
    {e' : List UInt8} (hrest : rest = e' ++ rest') : (r.advance e.length).Ahead e' rest' := by
  rw [Ahead, advance_bytes, advance_position, ← List.drop_drop, h, List.drop_left' rfl, hrest]

theorem take_ahead {r : Reader} {e rest : List UInt8} (h : r.Ahead e rest) {limit : ℕ}
    (hlimit : r.position + e.length ≤ limit) :
    r.take e.length limit = .ok (e, r.advance e.length) := by
  rw [take, if_pos ⟨by omega, by omega⟩, h, List.take_left' rfl]
  rfl

theorem number_ahead {r : Reader} {n count : ℕ} {rest : List UInt8}
    (h : r.Ahead (numberBytes n count) rest) (hn : n < 256 ^ count) {limit : ℕ}
    (hlimit : r.position + count ≤ limit) : r.number count limit = .ok (n, r.advance count) := by
  have htake : r.take (numberBytes n count).length limit =
      .ok (numberBytes n count, r.advance (numberBytes n count).length) :=
    take_ahead h (by simpa using hlimit)
  rw [length_numberBytes] at htake
  rw [number, htake]
  simp [bind, Except.bind, pure, Except.pure, littleEndian_numberBytes hn]

theorem padding_ahead {r : Reader} {length : ℕ} {rest : List UInt8}
    (h : r.Ahead (Writer.pad length) rest) {limit : ℕ}
    (hlimit : r.position + (Writer.pad length).length ≤ limit) :
    r.padding length limit = .ok (r.advance (Writer.pad length).length) := by
  have htake := take_ahead h hlimit
  have hlength : (Writer.pad length).length = (4 - length % 4) % 4 := by simp [Writer.pad]
  have hzero : ((Writer.pad length).all fun b => b == 0) = true := by simp [Writer.pad]
  rw [hlength] at htake
  rw [padding, htake, hlength]
  simp [bind, Except.bind, pure, Except.pure, hzero]

theorem text_ok {s : List UInt8} (hzero : (0 : UInt8) ∉ s) (hs : isUTF8 s = true) :
    text (s ++ [0]) = .ok s := by
  rw [text, if_pos]
  · simp
  · refine ⟨by simp, ?_, ?_⟩
    · simpa using hzero
    · simpa using hs

theorem keyLength_ahead {s rest : List UInt8} (hzero : (0 : UInt8) ∉ s) {space : ℕ}
    (h : s.length < space) : keyLength (s ++ 0 :: rest) space = some s.length := by
  induction s generalizing space with
  | nil =>
      cases space with
      | zero => exact absurd h (Nat.not_lt_zero _)
      | succ space => simp [keyLength]
  | cons b s ih =>
      cases space with
      | zero => exact absurd h (Nat.not_lt_zero _)
      | succ space =>
          have hb : b ≠ 0 := fun hb => hzero (by simp [hb])
          have hs : (0 : UInt8) ∉ s := fun hs => hzero (List.mem_cons_of_mem _ hs)
          rw [List.cons_append, keyLength, if_neg hb, ih hs (by simpa using h)]
          rfl

theorem key_ahead {r : Reader} {s rest : List UInt8} (hzero : (0 : UInt8) ∉ s)
    (hs : isUTF8 s = true) (h : r.Ahead ((s ++ [0]) ++ Writer.pad (s.length + 1)) rest)
    {limit : ℕ}
    (hlimit : r.position + ((s ++ [0]) ++ Writer.pad (s.length + 1)).length ≤ limit) :
    r.key limit = .ok (s, r.advance ((s ++ [0]) ++ Writer.pad (s.length + 1)).length) := by
  simp only [List.length_append, List.length_singleton] at hlimit
  have hfirst : r.Ahead (s ++ [0]) (Writer.pad (s.length + 1) ++ rest) := by
    rw [Ahead, h, List.append_assoc]
  have hlength : keyLength (r.bytes.drop r.position) (limit - r.position) = some s.length := by
    rw [hfirst, List.append_assoc]
    exact keyLength_ahead hzero (by omega)
  have htext : text ((r.bytes.drop r.position).take (s.length + 1)) = .ok s := by
    rw [hfirst, List.take_left' (by simp)]
    exact text_ok hzero hs
  have hplace : r.advance (s ++ [0]).length =
      { r with position := r.position + (s.length + 1) } := by
    simp [advance]
  have hpad : (r.advance (s ++ [0]).length).padding (s.length + 1) limit =
      .ok ((r.advance (s ++ [0]).length).advance (Writer.pad (s.length + 1)).length) := by
    refine padding_ahead (hfirst.advance rfl) ?_
    simp only [advance_position, List.length_append, List.length_singleton]
    omega
  rw [hplace] at hpad
  rw [key, hlength]
  simp only [htext, hpad, bind, Except.bind, pure, Except.pure]
  simp [advance, Nat.add_assoc, Nat.add_comm 1]

end Reader

/-- What was written for `v`, from one count of nodes to another, is read back. -/
def Reads (read : Reader → ℕ → Except PairingError (RemoteXPCValue × Reader)) (e : List UInt8)
    (v : RemoteXPCValue) (nodes nodes' : ℕ) : Prop :=
  ∃ v', Same v v' ∧ ∀ r rest limit, r.nodes = nodes → r.Ahead e rest →
    r.position + e.length ≤ limit →
    read r limit = .ok (v', { r.advance e.length with nodes := nodes' })

def Writer.body (canonical : List UInt8 → List UInt8) (depths : ℕ) (w : Writer) :
    RemoteXPCValue → Except PairingError Writer
  | .null => .ok w
  | .bool b => w.number (if b then 1 else 0) 4
  | .int n => w.number n.toUInt64.toNat 8
  | .uint n | .date n | .double n => w.number n.toNat 8
  | .uuid d => if d.length = 16 then w.add d else .error .malformed
  | .data d =>
    if maximumPayload < d.length then .error .oversized
    else do
      let w ← w.number d.length 4
      let w ← w.add d
      w.add (Writer.pad d.length)
  | .string s => w.text s true
  | .array values =>
    if maximumNodes - w.nodes < values.length then .error .oversized
    else do
      let w₁ ← w.number 0 4
      let w₂ ← w₁.number values.length 4
      let w₃ ← values.foldlM (Writer.object canonical depths) w₂
      return w₃.patchLength w.bytes.length
  | .dictionary values =>
    if maximumNodes - w.nodes < values.length then .error .oversized
    else do
      let w₁ ← w.number 0 4
      let w₂ ← w₁.number values.length 4
      let w₃ ← (values.insertionSort fun a b => canonical a.1 ≤ canonical b.1).foldlM
        (fun w entry => do
          let w ← w.text entry.1 false
          Writer.object canonical depths w entry.2) w₂
      return w₃.patchLength w.bytes.length

/-- A value that is written: its kind, and what follows. -/
theorem Writer.object_ok {canonical : List UInt8 → List UInt8} {depths : ℕ} {w w' : Writer}
    {v : RemoteXPCValue} (h : Writer.object canonical (depths + 1) w v = .ok w') :
    w.nodes + 1 ≤ maximumNodes ∧ ∃ w₁,
      Writer.number { w with nodes := w.nodes + 1 } (Writer.kind v) 4 = .ok w₁ ∧
        Writer.body canonical depths w₁ v = .ok w' := by
  rw [Writer.object] at h
  dsimp only at h
  by_cases hnodes : maximumNodes < w.nodes + 1
  · rw [if_pos hnodes] at h
    cases h
  · rw [if_neg hnodes] at h
    refine ⟨not_lt.mp hnodes, ?_⟩
    obtain ⟨w₁, h₁, h₂⟩ := Chunking.ok_of_bind h
    refine ⟨w₁, h₁, ?_⟩
    cases v with
    | data d =>
        dsimp only at h₂
        rw [Writer.body]
        split
        · rename_i hlong
          rw [if_pos hlong] at h₂
          cases h₂
        · rename_i hlong
          rw [if_neg hlong] at h₂
          exact h₂
    | array values =>
        dsimp only at h₂
        rw [Writer.body]
        split
        · rename_i hlong
          rw [if_pos hlong] at h₂
          cases h₂
        · rename_i hlong
          rw [if_neg hlong] at h₂
          exact h₂
    | dictionary values =>
        dsimp only at h₂
        rw [Writer.body]
        split
        · rename_i hlong
          rw [if_pos hlong] at h₂
          cases h₂
        · rename_i hlong
          rw [if_neg hlong] at h₂
          exact h₂
    | _ => exact h₂

def Reader.body (canonical : List UInt8 → List UInt8) (depths kind : ℕ) (r : Reader)
    (limit : ℕ) : Except PairingError (RemoteXPCValue × Reader) := do
  if kind = 0x1000 then return (.null, r)
  else if kind = 0x2000 then
    let (n, r) ← r.number 4 limit
    if n ≤ 1 then return (.bool (n == 1), r) else throw .malformed
  else if kind = 0x3000 then
    let (n, r) ← r.number 8 limit
    return (.int (UInt64.ofNat n).toInt64, r)
  else if kind = 0x4000 then
    let (n, r) ← r.number 8 limit
    return (.uint (UInt64.ofNat n), r)
  else if kind = 0x5000 then
    let (n, r) ← r.number 8 limit
    return (.double (UInt64.ofNat n), r)
  else if kind = 0x7000 then
    let (n, r) ← r.number 8 limit
    return (.date (UInt64.ofNat n), r)
  else if kind = 0x8000 ∨ kind = 0x9000 then
    let (length, r) ← r.number 4 limit
    let (b, r) ← r.take length limit
    let r ← r.padding length limit
    if kind = 0x8000 then return (.data b, r)
    else
      let s ← Reader.text b
      return (.string s, r)
  else if kind = 0xa000 then
    let (d, r) ← r.take 16 limit
    return (.uuid d, r)
  else if kind = 0xe000 ∨ kind = 0xf000 then
    let (length, r) ← r.number 4 limit
    if length < 4 ∨ limit - r.position < length then throw .malformed
    let inner := r.position + length
    let (count, r) ← r.number 4 inner
    if maximumNodes - r.nodes < count then throw .oversized
    if kind = 0xf000 then
      let (read, r) ← Reader.entries canonical (Reader.object canonical depths) inner count r []
      if r.position = inner then return (.dictionary read, r) else throw .malformed
    else
      let (read, r) ← Reader.elements (Reader.object canonical depths) inner count r []
      if r.position = inner then return (.array read, r) else throw .malformed
  else throw .malformed

section Object

variable {canonical : List UInt8 → List UInt8} {depths : ℕ}

/-- The reader at a value: its node is counted and its kind is read. -/
structure Opened (k : ℕ) (p : List UInt8) (r : Reader) (rest : List UInt8) (limit : ℕ)
    (r₁ : Reader) : Prop where
  nodes : ¬ maximumNodes < r.nodes + 1
  kind : Reader.number { r with nodes := r.nodes + 1 } 4 limit = .ok (k, r₁)
  next : r₁ = { r.advance 4 with nodes := r.nodes + 1 }
  ahead : r₁.Ahead p rest
  fits : r₁.position + p.length ≤ limit

theorem Opened.object {k : ℕ} {p rest : List UInt8} {r r₁ : Reader} {limit : ℕ}
    (ho : Opened k p r rest limit r₁) :
    Reader.object canonical (depths + 1) r limit = Reader.body canonical depths k r₁ limit := by
  rw [Reader.object]
  dsimp only
  rw [if_neg ho.nodes, ho.kind]
  rfl

theorem opened {k nodes : ℕ} {p : List UInt8} (hk : k < 256 ^ 4) (hnodes : nodes + 1 ≤ maximumNodes)
    {r : Reader} {rest : List UInt8} {limit : ℕ} (hr : r.nodes = nodes)
    (h : r.Ahead (numberBytes k 4 ++ p) rest)
    (hlimit : r.position + (numberBytes k 4 ++ p).length ≤ limit) :
    Opened k p r rest limit { r.advance 4 with nodes := r.nodes + 1 } := by
  have hfirst : Reader.Ahead { r with nodes := r.nodes + 1 } (numberBytes k 4) (p ++ rest) := by
    rw [Reader.Ahead, ← List.append_assoc]
    exact h
  have hnext := hfirst.advance rfl
  rw [length_numberBytes] at hnext
  simp only [List.length_append, length_numberBytes] at hlimit
  refine ⟨by omega, Reader.number_ahead hfirst hk ?_, rfl, hnext, ?_⟩
  · dsimp only
    omega
  · simp only [Reader.advance_position]
    omega

theorem kind_lt (v : RemoteXPCValue) : Writer.kind v < 256 ^ 4 := by
  cases v <;> simp [Writer.kind]

/-- A value whose bytes after the kind are read by themselves. -/
theorem reads_of_body {v v' : RemoteXPCValue} {p : List UInt8} {nodes nodes' : ℕ}
    (hnodes : nodes + 1 ≤ maximumNodes) (hsame : Same v v')
    (hbody : ∀ r rest limit r₁, r.nodes = nodes → Opened (Writer.kind v) p r rest limit r₁ →
      Reader.body canonical depths (Writer.kind v) r₁ limit =
        .ok (v', { r₁.advance p.length with nodes := nodes' })) :
    Reads (Reader.object canonical (depths + 1)) (numberBytes (Writer.kind v) 4 ++ p) v nodes
      nodes' := by
  refine ⟨v', hsame, fun r rest limit hr hahead hlimit => ?_⟩
  have ho := opened (kind_lt v) hnodes hr hahead hlimit
  rw [ho.object, hbody r rest limit _ hr ho]
  simp [Reader.advance, Nat.add_assoc]

theorem reads_number {v v' : RemoteXPCValue} {n count nodes : ℕ}
    (hnodes : nodes + 1 ≤ maximumNodes) (hsame : Same v v') (hn : n < 256 ^ count)
    (hbody : ∀ r₁ limit, Reader.number r₁ count limit = .ok (n, r₁.advance count) →
      Reader.body canonical depths (Writer.kind v) r₁ limit = .ok (v', r₁.advance count)) :
    Reads (Reader.object canonical (depths + 1))
      (numberBytes (Writer.kind v) 4 ++ numberBytes n count) v nodes (nodes + 1) := by
  refine reads_of_body hnodes hsame fun r rest limit r₁ hr ho => ?_
  have hfits := ho.fits
  rw [length_numberBytes] at hfits
  rw [hbody r₁ limit (Reader.number_ahead ho.ahead hn hfits), ho.next, hr]
  simp [Reader.advance]

theorem reads_null {nodes : ℕ} (hnodes : nodes + 1 ≤ maximumNodes) :
    Reads (Reader.object canonical (depths + 1)) (numberBytes (Writer.kind .null) 4 ++ []) .null
      nodes (nodes + 1) := by
  refine reads_of_body hnodes (.refl _) fun r rest limit r₁ hr ho => ?_
  simp only [Reader.body, Writer.kind, bind, Except.bind, pure,
    Except.pure, if_true]
  simp [ho.next, hr, Reader.advance]

theorem reads_bool {nodes : ℕ} (b : Bool) (hnodes : nodes + 1 ≤ maximumNodes) :
    Reads (Reader.object canonical (depths + 1))
      (numberBytes (Writer.kind (.bool b)) 4 ++ numberBytes (if b then 1 else 0) 4) (.bool b)
      nodes (nodes + 1) := by
  refine reads_number hnodes (.refl _) (by cases b <;> simp) fun r₁ limit hn => ?_
  simp only [Reader.body, Writer.kind, hn, bind, Except.bind, pure,
    Except.pure]
  cases b <;> simp

theorem reads_int {nodes : ℕ} (n : Int64) (hnodes : nodes + 1 ≤ maximumNodes) :
    Reads (Reader.object canonical (depths + 1))
      (numberBytes (Writer.kind (.int n)) 4 ++ numberBytes n.toUInt64.toNat 8) (.int n)
      nodes (nodes + 1) := by
  refine reads_number hnodes (.refl _) (UInt64.toNat_lt _) fun r₁ limit hn => ?_
  simp only [Reader.body, Writer.kind, hn, bind, Except.bind, pure,
    Except.pure]
  simp

theorem reads_uint {nodes : ℕ} (n : UInt64) (hnodes : nodes + 1 ≤ maximumNodes) :
    Reads (Reader.object canonical (depths + 1))
      (numberBytes (Writer.kind (.uint n)) 4 ++ numberBytes n.toNat 8) (.uint n)
      nodes (nodes + 1) := by
  refine reads_number hnodes (.refl _) (UInt64.toNat_lt _) fun r₁ limit hn => ?_
  simp only [Reader.body, Writer.kind, hn, bind, Except.bind, pure,
    Except.pure]
  simp

theorem reads_double {nodes : ℕ} (n : UInt64) (hnodes : nodes + 1 ≤ maximumNodes) :
    Reads (Reader.object canonical (depths + 1))
      (numberBytes (Writer.kind (.double n)) 4 ++ numberBytes n.toNat 8) (.double n)
      nodes (nodes + 1) := by
  refine reads_number hnodes (.refl _) (UInt64.toNat_lt _) fun r₁ limit hn => ?_
  simp only [Reader.body, Writer.kind, hn, bind, Except.bind, pure,
    Except.pure]
  simp

theorem reads_date {nodes : ℕ} (n : UInt64) (hnodes : nodes + 1 ≤ maximumNodes) :
    Reads (Reader.object canonical (depths + 1))
      (numberBytes (Writer.kind (.date n)) 4 ++ numberBytes n.toNat 8) (.date n)
      nodes (nodes + 1) := by
  refine reads_number hnodes (.refl _) (UInt64.toNat_lt _) fun r₁ limit hn => ?_
  simp only [Reader.body, Writer.kind, hn, bind, Except.bind, pure,
    Except.pure]
  simp

theorem reads_uuid {nodes : ℕ} {d : List UInt8} (hd : d.length = 16)
    (hnodes : nodes + 1 ≤ maximumNodes) :
    Reads (Reader.object canonical (depths + 1)) (numberBytes (Writer.kind (.uuid d)) 4 ++ d)
      (.uuid d) nodes (nodes + 1) := by
  refine reads_of_body hnodes (.refl _) fun r rest limit r₁ hr ho => ?_
  have htake := Reader.take_ahead ho.ahead ho.fits
  rw [hd] at htake
  simp only [Reader.body, Writer.kind, htake, bind, Except.bind, pure,
    Except.pure]
  simp [ho.next, hr, hd, Reader.advance]

theorem blob_ahead {d rest : List UInt8} (hd : d.length < 256 ^ 4) {r : Reader} {limit : ℕ}
    (h : r.Ahead (numberBytes d.length 4 ++ (d ++ Writer.pad d.length)) rest)
    (hfits : r.position + (numberBytes d.length 4 ++ (d ++ Writer.pad d.length)).length ≤ limit) :
    r.number 4 limit = .ok (d.length, r.advance 4) ∧
      (r.advance 4).take d.length limit = .ok (d, r.advance (4 + d.length)) ∧
      (r.advance (4 + d.length)).padding d.length limit =
        .ok (r.advance (4 + d.length + (Writer.pad d.length).length)) := by
  simp only [List.length_append, length_numberBytes] at hfits
  have hlength : r.Ahead (numberBytes d.length 4) (d ++ (Writer.pad d.length ++ rest)) := by
    rw [Reader.Ahead, h]
    simp
  have hdata := hlength.advance rfl
  rw [length_numberBytes] at hdata
  have hpad := hdata.advance rfl
  rw [Reader.advance_advance] at hpad
  refine ⟨Reader.number_ahead hlength hd (by omega), ?_, ?_⟩
  · rw [Reader.take_ahead hdata (by simp; omega), Reader.advance_advance]
  · rw [Reader.padding_ahead hpad (by simp; omega), Reader.advance_advance]

theorem reads_data {nodes : ℕ} {d : List UInt8} (hd : d.length < 256 ^ 4)
    (hnodes : nodes + 1 ≤ maximumNodes) :
    Reads (Reader.object canonical (depths + 1))
      (numberBytes (Writer.kind (.data d)) 4 ++
        (numberBytes d.length 4 ++ (d ++ Writer.pad d.length))) (.data d) nodes (nodes + 1) := by
  refine reads_of_body hnodes (.refl _) fun r rest limit r₁ hr ho => ?_
  obtain ⟨hlength, hdata, hpad⟩ := blob_ahead hd ho.ahead ho.fits
  simp only [Reader.body, Writer.kind, hlength, hdata, hpad, bind,
    Except.bind, pure, Except.pure]
  simp [ho.next, hr, Reader.advance, Nat.add_assoc]

theorem reads_string {nodes : ℕ} {s : List UInt8} (hzero : (0 : UInt8) ∉ s)
    (hs : isUTF8 s = true) (hd : s.length + 1 < 256 ^ 4) (hnodes : nodes + 1 ≤ maximumNodes) :
    Reads (Reader.object canonical (depths + 1))
      (numberBytes (Writer.kind (.string s)) 4 ++
        (numberBytes (s.length + 1) 4 ++ ((s ++ [0]) ++ Writer.pad (s.length + 1)))) (.string s)
      nodes (nodes + 1) := by
  refine reads_of_body hnodes (.refl _) fun r rest limit r₁ hr ho => ?_
  have hlen : (s ++ [0]).length = s.length + 1 := by simp
  have hahead := ho.ahead
  have hfits := ho.fits
  rw [← hlen] at hahead hfits hd
  obtain ⟨hlength, hdata, hpad⟩ := blob_ahead hd hahead hfits
  have htext := Reader.text_ok hzero hs
  simp only [Reader.body, Writer.kind, hlength, hdata, hpad, htext, bind,
    Except.bind, pure, Except.pure]
  simp [ho.next, hr, Reader.advance]
  omega

theorem elements_read {values : List RemoteXPCValue} {w w' : Writer}
    (hread : ∀ v ∈ values, ∀ w w', w.bytes.length ≤ maximumPayload →
      Writer.object canonical depths w v = .ok w' →
      ∃ e, Writer.Appends w w' e ∧ Reads (Reader.object canonical depths) e v w.nodes w'.nodes)
    (hw : w.bytes.length ≤ maximumPayload)
    (h : values.foldlM (Writer.object canonical depths) w = .ok w') :
    ∃ e vs, Writer.Appends w w' e ∧ List.Forall₂ Same values vs ∧
      ∀ r rest limit array, r.nodes = w.nodes → r.Ahead e rest → r.position + e.length ≤ limit →
        Reader.elements (Reader.object canonical depths) limit values.length r array =
          .ok (array ++ vs, { r.advance e.length with nodes := w'.nodes }) := by
  induction values generalizing w with
  | nil =>
      cases h
      refine ⟨[], [], ⟨by simp, hw⟩, .nil, fun r rest limit array hr _ _ => ?_⟩
      simp [Reader.elements, Reader.advance, ← hr]
  | cons v values ih =>
      rw [List.foldlM_cons] at h
      obtain ⟨w₁, h₁, h₂⟩ := Chunking.ok_of_bind h
      obtain ⟨e₁, a₁, v', hsame, hv⟩ := hread v List.mem_cons_self w w₁ hw h₁
      obtain ⟨e₂, vs, a₂, hsames, hvs⟩ :=
        ih (fun u hu => hread u (List.mem_cons_of_mem _ hu)) a₁.size h₂
      refine ⟨e₁ ++ e₂, v' :: vs, a₁.trans a₂, .cons hsame hsames,
        fun r rest limit array hr hahead hlimit => ?_⟩
      have hfirst : r.Ahead e₁ (e₂ ++ rest) := by
        rw [Reader.Ahead, hahead, List.append_assoc]
      have hsecond : Reader.Ahead { r.advance e₁.length with nodes := w₁.nodes } e₂ rest :=
        hfirst.advance rfl
      rw [List.length_append] at hlimit
      have hone := hv r (e₂ ++ rest) limit hr hfirst (by omega)
      have hmore := hvs _ rest limit (array ++ [v']) rfl hsecond (by simp; omega)
      simp only [List.length_cons, Reader.elements, hone, hmore, bind, Except.bind]
      simp [Reader.advance, Nat.add_assoc]

/-- A key stands in no entry read so far. -/
theorem valueOf_eq_none {k : List UInt8} {entries : List (List UInt8 × RemoteXPCValue)}
    (h : ∀ e ∈ entries, canonical e.1 ≠ canonical k) : valueOf canonical k entries = none := by
  induction entries with
  | nil => rfl
  | cons e entries ih =>
      rw [valueOf, if_neg (h e List.mem_cons_self)]
      exact ih fun e' he' => h e' (List.mem_cons_of_mem _ he')

/-- The entries of a dictionary are read back in the order they were written. -/
theorem entries_read {values : List (List UInt8 × RemoteXPCValue)} {w w' : Writer}
    (hread : ∀ e ∈ values, ∀ w w', w.bytes.length ≤ maximumPayload →
      Writer.object canonical depths w e.2 = .ok w' → ∃ b, Writer.Appends w w' b ∧
        Reads (Reader.object canonical depths) b e.2 w.nodes w'.nodes)
    (hutf8 : ∀ e ∈ values, isUTF8 e.1 = true) (hdistinct : Distinct canonical values)
    (hw : w.bytes.length ≤ maximumPayload)
    (h : values.foldlM (fun w entry => do
      let w ← w.text entry.1 false
      Writer.object canonical depths w entry.2) w = .ok w') :
    ∃ b vs, Writer.Appends w w' b ∧ values.map Prod.fst = vs.map Prod.fst ∧
      List.Forall₂ Same (values.map Prod.snd) (vs.map Prod.snd) ∧
      ∀ r rest limit dictionary, r.nodes = w.nodes → r.Ahead b rest →
        r.position + b.length ≤ limit →
        (∀ e ∈ dictionary, ∀ e' ∈ values, canonical e.1 ≠ canonical e'.1) →
        Reader.entries canonical (Reader.object canonical depths) limit values.length r
            dictionary =
          .ok (dictionary ++ vs, { r.advance b.length with nodes := w'.nodes }) := by
  induction values generalizing w with
  | nil =>
      cases h
      refine ⟨[], [], ⟨by simp, hw⟩, rfl, .nil, fun r rest limit dictionary hr _ _ _ => ?_⟩
      simp [Reader.entries, Reader.advance, ← hr]
  | cons entry values ih =>
      obtain ⟨k, v⟩ := entry
      obtain ⟨hfirstKey, hrestKeys⟩ := List.pairwise_cons.mp hdistinct
      rw [List.foldlM_cons] at h
      obtain ⟨w₂, h₂, h₃⟩ := Chunking.ok_of_bind h
      obtain ⟨w₁, h₀, h₁⟩ := Chunking.ok_of_bind h₂
      obtain ⟨hzero, -, hnodes, a₀⟩ := Writer.text_ok hw h₀
      simp only [Bool.false_eq_true, if_false, List.nil_append] at a₀
      obtain ⟨b₁, a₁, v', hsame, hv⟩ := hread (k, v) List.mem_cons_self w₁ w₂ a₀.size h₁
      obtain ⟨b₂, vs, a₂, hkeys, hsames, hvs⟩ :=
        ih (fun u hu => hread u (List.mem_cons_of_mem _ hu))
          (fun u hu => hutf8 u (List.mem_cons_of_mem _ hu)) hrestKeys a₁.size h₃
      refine ⟨_, (k, v') :: vs, a₀.trans (a₁.trans a₂), by simp [hkeys], .cons hsame hsames,
        fun r rest limit dictionary hr hahead hlimit hnew => ?_⟩
      simp only [List.length_append] at hlimit
      have hkey : r.Ahead ((k ++ [0]) ++ Writer.pad (k.length + 1)) (b₁ ++ (b₂ ++ rest)) := by
        rw [Reader.Ahead, hahead]
        simp
      have hkeyRead := Reader.key_ahead hzero (hutf8 _ List.mem_cons_self) hkey
        (by simp only [List.length_append]; omega : _ ≤ limit)
      have hvalue := hkey.advance rfl
      have hone := hv _ (b₂ ++ rest) limit (by simp [hr, hnodes]) hvalue
        (by simp only [Reader.advance_position, List.length_append]; omega)
      have hlater : Reader.Ahead
          { (r.advance ((k ++ [0]) ++ Writer.pad (k.length + 1)).length).advance b₁.length with
            nodes := w₂.nodes } b₂ rest := hvalue.advance rfl
      have hmore := hvs _ rest limit (dictionary ++ [(k, v')]) rfl hlater
        (by simp only [Reader.advance_position, List.length_append]; omega)
        (by
          intro e he e' he'
          rcases List.mem_append.mp he with hold | hlast
          · exact hnew e hold e' (List.mem_cons_of_mem _ he')
          · rw [List.mem_singleton.mp hlast]
            exact hfirstKey e' he')
      have hnone : valueOf canonical k dictionary = none :=
        valueOf_eq_none fun e he => hnew e he (k, v) List.mem_cons_self
      simp only [List.length_cons, Reader.entries, hkeyRead, hnone, Option.isSome_none, hone,
        hmore, bind, Except.bind, Bool.false_eq_true, if_false]
      simp [Reader.advance]
      omega

/-- What follows the kind of a collection: its length, its count and its items. -/
def collection (count : ℕ) (items : List UInt8) : List UInt8 :=
  numberBytes (items.length + 4) 4 ++ (numberBytes count 4 ++ items)

theorem collection_written {w w₁ w₂ w₃ : Writer} {count : ℕ} {items : List UInt8}
    (hw : w.bytes.length ≤ maximumPayload) (h₁ : w.number 0 4 = .ok w₁)
    (h₂ : w₁.number count 4 = .ok w₂) (h₃ : Writer.Appends w₂ w₃ items) :
    Writer.Appends w (w₃.patchLength w.bytes.length) (collection count items) ∧
      (w₃.patchLength w.bytes.length).nodes = w₃.nodes ∧ w₂.nodes = w.nodes ∧
      items.length + 4 < 256 ^ 4 := by
  obtain ⟨a₁, n₁⟩ := Writer.number_ok hw h₁
  obtain ⟨a₂, n₂⟩ := Writer.number_ok a₁.size h₂
  have hbytes : w₃.bytes = w.bytes ++ (numberBytes 0 4 ++ (numberBytes count 4 ++ items)) := by
    rw [h₃.bytes, a₂.bytes, a₁.bytes]
    simp
  have hpatched := Writer.patchLength_bytes hbytes (length_numberBytes 0 4)
  have hlength : (numberBytes count 4 ++ items).length = items.length + 4 := by
    simp [Nat.add_comm]
  have hsize := h₃.size
  have htotal : w₃.bytes.length = w.bytes.length + (8 + items.length) := by
    rw [hbytes]
    simp only [List.length_append, length_numberBytes]
    omega
  rw [hlength] at hpatched
  refine ⟨⟨hpatched, ?_⟩, rfl, by rw [n₂, n₁], ?_⟩
  · rw [hpatched]
    simp only [List.length_append, length_numberBytes]
    omega
  · unfold maximumPayload at hsize
    omega

/-- The reader at a collection: its length and count are read, and its items follow. -/
structure Entered (count : ℕ) (items : List UInt8) (r : Reader) (rest : List UInt8) (limit : ℕ) :
    Prop where
  length : r.number 4 limit = .ok (items.length + 4, r.advance 4)
  fits : ¬ (items.length + 4 < 4 ∨ limit - (r.advance 4).position < items.length + 4)
  count : (r.advance 4).number 4 ((r.advance 4).position + (items.length + 4)) =
    .ok (count, r.advance 8)
  ahead : (r.advance 8).Ahead items rest
  inner : (r.advance 8).position + items.length = (r.advance 4).position + (items.length + 4)

theorem entered {count : ℕ} {items : List UInt8} (hitems : items.length + 4 < 256 ^ 4)
    (hcount : count < 256 ^ 4) {r : Reader} {rest : List UInt8} {limit : ℕ}
    (h : r.Ahead (collection count items) rest)
    (hlimit : r.position + (collection count items).length ≤ limit) :
    Entered count items r rest limit := by
  simp only [collection, List.length_append, length_numberBytes] at hlimit
  have hlength : r.Ahead (numberBytes (items.length + 4) 4)
      (numberBytes count 4 ++ (items ++ rest)) := by
    rw [Reader.Ahead, h]
    simp [collection]
  have hnext := hlength.advance rfl
  rw [length_numberBytes] at hnext
  have hafter := hnext.advance rfl
  rw [length_numberBytes, Reader.advance_advance] at hafter
  refine ⟨Reader.number_ahead hlength hitems (by omega), ?_, ?_, hafter, ?_⟩
  · simp only [Reader.advance_position]
    omega
  · rw [Reader.number_ahead hnext hcount (by omega), Reader.advance_advance]
  · simp only [Reader.advance_position]
    omega

theorem reads_array {nodes nodes' : ℕ} {values vs : List RemoteXPCValue} {items : List UInt8}
    (hnodes : nodes + 1 ≤ maximumNodes) (hcount : values.length ≤ maximumNodes - (nodes + 1))
    (hitems : items.length + 4 < 256 ^ 4) (hsame : List.Forall₂ Same values vs)
    (hread : ∀ r rest limit array, r.nodes = nodes + 1 → r.Ahead items rest →
      r.position + items.length ≤ limit →
      Reader.elements (Reader.object canonical depths) limit values.length r array =
        .ok (array ++ vs, { r.advance items.length with nodes := nodes' })) :
    Reads (Reader.object canonical (depths + 1))
      (numberBytes (Writer.kind (.array values)) 4 ++ collection values.length items)
      (.array values) nodes nodes' := by
  have hlt : values.length < 256 ^ 4 := by
    unfold maximumNodes at hcount
    omega
  refine reads_of_body hnodes (.array hsame) fun r rest limit r₁ hr ho => ?_
  have hin := entered hitems hlt ho.ahead ho.fits
  have hnode : (r₁.advance 8).nodes = nodes + 1 := by simp [ho.next, hr]
  have hall := hread (r₁.advance 8) rest _ [] hnode hin.ahead hin.inner.le
  have hroom : ¬ maximumNodes - (r₁.advance 8).nodes < values.length := by
    rw [hnode]
    omega
  have hstop : ({ (r₁.advance 8).advance items.length with nodes := nodes' } : Reader).position =
      (r₁.advance 4).position + (items.length + 4) := hin.inner
  simp only [Reader.body, Writer.kind, hin.length, if_neg hin.fits,
    hin.count, if_neg hroom, hall, bind, Except.bind, pure, Except.pure]
  rw [hstop]
  simp [collection, Reader.advance]
  omega

theorem reads_dictionary {nodes nodes' : ℕ} {values sorted vs : List (List UInt8 × RemoteXPCValue)}
    {items : List UInt8} (hnodes : nodes + 1 ≤ maximumNodes)
    (hcount : values.length ≤ maximumNodes - (nodes + 1))
    (hitems : items.length + 4 < 256 ^ 4) (hperm : sorted.Perm values)
    (hkeys : sorted.map Prod.fst = vs.map Prod.fst)
    (hsame : List.Forall₂ Same (sorted.map Prod.snd) (vs.map Prod.snd))
    (hread : ∀ r rest limit, r.nodes = nodes + 1 → r.Ahead items rest →
      r.position + items.length ≤ limit →
      Reader.entries canonical (Reader.object canonical depths) limit values.length r [] =
        .ok (vs, { r.advance items.length with nodes := nodes' })) :
    Reads (Reader.object canonical (depths + 1))
      (numberBytes (Writer.kind (.dictionary values)) 4 ++ collection values.length items)
      (.dictionary values) nodes nodes' := by
  have hlt : values.length < 256 ^ 4 := by
    unfold maximumNodes at hcount
    omega
  refine reads_of_body hnodes (.dictionary hperm hkeys hsame) fun r rest limit r₁ hr ho => ?_
  have hin := entered hitems hlt ho.ahead ho.fits
  have hnode : (r₁.advance 8).nodes = nodes + 1 := by simp [ho.next, hr]
  have hall := hread (r₁.advance 8) rest _ hnode hin.ahead hin.inner.le
  have hroom : ¬ maximumNodes - (r₁.advance 8).nodes < values.length := by
    rw [hnode]
    omega
  have hstop : ({ (r₁.advance 8).advance items.length with nodes := nodes' } : Reader).position =
      (r₁.advance 4).position + (items.length + 4) := hin.inner
  simp only [Reader.body, Writer.kind, hin.length, if_neg hin.fits,
    hin.count, if_neg hroom, hall, bind, Except.bind, pure, Except.pure]
  rw [hstop]
  simp [collection, Reader.advance]
  omega

/-- Every value that is written is read back. -/
theorem object_read {w w' : Writer} {v : RemoteXPCValue} (hv : v.Valid canonical)
    (hw : w.bytes.length ≤ maximumPayload) (h : Writer.object canonical depths w v = .ok w') :
    ∃ e, Writer.Appends w w' e ∧ Reads (Reader.object canonical depths) e v w.nodes w'.nodes := by
  induction depths generalizing w w' v with
  | zero => cases h
  | succ depths ih =>
      obtain ⟨hnodes, w₁, hkind, hbody⟩ := Writer.object_ok h
      have hcounted : ({ w with nodes := w.nodes + 1 } : Writer).bytes.length ≤ maximumPayload := hw
      obtain ⟨a₁, n₁⟩ := Writer.number_ok hcounted hkind
      -- A value of a fixed size: its bytes follow the kind and add no node.
      have hfixed : ∀ {e}, Writer.Appends w₁ w' e ∧ w'.nodes = w₁.nodes →
          Reads (Reader.object canonical (depths + 1)) (numberBytes (Writer.kind v) 4 ++ e) v
            w.nodes (w.nodes + 1) →
          ∃ e, Writer.Appends w w' e ∧
            Reads (Reader.object canonical (depths + 1)) e v w.nodes w'.nodes := by
        intro e hwritten hreads
        refine ⟨numberBytes (Writer.kind v) 4 ++ e, ⟨?_, hwritten.1.size⟩, ?_⟩
        · rw [hwritten.1.bytes, a₁.bytes, List.append_assoc]
        · rw [hwritten.2, n₁]
          exact hreads
      cases hv with
      | null =>
          cases hbody
          exact hfixed ⟨⟨by simp, a₁.size⟩, rfl⟩ (reads_null hnodes)
      | bool b => exact hfixed (Writer.number_ok a₁.size hbody) (reads_bool b hnodes)
      | int n => exact hfixed (Writer.number_ok a₁.size hbody) (reads_int n hnodes)
      | uint n => exact hfixed (Writer.number_ok a₁.size hbody) (reads_uint n hnodes)
      | double n => exact hfixed (Writer.number_ok a₁.size hbody) (reads_double n hnodes)
      | date n => exact hfixed (Writer.number_ok a₁.size hbody) (reads_date n hnodes)
      | uuid d =>
          rw [Writer.body] at hbody
          split at hbody
          · rename_i hd
            exact hfixed (Writer.add_ok a₁.size hbody) (reads_uuid hd hnodes)
          · cases hbody
      | data d =>
          rw [Writer.body] at hbody
          split at hbody
          · cases hbody
          · rename_i hlong
            obtain ⟨w₂, h₂, hrest⟩ := Chunking.ok_of_bind hbody
            obtain ⟨w₃, h₃, h₄⟩ := Chunking.ok_of_bind hrest
            obtain ⟨a₂, n₂⟩ := Writer.number_ok a₁.size h₂
            obtain ⟨a₃, n₃⟩ := Writer.add_ok a₂.size h₃
            obtain ⟨a₄, n₄⟩ := Writer.add_ok a₃.size h₄
            refine hfixed ⟨a₂.trans (a₃.trans a₄), by rw [n₄, n₃, n₂]⟩ (reads_data ?_ hnodes)
            unfold maximumPayload at hlong
            omega
      | @string s hs =>
          rw [Writer.body] at hbody
          obtain ⟨hzero, hlong, n₂, a₂⟩ := Writer.text_ok a₁.size hbody
          simp only [if_true] at a₂
          refine hfixed ⟨a₂, n₂⟩ (reads_string hzero hs ?_ hnodes)
          unfold maximumPayload at hlong
          omega
      | @array vs hvs =>
          rw [Writer.body] at hbody
          split at hbody
          · cases hbody
          · rename_i hroom
            obtain ⟨w₂, h₂, hrest⟩ := Chunking.ok_of_bind hbody
            obtain ⟨w₃, h₃, hrest'⟩ := Chunking.ok_of_bind hrest
            obtain ⟨w₄, h₄, hpatch⟩ := Chunking.ok_of_bind hrest'
            cases hpatch
            have hw₃ := (Writer.number_ok (Writer.number_ok a₁.size h₂).1.size h₃).1.size
            obtain ⟨items, vs', a₄, hsame, hread⟩ := elements_read
              (fun u hu w w' hw hobject => ih (hvs u hu) hw hobject) hw₃ h₄
            obtain ⟨a₅, n₅, n₃, hitems⟩ := collection_written a₁.size h₂ h₃ a₄
            refine ⟨_, ⟨?_, a₅.size⟩, reads_array hnodes ?_ hitems hsame ?_⟩
            · rw [a₅.bytes, a₁.bytes, List.append_assoc]
            · rw [n₁] at hroom
              exact not_lt.mp hroom
            · rw [n₃, n₁] at hread
              rw [n₅]
              exact hread
      | @dictionary d hdistinct hutf8 hvalues =>
          rw [Writer.body] at hbody
          split at hbody
          · cases hbody
          · rename_i hroom
            obtain ⟨w₂, h₂, hrest⟩ := Chunking.ok_of_bind hbody
            obtain ⟨w₃, h₃, hrest'⟩ := Chunking.ok_of_bind hrest
            obtain ⟨w₄, h₄, hpatch⟩ := Chunking.ok_of_bind hrest'
            cases hpatch
            have hperm := List.perm_insertionSort (fun a b => canonical a.1 ≤ canonical b.1) d
            have hw₃ := (Writer.number_ok (Writer.number_ok a₁.size h₂).1.size h₃).1.size
            obtain ⟨items, vs, a₄, hkeys, hsame, hread⟩ := entries_read
              (fun e he w w' hw hobject => ih (hvalues e (hperm.mem_iff.mp he)) hw hobject)
              (fun e he => hutf8 e (hperm.mem_iff.mp he))
              ((hperm.pairwise_iff fun hne => hne.symm).mpr hdistinct) hw₃ h₄
            obtain ⟨a₅, n₅, n₃, hitems⟩ := collection_written a₁.size h₂ h₃ a₄
            refine ⟨_, ⟨?_, a₅.size⟩, reads_dictionary hnodes ?_ hitems hperm hkeys hsame ?_⟩
            · rw [a₅.bytes, a₁.bytes, List.append_assoc]
            · rw [n₁] at hroom
              exact not_lt.mp hroom
            · intro r rest limit hr hahead hlimit
              rw [n₃, n₁] at hread
              rw [n₅, ← hperm.length_eq]
              have hentries := hread r rest limit [] hr hahead hlimit
                fun _ he => absurd he List.not_mem_nil
              rw [List.nil_append] at hentries
              exact hentries

end Object

/-- The bytes in front of the payload of a message. -/
def header (m : RemoteXPCMessage) (length : ℕ) : List UInt8 :=
  numberBytes 0x29b00b92 4 ++ (numberBytes m.flags 4 ++
    (numberBytes length 8 ++ numberBytes m.identifier 8))

@[simp] theorem length_header (m : RemoteXPCMessage) (length : ℕ) :
    (header m length).length = 24 := by
  simp [header]

/-- What is written for the value of a message. -/
def Payload (canonical : List UInt8 → List UInt8) (m : RemoteXPCMessage) (payload : List UInt8) :
    Prop :=
  (m.value = none ∧ payload = []) ∨ ∃ v e nodes, m.value = some v ∧
    payload = numberBytes 0x42133742 4 ++ (numberBytes 5 4 ++ e) ∧
    Reads (Reader.object canonical 33) e v 0 nodes

variable {canonical : List UInt8 → List UInt8}

theorem header_written {m : RemoteXPCMessage} {payload bytes : List UInt8}
    (h : (do
      let w ← Writer.number ⟨[], 0⟩ 0x29b00b92 4
      let w ← w.number m.flags 4
      let w ← w.number payload.length 8
      let w ← w.number m.identifier 8
      pure (w.bytes ++ payload)) = .ok bytes) : bytes = header m payload.length ++ payload := by
  obtain ⟨w₁, h₁, hrest₁⟩ := Chunking.ok_of_bind h
  obtain ⟨w₂, h₂, hrest₂⟩ := Chunking.ok_of_bind hrest₁
  obtain ⟨w₃, h₃, hrest₃⟩ := Chunking.ok_of_bind hrest₂
  obtain ⟨w₄, h₄, hrest₄⟩ := Chunking.ok_of_bind hrest₃
  cases hrest₄
  obtain ⟨a₁, -⟩ := Writer.number_ok (Nat.zero_le _) h₁
  obtain ⟨a₂, -⟩ := Writer.number_ok a₁.size h₂
  obtain ⟨a₃, -⟩ := Writer.number_ok a₂.size h₃
  obtain ⟨a₄, -⟩ := Writer.number_ok a₃.size h₄
  rw [a₄.bytes, a₃.bytes, a₂.bytes, a₁.bytes]
  simp [header]

/-- A message that is encoded: a header, and what is written for its value. -/
theorem encode_ok {m : RemoteXPCMessage} (hm : m.Valid canonical) {bytes : List UInt8}
    (h : encode canonical m = .ok bytes) :
    ∃ payload, bytes = header m payload.length ++ payload ∧ payload.length ≤ maximumPayload ∧
      Payload canonical m payload := by
  unfold encode at h
  dsimp only at h
  cases hvalue : m.value with
  | none =>
      rw [hvalue] at h
      exact ⟨[], header_written h, Nat.zero_le _, Or.inl ⟨hvalue, rfl⟩⟩
  | some v =>
      rw [hvalue] at h
      obtain ⟨w₁, h₁, hrest₁⟩ := Chunking.ok_of_bind h
      obtain ⟨w₂, h₂, hrest₂⟩ := Chunking.ok_of_bind hrest₁
      obtain ⟨w₃, h₃, hrest₃⟩ := Chunking.ok_of_bind hrest₂
      obtain ⟨a₁, n₁⟩ := Writer.number_ok (Nat.zero_le _) h₁
      obtain ⟨a₂, n₂⟩ := Writer.number_ok a₁.size h₂
      obtain ⟨e, a₃, hreads⟩ := object_read (hm.value v hvalue) a₂.size h₃
      rw [n₂, n₁] at hreads
      refine ⟨w₃.bytes, header_written hrest₃, a₃.size, Or.inr ⟨v, e, _, hvalue, ?_, hreads⟩⟩
      rw [a₃.bytes, a₂.bytes, a₁.bytes]
      simp

theorem header_read {m : RemoteXPCMessage} (hm : m.Valid canonical) {length limit : ℕ}
    (hlength : length < 256 ^ 8) {rest : List UInt8} {r : Reader}
    (h : r.Ahead (header m length) rest) (hlimit : r.position + 24 ≤ limit) :
    r.number 4 limit = .ok (0x29b00b92, r.advance 4) ∧
      (r.advance 4).number 4 limit = .ok (m.flags, r.advance 8) ∧
      (r.advance 8).number 8 limit = .ok (length, r.advance 16) ∧
      (r.advance 16).number 8 limit = .ok (m.identifier, r.advance 24) ∧
      (r.advance 24).Ahead rest [] := by
  have h₁ : r.Ahead (numberBytes 0x29b00b92 4) (numberBytes m.flags 4 ++
      (numberBytes length 8 ++ (numberBytes m.identifier 8 ++ rest))) := by
    rw [Reader.Ahead, h]
    simp [header]
  have h₂ := h₁.advance rfl
  rw [length_numberBytes] at h₂
  have h₃ := h₂.advance rfl
  rw [length_numberBytes, Reader.advance_advance] at h₃
  have h₄ := h₃.advance rfl
  rw [length_numberBytes, Reader.advance_advance] at h₄
  have h₅ := h₄.advance (List.append_nil rest).symm
  rw [length_numberBytes, Reader.advance_advance] at h₅
  refine ⟨Reader.number_ahead h₁ (by norm_num) (by omega), ?_, ?_, ?_, h₅⟩
  · rw [Reader.number_ahead h₂ (by simpa using hm.flags) (by simp; omega), Reader.advance_advance]
  · rw [Reader.number_ahead h₃ hlength (by simp; omega), Reader.advance_advance]
  · rw [Reader.number_ahead h₄ (by simpa using hm.identifier) (by simp; omega),
      Reader.advance_advance]

/-- The value of a message is read back from its payload. -/
theorem payload_read {payload e : List UInt8} {v : RemoteXPCValue} {nodes limit : ℕ}
    (hbytes : payload = numberBytes 0x42133742 4 ++ (numberBytes 5 4 ++ e))
    (hreads : Reads (Reader.object canonical 33) e v 0 nodes) {r : Reader}
    (hr : r.nodes = 0) (h : r.Ahead payload []) (hlimit : r.position + payload.length = limit) :
    ∃ v' r', Same v v' ∧ r.number 4 limit = .ok (0x42133742, r.advance 4) ∧
      (r.advance 4).number 4 limit = .ok (5, r.advance 8) ∧
      (r.advance 8).object canonical 33 limit = .ok (v', r') ∧ r'.position = limit := by
  have h₁ : r.Ahead (numberBytes 0x42133742 4) (numberBytes 5 4 ++ (e ++ [])) := by
    rw [Reader.Ahead, h, hbytes]
    simp
  have h₂ := h₁.advance rfl
  rw [length_numberBytes] at h₂
  have h₃ := h₂.advance rfl
  rw [length_numberBytes, Reader.advance_advance] at h₃
  simp only [hbytes, List.length_append, length_numberBytes] at hlimit
  obtain ⟨v', hsame, hread⟩ := hreads
  refine ⟨v', _, hsame, Reader.number_ahead h₁ (by norm_num) (by omega), ?_,
    hread (r.advance 8) [] limit hr h₃ (by simp; omega), ?_⟩
  · rw [Reader.number_ahead h₂ (by norm_num) (by simp; omega), Reader.advance_advance]
  · simp only [Reader.advance_position]
    omega

theorem decode_encode {m : RemoteXPCMessage} (hm : m.Valid canonical) (hflags : m.flags % 2 = 1)
    {bytes : List UInt8} (h : encode canonical m = .ok bytes) :
    ∃ m', decode canonical bytes = .ok m' ∧ m.Same m' := by
  obtain ⟨payload, rfl, hsize, hpayload⟩ := encode_ok hm h
  have hlength : (header m payload.length ++ payload).length = payload.length + 24 := by
    simp [Nat.add_comm]
  have hahead : Reader.Ahead ⟨header m payload.length ++ payload, 0, 0⟩ (header m payload.length)
      payload := rfl
  have hlt : payload.length < 256 ^ 8 := by
    unfold maximumPayload at hsize
    omega
  obtain ⟨hmagic, hf, hl, hi, hrest⟩ := header_read hm hlt hahead
    (by rw [hlength]; dsimp only; omega : _ ≤ (header m payload.length ++ payload).length)
  rw [hlength] at hmagic hf hl hi
  have hrange : ¬ (payload.length + 24 < 24 ∨ maximumPayload + 24 < payload.length + 24) := by
    omega
  have hodd : ¬ (payload.length ≠ payload.length + 24 - 24 ∨ m.flags % 2 ≠ 1) := by omega
  rcases hpayload with ⟨hnone, hempty⟩ | ⟨v, e, nodes, hsome, hbytes, hreads⟩
  · refine ⟨⟨m.flags, m.identifier, none⟩, ?_, rfl, rfl, ?_⟩
    · simp only [decode, hlength, if_neg hrange, hmagic, hf, hl, hi, if_neg hodd, bind, Except.bind,
        pure, Except.pure]
      simp [hempty]
    · rw [hnone]
      exact .none
  · obtain ⟨v', r', hsame, hhead, hversion, hobject, hstop⟩ := payload_read hbytes hreads rfl
      hrest (by simp only [Reader.advance_position]; omega : _ = payload.length + 24)
    have hpositive : payload.length ≠ 0 := by
      rw [hbytes]
      simp
    refine ⟨⟨m.flags, m.identifier, some v'⟩, ?_, rfl, rfl, ?_⟩
    · simp only [decode, hlength, if_neg hrange, hmagic, hf, hl, hi, if_neg hodd,
        if_neg hpositive, hhead, hversion, hobject, bind, Except.bind, pure, Except.pure]
      simp [hstop]
    · rw [hsome]
      exact .some hsame

end RemoteXPCWire

namespace RemoteXPCStream

open RemoteXPCWire

variable {canonical : List UInt8 → List UInt8}

/-- A stream that has taken the bytes `taken` of a message of `total` bytes. -/
def partway (total : ℕ) (taken : List UInt8) : RemoteXPCStream :=
  { bytes := taken
    length := if taken.length < 16 then none else some total
    failed := false }

/-- The length of a message stands in its bytes from the eighth to the sixteenth. -/
theorem length_field {m : RemoteXPCMessage} {payload : List UInt8}
    (hsize : payload.length ≤ maximumPayload) {taken rest : List UInt8}
    (hsplit : taken ++ rest = header m payload.length ++ payload) (htaken : taken.length = 16) :
    littleEndian (taken.drop 8) = payload.length := by
  have hlt : payload.length < 256 ^ 8 := by
    unfold maximumPayload at hsize
    omega
  have hfront : taken ++ rest = (numberBytes 0x29b00b92 4 ++ numberBytes m.flags 4 ++
      numberBytes payload.length 8) ++ (numberBytes m.identifier 8 ++ payload) := by
    rw [hsplit]
    simp [header]
  rw [(List.append_inj hfront (by simp [htaken])).1, List.drop_left' (by simp),
    littleEndian_numberBytes hlt]

/-- What a stream knows of the length of its message with one more byte. -/
def lengthAfter (s : RemoteXPCStream) (b : UInt8) : Except PairingError (Option ℕ) :=
  if (s.bytes ++ [b]).length = 16 then
    if littleEndian ((s.bytes ++ [b]).drop 8) ≤ maximumPayload then
      .ok (some (littleEndian ((s.bytes ++ [b]).drop 8) + 24))
    else .error .oversized
  else .ok s.length

theorem take_of_lengthAfter {s : RemoteXPCStream} {b : UInt8} {length : Option ℕ}
    (h : s.lengthAfter b = .ok length) :
    take canonical s b =
      if length = some (s.bytes ++ [b]).length then do
        let message ← RemoteXPCWire.decode canonical (s.bytes ++ [b])
        pure ({ s with bytes := [], length := none }, [message])
      else pure ({ s with bytes := s.bytes ++ [b], length := length }, []) := by
  unfold lengthAfter at h
  unfold take
  dsimp only
  split_ifs at h with hsixteen hfits
  · rw [if_pos hsixteen, if_pos hfits]
    cases h
    rfl
  · rw [if_neg hsixteen]
    cases h
    rfl

/-- The length is known from the sixteenth byte of a message on. -/
theorem lengthAfter_partway {m : RemoteXPCMessage} {payload : List UInt8}
    (hsize : payload.length ≤ maximumPayload) {taken rest : List UInt8} {b : UInt8}
    (hsplit : (taken ++ [b]) ++ rest = header m payload.length ++ payload) :
    (partway (payload.length + 24) taken).lengthAfter b =
      .ok (partway (payload.length + 24) (taken ++ [b])).length := by
  rw [lengthAfter]
  by_cases hsixteen : (taken ++ [b]).length = 16
  · have hfield := length_field hsize hsplit hsixteen
    have hlong : ¬ (taken ++ [b]).length < 16 := by omega
    simp only [partway, if_pos hsixteen, hfield, if_pos hsize, if_neg hlong]
  · have hsame : (taken.length < 16) = ((taken ++ [b]).length < 16) := by
      simp only [List.length_append, List.length_singleton, eq_iff_iff] at hsixteen ⊢
      omega
    simp only [partway, if_neg hsixteen, hsame]

/-- A byte inside a message is kept. -/
theorem take_more {m : RemoteXPCMessage} {payload : List UInt8}
    (hsize : payload.length ≤ maximumPayload) {taken rest : List UInt8} {b : UInt8}
    (hsplit : (taken ++ [b]) ++ rest = header m payload.length ++ payload) (hrest : rest ≠ []) :
    take canonical (partway (payload.length + 24) taken) b =
      .ok (partway (payload.length + 24) (taken ++ [b]), []) := by
  have htotal := congrArg List.length hsplit
  have hpositive := List.length_pos_iff.mpr hrest
  simp only [List.length_append, List.length_singleton, length_header] at htotal
  have hpart : (partway (payload.length + 24) (taken ++ [b])).length ≠
      some (taken ++ [b]).length := by
    simp only [partway, List.length_append, List.length_singleton]
    split_ifs
    · simp
    · simp only [ne_eq, Option.some.injEq]
      omega
  rw [take_of_lengthAfter (lengthAfter_partway hsize hsplit)]
  exact if_neg hpart

/-- The last byte of a message completes it. -/
theorem take_last {m m' : RemoteXPCMessage} {payload : List UInt8}
    (hsize : payload.length ≤ maximumPayload)
    (hdecode : RemoteXPCWire.decode canonical (header m payload.length ++ payload) = .ok m')
    {taken : List UInt8} {b : UInt8} (hsplit : taken ++ [b] = header m payload.length ++ payload) :
    take canonical (partway (payload.length + 24) taken) b = .ok (init, [m']) := by
  have htotal := congrArg List.length hsplit
  have hfull : (header m payload.length ++ payload).length = 24 + payload.length := by simp
  rw [hfull] at htotal
  have hwhole : (partway (payload.length + 24) (taken ++ [b])).length =
      some (taken ++ [b]).length := by
    simp only [partway]
    rw [if_neg (by omega), htotal, Nat.add_comm]
  have hlength : (partway (payload.length + 24) taken).lengthAfter b =
      .ok (partway (payload.length + 24) (taken ++ [b])).length :=
    lengthAfter_partway hsize (by rw [List.append_nil]; exact hsplit)
  have hbytes :
      RemoteXPCWire.decode canonical ((partway (payload.length + 24) taken).bytes ++ [b]) =
        .ok m' := by
    rw [← hdecode, ← hsplit]
    rfl
  rw [take_of_lengthAfter hlength, hbytes]
  exact if_pos hwhole

theorem feedAll_rest {m m' : RemoteXPCMessage} {payload : List UInt8}
    (hsize : payload.length ≤ maximumPayload)
    (hdecode : RemoteXPCWire.decode canonical (header m payload.length ++ payload) = .ok m')
    {taken rest : List UInt8} (hsplit : taken ++ rest = header m payload.length ++ payload)
    (hrest : rest ≠ []) :
    Chunking.feedAll (take canonical) (partway (payload.length + 24) taken) rest =
      .ok (init, [m']) := by
  induction rest generalizing taken with
  | nil => exact absurd rfl hrest
  | cons b rest ih =>
      have hnext : (taken ++ [b]) ++ rest = header m payload.length ++ payload := by
        rw [← hsplit]
        simp
      cases rest with
      | nil =>
          rw [List.append_nil] at hnext
          exact Chunking.feedAll_cons_ok (take_last hsize hdecode hnext) (Chunking.feedAll_nil _)
      | cons b' rest =>
          exact Chunking.feedAll_cons_ok (take_more hsize hnext (by simp)) (ih hnext (by simp))

/-- The encoding of a message is one message to a stream. -/
theorem feedAll_encode {m : RemoteXPCMessage} (hm : m.Valid canonical) (hflags : m.flags % 2 = 1)
    {bytes : List UInt8} (h : encode canonical m = .ok bytes) :
    ∃ m', RemoteXPCWire.decode canonical bytes = .ok m' ∧ m.Same m' ∧
      Chunking.feedAll (take canonical) init bytes = .ok (init, [m']) := by
  obtain ⟨m', hdecode, hsame⟩ := decode_encode hm hflags h
  obtain ⟨payload, rfl, hsize, -⟩ := encode_ok hm h
  refine ⟨m', hdecode, hsame, feedAll_rest hsize hdecode (List.nil_append _) ?_⟩
  intro hempty
  have hlength := congrArg List.length hempty
  simp at hlength

/-- Taking bytes leaves a stream usable. -/
theorem take_failed {s s' : RemoteXPCStream} {b : UInt8} {out : List RemoteXPCMessage}
    (h : take canonical s b = .ok (s', out)) : s'.failed = s.failed := by
  cases hlength : s.lengthAfter b with
  | error e =>
      unfold lengthAfter at hlength
      split_ifs at hlength with hsixteen hfits
      unfold take at h
      dsimp only at h
      rw [if_pos hsixteen, if_neg hfits] at h
      cases h
  | ok length =>
      rw [take_of_lengthAfter hlength] at h
      split at h
      · obtain ⟨message, -, hout⟩ := Chunking.ok_of_bind h
        cases hout
        rfl
      · cases h
        rfl

theorem feedAll_failed {s s' : RemoteXPCStream} {bytes : List UInt8} {out : List RemoteXPCMessage}
    (h : Chunking.feedAll (take canonical) s bytes = .ok (s', out)) : s'.failed = s.failed := by
  induction bytes generalizing s out with
  | nil =>
      cases h
      rfl
  | cons b rest ih =>
      obtain ⟨t, out₁, out₂, hb, hrest, rfl⟩ := Chunking.feedAll_cons_inv h
      exact (ih hrest).trans (take_failed hb)

/-- Bytes arrive in any chunks of at most 65536. -/
theorem feedAll_consume {s s' : RemoteXPCStream} (hs : s.failed = false)
    {chunks : List (List UInt8)} (hchunks : ∀ c ∈ chunks, c.length ≤ 65536)
    {out : List RemoteXPCMessage}
    (h : Chunking.feedAll (take canonical) s chunks.flatten = .ok (s', out)) :
    Chunking.feedAll (consume canonical) s chunks = .ok (s', out) := by
  induction chunks generalizing s out with
  | nil => exact h
  | cons c chunks ih =>
      rw [List.flatten_cons] at h
      obtain ⟨t, out₁, out₂, hc, hrest, rfl⟩ := Chunking.feedAll_append_inv h
      have hfirst : consume canonical s c = .ok (t, out₁) := by
        have hlong : ¬ 65536 < c.length := not_lt.mpr (hchunks c List.mem_cons_self)
        rw [consume, hs, if_neg hlong]
        exact hc
      have hlater := ih ((feedAll_failed hc).trans hs)
        (fun d hd => hchunks d (List.mem_cons_of_mem _ hd)) hrest
      exact Chunking.feedAll_cons_ok hfirst hlater

/-- The concatenated encodings of messages are those messages to a stream. -/
theorem feedAll_encodings {messages : List RemoteXPCMessage} {encodings : List (List UInt8)}
    (hvalid : ∀ m ∈ messages, m.Valid canonical) (hflags : ∀ m ∈ messages, m.flags % 2 = 1)
    (hencode : List.Forall₂ (fun m e => encode canonical m = .ok e) messages encodings) :
    ∃ received, List.Forall₂ RemoteXPCMessage.Same messages received ∧
      List.Forall₂ (fun e m => RemoteXPCWire.decode canonical e = .ok m) encodings received ∧
      Chunking.feedAll (take canonical) init encodings.flatten = .ok (init, received) := by
  induction hencode with
  | nil => exact ⟨[], .nil, .nil, rfl⟩
  | @cons m e messages encodings hm hrest ih =>
      obtain ⟨received, hsames, hdecodes, hfeed⟩ :=
        ih (fun u hu => hvalid u (List.mem_cons_of_mem _ hu))
          fun u hu => hflags u (List.mem_cons_of_mem _ hu)
      obtain ⟨m', hdecode, hsame, hone⟩ :=
        feedAll_encode (hvalid m List.mem_cons_self) (hflags m List.mem_cons_self) hm
      exact ⟨m' :: received, .cons hsame hsames, .cons hdecode hdecodes,
        Chunking.feedAll_append_ok hone hfeed⟩

/-- Messages survive the wire: each decodes to itself, and their encodings in any chunks
give them in order, with nothing left over. -/
theorem messages_survive {messages : List RemoteXPCMessage} {encodings chunks : List (List UInt8)}
    (hvalid : ∀ m ∈ messages, m.Valid canonical) (hflags : ∀ m ∈ messages, m.flags % 2 = 1)
    (hencode : List.Forall₂ (fun m e => encode canonical m = .ok e) messages encodings)
    (hchunks : ∀ c ∈ chunks, c.length ≤ 65536) (hcut : chunks.flatten = encodings.flatten) :
    ∃ received s, List.Forall₂ RemoteXPCMessage.Same messages received ∧
      List.Forall₂ (fun e m => RemoteXPCWire.decode canonical e = .ok m) encodings received ∧
      Chunking.feedAll (consume canonical) init chunks = .ok (s, received) ∧
      s.hasPartialMessage = false := by
  obtain ⟨received, hsames, hdecodes, hfeed⟩ := feedAll_encodings hvalid hflags hencode
  rw [← hcut] at hfeed
  exact ⟨received, init, hsames, hdecodes, feedAll_consume rfl hchunks hfeed, rfl⟩

def nestedValue : RemoteXPCValue :=
  .dictionary [(ascii "beta", .array [.int (-1), .null, .data [1, 2, 3]]),
    (ascii "a", .string (ascii "x"))]

def nestedMessages : List RemoteXPCMessage := [⟨0x101, 1, some nestedValue⟩, ⟨1, 0, none⟩]

def nestedEncodings : List (List UInt8) :=
  nestedMessages.map fun m => (encode id m).toOption.getD []

theorem nestedMessages_encode :
    List.Forall₂ (fun m e => encode id m = .ok e) nestedMessages nestedEncodings := by
  have hsome : ∀ m ∈ nestedMessages, (encode id m).toOption.isSome = true := by decide
  rw [nestedEncodings, List.forall₂_map_right_iff, List.forall₂_same]
  intro m hm
  cases h : encode id m with
  | error e =>
      have hm' := hsome m hm
      rw [h] at hm'
      cases hm'
  | ok bytes => rfl

theorem nestedMessages_valid : ∀ m ∈ nestedMessages, m.Valid id := by
  have hvalue : nestedValue.Valid id := by
    refine .dictionary (by unfold RemoteXPCValue.Distinct; decide) (by decide)
      fun e he => ?_
    rcases List.mem_cons.mp he with rfl | he'
    · refine .array fun v hv => ?_
      rcases List.mem_cons.mp hv with rfl | hv'
      · exact .int _
      · rcases List.mem_cons.mp hv' with rfl | hv''
        · exact .null
        · rw [List.mem_singleton.mp hv'']
          exact .data _
    · rw [List.mem_singleton.mp he']
      exact .string (by decide)
  intro m hm
  rcases List.mem_cons.mp hm with rfl | hm'
  · exact ⟨by decide, by decide, fun v hv => by cases hv; exact hvalue⟩
  · rw [List.mem_singleton.mp hm']
    exact ⟨by decide, by decide, fun v hv => by cases hv⟩

theorem messages_survive_nested :
    ∃ received s, List.Forall₂ RemoteXPCMessage.Same nestedMessages received ∧
      List.Forall₂ (fun e m => RemoteXPCWire.decode id e = .ok m) nestedEncodings received ∧
      Chunking.feedAll (consume id) init
        [nestedEncodings.flatten.take 17, nestedEncodings.flatten.drop 17] = .ok (s, received) ∧
      s.hasPartialMessage = false :=
  messages_survive nestedMessages_valid (by decide) nestedMessages_encode (by decide)
    (by simp)

end RemoteXPCStream

end Tolkara
