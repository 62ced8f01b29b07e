import Tolkara.Memory.Basic

/-!
# Decoding and register instructions

The part of `runtime/GuestCPU.c` that touches no memory: `decode` turns an
instruction word and its address into a record, `register_decoded` executes the
register and control-flow instructions. Registers and immediates are 64-bit
words. The small fields of a decoded instruction all fit into the bytes the
source keeps them in and are natural numbers here.
-/

namespace Tolkara

/-- The operations `decode` knows; `invalid` stops the CPU. -/
inductive GCOp where
  | invalid
  | nop
  | wide
  | addImm
  | addReg
  | logic
  | madd
  | branch
  | branchReg
  | cond
  | cbz
  | address
  | load
  | store
  | logicImm
  | tbz
  | select
deriving DecidableEq, Repr

structure GCDecoded where
  pc : BitVec 64
  immediate : BitVec 64
  instruction : BitVec 32
  op : GCOp
  rd : ℕ
  rn : ℕ
  rm : ℕ
  ra : ℕ
  width : ℕ
  shift : ℕ
  amount : ℕ
  flags : ℕ
  valid : Bool
deriving DecidableEq, Repr

/-- `nzcv` holds N, Z, C and V in bits 3 to 0. -/
structure GCRegisters where
  x : Fin 31 → BitVec 64
  sp : BitVec 64
  pc : BitVec 64
  nzcv : BitVec 8
deriving DecidableEq

/-- The field of an instruction word from bit `low` up, cut by `mask`. -/
def field (i : BitVec 32) (low : ℕ) (mask : ℕ) : ℕ := (i.toNat >>> low) &&& mask

def signExtend (x : BitVec 64) (bits : ℕ) : BitVec 64 :=
  let sign : BitVec 64 := 1#64 <<< (bits - 1)
  (x ^^^ sign) - sign

def mask (width : ℕ) : BitVec 64 := if width = 64 then BitVec.allOnes 64 else 0xffffffff#64

namespace GCRegisters

def reg (c : GCRegisters) (r : ℕ) (sp : Bool) : BitVec 64 :=
  if h : r < 31 then c.x ⟨r, h⟩ else if sp then c.sp else 0#64

def put (c : GCRegisters) (r : ℕ) (value : BitVec 64) (width : ℕ) (sp : Bool) : GCRegisters :=
  let value := value &&& mask width
  if h : r < 31 then { c with x := Function.update c.x ⟨r, h⟩ value }
  else if sp then { c with sp := value }
  else c

end GCRegisters

def shifted (value : BitVec 64) (type amount width : ℕ) : BitVec 64 :=
  let value := value &&& mask width
  if amount = 0 then value
  else if type = 0 then (value <<< amount) &&& mask width
  else if type = 1 then value >>> amount
  else if type = 2 then
    (value >>> amount) |||
      (if value >>> (width - 1) ≠ 0#64 then (mask width <<< (width - amount)) &&& mask width
        else 0#64)
  else ((value >>> amount) ||| (value <<< (width - amount))) &&& mask width

def condition (flags : BitVec 8) (cond : ℕ) : Bool :=
  let n := flags.getLsbD 3
  let z := flags.getLsbD 2
  let c := flags.getLsbD 1
  let v := flags.getLsbD 0
  let answer (result : Bool) : Bool := if cond % 2 = 1 then !result else result
  match cond / 2 with
  | 0 => answer z
  | 1 => answer c
  | 2 => answer n
  | 3 => answer v
  | 4 => answer (c && !z)
  | 5 => answer (n == v)
  | 6 => answer (!z && (n == v))
  | _ => true

def flagByte (n z c v : Bool) : BitVec 8 :=
  (if n then 8#8 else 0#8) ||| (if z then 4#8 else 0#8) |||
    (if c then 2#8 else 0#8) ||| (if v then 1#8 else 0#8)

/-- The result of an addition or subtraction, and the flags it would set. -/
def arithmetic (a b : BitVec 64) (sub : Bool) (width : ℕ) : BitVec 64 × BitVec 8 :=
  let m := mask width
  let sign : BitVec 64 := 1#64 <<< (width - 1)
  let a := a &&& m
  let b := b &&& m
  let result := (if sub then a - b else a + b) &&& m
  let carry : Bool := if sub then b ≤ a else result < a
  let overflow : Bool :=
    ((if sub then a ^^^ b else ~~~(a ^^^ b)) &&& (a ^^^ result) &&& sign) != 0#64
  (result, flagByte (result &&& sign != 0#64) (result == 0#64) carry overflow)

/-- The position of the highest bit of `encoded` among bits 1 to 6. -/
def highestBit (encoded : ℕ) : ℕ :=
  [1, 2, 3, 4, 5, 6].foldl (fun length bit => if encoded.testBit bit then bit else length) 0

/-- The value of a bitmask immediate, where the encoding is allowed. -/
def logicalImmediate (i : BitVec 32) (width : ℕ) : Option (BitVec 64) :=
  let n := field i 22 1
  let immr := field i 16 63
  let imms := field i 10 63
  let length := highestBit (n * 64 + (63 - imms))
  if length = 0 ∨ width = 32 ∧ n ≠ 0 then none
  else
    let bits := 2 ^ length
    let s := imms % bits
    let r := immr % bits
    if bits > width ∨ s = bits - 1 then none
    else
      let element : BitVec 64 := (1#64 <<< (s + 1)) - 1#64
      let element := if r ≠ 0 then (element >>> r) ||| (element <<< (bits - r)) else element
      let element := if bits < 64 then element &&& ((1#64 <<< bits) - 1#64) else element
      some ((List.range (width / bits)).foldl
        (fun value k => value ||| (element <<< (k * bits))) 0#64)

def branchTarget (pc : BitVec 64) (offset bits : ℕ) : BitVec 64 :=
  pc + signExtend (BitVec.ofNat 64 offset) bits * 4#64

def decode (pc : BitVec 64) (i : BitVec 32) : GCDecoded :=
  let width := if field i 31 1 = 1 then 64 else 32
  let d : GCDecoded :=
    { pc := pc, immediate := 0#64, instruction := i, op := .invalid, rd := field i 0 31
      rn := field i 5 31, rm := field i 16 31, ra := field i 10 31, width := width
      shift := 0, amount := 0, flags := 0, valid := true }
  if i = 0xd503201f#32 then { d with op := .nop }
  else if i &&& 0x1f800000#32 = 0x12800000#32 then
    let flags := field i 29 3
    let amount := field i 21 3 * 16
    if flags ≠ 1 ∧ amount < width then
      { d with
        op := .wide, flags := flags, amount := amount
        immediate := BitVec.ofNat 64 (field i 5 65535) <<< amount }
    else { d with flags := flags, amount := amount }
  else if i &&& 0x1f800000#32 = 0x11000000#32 then
    { d with
      op := .addImm, flags := field i 29 3
      immediate := BitVec.ofNat 64 (field i 10 4095 <<< (field i 22 1 * 12)) }
  else if i &&& 0x1f200000#32 = 0x0b000000#32 then
    let shift := field i 22 3
    let amount := field i 10 63
    { d with
      op := if shift ≠ 3 ∧ amount < width then .addReg else .invalid
      shift := shift, amount := amount, flags := field i 29 3 }
  else if i &&& 0x1f000000#32 = 0x0a000000#32 then
    let amount := field i 10 63
    { d with
      op := if amount < width then .logic else .invalid
      shift := field i 22 3, amount := amount, flags := field i 29 3 + field i 21 1 * 4 }
  else if i &&& 0x1f800000#32 = 0x12000000#32 then
    match logicalImmediate i width with
    | some immediate =>
      { d with op := .logicImm, flags := field i 29 3, immediate := immediate }
    | none => { d with flags := field i 29 3 }
  else if i &&& 0x3fe00800#32 = 0x1a800000#32 then
    { d with op := .select, shift := field i 12 15, flags := field i 30 1 * 2 + field i 10 1 }
  else if i &&& 0x7fe00000#32 = 0x1b000000#32 then { d with op := .madd, flags := field i 15 1 }
  else if i &&& 0x7c000000#32 = 0x14000000#32 then
    { d with
      op := .branch, flags := field i 31 1
      immediate := branchTarget pc (field i 0 0x3ffffff) 26 }
  else if i &&& 0xfffffc1f#32 = 0xd61f0000#32 ∨ i &&& 0xfffffc1f#32 = 0xd63f0000#32 ∨
      i &&& 0xfffffc1f#32 = 0xd65f0000#32 then
    { d with
      op := .branchReg, flags := if i &&& 0xfffffc1f#32 = 0xd63f0000#32 then 1 else 0 }
  else if i &&& 0xff000010#32 = 0x54000000#32 then
    { d with
      op := .cond, flags := field i 0 15
      immediate := branchTarget pc (field i 5 0x7ffff) 19 }
  else if i &&& 0x7e000000#32 = 0x34000000#32 then
    { d with
      op := .cbz, flags := field i 24 1
      immediate := branchTarget pc (field i 5 0x7ffff) 19 }
  else if i &&& 0x7e000000#32 = 0x36000000#32 then
    { d with
      op := .tbz, flags := field i 24 1, amount := field i 31 1 * 32 + field i 19 31
      immediate := branchTarget pc (field i 5 0x3fff) 14 }
  else if i &&& 0x1f000000#32 = 0x10000000#32 then
    let offset := signExtend (BitVec.ofNat 64 (field i 5 0x7ffff * 4 + field i 29 3)) 21
    { d with
      op := .address, width := 64
      immediate :=
        if field i 31 1 = 1 then (pc &&& ~~~4095#64) + offset * 4096#64 else pc + offset }
  else if i &&& 0x3b000000#32 = 0x39000000#32 ∧ i &&& 0x04000000#32 = 0#32 then
    let opc := field i 22 3
    if opc ≤ 1 then
      let amount := 2 ^ field i 30 3
      { d with
        op := if opc = 1 then .load else .store
        amount := amount, width := if amount = 8 then 64 else 32
        immediate := BitVec.ofNat 64 (field i 10 4095 * amount) }
    else d
  else d

/-- A decoded instruction remembers its address. -/
theorem decode_pc (pc : BitVec 64) (i : BitVec 32) : (decode pc i).pc = pc := by
  unfold decode
  dsimp only
  generalize (if field i 31 1 = 1 then 64 else 32) = width
  cases logicalImmediate i width <;> simp only [apply_ite GCDecoded.pc, ite_self]

/-- The second operand of an arithmetic or logical instruction. -/
def GCDecoded.operand (d : GCDecoded) (c : GCRegisters) : BitVec 64 :=
  match d.op with
  | .addImm | .logicImm => d.immediate
  | _ => shifted (c.reg d.rm false) d.shift d.amount d.width

/-- A register result is written, then the program counter moves on. -/
def finish (c : GCRegisters) (d : GCDecoded) (value : BitVec 64) (sp : Bool) : GCRegisters :=
  { c.put d.rd value d.width sp with pc := c.pc + 4#64 }

/-- `none` is the answer `false`, with the registers left alone. -/
def registerDecoded (c : GCRegisters) (d : GCDecoded) : Option GCRegisters :=
  let next := c.pc + 4#64
  match d.op with
  | .nop => some { c with pc := next }
  | .wide =>
    let value :=
      if d.flags = 0 then ~~~d.immediate
      else if d.flags = 2 then d.immediate
      else (c.reg d.rd false &&& ~~~(65535#64 <<< d.amount)) ||| d.immediate
    some (finish c d value false)
  | .addImm | .addReg =>
    let a := c.reg d.rn (d.op == .addImm)
    let answer := arithmetic a (d.operand c) (d.flags.testBit 1) d.width
    let c := if d.flags.testBit 0 then { c with nzcv := answer.2 } else c
    some (finish c d answer.1 (d.op == .addImm && !d.flags.testBit 0))
  | .logic | .logicImm =>
    let a := c.reg d.rn false
    let b := d.operand c
    let b := if d.op = .logic ∧ d.flags.testBit 2 then ~~~b else b
    let kind := d.flags % 4
    let value := (if kind = 1 then a ||| b else if kind = 2 then a ^^^ b else a &&& b) &&&
      mask d.width
    let c :=
      if kind = 3 then
        { c with nzcv := flagByte (value >>> (d.width - 1) != 0#64) (value == 0#64) false false }
      else c
    some (finish c d value (d.op == .logicImm && kind != 3))
  | .select =>
    let b := c.reg d.rm false
    let value :=
      if condition c.nzcv d.shift then c.reg d.rn false
      else if d.flags = 0 then b
      else if d.flags = 1 then b + 1#64
      else if d.flags = 2 then ~~~b
      else 0#64 - b
    some (finish c d value false)
  | .madd =>
    let product := c.reg d.rn false * c.reg d.rm false
    let value :=
      if d.flags ≠ 0 then c.reg d.ra false - product else c.reg d.ra false + product
    some (finish c d value false)
  | .branch =>
    let c := if d.flags ≠ 0 then { c with x := Function.update c.x 30 next } else c
    some { c with pc := d.immediate }
  | .branchReg =>
    let target := c.reg d.rn false
    let c := if d.flags ≠ 0 then { c with x := Function.update c.x 30 next } else c
    some { c with pc := target }
  | .cond => some { c with pc := if condition c.nzcv d.flags then d.immediate else next }
  | .cbz =>
    let taken := (c.reg d.rd false &&& mask d.width != 0#64) == (d.flags != 0)
    some { c with pc := if taken then d.immediate else next }
  | .tbz =>
    let taken := (c.reg d.rd false >>> d.amount).toNat % 2 = d.flags
    some { c with pc := if taken then d.immediate else next }
  | .address => some (finish c d d.immediate false)
  | .invalid | .load | .store => none

def gcRegisterStep (r : GCRegisters) (instruction : BitVec 32) : Option GCRegisters :=
  if r.pc &&& 3#64 ≠ 0#64 ∨ r.pc.toNat > uint64Max - 4 then none
  else registerDecoded r (decode r.pc instruction)

end Tolkara
