import Tolkara.Memory.Basic

/-!
# The messages of the arena hand-off

`ArenaControl`: fixed-size messages between the app and its provider. A request, the
commands made from it and the replies to it share their bytes from the eighth on; byte 5
says which of them a message is, and byte 6 the outcome of a reply.
-/

namespace Tolkara

def tkacSize : ℕ := 96

structure TKACRequest where
  pid : ℕ
  uid : ℕ
  address : ℕ
  size : ℕ
  challengeAddress : ℕ
  deadlineMs : ℕ
  challenge : List UInt8
  identifier : List UInt8
deriving DecidableEq, Repr

inductive TKACOutcome where
  | prepared
  | rejected
  | failedDetached
  | uncertain
  | pending
deriving DecidableEq, Repr

namespace TKACOutcome

def byte : TKACOutcome → UInt8
  | prepared => 1
  | rejected => 2
  | failedDetached => 3
  | uncertain => 4
  | pending => 5

def ofByte (b : UInt8) : Option TKACOutcome :=
  if b = 1 then some prepared
  else if b = 2 then some rejected
  else if b = 3 then some failedDetached
  else if b = 4 then some uncertain
  else if b = 5 then some pending
  else none

@[simp] theorem ofByte_byte (o : TKACOutcome) : ofByte o.byte = some o := by
  cases o <;> decide

end TKACOutcome

inductive TKACCommand where
  | submit
  | poll
deriving DecidableEq, Repr

namespace TKACCommand

def byte : TKACCommand → UInt8
  | submit => 3
  | poll => 4

def ofByte (b : UInt8) : Option TKACCommand :=
  if b = 3 then some submit else if b = 4 then some poll else none

@[simp] theorem ofByte_byte (c : TKACCommand) : ofByte c.byte = some c := by
  cases c <;> decide

end TKACCommand

def readNumber (bytes : List UInt8) (offset n : ℕ) : ℕ :=
  ((bytes.drop offset).take n).foldl (fun value b => value * 256 + b.toNat) 0

def TKACRequest.valid (r : TKACRequest) : Bool :=
  let maximum := 0x0000ffffffffffff
  1 < r.pid ∧ r.pid ≤ 2147483647 ∧ r.size ≠ 0 ∧ r.size ≤ 512 * 1024 * 1024 ∧
    r.size % 16384 = 0 ∧ 16384 ≤ r.address ∧ r.address % 16384 = 0 ∧
    r.address ≤ maximum - r.size ∧ 4096 ≤ r.challengeAddress ∧
    r.challengeAddress ≤ maximum - 32 ∧
    (r.challengeAddress + 32 ≤ r.address ∨ r.address + r.size ≤ r.challengeAddress) ∧
    r.deadlineMs ≠ 0 ∧ (r.challenge.any fun b => b ≠ 0) ∧ r.identifier.any fun b => b ≠ 0

def tkacMagic : List UInt8 := ascii "TKAR" ++ [1, 1, 0, 0]

/-- `write_number`: the low `n` bytes of a value, the highest first. -/
def writeNumber : ℕ → ℕ → List UInt8
  | 0, _ => []
  | n + 1, value => writeNumber n (value / 256) ++ [UInt8.ofNat value]

def TKACRequest.bytes (r : TKACRequest) : List UInt8 :=
  tkacMagic ++ (writeNumber 4 r.pid ++ (writeNumber 4 r.uid ++ (writeNumber 8 r.address ++
    (writeNumber 8 r.size ++ (writeNumber 8 r.challengeAddress ++ (writeNumber 8 r.deadlineMs ++
    (r.challenge ++ r.identifier)))))))

def tkacEncode (r : TKACRequest) (size : ℕ) : Option (List UInt8) :=
  if size = tkacSize ∧ r.valid then some r.bytes else none

def tkacDecode (bytes : List UInt8) : Option TKACRequest :=
  if bytes.length = tkacSize ∧ bytes.take 8 = tkacMagic then
    let staged : TKACRequest :=
      { pid := readNumber bytes 8 4
        uid := readNumber bytes 12 4
        address := readNumber bytes 16 8
        size := readNumber bytes 24 8
        challengeAddress := readNumber bytes 32 8
        deadlineMs := readNumber bytes 40 8
        challenge := (bytes.drop 48).take 32
        identifier := (bytes.drop 80).take 16 }
    if staged.valid then some staged else none
  else none

def tkacReply (request : List UInt8) (outcome : TKACOutcome) : Option (List UInt8) :=
  if (tkacDecode request).isSome then some ((request.set 5 2).set 6 outcome.byte) else none

def tkacMatch (request reply : List UInt8) : Option TKACOutcome :=
  if reply.length = tkacSize ∧ (tkacDecode request).isSome ∧
      reply.take 6 = ascii "TKAR" ++ [1, 2] ∧ reply.getD 7 0 = 0 ∧
      request.drop 8 = reply.drop 8 then TKACOutcome.ofByte (reply.getD 6 0)
  else none

def tkacCommand (request : List UInt8) (command : TKACCommand) : Option (List UInt8) :=
  if (tkacDecode request).isSome then some (request.set 5 command.byte) else none

def tkacNormalize (message : List UInt8) : Option (TKACCommand × List UInt8) :=
  if message.length = tkacSize then
    match TKACCommand.ofByte (message.getD 5 0) with
    | none => none
    | some command =>
      let normalized := message.set 5 1
      if (tkacDecode normalized).isSome then some (command, normalized) else none
  else none

theorem tkacDecode_eq_some {bytes : List UInt8} {r : TKACRequest}
    (h : tkacDecode bytes = some r) : bytes.length = tkacSize ∧ bytes.take 8 = tkacMagic := by
  unfold tkacDecode at h
  split at h
  · rename_i hshape
    dsimp only at h
    split at h
    · cases h
      exact hshape
    · cases h
  · cases h

/-- The first eight bytes of a request, spelled out. -/
theorem exists_of_take_magic {bytes : List UInt8} (h : bytes.take 8 = tkacMagic) :
    ∃ rest, bytes = tkacMagic ++ rest :=
  ⟨bytes.drop 8, by rw [← h, List.take_append_drop]⟩

theorem tkacNormalize_command {request message : List UInt8} {command : TKACCommand}
    (h : tkacCommand request command = some message) :
    tkacNormalize message = some (command, request) := by
  unfold tkacCommand at h
  split at h
  · rename_i hsome
    cases h
    obtain ⟨r, hr⟩ := Option.isSome_iff_exists.mp hsome
    obtain ⟨hlength, hmagic⟩ := tkacDecode_eq_some hr
    obtain ⟨rest, rfl⟩ := exists_of_take_magic hmagic
    have hback : ((tkacMagic ++ rest).set 5 command.byte).set 5 1 = tkacMagic ++ rest := rfl
    have hbyte : ((tkacMagic ++ rest).set 5 command.byte).getD 5 0 = command.byte := rfl
    rw [tkacNormalize, List.length_set, if_pos hlength, hbyte, TKACCommand.ofByte_byte]
    dsimp only
    rw [hback, if_pos hsome]
  · cases h

theorem tkacMatch_reply {request reply : List UInt8} {outcome : TKACOutcome}
    (h : tkacReply request outcome = some reply) : tkacMatch request reply = some outcome := by
  unfold tkacReply at h
  split at h
  · rename_i hsome
    cases h
    obtain ⟨r, hr⟩ := Option.isSome_iff_exists.mp hsome
    obtain ⟨hlength, hmagic⟩ := tkacDecode_eq_some hr
    obtain ⟨rest, rfl⟩ := exists_of_take_magic hmagic
    rw [tkacMatch, List.length_set, List.length_set, if_pos ⟨hlength, hsome, rfl, rfl, rfl⟩]
    exact TKACOutcome.ofByte_byte outcome
  · cases h

end Tolkara
