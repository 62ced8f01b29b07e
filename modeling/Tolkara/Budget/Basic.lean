import Tolkara.Library.Compaction

/-!
# The budget for virtual reservations

`runtime/GuestVMBudget.c`. Large reservations are counted against a budget and
mapped smaller than asked once it is used up. A region remembers what a
reservation was given, its guard page and the part that is missing; a claim
remembers a later mapping of the application inside a missing part.

Addresses and sizes are natural numbers, reduced modulo `2 ^ 64` where the
source adds them without a check. The kernel is a parameter of every call, and
every call says which kernel calls it made, in order.
-/

namespace Tolkara

open Library

def addressSpace : ℕ := 2 ^ 64

/-- An address or size after an addition that may wrap. -/
def wrap (x : ℕ) : ℕ := x % addressSpace

def ENOMEM : ℕ := 12

def EINVAL : ℕ := 22

/-! ## The kernel -/

/-- The arguments of `mmap`. -/
structure MapRequest where
  address : ℕ
  size : ℕ
  prot : BitVec 32
  flags : BitVec 32
  fd : ℤ
  offset : ℤ
deriving DecidableEq

def MAP_FIXED : BitVec 32 := 0x10#32

def MAP_ANON : BitVec 32 := 0x1000#32

def PROT_NONE : BitVec 32 := 0#32

def MapRequest.fixed (r : MapRequest) : Bool := r.flags &&& MAP_FIXED != 0#32

inductive KernelCall where
  | mmap (request : MapRequest)
  | munmap (address size : ℕ)
  | mprotect (address size : ℕ) (prot : BitVec 32)
  | madvise (address size : ℕ) (advice : BitVec 32)
deriving DecidableEq

/-- What the kernel answers during one call of the budget: an address or an error
number for `mmap`, an error number or nothing for the others. `vmRegion k a` is
the answer to query number `k` for the first mapping at or above `a`. -/
structure Kernel where
  mmap : MapRequest → Except ℕ ℕ
  munmap : ℕ → ℕ → Option ℕ
  mprotect : ℕ → ℕ → BitVec 32 → Option ℕ
  madvise : ℕ → ℕ → BitVec 32 → Option ℕ
  vmRegion : ℕ → ℕ → Option (ℕ × ℕ)
  imageHeader : ℕ

/-! ## The state -/

/-- `[start, stop)` granted, `[stop, limit)` the guard, `[limit, span)` missing. -/
structure GVRegion where
  start : ℕ
  stop : ℕ
  limit : ℕ
  span : ℕ
deriving DecidableEq

structure GVClaim where
  start : ℕ
  stop : ℕ
deriving DecidableEq

structure GVBudget where
  budget : ℕ
  threshold : ℕ
  floor : ℕ
  page : ℕ
  reserved : ℕ
  regions : List GVRegion
  claims : List GVClaim
deriving DecidableEq

def gvMaxRegions : ℕ := 256

def gvMaxClaims : ℕ := 1024

def gvInit (page bytes threshold floor : ℕ) : GVBudget where
  budget := bytes
  threshold := if threshold > page then threshold else page
  floor := if floor > page then floor - floor % page else page
  page := page
  reserved := 0
  regions := []
  claims := []

namespace GVBudget

def gvEnabled (b : GVBudget) : Bool := b.budget != 0

def gvCounts (b : GVBudget) (address size : ℕ) (flags : BitVec 32) : Bool :=
  b.gvEnabled && address == 0 && flags &&& MAP_ANON != 0#32 && flags &&& MAP_FIXED == 0#32 &&
    decide (size ≥ b.threshold)

/-- Where the kernel's answer for `[address, address + size)` ends; 0 past the end
of the address space. -/
def pageEnd (b : GVBudget) (address size : ℕ) : ℕ :=
  let stop := wrap (address + size)
  let rounded := wrap (stop + (b.page - 1))
  if stop < address ∨ rounded < stop then 0 else rounded - rounded % b.page

/-! ## Pieces of a range -/

inductive Part where
  | outside
  | granted
  | guard
  | missing
deriving DecidableEq

def anchorAt (b : GVBudget) (address : ℕ) : ℕ × ℕ :=
  match b.regions.find? fun r => decide (r.start ≤ address ∧ address < r.limit) with
  | some r => (r.start, r.limit)
  | none =>
    match b.claims.find? fun c => decide (c.start ≤ address ∧ address < c.stop) with
    | some c => (c.start, c.stop)
    | none => (address, address)

/-- The first loop of `part`: the missing part `cursor` is in, if any, and
otherwise where the next one begins. -/
def missingLoop (cursor stop : ℕ) : List GVRegion → ℕ → ℕ → Except (ℕ × ℕ) ℕ
  | [], _, next => .ok next
  | r :: rest, i, next =>
    if r.limit ≤ cursor ∧ cursor < r.span then .error (min r.span stop, i)
    else
      missingLoop cursor stop rest (i + 1)
        (if cursor < r.limit ∧ r.limit < r.span then min next r.limit else next)

def ownLoop (cursor : ℕ) : List GVRegion → ℕ → ℕ → Part × ℕ × Option ℕ
  | [], _, next => (.outside, next, none)
  | r :: rest, i, next =>
    if r.start ≤ cursor ∧ cursor < r.limit then
      if cursor < r.stop then (.granted, min r.stop next, some i)
      else (.guard, min r.limit next, some i)
    else ownLoop cursor rest (i + 1) (if cursor < r.start then min next r.start else next)

/-- What the piece of `[cursor, stop)` at `cursor` is, where it ends and the index
of its region. -/
def part (b : GVBudget) (cursor stop : ℕ) (anchor : ℕ × ℕ) : Part × ℕ × Option ℕ :=
  if anchor.1 ≤ cursor ∧ cursor < anchor.2 then
    ownLoop cursor b.regions 0 (min stop anchor.2)
  else
    match missingLoop cursor stop b.regions 0 stop with
    | .error (until', i) => (.missing, until', some i)
    | .ok next => ownLoop cursor b.regions 0 next

/-! ## Claims and regions -/

def claimLoop (b : GVBudget) (address size : ℕ) :
    List GVRegion → List GVRegion → GVBudget
  | done, [] => { b with regions := done }
  | done, r :: rest =>
    if wrap (address + size) ≤ r.limit ∨ address ≥ r.span then
      claimLoop b address size (done ++ [r]) rest
    else if b.claims.length < gvMaxClaims then
      { b with
        regions := done ++ r :: rest
        claims := b.claims ++ [⟨address, b.pageEnd address size⟩] }
    else
      claimLoop b address size
        (done ++ [{ r with span := if address > r.limit then address else r.limit }]) rest

def claim (b : GVBudget) (address size : ℕ) : GVBudget := b.claimLoop address size [] b.regions

/-- What becomes of a claim when `[start, stop)` is unmapped. -/
def unclaimOne (start stop : ℕ) (c : GVClaim) : Option GVClaim :=
  if start ≤ c.start ∧ stop ≥ c.stop then none
  else if start ≤ c.start ∧ stop > c.start then some { c with start := stop }
  else if start < c.stop ∧ stop ≥ c.stop then some { c with stop := start }
  else some c

def unclaim (claims : List GVClaim) (start stop : ℕ) : List GVClaim :=
  (compact (fun _ c => ((), unclaimOne start stop c)) () claims).2

/-- `[start, stop)` of the own mapping of region `i` is gone. -/
def forget (b : GVBudget) (i start stop : ℕ) : GVBudget :=
  match b.regions[i]? with
  | none => b
  | some r =>
    let released := wrap (b.reserved + addressSpace - (stop - start))
    if start ≤ r.start then
      { b with
        regions := b.regions.set i { r with start := stop, stop := max r.stop stop }
        reserved := released }
    else if stop ≥ r.limit then
      { b with
        regions := b.regions.set i { r with stop := min r.stop start, limit := start }
        reserved := released }
    else if b.regions.length < gvMaxRegions then
      { b with
        regions := b.regions.set i { r with start := stop, stop := max r.stop stop } ++
          [⟨r.start, min r.stop start, start, start⟩]
        reserved := released }
    else b

def sweepOne (claims : List GVClaim) (r : GVRegion) : List GVClaim × Option GVRegion :=
  if r.start < r.limit then (claims, some r) else (unclaim claims r.limit r.span, none)

/-- Regions with nothing of their own left are gone. -/
def sweep (b : GVBudget) : GVBudget :=
  let swept := compact sweepOne b.claims b.regions
  { b with regions := swept.2, claims := swept.1 }

/-! ## Reserving -/

/-- What a call of the budget gives back. -/
structure Outcome where
  budget : GVBudget
  answer : Except ℕ ℕ
  granted : ℕ
  calls : List KernelCall

/-- Whether nothing is mapped in `[start, start + size)`. -/
def unmapped (kernel : Kernel) (start size : ℕ) : Bool :=
  match kernel.vmRegion 0 start with
  | none => true
  | some (address, _) => decide (address ≥ wrap (start + size))

def overlapsReservation (b : GVBudget) (start size : ℕ) : Bool :=
  let stop := b.pageEnd start size
  stop == 0 || b.regions.any fun r => decide (start < r.span ∧ stop > r.start)

/-- The search for the end of the spans in the way. -/
def nextSpan (regions : List GVRegion) (start size : ℕ) : ℕ :=
  regions.foldl
    (fun next r =>
      if start < r.span ∧ wrap (start + size) > r.start ∧ r.span > next then r.span else next)
    start

def freeSpanLoop (b : GVBudget) (kernel : Kernel) (size : ℕ) : ℕ → ℕ → ℕ
  | 0, _ => 0
  | fuel + 1, start =>
    if wrap (start + size) > start then
      let next := nextSpan b.regions start size
      if next ≠ start then freeSpanLoop b kernel size fuel next
      else match kernel.vmRegion (fuel + 1) start with
        | none => start
        | some (address, length) =>
          if address ≥ wrap (start + size) then start
          else freeSpanLoop b kernel size fuel (wrap (address + length))
    else 0

def freeSpan (b : GVBudget) (kernel : Kernel) (start size : ℕ) : ℕ :=
  b.freeSpanLoop kernel size 4096 start

/-- A new reservation, as `gv_reserve` asks the kernel for it. -/
def reservation (address size : ℕ) (prot flags : BitVec 32) (fd : ℤ) : MapRequest :=
  ⟨address, size, prot, flags, fd, 0⟩

def firstWant (b : GVBudget) (size : ℕ) : ℕ :=
  let room := if b.reserved < b.budget then b.budget - b.reserved else 0
  let want := if size > room then if room > b.floor then room else b.floor else size
  let want := if want > size then size else want
  if want < size then want - want % b.page else want

def nextWant (b : GVBudget) (want : ℕ) : ℕ :=
  let half := want / 2 - want / 2 % b.page
  if half < b.page then b.page else half

def mappedFor (b : GVBudget) (size want : ℕ) : ℕ :=
  if want < size then wrap (want + b.page) else want

/-- The retry loop of `gv_reserve`: the answer, what was wanted last and the
kernel calls. -/
def reserveLoop (b : GVBudget) (kernel : Kernel) (size : ℕ) (prot flags : BitVec 32) (fd : ℤ) :
    ℕ → ℕ → Except ℕ ℕ × ℕ × List KernelCall
  | 0, want => (.error ENOMEM, want, [])
  | fuel + 1, want =>
    let request := reservation 0 (b.mappedFor size want) prot flags fd
    match kernel.mmap request with
    | .ok address => (.ok address, want, [.mmap request])
    | .error code =>
      if code ≠ ENOMEM ∨ want ≤ b.page then (.error code, want, [.mmap request])
      else
        let rest := reserveLoop b kernel size prot flags fd fuel (b.nextWant want)
        (rest.1, rest.2.1, .mmap request :: rest.2.2)

/-- The placement cannot stay where the kernel made it. -/
def Misplaced (b : GVBudget) (kernel : Kernel) (start size want : ℕ) : Prop :=
  let mapped := b.mappedFor size want
  let asked := b.pageEnd start size
  b.overlapsReservation start size = true ∨
    want < size ∧ asked > wrap (start + mapped) ∧
      unmapped kernel (wrap (start + mapped))
        (wrap (asked + addressSpace - wrap (start + mapped))) = false

instance (b : GVBudget) (kernel : Kernel) (start size want : ℕ) :
    Decidable (b.Misplaced kernel start size want) :=
  inferInstanceAs (Decidable (_ ∨ _))

def newRegion (b : GVBudget) (start size want : ℕ) : GVRegion :=
  let own := b.pageEnd start want
  if want < size then
    let limit := wrap (own + b.page)
    let asked := b.pageEnd start size
    ⟨start, own, limit, if asked > limit then asked else limit⟩
  else ⟨start, own, own, own⟩

/-- The end of `gv_reserve`: the guard page is protected and the region counted. -/
def settle (b : GVBudget) (start size want : ℕ) (calls : List KernelCall) : Outcome :=
  let region := b.newRegion start size want
  { budget := { b with
      regions := b.regions ++ [region]
      reserved := wrap (b.reserved + (region.limit - region.start)) }
    answer := .ok start
    granted := want
    calls := calls ++ if want < size then [.mprotect region.stop b.page PROT_NONE] else [] }

def gvReserve (b : GVBudget) (kernel : Kernel) (size : ℕ) (prot flags : BitVec 32) (fd : ℤ) :
    Outcome :=
  if b.regions.length = gvMaxRegions then
    let request := reservation 0 size prot flags fd
    match kernel.mmap request with
    | .error code => ⟨b, .error code, 0, [.mmap request]⟩
    | .ok address => ⟨b.claim address size, .ok address, size, [.mmap request]⟩
  else
    let first := b.firstWant size
    match b.reserveLoop kernel size prot flags fd (first + 1) first with
    | (.error code, _, calls) => ⟨b, .error code, 0, calls⟩
    | (.ok start, want, calls) =>
      if b.Misplaced kernel start size want then
        let mapped := b.mappedFor size want
        let hole := b.freeSpan kernel kernel.imageHeader size
        let request := reservation hole mapped prot flags fd
        if hole = 0 then ⟨b, .error ENOMEM, 0, calls ++ [.munmap start mapped]⟩
        else match kernel.mmap request with
          | .error _ => ⟨b, .error ENOMEM, 0, calls ++ [.mmap request, .munmap start mapped]⟩
          | .ok moved =>
            if moved = hole then
              b.settle hole size want (calls ++ [.mmap request, .munmap start mapped])
            else
              ⟨b, .error ENOMEM, 0,
                calls ++ [.mmap request, .munmap moved mapped, .munmap start mapped]⟩
      else b.settle start size want calls

/-! ## Mapping -/

/-- Whether some piece of `[cursor, stop)` is a guard page or missing. -/
def reaches (b : GVBudget) (anchor : ℕ × ℕ) (stop : ℕ) : ℕ → ℕ → Bool
  | 0, _ => false
  | fuel + 1, cursor =>
    if cursor < stop then
      let p := b.part cursor stop anchor
      if p.1 = .guard ∨ p.1 = .missing then true else b.reaches anchor stop fuel p.2.1
    else false

def gvMap (b : GVBudget) (kernel : Kernel) (request : MapRequest) : Outcome :=
  let mapped (b : GVBudget) (request : MapRequest) : Outcome :=
    match kernel.mmap request with
    | .error code => ⟨b, .error code, 0, [.mmap request]⟩
    | .ok address =>
      ⟨if b.gvEnabled then b.claim address request.size else b, .ok address, 0, [.mmap request]⟩
  if b.gvEnabled = false then mapped b request
  else
    let cursor := request.address
    let stop := wrap (cursor + request.size)
    let missing := cursor != 0 && b.reaches (b.anchorAt cursor) stop (stop - cursor) cursor
    if missing = true ∧ request.fixed = true then ⟨b, .error ENOMEM, 0, []⟩
    else mapped b (if missing then { request with address := 0 } else request)

/-! ## Unmapping, protecting, advising -/

inductive Operation where
  | unmap
  | protect (prot : BitVec 32)
  | advise (advice : BitVec 32)
deriving DecidableEq

namespace Operation

def call (address size : ℕ) : Operation → KernelCall
  | .unmap => .munmap address size
  | .protect prot => .mprotect address size prot
  | .advise advice => .madvise address size advice

def ask (kernel : Kernel) (address size : ℕ) : Operation → Option ℕ
  | .unmap => kernel.munmap address size
  | .protect prot => kernel.mprotect address size prot
  | .advise advice => kernel.madvise address size advice

end Operation

/-- What a piece that was unmapped is for the budget. -/
def release (b : GVBudget) (region : Option ℕ) (start stop : ℕ) : GVBudget :=
  match region with
  | some i => b.forget i start stop
  | none => { b with claims := unclaim b.claims start stop }

/-- The main loop of `apply`. The answer is the error number of the last piece the
kernel refused. -/
def applyLoop (kernel : Kernel) (op : Operation) (anchor : ℕ × ℕ) (stop : ℕ) :
    ℕ → GVBudget → ℕ → Option ℕ → GVBudget × Option ℕ × List KernelCall
  | 0, b, _, code => (b, code, [])
  | fuel + 1, b, cursor, code =>
    if cursor < stop then
      let p := b.part cursor stop anchor
      if p.1 = .missing ∨ p.1 = .guard ∧ op ≠ .unmap then
        applyLoop kernel op anchor stop fuel b p.2.1 code
      else
        let length := p.2.1 - cursor
        let done := op.ask kernel cursor length
        let next := if done = none ∧ op = .unmap then b.release p.2.2 cursor p.2.1 else b
        let rest := applyLoop kernel op anchor stop fuel next p.2.1 (done <|> code)
        (rest.1, rest.2.1, op.call cursor length :: rest.2.2)
    else (b, code, [])

/-- The answer 0, or -1 with its error number. -/
def status (code : Option ℕ) : Except ℕ ℕ := code.elim (.ok 0) .error

/-- An `mprotect` that would make memory usable. -/
def Operation.opens : Operation → Bool
  | .protect prot => prot != PROT_NONE
  | _ => false

def apply (b : GVBudget) (kernel : Kernel) (op : Operation) (address size : ℕ) : Outcome :=
  let stop := b.pageEnd address size
  if size = 0 then ⟨b, status (op.ask kernel address size), 0, [op.call address size]⟩
  else if stop = 0 ∨ address % b.page ≠ 0 then ⟨b, .error EINVAL, 0, []⟩
  else
    let anchor := b.anchorAt address
    if op.opens = true ∧ b.reaches anchor stop (stop - address) address = true then
      ⟨b, .error ENOMEM, 0, []⟩
    else
      let done := applyLoop kernel op anchor stop (stop - address) b address none
      ⟨if op = .unmap then done.1.sweep else done.1, status done.2.1, 0, done.2.2⟩

/-- `gv_unmap`, `gv_protect` and `gv_advise`. -/
def gvApply (b : GVBudget) (kernel : Kernel) (op : Operation) (address size : ℕ) : Outcome :=
  if b.gvEnabled then b.apply kernel op address size
  else ⟨b, status (op.ask kernel address size), 0, [op.call address size]⟩

def gvUnmap (b : GVBudget) (kernel : Kernel) (address size : ℕ) : Outcome :=
  b.gvApply kernel .unmap address size

def gvProtect (b : GVBudget) (kernel : Kernel) (address size : ℕ) (prot : BitVec 32) : Outcome :=
  b.gvApply kernel (.protect prot) address size

def gvAdvise (b : GVBudget) (kernel : Kernel) (address size : ℕ) (advice : BitVec 32) : Outcome :=
  b.gvApply kernel (.advise advice) address size

end GVBudget

/-! ## Runs -/

inductive BudgetCall where
  | reserve (size : BitVec 64) (prot flags : BitVec 32) (fd : ℤ)
  | map (address size : BitVec 64) (prot flags : BitVec 32) (fd offset : ℤ)
  | unmap (address size : BitVec 64)
  | protect (address size : BitVec 64) (prot : BitVec 32)
  | advise (address size : BitVec 64) (advice : BitVec 32)

/-- A call with what the kernel answers during it. -/
structure BudgetStep where
  call : BudgetCall
  kernel : Kernel

def BudgetStep.outcome (b : GVBudget) (s : BudgetStep) : GVBudget.Outcome :=
  match s.call with
  | .reserve size prot flags fd => b.gvReserve s.kernel size.toNat prot flags fd
  | .map address size prot flags fd offset =>
    b.gvMap s.kernel ⟨address.toNat, size.toNat, prot, flags, fd, offset⟩
  | .unmap address size => b.gvUnmap s.kernel address.toNat size.toNat
  | .protect address size prot => b.gvProtect s.kernel address.toNat size.toNat prot
  | .advise address size advice => b.gvAdvise s.kernel address.toNat size.toNat advice

def GVBudget.run (b : GVBudget) (steps : List BudgetStep) : GVBudget :=
  steps.foldl (fun b s => (s.outcome b).budget) b

end Tolkara
