import Tolkara.Library.Scanning
import Tolkara.SoftwareVM.Copy

/-!
# Strings in the software memory

The string routines of `runtime/GuestSoftwareVM.c`. Where an operand lies in the
arena they read it in chunks that end with its page, and give up the process when
a chunk cannot be read. `Libc` has the functions they stand for, on one memory;
`routines_match` says that they return the same on the two memories taken
together, and that every range they read lies where it may (`Operand.Holds`).
-/

namespace Tolkara

open Library

/-! ## The functions of the C library -/

namespace Libc

/-- What a routine decides from the byte, or the two bytes, at an index. -/
def zeroAt (i : ℕ) (b : UInt8) : Option ℕ := if b = 0 then some i else none

def matchAt (p : ℕ) (value : UInt8) (i : ℕ) (b : UInt8) : Option (Option ℕ) :=
  if b = value then some (some (p + i)) else none

def charAt (p : ℕ) (value : UInt8) (i : ℕ) (b : UInt8) : Option (Option ℕ) :=
  if b = value then some (some (p + i)) else if b = 0 then some none else none

def differAt (_ : ℕ) (b : UInt8 × UInt8) : Option ℤ :=
  if b.1 ≠ b.2 then some (b.1.toNat - b.2.toNat) else none

def settleAt (_ : ℕ) (b : UInt8 × UInt8) : Option ℤ :=
  if b.1 ≠ b.2 then some (b.1.toNat - b.2.toNat) else if b.1 = 0 then some 0 else none

variable (m : ℕ → UInt8)

/-- The test of a routine at the indices of one operand, and of two. -/
def at1 {α : Type} (test : ℕ → UInt8 → Option α) (p : ℕ) : ℕ → Option α :=
  fun i => test i (m (p + i))

def at2 {α : Type} (test : ℕ → UInt8 × UInt8 → Option α) (l r : ℕ) : ℕ → Option α :=
  fun i => test i (m (l + i), m (r + i))

def strnlen (p limit : ℕ) : ℕ := (firstFrom (at1 m zeroAt p) limit 0).getD limit

/-- The address space bounds the strings without a limit. -/
def strlen (p : ℕ) : ℕ := strnlen m p uint64Max

/-- The bytes of a string up to its terminator, at most `limit`. -/
def textLength (p limit : ℕ) : ℕ := examined (at1 m zeroAt p) limit 0

def memcmp (l r size : ℕ) : ℤ := (firstFrom (at2 m differAt l r) size 0).getD 0

def memchr (p : ℕ) (value : BitVec 32) (size : ℕ) : Option ℕ :=
  (firstFrom (at1 m (matchAt p (byteOf value.toNat 0)) p) size 0).getD none

def strncmp (l r limit : ℕ) : ℤ := (firstFrom (at2 m settleAt l r) limit 0).getD 0

def strcmp (l r : ℕ) : ℤ := strncmp m l r uint64Max

def strchr (p : ℕ) (value : BitVec 32) : Option ℕ :=
  (firstFrom (at1 m (charAt p (byteOf value.toNat 0)) p) uint64Max 0).getD none

end Libc

namespace SoftwareVM

open Libc

/-! ## The routines -/

/-- The ranges a routine reads, each an address with a number of bytes. -/
abbrev Reading (α : Type) := Scan (ℕ × ℕ) α

def scanChunk (v : SoftwareVM) (pointer remaining : ℕ) : ℕ :=
  let n := if remaining < 256 then remaining else 256
  if v.gsvAddress pointer then
    let pageLeft := pageSize - pointer % pageSize
    if n > pageLeft then pageLeft else n
  else n

def scanRead (v : SoftwareVM) (source size : ℕ) : Reading Buffer :=
  if v.gsvAddress source = false then ⟨.returned fun j => v.host (source + j), [(source, size)]⟩
  else
    let answer := v.memory.gmSparseRead source (some fun _ => 0) size
    if answer.1 ≠ .ok then ⟨.aborted, [(source, size)]⟩
    else ⟨.returned fun j => answer.2.getD j 0, [(source, size)]⟩

/-- A round reads a byte at least, so no scan of the address space takes more. -/
def scanRounds : ℕ := 2 ^ 64

def fetchOne (v : SoftwareVM) (p limit done : ℕ) : Reading (ℕ × Buffer) :=
  let n := v.scanChunk (p + done) (limit - done)
  (v.scanRead (p + done) n).andThen fun bytes => .pure (n, bytes)

/-- The length of the next chunk of two operands. -/
def chunkBoth (v : SoftwareVM) (l r limit done : ℕ) : ℕ :=
  let n := v.scanChunk (l + done) (limit - done)
  let other := v.scanChunk (r + done) (limit - done)
  if n > other then other else n

def readBoth (v : SoftwareVM) (a b n : ℕ) : Reading (ℕ × (ℕ → UInt8 × UInt8)) :=
  (v.scanRead a n).andThen fun aa => (v.scanRead b n).andThen fun bb =>
    .pure (n, fun i => (aa i, bb i))

/-- Native strings may be tiny objects: not beyond their terminator. -/
def trim (v : SoftwareVM) (a n : ℕ) : Reading ℕ :=
  if v.gsvAddress a = false then
    let length := Libc.strnlen v.host a n
    ⟨.returned (if length < n then length + 1 else n), [(a, textLength v.host a n)]⟩
  else .pure n

def gsvStrnlen (v : SoftwareVM) (string limit : ℕ) : Reading ℕ :=
  if limit = 0 then .pure 0
  else if v.gsvAddress string = false then
    ⟨.returned (strnlen v.host string limit), [(string, textLength v.host string limit)]⟩
  else
    scanLoop (fun done => decide (done < limit)) (v.fetchOne string limit) zeroAt
      (fun done => done) scanRounds 0

def gsvStrlen (v : SoftwareVM) (string : ℕ) : Reading ℕ :=
  if v.gsvAddress string then v.gsvStrnlen string uint64Max
  else ⟨.returned (strlen v.host string), [(string, textLength v.host string uint64Max)]⟩

def gsvMemcmp (v : SoftwareVM) (left right size : ℕ) : Reading ℤ :=
  if size = 0 then .pure 0
  else if !v.gsvAddress left && !v.gsvAddress right then
    ⟨.returned (memcmp v.host left right size), [(left, size), (right, size)]⟩
  else
    scanLoop (fun done => decide (done < size))
      (fun done => v.readBoth (left + done) (right + done) (v.chunkBoth left right size done))
      differAt (fun _ => 0) scanRounds 0

def gsvMemchr (v : SoftwareVM) (source : ℕ) (value : BitVec 32) (size : ℕ) : Reading (Option ℕ) :=
  if size = 0 then .pure none
  else if v.gsvAddress source = false then
    ⟨.returned (memchr v.host source value size),
      [(source, examined (at1 v.host (matchAt source (byteOf value.toNat 0)) source) size 0)]⟩
  else
    scanLoop (fun done => decide (done < size)) (v.fetchOne source size)
      (matchAt source (byteOf value.toNat 0)) (fun _ => none) scanRounds 0

def gsvStrncmp (v : SoftwareVM) (left right limit : ℕ) : Reading ℤ :=
  if limit = 0 then .pure 0
  else if !v.gsvAddress left && !v.gsvAddress right then
    ⟨.returned (strncmp v.host left right limit),
      [(left, textLength v.host left limit), (right, textLength v.host right limit)]⟩
  else
    scanLoop (fun done => decide (done < limit))
      (fun done =>
        (v.trim (left + done) (v.chunkBoth left right limit done)).andThen fun n =>
          (v.trim (right + done) n).andThen fun n => v.readBoth (left + done) (right + done) n)
      settleAt (fun _ => 0) scanRounds 0

def gsvStrcmp (v : SoftwareVM) (left right : ℕ) : Reading ℤ := v.gsvStrncmp left right uint64Max

def gsvStrchr (v : SoftwareVM) (string : ℕ) (value : BitVec 32) : Reading (Option ℕ) :=
  if v.gsvAddress string = false then
    ⟨.returned (strchr v.host string value),
      [(string, examined (at1 v.host (charAt string (byteOf value.toNat 0)) string) uint64Max 0)]⟩
  else
    scanLoop (fun _ => true)
      (fun done =>
        let n := v.scanChunk (string + done) uint64Max
        (v.scanRead (string + done) n).andThen fun bytes => .pure (n, bytes))
      (charAt string (byteOf value.toNat 0)) (fun _ => none) scanRounds 0

/-! ## Where the routines are defined -/

/-- An operand: its address, how many bytes decide, and how many belong to the object. -/
structure Operand where
  pointer : ℕ
  count : ℕ
  extent : ℕ

/-- The bytes that decide can be read, and the object does not straddle the arena's edge. -/
structure Operand.Defined (o : Operand) (v : SoftwareVM) : Prop where
  whole : v.Whole o.pointer o.count
  permits : v.Permits GM.READ o.pointer o.count
  object : v.gsvAddress o.pointer = false → v.Whole o.pointer o.extent

/-- A range that is read for the operand. In the arena it ends with the page of the deciding byte
at the latest, in the host memory with the object. -/
def Operand.Holds (o : Operand) (v : SoftwareVM) (r : ℕ × ℕ) : Prop :=
  o.pointer ≤ r.1 ∧ r.1 + r.2 ≤
    if v.gsvAddress o.pointer then pageBase (o.pointer + (o.count - 1)) + pageSize
    else o.pointer + o.extent

/-- Where its operands are defined the routine returns, with such a result. -/
def Matches {α : Type} (v : SoftwareVM) (s : Reading α) (operands : List Operand)
    (result : α → Prop) : Prop :=
  (∀ o ∈ operands, o.Defined v) →
    ∃ a, s.Returns a (fun r => ∃ o ∈ operands, o.Holds v r) ∧ result a

/-- The operand of a routine that looks at one string. -/
def single {α : Type} (v : SoftwareVM) (test : ℕ → UInt8 → Option α) (p limit : ℕ) : Operand :=
  ⟨p, examined (at1 v.byte test p) limit 0, examined (at1 v.byte test p) limit 0⟩

/-- A string that ends. -/
def Terminated (v : SoftwareVM) (p : ℕ) : Prop := ∃ i < uint64Max, v.byte (p + i) = 0

/-- The operands of a routine that compares two objects, `extent` bytes each. -/
def both {α : Type} (v : SoftwareVM) (test : ℕ → UInt8 × UInt8 → Option α) (l r limit : ℕ)
    (extent : ℕ → ℕ) : List Operand :=
  [⟨l, examined (at2 v.byte test l r) limit 0, extent l⟩,
    ⟨r, examined (at2 v.byte test l r) limit 0, extent r⟩]

theorem Terminated.charAt_ne_none {v : SoftwareVM} {p : ℕ} (h : v.Terminated p) (value : UInt8) :
    firstFrom (at1 v.byte (charAt p value) p) uint64Max 0 ≠ none := by
  obtain ⟨i, hi, hzero⟩ := h
  intro hnone
  have hi' := firstFrom_eq_none_iff.1 hnone i hi
  rw [Nat.zero_add, at1, charAt, hzero] at hi'
  split at hi' <;> cases hi'

/-! ## Chunks -/

theorem scanChunk_le (v : SoftwareVM) (pointer remaining : ℕ) :
    v.scanChunk pointer remaining ≤ remaining := by
  unfold scanChunk
  dsimp only
  split_ifs <;> omega

theorem scanChunk_pos (v : SoftwareVM) (pointer : ℕ) {remaining : ℕ} (h : 0 < remaining) :
    0 < v.scanChunk pointer remaining := by
  have hmod := Nat.mod_lt pointer (show 0 < pageSize by decide)
  unfold scanChunk
  dsimp only
  split_ifs <;> omega

theorem scanChunk_page {v : SoftwareVM} {pointer : ℕ} (h : v.gsvAddress pointer = true)
    (remaining : ℕ) : pointer % pageSize + v.scanChunk pointer remaining ≤ pageSize := by
  have hmod := Nat.mod_lt pointer (show 0 < pageSize by decide)
  unfold scanChunk
  dsimp only
  rw [if_pos h]
  split_ifs <;> omega

/-- How far a chunk at `done` may go: to the end of the page in the arena, and to the end of the
object in the host memory. -/
def Operand.Allows (o : Operand) (v : SoftwareVM) (done n : ℕ) : Prop :=
  if v.gsvAddress o.pointer then (o.pointer + done) % pageSize + n ≤ pageSize
  else done + n ≤ o.extent

theorem Operand.Allows.mono {o : Operand} {v : SoftwareVM} {done n n' : ℕ}
    (h : o.Allows v done n) (hn : n' ≤ n) : o.Allows v done n' := by
  unfold Operand.Allows at h ⊢
  split_ifs at h ⊢ <;> omega

/-- A range of an operand that may be read. -/
theorem Operand.Allows.holds {o : Operand} {v : SoftwareVM} {done n : ℕ} (h : o.Allows v done n)
    (hdone : done < o.count) : o.Holds v (o.pointer + done, n) := by
  refine ⟨Nat.le_add_right _ _, ?_⟩
  unfold Operand.Allows at h
  dsimp only
  split_ifs at h ⊢
  · unfold pageBase pageSize at *
    omega
  · omega

theorem readable_chunk {v : SoftwareVM} (hv : v.Started) {o : Operand} (ho : o.Defined v)
    (ha : v.gsvAddress o.pointer = true) {done n : ℕ} (hdone : done < o.count) (hn : n ≠ 0)
    (hpage : (o.pointer + done) % pageSize + n ≤ pageSize) :
    v.memory.checkAccess (o.pointer + done) n GM.READ = .ok := by
  have hinv := hv.inv (gsvAddress_iff.1 ha).1
  obtain ⟨t, ht, hread⟩ := ho.permits ha (o.pointer + done) (by omega) (by omega)
  have hsame : ∀ x, o.pointer + done ≤ x → x < o.pointer + done + n →
      TaggedInterval.cover v.memory.regions x = some t := by
    intro x h1 h2
    have hbase : pageBase x = pageBase (o.pointer + done) := by
      unfold pageBase pageSize at *
      omega
    rw [← Space.cover_pageBase hinv.aligned, hbase, Space.cover_pageBase hinv.aligned, ht]
  rw [Space.checkAccess_ok_iff hinv]
  refine ⟨?_, fun x h1 h2 => ⟨t, hsame x h1 h2, hread⟩⟩
  have hfirst := Space.inside_of_cover hinv (x := o.pointer + done) (by rw [ht]; nofun)
  have hlast := Space.inside_of_cover hinv (x := o.pointer + done + n - 1) (by
    rw [hsame _ (by omega) (by omega)]
    nofun)
  unfold Space.Contains
  omega

theorem scanRead_operand {v : SoftwareVM} (hv : v.Started) {o : Operand} (ho : o.Defined v)
    {done n : ℕ} (hdone : done < o.count) (hn : n ≠ 0) (hallows : o.Allows v done n) :
    ∃ bytes, (v.scanRead (o.pointer + done) n).Returns bytes (o.Holds v) ∧
      ∀ i < n, done + i < o.count → bytes i = v.byte (o.pointer + (done + i)) := by
  have hkind := ho.whole.eq (x := o.pointer + done) (by omega) (by omega)
  have hholds := hallows.holds hdone
  have hreads : ∀ r ∈ [(o.pointer + done, n)], o.Holds v r := by
    intro r hr
    rw [List.mem_singleton.1 hr]
    exact hholds
  unfold scanRead
  by_cases ha : v.gsvAddress o.pointer = true
  · rw [if_neg (by rw [hkind, ha]; nofun)]
    have hallows' := hallows
    unfold Operand.Allows at hallows'
    rw [if_pos ha] at hallows'
    have hinv := hv.inv (gsvAddress_iff.1 ha).1
    have hok := readable_chunk hv ho ha hdone hn hallows'
    have hin := ((Space.checkAccess_ok_iff hinv).1 hok).1
    rw [Space.read_flat hinv hin fun _ => Option.some_ne_none (fun _ => 0 : Buffer)]
    have haccess : v.memory.flat.access (o.pointer + done) n GM.READ = .ok := by
      rw [← Space.checkAccess_flat hinv hin, hok]
    dsimp only
    rw [Flat.read, if_pos haccess, if_neg (not_not.2 haccess)]
    refine ⟨_, ⟨rfl, hreads⟩, ?_⟩
    intro i hi hcount
    have hkind' := ho.whole.eq (x := o.pointer + (done + i)) (by omega) (by omega)
    rw [byte, hkind', if_pos ha]
    simp [Flat.bytes, List.getD_eq_getElem?_getD, hi, Nat.add_assoc]
  · have ha' : v.gsvAddress o.pointer = false := by simpa using ha
    rw [if_pos (by rw [hkind, ha'])]
    refine ⟨_, ⟨rfl, hreads⟩, ?_⟩
    intro i hi hcount
    have hkind' := ho.whole.eq (x := o.pointer + (done + i)) (by omega) (by omega)
    rw [byte, hkind', ha', if_neg Bool.false_ne_true, Nat.add_assoc]

/-- A software operand takes fewer bytes than there are rounds. -/
theorem count_lt_scanRounds {v : SoftwareVM} (hv : v.Started) {o : Operand} (ho : o.Defined v)
    (ha : v.gsvAddress o.pointer = true) : o.count < scanRounds := by
  obtain ⟨he, hbase, -⟩ := gsvAddress_iff.1 ha
  have hpos := (hv.inv he).base_pos
  rw [(hv.arena he).1] at hpos
  have hle := ho.whole.1
  unfold scanRounds
  omega

/-! ## One operand -/

section Single

variable {v : SoftwareVM} {α : Type} {test : ℕ → UInt8 → Option α} {p limit : ℕ}

/-- On a string of the host the two memories are one. -/
theorem host_at1 (hwhole : v.Whole p (examined (at1 v.byte test p) limit 0))
    (ha : v.gsvAddress p = false) :
    examined (at1 v.host test p) limit 0 = examined (at1 v.byte test p) limit 0 ∧
      firstFrom (at1 v.host test p) limit 0 = firstFrom (at1 v.byte test p) limit 0 := by
  apply examined_congr
  intro j hj
  have hkind := hwhole.eq (x := p + (0 + j)) (by omega) (by omega)
  unfold at1
  rw [byte, hkind]
  change test (0 + j) (v.host (p + (0 + j))) = test (0 + j) (if v.gsvAddress p = true then _ else _)
  rw [ha, if_neg Bool.false_ne_true]

/-- A routine that hands a string of the host on reads what decides. -/
theorem returns_host (ha : v.gsvAddress p = false) {a : α} {count : ℕ}
    (hcount : count = (single v test p limit).count) :
    (⟨.returned a, [(p, count)]⟩ : Reading α).Returns a
      fun r => ∃ o ∈ [single v test p limit], o.Holds v r := by
  refine ⟨rfl, ?_⟩
  intro r hr
  rw [List.mem_singleton.1 hr]
  refine ⟨_, List.mem_singleton_self _, le_rfl, ?_⟩
  change p + count ≤ if v.gsvAddress p = true then _ else p + (single v test p limit).count
  rw [ha, hcount, if_neg Bool.false_ne_true]

theorem scan_single (hv : v.Started) (ho : (single v test p limit).Defined v)
    (ha : v.gsvAddress p = true) {more : ℕ → Bool} {remaining : ℕ → ℕ} {finish : ℕ → α}
    (hmore : ∀ done < (single v test p limit).count, more done = true ∧ 0 < remaining done)
    (hend : firstFrom (at1 v.byte test p) limit 0 = none →
      more limit = false ∧ ∀ done < limit, done + remaining done ≤ limit) :
    (scanLoop more (fun done =>
      (v.scanRead (p + done) (v.scanChunk (p + done) (remaining done))).andThen fun bytes =>
        .pure (v.scanChunk (p + done) (remaining done), bytes)) test finish scanRounds 0).Returns
      ((firstFrom (at1 v.byte test p) limit 0).getD (finish limit))
      fun r => ∃ o ∈ [single v test p limit], o.Holds v r := by
  have hholds : ∀ r, (single v test p limit).Holds v r →
      ∃ o ∈ [single v test p limit], o.Holds v r :=
    fun r hr => ⟨_, List.mem_singleton_self _, hr⟩
  refine scanLoop_returns (B := fun i => v.byte (p + i)) (fun i => rfl) ?_
    (fun done hdone => (hmore done hdone).1) (fun hno => (hend hno).1)
    (count_lt_scanRounds hv ho ha)
  intro done hdone
  have hpos := v.scanChunk_pos (p + done) (hmore done hdone).2
  have hallows : (single v test p limit).Allows v done
      (v.scanChunk (p + done) (remaining done)) := by
    have hkind := ho.whole.eq (x := p + done) (Nat.le_add_right _ _) (Nat.add_lt_add_left hdone _)
    change if v.gsvAddress p = true then (p + done) % pageSize + _ ≤ pageSize else _
    rw [if_pos ha]
    exact scanChunk_page (hkind.trans ha) _
  obtain ⟨bytes, hbytes, hagrees⟩ := scanRead_operand hv ho hdone hpos.ne' hallows
  refine ⟨(v.scanChunk (p + done) (remaining done), bytes), ?_, hpos, ?_, hagrees⟩
  · exact Scan.Returns.andThen ⟨hbytes.1, fun r hr => hholds r (hbytes.2 r hr)⟩
      (Scan.returns_pure _ _)
  · intro hno
    have hle := v.scanChunk_le (p + done) (remaining done)
    have hlimit := examined_le (at1 v.byte test p) limit 0
    have := (hend hno).2 done (lt_of_lt_of_le hdone hlimit)
    change done + v.scanChunk (p + done) (remaining done) ≤ limit
    omega

theorem scan_limited (hv : v.Started) (ho : (single v test p limit).Defined v)
    (ha : v.gsvAddress p = true) (finish : ℕ → α) :
    (scanLoop (fun done => decide (done < limit)) (v.fetchOne p limit) test finish
      scanRounds 0).Returns ((firstFrom (at1 v.byte test p) limit 0).getD (finish limit))
      fun r => ∃ o ∈ [single v test p limit], o.Holds v r := by
  apply scan_single hv ho ha
  · intro done hdone
    have hlt : done < limit := lt_of_lt_of_le hdone (examined_le _ _ _)
    exact ⟨decide_eq_true hlt, by omega⟩
  · exact fun _ => ⟨decide_eq_false (lt_irrefl limit), fun done hdone => by omega⟩

end Single

theorem gsvStrnlen_matches {v : SoftwareVM} (hv : v.Started) (p limit : ℕ) :
    v.Matches (v.gsvStrnlen p limit) [single v zeroAt p limit] (· = strnlen v.byte p limit) := by
  intro hdefined
  have ho := hdefined _ (List.mem_singleton_self _)
  refine ⟨_, ?_, rfl⟩
  unfold gsvStrnlen
  by_cases h0 : limit = 0
  · rw [if_pos h0, h0]
    exact Scan.returns_pure _ _
  rw [if_neg h0]
  by_cases ha : v.gsvAddress p = false
  · obtain ⟨hcount, hfirst⟩ := host_at1 (p := p) ho.whole ha
    rw [if_pos ha]
    unfold strnlen
    rw [hfirst]
    exact returns_host ha hcount
  · rw [if_neg ha]
    exact scan_limited hv ho (Bool.eq_true_of_not_eq_false ha) _

theorem gsvStrlen_matches {v : SoftwareVM} (hv : v.Started) (p : ℕ) :
    v.Matches (v.gsvStrlen p) [single v zeroAt p uint64Max] (· = strlen v.byte p) := by
  by_cases ha : v.gsvAddress p = true
  · unfold gsvStrlen
    rw [if_pos ha]
    exact gsvStrnlen_matches hv p uint64Max
  · have heq : v.gsvStrlen p = v.gsvStrnlen p uint64Max := by
      unfold gsvStrlen gsvStrnlen
      rw [if_neg ha, if_neg (by decide), if_pos (by simpa using ha)]
      rfl
    rw [heq]
    exact gsvStrnlen_matches hv p uint64Max

theorem gsvMemchr_matches {v : SoftwareVM} (hv : v.Started) (p : ℕ) (value : BitVec 32)
    (size : ℕ) :
    v.Matches (v.gsvMemchr p value size)
      [single v (matchAt p (byteOf value.toNat 0)) p size] (· = memchr v.byte p value size) := by
  intro hdefined
  have ho := hdefined _ (List.mem_singleton_self _)
  refine ⟨_, ?_, rfl⟩
  unfold gsvMemchr
  by_cases h0 : size = 0
  · rw [if_pos h0, h0]
    exact Scan.returns_pure _ _
  rw [if_neg h0]
  by_cases ha : v.gsvAddress p = false
  · obtain ⟨hcount, hfirst⟩ := host_at1 (p := p) ho.whole ha
    rw [if_pos ha]
    unfold memchr
    rw [hfirst]
    exact returns_host ha hcount
  · rw [if_neg ha]
    exact scan_limited hv ho (Bool.eq_true_of_not_eq_false ha) _

theorem gsvStrchr_matches {v : SoftwareVM} (hv : v.Started) (p : ℕ) (value : BitVec 32)
    (hstring : v.Terminated p) :
    v.Matches (v.gsvStrchr p value) [single v (charAt p (byteOf value.toNat 0)) p uint64Max]
      (· = strchr v.byte p value) := by
  intro hdefined
  have ho := hdefined _ (List.mem_singleton_self _)
  refine ⟨_, ?_, rfl⟩
  unfold gsvStrchr
  by_cases ha : v.gsvAddress p = false
  · obtain ⟨hcount, hfirst⟩ := host_at1 (p := p) ho.whole ha
    rw [if_pos ha]
    unfold strchr
    rw [hfirst]
    exact returns_host ha hcount
  · rw [if_neg ha]
    exact scan_single hv ho (Bool.eq_true_of_not_eq_false ha)
      (fun done _ => ⟨rfl, by decide⟩) (fun hno => absurd hno (hstring.charAt_ne_none _))

/-! ## Two operands -/

theorem chunkBoth_le (v : SoftwareVM) (l r limit done : ℕ) :
    v.chunkBoth l r limit done ≤ v.scanChunk (l + done) (limit - done) ∧
      v.chunkBoth l r limit done ≤ v.scanChunk (r + done) (limit - done) := by
  unfold chunkBoth
  dsimp only
  split_ifs <;> omega

theorem chunkBoth_pos (v : SoftwareVM) (l r : ℕ) {limit done : ℕ} (h : done < limit) :
    0 < v.chunkBoth l r limit done := by
  have hl := v.scanChunk_pos (l + done) (show 0 < limit - done by omega)
  have hr := v.scanChunk_pos (r + done) (show 0 < limit - done by omega)
  unfold chunkBoth
  dsimp only
  split_ifs <;> omega

section Both

variable {v : SoftwareVM} {α : Type} {test : ℕ → UInt8 × UInt8 → Option α} {l r limit : ℕ}
  {extent : ℕ → ℕ}

/-- On two objects of the host the two memories are one. -/
theorem host_at2 (hdefined : ∀ o ∈ both v test l r limit extent, o.Defined v)
    (hl : v.gsvAddress l = false) (hr : v.gsvAddress r = false) :
    firstFrom (at2 v.host test l r) limit 0 = firstFrom (at2 v.byte test l r) limit 0 := by
  have hbyte : ∀ o ∈ both v test l r limit extent, v.gsvAddress o.pointer = false →
      ∀ j < o.count, v.byte (o.pointer + j) = v.host (o.pointer + j) := by
    intro o ho ha j hj
    have hkind := (hdefined o ho).whole.eq (x := o.pointer + j) (by omega) (by omega)
    rw [byte, hkind, ha, if_neg Bool.false_ne_true]
  refine (examined_congr ?_).2
  intro j hj
  rw [Nat.zero_add]
  unfold at2
  rw [hbyte _ List.mem_cons_self hl j hj,
    hbyte _ (List.mem_cons_of_mem _ (List.mem_singleton_self _)) hr j hj]

theorem readBoth_operands (hv : v.Started)
    (hdefined : ∀ o ∈ both v test l r limit extent, o.Defined v) {done n : ℕ}
    (hdone : done < examined (at2 v.byte test l r) limit 0) (hn : n ≠ 0)
    (hallows : ∀ o ∈ both v test l r limit extent, o.Allows v done n) :
    ∃ values, (v.readBoth (l + done) (r + done) n).Returns (n, values)
        (fun range => ∃ o ∈ both v test l r limit extent, o.Holds v range) ∧
      ∀ i < n, done + i < examined (at2 v.byte test l r) limit 0 →
        values i = (v.byte (l + (done + i)), v.byte (r + (done + i))) := by
  have hread : ∀ o ∈ both v test l r limit extent, done < o.count →
      ∃ bytes, (v.scanRead (o.pointer + done) n).Returns bytes
          (fun range => ∃ o ∈ both v test l r limit extent, o.Holds v range) ∧
        ∀ i < n, done + i < o.count → bytes i = v.byte (o.pointer + (done + i)) := by
    intro o ho hcount
    obtain ⟨bytes, hreturns, hagrees⟩ :=
      scanRead_operand hv (hdefined o ho) hcount hn (hallows o ho)
    exact ⟨bytes, ⟨hreturns.1, fun range hrange => ⟨o, ho, hreturns.2 range hrange⟩⟩, hagrees⟩
  obtain ⟨aa, hleft, haa⟩ := hread _ List.mem_cons_self hdone
  obtain ⟨bb, hright, hbb⟩ := hread _ (List.mem_cons_of_mem _ (List.mem_singleton_self _)) hdone
  refine ⟨fun i => (aa i, bb i), hleft.andThen (hright.andThen (Scan.returns_pure _ _)), ?_⟩
  intro i hi hcount
  exact Prod.ext (haa i hi hcount) (hbb i hi hcount)

/-- One of two operands is in the arena, so the rounds are enough. -/
theorem both_lt_scanRounds (hv : v.Started)
    (hdefined : ∀ o ∈ both v test l r limit extent, o.Defined v)
    (hno : (!v.gsvAddress l && !v.gsvAddress r) = false) :
    examined (at2 v.byte test l r) limit 0 < scanRounds := by
  by_cases hl : v.gsvAddress l = true
  · exact count_lt_scanRounds hv (hdefined _ List.mem_cons_self) hl
  · have hr : v.gsvAddress r = true := by simpa [hl] using hno
    exact count_lt_scanRounds hv
      (hdefined _ (List.mem_cons_of_mem _ (List.mem_singleton_self _))) hr

/-- The loop of the routines with two operands, for any way to choose the length of a chunk. -/
theorem scan_both (hv : v.Started)
    (hdefined : ∀ o ∈ both v test l r limit extent, o.Defined v)
    (hno : (!v.gsvAddress l && !v.gsvAddress r) = false)
    (length : ℕ → Reading ℕ) {fetch : ℕ → Reading (ℕ × (ℕ → UInt8 × UInt8))}
    (hfetch : ∀ done, fetch done =
      (length done).andThen fun n => v.readBoth (l + done) (r + done) n)
    (hlength : ∀ done < examined (at2 v.byte test l r) limit 0, ∃ n,
      (length done).Returns n
        (fun range => ∃ o ∈ both v test l r limit extent, o.Holds v range) ∧
      0 < n ∧ done + n ≤ limit ∧ ∀ o ∈ both v test l r limit extent, o.Allows v done n)
    (finish : ℕ → α) :
    (scanLoop (fun done => decide (done < limit)) fetch test finish scanRounds 0).Returns
      ((firstFrom (at2 v.byte test l r) limit 0).getD (finish limit))
      fun range => ∃ o ∈ both v test l r limit extent, o.Holds v range := by
  refine scanLoop_returns (B := fun i => (v.byte (l + i), v.byte (r + i))) (fun i => rfl) ?_ ?_
    (fun _ => decide_eq_false (lt_irrefl limit)) (both_lt_scanRounds hv hdefined hno)
  · intro done hdone
    obtain ⟨n, hn, hpos, hle, hallows⟩ := hlength done hdone
    obtain ⟨values, hreturns, hagrees⟩ := readBoth_operands hv hdefined hdone hpos.ne' hallows
    refine ⟨(n, values), ?_, hpos, fun _ => hle, hagrees⟩
    rw [hfetch]
    exact hn.andThen hreturns
  · intro done hdone
    exact decide_eq_true (lt_of_lt_of_le hdone (examined_le _ _ _))

/-- A chunk of both operands, cut at the pages of the one in the arena. -/
theorem allows_chunkBoth {o : Operand} (ho : o ∈ both v test l r limit extent)
    (hdefined : o.Defined v) {done n : ℕ} (hdone : done < examined (at2 v.byte test l r) limit 0)
    (hn : n ≤ v.chunkBoth l r limit done)
    (hhost : v.gsvAddress o.pointer = false → done + n ≤ o.extent) : o.Allows v done n := by
  have hcount : done < o.count := by
    unfold both at ho
    rcases List.mem_pair.1 ho with rfl | rfl <;> exact hdone
  have hkind := hdefined.whole.eq (x := o.pointer + done) (by omega) (by omega)
  have hchunk : n ≤ v.scanChunk (o.pointer + done) (limit - done) := by
    obtain ⟨hl, hr⟩ := v.chunkBoth_le l r limit done
    unfold both at ho
    rcases List.mem_pair.1 ho with rfl | rfl
    · exact hn.trans hl
    · exact hn.trans hr
  unfold Operand.Allows
  split
  · rename_i ha
    exact (Nat.add_le_add_left hchunk _).trans (scanChunk_page (hkind.trans ha) _)
  · rename_i ha
    exact hhost (by simpa using ha)

end Both

theorem gsvMemcmp_matches {v : SoftwareVM} (hv : v.Started) (l r size : ℕ) :
    v.Matches (v.gsvMemcmp l r size) (both v differAt l r size fun _ => size)
      (·.sign = (memcmp v.byte l r size).sign) := by
  intro hdefined
  refine ⟨_, ?_, rfl⟩
  unfold gsvMemcmp
  by_cases h0 : size = 0
  · rw [if_pos h0, h0]
    exact Scan.returns_pure _ _
  rw [if_neg h0]
  by_cases hhost : (!v.gsvAddress l && !v.gsvAddress r) = true
  · rw [if_pos hhost]
    simp only [Bool.and_eq_true, Bool.not_eq_true'] at hhost
    unfold memcmp
    rw [host_at2 hdefined hhost.1 hhost.2]
    refine ⟨rfl, ?_⟩
    intro range hrange
    rcases List.mem_pair.1 hrange with rfl | rfl
    · exact ⟨_, List.mem_cons_self, le_rfl, by rw [hhost.1]; exact le_rfl⟩
    · exact ⟨_, List.mem_cons_of_mem _ (List.mem_singleton_self _), le_rfl, by
        rw [hhost.2]; exact le_rfl⟩
  · rw [if_neg hhost]
    refine scan_both hv hdefined (Bool.eq_false_of_not_eq_true hhost)
      (fun done => .pure (v.chunkBoth l r size done)) (fun done => rfl) ?_ _
    intro done hdone
    have hlt : done < size := lt_of_lt_of_le hdone (examined_le _ _ _)
    have hle := (v.chunkBoth_le l r size done).1.trans (v.scanChunk_le _ _)
    refine ⟨_, Scan.returns_pure _ _, v.chunkBoth_pos l r hlt, by omega, ?_⟩
    intro o ho
    refine allows_chunkBoth ho (hdefined o ho) hdone le_rfl ?_
    intro _
    unfold both at ho
    rcases List.mem_pair.1 ho with rfl | rfl <;>
      change done + v.chunkBoth l r size done ≤ size <;> omega

/-! ## Strings that are compared -/

theorem strnlen_textLength (m : ℕ → UInt8) (p n : ℕ) :
    (if strnlen m p n < n then strnlen m p n + 1 else n) = textLength m p n := by
  unfold strnlen textLength
  by_cases h0 : n = 0
  · rw [h0]
    rfl
  cases hfirst : firstFrom (at1 m zeroAt p) n 0 with
  | none =>
      rw [examined_of_none hfirst]
      exact if_neg (lt_irrefl n)
  | some i =>
      have hpos := examined_pos (at1 m zeroAt p) h0 0
      have hle := examined_le (at1 m zeroAt p) n 0
      -- The answer of the test is the index itself.
      rw [firstFrom_eq _ h0, at1, zeroAt, Option.ite_none_right_eq_some] at hfirst
      have hi : 0 + (examined (at1 m zeroAt p) n 0 - 1) = i := Option.some.inj hfirst.2
      rw [Option.getD_some]
      split_ifs <;> omega

/-- From inside a string its text goes no further. -/
theorem textLength_add {m : ℕ → UInt8} {p limit done n : ℕ} (hdone : done < textLength m p limit)
    (hn : done + n ≤ limit) : done + textLength m (p + done) n ≤ textLength m p limit := by
  unfold textLength at hdone ⊢
  cases hfirst : firstFrom (at1 m zeroAt p) limit 0 with
  | none =>
      have hle := examined_le (at1 m zeroAt (p + done)) n 0
      rw [examined_of_none hfirst]
      omega
  | some i =>
      have h0 : limit ≠ 0 := by
        have := examined_le (at1 m zeroAt p) limit 0
        omega
      rw [firstFrom_eq _ h0, at1, zeroAt, Option.ite_none_right_eq_some] at hfirst
      have hzero : (at1 m zeroAt (p + done)
          (0 + (examined (at1 m zeroAt p) limit 0 - 1 - done))).isSome := by
        rw [at1, zeroAt, show p + done + (0 + (examined (at1 m zeroAt p) limit 0 - 1 - done)) =
          p + (0 + (examined (at1 m zeroAt p) limit 0 - 1)) by omega, if_pos hfirst.1]
        rfl
      have := examined_le_of_isSome n hzero
      omega

theorem settle_le_textLength {m : ℕ → UInt8} {l r limit p : ℕ} (hp : p = l ∨ p = r) :
    examined (at2 m settleAt l r) limit 0 ≤ textLength m p limit := by
  unfold textLength
  cases hfirst : firstFrom (at1 m zeroAt p) limit 0 with
  | none =>
      rw [examined_of_none hfirst]
      exact examined_le _ _ _
  | some i =>
      have h0 : limit ≠ 0 := by
        rintro rfl
        cases hfirst
      have hpos := examined_pos (at1 m zeroAt p) h0 0
      rw [firstFrom_eq _ h0, at1, zeroAt, Option.ite_none_right_eq_some] at hfirst
      have hsettle : (at2 m settleAt l r
          (0 + (examined (at1 m zeroAt p) limit 0 - 1))).isSome := by
        unfold at2 settleAt
        dsimp only
        split_ifs with hne hl
        · rfl
        · rfl
        · rcases hp with rfl | rfl
          · exact absurd hfirst.1 hl
          · exact absurd ((not_not.1 hne).trans hfirst.1) hl
      have := examined_le_of_isSome limit hsettle
      omega

/-- The operands of `gsv_strncmp`: the objects are the strings. -/
def texts (v : SoftwareVM) (l r limit : ℕ) : List Operand :=
  both v settleAt l r limit fun p => textLength v.byte p limit

theorem mem_texts {v : SoftwareVM} {l r limit : ℕ} {o : Operand} (ho : o ∈ texts v l r limit) :
    (o.pointer = l ∨ o.pointer = r) ∧
      o.count = examined (at2 v.byte settleAt l r) limit 0 ∧
      o.extent = textLength v.byte o.pointer limit := by
  rcases List.mem_pair.1 ho with rfl | rfl
  · exact ⟨.inl rfl, rfl, rfl⟩
  · exact ⟨.inr rfl, rfl, rfl⟩

/-- On a string of the host the two memories are one. -/
theorem host_text {v : SoftwareVM} {l r limit : ℕ} {o : Operand} (ho : o ∈ texts v l r limit)
    (hdefined : o.Defined v) (ha : v.gsvAddress o.pointer = false) :
    textLength v.host o.pointer limit = o.extent := by
  obtain ⟨-, -, hextent⟩ := mem_texts ho
  have hobject := hdefined.object ha
  rw [hextent] at hobject ⊢
  exact (host_at1 hobject ha).1

/-- What is left of a chunk after one of the strings was looked at. -/
theorem trim_operand {v : SoftwareVM} {l r limit : ℕ} {o : Operand} (ho : o ∈ texts v l r limit)
    (hdefined : o.Defined v) {done n : ℕ}
    (hdone : done < examined (at2 v.byte settleAt l r) limit 0) (hpos : 0 < n)
    (hn : n ≤ v.chunkBoth l r limit done) :
    ∃ n', (v.trim (o.pointer + done) n).Returns n'
        (fun range => ∃ o ∈ texts v l r limit, o.Holds v range) ∧
      0 < n' ∧ n' ≤ n ∧ o.Allows v done n' := by
  obtain ⟨hpointer, hcount, hextent⟩ := mem_texts ho
  have hlt : done < limit := lt_of_lt_of_le hdone (examined_le _ _ _)
  have hchunk := (v.chunkBoth_le l r limit done).1.trans (v.scanChunk_le _ _)
  have hkind := hdefined.whole.eq (x := o.pointer + done) (by omega) (by omega)
  unfold trim
  by_cases ha : v.gsvAddress o.pointer = false
  · have hhost := host_text ho hdefined ha
    have hinside : done < textLength v.host o.pointer limit := by
      rw [hhost, hextent]
      exact lt_of_lt_of_le hdone (settle_le_textLength hpointer)
    have htext := textLength_add hinside (show done + n ≤ limit by omega)
    rw [hhost] at htext
    have hallows : o.Allows v done (textLength v.host (o.pointer + done) n) :=
      allows_chunkBoth ho hdefined hdone ((examined_le _ _ _).trans hn) fun _ => htext
    rw [if_pos (hkind.trans ha)]
    dsimp only
    rw [strnlen_textLength]
    refine ⟨_, ⟨rfl, ?_⟩, examined_pos _ hpos.ne' 0, examined_le _ _ _, hallows⟩
    intro range hrange
    rw [List.mem_singleton.1 hrange]
    exact ⟨o, ho, hallows.holds (by omega)⟩
  · rw [if_neg (by rwa [hkind])]
    refine ⟨n, Scan.returns_pure _ _, hpos, le_rfl, ?_⟩
    exact allows_chunkBoth ho hdefined hdone hn fun h => absurd h ha

theorem gsvStrncmp_matches {v : SoftwareVM} (hv : v.Started) (l r limit : ℕ) :
    v.Matches (v.gsvStrncmp l r limit) (texts v l r limit)
      (·.sign = (strncmp v.byte l r limit).sign) := by
  intro hdefined
  have hleft : (⟨l, _, _⟩ : Operand) ∈ texts v l r limit := List.mem_cons_self
  have hright : (⟨r, _, _⟩ : Operand) ∈ texts v l r limit :=
    List.mem_cons_of_mem _ (List.mem_singleton_self _)
  refine ⟨_, ?_, rfl⟩
  unfold gsvStrncmp
  by_cases h0 : limit = 0
  · rw [if_pos h0, h0]
    exact Scan.returns_pure _ _
  rw [if_neg h0]
  by_cases hhost : (!v.gsvAddress l && !v.gsvAddress r) = true
  · rw [if_pos hhost]
    simp only [Bool.and_eq_true, Bool.not_eq_true'] at hhost
    have hl := host_text hleft (hdefined _ hleft) hhost.1
    have hr := host_text hright (hdefined _ hright) hhost.2
    dsimp only at hl hr
    unfold strncmp
    rw [host_at2 hdefined hhost.1 hhost.2]
    refine ⟨rfl, ?_⟩
    intro range hrange
    rcases List.mem_pair.1 hrange with rfl | rfl
    · exact ⟨_, hleft, le_rfl, by rw [hhost.1, hl]; exact le_rfl⟩
    · exact ⟨_, hright, le_rfl, by rw [hhost.2, hr]; exact le_rfl⟩
  · rw [if_neg hhost]
    refine scan_both hv hdefined (Bool.eq_false_of_not_eq_true hhost)
      (fun done => (v.trim (l + done) (v.chunkBoth l r limit done)).andThen fun n =>
        v.trim (r + done) n) ?_ ?_ _
    · intro done
      exact (Scan.andThen_assoc _ _ _).symm
    · intro done hdone
      have hlt : done < limit := lt_of_lt_of_le hdone (examined_le _ _ _)
      have hle := (v.chunkBoth_le l r limit done).1.trans (v.scanChunk_le _ _)
      obtain ⟨n, hn, hpos, hnle, hlallows⟩ :=
        trim_operand hleft (hdefined _ hleft) hdone (v.chunkBoth_pos l r hlt) le_rfl
      obtain ⟨n', hn', hpos', hnle', hrallows⟩ :=
        trim_operand hright (hdefined _ hright) hdone hpos hnle
      refine ⟨n', hn.andThen hn', hpos', by omega, ?_⟩
      intro o ho
      rcases List.mem_pair.1 ho with rfl | rfl
      · exact hlallows.mono hnle'
      · exact hrallows

/-! ## The seven routines -/

/-- The string routines and the C library. -/
theorem routines_match {v : SoftwareVM} (hv : v.Started) :
    (∀ p limit, v.Matches (v.gsvStrnlen p limit) [single v zeroAt p limit]
      (· = strnlen v.byte p limit)) ∧
    (∀ p, v.Matches (v.gsvStrlen p) [single v zeroAt p uint64Max] (· = strlen v.byte p)) ∧
    (∀ l r size, v.Matches (v.gsvMemcmp l r size) (both v differAt l r size fun _ => size)
      (·.sign = (memcmp v.byte l r size).sign)) ∧
    (∀ p value size, v.Matches (v.gsvMemchr p value size)
      [single v (matchAt p (byteOf value.toNat 0)) p size] (· = memchr v.byte p value size)) ∧
    (∀ l r limit, v.Matches (v.gsvStrncmp l r limit) (texts v l r limit)
      (·.sign = (strncmp v.byte l r limit).sign)) ∧
    (∀ l r, v.Matches (v.gsvStrcmp l r) (texts v l r uint64Max)
      (·.sign = (strcmp v.byte l r).sign)) ∧
    ∀ p value, v.Terminated p → v.Matches (v.gsvStrchr p value)
      [single v (charAt p (byteOf value.toNat 0)) p uint64Max] (· = strchr v.byte p value) :=
  ⟨gsvStrnlen_matches hv, gsvStrlen_matches hv, gsvMemcmp_matches hv, gsvMemchr_matches hv,
    gsvStrncmp_matches hv, fun l r => gsvStrncmp_matches hv l r uint64Max,
    gsvStrchr_matches hv⟩

theorem permits_pageVM : pageVM.Permits GM.READ 16384 16384 := fun _ =>
  ((Space.checkAccess_ok_iff (started_pageVM.inv rfl)).1 (by decide)).2

theorem defined_pageVM {o : Operand} (h : 16384 ≤ o.pointer) (hlt : o.pointer < 32768)
    (h' : o.pointer + o.count ≤ 32768) : o.Defined pageVM where
  whole := whole_pageVM h h'
  permits := fun _ x h1 h2 => permits_pageVM rfl x (by omega) (by omega)
  object := by
    intro ha
    have := gsvAddress_iff (v := pageVM).2 ⟨rfl, h, hlt⟩
    rw [this] at ha
    cases ha

/-- Two strings of which one goes to the last byte of the arena, and the terminator of a string
that begins there. -/
theorem routines_match_page :
    (∃ a, (pageVM.gsvStrncmp 16390 32765 3).Returns a
        (fun range => ∃ o ∈ texts pageVM 16390 32765 3, o.Holds pageVM range) ∧
      a.sign = (strncmp pageVM.byte 16390 32765 3).sign) ∧
    ∃ a, (pageVM.gsvStrchr 32767 0#32).Returns a
        (fun range => ∃ o ∈ [single pageVM (charAt 32767 (byteOf (0#32).toNat 0)) 32767 uint64Max],
          o.Holds pageVM range) ∧
      a = strchr pageVM.byte 32767 0#32 := by
  have hall := routines_match started_pageVM
  have hzero : pageVM.byte 32767 = 0 := by decide
  constructor
  · apply hall.2.2.2.2.1
    intro o ho
    have hle := examined_le (at2 pageVM.byte settleAt 16390 32765) 3 0
    obtain ⟨hpointer, hcount, -⟩ := mem_texts ho
    apply defined_pageVM <;> omega
  · apply hall.2.2.2.2.2.2 32767 0#32 ⟨0, by decide, hzero⟩
    intro o ho
    have hle : examined (at1 pageVM.byte (charAt 32767 (byteOf (0#32).toNat 0)) 32767) uint64Max 0
        ≤ 0 + 1 :=
      examined_le_of_isSome uint64Max (by rw [at1, charAt, hzero]; decide)
    rw [List.mem_singleton.1 ho]
    refine defined_pageVM (by decide) (by decide) ?_
    change 32767 + _ ≤ 32768
    exact Nat.add_le_add_left hle _

end SoftwareVM

end Tolkara
