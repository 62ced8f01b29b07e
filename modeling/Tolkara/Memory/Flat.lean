import Tolkara.Memory.Basic

/-!
# The guest memory the two implementations stand for

A flat memory gives every page number its permissions, and every address its
byte; the byte of an unmapped address is zero. The five calls both
implementations share are stated here without any representation: what is
mapped, which page decides the answer, which bytes change. `runs_agree` is the
rule by which two implementations of it are compared.
-/

namespace Tolkara

open Classical

/-- Permissions by page number, bytes by address. -/
structure Flat where
  perm : ℕ → Option (Prot × Prot)
  byte : ℕ → UInt8

/-- The calls the dense and the sparse memory have in common. A null buffer is
`none`; the buffer of a read is only tested for being null. -/
inductive MemoryCall where
  | map (a n : ℕ) (prot maxprot : Prot) (replace : Bool)
  | unmap (a n : ℕ)
  | protect (a n : ℕ) (prot : Prot)
  | read (a : ℕ) (buffer : Option Buffer) (n : ℕ)
  | write (a : ℕ) (buffer : Option Buffer) (n : ℕ)

namespace MemoryCall

def Inside (base size : ℕ) : MemoryCall → Prop
  | .map a n _ _ _ | .unmap a n | .protect a n _ | .read a _ n | .write a _ n =>
    base ≤ a ∧ a + n ≤ base + size

def Buffered : MemoryCall → Prop
  | .read _ buffer n | .write _ buffer n => n ≠ 0 → buffer ≠ none
  | _ => True

end MemoryCall

/-- The answer of a call and the bytes it read. -/
abbrev MemoryReply := GMResult × List UInt8

namespace Flat

def InPages (a n k : ℕ) : Prop := a ≤ k * pageSize ∧ k * pageSize < a + n

instance (a n k : ℕ) : Decidable (InPages a n k) := inferInstanceAs (Decidable (_ ∧ _))

/-- A page's permissions lack the one asked for. -/
def lacks (permission : Prot) (t : Prot × Prot) : Bool := t.1 &&& permission != permission

/-- The first page that stops the access decides the answer. -/
def access (m : Flat) (a n : ℕ) (permission : Prot) : GMResult :=
  checkPages m.perm (lacks permission) (a / pageSize) (pageCount a n)

noncomputable def map (m : Flat) (a n : ℕ) (prot maxprot : Prot) (replace : Bool) :
    GMResult × Flat :=
  if ¬ (PageRange a n ∧ ProtOk prot maxprot) then (.invalid, m)
  else if replace = false ∧ ∃ k, InPages a n k ∧ m.perm k ≠ none then (.overlap, m)
  else (.ok, {
    perm := fun k => if InPages a n k then some (prot, maxprot) else m.perm k
    byte := fun x => if a ≤ x ∧ x < a + n then 0 else m.byte x })

noncomputable def unmap (m : Flat) (a n : ℕ) : GMResult × Flat :=
  if ¬ PageRange a n then (.invalid, m)
  else (.ok, {
    perm := fun k => if InPages a n k then none else m.perm k
    byte := fun x => if a ≤ x ∧ x < a + n then 0 else m.byte x })

noncomputable def protect (m : Flat) (a n : ℕ) (prot : Prot) : GMResult × Flat :=
  if ¬ (PageRange a n ∧ prot &&& ~~~7#32 = 0#32) then (.invalid, m)
  else if ∃ k, InPages a n k ∧ m.perm k = none then (.unmapped, m)
  else if ∃ k t, InPages a n k ∧ m.perm k = some t ∧ prot &&& ~~~t.2 ≠ 0#32 then
    (.protection, m)
  else (.ok, { m with
    perm := fun k =>
      if InPages a n k then (m.perm k).map fun t => (prot, t.2) else m.perm k })

def bytes (m : Flat) (a n : ℕ) : List UInt8 := (List.range n).map fun i => m.byte (a + i)

noncomputable def read (m : Flat) (a n : ℕ) : MemoryReply :=
  (m.access a n GM.READ, if m.access a n GM.READ = .ok then m.bytes a n else [])

noncomputable def write (m : Flat) (a : ℕ) (buffer : Option Buffer) (n : ℕ) : GMResult × Flat :=
  (m.access a n GM.WRITE,
    if m.access a n GM.WRITE = .ok then
      { m with byte := fun x =>
          if a ≤ x ∧ x < a + n then (buffer.getD zeroPage) (x - a) else m.byte x }
    else m)

/-- A write of no bytes changes nothing. -/
theorem write_zero (m : Flat) (a : ℕ) (buffer : Option Buffer) : (m.write a buffer 0).2 = m := by
  unfold write
  dsimp only
  split
  · have hbyte : (fun x => if a ≤ x ∧ x < a + 0 then (buffer.getD zeroPage) (x - a)
        else m.byte x) = m.byte := by
      funext x
      rw [if_neg (by omega)]
    rw [hbyte]
  · rfl

noncomputable def step (m : Flat) : MemoryCall → MemoryReply × Flat
  | .map a n prot maxprot replace =>
    (((m.map a n prot maxprot replace).1, []), (m.map a n prot maxprot replace).2)
  | .unmap a n => (((m.unmap a n).1, []), (m.unmap a n).2)
  | .protect a n prot => (((m.protect a n prot).1, []), (m.protect a n prot).2)
  | .read a _ n => (m.read a n, m)
  | .write a buffer n => (((m.write a buffer n).1, []), (m.write a buffer n).2)

theorem div_pageSize_of_inPages {a n x : ℕ} (ha : a % pageSize = 0) (hn : n % pageSize = 0) :
    InPages a n (x / pageSize) ↔ a ≤ x ∧ x < a + n := by
  unfold InPages pageSize at *
  omega

end Flat

/-! ## Replies of a run -/

section Replies

variable {σ : Type*}

def replies (step : σ → MemoryCall → MemoryReply × σ) : σ → List MemoryCall → List MemoryReply
  | _, [] => []
  | s, c :: calls => (step s c).1 :: replies step (step s c).2 calls

/-- The replies before the first one that says `GM_NOMEM`. -/
def untilNomem (l : List MemoryReply) : List MemoryReply := l.takeWhile fun r => r.1 ≠ .nomem

/-- Two implementations of the flat memory agree call by call as long as the
first does not run out of memory: it is enough that each keeps step with it. -/
theorem runs_agree {τ : Type*} {stepσ : σ → MemoryCall → MemoryReply × σ}
    {stepτ : τ → MemoryCall → MemoryReply × τ} {R : σ → Flat → Prop} {Q : τ → Flat → Prop}
    {P : MemoryCall → Prop}
    (hσ : ∀ s m c, P c → R s m → (stepσ s c).1.1 ≠ .nomem →
      (stepσ s c).1 = (m.step c).1 ∧ R (stepσ s c).2 (m.step c).2)
    (hτ : ∀ t m c, P c → Q t m →
      (stepτ t c).1 = (m.step c).1 ∧ Q (stepτ t c).2 (m.step c).2)
    {s : σ} {t : τ} {m : Flat} (hs : R s m) (ht : Q t m) {calls : List MemoryCall}
    (hP : ∀ c ∈ calls, P c) :
    untilNomem (replies stepσ s calls) <+: replies stepτ t calls := by
  induction calls generalizing s t m with
  | nil => exact List.prefix_refl _
  | cons c calls ih =>
      unfold untilNomem replies
      rw [List.takeWhile_cons]
      by_cases hno : (stepσ s c).1.1 ≠ .nomem
      · obtain ⟨hreply, hs'⟩ := hσ s m c (hP c (by simp)) hs hno
        obtain ⟨hreply', ht'⟩ := hτ t m c (hP c (by simp)) ht
        rw [if_pos (by simpa using hno), List.cons_prefix_cons]
        exact ⟨hreply.trans hreply'.symm, ih hs' ht' fun d hd => hP d (by simp [hd])⟩
      · rw [if_neg (by simpa using hno)]
        exact List.nil_prefix

end Replies

end Tolkara
