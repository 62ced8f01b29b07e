import Tolkara.Fixups.Basic
import Tolkara.Memory.DenseFlat

/-!
# What the fixups write

`Wrote` describes the memory between two steps of a call: it is the one the call started from
with the reported pointers stored one after the other, and each of them was due in the memory
that it found. Every read keeps it, and a write is part of it once it is reported.
-/

namespace Tolkara

open Library

/-! ## Pointers in a flat memory -/

namespace Flat

/-- A pointer, its address and its value, is stored. -/
def store (m : Flat) (w : ℕ × ℕ) : Flat :=
  { m with byte := fun x => if w.1 ≤ x ∧ x < w.1 + 8 then byteOf w.2 (x - w.1) else m.byte x }

def storeAll (m : Flat) (writes : List (ℕ × ℕ)) : Flat := writes.foldl store m

def word (m : Flat) (a : ℕ) : ℕ := littleEndian (m.bytes a 8)

@[simp] theorem storeAll_nil (m : Flat) : m.storeAll [] = m := rfl

@[simp] theorem storeAll_append (m : Flat) (writes later : List (ℕ × ℕ)) :
    m.storeAll (writes ++ later) = (m.storeAll writes).storeAll later := List.foldl_append

theorem storeAll_concat (m : Flat) (writes : List (ℕ × ℕ)) (w : ℕ × ℕ) :
    m.storeAll (writes ++ [w]) = (m.storeAll writes).store w := storeAll_append m writes [w]

theorem perm_storeAll (m : Flat) (writes : List (ℕ × ℕ)) :
    (m.storeAll writes).perm = m.perm := by
  induction writes generalizing m with
  | nil => rfl
  | cons w writes ih => exact ih (m.store w)

theorem byte_storeAll_of_outside (m : Flat) {writes : List (ℕ × ℕ)} {x : ℕ}
    (h : ∀ w ∈ writes, ¬ (w.1 ≤ x ∧ x < w.1 + 8)) : (m.storeAll writes).byte x = m.byte x := by
  induction writes generalizing m with
  | nil => rfl
  | cons w writes ih =>
      have hrest := ih (m.store w) fun v hv => h v (List.mem_cons_of_mem _ hv)
      rw [storeAll, List.foldl_cons, ← storeAll, hrest, store]
      exact if_neg (h w List.mem_cons_self)

/-- Two pointers have no byte in common. -/
def Apart (w v : ℕ × ℕ) : Prop := w.1 + 8 ≤ v.1 ∨ v.1 + 8 ≤ w.1

theorem word_congr {m m' : Flat} {a : ℕ} (h : ∀ x, a ≤ x → x < a + 8 → m'.byte x = m.byte x) :
    m'.word a = m.word a := by
  have hbytes : m'.bytes a 8 = m.bytes a 8 := List.map_congr_left fun i hi => by
    have hi := List.mem_range.1 hi
    exact h (a + i) (Nat.le_add_right a i) (by omega)
  rw [word, word, hbytes]

theorem word_storeAll_of_apart (m : Flat) {writes : List (ℕ × ℕ)} {w : ℕ × ℕ}
    (h : ∀ v ∈ writes, Apart v w) : (m.storeAll writes).word w.1 = m.word w.1 := by
  refine word_congr fun x hlow hhigh => byte_storeAll_of_outside m fun v hv => ?_
  have hv := h v hv
  unfold Apart at hv
  omega

theorem word_store (m : Flat) (w : ℕ × ℕ) : (m.store w).word w.1 = w.2 % 2 ^ 64 := by
  have hbytes : (m.store w).bytes w.1 8 = (List.range 8).map (byteOf w.2) :=
    List.map_congr_left fun i hi => by
      have hi := List.mem_range.1 hi
      have hin : w.1 ≤ w.1 + i ∧ w.1 + i < w.1 + 8 := by omega
      rw [store]
      dsimp only
      rw [if_pos hin, Nat.add_sub_cancel_left]
  rw [word, hbytes, littleEndian_byteOf]
  rfl

/-- A pointer that no later one overlaps is there in the end. -/
theorem word_storeAll (m : Flat) {before after : List (ℕ × ℕ)} {w : ℕ × ℕ}
    (h : ∀ v ∈ after, Apart v w) :
    (m.storeAll (before ++ w :: after)).word w.1 = w.2 % 2 ^ 64 := by
  have hlast := word_storeAll_of_apart ((m.storeAll before).store w) h
  rw [storeAll_append]
  exact hlast.trans (word_store _ w)

end Flat

namespace GuestMemory

/-- A read changes nothing that shows, and gives the bytes. -/
theorem gmRead_flat {m : GuestMemory} (hm : m.Wf) (a n : ℕ) (buffer : Buffer) :
    (m.gmRead a (some buffer) n).2.1.Wf ∧ (m.gmRead a (some buffer) n).2.1.flat = m.flat ∧
      ((m.gmRead a (some buffer) n).1 = .ok →
        (m.gmRead a (some buffer) n).2.2 = m.flat.bytes a n) := by
  obtain ⟨f, h⟩ := copy_read hm (fun _ => true) none a buffer n GM.READ
  rw [gmRead, h]
  exact ⟨⟨hm.sorted, hm.aligned, hm.bounded⟩, flat_of_viewAt fun _ => rfl, fun hok => if_pos hok⟩

/-- A pointer that is populated is stored, or nothing shows of it. -/
theorem gmPopulate_flat {m : GuestMemory} (hm : m.Wf) (heap : Heap) (a value : ℕ) :
    (m.gmPopulate heap a (some (byteOf value)) 8).2.Wf ∧
      (m.gmPopulate heap a (some (byteOf value)) 8).2.flat =
        if (m.gmPopulate heap a (some (byteOf value)) 8).1 = .ok then m.flat.store (a, value)
        else m.flat := by
  obtain ⟨r, m', heq, hwf, hcases⟩ := copy_write hm heap none a (some (byteOf value)) 8 0#32
  rw [gmPopulate, heq]
  refine ⟨hwf, ?_⟩
  rcases hcases with ⟨hsame, hbad, rfl⟩ | ⟨hsame, -, -, ⟨hnull, -⟩ | ⟨rfl, -⟩⟩ |
    ⟨b, hb, -, hok, rfl, hwritten⟩
  · rw [if_neg (hbad.resolve_right (by decide))]
    exact flat_of_viewAt hsame.views
  · cases hnull
  · exact flat_of_viewAt hsame.views
  · cases hb
    exact hwritten.flat hok

end GuestMemory

/-! ## Between two steps -/

def GFObservation.write (o : GFObservation) : ℕ × ℕ := (o.address, o.value)

namespace GuestFixups

variable {σ α : Type}

def after (m : Flat) (os : List GFObservation) : Flat := m.storeAll (os.map GFObservation.write)

/-- Each pointer was due behind those that were written before it. -/
def Due (P : List GFObservation → GFObservation → Prop) (os : List GFObservation) : Prop :=
  ∀ before o rest, os = before ++ o :: rest → P before o

theorem due_concat {P : List GFObservation → GFObservation → Prop} {os : List GFObservation}
    {o : GFObservation} (h : Due P os) (ho : P os o) : Due P (os ++ [o]) := by
  intro before o' rest heq
  rcases List.eq_nil_or_concat rest with rfl | ⟨rest, last, rfl⟩
  · obtain ⟨rfl, hlast⟩ := List.append_inj' heq rfl
    cases hlast
    exact ho
  · rw [List.concat_eq_append, ← List.cons_append, ← List.append_assoc] at heq
    exact h before o' rest (List.append_inj' heq rfl).1

/-- What was written is what was reported and, after it, `extra`; the pointers `base` came
first. -/
structure Wrote (P : List GFObservation → GFObservation → Prop) (base : List GFObservation)
    (m : Flat) (s : Fixing σ) (extra : List GFObservation) : Prop where
  wf : s.memory.Wf
  flat : s.memory.flat = after m (s.observed ++ extra)
  due : Due P (s.observed ++ extra)
  since : base <+: s.observed

/-- A call that fails may have written a pointer that it does not report. -/
def Stopped (P : List GFObservation → GFObservation → Prop) (base : List GFObservation)
    (m : Flat) (s : Fixing σ) : Prop :=
  ∃ extra, extra.length ≤ 1 ∧ Wrote P base m s extra

/-- A part of a call reports every pointer that it has written when it answers. -/
abbrev Keeps (P : List GFObservation → GFObservation → Prop) (base : List GFObservation)
    (m : Flat) (x : Fix σ α) (s : Fixing σ) : Prop :=
  x.Meets s (fun _ t => Wrote P base m t []) fun _ t => Stopped P base m t

variable {P : List GFObservation → GFObservation → Prop} {base earlier : List GFObservation}
  {m : Flat} {s t : Fixing σ}

theorem Wrote.stopped (h : Wrote P base m s []) : Stopped P base m s := ⟨[], Nat.zero_le _, h⟩

theorem Wrote.memory_eq (h : Wrote P base m s []) : s.memory.flat = after m s.observed := by
  rw [h.flat, List.append_nil]

theorem Wrote.here {extra : List GFObservation} (h : Wrote P base m s extra) :
    Wrote P s.observed m s extra :=
  ⟨h.wf, h.flat, h.due, List.prefix_rfl⟩

theorem Wrote.from {extra : List GFObservation} (h : Wrote P base m s extra)
    (hearlier : earlier <+: base) : Wrote P earlier m s extra :=
  ⟨h.wf, h.flat, h.due, hearlier.trans h.since⟩

theorem Keeps.from {x : Fix σ α} (h : Keeps P base m x s) (hearlier : earlier <+: base) :
    Keeps P earlier m x s := by
  refine h.imp (fun _ _ h => h.from hearlier) ?_
  rintro _ _ ⟨extra, hlength, h⟩
  exact ⟨extra, hlength, h.from hearlier⟩

theorem Wrote.same {extra : List GFObservation} (h : Wrote P base m s extra)
    (hmemory : t.memory = s.memory) (hobserved : t.observed = s.observed) :
    Wrote P base m t extra where
  wf := hmemory ▸ h.wf
  flat := by
    rw [hmemory, hobserved]
    exact h.flat
  due := by
    rw [hobserved]
    exact h.due
  since := by
    rw [hobserved]
    exact h.since

theorem wrote_start {image : LoadedImage} (hwf : image.memory.Wf) (context : σ) :
    Wrote P [] image.memory.flat (start image context) [] := by
  refine ⟨hwf, rfl, fun before o rest heq => ?_, List.prefix_rfl⟩
  have hlength := congrArg List.length heq
  simp [start] at hlength

theorem readBytes_keeps (h : Wrote P base m s []) (address n : ℕ) :
    (readBytes address n).Meets s
      (fun read t => Wrote P base m t [] ∧ t.memory.flat = s.memory.flat ∧
        t.observed = s.observed ∧
        ∀ bytes, read = some bytes → bytes = s.memory.flat.bytes address n)
      fun _ _ => False := by
  obtain ⟨hwf, hflat, hbytes⟩ := GuestMemory.gmRead_flat h.wf address n fun _ => 0
  refine ⟨⟨hwf, hflat.trans h.flat, h.due, h.since⟩, hflat, rfl, fun bytes hread => ?_⟩
  split_ifs at hread with hok
  cases hread
  exact hbytes hok

theorem readWord_keeps (h : Wrote P base m s []) (address : ℕ) :
    (readWord address).Meets s
      (fun read t => Wrote P base m t [] ∧
        ∀ v, read = some v → v = (after m t.observed).word address)
      fun _ _ => False := by
  refine Attempt.meets_bind.2 ((readBytes_keeps h address 8).imp (fun read t h => ?_) fun _ _ => id)
  refine ⟨h.1, fun v hv => ?_⟩
  obtain ⟨bytes, hread, rfl⟩ := Option.map_eq_some_iff.1 hv
  rw [h.2.2.2 bytes hread, ← h.2.1, h.1.memory_eq]
  rfl

theorem ask_keeps (h : Wrote P base m s []) (host : GFHost σ) (symbol : CString) (ordinal : ℤ)
    (weak lazy : Bool) :
    (ask host symbol ordinal weak lazy).Meets s
      (fun found t => Wrote P base m t [] ∧ t.observed = s.observed ∧
        found = (host.resolve s.context symbol ordinal weak lazy).1)
      fun _ _ => False :=
  ⟨h.same rfl rfl, rfl, rfl⟩

/-- A pointer that is written and not yet reported. -/
theorem writeWord_keeps (h : Wrote P base m s []) (host : GFHost σ) {address value : ℕ}
    {symbol : Option CString} (hdue : P s.observed ⟨address, value, symbol⟩) :
    (writeWord host address value).Meets s
      (fun written t => (written = true → Wrote P base m t [⟨address, value, symbol⟩]) ∧
        (written = false → Wrote P base m t [])) fun _ _ => False := by
  obtain ⟨hwf, hflat⟩ :=
    GuestMemory.gmPopulate_flat h.wf (host.heap s.observed.length) address value
  have hdone := h.due
  rw [List.append_nil] at hdone
  refine ⟨fun hok => ⟨hwf, ?_, due_concat hdone hdue, h.since⟩,
    fun hbad => ⟨hwf, ?_, h.due, h.since⟩⟩
  · dsimp only
    rw [hflat, if_pos (of_decide_eq_true hok), h.memory_eq, after, after, List.map_append]
    exact (Flat.storeAll_concat _ _ _).symm
  · dsimp only
    rw [hflat, if_neg (of_decide_eq_false hbad)]
    exact h.flat

theorem notify_keeps {address value : ℕ} {symbol : Option CString}
    (h : Wrote P base m s [⟨address, value, symbol⟩]) :
    (notify address value symbol).Meets s (fun _ t => Wrote P base m t []) fun _ _ => False := by
  rw [notify, Attempt.meets_change]
  refine ⟨h.wf, ?_, ?_, h.since.trans (List.prefix_append _ _)⟩
  · rw [List.append_nil]
    exact h.flat
  · rw [List.append_nil]
    exact h.due

theorem report_keeps {τ : Type} (h : Wrote P base m s []) (host : GFHost σ) {address value : ℕ}
    {symbol : Option CString} (hdue : P s.observed ⟨address, value, symbol⟩) (e : GFError)
    (answer : τ) :
    (do
      let written ← writeWord host address value
      .check (written = true) e
      notify address value symbol
      return answer : Fix σ τ).Meets s (fun a t => a = answer ∧ Wrote P base m t [])
      fun _ t => Stopped P base m t := by
  refine Attempt.meets_bind.2 ((writeWord_keeps h host hdue).imp (fun written s h => ?_)
    fun _ _ => False.elim)
  refine Attempt.meets_bind.2 (Attempt.meets_check.2 ⟨fun hyes => ?_, fun hno => ?_⟩)
  · exact Attempt.meets_bind.2 ((notify_keeps (h.1 hyes)).imp (fun _ _ h => ⟨rfl, h⟩)
      fun _ _ => False.elim)
  · exact (h.2 (Bool.not_eq_true _ ▸ hno)).stopped

end GuestFixups

end Tolkara
