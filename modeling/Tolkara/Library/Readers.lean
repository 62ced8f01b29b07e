import Mathlib.Tactic

/-!
# Files that are read at offsets

A parser of untrusted bytes reads ranges of a file and gives up with an error where a
range is missing or a check fails. `need` is such a check and `obtained` such a read, and
the lemmas named `_ok` take a successful run apart.

`StaysWithin total` says of a parser that it never looks at what lies beyond `total`:
on files that agree up to there it does the same. There is one rule for each way
to put a parser together, and a check may be used in what follows it.
-/

namespace Tolkara

namespace Library

variable {α β ε : Type}

/-- The bytes of a range of a file, where the file has them. -/
abbrev Reader := ℕ → ℕ → Option (ℕ → UInt8)

namespace Reader

/-- The file without its first bytes. -/
def skip (read : Reader) (start : ℕ) : Reader := fun offset n => read (start + offset) n

/-- Two files that are the same up to `total`. -/
def Agree (total : ℕ) (read read' : Reader) : Prop :=
  ∀ offset n, offset + n ≤ total → read offset n = read' offset n

/-- What is read are these bytes. -/
def Gives (read : Reader) (content : ℕ → UInt8) : Prop :=
  ∀ offset n b, read offset n = some b → ∀ i < n, b i = content (offset + i)

/-- Every range up to `total` is there. -/
def Covers (total : ℕ) (read : Reader) : Prop :=
  ∀ offset n, offset + n ≤ total → ∃ b, read offset n = some b

theorem Agree.skip {total start size : ℕ} {read read' : Reader} (h : Agree total read read')
    (hle : start + size ≤ total) : Agree size (read.skip start) (read'.skip start) := by
  intro offset n hn
  exact h (start + offset) n (by omega)

theorem Gives.skip {read : Reader} {content : ℕ → UInt8} (h : read.Gives content) (start : ℕ) :
    (read.skip start).Gives fun i => content (start + i) := by
  intro offset n b hb i hi
  rw [h _ _ _ hb i hi, Nat.add_assoc]

end Reader

def need (p : Prop) [Decidable p] (e : ε) : Except ε Unit := if p then .ok () else .error e

def obtained (o : Option α) (e : ε) : Except ε α :=
  match o with
  | some a => .ok a
  | none => .error e

/-! ## Successful runs -/

theorem bind_ok {x : Except ε α} {f : α → Except ε β} {b : β} :
    (x >>= f) = .ok b ↔ ∃ a, x = .ok a ∧ f a = .ok b := by
  constructor
  · intro h
    cases x with
    | error e => cases h
    | ok a => exact ⟨a, rfl, h⟩
  · rintro ⟨a, rfl, h⟩
    exact h

theorem need_ok {p : Prop} [Decidable p] {e : ε} {u : Unit} : need p e = .ok u ↔ p := by
  unfold need
  by_cases hp : p
  · rw [if_pos hp]
    exact ⟨fun _ => hp, fun _ => rfl⟩
  · rw [if_neg hp]
    exact ⟨nofun, fun h => absurd h hp⟩

theorem obtained_ok {o : Option α} {e : ε} {a : α} : obtained o e = .ok a ↔ o = some a := by
  cases o with
  | none => exact ⟨nofun, nofun⟩
  | some b =>
      change Except.ok b = .ok a ↔ some b = some a
      rw [Except.ok.injEq, Option.some.injEq]

/-- A run whose error is dropped. -/
theorem toOption_some {x : Except ε α} {a : α} : x.toOption = some a ↔ x = .ok a := by
  cases x <;> simp [Except.toOption]

theorem forM_ok {l : List α} {f : α → Except ε Unit} :
    l.forM f = .ok () ↔ ∀ a ∈ l, f a = .ok () := by
  induction l with
  | nil => exact ⟨fun _ => nofun, fun _ => rfl⟩
  | cons a l ih =>
      change (f a >>= fun _ => l.forM f) = .ok () ↔ _
      rw [bind_ok, List.forall_mem_cons, ← ih]
      exact ⟨fun ⟨_, h⟩ => h, fun h => ⟨(), h⟩⟩

theorem mapError_ok {ε' : Type} {x : Except ε α} {f : ε → ε'} {a : α} :
    x.mapError f = .ok a ↔ x = .ok a := by
  cases x with
  | error e => exact ⟨nofun, nofun⟩
  | ok b =>
      change Except.ok b = .ok a ↔ Except.ok b = .ok a
      rw [Except.ok.injEq, Except.ok.injEq]

/-! ## Failed runs -/

theorem bind_error {x : Except ε α} {f : α → Except ε β} {e : ε} :
    (x >>= f) = .error e ↔ x = .error e ∨ ∃ a, x = .ok a ∧ f a = .error e := by
  constructor
  · intro h
    cases x with
    | error e' =>
        cases h
        exact .inl rfl
    | ok a => exact .inr ⟨a, rfl, h⟩
  · rintro (rfl | ⟨a, rfl, h⟩)
    · rfl
    · exact h

theorem need_error {p : Prop} [Decidable p] {e e' : ε} :
    need p e = .error e' ↔ ¬p ∧ e = e' := by
  unfold need
  by_cases hp : p
  · rw [if_pos hp]
    exact ⟨nofun, fun h => absurd hp h.1⟩
  · rw [if_neg hp, Except.error.injEq]
    exact ⟨fun h => ⟨hp, h⟩, fun h => h.2⟩

theorem obtained_error {o : Option α} {e e' : ε} :
    obtained o e = .error e' ↔ o = none ∧ e = e' := by
  cases o with
  | some a => exact ⟨nofun, nofun⟩
  | none =>
      change Except.error e = .error e' ↔ _
      rw [Except.error.injEq]
      exact ⟨fun h => ⟨rfl, h⟩, fun h => h.2⟩

/-! ## Dropped errors -/

theorem toOption_bind {x : Except ε α} {f : α → Except ε β} :
    (x >>= f).toOption = x.toOption.bind fun a => (f a).toOption := by
  cases x <;> rfl

theorem toOption_need {p : Prop} [Decidable p] {e : ε} :
    (need p e).toOption = if p then some () else none := by
  unfold need
  split <;> rfl

theorem toOption_obtained {o : Option α} {e : ε} : (obtained o e).toOption = o := by
  cases o <;> rfl

theorem toOption_mapM {f : α → Except ε β} (l : List α) :
    (l.mapM f).toOption = l.mapM fun a => (f a).toOption := by
  induction l with
  | nil => rfl
  | cons a l ih =>
      rw [List.mapM_cons, List.mapM_cons, toOption_bind, Option.bind_eq_bind]
      congr 1
      funext b
      rw [toOption_bind, ih]
      rfl

/-- The first run gives up with `e`, or the two are the same. -/
def SameUnless (e : ε) (x y : Except ε α) : Prop := x = .error e ∨ x = y

namespace SameUnless

variable {e : ε}

theorem refl (x : Except ε α) : SameUnless e x x := .inr rfl

theorem bind {x y : Except ε α} {f g : α → Except ε β} (h : SameUnless e x y)
    (hf : ∀ a, SameUnless e (f a) (g a)) : SameUnless e (x >>= f) (y >>= g) := by
  rcases h with rfl | rfl
  · exact .inl rfl
  · cases x with
    | error e' => exact .inr rfl
    | ok a => exact hf a

theorem ite {p : Prop} [Decidable p] {x x' y y' : Except ε α} (h : SameUnless e x x')
    (hy : SameUnless e y y') : SameUnless e (if p then x else y) (if p then x' else y') := by
  split
  · exact h
  · exact hy

end SameUnless

/-! ## How a run can fail -/

def FailsOnly (e : ε) (x : Except ε α) : Prop := ∀ e', x = .error e' → e' = e

namespace FailsOnly

variable {e : ε}

theorem ok (a : α) : FailsOnly e (.ok a : Except ε α) := nofun

theorem error : FailsOnly e (.error e : Except ε α) := by
  rintro e' ⟨⟩
  rfl

theorem need (p : Prop) [Decidable p] : FailsOnly e (Library.need p e) := by
  unfold Library.need
  split
  · exact ok ()
  · exact error

theorem obtained (o : Option α) : FailsOnly e (Library.obtained o e) := by
  cases o with
  | none => exact error
  | some a => exact ok a

theorem bind {x : Except ε α} {f : α → Except ε β} (hx : FailsOnly e x)
    (hf : ∀ a, x = .ok a → FailsOnly e (f a)) : FailsOnly e (x >>= f) := by
  intro e' h
  cases x with
  | error e'' =>
      cases h
      exact hx e' rfl
  | ok a => exact hf a rfl e' h

theorem ite {p : Prop} [Decidable p] {x y : Except ε α} (hx : p → FailsOnly e x)
    (hy : ¬ p → FailsOnly e y) : FailsOnly e (if p then x else y) := by
  split
  · exact hx ‹_›
  · exact hy ‹_›

end FailsOnly

/-! ## What a parser looks at -/

/-- It looks at nothing beyond `total`. -/
def StaysWithin (total : ℕ) (f : Reader → Except ε α) : Prop :=
  ∀ read read', Reader.Agree total read read' → f read = f read'

namespace StaysWithin

variable {total : ℕ}

theorem const (x : Except ε α) : StaysWithin total fun _ => x := fun _ _ _ => rfl

theorem need {p : Prop} [Decidable p] {e : ε} {f : Reader → Except ε α}
    (h : p → StaysWithin total f) :
    StaysWithin total fun read => Library.need p e >>= fun _ => f read := by
  intro read read' hagree
  unfold Library.need
  split
  · rename_i hp
    exact h hp read read' hagree
  · rfl

theorem read {offset n : ℕ} (hle : offset + n ≤ total) {e : ε}
    {f : Reader → (ℕ → UInt8) → Except ε α} (h : ∀ b, StaysWithin total fun read => f read b) :
    StaysWithin total fun read => obtained (read offset n) e >>= f read := by
  intro read read' hagree
  dsimp only
  rw [hagree offset n hle]
  cases read' offset n with
  | none => rfl
  | some b => exact h b read read' hagree

theorem bind {f : Reader → Except ε α} (hf : StaysWithin total f)
    {g : Reader → α → Except ε β}
    (hg : ∀ a read, f read = .ok a → StaysWithin total fun read => g read a) :
    StaysWithin total fun read => f read >>= g read := by
  intro read read' hagree
  dsimp only
  rw [hf read read' hagree]
  cases hok : f read' with
  | error e => rfl
  | ok a => exact hg a read' hok read read' hagree

theorem ite {p : Prop} [Decidable p] {f g : Reader → Except ε α}
    (hf : p → StaysWithin total f) (hg : ¬ p → StaysWithin total g) :
    StaysWithin total fun read => if p then f read else g read := by
  intro read read' hagree
  dsimp only
  split
  · rename_i hp
    exact hf hp read read' hagree
  · rename_i hp
    exact hg hp read read' hagree

theorem mapError {ε' : Type} {f : Reader → Except ε α} (h : StaysWithin total f) (g : ε → ε') :
    StaysWithin total fun read => (f read).mapError g := by
  intro read read' hagree
  dsimp only
  rw [h read read' hagree]

/-- A parser of a part of the file. -/
theorem skip {start size : ℕ} (hle : start + size ≤ total) {f : Reader → Except ε α}
    (h : StaysWithin size f) : StaysWithin total fun read => f (read.skip start) :=
  fun _ _ hagree => h _ _ (hagree.skip hle)

end StaysWithin

/-- It never misses a range, which it would report as `e`, where all of them up to `total` are
there. -/
def NeverMisses (total : ℕ) (e : ε) (f : Reader → Except ε α) : Prop :=
  ∀ read, Reader.Covers total read → f read ≠ .error e

namespace NeverMisses

variable {total : ℕ} {e : ε}

theorem const {x : Except ε α} (h : x ≠ .error e) : NeverMisses total e fun _ => x :=
  fun _ _ => h

theorem need {p : Prop} [Decidable p] {e' : ε} (hne : e' ≠ e) {f : Reader → Except ε α}
    (h : p → NeverMisses total e f) :
    NeverMisses total e fun read => Library.need p e' >>= fun _ => f read := by
  intro read hcovers
  unfold Library.need
  split
  · rename_i hp
    exact h hp read hcovers
  · intro heq
    exact hne (Except.error.inj heq)

theorem read {offset n : ℕ} (hle : offset + n ≤ total) {f : Reader → (ℕ → UInt8) → Except ε α}
    (h : ∀ b, NeverMisses total e fun read => f read b) :
    NeverMisses total e fun read => obtained (read offset n) e >>= f read := by
  intro read hcovers
  obtain ⟨b, hb⟩ := hcovers offset n hle
  dsimp only
  rw [hb]
  exact h b read hcovers

theorem bind {f : Reader → Except ε α} (hf : NeverMisses total e f)
    {g : Reader → α → Except ε β}
    (hg : ∀ a read, f read = .ok a → NeverMisses total e fun read => g read a) :
    NeverMisses total e fun read => f read >>= g read := by
  intro read hcovers
  dsimp only
  cases hok : f read with
  | error e' =>
      intro heq
      have hsame : e' = e := Except.error.inj heq
      exact hf read hcovers (hsame ▸ hok)
  | ok a => exact hg a read hok read hcovers

theorem ite {p : Prop} [Decidable p] {f g : Reader → Except ε α}
    (hf : p → NeverMisses total e f) (hg : ¬ p → NeverMisses total e g) :
    NeverMisses total e fun read => if p then f read else g read := by
  intro read hcovers
  dsimp only
  split
  · rename_i hp
    exact hf hp read hcovers
  · rename_i hp
    exact hg hp read hcovers

theorem obtained {o : Option α} {e' : ε} (hne : e' ≠ e) {f : Reader → α → Except ε β}
    (h : ∀ a, NeverMisses total e fun read => f read a) :
    NeverMisses total e fun read => Library.obtained o e' >>= f read := by
  intro read hcovers
  cases o with
  | none =>
      intro heq
      exact hne (Except.error.inj heq)
  | some a => exact h a read hcovers

end NeverMisses

end Library

end Tolkara
