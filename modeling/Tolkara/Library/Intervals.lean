import Mathlib.Data.List.Chain
import Mathlib.Data.List.Pairwise
import Mathlib.Tactic

/-!
# Tagged intervals and their normal form

A list of half-open intervals `[start, stop)`, each with a tag, describes the
partial function `cover l` from points to tags. Such a list is `Ordered` when
its intervals are nonempty and follow one another, and `Normal` when in
addition no two touching neighbours carry the same tag.

`push` adds an interval at the far end and joins it with the last one when it
continues it. The list under construction is kept with its last interval first,
so that `push` is a match on the head; `pushAll` runs it over a whole list. The
results below say that `pushAll` computes the normal form: it describes the same
partial function, it is normal, normal forms are unique, and no list that
describes the same function is shorter.
-/

namespace Tolkara

namespace Library

/-- The half-open interval `[start, stop)` with a tag. -/
structure TaggedInterval (α : Type*) where
  start : ℕ
  stop : ℕ
  tag : α
deriving DecidableEq, Repr

namespace TaggedInterval

variable {α : Type*}

def Contains (r : TaggedInterval α) (x : ℕ) : Prop := r.start ≤ x ∧ x < r.stop

instance (r : TaggedInterval α) (x : ℕ) : Decidable (r.Contains x) :=
  inferInstanceAs (Decidable (_ ∧ _))

def cover : List (TaggedInterval α) → ℕ → Option α
  | [], _ => none
  | r :: l, x => if r.Contains x then some r.tag else cover l x

@[simp] theorem cover_nil (x : ℕ) : cover ([] : List (TaggedInterval α)) x = none := rfl

theorem cover_cons (r : TaggedInterval α) (l : List (TaggedInterval α)) (x : ℕ) :
    cover (r :: l) x = if r.Contains x then some r.tag else cover l x := rfl

theorem cover_cons_bounds (r : TaggedInterval α) (l : List (TaggedInterval α)) (x : ℕ) :
    cover (r :: l) x = if r.start ≤ x ∧ x < r.stop then some r.tag else cover l x := rfl

theorem cover_append (l l' : List (TaggedInterval α)) (x : ℕ) :
    cover (l ++ l') x = (cover l x).or (cover l' x) := by
  induction l with
  | nil => simp
  | cons r l ih =>
      rw [List.cons_append, cover_cons, cover_cons, ih]
      split <;> simp

theorem cover_eq_none_iff (l : List (TaggedInterval α)) (x : ℕ) :
    cover l x = none ↔ ∀ r ∈ l, ¬ r.Contains x := by
  induction l with
  | nil => simp
  | cons r l ih =>
      rw [cover_cons]
      by_cases h : r.Contains x
      · simp [h]
      · simp [h, ih]

theorem mem_of_cover_eq_some {l : List (TaggedInterval α)} {x : ℕ} {t : α}
    (h : cover l x = some t) : ∃ r ∈ l, r.Contains x ∧ r.tag = t := by
  induction l with
  | nil => simp at h
  | cons r l ih =>
      rw [cover_cons] at h
      by_cases hr : r.Contains x
      · exact ⟨r, by simp, hr, by simpa [hr] using h⟩
      · obtain ⟨q, hq, hx, ht⟩ := ih (by simpa [hr] using h)
        exact ⟨q, by simp [hq], hx, ht⟩

/-- Nonempty intervals, each ending before the next begins. -/
def Ordered (l : List (TaggedInterval α)) : Prop :=
  (∀ r ∈ l, r.start < r.stop) ∧ l.Pairwise fun r q => r.stop ≤ q.start

/-- Ordered, with no two touching neighbours of one tag. -/
def Normal (l : List (TaggedInterval α)) : Prop :=
  Ordered l ∧ l.IsChain fun r q => ¬ (r.stop = q.start ∧ r.tag = q.tag)

theorem ordered_nil : Ordered ([] : List (TaggedInterval α)) := ⟨by simp, by simp⟩

theorem ordered_cons {r : TaggedInterval α} {l : List (TaggedInterval α)} :
    Ordered (r :: l) ↔
      r.start < r.stop ∧ (∀ q ∈ l, r.stop ≤ q.start) ∧ Ordered l := by
  simp only [Ordered, List.mem_cons, forall_eq_or_imp, List.pairwise_cons]
  tauto

theorem Ordered.tail {r : TaggedInterval α} {l : List (TaggedInterval α)}
    (h : Ordered (r :: l)) : Ordered l := (ordered_cons.1 h).2.2

theorem normal_nil : Normal ([] : List (TaggedInterval α)) := ⟨ordered_nil, by simp⟩

theorem Normal.tail {r : TaggedInterval α} {l : List (TaggedInterval α)}
    (h : Normal (r :: l)) : Normal l := ⟨h.1.tail, h.2.tail⟩

/-- In an ordered list the interval of a point is unique, so membership decides
`cover`. -/
theorem cover_eq_some_of_mem {l : List (TaggedInterval α)} (h : Ordered l)
    {r : TaggedInterval α} (hr : r ∈ l) {x : ℕ} (hx : r.Contains x) :
    cover l x = some r.tag := by
  induction l with
  | nil => simp at hr
  | cons q l ih =>
      obtain ⟨-, hnext, htail⟩ := ordered_cons.1 h
      rw [cover_cons]
      rcases List.mem_cons.1 hr with rfl | hmem
      · simp [hx]
      · have hle := hnext r hmem
        have hq : ¬ q.Contains x := by
          rintro ⟨-, hlt⟩
          have := hx.1
          omega
        simpa [hq] using ih htail hmem

/-- No point before the first interval is covered. -/
theorem cover_eq_none_of_lt {r : TaggedInterval α} {l : List (TaggedInterval α)}
    (h : Ordered (r :: l)) {x : ℕ} (hx : x < r.start) : cover (r :: l) x = none := by
  rw [cover_eq_none_iff]
  obtain ⟨hr, hnext, hl⟩ := ordered_cons.1 h
  intro q hq hc
  rcases List.mem_cons.1 hq with rfl | hq
  · exact absurd hc.1 (by omega)
  · have := hnext q hq
    have := hc.1
    omega

theorem cover_start {r : TaggedInterval α} {l : List (TaggedInterval α)}
    (h : Ordered (r :: l)) : cover (r :: l) r.start = some r.tag :=
  cover_eq_some_of_mem h (by simp) ⟨le_rfl, (ordered_cons.1 h).1⟩

theorem cover_tail {r : TaggedInterval α} {l : List (TaggedInterval α)}
    (h : Ordered (r :: l)) (x : ℕ) :
    cover l x = if x < r.stop then none else cover (r :: l) x := by
  obtain ⟨hr, hnext, hl⟩ := ordered_cons.1 h
  split
  · rw [cover_eq_none_iff]
    intro q hq hc
    have := hnext q hq
    have := hc.1
    omega
  · have hn : ¬ r.Contains x := fun hc => absurd hc.2 (by omega)
    rw [cover_cons, if_neg hn]

/-! ## Uniqueness of normal forms -/

theorem start_le_of_cover_eq {r q : TaggedInterval α} {l m : List (TaggedInterval α)}
    (hl : Ordered (r :: l)) (hm : Ordered (q :: m))
    (h : ∀ x, cover (r :: l) x = cover (q :: m) x) : r.start ≤ q.start := by
  by_contra hlt
  have hnone := cover_eq_none_of_lt hl (x := q.start) (by omega)
  rw [h, cover_start hm] at hnone
  cases hnone

/-- With equal starts and tags, the first interval of a normal list reaches at
least as far: were it shorter, the point behind it would be covered with the
same tag by its neighbour. -/
theorem stop_le_of_cover_eq {r q : TaggedInterval α} {l m : List (TaggedInterval α)}
    (hl : Normal (r :: l)) (hm : Ordered (q :: m)) (hs : r.start = q.start)
    (ht : r.tag = q.tag) (h : ∀ x, cover (r :: l) x = cover (q :: m) x) :
    q.stop ≤ r.stop := by
  by_contra hlt
  have hr := (ordered_cons.1 hl.1).1
  have hcov : cover (q :: m) r.stop = some q.tag :=
    cover_eq_some_of_mem hm (by simp) ⟨by omega, by omega⟩
  rw [← h] at hcov
  obtain ⟨p, hp, hc, htag⟩ := mem_of_cover_eq_some hcov
  rcases List.mem_cons.1 hp with rfl | hp
  · exact absurd hc.2 (by omega)
  cases l with
  | nil => simp at hp
  | cons s l =>
      have hsep := (List.isChain_cons_cons.1 hl.2).1
      have hrs := (ordered_cons.1 hl.1).2.1 s (by simp)
      have hsl := ordered_cons.1 hl.1.tail
      rcases List.mem_cons.1 hp with rfl | hp
      · have := hc.1
        exact hsep ⟨by omega, by rw [ht, htag]⟩
      · have := hsl.2.1 p hp
        have := hc.1
        omega

theorem normal_unique : ∀ {l m : List (TaggedInterval α)}, Normal l → Normal m →
    (∀ x, cover l x = cover m x) → l = m
  | [], [], _, _, _ => rfl
  | [], q :: m, _, hm, h => by
      have := h q.start
      rw [cover_start hm.1] at this
      cases this
  | r :: l, [], hl, _, h => by
      have := h r.start
      rw [cover_start hl.1] at this
      cases this
  | r :: l, q :: m, hl, hm, h => by
      have hstart : r.start = q.start :=
        le_antisymm (start_le_of_cover_eq hl.1 hm.1 h)
          (start_le_of_cover_eq hm.1 hl.1 fun x => (h x).symm)
      have htag : r.tag = q.tag := by
        have h1 := h r.start
        have h2 := cover_start hm.1
        rw [cover_start hl.1, hstart, h2] at h1
        exact Option.some.inj h1
      have hstop : r.stop = q.stop :=
        le_antisymm
          (stop_le_of_cover_eq hm hl.1 hstart.symm htag.symm fun x => (h x).symm)
          (stop_le_of_cover_eq hl hm.1 hstart htag h)
      have htail : ∀ x, cover l x = cover m x := by
        intro x
        rw [cover_tail hl.1, cover_tail hm.1, h, hstop]
      have hrest := normal_unique hl.tail hm.tail htail
      obtain ⟨rs, rt, rg⟩ := r
      obtain ⟨qs, qt, qg⟩ := q
      simp only at hstart htag hstop
      rw [hstart, htag, hstop, hrest]

/-! ## Building the normal form -/

/-- The intervals collected so far, last one first, are in normal form and all
end at or before `bound`. -/
def Collected (next : List (TaggedInterval α)) (bound : ℕ) : Prop :=
  Normal next.reverse ∧ ∀ r ∈ next, r.stop ≤ bound

theorem collected_nil (bound : ℕ) : Collected ([] : List (TaggedInterval α)) bound :=
  ⟨normal_nil, by simp⟩

theorem Collected.mono {next : List (TaggedInterval α)} {b c : ℕ}
    (h : Collected next b) (hbc : b ≤ c) : Collected next c :=
  ⟨h.1, fun r hr => le_trans (h.2 r hr) hbc⟩

theorem ordered_append_singleton {l : List (TaggedInterval α)} {r : TaggedInterval α} :
    Ordered (l ++ [r]) ↔
      Ordered l ∧ r.start < r.stop ∧ ∀ q ∈ l, q.stop ≤ r.start := by
  simp only [Ordered, List.mem_append, List.mem_singleton, List.pairwise_append,
    List.pairwise_singleton, true_and]
  constructor
  · rintro ⟨h1, h2, h3⟩
    exact ⟨⟨fun q hq => h1 q (.inl hq), h2⟩, h1 r (.inr rfl),
      fun q hq => h3 q hq r rfl⟩
  · rintro ⟨⟨h1, h2⟩, h3, h4⟩
    refine ⟨?_, h2, ?_⟩
    · rintro q (hq | rfl)
      · exact h1 q hq
      · exact h3
    · rintro q hq p rfl
      exact h4 q hq

theorem normal_append_singleton {l : List (TaggedInterval α)} {r : TaggedInterval α}
    (hl : Normal l) (hr : r.start < r.stop) (hq : ∀ q ∈ l, q.stop ≤ r.start)
    (hsep : ∀ q ∈ l.getLast?, ¬ (q.stop = r.start ∧ q.tag = r.tag)) :
    Normal (l ++ [r]) := by
  refine ⟨ordered_append_singleton.2 ⟨hl.1, hr, hq⟩, ?_⟩
  rw [List.isChain_append]
  refine ⟨hl.2, List.isChain_singleton r, ?_⟩
  intro q hlast p hp
  have : p = r := by simpa using hp.symm
  subst this
  exact hsep q hlast

/-- A list that may be pushed one after the other: the intervals may be empty,
and each starts at or after the end of the ones before it. -/
def Pushable (bound : ℕ) : List (TaggedInterval α) → Prop
  | [] => True
  | r :: l => bound ≤ r.start ∧ r.start ≤ r.stop ∧ Pushable r.stop l

theorem Pushable.mono {l : List (TaggedInterval α)} {b c : ℕ} (h : Pushable c l)
    (hbc : b ≤ c) : Pushable b l := by
  cases l with
  | nil => trivial
  | cons r l => exact ⟨le_trans hbc h.1, h.2⟩

theorem pushable_of_ordered {l : List (TaggedInterval α)} (h : Ordered l) {bound : ℕ}
    (hb : ∀ r ∈ l, bound ≤ r.start) : Pushable bound l := by
  induction l generalizing bound with
  | nil => trivial
  | cons r l ih =>
      obtain ⟨hr, hnext, hl⟩ := ordered_cons.1 h
      exact ⟨hb r (by simp), hr.le, ih hl hnext⟩

theorem start_le_of_pushable {l : List (TaggedInterval α)} {bound : ℕ}
    (h : Pushable bound l) : ∀ r ∈ l, bound ≤ r.start := by
  induction l generalizing bound with
  | nil => simp
  | cons q l ih =>
      intro r hr
      rcases List.mem_cons.1 hr with rfl | hr
      · exact h.1
      · exact le_trans (le_trans h.1 h.2.1) (ih h.2.2 r hr)

theorem pushable_append {l m : List (TaggedInterval α)} {b c : ℕ} (hl : Pushable b l)
    (hstop : ∀ r ∈ l, r.stop ≤ c) (hbc : b ≤ c) (hm : Pushable c m) : Pushable b (l ++ m) := by
  induction l generalizing b with
  | nil => exact hm.mono hbc
  | cons r l ih =>
      exact ⟨hl.1, hl.2.1, ih hl.2.2 (fun q hq => hstop q (by simp [hq])) (hstop r (by simp))⟩

/-- An ordered list in which every interval is cut into pieces of its own. -/
theorem pushable_flatMap {f : TaggedInterval α → List (TaggedInterval α)}
    {l : List (TaggedInterval α)} (hl : Ordered l)
    (hf : ∀ r ∈ l, Pushable r.start (f r) ∧ ∀ q ∈ f r, q.stop ≤ r.stop) {bound : ℕ}
    (hb : ∀ r ∈ l, bound ≤ r.start) : Pushable bound (l.flatMap f) := by
  induction l generalizing bound with
  | nil => trivial
  | cons r l ih =>
      obtain ⟨hr, hnext, hl⟩ := ordered_cons.1 hl
      obtain ⟨hpush, hstop⟩ := hf r (by simp)
      have hbr := hb r (by simp)
      rw [List.flatMap_cons]
      apply pushable_append (hpush.mono hbr) hstop (by omega)
      exact ih hl (fun q hq => hf q (by simp [hq])) hnext

theorem cover_flatMap {f : TaggedInterval α → List (TaggedInterval α)} {g : α → Option α}
    {l : List (TaggedInterval α)} (hl : Ordered l) (x : ℕ)
    (hf : ∀ r ∈ l, cover (f r) x = if r.Contains x then g r.tag else none) :
    cover (l.flatMap f) x = (cover l x).bind g := by
  induction l with
  | nil => rfl
  | cons r l ih =>
      obtain ⟨hr, hnext, htail⟩ := ordered_cons.1 hl
      rw [List.flatMap_cons, cover_append, hf r (by simp),
        ih htail fun q hq => hf q (by simp [hq]), cover_cons]
      by_cases hx : r.Contains x
      · have hnone : cover l x = none := by
          rw [cover_eq_none_iff]
          intro q hq hc
          have := hnext q hq
          have := hc.1
          have := hx.2
          omega
        simp [hx, hnone]
      · simp [hx]

variable [DecidableEq α]

/-- Adds an interval behind the ones collected so far, last one first. An empty
interval adds nothing; one that continues the last with its tag extends it. -/
def push (next : List (TaggedInterval α)) (r : TaggedInterval α) : List (TaggedInterval α) :=
  if r.start = r.stop then next
  else match next with
    | [] => [r]
    | last :: rest =>
      if last.stop = r.start ∧ last.tag = r.tag then
        { last with stop := r.stop } :: rest
      else r :: last :: rest

def pushAll (next l : List (TaggedInterval α)) : List (TaggedInterval α) :=
  l.foldl push next

theorem length_le_length_push (next : List (TaggedInterval α)) (r : TaggedInterval α) :
    next.length ≤ (push next r).length := by
  unfold push
  split
  · rfl
  · cases next with
    | nil => simp
    | cons last rest =>
        dsimp only
        split <;> simp

theorem length_push_le (next : List (TaggedInterval α)) (r : TaggedInterval α) :
    (push next r).length ≤ next.length + 1 := by
  unfold push
  split
  · omega
  · cases next with
    | nil => simp
    | cons last rest =>
        dsimp only
        split <;> simp

theorem length_le_length_pushAll (next l : List (TaggedInterval α)) :
    next.length ≤ (pushAll next l).length := by
  induction l generalizing next with
  | nil => exact le_rfl
  | cons r l ih => exact le_trans (length_le_length_push next r) (ih (push next r))

theorem length_pushAll_le (next l : List (TaggedInterval α)) :
    (pushAll next l).length ≤ next.length + l.length := by
  induction l generalizing next with
  | nil => exact le_rfl
  | cons r l ih =>
      have h := ih (push next r)
      have h' := length_push_le next r
      simp only [pushAll, List.foldl_cons, List.length_cons] at h ⊢
      omega

theorem Collected.push {next : List (TaggedInterval α)} {bound : ℕ}
    (h : Collected next bound) {r : TaggedInterval α} (hb : bound ≤ r.start)
    (hr : r.start ≤ r.stop) : Collected (push next r) r.stop := by
  unfold TaggedInterval.push
  by_cases he : r.start = r.stop
  · rw [if_pos he]
    exact h.mono (by omega)
  rw [if_neg he]
  cases next with
  | nil =>
      refine ⟨?_, by simp⟩
      exact normal_append_singleton normal_nil (by omega) (by simp) (by simp)
  | cons last rest =>
      have hlast := h.2 last (by simp)
      have hn := h.1
      rw [List.reverse_cons] at hn
      obtain ⟨hrest, hlt, hbefore⟩ := ordered_append_singleton.1 hn.1
      dsimp only
      split
      · rename_i hjoin
        refine ⟨?_, ?_⟩
        · rw [List.reverse_cons]
          rw [Normal, List.isChain_append] at hn
          refine normal_append_singleton ⟨hrest, hn.2.1⟩ (by simp; omega) hbefore ?_
          intro q hq
          exact hn.2.2.2 q hq last (by simp)
        · intro q hq
          rcases List.mem_cons.1 hq with rfl | hq
          · simp
          · have := h.2 q (by simp [hq])
            omega
      · rename_i hsep
        refine ⟨?_, ?_⟩
        · rw [List.reverse_cons]
          refine normal_append_singleton h.1 (by omega) ?_ ?_
          · intro q hq
            have := h.2 q (List.mem_reverse.1 hq)
            omega
          · intro q hq
            have : q = last := by simpa using hq.symm
            subst this
            exact hsep
        · intro q hq
          rcases List.mem_cons.1 hq with rfl | hq
          · exact le_rfl
          · have := h.2 q hq
            omega

theorem cover_reverse_push {next : List (TaggedInterval α)} {bound : ℕ}
    (h : Collected next bound) {r : TaggedInterval α} (hb : bound ≤ r.start)
    (hr : r.start ≤ r.stop) (x : ℕ) :
    cover (push next r).reverse x =
      if r.Contains x then some r.tag else cover next.reverse x := by
  unfold push
  by_cases he : r.start = r.stop
  · have hn : ¬ r.Contains x := fun hc => by have := hc.1; have := hc.2; omega
    rw [if_pos he, if_neg hn]
  rw [if_neg he]
  cases next with
  | nil => simp [cover]
  | cons last rest =>
      have hlast := h.2 last (by simp)
      have hn := h.1
      rw [List.reverse_cons] at hn
      obtain ⟨-, hlt, hbefore⟩ := ordered_append_singleton.1 hn.1
      have hfar : ∀ q ∈ (last :: rest), r.Contains x → ¬ q.Contains x := by
        intro q hq hc hc'
        have := h.2 q hq
        have := hc.1
        have := hc'.2
        omega
      dsimp only
      split
      · rename_i hjoin
        rw [List.reverse_cons, cover_append, List.reverse_cons, cover_append]
        cases hrest : cover rest.reverse x with
        | none =>
            simp only [cover, Option.none_or, Contains, hjoin.2]
            split_ifs <;> first | rfl | omega
        | some t =>
            have hnot : ¬ r.Contains x := by
              intro hc
              obtain ⟨q, hq, hcq, -⟩ := mem_of_cover_eq_some hrest
              exact hfar q (by simpa using Or.inr (by simpa using hq)) hc hcq
            simp [hnot]
      · rw [List.reverse_cons, cover_append]
        by_cases hc : r.Contains x
        · have hnone : cover (last :: rest).reverse x = none := by
            rw [cover_eq_none_iff]
            intro q hq
            exact hfar q (List.mem_reverse.1 hq) hc
          rw [hnone]
          simp [cover, hc]
        · simp [cover, hc]

theorem normal_pushAll {next l : List (TaggedInterval α)} {bound : ℕ}
    (h : Collected next bound) (hl : Pushable bound l) :
    Normal (pushAll next l).reverse := by
  induction l generalizing next bound with
  | nil => exact h.1
  | cons r l ih => exact ih (h.push hl.1 hl.2.1) hl.2.2

theorem cover_reverse_pushAll {next l : List (TaggedInterval α)} {bound : ℕ}
    (h : Collected next bound) (hl : Pushable bound l) (x : ℕ) :
    cover (pushAll next l).reverse x = (cover next.reverse x).or (cover l x) := by
  induction l generalizing next bound with
  | nil => simp [pushAll]
  | cons r l ih =>
      have ih' := ih (h.push hl.1 hl.2.1) hl.2.2
      rw [pushAll, List.foldl_cons]
      rw [pushAll] at ih'
      rw [ih', cover_reverse_push h hl.1 hl.2.1, cover_cons]
      by_cases hc : r.Contains x
      · have hnone : cover next.reverse x = none := by
          rw [cover_eq_none_iff]
          intro q hq hcq
          have := h.2 q (by simpa using hq)
          have := hl.1
          have := hc.1
          have := hcq.2
          omega
        simp [hc, hnone]
      · simp [hc]

/-- Joining intervals makes no new end points. -/
theorem forall_pushAll {P Q : ℕ → Prop} {next l : List (TaggedInterval α)}
    (hnext : ∀ r ∈ next, P r.start ∧ Q r.stop) (hl : ∀ r ∈ l, P r.start ∧ Q r.stop) :
    ∀ r ∈ pushAll next l, P r.start ∧ Q r.stop := by
  induction l generalizing next with
  | nil => exact hnext
  | cons r l ih =>
      apply ih _ fun q hq => hl q (by simp [hq])
      have hr := hl r (by simp)
      unfold push
      split
      · exact hnext
      · cases next with
        | nil => simpa using hr
        | cons last rest =>
            have hlast := hnext last (by simp)
            have hrest : ∀ q ∈ rest, P q.start ∧ Q q.stop := fun q hq => hnext q (by simp [hq])
            dsimp only
            split
            · simpa using ⟨⟨hlast.1, hr.2⟩, hrest⟩
            · simpa using ⟨hr, hlast, hrest⟩

/-- The normal form is the shortest description of its partial function. -/
theorem length_le_of_cover_eq {l m : List (TaggedInterval α)} (hl : Normal l)
    (hm : Ordered m) (h : ∀ x, cover l x = cover m x) : l.length ≤ m.length := by
  have hpush : Pushable 0 m := pushable_of_ordered hm (by simp)
  have hnorm := normal_pushAll (collected_nil 0) hpush
  have hcov : ∀ x, cover l x = cover (pushAll [] m).reverse x := by
    intro x
    rw [cover_reverse_pushAll (collected_nil 0) hpush, h]
    simp
  have heq := normal_unique hl hnorm hcov
  rw [heq, List.length_reverse]
  simpa using length_pushAll_le [] m

end TaggedInterval

end Library

end Tolkara
