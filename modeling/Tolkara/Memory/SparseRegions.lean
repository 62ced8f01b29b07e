import Tolkara.Memory.Sparse

/-!
# The region list of the sparse memory

A region list is read through `TaggedInterval.cover`, as the partial function from
addresses to permissions. `change` rebuilds the list in one pass: `pieces` are
the intervals it hands to `append`, in order, so that the new list is the
normal form of the pieces, cut off at the size of the table. `changed` is what
the three operations do to the permissions of one address, and `rebuild_spec`
says that the rebuilt list describes exactly that.
-/

namespace Tolkara

namespace Space

open Library TaggedInterval

/-! ## Appending -/

def appendAll (next : List Region) (l : List Region) : Option (List Region) :=
  l.foldlM append next

@[simp] theorem appendAll_nil (next : List Region) : appendAll next [] = some next := rfl

theorem appendAll_cons (next : List Region) (r : Region) (l : List Region) :
    appendAll next (r :: l) = (append next r).bind fun next => appendAll next l := by
  simp [appendAll]

theorem appendAll_append (next l m : List Region) :
    appendAll next (l ++ m) = (appendAll next l).bind fun next => appendAll next m := by
  simp [appendAll]

/-- `append` is `push`, up to the size of the table. -/
theorem append_eq {next : List Region} (h : next.length ≤ regionLimit) (r : Region) :
    append next r = if (push next r).length ≤ regionLimit then some (push next r) else none := by
  by_cases hr : r.start = r.stop
  · have hp : push next r = next := by simp [push, hr]
    rw [hp, append.eq_def, if_pos hr, if_pos h]
  · cases next with
    | nil =>
        have hp : push [] r = [r] := by simp [push, hr]
        rw [hp, append, if_neg hr, if_pos (by simp [regionLimit])]
    | cons last rest =>
        rw [append, if_neg hr]
        by_cases hj : last.stop = r.start ∧ last.tag = r.tag
        · have hp : push (last :: rest) r = { last with stop := r.stop } :: rest := by
            simp [push, hr, hj]
          rw [hp, if_pos hj, if_pos (by simpa using h)]
        · have hp : push (last :: rest) r = r :: last :: rest := by
            simp [push, hr, hj]
          rw [hp, if_neg hj]
          by_cases hl : (last :: rest).length = regionLimit
          · rw [if_pos hl, if_neg]
            simp only [List.length_cons] at hl ⊢
            omega
          · rw [if_neg hl, if_pos]
            simp only [List.length_cons] at hl h ⊢
            omega

/-- A run of `append` is a run of `push` that fits. -/
theorem appendAll_eq {next : List Region} (h : next.length ≤ regionLimit) (l : List Region) :
    appendAll next l =
      if (pushAll next l).length ≤ regionLimit then some (pushAll next l) else none := by
  induction l generalizing next with
  | nil =>
      rw [appendAll_nil, pushAll, List.foldl_nil, if_pos h]
  | cons r l ih =>
      rw [appendAll_cons, append_eq h]
      have hpush : pushAll next (r :: l) = pushAll (push next r) l := rfl
      by_cases hr : (push next r).length ≤ regionLimit
      · rw [if_pos hr, Option.bind_some, ih hr, hpush]
      · rw [if_neg hr, Option.bind_none, hpush, if_neg]
        have := length_le_length_pushAll (push next r) l
        omega

/-! ## The pieces of a change -/

section Pieces

variable (op : Operation) (a stop : ℕ) (prot maxprot : Prot)

def headPiece (r : Region) : List Region :=
  if r.start < a then [⟨r.start, a, r.tag⟩] else []

def tailPiece (r : Region) : List Region :=
  if r.stop > stop then [⟨stop, r.stop, r.tag⟩] else []

/-- What one region becomes once the new mapping, if any, is in place. -/
def regionPieces (r : Region) : List Region :=
  if r.stop ≤ a then [r]
  else if r.start ≥ stop then [r]
  else (if op ≠ .map then headPiece a r else []) ++
    (if op = .protect then
      [⟨if r.start > a then r.start else a, if r.stop < stop then r.stop else stop,
        (prot, r.maxprot)⟩] else []) ++
    tailPiece stop r

/-- The pieces of a list into which the new mapping is yet to be put. -/
def mapPieces : List Region → List Region
  | [] => [⟨a, stop, (prot, maxprot)⟩]
  | r :: l =>
    if r.stop ≤ a then r :: mapPieces l
    else headPiece a r ++ ⟨a, stop, (prot, maxprot)⟩ ::
      (r :: l).flatMap (regionPieces .map a stop prot)

/-- All pieces of a change, in the order they are appended. -/
def pieces (l : List Region) : List Region :=
  if op = .map then mapPieces a stop prot maxprot l
  else l.flatMap (regionPieces op a stop prot)

theorem appendAll_ite (c : Prop) [Decidable c] (next : List Region) (r : Region) :
    appendAll next (if c then [r] else []) = appendIf c next r := by
  unfold appendIf
  split
  · simp [appendAll]
  · rfl

theorem appendIf_true (next : List Region) (r : Region) :
    appendIf True next r = append next r := rfl

theorem appendIf_of_not {c : Prop} [Decidable c] (h : ¬ c) (next : List Region) (r : Region) :
    appendIf c next r = some next := if_neg h

theorem appendAll_regionPieces (next : List Region) {r : Region} (h : ¬ r.stop ≤ a)
    (h' : ¬ r.start ≥ stop) :
    appendAll next (regionPieces op a stop prot r) =
      (appendIf (op ≠ .map ∧ r.start < a) next ⟨r.start, a, r.tag⟩).bind fun next =>
        (appendIf (op = .protect) next ⟨if r.start > a then r.start else a,
          if r.stop < stop then r.stop else stop, (prot, r.maxprot)⟩).bind fun next =>
          appendIf (r.stop > stop) next ⟨stop, r.stop, r.tag⟩ := by
  have hhead : appendAll next (if op ≠ .map then headPiece a r else []) =
      appendIf (op ≠ .map ∧ r.start < a) next ⟨r.start, a, r.tag⟩ := by
    by_cases hop : op ≠ .map
    · rw [if_pos hop, headPiece, appendAll_ite]
      simp [appendIf, hop]
    · rw [if_neg hop, appendIf_of_not (by tauto), appendAll_nil]
  rw [regionPieces, if_neg h, if_neg h', appendAll_append, appendAll_append, hhead,
    Option.bind_assoc]
  simp only [tailPiece, appendAll_ite]

/-- Once the new mapping is in place, the loop appends the pieces of each region. -/
theorem rebuildLoop_inserted (l next : List Region) :
    rebuildLoop op a stop prot maxprot l true next =
      (appendAll next (l.flatMap (regionPieces op a stop prot))).map (Prod.mk true) := by
  induction l generalizing next with
  | nil => rfl
  | cons r l ih =>
      have hone : regionPieces op a stop prot r = [r] →
          appendAll next ((r :: l).flatMap (regionPieces op a stop prot)) =
            (append next r).bind fun next =>
              appendAll next (l.flatMap (regionPieces op a stop prot)) := by
        intro h
        rw [List.flatMap_cons, h, List.singleton_append, appendAll_cons]
      rw [rebuildLoop]
      by_cases h1 : r.stop ≤ a
      · rw [if_pos h1, hone (by rw [regionPieces, if_pos h1]), Option.map_bind]
        simp only [ih]
        rfl
      · rw [if_neg h1, appendIf_of_not (by simp), Option.bind_eq_bind, Option.bind_some,
          appendIf_of_not (by simp), Option.bind_some]
        by_cases h2 : r.start ≥ stop
        · rw [if_pos h2, hone (by rw [regionPieces, if_neg h1, if_pos h2]), Option.map_bind]
          simp only [ih]
          rfl
        · rw [if_neg h2, List.flatMap_cons, appendAll_append,
            appendAll_regionPieces op a stop prot next h1 h2, Option.map_bind]
          simp only [ih, Option.bind_assoc]
          rfl

theorem rebuildLoop_map (l next : List Region) :
    ((rebuildLoop .map a stop prot maxprot l false next).bind fun x =>
      appendIf (x.1 = false) x.2 ⟨a, stop, (prot, maxprot)⟩) =
      appendAll next (mapPieces a stop prot maxprot l) := by
  induction l generalizing next with
  | nil => simp [rebuildLoop, mapPieces, appendAll, appendIf]
  | cons r l ih =>
      rw [mapPieces]
      by_cases h1 : r.stop ≤ a
      · rw [rebuildLoop, if_pos h1, if_pos h1, appendAll_cons, Option.bind_eq_bind,
          Option.bind_assoc]
        simp only [ih]
      · have hrest : ∀ next', (rebuildLoop .map a stop prot maxprot (r :: l) true next') =
            (appendAll next' ((r :: l).flatMap (regionPieces .map a stop prot))).map
              (Prod.mk true) := rebuildLoop_inserted .map a stop prot maxprot (r :: l)
        have hstep : rebuildLoop .map a stop prot maxprot (r :: l) false next =
            (appendIf (r.start < a) next ⟨r.start, a, r.tag⟩).bind fun next =>
              (append next ⟨a, stop, (prot, maxprot)⟩).bind fun next =>
                rebuildLoop .map a stop prot maxprot (r :: l) true next := by
          simp only [rebuildLoop, if_neg h1, true_and, appendIf_true]
          rfl
        rw [if_neg h1, hstep, headPiece, appendAll_append, appendAll_ite, Option.bind_assoc]
        congr 1
        funext next'
        rw [appendAll_cons, Option.bind_assoc]
        congr 1
        funext next''
        rw [hrest]
        cases appendAll next'' ((r :: l).flatMap (regionPieces .map a stop prot)) with
        | none => rfl
        | some x => rfl

theorem rebuild_eq_appendAll (l : List Region) :
    rebuild op a stop prot maxprot l =
      (appendAll [] (pieces op a stop prot maxprot l)).map List.reverse := by
  unfold rebuild pieces
  by_cases hop : op = .map
  · subst hop
    rw [if_pos rfl, ← rebuildLoop_map, Option.map_bind]
    simp only [ne_eq, not_true_eq_false, decide_false, Option.bind_eq_bind]
    congr 1
    funext x
    rw [Function.comp_apply]
    cases appendIf (x.1 = false) x.2 ⟨a, stop, (prot, maxprot)⟩ <;> rfl
  · rw [if_neg hop]
    simp only [ne_eq, hop, not_false_eq_true, decide_true, rebuildLoop_inserted]
    cases appendAll [] (l.flatMap (regionPieces op a stop prot)) with
    | none => rfl
    | some x => rfl

/-! ## What the pieces describe -/

/-- What a change makes of the permissions at one address. -/
def changed (x : ℕ) (old : Option (Prot × Prot)) : Option (Prot × Prot) :=
  if a ≤ x ∧ x < stop then
    match op with
    | .map => some (prot, maxprot)
    | .unmap => none
    | .protect => old.map fun t => (prot, t.2)
  else old

variable {op a stop prot maxprot}

theorem changed_of_not {x : ℕ} (h : ¬ (a ≤ x ∧ x < stop)) (old : Option (Prot × Prot)) :
    changed op a stop prot maxprot x old = old := if_neg h

theorem pushable_regionPieces {r : Region} (hr : r.start < r.stop) (has : a < stop) :
    Pushable r.start (regionPieces op a stop prot r) ∧
      ∀ q ∈ regionPieces op a stop prot r, q.stop ≤ r.stop := by
  unfold regionPieces headPiece tailPiece
  cases op <;> split_ifs <;> simp [Pushable] <;> omega

theorem cover_regionPieces {r : Region} (hop : op ≠ .map) (x : ℕ) :
    cover (regionPieces op a stop prot r) x =
      if r.Contains x then changed op a stop prot maxprot x (some r.tag) else none := by
  have hone : cover [r] x = if r.Contains x then some r.tag else none := by
    simp [cover_cons]
  have hkeep : (r.stop ≤ a ∨ r.start ≥ stop) → cover [r] x =
      if r.Contains x then changed op a stop prot maxprot x (some r.tag) else none := by
    intro h
    rw [hone]
    by_cases hx : r.Contains x
    · have hout : ¬ (a ≤ x ∧ x < stop) := by
        obtain ⟨h1, h2⟩ := hx
        omega
      rw [if_pos hx, if_pos hx, changed_of_not hout]
    · rw [if_neg hx, if_neg hx]
  unfold regionPieces
  by_cases h1 : r.stop ≤ a
  · rw [if_pos h1, hkeep (.inl h1)]
  by_cases h2 : r.start ≥ stop
  · rw [if_neg h1, if_pos h2, hkeep (.inr h2)]
  rw [if_neg h1, if_neg h2, if_pos hop, cover_append, cover_append]
  have hhead : cover (headPiece a r) x = if r.start ≤ x ∧ x < a then some r.tag else none := by
    unfold headPiece
    split
    · rw [cover_cons_bounds, cover_nil]
    · rw [if_neg (by omega)]
      rfl
  have htail : cover (tailPiece stop r) x =
      if stop ≤ x ∧ x < r.stop then some r.tag else none := by
    unfold tailPiece
    split
    · rw [cover_cons_bounds, cover_nil]
    · rw [if_neg (by omega)]
      rfl
  have hmid : cover (if op = .protect then
      [(⟨if r.start > a then r.start else a, if r.stop < stop then r.stop else stop,
        (prot, r.maxprot)⟩ : Region)] else []) x =
      if op = .protect ∧ (r.start ≤ x ∧ x < r.stop) ∧ a ≤ x ∧ x < stop then
        some (prot, r.maxprot) else none := by
    by_cases hp : op = .protect
    · rw [if_pos hp, cover_cons_bounds, cover_nil]
      congr 1
      simp only [hp, true_and, eq_iff_iff]
      split_ifs <;> omega
    · rw [if_neg hp, if_neg (by tauto)]
      rfl
  rw [hhead, htail, hmid]
  by_cases hx : r.Contains x
  · rw [if_pos hx]
    obtain ⟨h3, h4⟩ := hx
    by_cases hin : a ≤ x ∧ x < stop
    · rw [if_neg (by omega), if_neg (c := stop ≤ x ∧ x < r.stop) (by omega)]
      cases op with
      | map => exact absurd rfl hop
      | unmap => simp [changed, hin]
      | protect => simp [changed, h3, h4, hin, Region.maxprot]
    · rw [changed_of_not hin, if_neg (c := _ ∧ _ ∧ _) (by tauto)]
      by_cases hxa : x < a
      · simp [h3, hxa]
      · rw [if_neg (by omega), if_pos ⟨by omega, h4⟩]
        rfl
  · have h3 : ¬ (r.start ≤ x ∧ x < r.stop) := hx
    rw [if_neg hx, if_neg (by omega), if_neg (c := _ ∧ _ ∧ _) (by tauto), if_neg (by omega)]
    rfl

/-- The parts behind the new mapping. -/
theorem pushable_mapRest {l : List Region} (hl : Ordered l) (hstop : ∀ r ∈ l, a < r.stop)
    {b : ℕ} (hb : stop ≤ b) (hbl : ∀ r ∈ l, b ≤ max stop r.start) :
    Pushable b (l.flatMap (regionPieces .map a stop prot)) := by
  induction l generalizing b with
  | nil => trivial
  | cons r l ih =>
      obtain ⟨hr, hnext, htail⟩ := ordered_cons.1 hl
      have hrs := hstop r (by simp)
      have hrb := hbl r (by simp)
      have ih' := fun c hc => ih htail (fun q hq => hstop q (by simp [hq])) (b := c) hc
      rw [List.flatMap_cons, regionPieces, if_neg (by omega)]
      by_cases h2 : r.start ≥ stop
      · rw [if_pos h2]
        refine ⟨by omega, hr.le, ih' _ (by omega) ?_⟩
        intro q hq
        exact le_max_of_le_right (hnext q hq)
      · have hbstop : b = stop := by omega
        rw [if_neg h2, tailPiece]
        by_cases h3 : r.stop > stop
        · rw [if_pos h3]
          refine ⟨by simp [hbstop], by simp; omega, ih' _ (by simp; omega) ?_⟩
          intro q hq
          exact le_max_of_le_right (hnext q hq)
        · rw [if_neg h3]
          apply ih' b hb
          intro q hq
          omega

theorem pushable_mapPieces {l : List Region} (hl : Ordered l) (has : a < stop) {b : ℕ}
    (hb : b ≤ a) (hbl : ∀ r ∈ l, b ≤ r.start) :
    Pushable b (mapPieces a stop prot maxprot l) := by
  induction l generalizing b with
  | nil => exact ⟨hb, has.le, trivial⟩
  | cons r l ih =>
      obtain ⟨hr, hnext, htail⟩ := ordered_cons.1 hl
      have hbr := hbl r (by simp)
      rw [mapPieces]
      by_cases h1 : r.stop ≤ a
      · rw [if_pos h1]
        exact ⟨hbr, hr.le, ih htail h1 hnext⟩
      · rw [if_neg h1]
        have hrest : Pushable a ((⟨a, stop, (prot, maxprot)⟩ : Region) ::
            (r :: l).flatMap (regionPieces .map a stop prot)) := by
          refine ⟨le_rfl, has.le, pushable_mapRest hl ?_ le_rfl fun q _ => le_max_left _ _⟩
          intro q hq
          rcases List.mem_cons.1 hq with rfl | hq
          · omega
          · have := hnext q hq
            have := htail.1 q hq
            omega
        unfold headPiece
        split
        · rename_i h2
          exact ⟨hbr, h2.le, hrest⟩
        · exact hrest.mono hb

theorem cover_mapRest {l : List Region} (hl : Ordered l) (hstop : ∀ r ∈ l, a < r.stop) {x : ℕ}
    (hx : stop ≤ x) : cover (l.flatMap (regionPieces .map a stop prot)) x = cover l x := by
  rw [cover_flatMap (g := some) hl, Option.bind_fun_some]
  intro r hr
  have hrs := hstop r hr
  rw [regionPieces, if_neg (by omega)]
  by_cases h2 : r.start ≥ stop
  · rw [if_pos h2, cover_cons, cover_nil]
  · rw [if_neg h2, tailPiece]
    by_cases h3 : r.stop > stop
    · have hiff : (stop ≤ x ∧ x < r.stop) ↔ r.Contains x := by
        unfold TaggedInterval.Contains
        omega
      simp [h3, cover_cons_bounds, hiff]
    · have : ¬ (r.start ≤ x ∧ x < r.stop) := by omega
      simp [h3, TaggedInterval.Contains, this]

theorem cover_mapPieces {l : List Region} (hl : Ordered l) (has : a < stop) (x : ℕ) :
    cover (mapPieces a stop prot maxprot l) x =
      changed .map a stop prot maxprot x (cover l x) := by
  induction l with
  | nil => rw [mapPieces, cover_cons_bounds]; rfl
  | cons r l ih =>
      obtain ⟨hr, hnext, htail⟩ := ordered_cons.1 hl
      rw [mapPieces]
      by_cases h1 : r.stop ≤ a
      · rw [if_pos h1, cover_cons, ih htail, cover_cons]
        by_cases hx : r.Contains x
        · have hout : ¬ (a ≤ x ∧ x < stop) := by
            have := hx.2
            omega
          rw [if_pos hx, if_pos hx, changed_of_not hout]
        · rw [if_neg hx, if_neg hx]
      · rw [if_neg h1, cover_append, cover_cons_bounds]
        dsimp only
        have hstop : ∀ q ∈ r :: l, a < q.stop := by
          intro q hq
          rcases List.mem_cons.1 hq with rfl | hq
          · omega
          · have := hnext q hq
            have := htail.1 q hq
            omega
        have hhead : cover (headPiece a r) x = if x < a then cover (r :: l) x else none := by
          by_cases hxa : x < a
          · rw [if_pos hxa, headPiece]
            by_cases hrx : r.start ≤ x
            · have hc : r.Contains x := ⟨hrx, by omega⟩
              rw [if_pos (by omega), cover_cons r l, if_pos hc, cover_cons_bounds]
              exact if_pos ⟨hrx, hxa⟩
            · rw [cover_eq_none_of_lt hl (by omega)]
              split
              · rw [cover_cons, if_neg fun hc => hrx hc.1]
                rfl
              · rfl
          · rw [if_neg hxa, headPiece]
            split
            · rw [cover_cons, if_neg fun hc => hxa hc.2]
              rfl
            · rfl
        rw [hhead]
        by_cases hxa : x < a
        · have hrest : cover ((r :: l).flatMap (regionPieces .map a stop prot)) x = none := by
            rw [cover_eq_none_iff]
            intro q hq hc
            have hpush : Pushable stop ((r :: l).flatMap (regionPieces .map a stop prot)) :=
              pushable_mapRest hl hstop le_rfl fun q _ => le_max_left stop q.start
            have := start_le_of_pushable hpush q hq
            have := hc.1
            omega
          rw [if_pos hxa, if_neg (by omega), changed_of_not (by omega), hrest, Option.or_none]
        · rw [if_neg hxa, Option.none_or]
          by_cases hxs : x < stop
          · have hin : a ≤ x ∧ x < stop := ⟨by omega, hxs⟩
            rw [if_pos hin]
            exact (if_pos hin).symm
          · rw [if_neg (by omega), changed_of_not (by omega), cover_mapRest hl hstop (by omega)]

theorem pushable_pieces {l : List Region} (hl : Ordered l) (has : a < stop) :
    Pushable 0 (pieces op a stop prot maxprot l) := by
  unfold pieces
  split
  · exact pushable_mapPieces hl has (by omega) (by simp)
  · exact pushable_flatMap hl (fun r hr => pushable_regionPieces (hl.1 r hr) has) (by simp)

theorem cover_pieces {l : List Region} (hl : Ordered l) (has : a < stop) (x : ℕ) :
    cover (pieces op a stop prot maxprot l) x =
      changed op a stop prot maxprot x (cover l x) := by
  unfold pieces
  by_cases hop : op = .map
  · subst hop
    rw [if_pos rfl, cover_mapPieces hl has]
  · rw [if_neg hop, cover_flatMap (g := fun t => changed op a stop prot maxprot x (some t)) hl x
      fun r _ => cover_regionPieces hop x]
    cases cover l x with
    | some t => rfl
    | none =>
        unfold changed
        cases op <;> simp at hop ⊢

/-- Every end point of a piece is one of the old list or of the range. -/
theorem forall_pieces {P Q : ℕ → Prop} {l : List Region}
    (hl : ∀ r ∈ l, P r.start ∧ Q r.stop) (ha : P a ∧ Q a) (hstop : P stop ∧ Q stop) :
    ∀ q ∈ pieces op a stop prot maxprot l, P q.start ∧ Q q.stop := by
  have hregion : ∀ (op : Operation), ∀ r ∈ l, ∀ q ∈ regionPieces op a stop prot r,
      P q.start ∧ Q q.stop := by
    intro op r hr q hq
    obtain ⟨hrP, hrQ⟩ := hl r hr
    unfold regionPieces headPiece tailPiece at hq
    split_ifs at hq <;> simp at hq <;> aesop
  unfold pieces
  by_cases hop : op = .map
  · rw [if_pos hop]
    clear hop
    induction l with
    | nil => simpa [mapPieces] using ⟨ha.1, hstop.2⟩
    | cons r l ih =>
        rw [mapPieces]
        split
        · intro q hq
          rcases List.mem_cons.1 hq with rfl | hq
          · exact hl q (by simp)
          · exact ih (fun r hr => hl r (by simp [hr]))
              (fun op r hr => hregion op r (by simp [hr])) q hq
        · intro q hq
          rcases List.mem_append.1 hq with hq | hq
          · unfold headPiece at hq
            split at hq
            · simp only [List.mem_singleton] at hq
              subst hq
              exact ⟨(hl r (by simp)).1, ha.2⟩
            · simp at hq
          · rcases List.mem_cons.1 hq with rfl | hq
            · exact ⟨ha.1, hstop.2⟩
            · obtain ⟨r', hr', hq'⟩ := List.mem_flatMap.1 hq
              exact hregion .map r' hr' q hq'
  · rw [if_neg hop]
    intro q hq
    obtain ⟨r, hr, hq'⟩ := List.mem_flatMap.1 hq
    exact hregion op r hr q hq'

variable (op prot maxprot) in
/-- The rebuilt list is the normal form of the changed permissions, unless that
is longer than the table. -/
theorem rebuild_spec {l : List Region} (hl : Ordered l) (has : a < stop) :
    ∃ m : List Region, Normal m ∧
      (∀ x, cover m x = changed op a stop prot maxprot x (cover l x)) ∧
      (∀ {P Q : ℕ → Prop}, (∀ r ∈ l, P r.start ∧ Q r.stop) → P a ∧ Q a → P stop ∧ Q stop →
        ∀ r ∈ m, P r.start ∧ Q r.stop) ∧
      rebuild op a stop prot maxprot l = if m.length ≤ regionLimit then some m else none := by
  have hpush : Pushable 0 (pieces op a stop prot maxprot l) := pushable_pieces hl has
  refine ⟨(pushAll [] (pieces op a stop prot maxprot l)).reverse, ?_, ?_, ?_, ?_⟩
  · exact normal_pushAll (collected_nil 0) hpush
  · intro x
    rw [cover_reverse_pushAll (collected_nil 0) hpush, cover_pieces hl has]
    simp
  · intro P Q h1 h2 h3 r hr
    exact forall_pushAll (by simp) (forall_pieces h1 h2 h3) r (List.mem_reverse.1 hr)
  · rw [rebuild_eq_appendAll, appendAll_eq (by simp), List.length_reverse]
    split <;> rfl

end Pieces

/-! ## Coverage -/

/-- A region meets a range exactly when it covers one of its addresses. -/
theorem exists_overlap_iff {l : List Region} (hl : Ordered l) {a stop : ℕ} (has : a < stop) :
    (∃ r ∈ l, ¬ (r.stop ≤ a ∨ r.start ≥ stop)) ↔
      ∃ x, a ≤ x ∧ x < stop ∧ cover l x ≠ none := by
  constructor
  · rintro ⟨r, hr, hmeet⟩
    have hlt := hl.1 r hr
    have hc : r.Contains (max a r.start) := ⟨le_max_right _ _, by omega⟩
    exact ⟨max a r.start, le_max_left _ _, by omega, by simp [cover_eq_some_of_mem hl hr hc]⟩
  · rintro ⟨x, hax, hxs, hx⟩
    obtain ⟨t, ht⟩ := Option.ne_none_iff_exists'.1 hx
    obtain ⟨r, hr, hc, -⟩ := mem_of_cover_eq_some ht
    have := hc.1
    have := hc.2
    exact ⟨r, hr, by omega⟩

theorem coverLoop_map (replace : Bool) (a stop : ℕ) (l : List Region) (c : ℕ) :
    (coverLoop .map replace a stop l c = .error .overlap ∧ replace = false ∧
        ∃ r ∈ l, ¬ (r.stop ≤ a ∨ r.start ≥ stop)) ∨
      (coverLoop .map replace a stop l c = .ok c ∧
        (replace = false → ∀ r ∈ l, r.stop ≤ a ∨ r.start ≥ stop)) := by
  induction l with
  | nil => exact .inr ⟨rfl, by simp⟩
  | cons r l ih =>
      rw [coverLoop]
      by_cases hout : r.stop ≤ a ∨ r.start ≥ stop
      · rw [if_pos hout]
        rcases ih with ⟨heq, hrep, q, hq, hmeet⟩ | ⟨heq, hno⟩
        · exact .inl ⟨heq, hrep, q, by simp [hq], hmeet⟩
        · refine .inr ⟨heq, ?_⟩
          intro hrep q hq
          rcases List.mem_cons.1 hq with rfl | hq
          · exact hout
          · exact hno hrep q hq
      · rw [if_neg hout]
        cases replace with
        | false => exact .inl ⟨by simp, rfl, r, by simp, hout⟩
        | true =>
            rcases ih with ⟨-, hrep, -⟩ | ⟨heq, -⟩
            · cases hrep
            · exact .inr ⟨by simpa using heq, by simp⟩

theorem coverLoop_unmap (replace : Bool) (a stop : ℕ) (l : List Region) (c : ℕ) :
    coverLoop .unmap replace a stop l c = .ok c := by
  induction l with
  | nil => rfl
  | cons r l ih => simp [coverLoop, ih]

theorem cover_cons_of_le {r : Region} {l : List Region} {x : ℕ} (h : r.stop ≤ x) :
    cover (r :: l) x = cover l x := by
  rw [cover_cons, if_neg fun hc => absurd hc.2 (by omega)]

theorem cover_cons_of_lt {r : Region} {l : List Region} {x : ℕ} (h : x < r.start) :
    cover (r :: l) x = cover l x := by
  rw [cover_cons, if_neg fun hc => absurd hc.1 (by omega)]

/-- The pass of `gm_sparse_protect` gets to the end of the range exactly when the
whole range is covered. -/
theorem coverLoop_protect (replace : Bool) {a : ℕ} (stop : ℕ) {l : List Region} (hl : Ordered l)
    {c : ℕ} (hac : a ≤ c) (hcs : c ≤ stop) (hc : c = a ∨ ∀ r ∈ l, c ≤ r.start) :
    (coverLoop .protect replace a stop l c = .ok stop ∧
        ∀ x, c ≤ x → x < stop → cover l x ≠ none) ∨
      ((coverLoop .protect replace a stop l c = .error .unmapped ∨
          ∃ d ≠ stop, coverLoop .protect replace a stop l c = .ok d) ∧
        ∃ x, c ≤ x ∧ x < stop ∧ cover l x = none) := by
  induction l generalizing c with
  | nil =>
      rw [coverLoop]
      by_cases heq : c = stop
      · exact .inl ⟨by rw [heq], by omega⟩
      · exact .inr ⟨.inr ⟨c, heq, rfl⟩, c, le_rfl, by omega, rfl⟩
  | cons r l ih =>
      obtain ⟨hr, hnext, htail⟩ := ordered_cons.1 hl
      rw [coverLoop]
      by_cases hout : r.stop ≤ a ∨ r.start ≥ stop
      · rw [if_pos hout]
        have hcov : ∀ x, c ≤ x → x < stop → cover (r :: l) x = cover l x := by
          intro x hcx hxs
          rcases hout with h | h
          · exact cover_cons_of_le (by omega)
          · exact cover_cons_of_lt (by omega)
        rcases ih htail hac hcs (hc.imp id fun h q hq => h q (by simp [hq])) with
          ⟨heq, hall⟩ | ⟨heq, x, hcx, hxs, hx⟩
        · refine .inl ⟨heq, ?_⟩
          intro x hcx hxs
          rw [hcov x hcx hxs]
          exact hall x hcx hxs
        · exact .inr ⟨heq, x, hcx, hxs, by rwa [hcov x hcx hxs]⟩
      · rw [if_neg hout, if_neg (by simp), if_pos rfl]
        by_cases hgap : r.start > c
        · rw [if_pos hgap]
          exact .inr ⟨.inl rfl, c, le_rfl, by omega, cover_eq_none_of_lt hl (by omega)⟩
        · rw [if_neg hgap]
          have hcr : c < r.stop := by
            rcases hc with rfl | h
            · omega
            · have := h r (by simp)
              omega
          generalize hd : (if r.stop < stop then r.stop else stop) = d
          have hd' : d = min r.stop stop := by
            rw [← hd]
            split <;> omega
          have hfirst : ∀ x, c ≤ x → x < d → cover (r :: l) x ≠ none := by
            intro x hcx hxd
            rw [cover_cons, if_pos ⟨by omega, by omega⟩]
            simp
          have hlater : ∀ x, d ≤ x → x < stop → cover (r :: l) x = cover l x := by
            intro x hdx hxs
            exact cover_cons_of_le (by omega)
          rcases ih htail (c := d) (by omega) (by omega)
            (.inr fun q hq => by have := hnext q hq; omega) with
            ⟨heq, hall⟩ | ⟨heq, x, hdx, hxs, hx⟩
          · refine .inl ⟨heq, ?_⟩
            intro x hcx hxs
            by_cases hxd : x < d
            · exact hfirst x hcx hxd
            · rw [hlater x (by omega) hxs]
              exact hall x (by omega) hxs
          · exact .inr ⟨heq, x, by omega, hxs, by rwa [hlater x hdx hxs]⟩

/-! ## Access checks -/

/-- A region's permissions lack the one asked for. -/
def deniedRegion (permission : Prot) (t : Prot × Prot) : Bool :=
  t.1 &&& permission != permission

/-- Every address of `[c, x)` may be accessed. -/
def Allowed (l : List Region) (permission : Prot) (c x : ℕ) : Prop :=
  ∀ y, c ≤ y → y < x → ∃ t, cover l y = some t ∧ deniedRegion permission t = false

/-- The pass of `check_access` finds the first address that stops the access. -/
theorem checkLoop_cases (permission : Prot) (stop : ℕ) {l : List Region} (hl : Ordered l)
    {c : ℕ} (hcs : c ≤ stop) :
    (checkLoop permission stop l c = .ok ∧ Allowed l permission c stop) ∨
      (checkLoop permission stop l c = .unmapped ∧
        ∃ x, c ≤ x ∧ x < stop ∧ Allowed l permission c x ∧ cover l x = none) ∨
      (checkLoop permission stop l c = .protection ∧
        ∃ x t, c ≤ x ∧ x < stop ∧ Allowed l permission c x ∧ cover l x = some t ∧
          deniedRegion permission t = true) := by
  have hself : ∀ {l : List Region} {c : ℕ}, Allowed l permission c c := by
    intro l c y h1 h2
    omega
  induction l generalizing c with
  | nil =>
      rw [checkLoop]
      by_cases heq : c = stop
      · rw [if_pos heq, heq]
        exact .inl ⟨rfl, hself⟩
      · rw [if_neg heq]
        exact .inr (.inl ⟨rfl, c, le_rfl, by omega, hself, rfl⟩)
  | cons r l ih =>
      obtain ⟨hr, hnext, htail⟩ := ordered_cons.1 hl
      rw [checkLoop]
      by_cases hlt : c < stop
      swap
      · obtain rfl : c = stop := by omega
        rw [if_neg hlt, if_pos rfl]
        exact .inl ⟨rfl, hself⟩
      rw [if_pos hlt]
      by_cases h1 : r.stop ≤ c
      · rw [if_pos h1]
        have hcov : ∀ x, c ≤ x → cover (r :: l) x = cover l x := fun x hx =>
          cover_cons_of_le (by omega)
        have hblock : ∀ {x}, Allowed l permission c x → Allowed (r :: l) permission c x := by
          intro x hb y hy hyx
          rw [hcov y hy]
          exact hb y hy hyx
        rcases ih htail hcs with ⟨heq, hb⟩ | ⟨heq, x, hcx, hxs, hb, hx⟩ |
          ⟨heq, x, t, hcx, hxs, hb, hx, ht⟩
        · exact .inl ⟨heq, hblock hb⟩
        · exact .inr (.inl ⟨heq, x, hcx, hxs, hblock hb, by rwa [hcov x hcx]⟩)
        · exact .inr (.inr ⟨heq, x, t, hcx, hxs, hblock hb, by rwa [hcov x hcx], ht⟩)
      · rw [if_neg h1]
        by_cases h2 : r.start > c
        · rw [if_pos h2]
          exact .inr (.inl ⟨rfl, c, le_rfl, hlt, hself, cover_eq_none_of_lt hl h2⟩)
        · rw [if_neg h2]
          have hhere : ∀ x, c ≤ x → x < r.stop → cover (r :: l) x = some r.tag := by
            intro x hcx hxr
            rw [cover_cons, if_pos ⟨by omega, hxr⟩]
          by_cases h3 : r.prot &&& permission ≠ permission
          · rw [if_pos h3]
            refine .inr (.inr ⟨rfl, c, r.tag, le_rfl, hlt, hself, hhere c le_rfl (by omega), ?_⟩)
            simpa [deniedRegion, Region.prot] using h3
          · rw [if_neg h3]
            have hok : deniedRegion permission r.tag = false := by
              simpa [deniedRegion, Region.prot] using h3
            generalize hd : (if r.stop < stop then r.stop else stop) = d
            have hd' : d = min r.stop stop := by
              rw [← hd]
              split <;> omega
            have hlater : ∀ x, d ≤ x → x < stop → cover (r :: l) x = cover l x := by
              intro x hdx hxs
              exact cover_cons_of_le (by omega)
            have hblock : ∀ {x}, x ≤ stop → Allowed l permission d x →
                Allowed (r :: l) permission c x := by
              intro x hxs hb y hy hyx
              by_cases hyd : y < d
              · exact ⟨r.tag, hhere y hy (by omega), hok⟩
              · rw [hlater y (by omega) (by omega)]
                exact hb y (by omega) hyx
            rcases ih htail (c := d) (by omega) with ⟨heq, hb⟩ | ⟨heq, x, hcx, hxs, hb, hx⟩ |
              ⟨heq, x, t, hcx, hxs, hb, hx, ht⟩
            · exact .inl ⟨heq, hblock le_rfl hb⟩
            · exact .inr (.inl ⟨heq, x, by omega, hxs, hblock hxs.le hb,
                by rwa [hlater x hcx hxs]⟩)
            · exact .inr (.inr ⟨heq, x, t, by omega, hxs, hblock hxs.le hb,
                by rwa [hlater x hcx hxs], ht⟩)

end Space

end Tolkara
