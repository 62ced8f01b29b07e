import Tolkara.Library.FirstAnswer

/-!
# The preferred of what several sources give

Sources are asked in order, and what they give is strong or weak. The first that is strong is
preferred, else the first of all, else a fallback. `prefer` finds it in one pass that keeps the
first weak one and ends at the first strong one.
-/

namespace Tolkara

namespace Library

variable {ν α : Type*}

inductive Preferred (gives : ν → α → Prop) (weak : α → Bool) (fallback : Option α) :
    List ν → Option α → Prop
  | strong {before after : List ν} {k : ν} {a : α} : gives k a → weak a = false →
      (∀ p ∈ before, ∀ b, gives p b → weak b = true) →
      Preferred gives weak fallback (before ++ k :: after) (some a)
  | weak {before after : List ν} {k : ν} {a : α} : gives k a →
      (∀ p ∈ before, ∀ b, ¬ gives p b) →
      (∀ p ∈ before ++ k :: after, ∀ b, gives p b → weak b = true) →
      Preferred gives weak fallback (before ++ k :: after) (some a)
  | fallback {order : List ν} : (∀ p ∈ order, ∀ b, ¬ gives p b) →
      Preferred gives weak fallback order fallback

/-- The sources that the pass comes to: none before them gives a strong one. -/
def Asked (gives : ν → α → Prop) (weak : α → Bool) (order : List ν) (k : ν) : Prop :=
  ∃ before after, order = before ++ k :: after ∧ ∀ p ∈ before, ∀ b, gives p b → weak b = true

/-- The pass, with the first weak one so far. -/
def prefer (own : ν → Option α) (weak : α → Bool) : List ν → Option α → Option α
  | [], found => found
  | k :: rest, found =>
    match own k with
    | none => prefer own weak rest found
    | some a => if weak a = false then some a else prefer own weak rest (found.or (some a))

variable {gives : ν → α → Prop} {own : ν → Option α} {weak : α → Bool} {fallback : Option α}
  {order : List ν}

/-- What is kept of the sources asked: they give nothing strong, and the first of what they
give has been found. -/
structure Kept (gives : ν → α → Prop) (weak : α → Bool) (asked : List ν) (found : Option α) :
    Prop where
  allWeak : ∀ p ∈ asked, ∀ b, gives p b → weak b = true
  nothing : found = none → ∀ p ∈ asked, ∀ b, ¬ gives p b
  first : ∀ a, found = some a → ∃ before k after, asked = before ++ k :: after ∧ gives k a ∧
    ∀ p ∈ before, ∀ b, ¬ gives p b

theorem Kept.skip {asked : List ν} {found : Option α} (h : Kept gives weak asked found) {k : ν}
    (hk : ∀ b, ¬ gives k b) : Kept gives weak (asked ++ [k]) found where
  allWeak := by
    refine List.forall_mem_append.2 ⟨h.allWeak, ?_⟩
    exact List.forall_mem_singleton.2 fun b hb => absurd hb (hk b)
  nothing hnone := List.forall_mem_append.2 ⟨h.nothing hnone, List.forall_mem_singleton.2 hk⟩
  first a ha := by
    obtain ⟨before, k', after, rfl, hgives, hbefore⟩ := h.first a ha
    exact ⟨before, k', after ++ [k], by simp, hgives, hbefore⟩

theorem Kept.keep {asked : List ν} {found : Option α} (h : Kept gives weak asked found) {k : ν}
    {a : α} (ha : gives k a) (hk : ∀ b, gives k b → weak b = true) :
    Kept gives weak (asked ++ [k]) (found.or (some a)) where
  allWeak := List.forall_mem_append.2 ⟨h.allWeak, List.forall_mem_singleton.2 hk⟩
  nothing hnone := by
    cases found <;> cases hnone
  first b hb := by
    cases hfound : found with
    | none =>
        rw [hfound] at hb
        cases hb
        exact ⟨asked, k, [], rfl, ha, h.nothing hfound⟩
    | some c =>
        rw [hfound] at hb
        cases hb
        obtain ⟨before, k', after, rfl, hgives, hbefore⟩ := h.first _ hfound
        exact ⟨before, k', after ++ [k], by simp, hgives, hbefore⟩

theorem prefer_of_kept (hown : ∀ k, Asked gives weak order k → ∀ a, own k = some a ↔ gives k a)
    (rest asked : List ν) (horder : order = asked ++ rest) {found : Option α}
    (h : Kept gives weak asked found) :
    Preferred gives weak fallback order ((prefer own weak rest found).or fallback) := by
  induction rest generalizing asked found with
  | nil =>
      rw [List.append_nil] at horder
      subst horder
      cases hfound : found with
      | none => exact .fallback (h.nothing hfound)
      | some a =>
          obtain ⟨before, k, after, rfl, hgives, hbefore⟩ := h.first a hfound
          exact .weak hgives hbefore h.allWeak
  | cons k rest ih =>
      have hk := hown k ⟨asked, rest, horder, h.allWeak⟩
      have hnext : order = (asked ++ [k]) ++ rest := by rw [horder, List.append_assoc]; rfl
      cases hanswer : own k with
      | none =>
          have hnone : ∀ b, ¬ gives k b := fun b hb => by
            have hsome := (hk b).2 hb
            rw [hanswer] at hsome
            cases hsome
          have hstep : prefer own weak (k :: rest) found = prefer own weak rest found := by
            rw [prefer, hanswer]
          rw [hstep]
          exact ih _ hnext (h.skip hnone)
      | some a =>
          have ha := (hk a).1 hanswer
          have hone : ∀ b, gives k b → b = a := fun b hb =>
            Option.some.inj (((hk b).2 hb).symm.trans hanswer)
          cases hweak : weak a with
          | false =>
              have hstep : prefer own weak (k :: rest) found = some a := by
                rw [prefer, hanswer]
                exact if_pos hweak
              rw [hstep, horder, Option.some_or]
              exact .strong ha hweak h.allWeak
          | true =>
              have hstep : prefer own weak (k :: rest) found =
                  prefer own weak rest (found.or (some a)) := by
                rw [prefer, hanswer]
                exact if_neg (by rw [hweak]; decide)
              rw [hstep]
              exact ih _ hnext (h.keep ha fun b hb => hone b hb ▸ hweak)

/-- **The pass** finds what is preferred, if each source it comes to is asked right. -/
theorem prefer_preferred (hown : ∀ k, Asked gives weak order k → ∀ a, own k = some a ↔ gives k a) :
    Preferred gives weak fallback order ((prefer own weak order none).or fallback) :=
  prefer_of_kept hown order [] rfl
    ⟨fun _ hp => absurd hp List.not_mem_nil, fun _ _ hp => absurd hp List.not_mem_nil,
      fun _ h => (by cases h)⟩

/-- What the pass finds is what one of the sources gave. -/
theorem mem_of_prefer {order : List ν} {found : Option α} {a : α}
    (h : prefer own weak order found = some a) :
    found = some a ∨ ∃ k ∈ order, own k = some a := by
  induction order generalizing found with
  | nil => exact .inl h
  | cons k rest ih =>
      have hlater : ∀ {found : Option α}, prefer own weak rest found = some a →
          found = some a ∨ ∃ k' ∈ k :: rest, own k' = some a := by
        intro found h
        rcases ih h with hfound | ⟨k', hk', ha⟩
        · exact .inl hfound
        · exact .inr ⟨k', List.mem_cons_of_mem k hk', ha⟩
      rw [prefer] at h
      cases hown : own k with
      | none =>
          rw [hown] at h
          exact hlater h
      | some b =>
          rw [hown] at h
          dsimp only at h
          split_ifs at h with hweak
          · cases h
            exact .inr ⟨k, List.mem_cons_self, hown⟩
          · rcases hlater h with hfound | hmem
            · cases found with
              | none =>
                  cases hfound
                  exact .inr ⟨k, List.mem_cons_self, hown⟩
              | some c => exact .inl hfound
            · exact .inr hmem

/-- Where each source gives one thing at most, only one is preferred. -/
theorem Preferred.unique (hgives : ∀ k a b, gives k a → gives k b → a = b) {r r' : Option α}
    (h : Preferred gives weak fallback order r) (h' : Preferred gives weak fallback order r') :
    r = r' := by
  have hstrong : ∀ {before after : List ν} {k : ν} {a : α}, gives k a → weak a = false →
      (∀ p ∈ before, ∀ b, gives p b → weak b = true) → ∀ {r : Option α},
        Preferred gives weak fallback (before ++ k :: after) r → r = some a := by
    intro before after k a ha hweak hbefore r h
    generalize horder : before ++ k :: after = order at h
    have hmem : k ∈ order := horder ▸ List.mem_append_right _ List.mem_cons_self
    have hnot : ∀ {before : List ν}, (∀ p ∈ before, ∀ b, gives p b → weak b = true) →
        ∀ p ∈ before, ¬ ∃ b, gives p b ∧ weak b = false := by
      rintro before hbefore p hp ⟨b, hb, hfalse⟩
      rw [hbefore p hp b hb] at hfalse
      cases hfalse
    cases h with
    | @strong before' after' k' a' ha' hweak' hbefore' =>
        have hk := AnswerGraph.first_unique (P := fun p => ∃ b, gives p b ∧ weak b = false) horder
          (hnot hbefore) ⟨a, ha, hweak⟩ (hnot hbefore') ⟨a', ha', hweak'⟩
        rw [hgives k' a' a ha' (hk ▸ ha)]
    | weak _ _ hall =>
        have htrue := hall k hmem a ha
        rw [hweak] at htrue
        cases htrue
    | fallback hnone => exact absurd ha (hnone k hmem a)
  cases h with
  | strong ha hweak hbefore => exact (hstrong ha hweak hbefore h').symm
  | @weak before after k a ha hbefore hall =>
      generalize horder : before ++ k :: after = order at h' hall
      have hmem : k ∈ order := horder ▸ List.mem_append_right _ List.mem_cons_self
      cases h' with
      | @strong before' after' k' a' ha' hweak' hbefore' =>
          have htrue := hall k' (List.mem_append_right _ List.mem_cons_self) a' ha'
          rw [hweak'] at htrue
          cases htrue
      | @weak before' after' k' a' ha' hbefore' _ =>
          have hk := AnswerGraph.first_unique (P := fun p => ∃ b, gives p b) horder
            (fun p hp => not_exists.2 (hbefore p hp)) ⟨a, ha⟩
            (fun p hp => not_exists.2 (hbefore' p hp)) ⟨a', ha'⟩
          rw [hgives k' a' a ha' (hk ▸ ha)]
      | fallback hnone => exact absurd ha (hnone k hmem a)
  | fallback hnone =>
      cases h' with
      | strong ha' _ _ => exact absurd ha' (hnone _ (List.mem_append_right _ List.mem_cons_self) _)
      | weak ha' _ _ => exact absurd ha' (hnone _ (List.mem_append_right _ List.mem_cons_self) _)
      | fallback _ => rfl

end Library

end Tolkara
