import Mathlib.Tactic

/-!
# The parts of a text between separators

A part of a text is a longest stretch without a separator. When a text grows at its end, by
a separator or by a part after a separator, its parts are the old ones and the new one.
-/

namespace Tolkara

namespace Library

variable {α : Type} {sep : α}

/-- Where a part can begin. -/
def Open (sep : α) (l : List α) : Prop := l = [] ∨ l.getLast? = some sep

structure Component (sep : α) (text before part after : List α) : Prop where
  text_eq : text = before ++ part ++ after
  nonempty : part ≠ []
  sep_not_mem : sep ∉ part
  opened : Open sep before
  closed : after = [] ∨ after.head? = some sep

theorem Open.nil (sep : α) : Open sep [] := Or.inl rfl

theorem Open.concat (sep : α) (l : List α) : Open sep (l ++ [sep]) :=
  Or.inr (List.getLast?_concat)

/-- Nothing without a separator can be before the beginning of a part. -/
theorem Open.eq_nil {l m : List α} (h : Open sep (l ++ m)) (hm : sep ∉ m) : m = [] := by
  rcases List.eq_nil_or_concat m with rfl | ⟨m, x, rfl⟩
  · rfl
  · rcases h with hnil | hlast
    · simp at hnil
    · rw [List.concat_eq_append, ← List.append_assoc, List.getLast?_concat] at hlast
      cases hlast
      exact absurd (by simp) hm

theorem Component.of_concat {l before part after : List α}
    (h : Component sep (l ++ [sep]) before part after) :
    ∃ after', after = after' ++ [sep] ∧ Component sep l before part after' := by
  rcases List.eq_nil_or_concat after with rfl | ⟨after', x, rfl⟩
  · -- The last symbol of the part would be the separator.
    have hopen : Open sep (before ++ part) := by
      have htext := h.text_eq
      rw [List.append_nil] at htext
      exact htext ▸ Open.concat sep l
    exact absurd (hopen.eq_nil h.sep_not_mem) h.nonempty
  · have htext := h.text_eq
    rw [List.concat_eq_append, ← List.append_assoc] at htext
    obtain ⟨hl, hx⟩ := List.append_inj' htext rfl
    cases hx
    refine ⟨after', List.concat_eq_append, hl, h.nonempty, h.sep_not_mem, h.opened, ?_⟩
    cases after' with
    | nil => exact Or.inl rfl
    | cons y after' =>
        refine Or.inr ?_
        have hhead := h.closed.resolve_left (by simp)
        rwa [List.concat_eq_append, List.cons_append, List.head?_cons] at hhead

theorem Component.of_append {l new before part after : List α}
    (h : Component sep (l ++ new) before part after) (hl : Open sep l) (hnew : sep ∉ new)
    (hne : new ≠ []) :
    (before = l ∧ part = new ∧ after = []) ∨
      ∃ after', after = after' ++ new ∧ Component sep l before part after' := by
  rcases List.append_eq_append_iff.1 h.text_eq with ⟨a, hpart, hrest⟩ | ⟨b, hpart, hrest⟩
  · -- What follows the part lies in `new`, so nothing follows it.
    have hafter : after = [] := by
      refine h.closed.resolve_right fun hhead => hnew ?_
      rw [hrest]
      exact List.mem_append_right a (List.mem_of_mem_head? (Option.mem_def.2 hhead))
    rw [hafter, List.append_nil] at hrest
    subst hrest
    rcases List.append_eq_append_iff.1 hpart with ⟨b, hbefore, hb⟩ | ⟨b, hbefore, hb⟩
    · have hnil : b = [] := by
        rw [hbefore] at hl
        exact hl.eq_nil fun hmem => h.sep_not_mem (hb ▸ List.mem_append_left _ hmem)
      rw [hnil, List.append_nil] at hbefore
      rw [hnil, List.nil_append] at hb
      exact Or.inl ⟨hbefore.symm, hb, hafter⟩
    · have hnil : b = [] := by
        have hopened := h.opened
        rw [hbefore] at hopened
        exact hopened.eq_nil fun hmem => hnew (hb ▸ List.mem_append_left _ hmem)
      rw [hnil, List.append_nil] at hbefore
      rw [hnil, List.nil_append] at hb
      exact Or.inl ⟨hbefore, hb.symm, hafter⟩
  · refine Or.inr ⟨b, hrest, hpart, h.nonempty, h.sep_not_mem, h.opened, ?_⟩
    cases b with
    | nil =>
        -- The part would be followed by `new`, which has no separator.
        rw [List.nil_append] at hrest
        refine absurd ?_ hnew
        rcases h.closed with hnil | hhead
        · exact absurd (hrest ▸ hnil) hne
        · rw [← hrest]
          exact List.mem_of_mem_head? (Option.mem_def.2 hhead)
    | cons x b =>
        refine Or.inr ?_
        have hhead := h.closed.resolve_left (by rw [hrest]; simp)
        rwa [hrest, List.cons_append, List.head?_cons] at hhead

theorem Component.concat {l before part after : List α} (h : Component sep l before part after) :
    Component sep (l ++ [sep]) before part (after ++ [sep]) := by
  refine ⟨?_, h.nonempty, h.sep_not_mem, h.opened, Or.inr ?_⟩
  · rw [h.text_eq, List.append_assoc]
  · rcases h.closed with rfl | hhead
    · rfl
    · rw [List.head?_append, hhead]
      rfl

theorem Component.append {l before part after : List α} (h : Component sep l before part after)
    (hl : Open sep l) (new : List α) : Component sep (l ++ new) before part (after ++ new) := by
  refine ⟨?_, h.nonempty, h.sep_not_mem, h.opened, Or.inr ?_⟩
  · rw [h.text_eq, List.append_assoc]
  · rcases h.closed with rfl | hhead
    · have htext := h.text_eq
      rw [List.append_nil] at htext
      exact absurd ((htext ▸ hl).eq_nil h.sep_not_mem) h.nonempty
    · rw [List.head?_append, hhead]
      rfl

theorem component_last {l part : List α} (hl : Open sep l) (hne : part ≠ []) (hsep : sep ∉ part) :
    Component sep (l ++ part) l part [] :=
  ⟨(List.append_nil _).symm, hne, hsep, hl, Or.inl rfl⟩

end Library

end Tolkara
