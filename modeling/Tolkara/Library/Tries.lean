import Mathlib.Data.Finset.Card
import Mathlib.Tactic

/-!
# Prefix tries in an array

A trie whose nodes lie in an array, in any order. `reads place terminal edges own` is
for the format to say: at `place` there is a node with this terminal and these edges,
and it takes the indices `own`. `Encoded` says which map such a node stands for. An
edge without a label is allowed where it comes first and its child stands for the
node; how many of these a path has is bounded.

`Encoded.walk` is the rule for a walk that takes the first edge that fits, and
`Encoded.length_le` bounds the keys by the array.
-/

namespace Tolkara

namespace Library

variable {α β ε : Type*}

/-- An edge to the node at `target`. -/
structure Edge (α : Type*) where
  label : List α
  target : ℕ

/-- The labels begin differently. -/
def Branching (edges : List (Edge α)) : Prop :=
  edges.Pairwise fun e e' => e.label.head? ≠ e'.label.head?

variable (reads : ℕ → Option ε → List (Edge α) → Finset ℕ → Prop)

/-- The node at a place stands for the map `m`; a path down from it has at most `empties` edges
without a label, and the nodes below it lie in `room`, none of them where the node itself is. -/
inductive Encoded : ℕ → ℕ → Finset ℕ → (List α → Option ε) → Prop
  | node {place empties : ℕ} {terminal : Option ε} {edges : List (Edge α)} {own room : Finset ℕ}
      {m : List α → Option ε} (meaning : Edge α → List α → Option ε) (rooms : Edge α → Finset ℕ)
      (hreads : reads place terminal edges own)
      (hbranching : Branching edges)
      (hlabels : ∀ e ∈ edges, e.label ≠ [])
      (hnext : ∀ e ∈ edges, Encoded e.target empties (rooms e) (meaning e))
      (hown : own ⊆ room)
      (hrooms : ∀ e ∈ edges, rooms e ⊆ room ∧ Disjoint own (rooms e))
      (hhere : m [] = terminal)
      (hedges : ∀ e ∈ edges, ∀ s, m (e.label ++ s) = meaning e s)
      (hcovers : ∀ s x, m s = some x → s = [] ∨ ∃ e ∈ edges, e.label <+: s) :
      Encoded place empties room m
  | pass {place child empties : ℕ} {edges : List (Edge α)} {own room childRoom : Finset ℕ}
      {m : List α → Option ε}
      (hreads : reads place none (⟨[], child⟩ :: edges) own)
      (hbranching : Branching (⟨[], child⟩ :: edges))
      (hchild : Encoded child empties childRoom m)
      (hown : own ⊆ room)
      (hrooms : childRoom ⊆ room ∧ Disjoint own childRoom) :
      Encoded place (empties + 1) room m

/-- A walk that answers at the end of the key, and before it follows the first edge that fits. -/
structure Walks (W : ℕ → ℕ → List α → β) (answer : Option ε → β) (P : ε → Prop) : Prop where
  here : ∀ {fuel place x edges own}, reads place (some x) edges own → P x →
    W (fuel + 1) place [] = answer (some x)
  stuck : ∀ {fuel place terminal edges own s}, reads place terminal edges own →
    (s = [] → terminal = none) → Branching edges → (∀ e ∈ edges, ¬ e.label <+: s) →
    W (fuel + 1) place s = answer none
  follow : ∀ {fuel place terminal own s} (before : List (Edge α)) (e : Edge α)
    (after : List (Edge α)), reads place terminal (before ++ e :: after) own →
    (e.label ++ s = [] → terminal = none) → Branching (before ++ e :: after) → (∀ e' ∈ before, ¬ e'.label <+: e.label ++ s) →
    W (fuel + 1) place (e.label ++ s) = W fuel e.target s

variable {reads}

theorem head?_eq_of_leads {l s : List α} (hl : l ≠ []) (h : l <+: s) : l.head? = s.head? := by
  obtain ⟨t, rfl⟩ := h
  rw [List.head?_append_of_ne_nil _ hl]

/-- Two edges with labels do not fit the same key. -/
theorem Branching.unique {e e' : Edge α} {s : List α} (hne : e.label.head? ≠ e'.label.head?)
    (hl : e.label ≠ []) (hl' : e'.label ≠ []) (h : e.label <+: s) : ¬ e'.label <+: s := by
  intro h'
  exact hne ((head?_eq_of_leads hl h).trans (head?_eq_of_leads hl' h').symm)

theorem Encoded.exists_reads {place empties : ℕ} {room : Finset ℕ} {m : List α → Option ε}
    (h : Encoded reads place empties room m) :
    ∃ terminal edges own, reads place terminal edges own := by
  cases h with
  | node meaning rooms hreads => exact ⟨_, _, _, hreads⟩
  | pass hreads => exact ⟨_, _, _, hreads⟩

theorem Encoded.walk {W : ℕ → ℕ → List α → β} {answer : Option ε → β} {P : ε → Prop}
    (hW : Walks reads W answer P) {place empties : ℕ} {room : Finset ℕ} {m : List α → Option ε}
    (h : Encoded reads place empties room m) (hP : ∀ s x, m s = some x → P x) {fuel : ℕ}
    {s : List α} (hfuel : s.length + empties < fuel) : W fuel place s = answer (m s) := by
  induction h generalizing fuel s with
  | @node place empties terminal edges own room m meaning rooms hreads hbranching hlabels hnext
      hown hrooms hhere hedges hcovers ih =>
      obtain ⟨fuel, rfl⟩ : ∃ n, fuel = n + 1 := ⟨fuel - 1, by omega⟩
      by_cases hfits : ∃ e ∈ edges, e.label <+: s
      · obtain ⟨e, he, t, rfl⟩ := hfits
        have hlabel := hlabels e he
        obtain ⟨before, after, rfl⟩ := List.append_of_mem he
        have hfirst : ∀ e' ∈ before, ¬ e'.label <+: e.label ++ t := by
          intro e' he'
          have hne := (List.pairwise_append.1 hbranching).2.2 e' he' e List.mem_cons_self
          exact Branching.unique hne.symm hlabel (hlabels e' (List.mem_append_left _ he'))
            (List.prefix_append _ _)
        have hlen : 0 < e.label.length := List.length_pos_of_ne_nil hlabel
        rw [List.length_append] at hfuel
        rw [hW.follow before e after hreads
          (fun h0 => absurd (List.append_eq_nil_iff.1 h0).1 hlabel) hbranching hfirst,
          hedges e he]
        apply ih e he
        · intro s x hx
          exact hP (e.label ++ s) x ((hedges e he s).trans hx)
        · omega
      · cases hs : m s with
        | none =>
            apply hW.stuck hreads ?_ hbranching fun e he hfit => hfits ⟨e, he, hfit⟩
            rintro rfl
            rw [← hhere, hs]
        | some x =>
            rcases hcovers s x hs with rfl | hfits'
            · rw [hhere] at hs
              exact hW.here (hs ▸ hreads) (hP [] x (hhere.trans hs))
            · exact absurd hfits' hfits
  | @pass place child empties edges own room childRoom m hreads hbranching hchild hown hrooms ih =>
      obtain ⟨fuel, rfl⟩ : ∃ n, fuel = n + 1 := ⟨fuel - 1, by omega⟩
      have hfollow : W (fuel + 1) place s = W fuel child s :=
        hW.follow [] ⟨[], child⟩ edges hreads (fun _ => rfl) hbranching
          fun e' he' => absurd he' List.not_mem_nil
      rw [hfollow]
      exact ih hP (by omega)

/-- A key is not longer than the nodes on its path. -/
theorem Encoded.length_le {U : Finset ℕ}
    (hfits : ∀ {place terminal edges own}, reads place terminal edges own →
      own ⊆ U ∧ ∀ e ∈ edges, e.label.length ≤ own.card)
    {place empties : ℕ} {room : Finset ℕ} {m : List α → Option ε}
    (h : Encoded reads place empties room m) {s : List α} {x : ε} (hs : m s = some x) :
    ∃ used ⊆ room, used ⊆ U ∧ s.length ≤ used.card := by
  induction h generalizing s with
  | @node place empties terminal edges own room m meaning rooms hreads hbranching hlabels hnext
      hown hrooms hhere hedges hcovers ih =>
      obtain ⟨hin, hlen⟩ := hfits hreads
      rcases hcovers s x hs with rfl | ⟨e, he, t, rfl⟩
      · exact ⟨own, hown, hin, Nat.zero_le _⟩
      · rw [hedges e he] at hs
        obtain ⟨used, hused, hin', hle⟩ := ih e he hs
        obtain ⟨hsub, hapart⟩ := hrooms e he
        refine ⟨own ∪ used, Finset.union_subset hown (hused.trans hsub),
          Finset.union_subset hin hin', ?_⟩
        rw [Finset.card_union_of_disjoint (hapart.mono_right hused), List.length_append]
        exact Nat.add_le_add (hlen e he) hle
  | @pass place child empties edges own room childRoom m hreads hbranching hchild hown hrooms ih =>
      obtain ⟨used, hused, hin, hle⟩ := ih hs
      exact ⟨used, hused.trans hrooms.1, hin, hle⟩

end Library

end Tolkara
