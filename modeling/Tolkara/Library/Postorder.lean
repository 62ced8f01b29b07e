import Mathlib.Logic.Relation
import Mathlib.Tactic

/-!
# Visiting a graph, successors first

`visit` lists a node after the successors that it visits, and marks each node as it comes to
it, which cuts cycles. The nodes on the way to the current one are those marked and not
listed yet, and all of them lead to it; so a successor that is not listed before a node
leads back to that node.
-/

namespace Tolkara

namespace Library

variable {ν : Type} [DecidableEq ν]

/-- Visits a node: the nodes marked and the nodes listed, before and afterwards. -/
def visit (next : ν → List ν) : ℕ → ν → List ν × List ν → List ν × List ν
  | 0, _, s => s
  | depth + 1, v, s =>
    if v ∈ s.1 then s
    else
      let t := (next v).foldl (fun s w => visit next depth w s) (v :: s.1, s.2)
      (t.1, t.2 ++ [v])

def visitAll (next : ν → List ν) (depth : ℕ) (nodes : List ν) (s : List ν × List ν) :
    List ν × List ν :=
  nodes.foldl (fun s v => visit next depth v s) s

variable {next : ν → List ν}

theorem visit_succ (depth : ℕ) (v : ν) (s : List ν × List ν) :
    visit next (depth + 1) v s =
      if v ∈ s.1 then s
      else ((visitAll next depth (next v) (v :: s.1, s.2)).1,
        (visitAll next depth (next v) (v :: s.1, s.2)).2 ++ [v]) := rfl

theorem visitAll_cons (depth : ℕ) (v : ν) (nodes : List ν) (s : List ν × List ν) :
    visitAll next depth (v :: nodes) s = visitAll next depth nodes (visit next depth v s) := rfl

theorem visitAll_append (depth : ℕ) (nodes nodes' : List ν) (s : List ν × List ν) :
    visitAll next depth (nodes ++ nodes') s =
      visitAll next depth nodes' (visitAll next depth nodes s) := List.foldl_append

variable (next) in
def LeadsTo : ν → ν → Prop := Relation.ReflTransGen fun a b => b ∈ next a

/-- Where a visit stands: `way` are the nodes on the way to the current one. -/
structure Visited (next : ν → List ν) (all : Finset ν) (way : List ν) (s : List ν × List ν) :
    Prop where
  marked_iff : ∀ v, v ∈ s.1 ↔ v ∈ s.2 ∨ v ∈ way
  nodup : s.2.Nodup
  apart : ∀ v ∈ s.2, v ∉ way
  mem_all : ∀ v ∈ s.1, v ∈ all
  after : ∀ v ∈ s.2, ∀ w ∈ next v, [w, v].Sublist s.2 ∨ LeadsTo next w v

/-- The nodes of a finite set that are not marked yet. -/
def unvisited (all : Finset ν) (s : List ν × List ν) : ℕ := (all \ s.1.toFinset).card

theorem unvisited_mark {all : Finset ν} {s : List ν × List ν} {v : ν} (hv : v ∈ all)
    (hnew : v ∉ s.1) (order : List ν) : unvisited all (v :: s.1, order) < unvisited all s := by
  refine Finset.card_lt_card ((Finset.ssubset_iff_of_subset ?_).2 ⟨v, ?_, ?_⟩)
  · refine Finset.sdiff_subset_sdiff subset_rfl fun w hw => ?_
    rw [List.mem_toFinset] at hw ⊢
    exact List.mem_cons_of_mem v hw
  · rw [Finset.mem_sdiff, List.mem_toFinset]
    exact ⟨hv, hnew⟩
  · rw [Finset.mem_sdiff, List.mem_toFinset]
    exact fun h => h.2 List.mem_cons_self

theorem unvisited_mono {all : Finset ν} {s t : List ν × List ν} (h : ∀ v ∈ s.1, v ∈ t.1) :
    unvisited all t ≤ unvisited all s := by
  refine Finset.card_le_card (Finset.sdiff_subset_sdiff subset_rfl fun w hw => ?_)
  rw [List.mem_toFinset] at hw ⊢
  exact h w hw

/-- What a visit leaves: nothing marked is lost, and it stands where it stood. -/
structure Leaves (next : ν → List ν) (all : Finset ν) (way nodes : List ν)
    (s t : List ν × List ν) : Prop where
  visited : Visited next all way t
  marked : ∀ v ∈ s.1, v ∈ t.1
  nodes : ∀ v ∈ nodes, v ∈ t.1

theorem visitAll_leaves {all : Finset ν} {way : List ν} {depth : ℕ} {nodes : List ν}
    (hnode : ∀ v ∈ nodes, ∀ s, Visited next all way s → unvisited all s < depth →
      Leaves next all way [v] s (visit next depth v s))
    {s : List ν × List ν} (hs : Visited next all way s) (hdepth : unvisited all s < depth) :
    Leaves next all way nodes s (visitAll next depth nodes s) := by
  induction nodes generalizing s with
  | nil => exact ⟨hs, fun _ hv => hv, fun _ hv => absurd hv List.not_mem_nil⟩
  | cons v nodes ih =>
      have hfirst := hnode v List.mem_cons_self s hs hdepth
      have hrest := ih (fun w hw => hnode w (List.mem_cons_of_mem v hw)) hfirst.visited
        ((unvisited_mono hfirst.marked).trans_lt hdepth)
      rw [visitAll_cons]
      refine ⟨hrest.visited, fun w hw => hrest.marked w (hfirst.marked w hw), ?_⟩
      exact List.forall_mem_cons.2
        ⟨hrest.marked v (hfirst.nodes v (List.mem_singleton_self v)), hrest.nodes⟩

/-- A visit of one node, to which every node on the way leads. The induction is on the
depth, which the nodes not marked yet bound. -/
theorem visit_leaves {all : Finset ν} (hall : ∀ v ∈ all, ∀ w ∈ next v, w ∈ all) (depth : ℕ)
    {way : List ν} {v : ν} (hv : v ∈ all) (hway : ∀ w ∈ way, LeadsTo next w v)
    {s : List ν × List ν} (hs : Visited next all way s) (hdepth : unvisited all s < depth) :
    Leaves next all way [v] s (visit next depth v s) := by
  induction depth generalizing way v s with
  | zero => exact absurd hdepth (Nat.not_lt_zero _)
  | succ depth ih =>
      rw [visit_succ]
      by_cases hmarked : v ∈ s.1
      · rw [if_pos hmarked]
        exact ⟨hs, fun _ hw => hw, List.forall_mem_singleton.2 hmarked⟩
      · rw [if_neg hmarked]
        have hlisted : v ∉ s.2 := fun h => hmarked ((hs.marked_iff v).2 (Or.inl h))
        have hfresh : v ∉ way := fun h => hmarked ((hs.marked_iff v).2 (Or.inr h))
        -- Below `v`, the node itself is on the way.
        have hbelow : Visited next all (v :: way) (v :: s.1, s.2) := by
          refine ⟨fun w => ?_, hs.nodup, fun w hw hmem => ?_, ?_, hs.after⟩
          · rw [List.mem_cons, hs.marked_iff, List.mem_cons, or_left_comm]
          · rcases List.mem_cons.1 hmem with rfl | hrest
            · exact hlisted hw
            · exact hs.apart w hw hrest
          · exact List.forall_mem_cons.2 ⟨hv, hs.mem_all⟩
        have hleads : ∀ w ∈ next v, ∀ u ∈ v :: way, LeadsTo next u w := by
          intro w hw u hu
          rcases List.mem_cons.1 hu with rfl | hrest
          · exact Relation.ReflTransGen.single hw
          · exact (hway u hrest).tail hw
        have hdown : Leaves next all (v :: way) (next v) (v :: s.1, s.2)
            (visitAll next depth (next v) (v :: s.1, s.2)) := visitAll_leaves
          (fun w hw t ht htdepth => ih (hall v hv w hw) (hleads w hw) ht htdepth) hbelow
          (by have := unvisited_mark hv hmarked s.2; omega)
        generalize visitAll next depth (next v) (v :: s.1, s.2) = t at hdown ⊢
        have hnew : v ∉ t.2 := fun h => hdown.visited.apart v h List.mem_cons_self
        refine ⟨⟨fun w => ?_, ?_, ?_, hdown.visited.mem_all, ?_⟩,
          fun w hw => hdown.marked w (List.mem_cons_of_mem v hw),
          List.forall_mem_singleton.2 (hdown.marked v List.mem_cons_self)⟩
        · rw [hdown.visited.marked_iff, List.mem_cons, List.mem_append, List.mem_singleton,
            or_assoc]
        · exact List.nodup_append.2 ⟨hdown.visited.nodup, List.nodup_singleton v,
            fun w hw u hu heq => hnew (by rwa [heq, List.mem_singleton.1 hu] at hw)⟩
        · refine List.forall_mem_append.2 ⟨fun w hw hmem => ?_, List.forall_mem_singleton.2 hfresh⟩
          exact hdown.visited.apart w hw (List.mem_cons_of_mem v hmem)
        · refine List.forall_mem_append.2 ⟨fun w hw u hu => ?_, List.forall_mem_singleton.2 ?_⟩
          · refine (hdown.visited.after w hw u hu).imp_left fun hsub => ?_
            exact hsub.trans (List.sublist_append_left t.2 [v])
          · intro u hu
            rcases (hdown.visited.marked_iff u).1 (hdown.nodes u hu) with hlist | hon
            · exact Or.inl ((List.singleton_sublist.2 hlist).append (List.Sublist.refl [v]))
            · rcases List.mem_cons.1 hon with rfl | hrest
              · exact Or.inr Relation.ReflTransGen.refl
              · exact Or.inr (hway u hrest)

/-- Marks are never taken away. -/
theorem visit_marked (depth : ℕ) (v : ν) (s : List ν × List ν) :
    ∀ w ∈ s.1, w ∈ (visit next depth v s).1 := by
  induction depth generalizing v s with
  | zero => exact fun _ hw => hw
  | succ depth ih =>
      have hlist : ∀ (nodes : List ν) (s : List ν × List ν),
          ∀ w ∈ s.1, w ∈ (visitAll next depth nodes s).1 := by
        intro nodes
        induction nodes with
        | nil => exact fun _ _ hw => hw
        | cons u nodes ihNodes => exact fun s w hw => ihNodes _ w (ih u s w hw)
      rw [visit_succ]
      split_ifs
      · exact fun _ hw => hw
      · exact fun w hw => hlist _ _ w (List.mem_cons_of_mem v hw)

theorem visitAll_depth_of {all : Finset ν} {depth : ℕ}
    (hnode : ∀ v ∈ all, ∀ s, unvisited all s < depth →
      visit next (depth + 1) v s = visit next depth v s)
    {nodes : List ν} (hnodes : ∀ v ∈ nodes, v ∈ all) {s : List ν × List ν}
    (hdepth : unvisited all s < depth) :
    visitAll next (depth + 1) nodes s = visitAll next depth nodes s := by
  induction nodes generalizing s with
  | nil => rfl
  | cons u nodes ih =>
      rw [visitAll_cons, visitAll_cons, hnode u (hnodes u List.mem_cons_self) s hdepth]
      exact ih (fun w hw => hnodes w (List.mem_cons_of_mem u hw))
        ((unvisited_mono (visit_marked depth u s)).trans_lt hdepth)

/-- A depth that is more than the nodes not marked yet is never used up. -/
theorem visit_depth {all : Finset ν} (hall : ∀ v ∈ all, ∀ w ∈ next v, w ∈ all) (depth : ℕ) {v : ν}
    (hv : v ∈ all) {s : List ν × List ν} (hdepth : unvisited all s < depth) :
    visit next (depth + 1) v s = visit next depth v s := by
  induction depth generalizing v s with
  | zero => exact absurd hdepth (Nat.not_lt_zero _)
  | succ depth ih =>
      rw [visit_succ, visit_succ]
      by_cases hmarked : v ∈ s.1
      · rw [if_pos hmarked, if_pos hmarked]
      · have hlt := unvisited_mark hv hmarked s.2
        rw [if_neg hmarked, if_neg hmarked,
          visitAll_depth_of (fun w hw t ht => ih hw ht) (hall v hv) (by omega)]

theorem visitAll_depth {all : Finset ν} (hall : ∀ v ∈ all, ∀ w ∈ next v, w ∈ all)
    {nodes : List ν} (hnodes : ∀ v ∈ nodes, v ∈ all) {depth depth' : ℕ} (h : all.card < depth)
    (hle : depth ≤ depth') :
    visitAll next depth' nodes ([], []) = visitAll next depth nodes ([], []) := by
  have hstart : ∀ d, depth ≤ d → unvisited all ([], []) < d := by
    intro d hd
    rw [unvisited, List.toFinset_nil, Finset.sdiff_empty]
    omega
  induction depth', hle using Nat.le_induction with
  | base => rfl
  | succ d hd ih =>
      rw [visitAll_depth_of (fun w hw t ht => visit_depth hall d hw ht) hnodes (hstart d hd), ih]

/-- All nodes of a finite set, visited from the start: each is listed once, after its
successors that do not lead back to it. -/
theorem visitAll_order {all : Finset ν} (hall : ∀ v ∈ all, ∀ w ∈ next v, w ∈ all) {depth : ℕ}
    (hdepth : all.card < depth) {nodes : List ν} (hnodes : ∀ v, v ∈ nodes ↔ v ∈ all) :
    (visitAll next depth nodes ([], [])).2.Nodup ∧
      (∀ v, v ∈ (visitAll next depth nodes ([], [])).2 ↔ v ∈ all) ∧
      ∀ v ∈ all, ∀ w ∈ next v, ¬ LeadsTo next w v →
        [w, v].Sublist (visitAll next depth nodes ([], [])).2 := by
  have hstart : Visited next all [] ([], []) :=
    ⟨by simp, List.nodup_nil, fun _ hv => absurd hv List.not_mem_nil,
      fun _ hv => absurd hv List.not_mem_nil, fun _ hv => absurd hv List.not_mem_nil⟩
  have hleaves : Leaves next all [] nodes ([], []) (visitAll next depth nodes ([], [])) :=
    visitAll_leaves (fun v hv s hs hlt => visit_leaves hall depth ((hnodes v).1 hv)
      (fun _ hw => absurd hw List.not_mem_nil) hs hlt) hstart
      (by rwa [unvisited, List.toFinset_nil, Finset.sdiff_empty])
  have hmem : ∀ v, v ∈ (visitAll next depth nodes ([], [])).2 ↔ v ∈ all := by
    intro v
    constructor
    · intro hv
      exact hleaves.visited.mem_all v ((hleaves.visited.marked_iff v).2 (Or.inl hv))
    · intro hv
      have hmarked := hleaves.nodes v ((hnodes v).2 hv)
      exact ((hleaves.visited.marked_iff v).1 hmarked).resolve_right List.not_mem_nil
  refine ⟨hleaves.visited.nodup, hmem, fun v hv w hw hback => ?_⟩
  exact (hleaves.visited.after v ((hmem v).2 hv) w hw).resolve_right hback

end Library

end Tolkara
