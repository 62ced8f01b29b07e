import Tolkara.Library.Postorder
import Tolkara.Link.FirstExport

/-!
# The order of initialization

`gl_initialization_order` visits the carried libraries depth first, from those the executable
names. A library comes after each one it names that does not lead back to it.
-/

namespace Tolkara

namespace GuestLinkSet

open Library

/-- The carried libraries that an image names, in order. -/
def linked (fs : FileSystem) (set : GuestLinkSet) (image : ImageRef) : List ℕ :=
  (((set.imageOf image).map (·.dylibs)).getD []).filterMap fun dylib =>
    set.carriedAs fs image ((set.pathOf image).getD []) dylib.name

/-- `initialize_after`: the libraries seen, as a list in place of the mask, and the order.
Each call marks a library, which bounds the depth. -/
def initializeAfter (fs : FileSystem) (set : GuestLinkSet) :
    ℕ → ℕ → List ℕ × List ℕ → List ℕ × List ℕ
  | 0, _, s => s
  | depth + 1, index, s =>
    if index ∈ s.1 then s
    else
      let t := (set.linked fs (.library index)).foldl
        (fun s needed => initializeAfter fs set depth needed s) (index :: s.1, s.2)
      (t.1, t.2 ++ [index])

/-- The two loops of `gl_initialization_order`, with calls up to a depth. -/
def initializationOrder (fs : FileSystem) (set : GuestLinkSet) (depth : ℕ) : List ℕ :=
  let s := (set.linked fs .executable).foldl
    (fun s needed => set.initializeAfter fs depth needed s) ([], [])
  ((List.range set.count).foldl (fun s i => set.initializeAfter fs depth i s) s).2

def glInitializationOrder (fs : FileSystem) (set : GuestLinkSet) : List ℕ :=
  set.initializationOrder fs (set.count + 1)

variable {fs : FileSystem} {set : GuestLinkSet}

theorem lt_of_mem_linked {image : ImageRef} {i : ℕ} (h : i ∈ set.linked fs image) :
    i < set.count := by
  obtain ⟨dylib, -, hcarried⟩ := List.mem_filterMap.1 h
  exact carriedAs_lt hcarried

variable (fs set) in
theorem initializeAfter_eq (depth index : ℕ) (s : List ℕ × List ℕ) :
    set.initializeAfter fs depth index s =
      visit (fun i => set.linked fs (.library i)) depth index s := by
  induction depth generalizing index s with
  | zero => rfl
  | succ depth ih =>
      rw [initializeAfter, visit]
      simp only [ih]

variable (fs set) in
theorem initializationOrder_eq (depth : ℕ) :
    set.initializationOrder fs depth =
      (visitAll (fun i => set.linked fs (.library i)) depth
        (set.linked fs .executable ++ List.range set.count) ([], [])).2 := by
  rw [visitAll_append, initializationOrder]
  simp only [initializeAfter_eq]
  rfl

/-- **The order of initialization.** Whatever the libraries name, the calls end at a depth of
one more than there are libraries, each library is listed once, and one comes before
every other that names it and that it does not lead back to. -/
theorem initialization_order (fs : FileSystem) (set : GuestLinkSet) :
    (∀ depth, set.count < depth →
      set.initializationOrder fs depth = set.glInitializationOrder fs) ∧
    (set.glInitializationOrder fs).Perm (List.range set.count) ∧
    (set.glInitializationOrder fs).length = set.count ∧
    ∀ a < set.count, ∀ b ∈ set.linked fs (.library a),
      ¬ LeadsTo (fun i => set.linked fs (.library i)) b a →
        [b, a].Sublist (set.glInitializationOrder fs) := by
  have hall : ∀ a ∈ Finset.range set.count, ∀ b ∈ set.linked fs (.library a),
      b ∈ Finset.range set.count :=
    fun a _ b hb => Finset.mem_range.2 (lt_of_mem_linked hb)
  have hnodes : ∀ i, i ∈ set.linked fs .executable ++ List.range set.count ↔
      i ∈ Finset.range set.count := by
    intro i
    rw [List.mem_append, List.mem_range, Finset.mem_range]
    exact ⟨fun h => h.elim lt_of_mem_linked id, Or.inr⟩
  have hcard : (Finset.range set.count).card < set.count + 1 := by
    rw [Finset.card_range]
    exact Nat.lt_succ_self _
  obtain ⟨hnodup, hmem, hafter⟩ := visitAll_order hall hcard hnodes
  rw [glInitializationOrder, initializationOrder_eq]
  have hperm : (visitAll (fun i => set.linked fs (.library i)) (set.count + 1)
      (set.linked fs .executable ++ List.range set.count) ([], [])).2.Perm
        (List.range set.count) := by
    refine (List.perm_ext_iff_of_nodup hnodup List.nodup_range).2 fun i => ?_
    rw [hmem, Finset.mem_range, List.mem_range]
  refine ⟨fun depth hdepth => ?_, hperm, ?_, fun a ha => hafter a (Finset.mem_range.2 ha)⟩
  · rw [initializationOrder_eq]
    exact congrArg Prod.snd
      (visitAll_depth hall (fun i hi => (hnodes i).1 hi) hcard hdepth)
  · rw [hperm.length_eq, List.length_range]

end GuestLinkSet

end Tolkara
