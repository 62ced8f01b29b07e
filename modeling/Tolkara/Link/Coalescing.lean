import Tolkara.Library.Postorder
import Tolkara.Library.Preference
import Tolkara.Link.FirstExport

/-!
# Coalescing of weak definitions

A weak lookup asks the images that have weak definitions, each for what its own trie gives,
and prefers a definition that is not weak over an earlier one that is. What a trie gives is
stated in the graph of queries, where no library is marked; the code finds it as long as it
does not come to one library under two names.
-/

namespace Tolkara

namespace GuestLinkSet

open AnswerGraph Library

/-- The trie of an image has the symbol, as an export or as a re-export. -/
def namesSymbol (image : GuestImage) (symbol : CString) : Bool :=
  match image.giExport symbol with
  | .found _ | .reexport _ _ => true
  | .missing | .invalid => false

def ownNames (set : GuestLinkSet) (symbol : CString) (k : Option ℕ) : Bool :=
  (set.queried k).any fun q => namesSymbol q.1 symbol

/-- What the own trie of an image gives: the answer of the query, where the trie has the
symbol. Libraries that the image re-exports whole are left out so. -/
def OwnDefinition (fs : FileSystem) (set : GuestLinkSet) (symbol : CString) (k : Option ℕ)
    (a : Answer) : Prop :=
  set.ownNames symbol k = true ∧ (exportGraph fs set).Answers [] (k, symbol) a

def loadOrder (set : GuestLinkSet) : List (Option ℕ) := none :: (List.range set.count).map some

/-- The flag of an image that has weak definitions. -/
def weakDefines (set : GuestLinkSet) (k : Option ℕ) : Bool :=
  (set.queried k).any fun q => q.1.weakDefines

def weakImages (set : GuestLinkSet) : List (Option ℕ) := set.loadOrder.filter set.weakDefines

def glLookupValue (fs : FileSystem) (set : GuestLinkSet) (image : ImageRef) (fromPath : CString)
    (ordinal : ℤ) (symbol : CString) (value : BitVec 64) : Bool × BitVec 64 :=
  match set.glLookup fs image fromPath ordinal symbol with
  | none => (false, value)
  | some answer => (true, answer.value)

variable {fs : FileSystem} {set : GuestLinkSet}

/-! ## One image -/

theorem imageExport_shallow (carried : CString → Option ℕ)
    (libraryExport : ℕ → CString → List ℕ → Option Answer × List ℕ) (image : GuestImage)
    (slide : BitVec 64) (name symbol : CString) (visited : List ℕ) :
    (imageExport carried libraryExport image slide name symbol true visited).1 =
      if namesSymbol image symbol = true then
        (imageExport carried libraryExport image slide name symbol false visited).1
      else none := by
  unfold imageExport namesSymbol
  cases image.giExport symbol <;> rfl

/-- What the code asks an image for in the pass. -/
def candidate (fs : FileSystem) (set : GuestLinkSet) (symbol : CString) :
    Option ℕ → Option Answer
  | none => (set.executableExport fs symbol true []).1
  | some i => (set.libraryLookup fs i symbol true []).1

theorem candidate_eq (symbol : CString) (k : Option ℕ) :
    set.candidate fs symbol k =
      if set.ownNames symbol k = true then
        (searchAll ((exportGraph fs set).search Prod.fst (set.count + 2)) [(k, symbol)] []).1
      else none := by
  cases k with
  | none =>
      rw [← executableExport_eq, candidate, executableExport, imageExport_shallow]
      rfl
  | some i =>
      rw [← libraryLookup_eq, candidate, libraryLookup, libraryLookup, libraryExport,
        libraryExport, if_neg List.not_mem_nil, if_neg List.not_mem_nil, ownNames, queried]
      cases set.libraries[i]? with
      | none => rfl
      | some library => exact imageExport_shallow _ _ _ _ _ _ _

theorem loadOrder_mem {k : Option ℕ} (h : k ∈ set.loadOrder) : k ∈ set.imageKeys := by
  rcases List.mem_cons.mp h with rfl | hmem
  · exact none_mem_imageKeys
  · obtain ⟨i, hi, rfl⟩ := List.mem_map.mp hmem
    exact some_mem_imageKeys (List.mem_range.mp hi)

/-- An image that is searched under one name for each library gives what its trie gives. -/
theorem candidate_iff {symbol : CString} {k : Option ℕ} (hk : k ∈ set.loadOrder)
    (hsingle : set.ownNames symbol k = true →
      (exportGraph fs set).SingleKeyed Prod.fst [(k, symbol)]) (a : Answer) :
    set.candidate fs symbol k = some a ↔ set.OwnDefinition fs symbol k a := by
  rw [candidate_eq, OwnDefinition]
  by_cases hnames : set.ownNames symbol k = true
  · rw [if_pos hnames, ← firstAnswer_singleton]
    have hkeys : ∀ passed q, (exportGraph fs set).Met [(k, symbol)] passed q →
        q.1 ∈ set.imageKeys := fun passed q hmet =>
      met_mem_imageKeys (List.forall_mem_singleton.2 (loadOrder_mem hk)) hmet
    rw [searchAll_eq_some_iff (hsingle hnames) hkeys card_imageKeys]
    exact ⟨fun h => ⟨hnames, h⟩, fun h => h.2⟩
  · rw [if_neg hnames]
    exact ⟨fun h => (by cases h), fun h => absurd h.1 hnames⟩

/-! ## The pass -/

def imageRefOf : Option ℕ → ImageRef
  | none => .executable
  | some i => .library i

theorem weakDefines_eq (k : Option ℕ) :
    ((set.imageOf (imageRefOf k)).map (·.weakDefines)).getD false = set.weakDefines k := by
  cases k with
  | none => rfl
  | some i =>
      rw [imageRefOf, imageOf, weakDefines, queried]
      cases set.libraries[i]? <;> rfl

theorem coalesceLoop_cons (symbol : CString) (k : Option ℕ) (rest : List ImageRef)
    (found : Option Answer) :
    coalesceLoop fs set symbol (imageRefOf k :: rest) found =
      if set.weakDefines k = false then coalesceLoop fs set symbol rest found
      else
        match set.candidate fs symbol k with
        | none => coalesceLoop fs set symbol rest found
        | some answer =>
          if answer.weak = false then some answer
          else coalesceLoop fs set symbol rest (found.or (some answer)) := by
  rw [← weakDefines_eq]
  cases k <;> rfl

theorem coalesceLoop_eq (symbol : CString) (keys : List (Option ℕ)) (found : Option Answer) :
    coalesceLoop fs set symbol (keys.map imageRefOf) found =
      prefer (set.candidate fs symbol) Answer.weak (keys.filter set.weakDefines) found := by
  induction keys generalizing found with
  | nil => rfl
  | cons k keys ih =>
      rw [List.map_cons, coalesceLoop_cons]
      by_cases hflag : set.weakDefines k = true
      · rw [List.filter_cons_of_pos hflag, if_neg (by rw [hflag]; decide), prefer]
        cases set.candidate fs symbol k with
        | none => exact ih found
        | some a => exact if_congr Iff.rfl rfl (ih _)
      · rw [List.filter_cons_of_neg hflag, if_pos (Bool.not_eq_true _ ▸ hflag)]
        exact ih found

theorem glLookup_weak_eq (image : ImageRef) (fromPath symbol : CString) :
    set.glLookup fs image fromPath (-3) symbol =
      (prefer (set.candidate fs symbol) Answer.weak set.weakImages none).or
        (set.glLookup fs image fromPath 0 symbol) := by
  have hloop : coalesceLoop fs set symbol (set.loadOrder.map imageRefOf) none =
      prefer (set.candidate fs symbol) Answer.weak set.weakImages none :=
    coalesceLoop_eq symbol set.loadOrder none
  have horder : set.loadOrder.map imageRefOf =
      .executable :: (List.range set.count).map ImageRef.library := by
    rw [loadOrder, List.map_cons, List.map_map]
    rfl
  rw [horder] at hloop
  have hweak : set.glLookup fs image fromPath (-3) symbol = set.coalesce fs image symbol := rfl
  rw [hweak]
  unfold coalesce
  rw [hloop]
  cases prefer (set.candidate fs symbol) Answer.weak set.weakImages none with
  | none => cases image <;> rfl
  | some a => rfl

/-- **Coalescing of weak definitions.** When no library comes up under two names on the way
from the trie of an image that the pass comes to, a weak lookup answers with what is preferred
of what the images with weak definitions define, else with what the importing image gives for
itself, and it writes the value only when it answers. -/
theorem glLookup_weak {symbol : CString}
    (hsingle : ∀ k, Asked (set.OwnDefinition fs symbol) Answer.weak set.weakImages k →
      set.ownNames symbol k = true → (exportGraph fs set).SingleKeyed Prod.fst [(k, symbol)])
    (image : ImageRef) (fromPath : CString) :
    (∀ r, set.glLookup fs image fromPath (-3) symbol = r ↔
      Preferred (set.OwnDefinition fs symbol) Answer.weak
        (set.glLookup fs image fromPath 0 symbol) set.weakImages r) ∧
    ∀ r value, Preferred (set.OwnDefinition fs symbol) Answer.weak
        (set.glLookup fs image fromPath 0 symbol) set.weakImages r →
      set.glLookupValue fs image fromPath (-3) symbol value =
        match r with
        | none => (false, value)
        | some a => (true, a.value) := by
  have hcandidate : ∀ k, Asked (set.OwnDefinition fs symbol) Answer.weak set.weakImages k →
      ∀ a, set.candidate fs symbol k = some a ↔ set.OwnDefinition fs symbol k a := by
    intro k hasked
    have hmem : k ∈ set.weakImages := by
      obtain ⟨before, after, horder, -⟩ := hasked
      exact horder ▸ List.mem_append_right _ List.mem_cons_self
    exact candidate_iff (List.mem_of_mem_filter hmem) (hsingle k hasked)
  have hpreferred : Preferred (set.OwnDefinition fs symbol) Answer.weak
      (set.glLookup fs image fromPath 0 symbol) set.weakImages
      (set.glLookup fs image fromPath (-3) symbol) := by
    rw [glLookup_weak_eq]
    exact prefer_preferred hcandidate
  have hunique : ∀ r, Preferred (set.OwnDefinition fs symbol) Answer.weak
      (set.glLookup fs image fromPath 0 symbol) set.weakImages r →
        set.glLookup fs image fromPath (-3) symbol = r :=
    fun r hr => hpreferred.unique (fun k a b ha hb => ha.2.unique hb.2) hr
  refine ⟨fun r => ⟨fun h => h ▸ hpreferred, hunique r⟩, fun r value hr => ?_⟩
  rw [glLookupValue, hunique r hr]

/-- A library that exports `s` weakly, at the absolute address 9, and one that has the flag and
re-exports `s` from the next one as `t`. -/
def preferringSet : GuestLinkSet :=
  setOf
    [carriedAt
        { GuestImage.empty with
          exports := [0, 1, 115, 0, 5, 2, 6, 9, 0]
          weakDefines := true } "l",
      carriedAt { renamingImage "n" with weakDefines := true } "m",
      carriedAt { GuestImage.empty with exports := [0, 1, 116, 0, 5, 2, 2, 7, 0] } "n"]

/-- The images with weak definitions, the answers and the edges of their queries, and what the
code makes of them. -/
theorem preferringSet_graph :
    preferringSet.weakImages = [some 0, some 1] ∧
    (exportGraph fixtureFiles preferringSet).answer (some 0, ascii "s") =
      some { value := 9, weak := true, name := ascii "@executable_path/l" } ∧
    (exportGraph fixtureFiles preferringSet).answer (some 1, ascii "s") = none ∧
    (exportGraph fixtureFiles preferringSet).next (some 1, ascii "s") = [(some 2, ascii "t")] ∧
    (exportGraph fixtureFiles preferringSet).answer (some 2, ascii "t") =
      some { value := 7, weak := false, name := ascii "@executable_path/n" } ∧
    preferringSet.glLookup fixtureFiles .executable (ascii "/r/a/x") (-3) (ascii "s") =
      some { value := 7, weak := false, name := ascii "@executable_path/n" } := by
  decide

theorem preferringSet_single (k : Option ℕ) (h : k ∈ preferringSet.weakImages) :
    (exportGraph fixtureFiles preferringSet).SingleKeyed Prod.fst [(k, ascii "s")] := by
  obtain ⟨himages, hown, hnone, hnext, hother, -⟩ := preferringSet_graph
  rw [himages] at h
  rcases List.mem_pair.1 h with rfl | rfl
  · exact .of_nodes [(some 0, ascii "s")] [] [] (by simp) rfl (.found List.not_mem_nil hown)
      (by simp) (by simp [hown])
  · exact .of_nodes [(some 1, ascii "s"), (some 2, ascii "t")] [] [] (by simp) rfl
      (leads_nil_iff.2 (.through hnone (hnext ▸ List.mem_singleton_self _) (.found hother)))
      (by simp) (by simp [hnext, hother])

/-- The definition that is not weak is preferred over the earlier one that is. -/
theorem glLookup_weak_preferring :
    Preferred (preferringSet.OwnDefinition fixtureFiles (ascii "s")) Answer.weak
        (preferringSet.glLookup fixtureFiles .executable (ascii "/r/a/x") 0 (ascii "s"))
        preferringSet.weakImages
        (some { value := 7, weak := false, name := ascii "@executable_path/n" }) ∧
      preferringSet.glLookupValue fixtureFiles .executable (ascii "/r/a/x") (-3) (ascii "s") 1 =
        (true, 7) := by
  have hsingle : ∀ k, Asked (preferringSet.OwnDefinition fixtureFiles (ascii "s")) Answer.weak
      preferringSet.weakImages k → preferringSet.ownNames (ascii "s") k = true →
        (exportGraph fixtureFiles preferringSet).SingleKeyed Prod.fst [(k, ascii "s")] := by
    rintro k ⟨before, after, horder, -⟩ -
    exact preferringSet_single k (horder ▸ List.mem_append_right before List.mem_cons_self)
  obtain ⟨hanswer, hvalue⟩ := glLookup_weak hsingle .executable (ascii "/r/a/x")
  have hpreferred := (hanswer _).1 preferringSet_graph.2.2.2.2.2
  exact ⟨hpreferred, hvalue _ 1 hpreferred⟩

/-- A library with the flag re-exports `s` as `t` from the other one, which re-exports `t` as
`u` from the first, where `u` is at the absolute address 7. -/
def returningSet : GuestLinkSet :=
  setOf
    [carriedAt
        { GuestImage.empty with
          exports := [0, 2, 115, 0, 8, 117, 0, 14, 4, 8, 1, 116, 0, 0, 2, 2, 7, 0]
          dylibs := [⟨ascii "@executable_path/m", false⟩]
          weakDefines := true } "l",
      carriedAt
        { GuestImage.empty with
          exports := [0, 1, 116, 0, 5, 4, 8, 1, 117, 0, 0]
          dylibs := [⟨ascii "@executable_path/l", false⟩] } "m"]

theorem returningSet_graph :
    returningSet.weakImages = [] ++ some 0 :: [] ∧
    (exportGraph fixtureFiles returningSet).answer (some 0, ascii "s") = none ∧
    (exportGraph fixtureFiles returningSet).next (some 0, ascii "s") =
      [] ++ (some 1, ascii "t") :: [] ∧
    (exportGraph fixtureFiles returningSet).answer (some 1, ascii "t") = none ∧
    (exportGraph fixtureFiles returningSet).next (some 1, ascii "t") =
      [] ++ (some 0, ascii "u") :: [] ∧
    (exportGraph fixtureFiles returningSet).answer (some 0, ascii "u") =
      some { value := 7, weak := false, name := ascii "@executable_path/l" } ∧
    returningSet.ownNames (ascii "s") (some 0) = true ∧
    returningSet.glLookup fixtureFiles .executable (ascii "/r/a/x") (-3) (ascii "s") = none := by
  decide

theorem returningSet_defines : returningSet.OwnDefinition fixtureFiles (ascii "s") (some 0)
    { value := 7, weak := false, name := ascii "@executable_path/l" } := by
  obtain ⟨-, hs, hfirst, ht, hsecond, hanswer, hnames, -⟩ := returningSet_graph
  exact ⟨hnames, .first List.not_mem_nil hs hfirst (fun _ hp => absurd hp List.not_mem_nil)
    (.first (by simp [ascii]) ht hsecond (fun _ hp => absurd hp List.not_mem_nil)
      (.found (by simp [ascii]) hanswer))⟩

/-- A weak lookup of `s` marks the first library, does not come back to it for `u`, and finds
nothing. -/
theorem glLookup_weak_returning :
    ¬ ∀ r, returningSet.glLookup fixtureFiles .executable (ascii "/r/a/x") (-3) (ascii "s") = r ↔
      Preferred (returningSet.OwnDefinition fixtureFiles (ascii "s")) Answer.weak
        (returningSet.glLookup fixtureFiles .executable (ascii "/r/a/x") 0 (ascii "s"))
        returningSet.weakImages r := by
  obtain ⟨himages, -, -, -, -, -, -, hnone⟩ := returningSet_graph
  intro hclaim
  rw [himages] at hclaim
  have hsome := (hclaim _).2 (.strong returningSet_defines rfl
    fun _ hp => absurd hp List.not_mem_nil)
  rw [hnone] at hsome
  cases hsome

/-! ## What is answered -/

/-- An export that an image of the set defines, with the slide of that image. -/
def Defined (set : GuestLinkSet) (a : Answer) : Prop :=
  ∃ k image ref path slide name symbol,
    set.queried k = some (image, ref, path, slide, name) ∧
      imageAnswer image slide name symbol = some a

theorem reexportLoop_some {carried : CString → Option ℕ}
    {libraryExport : ℕ → List ℕ → Option Answer × List ℕ} {P : Answer → Prop}
    (hlibrary : ∀ i visited a, (libraryExport i visited).1 = some a → P a)
    (dylibs : List GIDylib) {visited : List ℕ} {a : Answer}
    (h : (reexportLoop carried libraryExport dylibs visited).1 = some a) : P a := by
  induction dylibs generalizing visited with
  | nil => cases h
  | cons dylib rest ih =>
      unfold reexportLoop at h
      split_ifs at h
      · exact ih h
      · split at h
        · exact ih h
        · split at h
          · rename_i through _ _ answer visited' hanswer
            cases h
            exact hlibrary through visited a (by rw [hanswer])
          · exact ih h

theorem imageExport_some {carried : CString → Option ℕ}
    {libraryExport : ℕ → CString → List ℕ → Option Answer × List ℕ} {image : GuestImage}
    {slide : BitVec 64} {name symbol : CString} {shallow : Bool} {P : Answer → Prop}
    (hown : ∀ a, imageAnswer image slide name symbol = some a → P a)
    (hlibrary : ∀ i renamed visited a, (libraryExport i renamed visited).1 = some a → P a)
    {visited : List ℕ} {a : Answer}
    (h : (imageExport carried libraryExport image slide name symbol shallow visited).1 = some a) :
    P a := by
  unfold imageExport at h
  cases hexport : image.giExport symbol with
  | found e =>
      rw [hexport] at h
      cases h
      refine hown _ ?_
      rw [imageAnswer, hexport]
  | reexport ordinal renamed =>
      rw [hexport] at h
      dsimp only at h
      split at h
      · cases h
      · exact hlibrary _ _ _ a h
  | missing =>
      rw [hexport] at h
      dsimp only at h
      split_ifs at h
      exact reexportLoop_some (fun i visited => hlibrary i symbol visited) image.dylibs h
  | invalid =>
      rw [hexport] at h
      dsimp only at h
      split_ifs at h
      exact reexportLoop_some (fun i visited => hlibrary i symbol visited) image.dylibs h

/-- Whatever a search through the libraries answers is an export of one of them. -/
theorem libraryExport_defined (depth i : ℕ) (symbol : CString) (shallow : Bool) (visited : List ℕ)
    (a : Answer) (h : (set.libraryExport fs depth i symbol shallow visited).1 = some a) :
    set.Defined a := by
  induction depth generalizing i symbol shallow visited a with
  | zero => cases h
  | succ depth ih =>
      unfold libraryExport at h
      split_ifs at h
      cases hlibrary : set.libraries[i]? with
      | none =>
          rw [hlibrary] at h
          cases h
      | some library =>
          rw [hlibrary] at h
          refine imageExport_some (fun b hb => ?_) (fun j renamed => ih j renamed false) h
          exact ⟨some i, library.image, .library i, library.path, library.slide,
            library.installName, symbol, by rw [queried, hlibrary]; rfl, hb⟩

theorem executableExport_defined (symbol : CString) (shallow : Bool) (a : Answer)
    (h : (set.executableExport fs symbol shallow []).1 = some a) : set.Defined a :=
  imageExport_some
    (fun _ hb => ⟨none, _, _, _, _, _, symbol, rfl, hb⟩)
    (fun j renamed => libraryExport_defined (set.count + 1) j renamed false) h

theorem flatLoop_defined {symbol : CString} (libraries visited : List ℕ) {a : Answer}
    (h : flatLoop fs set symbol libraries visited = some a) : set.Defined a := by
  induction libraries generalizing visited with
  | nil => cases h
  | cons i rest ih =>
      have hone : (set.libraryExport fs (set.count + 2) i symbol false visited).1 = some a →
          set.Defined a := libraryExport_defined (set.count + 2) i symbol false visited a
      rw [flatLoop, libraryLookup] at h
      generalize set.libraryExport fs (set.count + 2) i symbol false visited = answer at h hone
      obtain ⟨answer, visited'⟩ := answer
      cases answer with
      | none => exact ih visited' h
      | some b => exact hone h

theorem candidate_defined {symbol : CString} {k : Option ℕ} {a : Answer}
    (h : set.candidate fs symbol k = some a) : set.Defined a := by
  cases k with
  | none => exact executableExport_defined symbol true a h
  | some i => exact libraryExport_defined (set.count + 2) i symbol true [] a h

/-- Whatever a lookup answers is an export of an image of the set, with its flag and the slide
of that image. -/
theorem glLookup_defined {image : ImageRef} {fromPath : CString} {ordinal : ℤ} {symbol : CString}
    {a : Answer} (h : set.glLookup fs image fromPath ordinal symbol = some a) : set.Defined a := by
  have hself : ∀ {a}, set.glLookup fs image fromPath 0 symbol = some a → set.Defined a := by
    intro a h
    cases image with
    | executable => exact executableExport_defined symbol false a h
    | library i => exact libraryExport_defined (set.count + 2) i symbol false [] a h
    | other image => cases h
  by_cases hweak : ordinal = -3
  · subst hweak
    rw [glLookup_weak_eq] at h
    cases hprefer : prefer (set.candidate fs symbol) Answer.weak set.weakImages none with
    | none =>
        rw [hprefer] at h
        exact hself h
    | some b =>
        rw [hprefer] at h
        cases h
        rcases mem_of_prefer hprefer with hnone | ⟨k, -, hk⟩
        · cases hnone
        · exact candidate_defined hk
  · rcases eq_or_ne ordinal 0 with rfl | hzero
    · exact hself h
    · unfold glLookup at h
      split_ifs at h
      · split at h
        · cases h
        · exact libraryExport_defined _ _ symbol false [] a h
      · exact executableExport_defined symbol false a h
      · have hone : ∀ a, (set.executableExport fs symbol false []).1 = some a → set.Defined a :=
          executableExport_defined symbol false
        generalize set.executableExport fs symbol false [] = answer at h hone
        obtain ⟨answer, visited⟩ := answer
        cases answer with
        | none => exact flatLoop_defined _ visited h
        | some b => exact hone a h

/-! ## The depth -/

def unvisitedCount (set : GuestLinkSet) (visited : List ℕ) : ℕ :=
  Library.unvisited (Finset.range set.count) (visited, [])

theorem unvisitedCount_mono {visited visited' : List ℕ} (h : ∀ i ∈ visited, i ∈ visited') :
    set.unvisitedCount visited' ≤ set.unvisitedCount visited :=
  Library.unvisited_mono h

theorem unvisitedCount_le (visited : List ℕ) : set.unvisitedCount visited ≤ set.count := by
  have hle := Finset.card_le_card (Finset.sdiff_subset (s := Finset.range set.count)
    (t := visited.toFinset))
  rwa [Finset.card_range] at hle

theorem reexportLoop_marked {carried : CString → Option ℕ}
    {libraryExport : ℕ → List ℕ → Option Answer × List ℕ}
    (hlibrary : ∀ i visited, ∀ j ∈ visited, j ∈ (libraryExport i visited).2)
    (dylibs : List GIDylib) (visited : List ℕ) :
    ∀ j ∈ visited, j ∈ (reexportLoop carried libraryExport dylibs visited).2 := by
  induction dylibs generalizing visited with
  | nil => exact fun _ hj => hj
  | cons dylib rest ih =>
      intro j hj
      unfold reexportLoop
      split_ifs
      · exact ih visited j hj
      · split
        · exact ih visited j hj
        · rename_i through _
          have hthrough := hlibrary through visited j hj
          split
          · rename_i hanswer
            rw [hanswer] at hthrough
            exact hthrough
          · rename_i hanswer
            rw [hanswer] at hthrough
            exact ih _ j hthrough

theorem libraryExport_marked (depth i : ℕ) (symbol : CString) (shallow : Bool)
    (visited : List ℕ) : ∀ j ∈ visited,
      j ∈ (set.libraryExport fs depth i symbol shallow visited).2 := by
  induction depth generalizing i symbol shallow visited with
  | zero => exact fun _ hj => hj
  | succ depth ih =>
      intro j hj
      have hj' : j ∈ i :: visited := List.mem_cons_of_mem i hj
      unfold libraryExport
      split_ifs
      · exact hj
      · split
        · exact hj'
        · unfold imageExport
          split
          · exact hj'
          · split
            · exact hj'
            · exact ih _ _ _ _ j hj'
          all_goals
            split_ifs
            · exact hj'
            · exact reexportLoop_marked (fun k => ih k symbol false) _ _ j hj'

/-- Two searches that answer alike where not too little is visited. -/
theorem reexportLoop_congr {carried : CString → Option ℕ}
    {f g : ℕ → List ℕ → Option Answer × List ℕ} {n : ℕ}
    (hcarried : ∀ name i, carried name = some i → i < set.count)
    (hfg : ∀ i < set.count, ∀ visited, set.unvisitedCount visited < n → f i visited = g i visited)
    (hmarked : ∀ i visited, ∀ j ∈ visited, j ∈ (g i visited).2)
    (dylibs : List GIDylib) {visited : List ℕ} (hvisited : set.unvisitedCount visited < n) :
    reexportLoop carried f dylibs visited = reexportLoop carried g dylibs visited := by
  induction dylibs generalizing visited with
  | nil => rfl
  | cons dylib rest ih =>
      unfold reexportLoop
      split_ifs
      · exact ih hvisited
      · cases hthrough : carried dylib.name with
        | none => exact ih hvisited
        | some through =>
            dsimp only
            rw [hfg through (hcarried _ _ hthrough) visited hvisited]
            have hnext : set.unvisitedCount (g through visited).2 ≤ set.unvisitedCount visited :=
              unvisitedCount_mono (hmarked through visited)
            cases hanswer : g through visited with
            | mk answer visited' =>
                rw [hanswer] at hnext
                cases answer with
                | some a => rfl
                | none => exact ih (hnext.trans_lt hvisited)

theorem imageExport_congr {carried : CString → Option ℕ}
    {f g : ℕ → CString → List ℕ → Option Answer × List ℕ} {n : ℕ}
    (hcarried : ∀ name i, carried name = some i → i < set.count)
    (hfg : ∀ i < set.count, ∀ name visited, set.unvisitedCount visited < n →
      f i name visited = g i name visited)
    (hmarked : ∀ i name visited, ∀ j ∈ visited, j ∈ (g i name visited).2) (image : GuestImage)
    (slide : BitVec 64) (name symbol : CString) (shallow : Bool) {visited : List ℕ}
    (hvisited : set.unvisitedCount visited < n) :
    imageExport carried f image slide name symbol shallow visited =
      imageExport carried g image slide name symbol shallow visited := by
  have hloop := reexportLoop_congr hcarried (fun i hi => hfg i hi symbol)
    (fun i => hmarked i symbol) image.dylibs hvisited
  unfold imageExport
  cases image.giExport symbol with
  | found e => rfl
  | missing => exact congrArg (fun r => if shallow = true then (none, visited) else r) hloop
  | invalid => exact congrArg (fun r => if shallow = true then (none, visited) else r) hloop
  | reexport ordinal renamed =>
      dsimp only
      cases hdefines : (image.dylibs[ordinal - 1]?).bind fun dylib => carried dylib.name with
      | none => rfl
      | some defines =>
          obtain ⟨dylib, -, hname⟩ := Option.bind_eq_some_iff.1 hdefines
          exact hfg defines (hcarried _ _ hname) _ visited hvisited

/-- A depth of more than the libraries not visited yet is never used up. -/
theorem libraryExport_depth (depth i : ℕ) (symbol : CString) (shallow : Bool)
    {visited : List ℕ} (hi : i < set.count) (hdepth : set.unvisitedCount visited < depth) :
    set.libraryExport fs (depth + 1) i symbol shallow visited =
      set.libraryExport fs depth i symbol shallow visited := by
  induction depth generalizing i symbol shallow visited with
  | zero => exact absurd hdepth (Nat.not_lt_zero _)
  | succ depth ih =>
      rw [libraryExport, libraryExport]
      by_cases hvisited : i ∈ visited
      · rw [if_pos hvisited, if_pos hvisited]
      · rw [if_neg hvisited, if_neg hvisited]
        have hmark := Library.unvisited_mark (s := (visited, [])) (Finset.mem_range.2 hi)
          hvisited []
        have hless : set.unvisitedCount (i :: visited) < depth :=
          lt_of_lt_of_le hmark (Nat.le_of_lt_succ hdepth)
        cases set.libraries[i]? with
        | none => rfl
        | some library =>
            exact imageExport_congr (fun name j hj => carriedAs_lt hj)
              (fun j hj name visited' hlt => ih j name false hj hlt)
              (fun j name visited' => libraryExport_marked depth j name false visited') _ _ _ _ _
              hless

/-- A search never uses up a depth of more than there are libraries. -/
theorem libraryExport_fuel {depth i : ℕ} (symbol : CString) (shallow : Bool) (visited : List ℕ)
    (hdepth : set.count < depth) (hi : i < set.count) :
    set.libraryExport fs depth i symbol shallow visited =
      set.libraryExport fs (set.count + 1) i symbol shallow visited := by
  induction depth, hdepth using Nat.le_induction with
  | base => rfl
  | succ d hd ih =>
      rw [libraryExport_depth d i symbol shallow hi ((unvisitedCount_le visited).trans_lt hd), ih]

end GuestLinkSet

end Tolkara
