import Tolkara.Link.Lookup

/-!
# Lookup finds the first answer

The queries of a link set are an image and a symbol: the executable (`none`) or a carried
library by its index. A query answers with the export `gi_export` finds; a re-export in
the trie passes on to one library under a name, and an image without the symbol passes on
to the libraries it re-exports whole. `gl_lookup` is the search of that graph with the
image as key.
-/

namespace Tolkara

namespace GuestLinkSet

open AnswerGraph

/-- An image of the set, none for the executable, and a symbol. -/
abbrev Query := Option ℕ × CString

def queried (set : GuestLinkSet) : Option ℕ → Option (GuestImage × ImageRef × CString × BitVec 64 × CString)
  | none => some (set.executableImage, .executable, set.executable, set.executableSlide, glExecutable)
  | some i => set.libraries[i]?.map fun library =>
      (library.image, .library i, library.path, library.slide, library.installName)

/-- The answers of one image, and the queries it passes on to. -/
def imageAnswer (image : GuestImage) (slide : BitVec 64) (name symbol : CString) : Option Answer :=
  match image.giExport symbol with
  | .found e => some
      { value := if e.absolute then BitVec.ofNat 64 e.address
          else BitVec.ofNat 64 e.address + slide
        weak := e.weak
        name := name }
  | _ => none

def imageNext (carried : CString → Option ℕ) (image : GuestImage) (symbol : CString) : List Query :=
  match image.giExport symbol with
  | .found _ => []
  | .reexport ordinal renamed =>
    (((image.dylibs[ordinal - 1]?).bind fun dylib => carried dylib.name).map
      fun defines => ((some defines, renamed.getD symbol) : Query)).toList
  | .missing | .invalid =>
    image.dylibs.filterMap fun dylib =>
      if dylib.reexport then (carried dylib.name).map fun through => (some through, symbol)
      else none

def exportGraph (fs : FileSystem) (set : GuestLinkSet) : AnswerGraph Query Answer where
  answer q :=
    match set.queried q.1 with
    | none => none
    | some (image, _, _, slide, name) => imageAnswer image slide name q.2
  next q :=
    match set.queried q.1 with
    | none => []
    | some (image, ref, path, _, _) => imageNext (set.carriedAs fs ref path) image q.2

variable {fs : FileSystem} {set : GuestLinkSet}

theorem carriedAs_lt {image : ImageRef} {fromPath name : CString} {i : ℕ}
    (h : set.carriedAs fs image fromPath name = some i) : i < set.count := by
  unfold carriedAs at h
  split at h
  · cases h
  · exact (List.findIdx?_eq_some_iff_findIdx_eq.mp h).1

/-- Whatever a query passes on to is a carried library. -/
theorem exportGraph_next_lt {q t : Query} (h : t ∈ (exportGraph fs set).next q) :
    ∃ i < set.count, t.1 = some i := by
  simp only [exportGraph] at h
  split at h
  · exact absurd h List.not_mem_nil
  · rename_i image ref path slide name hq
    unfold imageNext at h
    split at h
    · exact absurd h List.not_mem_nil
    · rw [Option.mem_toList, Option.map_eq_some_iff] at h
      obtain ⟨i, hi, rfl⟩ := h
      obtain ⟨dylib, -, hcarried⟩ := Option.bind_eq_some_iff.mp hi
      exact ⟨i, carriedAs_lt hcarried, rfl⟩
    all_goals
      obtain ⟨dylib, -, hdylib⟩ := List.mem_filterMap.mp h
      split at hdylib
      · obtain ⟨i, hi, rfl⟩ := Option.map_eq_some_iff.mp hdylib
        exact ⟨i, carriedAs_lt hi, rfl⟩
      · cases hdylib

/-- The marks of the search: the libraries visited, and the executable when the search
began there. -/
def marks (base : List (Option ℕ)) (visited : List ℕ) : List (Option ℕ) :=
  visited.map some ++ base

theorem mem_marks {base : List (Option ℕ)} (hbase : ∀ k ∈ base, k = none) {visited : List ℕ}
    {i : ℕ} : some i ∈ marks base visited ↔ i ∈ visited := by
  unfold marks
  rw [List.mem_append, List.mem_map]
  constructor
  · rintro (⟨j, hj, hij⟩ | hmem)
    · exact Option.some.inj hij ▸ hj
    · cases hbase _ hmem
  · exact fun hi => .inl ⟨i, hi, rfl⟩

/-- Two searches with the same answer, the marks of one being those of the other. -/
def Matches (base : List (Option ℕ)) (code : Option Answer × List ℕ)
    (search : Option Answer × List (Option ℕ)) : Prop :=
  search = (code.1, marks base code.2)

theorem reexportLoop_matches {base : List (Option ℕ)} {carried : CString → Option ℕ}
    {libraryExport : ℕ → List ℕ → Option Answer × List ℕ}
    {ask : List (Option ℕ) → Query → Option Answer × List (Option ℕ)} {symbol : CString}
    (hask : ∀ i visited, Matches base (libraryExport i visited)
      (ask (marks base visited) (some i, symbol)))
    (dylibs : List GIDylib) (visited : List ℕ) :
    Matches base (reexportLoop carried libraryExport dylibs visited)
      (searchAll ask (dylibs.filterMap fun dylib =>
        if dylib.reexport then (carried dylib.name).map fun through => (some through, symbol)
        else none) (marks base visited)) := by
  induction dylibs generalizing visited with
  | nil => rfl
  | cons dylib rest ih =>
      rw [reexportLoop, List.filterMap_cons]
      cases hreexport : dylib.reexport with
      | false =>
          simp only [if_true, Bool.false_eq_true, if_false]
          exact ih visited
      | true =>
          simp only [Bool.true_eq_false, if_false, if_true]
          cases hcarried : carried dylib.name with
          | none => exact ih visited
          | some i =>
              simp only [Option.map_some]
              have hone := hask i visited
              unfold Matches at hone ih ⊢
              rw [searchAll, hone]
              cases hcode : libraryExport i visited with
              | mk answer visited' =>
                  cases answer with
                  | some a => rfl
                  | none => exact ih visited'

theorem imageExport_of_answer {carried : CString → Option ℕ}
    {libraryExport : ℕ → CString → List ℕ → Option Answer × List ℕ} {image : GuestImage}
    {slide : BitVec 64} {name symbol : CString} {a : Answer}
    (h : imageAnswer image slide name symbol = some a) (visited : List ℕ) :
    imageExport carried libraryExport image slide name symbol false visited =
      (some a, visited) := by
  unfold imageAnswer at h
  unfold imageExport
  split at h
  · rename_i e hexport
    cases h
    rw [hexport]
  · cases h

theorem imageExport_matches {base : List (Option ℕ)} {carried : CString → Option ℕ}
    {libraryExport : ℕ → CString → List ℕ → Option Answer × List ℕ}
    {ask : List (Option ℕ) → Query → Option Answer × List (Option ℕ)}
    (hask : ∀ i name visited, Matches base (libraryExport i name visited)
      (ask (marks base visited) (some i, name)))
    {image : GuestImage} {slide : BitVec 64} {name symbol : CString}
    (h : imageAnswer image slide name symbol = none) (visited : List ℕ) :
    Matches base (imageExport carried libraryExport image slide name symbol false visited)
      (searchAll ask (imageNext carried image symbol) (marks base visited)) := by
  unfold imageAnswer at h
  unfold imageExport imageNext
  cases hexport : image.giExport symbol with
  | found e =>
      rw [hexport] at h
      cases h
  | missing => exact reexportLoop_matches (fun i => hask i symbol) image.dylibs visited
  | invalid => exact reexportLoop_matches (fun i => hask i symbol) image.dylibs visited
  | reexport ordinal renamed =>
      dsimp only
      cases hcarried : (image.dylibs[ordinal - 1]?).bind fun dylib => carried dylib.name with
      | none => rfl
      | some i =>
          have hone := hask i (renamed.getD symbol) visited
          unfold Matches at hone ⊢
          rw [Option.map_some, Option.toList_some, searchAll, hone]
          dsimp only
          cases hcode : libraryExport i (renamed.getD symbol) visited with
          | mk answer visited' =>
              cases answer with
              | some a => rfl
              | none => rfl

theorem marks_cons (base : List (Option ℕ)) (i : ℕ) (visited : List ℕ) :
    some i :: marks base visited = marks base (i :: visited) := rfl

theorem libraryExport_matches {base : List (Option ℕ)} (hbase : ∀ k ∈ base, k = none)
    (depth i : ℕ) (symbol : CString) (visited : List ℕ) :
    Matches base (set.libraryExport fs depth i symbol false visited)
      ((exportGraph fs set).search Prod.fst depth (marks base visited) (some i, symbol)) := by
  induction depth generalizing i symbol visited with
  | zero => rfl
  | succ depth ih =>
      rw [libraryExport, search]
      by_cases hvisited : i ∈ visited
      · rw [if_pos hvisited, if_pos ((mem_marks hbase).mpr hvisited)]
        rfl
      · rw [if_neg hvisited, if_neg (fun h => hvisited ((mem_marks hbase).mp h)), marks_cons]
        cases hlibrary : set.libraries[i]? with
        | none =>
            simp only [exportGraph, queried, hlibrary, Option.map_none]
            rfl
        | some library =>
            simp only [exportGraph, queried, hlibrary, Option.map_some]
            cases hanswer : imageAnswer library.image library.slide library.installName symbol with
            | some a =>
                rw [imageExport_of_answer hanswer]
                rfl
            | none => exact imageExport_matches (fun j name => ih j name) hanswer (i :: visited)

theorem executableExport_matches (symbol : CString) :
    Matches [none] (set.executableExport fs symbol false [])
      ((exportGraph fs set).search Prod.fst (set.count + 2) [] (none, symbol)) := by
  have hbase : ∀ k ∈ [(none : Option ℕ)], k = none := fun k hk => List.mem_singleton.mp hk
  have hmarks : [(none : Option ℕ)] = marks [none] [] := rfl
  rw [executableExport, search, if_neg List.not_mem_nil, hmarks]
  simp only [exportGraph, queried]
  cases hanswer : imageAnswer set.executableImage set.executableSlide glExecutable symbol with
  | some a =>
      rw [imageExport_of_answer hanswer]
      rfl
  | none =>
      exact imageExport_matches (fun j name => libraryExport_matches hbase (set.count + 1) j name)
        hanswer []

theorem flatLoop_eq {base : List (Option ℕ)} (hbase : ∀ k ∈ base, k = none) (symbol : CString)
    (libraries visited : List ℕ) :
    flatLoop fs set symbol libraries visited =
      (searchAll ((exportGraph fs set).search Prod.fst (set.count + 2))
        (libraries.map fun i => (some i, symbol)) (marks base visited)).1 := by
  induction libraries generalizing visited with
  | nil => rfl
  | cons i rest ih =>
      have hone : Matches base (set.libraryLookup fs i symbol false visited) _ :=
        libraryExport_matches hbase (set.count + 2) i symbol visited
      unfold Matches at hone
      rw [flatLoop, List.map_cons, searchAll, hone]
      cases hcode : set.libraryLookup fs i symbol false visited with
      | mk answer visited' =>
          cases answer with
          | some a => rfl
          | none => exact ih visited'

variable (fs set) in
/-- The queries a bind asks, in order. -/
def lookupRoots (image : ImageRef) (fromPath : CString) (ordinal : ℤ) (symbol : CString) :
    List Query :=
  if 0 < ordinal then
    (((((set.imageOf image).map (·.dylibs)).getD [])[ordinal.toNat - 1]?).bind
      (fun dylib => set.carriedAs fs image fromPath dylib.name)).toList.map
        fun named => (some named, symbol)
  else if ordinal = -1 then [(none, symbol)]
  else if ordinal = 0 then
    match image with
    | .executable => [(none, symbol)]
    | .library i => if i < set.count then [(some i, symbol)] else []
    | .other _ => []
  else if ordinal = -2 then (none, symbol) :: (List.range set.count).map fun i => (some i, symbol)
  else []

theorem libraryLookup_eq (i : ℕ) (symbol : CString) :
    (set.libraryLookup fs i symbol false []).1 =
      (searchAll ((exportGraph fs set).search Prod.fst (set.count + 2)) [(some i, symbol)] []).1 := by
  have hbase : ∀ k ∈ ([] : List (Option ℕ)), k = none := fun k hk => absurd hk List.not_mem_nil
  have hone : Matches [] (set.libraryLookup fs i symbol false []) _ :=
    libraryExport_matches hbase (set.count + 2) i symbol []
  rw [searchAll_singleton]
  exact (congrArg Prod.fst hone).symm

theorem executableExport_eq (symbol : CString) :
    (set.executableExport fs symbol false []).1 =
      (searchAll ((exportGraph fs set).search Prod.fst (set.count + 2)) [(none, symbol)] []).1 := by
  rw [searchAll_singleton]
  exact (congrArg Prod.fst (executableExport_matches symbol)).symm

/-- A lookup that is not for a weak definition is the search of its queries. -/
theorem glLookup_eq (image : ImageRef) (fromPath : CString) {ordinal : ℤ} (hweak : ordinal ≠ -3)
    (symbol : CString) :
    set.glLookup fs image fromPath ordinal symbol =
      (searchAll ((exportGraph fs set).search Prod.fst (set.count + 2))
        (lookupRoots fs set image fromPath ordinal symbol) []).1 := by
  unfold glLookup lookupRoots
  split_ifs
  · cases hnamed : ((((set.imageOf image).map (·.dylibs)).getD [])[ordinal.toNat - 1]?).bind
        (fun dylib => set.carriedAs fs image fromPath dylib.name) with
    | none => rfl
    | some named => exact libraryLookup_eq named symbol
  · exact executableExport_eq symbol
  · cases image with
    | executable => exact executableExport_eq symbol
    | library i =>
        dsimp only
        split_ifs with hi
        · exact libraryLookup_eq i symbol
        · have hnone : set.libraries[i]? = none := List.getElem?_eq_none (not_lt.mp hi)
          rw [libraryLookup, libraryExport, if_neg List.not_mem_nil, hnone]
          rfl
    | other image => rfl
  · have hone : Matches [none] (set.executableExport fs symbol false []) _ :=
      executableExport_matches symbol
    unfold Matches at hone
    rw [searchAll, hone]
    cases hcode : set.executableExport fs symbol false [] with
    | mk answer visited' =>
        cases answer with
        | some a => rfl
        | none =>
            exact flatLoop_eq (fun k hk => List.mem_singleton.mp hk) symbol
              (List.range set.count) visited'
  · rfl

def imageKeys (set : GuestLinkSet) : Finset (Option ℕ) :=
  insert none ((Finset.range set.count).image some)

theorem some_mem_imageKeys {i : ℕ} (hi : i < set.count) : some i ∈ set.imageKeys :=
  Finset.mem_insert_of_mem (Finset.mem_image_of_mem some (Finset.mem_range.mpr hi))

theorem none_mem_imageKeys : none ∈ set.imageKeys := Finset.mem_insert_self _ _

theorem card_imageKeys : set.imageKeys.card < set.count + 2 := by
  have hinsert := Finset.card_insert_le none ((Finset.range set.count).image some)
  have himage : ((Finset.range set.count).image (some : ℕ → Option ℕ)).card ≤ set.count := by
    simpa using Finset.card_image_le (s := Finset.range set.count) (f := (some : ℕ → Option ℕ))
  unfold imageKeys
  omega

theorem lookupRoots_mem {image : ImageRef} {fromPath : CString} {ordinal : ℤ} {symbol : CString}
    {q : Query} (h : q ∈ lookupRoots fs set image fromPath ordinal symbol) :
    q.1 ∈ set.imageKeys := by
  have hexecutable : ∀ {q : Query}, q ∈ [((none, symbol) : Query)] → q.1 ∈ set.imageKeys := by
    intro q hq
    rw [List.mem_singleton.mp hq]
    exact none_mem_imageKeys
  unfold lookupRoots at h
  split_ifs at h
  · obtain ⟨i, hi, rfl⟩ := List.mem_map.mp h
    obtain ⟨dylib, -, hcarried⟩ := Option.bind_eq_some_iff.mp (Option.mem_toList.mp hi)
    exact some_mem_imageKeys (carriedAs_lt hcarried)
  · exact hexecutable h
  · cases image with
    | executable => exact hexecutable h
    | library i =>
        dsimp only at h
        split_ifs at h with hi
        · rw [List.mem_singleton.mp h]
          exact some_mem_imageKeys hi
        · exact absurd h List.not_mem_nil
    | other image => exact absurd h List.not_mem_nil
  · rcases List.mem_cons.mp h with rfl | hmem
    · exact none_mem_imageKeys
    · obtain ⟨i, hi, rfl⟩ := List.mem_map.mp hmem
      exact some_mem_imageKeys (List.mem_range.mp hi)
  · exact absurd h List.not_mem_nil

theorem met_mem_imageKeys {roots : List Query} (hroots : ∀ q ∈ roots, q.1 ∈ set.imageKeys)
    {passed : List Query} {q : Query} (h : (exportGraph fs set).Met roots passed q) :
    q.1 ∈ set.imageKeys := by
  cases h with
  | root hcut hbefore =>
      refine hroots q ?_
      rw [hcut]
      exact List.mem_append_right _ List.mem_cons_self
  | @next passed before after p _ hmet hpassed hanswer hnext hbefore =>
      have hmem : q ∈ (exportGraph fs set).next p := by
        rw [hnext]
        exact List.mem_append_right _ List.mem_cons_self
      obtain ⟨i, hi, hq⟩ := exportGraph_next_lt hmem
      rw [hq]
      exact some_mem_imageKeys hi

/-- **Lookup across re-exports.** When no library comes up under two names, a lookup that
is not for a weak definition answers exactly when one of the images it asks has an answer,
with the first answer of the first such image. -/
theorem glLookup_first {image : ImageRef} {fromPath : CString} {ordinal : ℤ} {symbol : CString}
    (hweak : ordinal ≠ -3)
    (hsingle : (exportGraph fs set).SingleKeyed Prod.fst
      (lookupRoots fs set image fromPath ordinal symbol)) :
    ((set.glLookup fs image fromPath ordinal symbol).isSome = true ↔
      ∃ q ∈ lookupRoots fs set image fromPath ordinal symbol, (exportGraph fs set).Reaches q) ∧
    (∀ a, set.glLookup fs image fromPath ordinal symbol = some a ↔
      (exportGraph fs set).FirstAnswer (lookupRoots fs set image fromPath ordinal symbol) a) ∧
    (∀ before q after a, lookupRoots fs set image fromPath ordinal symbol = before ++ q :: after →
      (∀ p ∈ before, ¬ (exportGraph fs set).Reaches p) → (exportGraph fs set).AnswersFirst q a →
      set.glLookup fs image fromPath ordinal symbol = some a) := by
  have hkeys : ∀ passed q,
      (exportGraph fs set).Met (lookupRoots fs set image fromPath ordinal symbol) passed q →
      q.1 ∈ set.imageKeys :=
    fun passed q hmet => met_mem_imageKeys (fun q hq => lookupRoots_mem hq) hmet
  have hfirst := searchAll_eq_some_iff hsingle hkeys card_imageKeys
  rw [glLookup_eq image fromPath hweak symbol]
  refine ⟨searchAll_isSome_iff hsingle hkeys card_imageKeys, hfirst, ?_⟩
  intro before q after a hcut hbefore hanswer
  refine (hfirst a).mpr ⟨before, q, after, hcut, fun p hp hlead => ?_, hanswer.answers⟩
  exact hbefore p hp hlead.reaches

def carriedAt (image : GuestImage) (letter : String) : GuestLibrary :=
  { image := image
    path := ascii "/r/a/" ++ ascii letter
    installName := ascii "@executable_path/" ++ ascii letter
    loader := glMaxLibraries
    slide := 0 }

/-- The libraries of an executable in `/r/a` that exports nothing. -/
def setOf (libraries : List GuestLibrary) : GuestLinkSet :=
  { libraries := libraries
    refused := 0
    root := ascii "/r/a"
    executable := ascii "/r/a/x"
    executableImage := GuestImage.empty
    executableSlide := 0 }

/-- One export, the symbol `s` at the absolute address 7. -/
def exportingImage : GuestImage := { GuestImage.empty with exports := [0, 1, 115, 0, 5, 2, 2, 7, 0] }

/-- One export, the symbol `s` re-exported as `t` from the library with this letter. -/
def renamingImage (letter : String) : GuestImage :=
  { GuestImage.empty with
    exports := [0, 1, 115, 0, 5, 4, 8, 1, 116, 0, 0]
    dylibs := [⟨ascii "@executable_path/" ++ ascii letter, false⟩] }

/-- One library re-exports `s` from the second as `t`; the second has none and re-exports the
third whole; the third has `t` at the absolute address 7. -/
def passingSet : GuestLinkSet :=
  setOf
    [carriedAt (renamingImage "m") "l",
      carriedAt { GuestImage.empty with dylibs := [⟨ascii "@executable_path/n", true⟩] } "m",
      carriedAt { GuestImage.empty with exports := [0, 1, 116, 0, 5, 2, 2, 7, 0] } "n"]

/-- What comes up when `s` is looked up flat. -/
def passingQueries : List Query :=
  [(none, ascii "s"), (some 0, ascii "s"), (some 1, ascii "t"), (some 2, ascii "t")]

/-- The answers and the edges of these queries, and what the code makes of them. -/
theorem passingSet_graph :
    (∀ p ∈ passingQueries, (exportGraph fixtureFiles passingSet).answer p = none →
      ∀ t ∈ (exportGraph fixtureFiles passingSet).next p, t ∈ passingQueries) ∧
    ((exportGraph fixtureFiles passingSet).answer (some 0, ascii "s") = none ∧
      (some 1, ascii "t") ∈ (exportGraph fixtureFiles passingSet).next (some 0, ascii "s")) ∧
    ((exportGraph fixtureFiles passingSet).answer (some 1, ascii "t") = none ∧
      (some 2, ascii "t") ∈ (exportGraph fixtureFiles passingSet).next (some 1, ascii "t")) ∧
    (exportGraph fixtureFiles passingSet).answer (some 2, ascii "t") =
      some { value := 7, weak := false, name := ascii "@executable_path/n" } ∧
    passingSet.glLookup fixtureFiles .executable (ascii "/r/a/x") (-2) (ascii "s") =
      some { value := 7, weak := false, name := ascii "@executable_path/n" } := by
  decide

theorem passingSet_leads : (exportGraph fixtureFiles passingSet).Leads [] (some 0, ascii "s") := by
  obtain ⟨-, ⟨hs, hnext⟩, ⟨ht, hnext'⟩, hanswer, -⟩ := passingSet_graph
  exact leads_nil_iff.mpr (.through hs hnext (.through ht hnext' (.found hanswer)))

theorem passingSet_single : (exportGraph fixtureFiles passingSet).SingleKeyed Prod.fst
    (lookupRoots fixtureFiles passingSet .executable (ascii "/r/a/x") (-2) (ascii "s")) :=
  .of_nodes passingQueries [(none, ascii "s")] [(some 1, ascii "s"), (some 2, ascii "s")]
    (by simp [passingQueries]) rfl passingSet_leads (by simp [passingQueries]) passingSet_graph.1

theorem glLookup_first_passing :
    (passingSet.glLookup fixtureFiles .executable (ascii "/r/a/x") (-2) (ascii "s") =
        some { value := 7, weak := false, name := ascii "@executable_path/n" }) ∧
      (exportGraph fixtureFiles passingSet).FirstAnswer
        (lookupRoots fixtureFiles passingSet .executable (ascii "/r/a/x") (-2) (ascii "s"))
        { value := 7, weak := false, name := ascii "@executable_path/n" } :=
  ⟨passingSet_graph.2.2.2.2,
    ((glLookup_first (by decide) passingSet_single).2.1 _).mp passingSet_graph.2.2.2.2⟩

/-- A library that exports `s`, and an executable that re-exports `s` from it as `t`. -/
def renamingSet : GuestLinkSet :=
  { setOf [carriedAt exportingImage "l"] with executableImage := renamingImage "l" }

/-- A flat lookup of `s`: the executable passes on to `t` of the library, which has none,
and marks the library, so that its own `s` is not asked for. -/
theorem glLookup_hidden :
    ¬ ((renamingSet.glLookup fixtureFiles .executable (ascii "/r/a/x") (-2) (ascii "s")).isSome =
      true ↔
      ∃ q ∈ lookupRoots fixtureFiles renamingSet .executable (ascii "/r/a/x") (-2) (ascii "s"),
        (exportGraph fixtureFiles renamingSet).Reaches q) := by
  have hgraph : (renamingSet.glLookup fixtureFiles .executable (ascii "/r/a/x") (-2)
      (ascii "s")).isSome = false ∧
      (exportGraph fixtureFiles renamingSet).answer (some 0, ascii "s") =
        some { value := 7, weak := false, name := ascii "@executable_path/l" } ∧
      (some 0, ascii "s") ∈
        lookupRoots fixtureFiles renamingSet .executable (ascii "/r/a/x") (-2) (ascii "s") := by
    decide
  obtain ⟨hnone, hanswer, hroot⟩ := hgraph
  intro hiff
  have hsome := hiff.mpr ⟨(some 0, ascii "s"), hroot, .found hanswer⟩
  rw [hnone] at hsome
  cases hsome

end GuestLinkSet

end Tolkara
