import Tolkara.Link.Basic

/-!
# What is carried lies in the application folder

At every moment of `gl_load` and of a `gl_carry` after it the carried libraries are
distinct regular files below the application folder, each named by an earlier one or by
the executable. Since a loader comes before what it loads, the chain of loaders of an
image ends with the executable within the steps `gl_resolve` takes, and an `@rpath` name
is searched along the whole of it.
-/

namespace Tolkara

theorem inside_iff {root path : CString} :
    inside root path = true ↔
      ∃ tail, path = root ++ tail ∧ (tail = [] ∨ tail.head? = some slash) := by
  unfold inside
  rw [Bool.and_eq_true, Bool.or_eq_true, List.isPrefixOf_iff_prefix, List.isEmpty_iff, beq_iff_eq]
  constructor
  · rintro ⟨⟨tail, rfl⟩, h⟩
    rw [List.drop_left] at h
    exact ⟨tail, rfl, h⟩
  · rintro ⟨tail, rfl, h⟩
    rw [List.drop_left]
    exact ⟨List.prefix_append root tail, h⟩

theorem inside_trans {outer root path : CString} (h : inside outer root = true)
    (h' : inside root path = true) : inside outer path = true := by
  rw [inside_iff] at h h' ⊢
  obtain ⟨tail, rfl, htail⟩ := h
  obtain ⟨tail', rfl, htail'⟩ := h'
  refine ⟨tail ++ tail', List.append_assoc _ _ _, ?_⟩
  cases tail with
  | nil => exact htail'
  | cons c rest => exact .inr (htail.resolve_left (List.cons_ne_nil c rest))

theorem lastSlash_spec {path : CString} {i : ℕ} (h : lastSlash path = some i) :
    path[i]? = some slash := by
  induction path generalizing i with
  | nil => cases h
  | cons c rest ih =>
      rw [lastSlash] at h
      cases hrest : lastSlash rest with
      | some j =>
          rw [hrest] at h
          cases h
          exact ih hrest
      | none =>
          rw [hrest] at h
          dsimp only at h
          split at h
          · rename_i hc
            cases h
            rw [hc]
            rfl
          · cases h

theorem lastOccurrence_spec {text path : CString} {i : ℕ}
    (h : lastOccurrence text path = some i) : text <+: path.drop i := by
  induction path generalizing i with
  | nil => cases h
  | cons c rest ih =>
      rw [lastOccurrence] at h
      cases hrest : lastOccurrence text rest with
      | some j =>
          rw [hrest] at h
          cases h
          exact ih hrest
      | none =>
          rw [hrest] at h
          dsimp only at h
          split at h
          · rename_i hc
            cases h
            exact List.isPrefixOf_iff_prefix.mp hc
          · cases h

namespace FileSystem

variable (fs : FileSystem)

theorem isRegular_before_slash {p r : CString} {i : ℕ} (h : fs.realpath p = some r)
    (hi : r[i]? = some slash) : fs.isRegular (r.take (min i (pathMax - 1))) = false := by
  have hlength := fs.length_realpath h
  obtain ⟨hbound, -⟩ := List.getElem?_eq_some_iff.mp hi
  rw [min_eq_left (by omega)]
  exact fs.isRegular_take h hi

theorem isRegular_ownFolder {p r : CString} (h : fs.realpath p = some r) :
    fs.isRegular (ownFolder r pathMax) = false := by
  unfold ownFolder
  cases hbundle : lastOccurrence (ascii "/Contents/MacOS/") r with
  | some i =>
      refine fs.isRegular_before_slash h ?_
      obtain ⟨tail, htail⟩ := lastOccurrence_spec hbundle
      rw [← List.head?_drop, ← htail]
      rfl
  | none =>
      dsimp only
      unfold directoryOf
      cases hslash : lastSlash r with
      | none => exact fs.isRegular_dot
      | some i =>
          cases i with
          | zero => exact fs.isRegular_slash
          | succ i => exact fs.isRegular_before_slash h (lastSlash_spec hslash)

/-- A folder around a resolved one is a folder. -/
theorem isRegular_outer {p root outer : CString} (h : fs.realpath p = some root)
    (hfolder : fs.isRegular root = false) (hinside : inside outer root = true) :
    fs.isRegular outer = false := by
  obtain ⟨tail, rfl, htail⟩ := inside_iff.mp hinside
  rcases htail with rfl | htail
  · rw [List.append_nil] at hfolder
    exact hfolder
  · have hslash : (outer ++ tail)[outer.length]? = some slash := by
      rw [← List.head?_drop, List.drop_left, htail]
    have hbefore := fs.isRegular_take h hslash
    rw [List.take_left] at hbefore
    exact hbefore

end FileSystem

namespace GuestLinkSet

variable {fs : FileSystem} {giLoadLibrary : CString → Option GuestImage}

/-- What holds of the carried libraries at every moment: they are distinct regular files
strictly inside the application folder, and each was named by an earlier one or by the
executable. The folder is a resolved one. -/
structure Contained (fs : FileSystem) (set : GuestLinkSet) : Prop where
  distinct : (set.libraries.map (·.path)).Nodup
  regular : ∀ library ∈ set.libraries, fs.isRegular library.path = true
  within : ∀ library ∈ set.libraries,
    inside set.root library.path = true ∧ library.path ≠ set.root
  loader : ∀ (i : ℕ) (library : GuestLibrary), set.libraries[i]? = some library →
    library.loader < i ∨ library.loader = glMaxLibraries
  full : set.count ≤ glMaxLibraries
  folder : fs.isRegular set.root = false
  resolved : ∃ p, fs.realpath p = some set.root

/-- Loaders come before what they load, in a list that is not overfull. -/
structure Ordered (set : GuestLinkSet) : Prop where
  loader : ∀ (i : ℕ) (library : GuestLibrary), set.libraries[i]? = some library →
    library.loader < i ∨ library.loader = glMaxLibraries
  full : set.count ≤ glMaxLibraries

theorem Contained.ordered {set : GuestLinkSet} (h : set.Contained fs) : set.Ordered :=
  ⟨h.loader, h.full⟩

theorem accept_spec {set : GuestLinkSet} {candidate out : CString}
    (h : set.accept fs candidate = some out) :
    fs.realpath candidate = some out ∧ fs.isRegular out = true ∧ inside set.root out = true := by
  unfold accept at h
  cases hreal : fs.realpath candidate with
  | none =>
      rw [hreal] at h
      cases h
  | some resolved =>
      rw [hreal] at h
      dsimp only at h
      split at h
      · rename_i hok
        cases h
        exact ⟨rfl, hok.1, hok.2.1⟩
      · cases h

theorem tryRpath_spec {set : GuestLinkSet} {path name rpath out : CString}
    (h : set.tryRpath fs path name rpath = some out) :
    ∃ candidate, set.accept fs candidate = some out := by
  unfold tryRpath at h
  split at h
  · cases h
  · split at h
    · exact ⟨_, h⟩
    · cases h

theorem rpathLoop_spec {set : GuestLinkSet} {name out : CString} {steps : ℕ} {image : ImageRef}
    {path : CString} (h : set.rpathLoop fs name steps image path = some out) :
    ∃ candidate, set.accept fs candidate = some out := by
  induction steps generalizing image path with
  | zero => cases h
  | succ steps ih =>
      rw [rpathLoop] at h
      split at h
      · rename_i out' hfound
        cases h
        obtain ⟨rpath, -, hrpath⟩ := List.exists_of_findSome?_eq_some hfound
        exact tryRpath_spec hrpath
      · split at h
        · cases h
        · split at h
          · exact ih h
          · exact ih h

/-- A name that resolves is the real path of a regular file inside the folder. -/
theorem glResolve_spec {set : GuestLinkSet} {image : ImageRef} {fromPath name out : CString}
    (h : set.glResolve fs image fromPath name = some out) :
    (∃ candidate, fs.realpath candidate = some out) ∧ fs.isRegular out = true ∧
      inside set.root out = true := by
  have haccept : ∃ candidate, set.accept fs candidate = some out := by
    unfold glResolve at h
    split at h
    · exact rpathLoop_spec h
    · split at h
      · cases h
      · exact ⟨_, h⟩
  obtain ⟨candidate, hcandidate⟩ := haccept
  obtain ⟨hreal, hregular, hinside⟩ := accept_spec hcandidate
  exact ⟨⟨candidate, hreal⟩, hregular, hinside⟩

theorem not_mem_of_not_knownPath {set : GuestLinkSet} {path : CString}
    (h : ¬ set.knownPath path = true) : path ∉ set.libraries.map (·.path) := by
  intro hmem
  obtain ⟨library, hlibrary, rfl⟩ := List.mem_map.mp hmem
  exact h (List.any_eq_true.mpr ⟨library, hlibrary, beq_self_eq_true _⟩)

/-- One library more keeps the set contained. -/
theorem Contained.add {set : GuestLinkSet} (h : set.Contained fs) {path installName : CString}
    {loader : ℕ} {image : GuestImage} (hregular : fs.isRegular path = true)
    (hinside : inside set.root path = true) (hnew : path ∉ set.libraries.map (·.path))
    (hloader : loader < set.count ∨ loader = glMaxLibraries) (hfull : set.count ≠ glMaxLibraries) :
    Contained fs { set with
      libraries := set.libraries ++
        [{ image := image, path := path, installName := installName, loader := loader,
           slide := 0 }] } := by
  have hroot : path ≠ set.root := by
    rintro rfl
    rw [h.folder] at hregular
    cases hregular
  refine ⟨?_, ?_, ?_, ?_, ?_, h.folder, h.resolved⟩
  · rw [List.map_append]
    refine List.nodup_append.mpr ⟨h.distinct, List.nodup_singleton _, ?_⟩
    intro a ha b hb hab
    have hb' : b = path := List.mem_singleton.mp hb
    rw [hab, hb'] at ha
    exact hnew ha
  · intro library hlibrary
    rcases List.mem_append.mp hlibrary with hold | hadded
    · exact h.regular library hold
    · rw [List.mem_singleton.mp hadded]
      exact hregular
  · intro library hlibrary
    rcases List.mem_append.mp hlibrary with hold | hadded
    · exact h.within library hold
    · rw [List.mem_singleton.mp hadded]
      exact ⟨hinside, hroot⟩
  · intro i library hi
    rcases lt_or_ge i set.libraries.length with hlt | hge
    · rw [List.getElem?_append_left hlt] at hi
      exact h.loader i library hi
    · rw [List.getElem?_append_right hge] at hi
      obtain ⟨hbound, rfl⟩ := List.getElem?_eq_some_iff.mp hi
      rw [List.getElem_singleton]
      rcases hloader with hlt | hmax
      · exact .inl (lt_of_lt_of_le hlt hge)
      · exact .inr hmax
  · have hle := h.full
    have hcount : set.libraries.length < glMaxLibraries := lt_of_le_of_ne hle hfull
    show (set.libraries ++ [_]).length ≤ glMaxLibraries
    rw [List.length_append, List.length_singleton]
    exact hcount

/-- `carry` keeps the set contained, and never drops a library. -/
theorem carry_contained {set : GuestLinkSet} {loader : ℕ} {path installName : CString}
    (h : set.Contained fs ∧ (loader < set.count ∨ loader = glMaxLibraries))
    (hregular : fs.isRegular path = true) (hinside : inside set.root path = true)
    (hnew : path ∉ set.libraries.map (·.path)) :
    Walk.Holds (fun s => s.Contained fs ∧ (loader < s.count ∨ loader = glMaxLibraries))
      (set.carry giLoadLibrary path installName loader) := by
  have hrefused : ({ set with refused := set.refused + 1 } : GuestLinkSet).Contained fs :=
    ⟨h.1.distinct, h.1.regular, h.1.within, h.1.loader, h.1.full, h.1.folder, h.1.resolved⟩
  unfold carry
  split
  · exact ⟨h, fun _ hs => absurd hs List.not_mem_nil⟩
  · rename_i hfull
    split
    · exact Walk.holds_change (And.intro hrefused h.2)
    · split
      · exact Walk.holds_change (And.intro hrefused h.2)
      · refine Walk.holds_change ⟨h.1.add hregular hinside hnew h.2 hfull, ?_⟩
        rcases h.2 with hlt | hmax
        · refine .inl (lt_of_lt_of_le hlt ?_)
          show set.libraries.length ≤ (set.libraries ++ [_]).length
          rw [List.length_append]
          exact Nat.le_add_right _ _
        · exact .inr hmax

theorem carriedByLoop_contained {image : ImageRef} {fromPath : CString} {loader : ℕ}
    (dylibs : List GIDylib) {set : GuestLinkSet}
    (h : set.Contained fs ∧ (loader < set.count ∨ loader = glMaxLibraries)) :
    Walk.Holds (fun s => s.Contained fs ∧ (loader < s.count ∨ loader = glMaxLibraries))
      (carriedByLoop fs giLoadLibrary image fromPath loader dylibs set) := by
  induction dylibs generalizing set with
  | nil => exact Walk.holds_done h
  | cons dylib rest ih =>
      rw [carriedByLoop]
      split
      · exact ih h
      · rename_i path hpath
        obtain ⟨-, hregular, hinside⟩ := glResolve_spec hpath
        split
        · exact ih h
        · rename_i hnew
          exact (carry_contained h hregular hinside (not_mem_of_not_knownPath hnew)).andThen
            (fun s hs => ih hs)

def Has (set : GuestLinkSet) : ImageRef → Prop
  | .executable => True
  | .library i => i < set.count
  | .other _ => False

theorem Has.loaderIndex {set : GuestLinkSet} {image : ImageRef} (h : set.Has image) :
    GuestLinkSet.loaderIndex image < set.count ∨
      GuestLinkSet.loaderIndex image = glMaxLibraries := by
  cases image with
  | executable => exact .inr rfl
  | library i => exact .inl h
  | other image => exact h.elim

theorem carriedBy_contained {set : GuestLinkSet} {image : ImageRef} (h : set.Contained fs)
    (himage : set.Has image) :
    Walk.Holds (fun s => s.Contained fs) (set.carriedBy fs giLoadLibrary image) := by
  have hloop : Walk.Holds (fun s => s.Contained fs ∧ (GuestLinkSet.loaderIndex image < s.count ∨
      GuestLinkSet.loaderIndex image = glMaxLibraries)) (set.carriedBy fs giLoadLibrary image) :=
    carriedByLoop_contained _ ⟨h, himage.loaderIndex⟩
  exact ⟨hloop.1.1, fun s hs => (hloop.2 s hs).1⟩

theorem eachLibrary_contained (rounds i : ℕ) {set : GuestLinkSet} (h : set.Contained fs) :
    Walk.Holds (fun s => s.Contained fs) (eachLibrary fs giLoadLibrary rounds i set) := by
  induction rounds generalizing i set with
  | zero => exact Walk.holds_done h
  | succ rounds ih =>
      rw [eachLibrary]
      split
      · rename_i hi
        have himage : set.Has (.library i) := hi
        exact (carriedBy_contained h himage).andThen (fun s hs => ih (i + 1) hs)
      · exact Walk.holds_done h

theorem start_contained {executable : GuestImage} {path : CString} {set : GuestLinkSet}
    (h : start fs executable path = .ok set) : set.Contained fs := by
  unfold start at h
  split at h
  · cases h
  · rename_i resolved hresolved
    split at h
    · cases h
    · rename_i root hroot
      cases h
      refine ⟨List.nodup_nil, ?_, ?_, ?_, Nat.zero_le _, ?_, ⟨_, hroot⟩⟩
      · intro library hlibrary
        exact absurd hlibrary List.not_mem_nil
      · intro library hlibrary
        exact absurd hlibrary List.not_mem_nil
      · intro i library hi
        cases hi
      · show fs.isRegular root = false
        rw [fs.isRegular_realpath hroot]
        exact fs.isRegular_ownFolder hresolved

theorem load_contained {set : GuestLinkSet} (h : set.Contained fs) :
    Walk.Holds (fun s => s.Contained fs) (set.load fs giLoadLibrary) := by
  have himage : set.Has .executable := trivial
  exact (carriedBy_contained h himage).andThen
    (fun _ hs => eachLibrary_contained glMaxLibraries 0 hs)

theorem widen_contained {set : GuestLinkSet} (h : set.Contained fs) (root : Option CString) :
    Walk.Holds (fun s => s.Contained fs) (set.widen fs root) := by
  cases root with
  | none => exact Walk.holds_done h
  | some root =>
      rw [widen]
      split
      · exact Walk.holds_stop h _
      · rename_i resolved hresolved
        split
        · rename_i hinside
          obtain ⟨p, hp⟩ := h.resolved
          have hfolder := fs.isRegular_outer hp h.folder hinside
          refine Walk.holds_change ⟨h.distinct, h.regular, ?_, h.loader, h.full, hfolder,
            ⟨root, hresolved⟩⟩
          intro library hlibrary
          refine ⟨inside_trans hinside (h.within library hlibrary).1, fun heq => ?_⟩
          have hregular := h.regular library hlibrary
          rw [heq, hfolder] at hregular
          cases hregular
        · exact Walk.holds_stop h _

theorem carryPaths_contained (paths : List CString) {set : GuestLinkSet} (h : set.Contained fs) :
    Walk.Holds (fun s => s.Contained fs) (carryPaths fs giLoadLibrary paths set) := by
  induction paths generalizing set with
  | nil => exact Walk.holds_done h
  | cons path rest ih =>
      rw [carryPaths]
      split
      · exact Walk.holds_stop h _
      · split
        · exact Walk.holds_stop h _
        · rename_i resolved hresolved
          obtain ⟨-, hregular, hinside⟩ := accept_spec hresolved
          split
          · exact ih h
          · rename_i hnew
            have hcarry : Walk.Holds (fun s => s.Contained fs ∧
                (glMaxLibraries < s.count ∨ glMaxLibraries = glMaxLibraries))
                (set.carry giLoadLibrary resolved resolved glMaxLibraries) :=
              carry_contained ⟨h, .inr rfl⟩ hregular hinside (not_mem_of_not_knownPath hnew)
            refine Walk.Holds.andThen ⟨hcarry.1.1, fun s hs => (hcarry.2 s hs).1⟩ ?_
            exact fun s hs => ih hs

theorem glCarry_contained {set : GuestLinkSet} (h : set.Contained fs) (root : Option CString)
    (paths : List CString) :
    Walk.Holds (fun s => s.Contained fs) (set.glCarry fs giLoadLibrary root paths) :=
  (widen_contained h root).andThen fun _ hs =>
    (carryPaths_contained paths hs).andThen fun _ hs' =>
      eachLibrary_contained (glMaxLibraries - set.count) set.count hs'

inductive LoaderChain (set : GuestLinkSet) : ImageRef → List ImageRef → Prop
  | executable : LoaderChain set .executable [.executable]
  | named {i : ℕ} {library : GuestLibrary} : set.libraries[i]? = some library →
      library.loader = glMaxLibraries → LoaderChain set (.library i) [.library i, .executable]
  | loaded {i : ℕ} {library : GuestLibrary} {chain : List ImageRef} :
      set.libraries[i]? = some library → LoaderChain set (.library library.loader) chain →
      LoaderChain set (.library i) (.library i :: chain)

theorem LoaderChain.head {set : GuestLinkSet} {image : ImageRef} {chain : List ImageRef}
    (h : LoaderChain set image chain) : ∃ rest, chain = image :: rest := by
  cases h with
  | executable => exact ⟨_, rfl⟩
  | named hi hloader => exact ⟨_, rfl⟩
  | loaded hi hchain => exact ⟨_, rfl⟩

/-- Every image of the set has a chain of loaders, it ends with the executable, and it
is no longer than the steps of `gl_resolve`. -/
theorem Ordered.exists_chain {set : GuestLinkSet} (h : set.Ordered) (i : ℕ)
    (hi : i < set.count) :
    ∃ chain, LoaderChain set (.library i) chain ∧ chain.getLast? = some .executable ∧
      chain.length ≤ i + 2 := by
  induction i using Nat.strong_induction_on with
  | _ i ih =>
      obtain ⟨library, hlibrary⟩ : ∃ library, set.libraries[i]? = some library :=
        ⟨_, List.getElem?_eq_getElem hi⟩
      rcases h.loader i library hlibrary with hlt | hmax
      · obtain ⟨chain, hchain, hlast, hlength⟩ := ih library.loader hlt (hlt.trans hi)
        obtain ⟨rest, rfl⟩ := hchain.head
        refine ⟨_, .loaded hlibrary hchain, ?_, ?_⟩
        · rw [List.getLast?_cons_cons]
          exact hlast
        · rw [List.length_cons]
          omega
      · exact ⟨_, .named hlibrary hmax, rfl, by simp⟩

def rpathsOf (set : GuestLinkSet) (image : ImageRef) (path : CString) : List (CString × CString) :=
  (((set.imageOf image).map (·.rpaths)).getD []).map fun rpath => (path, rpath)

/-- The rpaths along a chain of loaders, the first image being at `fromPath`. -/
def searchList (set : GuestLinkSet) (fromPath : CString) : List ImageRef → List (CString × CString)
  | [] => []
  | image :: rest =>
    set.rpathsOf image fromPath ++
      rest.flatMap fun loader => set.rpathsOf loader ((set.pathOf loader).getD [])

theorem tryRpaths_eq (set : GuestLinkSet) (image : ImageRef) (path name : CString) :
    set.tryRpaths fs (set.imageOf image) path name =
      (set.rpathsOf image path).findSome? fun entry => set.tryRpath fs entry.1 name entry.2 := by
  rw [tryRpaths, rpathsOf, List.findSome?_map]
  rfl

/-- One round of the loop of `gl_resolve`. -/
theorem rpathLoop_succ (set : GuestLinkSet) (name : CString) (steps : ℕ) (image : ImageRef)
    (path : CString) (later : Option CString)
    (hlater : set.tryRpaths fs (set.imageOf image) path name = none →
      set.rpathLoop fs name (steps + 1) image path = later) :
    set.rpathLoop fs name (steps + 1) image path =
      ((set.rpathsOf image path).findSome? fun entry =>
        set.tryRpath fs entry.1 name entry.2).or later := by
  rw [← tryRpaths_eq]
  cases hfound : set.tryRpaths fs (set.imageOf image) path name with
  | none => exact hlater hfound
  | some out =>
      rw [rpathLoop, hfound]
      rfl

theorem rpathLoop_executable (set : GuestLinkSet) (name : CString) (steps : ℕ) (path : CString) :
    set.rpathLoop fs name (steps + 1) .executable path =
      (set.rpathsOf .executable path).findSome? fun entry =>
        set.tryRpath fs entry.1 name entry.2 := by
  rw [rpathLoop_succ set name steps .executable path none]
  · rw [Option.or_none]
  · intro hfound
    rw [rpathLoop, hfound]
    rfl

/-- The loop of `gl_resolve` searches the whole chain of loaders. -/
theorem rpathLoop_eq {set : GuestLinkSet} (hset : set.Ordered) {image : ImageRef}
    {chain : List ImageRef} (hchain : LoaderChain set image chain) (name : CString) (steps : ℕ)
    (path : CString) (hsteps : chain.length ≤ steps) :
    set.rpathLoop fs name steps image path =
      (set.searchList path chain).findSome? fun entry => set.tryRpath fs entry.1 name entry.2 := by
  induction hchain generalizing steps path with
  | executable =>
      obtain ⟨steps, rfl⟩ : ∃ n, steps = n + 1 := ⟨steps - 1, by simp at hsteps; omega⟩
      rw [rpathLoop_executable]
      simp [searchList]
  | @named i library hlibrary hmax =>
      obtain ⟨steps, rfl⟩ : ∃ n, steps = n + 2 := ⟨steps - 2, by simp at hsteps; omega⟩
      have hnone : set.libraries[library.loader]? = none := by
        rw [hmax]
        exact List.getElem?_eq_none hset.full
      rw [rpathLoop_succ set name (steps + 1) (.library i) path
        (set.rpathLoop fs name (steps + 1) .executable set.executable),
        rpathLoop_executable]
      · simp only [searchList, List.flatMap_cons, List.flatMap_nil, List.append_nil,
          List.findSome?_append]
        rfl
      · intro hfound
        rw [rpathLoop, hfound]
        simp only [libraryOf, hlibrary, hnone]
  | @loaded i library chain hlibrary hchain ih =>
      obtain ⟨steps, rfl⟩ : ∃ n, steps = n + 1 := ⟨steps - 1, by simp at hsteps; omega⟩
      rw [List.length_cons] at hsteps
      obtain ⟨loader, hloader⟩ : ∃ loader, set.libraries[library.loader]? = some loader := by
        cases hchain with
        | named h _ => exact ⟨_, h⟩
        | loaded h _ => exact ⟨_, h⟩
      obtain ⟨rest, rfl⟩ := hchain.head
      have hown : (set.pathOf (.library library.loader)).getD [] = loader.path := by
        rw [pathOf, hloader]
        rfl
      rw [rpathLoop_succ set name steps (.library i) path
        (set.rpathLoop fs name steps (.library library.loader) loader.path),
        ih steps loader.path (by omega)]
      · simp only [searchList, List.flatMap_cons, List.findSome?_append, hown]
      · intro hfound
        rw [rpathLoop, hfound]
        simp only [libraryOf, hlibrary, hloader]

theorem glResolve_eq_rpathLoop (set : GuestLinkSet) (image : ImageRef) (fromPath name : CString) :
    set.glResolve fs image fromPath (ascii "@rpath/" ++ name) =
      set.rpathLoop fs name (set.count + 1) image fromPath := by
  rw [glResolve, if_pos (List.isPrefixOf_iff_prefix.mpr (List.prefix_append _ name))]
  rfl

/-- Every image of the set has a chain of loaders that fits the steps of `gl_resolve`. -/
theorem Ordered.chain_of_has {set : GuestLinkSet} (h : set.Ordered) {image : ImageRef}
    (himage : set.Has image) :
    ∃ chain, LoaderChain set image chain ∧ chain.getLast? = some .executable ∧
      chain.length ≤ set.count + 1 := by
  cases image with
  | executable => exact ⟨_, .executable, rfl, by simp⟩
  | library i =>
      obtain ⟨chain, hchain, hlast, hlength⟩ := h.exists_chain i himage
      have hi : i < set.count := himage
      exact ⟨chain, hchain, hlast, by omega⟩
  | other image => exact himage.elim

/-- An `@rpath` name of an image of the set is searched along its whole chain of loaders. -/
theorem glResolve_rpath {set : GuestLinkSet} (hset : set.Ordered) {image : ImageRef}
    (himage : set.Has image) :
    ∃ chain, LoaderChain set image chain ∧ chain.getLast? = some .executable ∧
      ∀ fromPath name, set.glResolve fs image fromPath (ascii "@rpath/" ++ name) =
        (set.searchList fromPath chain).findSome? fun entry =>
          set.tryRpath fs entry.1 name entry.2 := by
  obtain ⟨chain, hchain, hlast, hlength⟩ := hset.chain_of_has himage
  refine ⟨chain, hchain, hlast, fun fromPath name => ?_⟩
  rw [glResolve_eq_rpathLoop, rpathLoop_eq hset hchain name _ fromPath hlength]

/-- Every value the set takes in `gl_load` and, when that succeeds, in a `gl_carry` with
a root and paths. -/
def session (fs : FileSystem) (giLoadLibrary : CString → Option GuestImage)
    (executable : GuestImage) (executablePath : CString)
    (more : Option (Option CString × List CString)) : List GuestLinkSet :=
  match start fs executable executablePath with
  | .error _ => []
  | .ok set =>
    set :: (set.load fs giLoadLibrary).moments ++
      match (set.load fs giLoadLibrary).error, more with
      | none, some (root, paths) =>
        ((set.load fs giLoadLibrary).state.glCarry fs giLoadLibrary root paths).moments
      | _, _ => []

/-- **Containment and rpath order.** -/
theorem session_contained (fs : FileSystem) (giLoadLibrary : CString → Option GuestImage)
    (executable : GuestImage) (executablePath : CString)
    (more : Option (Option CString × List CString)) :
    ∀ set ∈ session fs giLoadLibrary executable executablePath more,
      set.Contained fs ∧
      (∀ image fromPath name out, set.glResolve fs image fromPath name = some out →
        (∃ candidate, fs.realpath candidate = some out) ∧ fs.isRegular out = true ∧
          inside set.root out = true) ∧
      (∀ image, set.Has image →
        ∃ chain, LoaderChain set image chain ∧ chain.getLast? = some .executable ∧
          ∀ fromPath name, set.glResolve fs image fromPath (ascii "@rpath/" ++ name) =
            (set.searchList fromPath chain).findSome? fun entry =>
              set.tryRpath fs entry.1 name entry.2) := by
  intro set hset
  have hcontained : set.Contained fs := by
    unfold session at hset
    cases hstart : start fs executable executablePath with
    | error e =>
        rw [hstart] at hset
        exact absurd hset List.not_mem_nil
    | ok first =>
        rw [hstart] at hset
        have hfirst := start_contained hstart
        have hload : Walk.Holds (fun s => s.Contained fs) (first.load fs giLoadLibrary) :=
          load_contained hfirst
        rcases List.mem_append.mp hset with hmem | hmem
        · rcases List.mem_cons.mp hmem with rfl | hmem
          · exact hfirst
          · exact hload.2 set hmem
        · split at hmem
          · exact (glCarry_contained hload.1 _ _).2 set hmem
          · exact absurd hmem List.not_mem_nil
  exact ⟨hcontained, fun _ _ _ _ h => glResolve_spec h,
    fun _ himage => glResolve_rpath hcontained.ordered himage⟩

/-- The files of a small file system. -/
def fixtureRegular : List CString :=
  [ascii "/r/a/x", ascii "/r/a/l", ascii "/r/a/m", ascii "/r/a/n", ascii "/r/k"]

def fixturePaths : List CString := [ascii "/", ascii "/r", ascii "/r/a"] ++ fixtureRegular

/-- A file system without links: an executable and libraries in `/r/a`, and a library in
`/r`. -/
def fixtureFiles : FileSystem where
  realpath p := if p ∈ fixturePaths then some p else none
  isRegular p := p ∈ fixtureRegular
  length_realpath := by
    intro p r h
    have hlength : ∀ r ∈ fixturePaths, r.length < pathMax := by decide
    split at h
    · rename_i hp
      cases h
      exact hlength p hp
    · cases h
  isRegular_realpath := by
    intro p r h
    split at h
    · cases h
      rfl
    · cases h
  isRegular_take := by
    intro p r i h hi
    have htake : ∀ r ∈ fixturePaths, ∀ i < r.length, r[i]? = some slash →
        decide (r.take i ∈ fixtureRegular) = false := by
      decide
    obtain ⟨hbound, -⟩ := List.getElem?_eq_some_iff.mp hi
    split at h
    · rename_i hp
      cases h
      exact htake p hp i hbound hi
    · cases h
  isRegular_slash := by decide
  isRegular_dot := by decide

def fixtureExecutable : GuestImage :=
  { GuestImage.empty with
    dylibs := [⟨ascii "@executable_path/l", false⟩, ⟨ascii "/r/k", false⟩]
    rpaths := [ascii "@executable_path"] }

/-- The libraries can all be read; the first names one through the `@rpath` of its loader. -/
def fixtureLibrary (path : CString) : Option GuestImage :=
  some { GuestImage.empty with
    dylibs := if path = ascii "/r/a/l" then [⟨ascii "@rpath/m", false⟩] else [] }

theorem session_fixture_ne_nil :
    session fixtureFiles fixtureLibrary fixtureExecutable (ascii "/r/a/x") none ≠ [] := by
  refine List.ne_nil_of_length_pos ?_
  decide

def fixtureLast : GuestLinkSet :=
  (session fixtureFiles fixtureLibrary fixtureExecutable (ascii "/r/a/x") none).getLast
    session_fixture_ne_nil

theorem session_contained_fixture :
    fixtureLast.Contained fixtureFiles ∧
      fixtureLast.libraries.map (·.path) = [ascii "/r/a/l", ascii "/r/a/m"] ∧
      fixtureLast.glResolve fixtureFiles (.library 0) (ascii "/r/a/l") (ascii "@rpath/m") =
        some (ascii "/r/a/m") ∧
      inside fixtureLast.root (ascii "/r/a/m") = true ∧
      ∃ chain, LoaderChain fixtureLast (.library 1) chain ∧ chain.getLast? = some .executable ∧
        ∀ fromPath name,
          fixtureLast.glResolve fixtureFiles (.library 1) fromPath (ascii "@rpath/" ++ name) =
            (fixtureLast.searchList fromPath chain).findSome? fun entry =>
              fixtureLast.tryRpath fixtureFiles entry.1 name entry.2 := by
  obtain ⟨hcontained, hresolve, hrpath⟩ := session_contained fixtureFiles fixtureLibrary
    fixtureExecutable (ascii "/r/a/x") none fixtureLast (List.getLast_mem session_fixture_ne_nil)
  have hfound : fixtureLast.glResolve fixtureFiles (.library 0) (ascii "/r/a/l")
      (ascii "@rpath/m") = some (ascii "/r/a/m") := by decide
  have hpaths : fixtureLast.libraries.map (·.path) = [ascii "/r/a/l", ascii "/r/a/m"] := by
    decide
  have hcount : fixtureLast.Has (.library 1) := by
    have hlength := congrArg List.length hpaths
    rw [List.length_map] at hlength
    change 1 < fixtureLast.libraries.length
    rw [hlength]
    decide
  exact ⟨hcontained, hpaths, hfound, (hresolve _ _ _ _ hfound).2.2, hrpath _ hcount⟩

end GuestLinkSet

end Tolkara
