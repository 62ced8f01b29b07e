import Tolkara.Link.Containment

/-!
# What is named is carried

A set grows at its end only, and a name resolves along loaders that come before the image
that holds it, so what a name resolves to does not change while the set grows in one
folder. Each name is therefore settled when its image is gone through: the library it
points at is carried, or its file was refused.
-/

namespace Tolkara

namespace GuestLinkSet

variable {fs : FileSystem} {giLoadLibrary : CString → Option GuestImage}

/-- A set that grew in the same folder. -/
structure Extends (set set' : GuestLinkSet) : Prop where
  libraries : set.libraries <+: set'.libraries
  root : set'.root = set.root
  executable : set'.executable = set.executable
  executableImage : set'.executableImage = set.executableImage

theorem Extends.refl (set : GuestLinkSet) : Extends set set :=
  ⟨List.prefix_rfl, rfl, rfl, rfl⟩

theorem Extends.trans {set set' set'' : GuestLinkSet} (h : Extends set set')
    (h' : Extends set' set'') : Extends set set'' :=
  ⟨h.libraries.trans h'.libraries, h'.root.trans h.root, h'.executable.trans h.executable,
    h'.executableImage.trans h.executableImage⟩

theorem Extends.count_le {set set' : GuestLinkSet} (h : Extends set set') :
    set.count ≤ set'.count :=
  h.libraries.length_le

theorem Extends.getElem? {set set' : GuestLinkSet} (h : Extends set set') {i : ℕ}
    (hi : i < set.count) : set'.libraries[i]? = set.libraries[i]? := by
  obtain ⟨tail, htail⟩ := h.libraries
  rw [← htail, List.getElem?_append_left hi]

theorem Extends.has {set set' : GuestLinkSet} (h : Extends set set') {image : ImageRef}
    (himage : set.Has image) : set'.Has image := by
  cases image with
  | executable => exact trivial
  | library i => exact lt_of_lt_of_le himage h.count_le
  | other image => exact himage.elim

theorem Extends.imageOf {set set' : GuestLinkSet} (h : Extends set set') {image : ImageRef}
    (himage : set.Has image) : set'.imageOf image = set.imageOf image := by
  cases image with
  | executable => exact congrArg some h.executableImage
  | library i => rw [GuestLinkSet.imageOf, GuestLinkSet.imageOf, h.getElem? himage]
  | other image => exact himage.elim

theorem Extends.pathOf {set set' : GuestLinkSet} (h : Extends set set') {image : ImageRef}
    (himage : set.Has image) : set'.pathOf image = set.pathOf image := by
  cases image with
  | executable => exact congrArg some h.executable
  | library i => rw [GuestLinkSet.pathOf, GuestLinkSet.pathOf, h.getElem? himage]
  | other image => exact himage.elim

theorem Extends.mem_paths {set set' : GuestLinkSet} (h : Extends set set') {path : CString}
    (hpath : path ∈ set.libraries.map (·.path)) : path ∈ set'.libraries.map (·.path) :=
  (h.libraries.map _).subset hpath

theorem LoaderChain.has {set : GuestLinkSet} {image : ImageRef} {chain : List ImageRef}
    (h : LoaderChain set image chain) : ∀ loader ∈ chain, set.Has loader := by
  have hbound : ∀ {i : ℕ} {library : GuestLibrary}, set.libraries[i]? = some library →
      set.Has (.library i) := by
    intro i library hi
    exact (List.getElem?_eq_some_iff.mp hi).1
  induction h with
  | executable =>
      intro loader hloader
      rw [List.mem_singleton.mp hloader]
      exact trivial
  | named hi hmax =>
      intro loader hloader
      rcases List.mem_cons.mp hloader with rfl | hrest
      · exact hbound hi
      · rw [List.mem_singleton.mp hrest]
        exact trivial
  | loaded hi hchain ih =>
      intro loader hloader
      rcases List.mem_cons.mp hloader with rfl | hrest
      · exact hbound hi
      · exact ih loader hrest

theorem LoaderChain.extends {set set' : GuestLinkSet} (hset : Extends set set')
    {image : ImageRef} {chain : List ImageRef} (h : LoaderChain set image chain) :
    LoaderChain set' image chain := by
  have hsame : ∀ {i : ℕ} {library : GuestLibrary}, set.libraries[i]? = some library →
      set'.libraries[i]? = some library := by
    intro i library hi
    rw [hset.getElem? (List.getElem?_eq_some_iff.mp hi).1]
    exact hi
  induction h with
  | executable => exact .executable
  | named hi hmax => exact .named (hsame hi) hmax
  | loaded hi hchain ih => exact .loaded (hsame hi) ih

theorem Extends.accept {set set' : GuestLinkSet} (h : Extends set set') :
    set'.accept fs = set.accept fs := by
  funext candidate
  simp only [GuestLinkSet.accept, h.root]

theorem Extends.expand {set set' : GuestLinkSet} (h : Extends set set') :
    set'.expand = set.expand := by
  funext fromPath name
  simp only [GuestLinkSet.expand, h.executable]

theorem Extends.searchList {set set' : GuestLinkSet} (h : Extends set set') (fromPath : CString)
    {chain : List ImageRef} (hchain : ∀ loader ∈ chain, set.Has loader) :
    set'.searchList fromPath chain = set.searchList fromPath chain := by
  cases chain with
  | nil => rfl
  | cons image rest =>
      have himage := hchain image List.mem_cons_self
      have hrest : ∀ loader ∈ rest, set'.rpathsOf loader ((set'.pathOf loader).getD []) =
          set.rpathsOf loader ((set.pathOf loader).getD []) := by
        intro loader hloader
        have hhas := hchain loader (List.mem_cons_of_mem _ hloader)
        rw [rpathsOf, rpathsOf, h.imageOf hhas, h.pathOf hhas]
      rw [GuestLinkSet.searchList, GuestLinkSet.searchList, rpathsOf, rpathsOf, h.imageOf himage]
      exact congrArg _ (List.flatMap_congr hrest)

theorem Extends.glResolve {set set' : GuestLinkSet} (h : Extends set set') (hset : set.Ordered)
    (hset' : set'.Ordered) {image : ImageRef} (himage : set.Has image) (fromPath name : CString) :
    set'.glResolve fs image fromPath name = set.glResolve fs image fromPath name := by
  by_cases hrpath : (ascii "@rpath/").isPrefixOf name = true
  · obtain ⟨tail, rfl⟩ := List.isPrefixOf_iff_prefix.mp hrpath
    obtain ⟨chain, hchain, -, hlength⟩ := hset.chain_of_has himage
    have hcount := h.count_le
    have htry : ∀ entry : CString × CString,
        set'.tryRpath fs entry.1 tail entry.2 = set.tryRpath fs entry.1 tail entry.2 := by
      intro entry
      rw [tryRpath, tryRpath, h.expand, h.accept]
    rw [glResolve_eq_rpathLoop, glResolve_eq_rpathLoop,
      rpathLoop_eq hset' (hchain.extends h) tail _ fromPath (by omega),
      rpathLoop_eq hset hchain tail _ fromPath hlength, h.searchList fromPath hchain.has]
    exact congrFun (congrArg _ (funext htry)) _
  · rw [GuestLinkSet.glResolve, GuestLinkSet.glResolve, if_neg hrpath, if_neg hrpath, h.expand,
      h.accept]

variable (giLoadLibrary) in
/-- The file at a path is not carried: `gi_load_library` refuses it, or it has
thread-local constructors. -/
def Refused (path : CString) : Prop :=
  giLoadLibrary path = none ∨
    ∃ image, giLoadLibrary path = some image ∧ image.tlsInitializerCount ≠ 0

variable (fs giLoadLibrary) in
/-- Of these names of an image at a path, every one that resolves is carried, or its file
was refused. -/
def SettledNames (set : GuestLinkSet) (image : ImageRef) (fromPath : CString)
    (dylibs : List GIDylib) : Prop :=
  ∀ dylib ∈ dylibs, ∀ path, set.glResolve fs image fromPath dylib.name = some path →
    path ∈ set.libraries.map (·.path) ∨ Refused giLoadLibrary path

variable (fs giLoadLibrary) in
/-- Every library an image names that resolves is carried, or its file was refused. -/
def Settled (set : GuestLinkSet) (image : ImageRef) : Prop :=
  set.SettledNames fs giLoadLibrary image ((set.pathOf image).getD [])
    (((set.imageOf image).map (·.dylibs)).getD [])

theorem Settled.extends {set set' : GuestLinkSet} {image : ImageRef}
    (h : set.Settled fs giLoadLibrary image) (hset : set.Ordered) (hset' : set'.Ordered)
    (hextends : Extends set set') (himage : set.Has image) :
    set'.Settled fs giLoadLibrary image := by
  intro dylib hdylib path hpath
  rw [hextends.imageOf himage] at hdylib
  rw [hextends.pathOf himage, hextends.glResolve hset hset' himage] at hpath
  rcases h dylib hdylib path hpath with hcarried | hrefused
  · exact .inl (hextends.mem_paths hcarried)
  · exact .inr hrefused

theorem SettledNames.cons {set set' : GuestLinkSet} {image : ImageRef} {fromPath : CString}
    {dylib : GIDylib} {rest : List GIDylib} (hset : set.Ordered) (hset' : set'.Ordered)
    (hextends : Extends set set') (himage : set.Has image)
    (hhead : ∀ path, set.glResolve fs image fromPath dylib.name = some path →
      path ∈ set'.libraries.map (·.path) ∨ Refused giLoadLibrary path)
    (hrest : set'.SettledNames fs giLoadLibrary image fromPath rest) :
    set'.SettledNames fs giLoadLibrary image fromPath (dylib :: rest) := by
  intro other hother path hpath
  rcases List.mem_cons.mp hother with rfl | hmem
  · rw [hextends.glResolve hset hset' himage] at hpath
    exact hhead path hpath
  · exact hrest other hmem path hpath

theorem carry_settles {set : GuestLinkSet} {path installName : CString} {loader : ℕ}
    (h : (set.carry giLoadLibrary path installName loader).error = none) :
    Extends set (set.carry giLoadLibrary path installName loader).state ∧
      (path ∈ (set.carry giLoadLibrary path installName loader).state.libraries.map (·.path) ∨
        Refused giLoadLibrary path) := by
  unfold carry at h ⊢
  split at h
  · cases h
  · rename_i hfull
    rw [if_neg hfull]
    cases hload : giLoadLibrary path with
    | none => exact ⟨⟨List.prefix_rfl, rfl, rfl, rfl⟩, .inr (.inl hload)⟩
    | some image =>
        dsimp only
        split
        · rename_i htls
          exact ⟨⟨List.prefix_rfl, rfl, rfl, rfl⟩, .inr (.inr ⟨image, hload, htls⟩)⟩
        · refine ⟨⟨List.prefix_append _ _, rfl, rfl, rfl⟩, .inl ?_⟩
          exact List.mem_map.mpr ⟨_, List.mem_append_right _ (List.mem_singleton.mpr rfl), rfl⟩

theorem mem_of_knownPath {set : GuestLinkSet} {path : CString} (h : set.knownPath path = true) :
    path ∈ set.libraries.map (·.path) := by
  obtain ⟨library, hlibrary, hpath⟩ := List.any_eq_true.mp h
  exact List.mem_map.mpr ⟨library, hlibrary, beq_iff_eq.mp hpath⟩

/-- The names an image has gone through are settled in the set they end with. -/
theorem carriedByLoop_settles {image : ImageRef} {fromPath : CString} {loader : ℕ}
    (dylibs : List GIDylib) {set : GuestLinkSet}
    (hset : set.Contained fs ∧ (loader < set.count ∨ loader = glMaxLibraries))
    (himage : set.Has image)
    (h : (carriedByLoop fs giLoadLibrary image fromPath loader dylibs set).error = none) :
    Extends set (carriedByLoop fs giLoadLibrary image fromPath loader dylibs set).state ∧
      (carriedByLoop fs giLoadLibrary image fromPath loader dylibs set).state.SettledNames fs
        giLoadLibrary image fromPath dylibs := by
  induction dylibs generalizing set with
  | nil => exact ⟨Extends.refl set, fun _ hdylib => absurd hdylib List.not_mem_nil⟩
  | cons dylib rest ih =>
      have hend : ∀ {s : GuestLinkSet},
          s.Contained fs ∧ (loader < s.count ∨ loader = glMaxLibraries) →
          (carriedByLoop fs giLoadLibrary image fromPath loader rest s).state.Ordered :=
        fun hs => (carriedByLoop_contained rest hs).1.1.ordered
      rw [carriedByLoop] at h ⊢
      cases hresolve : set.glResolve fs image fromPath dylib.name with
      | none =>
          rw [hresolve] at h
          obtain ⟨hextends, hrest⟩ := ih hset himage h
          refine ⟨hextends, hrest.cons hset.1.ordered (hend hset) hextends himage ?_⟩
          intro path hpath
          rw [hresolve] at hpath
          cases hpath
      | some path =>
          rw [hresolve] at h
          dsimp only at h ⊢
          by_cases hknown : set.knownPath path = true
          · rw [if_pos hknown] at h ⊢
            obtain ⟨hextends, hrest⟩ := ih hset himage h
            refine ⟨hextends, hrest.cons hset.1.ordered (hend hset) hextends himage ?_⟩
            intro other hother
            obtain rfl : path = other := Option.some.inj (hresolve.symm.trans hother)
            exact .inl (hextends.mem_paths (mem_of_knownPath hknown))
          · rw [if_neg hknown] at h ⊢
            obtain ⟨hcarry, hloop, hstate⟩ := Walk.andThen_error_none h
            obtain ⟨-, hregular, hinside⟩ := glResolve_spec hresolve
            have hwalk : Walk.Holds
                (fun s => s.Contained fs ∧ (loader < s.count ∨ loader = glMaxLibraries))
                (set.carry giLoadLibrary path dylib.name loader) :=
              carry_contained hset hregular hinside (not_mem_of_not_knownPath hknown)
            have hs := hwalk.1
            obtain ⟨hextends₁, hsettled⟩ := carry_settles hcarry
            obtain ⟨hextends₂, hrest⟩ := ih hs (hextends₁.has himage) hloop
            rw [hstate]
            refine ⟨hextends₁.trans hextends₂, hrest.cons hset.1.ordered (hend hs)
              (hextends₁.trans hextends₂) himage ?_⟩
            intro other hother
            obtain rfl : path = other := Option.some.inj (hresolve.symm.trans hother)
            rcases hsettled with hcarried | hrefused
            · exact .inl (hextends₂.mem_paths hcarried)
            · exact .inr hrefused

theorem carriedBy_settles {set : GuestLinkSet} {image : ImageRef} (hset : set.Contained fs)
    (himage : set.Has image) (h : (set.carriedBy fs giLoadLibrary image).error = none) :
    Extends set (set.carriedBy fs giLoadLibrary image).state ∧
      (set.carriedBy fs giLoadLibrary image).state.Settled fs giLoadLibrary image := by
  obtain ⟨hloop, hnames⟩ := carriedByLoop_settles _ ⟨hset, himage.loaderIndex⟩ himage h
  have hextends : Extends set (set.carriedBy fs giLoadLibrary image).state := hloop
  refine ⟨hextends, ?_⟩
  unfold Settled
  rw [hextends.pathOf himage, hextends.imageOf himage]
  exact hnames

/-- Every library from index `i` on is settled when the loop over them ends. The rounds
are enough because the list is full at 64. -/
theorem eachLibrary_settles (rounds i : ℕ) {set : GuestLinkSet} (hset : set.Contained fs)
    (hrounds : glMaxLibraries ≤ i + rounds)
    (h : (eachLibrary fs giLoadLibrary rounds i set).error = none) :
    Extends set (eachLibrary fs giLoadLibrary rounds i set).state ∧
      ∀ j, i ≤ j → j < (eachLibrary fs giLoadLibrary rounds i set).state.count →
        (eachLibrary fs giLoadLibrary rounds i set).state.Settled fs giLoadLibrary (.library j) := by
  induction rounds generalizing i set with
  | zero =>
      refine ⟨Extends.refl set, fun j hj hcount => ?_⟩
      have hfull := hset.full
      have hcount' : j < set.count := hcount
      omega
  | succ rounds ih =>
      rw [eachLibrary] at h ⊢
      by_cases hi : i < set.count
      · rw [if_pos hi] at h ⊢
        obtain ⟨hfirst, hrest, hstate⟩ := Walk.andThen_error_none h
        have himage : set.Has (.library i) := hi
        have hset₁ : (set.carriedBy fs giLoadLibrary (.library i)).state.Contained fs :=
          (carriedBy_contained hset himage).1
        obtain ⟨hextends₁, hsettled⟩ := carriedBy_settles hset himage hfirst
        obtain ⟨hextends₂, hlater⟩ := ih (i + 1) hset₁ (by omega) hrest
        have hset₂ := (@eachLibrary_contained fs giLoadLibrary rounds (i + 1) _ hset₁).1
        rw [hstate]
        refine ⟨hextends₁.trans hextends₂, fun j hj hcount => ?_⟩
        rcases Nat.eq_or_lt_of_le hj with rfl | hlt
        · exact hsettled.extends hset₁.ordered hset₂.ordered hextends₂ (hextends₁.has himage)
        · exact hlater j hlt hcount
      · rw [if_neg hi] at h ⊢
        refine ⟨Extends.refl set, fun j hj hcount => ?_⟩
        have hcount' : j < set.count := hcount
        omega

/-- Everything `gl_load` carries is closed under what it names. -/
theorem load_settles {set : GuestLinkSet} (hset : set.Contained fs)
    (h : (set.load fs giLoadLibrary).error = none) (image : ImageRef)
    (himage : (set.load fs giLoadLibrary).state.Has image) :
    (set.load fs giLoadLibrary).state.Settled fs giLoadLibrary image := by
  obtain ⟨hfirst, hrest, hstate⟩ := Walk.andThen_error_none h
  have hexecutable : set.Has .executable := trivial
  have hset₁ : (set.carriedBy fs giLoadLibrary .executable).state.Contained fs :=
    (carriedBy_contained hset hexecutable).1
  obtain ⟨hextends₁, hsettled⟩ := carriedBy_settles hset hexecutable hfirst
  obtain ⟨hextends₂, hlibraries⟩ := eachLibrary_settles glMaxLibraries 0 hset₁ (by omega) hrest
  have hset₂ := (@eachLibrary_contained fs giLoadLibrary glMaxLibraries 0 _ hset₁).1
  change ((set.carriedBy fs giLoadLibrary .executable).andThen _).state.Has image at himage
  change ((set.carriedBy fs giLoadLibrary .executable).andThen _).state.Settled fs giLoadLibrary
    image
  rw [hstate] at himage ⊢
  cases image with
  | executable =>
      exact hsettled.extends hset₁.ordered hset₂.ordered hextends₂ (hextends₁.has hexecutable)
  | library i => exact hlibraries i (Nat.zero_le i) himage
  | other image => exact himage.elim

theorem carryPaths_extends (paths : List CString) {set : GuestLinkSet}
    (h : (carryPaths fs giLoadLibrary paths set).error = none) :
    Extends set (carryPaths fs giLoadLibrary paths set).state := by
  induction paths generalizing set with
  | nil => exact Extends.refl set
  | cons path rest ih =>
      rw [carryPaths] at h ⊢
      by_cases habsolute : path.head? ≠ some slash
      · rw [if_pos habsolute] at h
        cases h
      · rw [if_neg habsolute] at h ⊢
        cases haccept : set.accept fs path with
        | none =>
            rw [haccept] at h
            cases h
        | some resolved =>
            rw [haccept] at h
            dsimp only at h ⊢
            by_cases hknown : set.knownPath resolved = true
            · rw [if_pos hknown] at h ⊢
              exact ih h
            · rw [if_neg hknown] at h ⊢
              obtain ⟨hcarry, hrest, hstate⟩ := Walk.andThen_error_none h
              rw [hstate]
              exact (carry_settles hcarry).1.trans (ih hrest)

/-- A wider folder changes nothing but the folder. -/
theorem widen_spec {set : GuestLinkSet} {root : Option CString}
    (h : (set.widen fs root).error = none) :
    ∃ folder, (set.widen fs root).state = { set with root := folder } ∧
      (root = none → folder = set.root) := by
  cases root with
  | none => exact ⟨set.root, rfl, fun _ => rfl⟩
  | some root =>
      rw [widen] at h ⊢
      cases hreal : fs.realpath root with
      | none =>
          rw [hreal] at h
          cases h
      | some resolved =>
          rw [hreal] at h
          dsimp only at h ⊢
          by_cases hinside : inside resolved set.root = true
          · rw [if_pos hinside]
            exact ⟨resolved, rfl, fun hnone => by cases hnone⟩
          · rw [if_neg hinside] at h
            cases h

theorem glLoad_eq_ok {executable : GuestImage} {path : CString} {set : GuestLinkSet}
    (h : glLoad fs giLoadLibrary executable path = .ok set) :
    ∃ first, start fs executable path = .ok first ∧
      (first.load fs giLoadLibrary).error = none ∧ set = (first.load fs giLoadLibrary).state := by
  unfold glLoad at h
  cases hstart : start fs executable path with
  | error e =>
      rw [hstart] at h
      cases h
  | ok first =>
      rw [hstart] at h
      dsimp only at h
      cases herror : (first.load fs giLoadLibrary).error with
      | some e =>
          rw [herror] at h
          cases h
      | none =>
          rw [herror] at h
          cases h
          exact ⟨first, rfl, herror, rfl⟩

/-- **What is named is carried.** After `gl_load` every name of the executable and of a
carried library is settled. After a `gl_carry` the names of the libraries it added are
settled in the folder it ends with, and those of the executable and of the libraries
there before in the folder there was before. -/
theorem carried_closed {executable : GuestImage} {executablePath : CString} {set : GuestLinkSet}
    (hload : glLoad fs giLoadLibrary executable executablePath = .ok set) :
    (∀ image, set.Has image → set.Settled fs giLoadLibrary image) ∧
    ∀ root paths, (set.glCarry fs giLoadLibrary root paths).error = none →
      (∀ i, set.count ≤ i → i < (set.glCarry fs giLoadLibrary root paths).state.count →
        (set.glCarry fs giLoadLibrary root paths).state.Settled fs giLoadLibrary (.library i)) ∧
      (∀ image, set.Has image →
        Settled fs giLoadLibrary
          { (set.glCarry fs giLoadLibrary root paths).state with root := set.root } image) ∧
      (root = none → (set.glCarry fs giLoadLibrary root paths).state.root = set.root) := by
  obtain ⟨first, hstart, herror, rfl⟩ := glLoad_eq_ok hload
  have hset : (first.load fs giLoadLibrary).state.Contained fs :=
    (load_contained (start_contained hstart)).1
  have hsettled := load_settles (start_contained hstart) herror
  refine ⟨hsettled, fun root paths hcarry => ?_⟩
  generalize (first.load fs giLoadLibrary).state = set at hset hsettled hcarry ⊢
  have hend : (set.glCarry fs giLoadLibrary root paths).state.Contained fs :=
    (glCarry_contained hset root paths).1
  obtain ⟨hwiden, hrest, hstate⟩ := Walk.andThen_error_none hcarry
  obtain ⟨hpaths, heach, hstate'⟩ := Walk.andThen_error_none hrest
  obtain ⟨folder, hfolder, hsame⟩ := widen_spec hwiden
  have hwider : (set.widen fs root).state.Contained fs := (widen_contained hset root).1
  have hcarried : (carryPaths fs giLoadLibrary paths (set.widen fs root).state).state.Contained fs :=
    (carryPaths_contained paths hwider).1
  obtain ⟨hextends₂, hadded⟩ := eachLibrary_settles (glMaxLibraries - set.count) set.count hcarried
    (by omega) heach
  have hextends := (carryPaths_extends paths hpaths).trans hextends₂
  rw [← hstate', ← hstate] at hextends hadded
  rw [hfolder] at hextends
  refine ⟨hadded, fun image himage => ?_, fun hnone => ?_⟩
  · -- In the old folder the set only grew.
    have hgrown : Extends set
        { (set.glCarry fs giLoadLibrary root paths).state with root := set.root } :=
      ⟨hextends.libraries, rfl, hextends.executable, hextends.executableImage⟩
    exact (hsettled image himage).extends hset.ordered ⟨hend.loader, hend.full⟩ hgrown himage
  · exact hextends.root.trans (hsame hnone)

/-- What `gl_load` makes of the executable that names two libraries. -/
def fixtureSet : GuestLinkSet :=
  (glLoad fixtureFiles fixtureLibrary fixtureExecutable (ascii "/r/a/x")).toOption.getD
    { libraries := []
      refused := 0
      root := []
      executable := []
      executableImage := GuestImage.empty
      executableSlide := 0 }

theorem glLoad_fixture :
    glLoad fixtureFiles fixtureLibrary fixtureExecutable (ascii "/r/a/x") = .ok fixtureSet := by
  have hok : (glLoad fixtureFiles fixtureLibrary fixtureExecutable
      (ascii "/r/a/x")).toOption.isSome = true := by
    decide
  unfold fixtureSet
  cases h : glLoad fixtureFiles fixtureLibrary fixtureExecutable (ascii "/r/a/x") with
  | error e =>
      rw [h] at hok
      cases hok
  | ok set => rfl

theorem glCarry_fixture :
    (fixtureSet.glCarry fixtureFiles fixtureLibrary (some (ascii "/r")) []).error = none := by
  decide

theorem carried_closed_fixture :
    (∀ image, fixtureSet.Has image → fixtureSet.Settled fixtureFiles fixtureLibrary image) ∧
    (fixtureSet.glCarry fixtureFiles fixtureLibrary (some (ascii "/r")) []).error = none ∧
    (∀ image, fixtureSet.Has image →
      Settled fixtureFiles fixtureLibrary
        { (fixtureSet.glCarry fixtureFiles fixtureLibrary (some (ascii "/r")) []).state with
          root := fixtureSet.root } image) :=
  ⟨(carried_closed glLoad_fixture).1, glCarry_fixture,
    ((carried_closed glLoad_fixture).2 (some (ascii "/r")) [] glCarry_fixture).2.1⟩

/-- With a wider folder the executable's name `/r/k` resolves, and the library there is
neither carried nor refused. -/
theorem carried_not_closed :
    ¬ ∀ set, glLoad fixtureFiles fixtureLibrary fixtureExecutable (ascii "/r/a/x") = .ok set →
      ∀ root paths, (set.glCarry fixtureFiles fixtureLibrary root paths).error = none →
        ∀ image, (set.glCarry fixtureFiles fixtureLibrary root paths).state.Has image →
          (set.glCarry fixtureFiles fixtureLibrary root paths).state.Settled fixtureFiles
            fixtureLibrary image := by
  intro hclosed
  have hsettled := hclosed fixtureSet glLoad_fixture (some (ascii "/r")) [] glCarry_fixture
    .executable trivial
  have hname : (⟨ascii "/r/k", false⟩ : GIDylib) ∈
      (((fixtureSet.glCarry fixtureFiles fixtureLibrary (some (ascii "/r")) []).state.imageOf
        .executable).map (·.dylibs)).getD [] := by
    decide
  have hresolve : (fixtureSet.glCarry fixtureFiles fixtureLibrary (some (ascii "/r"))
      []).state.glResolve fixtureFiles .executable
      (((fixtureSet.glCarry fixtureFiles fixtureLibrary (some (ascii "/r")) []).state.pathOf
        .executable).getD []) (ascii "/r/k") = some (ascii "/r/k") := by
    decide
  have hmissing : ascii "/r/k" ∉ (fixtureSet.glCarry fixtureFiles fixtureLibrary
      (some (ascii "/r")) []).state.libraries.map (·.path) := by
    decide
  rcases hsettled _ hname _ hresolve with hcarried | hrefused
  · exact hmissing hcarried
  · rcases hrefused with hnone | ⟨image, himage, htls⟩
    · cases hnone
    · cases himage
      exact htls rfl

end GuestLinkSet

end Tolkara
