import Tolkara.Launcher.Store

/-!
# What is removed stays removed

A removal dismisses the profile of the entry, or the profiles whose path is that of the
executable as it is written. `discover` looks at where the path of a profile leads, so a
profile whose path passes a symbolic link is not dismissed. `Dismisses` says when a removal
holds, and under it no later `discover` adds the executable.
-/

namespace Tolkara

open NSString

namespace TKAppLibrary

variable {surroundings : Surroundings}

/-! ## Paths -/

theorem plainParts_append {a b : NSString} (ha : plainParts a = true) (hb : plainParts b = true) :
    plainParts (a ++ slash :: b) = true := by
  unfold plainParts parts at ha hb ⊢
  rw [List.splitOn_append_cons_self, List.all_append, ha, hb]
  rfl

theorem plainParts_right {a b : NSString} (h : plainParts (a ++ slash :: b) = true) :
    plainParts a = true ∧ plainParts b = true := by
  unfold plainParts parts at h ⊢
  rw [List.splitOn_append_cons_self, List.all_append, Bool.and_eq_true] at h
  exact h

theorem not_plainParts_nil : plainParts [] = false := by decide

theorem plainParts_of_valid {path : NSString} (h : validRelative path false = true) :
    plainParts path = true := by
  unfold validRelative at h
  split_ifs at h
  exact h

/-- A plain path neither starts nor ends with a slash. -/
theorem plainParts_ends {path : NSString} (h : plainParts path = true) :
    path ≠ [] ∧ path.head? ≠ some slash ∧ path.getLast? ≠ some slash := by
  refine ⟨?_, ?_, ?_⟩
  · rintro rfl
    rw [not_plainParts_nil] at h
    cases h
  · intro hhead
    obtain ⟨rest, rfl⟩ := List.head?_eq_some_iff.mp hhead
    have hleft := (plainParts_right (a := []) (b := rest) h).1
    rw [not_plainParts_nil] at hleft
    cases hleft
  · intro hlast
    obtain ⟨front, rfl⟩ := List.getLast?_eq_some_iff.mp hlast
    have hright := (plainParts_right (a := front) (b := []) h).2
    rw [not_plainParts_nil] at hright
    cases hright

theorem join_plain {directory path : NSString} (hdirectory : plainParts directory = true)
    (hpath : plainParts path = true) : join directory path = directory ++ slash :: path := by
  obtain ⟨hne, -, hlast⟩ := plainParts_ends hdirectory
  rw [join, if_neg (plainParts_ends hpath).1, appendingPathComponent, if_neg hne, if_neg hlast]

theorem executablePath_plain (p : Profile) : plainParts p.executablePath = true := by
  have hdirectory : plainParts (p.runtime.getD p.workingDirectory) = true := by
    cases hruntime : p.runtime with
    | none => exact plainParts_of_valid p.validDirectory
    | some r => exact plainParts_of_valid (p.validRuntime r hruntime)
  have hexecutable := plainParts_of_valid p.validExecutable
  rw [Profile.executablePath, join_plain hdirectory hexecutable]
  exact plainParts_append hdirectory hexecutable

variable (surroundings) in
def resolve (files : Files surroundings.documents) (p : Profile) : Option NSString :=
  relativeInDocuments surroundings files (join surroundings.documents p.executablePath)

theorem relativeInDocuments_of_real {files : Files surroundings.documents}
    {path root rest : NSString} (hroot : files.realPath surroundings.documents = some root)
    (hreal : files.realPath path = some (root ++ slash :: rest)) :
    relativeInDocuments surroundings files path = some rest := by
  have hfront : (root ++ [slash]).isPrefixOf (root ++ slash :: rest) = true := by
    rw [List.isPrefixOf_iff_prefix]
    exact ⟨rest, by simp⟩
  have hdrop : (root ++ slash :: rest).drop (root.length + 1) = rest := by
    rw [List.drop_append]
    simp
  simp only [relativeInDocuments, hroot, hreal, hfront, hdrop, if_true]

theorem resolve_of_standard {files : Files surroundings.documents} {p : Profile}
    {path real : NSString} (hreal : relativeInDocuments surroundings files path = some real)
    (hstandard : surroundings.standardizing p.executablePath = real) :
    resolve surroundings files p = some real := by
  have hplain := plainParts_of_valid (relativeInDocuments_valid hreal)
  obtain ⟨root, hroot, -, hpath⟩ := relativeInDocuments_some hreal
  have hsame : p.executablePath = real := by
    rcases surroundings.standard (executablePath_plain p) with heq | hhead
    · rw [← heq, hstandard]
    · rw [hstandard] at hhead
      exact absurd hhead (plainParts_ends hplain).2.1
  rw [resolve, hsame]
  exact relativeInDocuments_of_real hroot (files.again hroot hpath)

/-! ## Dismissed profiles -/

/-- Every profile that leads to the executable is dismissed. -/
def Covered (lib : TKAppLibrary) (files : Files surroundings.documents) (executable : NSString) :
    Prop :=
  ∀ p ∈ lib.profiles, resolve surroundings files p = some executable →
    p.id ∈ lib.dismissedProfiles

/-- The module that an older launcher selected was imported, or is not the executable. -/
def NoModule (lib : TKAppLibrary) (selected : Option Hash) (executable : NSString) : Prop :=
  lib.legacyImported = true ∨
    ∀ hash, selected = some hash → moduleExecutable hash.digits ≠ executable

/-- The profile whose dismissal a draft takes back: that of the entry which it refreshes or
makes. -/
def cleared (lib : TKAppLibrary) (draft : Draft) : Option NSString :=
  match refresh draft lib.records with
  | some (_, entry) => entry.profile
  | none => draft.profile

@[simp] theorem updated_profile (draft : Draft) (r : AppRecord) :
    (updated draft r).profile = r.profile := by
  unfold updated
  dsimp only
  split <;> rfl

theorem refresh_eq {draft : Draft} {before after : List AppRecord} {existing : AppRecord}
    (hbefore : ∀ r ∈ before, same draft r = false) (hsame : same draft existing = true) :
    refresh draft (before ++ existing :: after) =
      some (before ++ updated draft existing :: after, updated draft existing) := by
  induction before with
  | nil => simp [refresh, hsame]
  | cons r before ih =>
      simp only [List.mem_cons, forall_eq_or_imp] at hbefore
      simp [refresh, hbefore.1, ih hbefore.2]

theorem refresh_eq_none {draft : Draft} {records : List AppRecord}
    (h : ∀ r ∈ records, same draft r = false) : refresh draft records = none := by
  induction records with
  | nil => rfl
  | cons r rest ih =>
      simp only [List.mem_cons, forall_eq_or_imp] at h
      simp [refresh, h.1, ih h.2]

variable (surroundings) in
theorem addRecord_frame (lib : TKAppLibrary) (draft : Draft) (ambient : Ambient) :
    (addRecord surroundings lib draft ambient).1.profiles = lib.profiles ∧
      (addRecord surroundings lib draft ambient).1.legacyImported = lib.legacyImported ∧
      ((addRecord surroundings lib draft ambient).1.dismissedProfiles = lib.dismissedProfiles ∨
        (addRecord surroundings lib draft ambient).1.dismissedProfiles =
          undismiss lib.dismissedProfiles (cleared lib draft)) := by
  rcases addRecord_cases lib draft ambient with hnone | ⟨-, hrefreshed | hadded⟩
  · rw [hnone]
    exact ⟨rfl, rfl, Or.inl rfl⟩
  · obtain ⟨before, existing, after, data, hrecords, hbefore, hsame, -, heq⟩ := hrefreshed
    have hcleared : cleared lib draft = existing.profile := by
      rw [cleared, hrecords, refresh_eq hbefore hsame]
      exact updated_profile draft existing
    rw [heq, hcleared]
    exact ⟨rfl, rfl, Or.inr rfl⟩
  · obtain ⟨data, hother, -, -, heq⟩ := hadded
    have hcleared : cleared lib draft = draft.profile := by
      rw [cleared, refresh_eq_none hother]
    rw [heq, hcleared]
    exact ⟨rfl, rfl, Or.inr rfl⟩

/-- The profile whose dismissal a draft takes back does not lead to the executable. -/
def ClearsElsewhere (lib : TKAppLibrary) (files : Files surroundings.documents)
    (executable : NSString) (draft : Draft) : Prop :=
  ∀ p ∈ lib.profiles, cleared lib draft = some p.id →
    resolve surroundings files p ≠ some executable

theorem Covered.addRecord {lib : TKAppLibrary} {files : Files surroundings.documents}
    {executable : NSString} (h : Covered lib files executable) {draft : Draft}
    (hclears : ClearsElsewhere lib files executable draft) (ambient : Ambient) :
    Covered (addRecord surroundings lib draft ambient).1 files executable := by
  intro p hp hresolve
  rw [(addRecord_frame surroundings lib draft ambient).1] at hp
  have hmem := h p hp hresolve
  rcases (addRecord_frame surroundings lib draft ambient).2.2 with hsame | hless
  · rw [hsame]
    exact hmem
  · rw [hless]
    cases hid : cleared lib draft with
    | none => exact hmem
    | some id =>
        refine Finset.mem_erase.mpr ⟨?_, hmem⟩
        rintro rfl
        exact hclears p hp hid hresolve

/-! ## Discovery -/

variable (surroundings) in
theorem inPlaceDraft_profile {lib : TKAppLibrary} {files : Files surroundings.documents}
    {path id : NSString} {hash : Hash}
    (h : (inPlaceDraft surroundings lib files path hash).profile = some id) :
    ∃ p ∈ lib.profiles, p.id = id ∧ surroundings.standardizing p.executablePath = path := by
  unfold inPlaceDraft describeExecutable at h
  dsimp only at h
  cases hfind : lib.profiles.find?
      (fun p => surroundings.standardizing p.executablePath == path) with
  | some p =>
      simp only [hfind, Option.some.injEq] at h
      exact ⟨p, List.mem_of_find?_eq_some hfind, h, by simpa using List.find?_some hfind⟩
  | none =>
      simp only [hfind] at h
      split at h
      · cases h
      · cases h

/-- A file that no entry names takes back only the dismissal of its own profile. -/
theorem cleared_of_unknown {lib : TKAppLibrary} {draft : Draft} (hsource : draft.source = .documents)
    (hplaces : ∀ r ∈ lib.records, r.executable ≠ draft.executable) :
    cleared lib draft = draft.profile := by
  unfold cleared
  cases hrefresh : refresh draft lib.records with
  | none => rfl
  | some found =>
      obtain ⟨records, entry⟩ := found
      obtain ⟨before, existing, after, hrecords, -, hsame, rfl, -⟩ := refresh_some hrefresh
      dsimp only
      rw [updated_profile]
      have hplace := hplaces existing (by simp [hrecords])
      simp only [same, profiled, hsource, Bool.or_eq_true, Bool.and_eq_true, beq_iff_eq,
        hplace, and_false, or_false] at hsame
      exact hsame.2

/-- The entry that a draft in place leads to is at its place. -/
theorem addRecord_app {lib lib' : TKAppLibrary} {draft : Draft} {ambient : Ambient}
    {app : AppRecord} (h : addRecord surroundings lib draft ambient = (lib', some app))
    (hsource : draft.source = .documents ∨
      ∀ r ∈ lib.records, ∀ hash ∈ draft.sha256, hash ∉ r.sha256) (hhash : draft.sha256.isSome) :
    app.executable = draft.executable := by
  rcases addRecord_cases lib draft ambient with hnone | ⟨-, hrefreshed | hadded⟩
  · rw [hnone] at h
    cases h
  · obtain ⟨before, existing, after, data, hrecords, -, hsame, -, heq⟩ := hrefreshed
    rw [heq, Prod.mk.injEq] at h
    have happ : app = updated draft existing := by
      have hsome := h.2
      split_ifs at hsome
      exact (Option.some.inj hsome).symm
    rw [happ]
    rcases updated_place draft existing with ⟨-, hplace, -⟩ | ⟨hother, hplace, -⟩
    · exact hplace
    · rw [hplace]
      simp only [same, hother, Bool.false_or, Bool.and_eq_true, beq_iff_eq] at hsame
      obtain ⟨-, hmatch⟩ := hsame
      cases hkind : draft.source with
      | documents => simpa [hkind] using hmatch
      | copy =>
          rcases hsource with hdocuments | hunknown
          · cases hkind.symm.trans hdocuments
          · obtain ⟨digits, hdigits⟩ := Option.isSome_iff_exists.mp hhash
            rw [hkind] at hmatch
            have hsha : existing.sha256 = draft.sha256 := by simpa using hmatch
            refine absurd ?_ (hunknown existing (by simp [hrecords]) digits hdigits)
            rw [hsha]
            exact hdigits
  · obtain ⟨data, -, -, -, heq⟩ := hadded
    rw [heq] at h
    cases h
    rfl

variable (surroundings) in
theorem addRecord_valid {lib : TKAppLibrary} {draft : Draft}
    (h : ∀ r ∈ lib.records, r.valid = true) (hdraft : DraftValid draft) (ambient : Ambient) :
    ∀ r ∈ (addRecord surroundings lib draft ambient).1.records, r.valid = true := by
  intro r hr
  rcases addRecord_cases lib draft ambient with hnone | ⟨-, hrefreshed | hadded⟩
  · rw [hnone] at hr
    exact h r hr
  · obtain ⟨before, existing, after, data, hrecords, -, -, -, heq⟩ := hrefreshed
    rw [heq] at hr
    simp only [hrecords, List.mem_append, List.mem_cons] at h hr
    rcases hr with hr | rfl | hr
    · exact h r (Or.inl hr)
    · exact updated_valid hdraft (h existing (Or.inr (Or.inl rfl)))
    · exact h r (Or.inr (Or.inr hr))
  · obtain ⟨data, -, hvalid, -, heq⟩ := hadded
    rw [heq] at hr
    rcases List.mem_append.mp hr with hr | hr
    · exact h r hr
    · rw [List.mem_singleton] at hr
      rw [hr]
      exact hvalid

variable (surroundings) in
theorem addRecord_hashes (lib : TKAppLibrary) (draft : Draft) (ambient : Ambient) :
    ∀ r ∈ (addRecord surroundings lib draft ambient).1.records, ∀ hash ∈ r.sha256,
      draft.sha256 = some hash ∨ ∃ x ∈ lib.records, hash ∈ x.sha256 := by
  intro r hr hash hhash
  rcases addRecord_cases lib draft ambient with hnone | ⟨-, hrefreshed | hadded⟩
  · rw [hnone] at hr
    exact Or.inr ⟨r, hr, hhash⟩
  · obtain ⟨before, existing, after, data, hrecords, -, -, -, heq⟩ := hrefreshed
    rw [heq] at hr
    simp only [hrecords, List.mem_append, List.mem_cons] at hr ⊢
    rcases hr with hr | rfl | hr
    · exact Or.inr ⟨r, Or.inl hr, hhash⟩
    · rw [updated_sha256] at hhash
      cases hsha : draft.sha256 with
      | none =>
          rw [hsha] at hhash
          exact Or.inr ⟨existing, Or.inr (Or.inl rfl), hhash⟩
      | some digits =>
          rw [hsha] at hhash
          exact Or.inl hhash
    · exact Or.inr ⟨r, Or.inr (Or.inr hr), hhash⟩
  · obtain ⟨data, -, -, -, heq⟩ := hadded
    rw [heq] at hr
    rcases List.mem_append.mp hr with hr | hr
    · exact Or.inr ⟨r, hr, hhash⟩
    · rw [List.mem_singleton] at hr
      rw [hr] at hhash
      exact Or.inl hhash

/-- What holds between the rounds of a discovery that leaves an executable out. -/
structure Avoiding (files : Files surroundings.documents) (executable : NSString)
    (lib : TKAppLibrary) (d : Discovery) : Prop where
  profiles : d.lib.profiles = lib.profiles
  legacy : d.lib.legacyImported = lib.legacyImported
  valid : ∀ r ∈ d.lib.records, r.valid = true
  places : ∀ r ∈ d.lib.records, r.executable ∈ d.known
  hashes : ∀ r ∈ d.lib.records, ∀ hash ∈ r.sha256, hash ∈ d.known
  covered : Covered d.lib files executable
  found : ∀ app ∈ d.found, app.executable ≠ executable

theorem inPlaceDraft_clears {lib : TKAppLibrary} {files : Files surroundings.documents}
    {executable path real : NSString} (hash : Hash)
    (hids : (lib.profiles.map (·.id)).Nodup)
    (hreal : relativeInDocuments surroundings files path = some real) (hne : real ≠ executable)
    (hplaces : ∀ r ∈ lib.records, r.executable ≠ real) :
    ClearsElsewhere lib files executable (inPlaceDraft surroundings lib files real hash) := by
  intro p hp hcleared hresolve
  rw [cleared_of_unknown rfl hplaces] at hcleared
  obtain ⟨described, hmem, hid, hstandard⟩ := inPlaceDraft_profile surroundings hcleared
  have hsame : described = p := List.inj_on_of_nodup_map hids hmem hp hid
  rw [← hsame, resolve_of_standard hreal hstandard, Option.some.injEq] at hresolve
  exact hne hresolve

theorem Avoiding.profile {files : Files surroundings.documents} {executable : NSString}
    {lib : TKAppLibrary} {d : Discovery} (h : Avoiding files executable lib d)
    (hids : (lib.profiles.map (·.id)).Nodup) (hcovered : Covered lib files executable)
    {p : Profile} (hp : p ∈ lib.profiles) (ambient : Ambient) :
    Avoiding files executable lib
      (discoverProfile surroundings files lib.dismissedProfiles d p ambient) := by
  unfold discoverProfile
  cases hcandidate : candidate surroundings files lib.dismissedProfiles d.known p with
  | none => exact h
  | some found =>
      obtain ⟨real, hash⟩ := found
      obtain ⟨hlisted, hnew, hreal⟩ := candidate_some hcandidate
      dsimp only
      have hne : real ≠ executable := by
        rintro rfl
        exact hlisted (hcovered p hp hreal)
      have hdraft := inPlaceDraft_valid d.lib files (relativeInDocuments_valid hreal) hash
      have hplaces : ∀ r ∈ d.lib.records, r.executable ≠ real := by
        rintro r hr rfl
        exact hnew (h.places r hr)
      have hids' : (d.lib.profiles.map (·.id)).Nodup := by
        rw [h.profiles]
        exact hids
      have hclears := inPlaceDraft_clears hash hids' hreal hne hplaces
      have hnext := h.covered.addRecord hclears ambient
      have hvalid := addRecord_valid surroundings h.valid hdraft ambient
      have hframe := addRecord_frame surroundings d.lib
        (inPlaceDraft surroundings d.lib files real hash) ambient
      have hhashes := addRecord_hashes surroundings d.lib
        (inPlaceDraft surroundings d.lib files real hash) ambient
      cases hadd : addRecord surroundings d.lib
          (inPlaceDraft surroundings d.lib files real hash) ambient with
      | mk lib' app =>
          rw [hadd] at hnext hvalid hframe hhashes
          cases app with
          | none =>
              have hlib := addRecord_none h.valid hdraft hadd
              rw [hlib]
              exact ⟨h.profiles, h.legacy, h.valid, h.places, h.hashes, h.covered, h.found⟩
          | some app =>
              refine ⟨hframe.1.trans h.profiles, hframe.2.1.trans h.legacy, hvalid, ?_, ?_, hnext,
                ?_⟩
              · intro r hr
                rcases addRecord_places hadd r hr with hplace | ⟨x, hx, hplace⟩
                · rw [hplace]
                  exact List.mem_cons_self
                · rw [← hplace]
                  exact List.mem_cons_of_mem _ (List.mem_cons_of_mem _ (h.places x hx))
              · intro r hr digits hdigits
                rcases hhashes r hr digits hdigits with hown | ⟨x, hx, hold⟩
                · cases hown
                  exact List.mem_cons_of_mem _ List.mem_cons_self
                · exact List.mem_cons_of_mem _ (List.mem_cons_of_mem _ (h.hashes x hx digits hold))
              · intro a ha
                rcases List.mem_append.mp ha with ha | ha
                · exact h.found a ha
                · rw [List.mem_singleton] at ha
                  rw [ha, addRecord_app hadd (Or.inl rfl) rfl]
                  exact hne

theorem Avoiding.rounds {files : Files surroundings.documents} {executable : NSString}
    {lib : TKAppLibrary} (hids : (lib.profiles.map (·.id)).Nodup)
    (hcovered : Covered lib files executable) (ambient : ℕ → Ambient) (profiles : List Profile)
    (hsub : profiles ⊆ lib.profiles) (i : ℕ) {d : Discovery}
    (h : Avoiding files executable lib d) :
    Avoiding files executable lib
      (discoverProfiles surroundings files lib.dismissedProfiles ambient profiles i d) := by
  induction profiles generalizing i d with
  | nil => exact h
  | cons p rest ih =>
      rw [List.cons_subset] at hsub
      exact ih hsub.2 (i + 1) (h.profile hids hcovered hsub.1 (ambient i))

/-- The module of an older launcher is another one. -/
theorem Avoiding.module {files : Files surroundings.documents} {executable : NSString}
    {lib : TKAppLibrary} {d : Discovery} (h : Avoiding files executable lib d)
    (hmodule : ∀ hash, files.selected = some hash → moduleExecutable hash.digits ≠ executable)
    (ambient : Ambient) :
    let next := discoverLegacy surroundings files d ambient
    next.lib.profiles = lib.profiles ∧ (∀ r ∈ next.lib.records, r.valid = true) ∧
      Covered next.lib files executable ∧ ∀ app ∈ next.found, app.executable ≠ executable := by
  unfold discoverLegacy
  cases hselected : files.selected with
  | none => exact ⟨h.profiles, h.valid, h.covered, h.found⟩
  | some hash =>
      dsimp only
      generalize ((files.sourceName hash).bind cleanName).getD (text "Imported app") = name
      split
      · exact ⟨h.profiles, h.valid, h.covered, h.found⟩
      · rename_i hnew
        have hother : ∀ r ∈ d.lib.records, ∀ digits ∈ (copyDraft name hash).sha256,
            digits ∉ r.sha256 := by
          intro r hr digits hdigits hmem
          cases hdigits
          exact hnew (h.hashes r hr _ hmem)
        have hclears : ClearsElsewhere d.lib files executable (copyDraft name hash) := by
          intro p hp hcleared
          rw [cleared, refresh_eq_none] at hcleared
          · cases hcleared
          · intro r hr
            have hsha : r.sha256 ≠ some hash.digits := fun heq => hother r hr _ rfl heq
            simp [same, profiled, copyDraft, hsha]
        have hnext := h.covered.addRecord hclears ambient
        have hvalid := addRecord_valid surroundings h.valid (copyDraft_valid name hash) ambient
        have hframe := addRecord_frame surroundings d.lib (copyDraft name hash) ambient
        cases hadd : addRecord surroundings d.lib (copyDraft name hash) ambient with
        | mk lib' app =>
            rw [hadd] at hnext hvalid hframe
            cases app with
            | none => exact ⟨hframe.1.trans h.profiles, hvalid, hnext, h.found⟩
            | some app =>
                refine ⟨hframe.1.trans h.profiles, hvalid, hnext, ?_⟩
                intro a ha
                rcases List.mem_append.mp ha with ha | ha
                · exact h.found a ha
                · rw [List.mem_singleton] at ha
                  rw [ha, addRecord_app hadd (Or.inr hother) rfl]
                  exact hmodule hash hselected

/-- A discovery does not add an executable that no profile leads to unless it is dismissed, and
takes back no dismissal of one that does. -/
theorem discover_avoids {lib : TKAppLibrary} {files : Files surroundings.documents}
    {executable : NSString} (hvalid : ∀ r ∈ lib.records, r.valid = true)
    (hids : (lib.profiles.map (·.id)).Nodup) (hcovered : Covered lib files executable)
    (hmodule : NoModule lib files.selected executable) (ambient : ℕ → Ambient) :
    let next := discover surroundings lib files ambient
    next.1.profiles = lib.profiles ∧ (∀ r ∈ next.1.records, r.valid = true) ∧
      Covered next.1 files executable ∧
      (lib.legacyImported = true → next.1.legacyImported = true) ∧
      ∀ app ∈ next.2, app.executable ≠ executable := by
  have hstart : Avoiding files executable lib ⟨lib, knownOf lib.records, []⟩ := by
    refine ⟨rfl, rfl, hvalid, fun r hr => mem_knownOf hr, ?_, hcovered, by simp⟩
    intro r hr hash hhash
    rw [knownOf, List.mem_flatMap]
    refine ⟨r, hr, List.mem_cons_of_mem _ ?_⟩
    simpa using hhash
  have hrounds := Avoiding.rounds hids hcovered ambient lib.profiles (List.Subset.refl _) 0 hstart
  unfold discover
  dsimp only
  split
  · rename_i hlegacy
    exact ⟨hrounds.profiles, hrounds.valid, hrounds.covered,
      fun _ => hrounds.legacy.trans hlegacy, hrounds.found⟩
  · rename_i hlegacy
    have hother := hmodule.resolve_left hlegacy
    obtain ⟨hprofiles, hvalid', hcovered', hfound⟩ :=
      hrounds.module hother (ambient lib.profiles.length)
    generalize discoverLegacy surroundings files
      (discoverProfiles surroundings files lib.dismissedProfiles ambient lib.profiles 0
        ⟨lib, knownOf lib.records, []⟩) (ambient lib.profiles.length) = d at *
    dsimp only
    cases hsave : saveRecords surroundings d.lib d.lib.records d.lib.dismissedProfiles true
        (ambient (lib.profiles.length + 1)).saves with
    | none => exact ⟨hprofiles, hvalid', hcovered', fun h => absurd h hlegacy, hfound⟩
    | some lib' =>
        obtain ⟨-, data, -, rfl⟩ := saveRecords_some hsave
        exact ⟨hprofiles, hvalid', hcovered', fun h => absurd h hlegacy, hfound⟩

/-! ## Runs -/

variable (surroundings) in
/-- A library as it is while it is open: from any file, after any operations. -/
inductive Open : TKAppLibrary → Prop
  | opened (profiles : List Profile) (hids : (profiles.map (·.id)).Nodup)
      (file : Option (List UInt8)) (moves : Bool) :
      Open (openLibrary surroundings profiles file moves)
  | next {lib : TKAppLibrary} (h : Open lib) (op : Op surroundings)
      (same : ∀ profiles moves, op ≠ .reopen profiles moves) : Open (step lib op)

/-- The profiles have different ids and the entries are valid. -/
structure Proper (lib : TKAppLibrary) : Prop where
  ids : (lib.profiles.map (·.id)).Nodup
  valid : ∀ r ∈ lib.records, r.valid = true

theorem loadRecords_valid (records : List AppRecord) (identifiers : List NSString) :
    ∀ r ∈ loadRecords records identifiers, r.valid = true := by
  induction records generalizing identifiers with
  | nil => simp [loadRecords]
  | cons r rest ih =>
      intro x hx
      rw [loadRecords] at hx
      split_ifs at hx with hskip
      · exact ih identifiers x hx
      · rw [not_or, not_not] at hskip
        rcases List.mem_cons.mp hx with rfl | hx
        · exact hskip.1
        · exact ih _ x hx

theorem Proper.opened (surroundings : Surroundings) {profiles : List Profile}
    (hids : (profiles.map (·.id)).Nodup) (file : Option (List UInt8)) (moves : Bool) :
    Proper (openLibrary surroundings profiles file moves) := by
  unfold openLibrary
  split
  · exact ⟨hids, by simp⟩
  · split
    · exact ⟨hids, by simp⟩
    · exact ⟨hids, loadRecords_valid _ _⟩

variable (surroundings) in
theorem Proper.addRecord {lib : TKAppLibrary} (h : Proper lib) {draft : Draft}
    (hdraft : DraftValid draft) (ambient : Ambient) :
    Proper (addRecord surroundings lib draft ambient).1 := by
  refine ⟨?_, addRecord_valid surroundings h.valid hdraft ambient⟩
  rw [(addRecord_frame surroundings lib draft ambient).1]
  exact h.ids

theorem Proper.save {lib lib' : TKAppLibrary} (h : Proper lib) {records : List AppRecord}
    {dismissed : Finset NSString} {legacy saves : Bool}
    (hsave : saveRecords surroundings lib records dismissed legacy saves = some lib')
    (hvalid : ∀ r ∈ records, r.valid = true) : Proper lib' := by
  obtain ⟨-, data, -, rfl⟩ := saveRecords_some hsave
  exact ⟨h.ids, hvalid⟩

theorem Proper.round {d : Discovery} (h : Proper d.lib) (files : Files surroundings.documents)
    (dismissed : Finset NSString) (p : Profile) (ambient : Ambient) :
    Proper (discoverProfile surroundings files dismissed d p ambient).lib := by
  unfold discoverProfile
  cases hcandidate : candidate surroundings files dismissed d.known p with
  | none => exact h
  | some found =>
      obtain ⟨real, hash⟩ := found
      obtain ⟨-, -, hreal⟩ := candidate_some hcandidate
      have hnext := h.addRecord surroundings
        (inPlaceDraft_valid d.lib files (relativeInDocuments_valid hreal) hash) ambient
      dsimp only
      split
      · rename_i lib' heq
        rw [heq] at hnext
        exact hnext
      · rename_i lib' app heq
        rw [heq] at hnext
        exact hnext

theorem Proper.rounds (files : Files surroundings.documents) (dismissed : Finset NSString)
    (ambient : ℕ → Ambient) (profiles : List Profile) (i : ℕ) {d : Discovery}
    (h : Proper d.lib) :
    Proper (discoverProfiles surroundings files dismissed ambient profiles i d).lib := by
  induction profiles generalizing i d with
  | nil => exact h
  | cons p rest ih => exact ih (i + 1) (h.round files dismissed p (ambient i))

theorem Proper.module {d : Discovery} (h : Proper d.lib) (files : Files surroundings.documents)
    (ambient : Ambient) : Proper (discoverLegacy surroundings files d ambient).lib := by
  unfold discoverLegacy
  cases files.selected with
  | none => exact h
  | some hash =>
      dsimp only
      split
      · exact h
      · have hnext := h.addRecord surroundings (copyDraft_valid
          (((files.sourceName hash).bind cleanName).getD (text "Imported app")) hash) ambient
        split
        · rename_i lib' heq
          rw [heq] at hnext
          exact hnext
        · rename_i lib' app heq
          rw [heq] at hnext
          exact hnext

theorem Proper.discover {lib : TKAppLibrary} (h : Proper lib)
    (files : Files surroundings.documents) (ambient : ℕ → Ambient) :
    Proper (discover surroundings lib files ambient).1 := by
  have hrounds : Proper (discoverProfiles surroundings files lib.dismissedProfiles ambient
      lib.profiles 0 ⟨lib, knownOf lib.records, []⟩).lib :=
    Proper.rounds files lib.dismissedProfiles ambient lib.profiles 0 h
  have hmodule := hrounds.module files (ambient lib.profiles.length)
  unfold TKAppLibrary.discover
  dsimp only
  split
  · exact hrounds
  · dsimp only
    cases hsave : saveRecords surroundings _ _ _ true
        (ambient (lib.profiles.length + 1)).saves with
    | none => exact hmodule
    | some lib' => exact hmodule.save hsave hmodule.valid

variable (surroundings) in
theorem updateApp_frame (lib : TKAppLibrary) (app : AppRecord) (change : AppRecord → AppRecord)
    (saves : Bool) :
    let next := (updateApp surroundings lib app change saves).1
    next.profiles = lib.profiles ∧ next.dismissedProfiles = lib.dismissedProfiles ∧
      next.legacyImported = lib.legacyImported := by
  rcases updateApp_saved surroundings lib app change saves with
    heq | ⟨records, hsave⟩
  · rw [heq]
    exact ⟨rfl, rfl, rfl⟩
  · obtain ⟨-, data, -, heq⟩ := saveRecords_some hsave
    rw [heq]
    exact ⟨rfl, rfl, rfl⟩

theorem Proper.updateApp {lib : TKAppLibrary} (h : Proper lib) {app : AppRecord}
    {change : AppRecord → AppRecord} (hchange : ∀ r, r.valid = true → (change r).valid = true)
    (saves : Bool) : Proper (updateApp surroundings lib app change saves).1 := by
  unfold TKAppLibrary.updateApp
  cases hfirst : changeFirst app.id change lib.records with
  | none => exact h
  | some records =>
      dsimp only
      cases hsave : saveRecords surroundings lib records lib.dismissedProfiles
          lib.legacyImported saves with
      | none => exact h
      | some lib' =>
          obtain ⟨before, r, after, hrecords, -, rfl⟩ := changeFirst_some hfirst
          refine h.save hsave ?_
          have hvalid := h.valid
          intro x hx
          simp only [hrecords, List.mem_append, List.mem_cons] at hvalid hx
          rcases hx with hx | rfl | hx
          · exact hvalid x (Or.inl hx)
          · exact hchange r (hvalid r (Or.inr (Or.inl rfl)))
          · exact hvalid x (Or.inr (Or.inr hx))

theorem removeApp_cases (lib : TKAppLibrary) (app : AppRecord) (saves : Bool) :
    removeApp surroundings lib app saves = (lib, none) ∨
      ∃ removed lib', removed ∈ lib.records ∧
        saveRecords surroundings lib (lib.records.filter (·.id ≠ app.id))
          (lib.dismissedProfiles ∪ dismissals surroundings lib removed) lib.legacyImported saves =
            some lib' ∧
        removeApp surroundings lib app saves =
          (lib', some (removed, unusedCopy (lib.records.filter (·.id ≠ app.id)) removed)) := by
  unfold removeApp
  dsimp only
  cases hlast : (lib.records.filter (·.id = app.id)).getLast? with
  | none => exact Or.inl rfl
  | some removed =>
      dsimp only
      cases hsave : saveRecords surroundings lib (lib.records.filter (·.id ≠ app.id))
          (lib.dismissedProfiles ∪ dismissals surroundings lib removed) lib.legacyImported
          saves with
      | none => exact Or.inl rfl
      | some lib' =>
          exact Or.inr ⟨removed, lib', List.mem_of_mem_filter (List.mem_of_getLast? hlast), hsave,
            rfl⟩

variable (surroundings) in
theorem removeApp_frame (lib : TKAppLibrary) (app : AppRecord) (saves : Bool) :
    let next := (removeApp surroundings lib app saves).1
    next.profiles = lib.profiles ∧ lib.dismissedProfiles ⊆ next.dismissedProfiles ∧
      next.legacyImported = lib.legacyImported := by
  rcases removeApp_cases lib app saves with heq | ⟨removed, lib', -, hsave, heq⟩
  · rw [heq]
    exact ⟨rfl, Finset.Subset.refl _, rfl⟩
  · obtain ⟨-, data, -, rfl⟩ := saveRecords_some hsave
    rw [heq]
    exact ⟨rfl, Finset.subset_union_left, rfl⟩

theorem Proper.remove {lib : TKAppLibrary} (h : Proper lib) (app : AppRecord) (saves : Bool) :
    Proper (removeApp surroundings lib app saves).1 := by
  rcases removeApp_cases lib app saves with heq | ⟨removed, lib', -, hsave, heq⟩
  · rw [heq]
    exact h
  · rw [heq]
    exact h.save hsave fun r hr => h.valid r (List.mem_of_mem_filter hr)

/-- `renameApp`, `recordLaunchOfApp` and `currentSHA256OfApp` leave a library as it is or change
valid entries to valid ones. -/
theorem step_update (lib : TKAppLibrary) (op : Op surroundings)
    (hop : (∃ app name saves, op = .renameApp app name saves) ∨
      (∃ app now saves, op = .recordLaunchOfApp app now saves) ∨
      ∃ files app saves, op = .currentSHA256OfApp files app saves) :
    step lib op = lib ∨ ∃ app change saves, (∀ r : AppRecord, r.valid = true →
      (change r).valid = true) ∧
        step lib op = (updateApp surroundings lib app change saves).1 := by
  rcases hop with ⟨app, name, saves, rfl⟩ | ⟨app, now, saves, rfl⟩ | ⟨files, app, saves, rfl⟩
  · cases hname : cleanName name with
    | none =>
        refine Or.inl ?_
        simp only [step, renameApp, hname]
    | some clean =>
        refine Or.inr ⟨app, fun r => { r with name := clean }, saves, ?_, ?_⟩
        · intro r hvalid
          rw [valid_iff] at hvalid ⊢
          exact ⟨hvalid.1, cleanName_clean hname, hvalid.2.2⟩
        · simp only [step, renameApp, hname]
  · exact Or.inr ⟨app, fun r => { r with lastLaunched := some now }, saves, fun r h => h, rfl⟩
  · unfold step currentSHA256OfApp
    dsimp only
    split
    · exact Or.inl rfl
    · rename_i hash hcurrent
      split
      · refine Or.inr ⟨app, fun r => { r with sha256 := some hash.digits }, saves, ?_, rfl⟩
        intro r hvalid
        rw [valid_iff] at hvalid ⊢
        refine ⟨hvalid.1, hvalid.2.1, hvalid.2.2.1, hvalid.2.2.2.1, fun _ => rfl, ?_⟩
        intro digits hdigits
        cases hdigits
        exact hash.valid
      · exact Or.inl rfl

theorem Proper.step {lib : TKAppLibrary} (h : Proper lib) {op : Op surroundings}
    (hsame : ∀ profiles moves, op ≠ .reopen profiles moves) : Proper (step lib op) := by
  have hupdate : (TKAppLibrary.step lib op = lib ∨ ∃ app change saves, (∀ r : AppRecord,
      r.valid = true → (change r).valid = true) ∧ TKAppLibrary.step lib op =
        (TKAppLibrary.updateApp surroundings lib app change saves).1) →
      Proper (TKAppLibrary.step lib op) := by
    rintro (heq | ⟨app, change, saves, hchange, heq⟩)
    · rw [heq]
      exact h
    · rw [heq]
      exact h.updateApp hchange saves
  cases op with
  | importExecutable files path copy ambient =>
      rw [TKAppLibrary.step, importExecutable_eq]
      cases hdraft : importDraft surroundings lib files path copy with
      | none => exact h
      | some draft => exact h.addRecord surroundings (importDraft_valid hdraft) ambient
  | discover files ambient => exact h.discover files ambient
  | renameApp app name saves =>
      exact hupdate (step_update lib _ (Or.inl ⟨app, name, saves, rfl⟩))
  | recordLaunchOfApp app now saves =>
      exact hupdate (step_update lib _ (Or.inr (Or.inl ⟨app, now, saves, rfl⟩)))
  | currentSHA256OfApp files app saves =>
      exact hupdate (step_update lib _ (Or.inr (Or.inr ⟨files, app, saves, rfl⟩)))
  | removeApp app saves => exact h.remove app saves
  | reopen profiles moves => exact absurd rfl (hsame profiles moves)

theorem Proper.run {lib : TKAppLibrary} (h : Open surroundings lib) : Proper lib := by
  induction h with
  | opened profiles hids file moves => exact Proper.opened surroundings hids file moves
  | next h op same ih => exact ih.step same

/-! ## After a removal -/

/-- A removal dismisses every profile that leads to the executable: it is dismissed already, it
is the profile of the entry, or the entry has none and the path of the profile is that of the
executable as it is written. -/
def Dismisses (lib : TKAppLibrary) (files : Files surroundings.documents) (removed : AppRecord) :
    Prop :=
  ∀ p ∈ lib.profiles, resolve surroundings files p = some removed.executable →
    p.id ∈ lib.dismissedProfiles ∨ removed.profile = some p.id ∨
      (removed.profile = none ∧
        surroundings.standardizing p.executablePath = removed.executable)

/-- The module that is selected after a removal, which deletes an unused copy when the file
manager does so. -/
def selectedAfter (selected : Option Hash) (unused : Option NSString) (deletes : Bool) :
    Option Hash :=
  if deletes then selected.filter fun hash => unused ≠ some hash.digits else selected

/-- The profiles lead where they led, and no module of the executable was selected since. -/
def SameFiles (profiles : List Profile) (files : Files surroundings.documents)
    (selected : Option Hash) (executable : NSString) (files' : Files surroundings.documents) :
    Prop :=
  (∀ p ∈ profiles, resolve surroundings files' p = resolve surroundings files p) ∧
    ∀ hash, files'.selected = some hash → moduleExecutable hash.digits = executable →
      selected = some hash

/-- A step that neither imports the executable again nor takes back the dismissal of a profile
that leads to it. -/
def Keeps (files : Files surroundings.documents) (selected : Option Hash) (executable : NSString)
    (lib : TKAppLibrary) : Op surroundings → Prop
  | .importExecutable files' path copy ambient =>
    (∀ app, (importExecutable surroundings lib files' path copy ambient).2 = some app →
      app.executable ≠ executable) ∧
    ∀ draft, importDraft surroundings lib files' path copy = some draft →
      ClearsElsewhere lib files executable draft
  | .discover files' _ => SameFiles lib.profiles files selected executable files'
  | .reopen _ _ => False
  | _ => True

/-- A run after a removal. -/
inductive Later (files : Files surroundings.documents) (selected : Option Hash)
    (executable : NSString) (start : TKAppLibrary) : TKAppLibrary → Prop
  | refl : Later files selected executable start start
  | next {lib : TKAppLibrary} (h : Later files selected executable start lib)
      (op : Op surroundings) (keeps : Keeps files selected executable lib op) :
      Later files selected executable start (step lib op)

/-- What holds after a removal, until the executable is imported again. -/
structure Away (files : Files surroundings.documents) (selected : Option Hash)
    (executable : NSString) (lib : TKAppLibrary) : Prop where
  proper : Proper lib
  covered : Covered lib files executable
  noModule : NoModule lib selected executable

theorem Covered.same {lib : TKAppLibrary} {files files' : Files surroundings.documents}
    {executable : NSString} (h : Covered lib files executable)
    (hsame : ∀ p ∈ lib.profiles, resolve surroundings files' p = resolve surroundings files p) :
    Covered lib files' executable := by
  intro p hp hresolve
  rw [hsame p hp] at hresolve
  exact h p hp hresolve

theorem NoModule.same {lib : TKAppLibrary} {selected selected' : Option Hash}
    {executable : NSString} (h : NoModule lib selected executable)
    (hsame : ∀ hash, selected' = some hash → moduleExecutable hash.digits = executable →
      selected = some hash) : NoModule lib selected' executable := by
  rcases h with h | h
  · exact Or.inl h
  · refine Or.inr ?_
    intro hash hselected hmodule
    exact h hash (hsame hash hselected hmodule) hmodule

/-- Dismissed profiles stay so when a step adds to them. -/
theorem Away.frame {files : Files surroundings.documents} {selected : Option Hash}
    {executable : NSString} {lib lib' : TKAppLibrary} (h : Away files selected executable lib)
    (hproper : Proper lib') (hprofiles : lib'.profiles = lib.profiles)
    (hdismissed : lib.dismissedProfiles ⊆ lib'.dismissedProfiles)
    (hlegacy : lib'.legacyImported = lib.legacyImported) :
    Away files selected executable lib' := by
  refine ⟨hproper, ?_, ?_⟩
  · intro p hp hresolve
    rw [hprofiles] at hp
    exact hdismissed (h.covered p hp hresolve)
  · rcases h.noModule with hdone | hother
    · exact Or.inl (hlegacy.trans hdone)
    · exact Or.inr hother

theorem Away.update {files : Files surroundings.documents} {selected : Option Hash}
    {executable : NSString} {lib lib' : TKAppLibrary} (h : Away files selected executable lib)
    (hupdate : lib' = lib ∨ ∃ app change saves, (∀ r : AppRecord, r.valid = true →
      (change r).valid = true) ∧
        lib' = (updateApp surroundings lib app change saves).1) :
    Away files selected executable lib' := by
  rcases hupdate with rfl | ⟨app, change, saves, hchange, rfl⟩
  · exact h
  · obtain ⟨hprofiles, hdismissed, hlegacy⟩ :=
      updateApp_frame surroundings lib app change saves
    exact h.frame (h.proper.updateApp hchange saves) hprofiles hdismissed.superset hlegacy

theorem Away.step {files : Files surroundings.documents} {selected : Option Hash}
    {executable : NSString} {lib : TKAppLibrary} (h : Away files selected executable lib)
    {op : Op surroundings} (hop : Keeps files selected executable lib op) :
    Away files selected executable (step lib op) := by
  cases op with
  | importExecutable files' path copy ambient =>
      rw [TKAppLibrary.step, importExecutable_eq]
      cases hdraft : importDraft surroundings lib files' path copy with
      | none => exact h
      | some draft =>
          refine ⟨h.proper.addRecord surroundings (importDraft_valid hdraft) ambient,
            h.covered.addRecord (hop.2 draft hdraft) ambient, ?_⟩
          rcases h.noModule with hdone | hother
          · exact Or.inl ((addRecord_frame surroundings lib draft ambient).2.1.trans hdone)
          · exact Or.inr hother
  | discover files' ambient =>
      obtain ⟨hprofiles, hvalid, hcovered, hlegacy, -⟩ := discover_avoids h.proper.valid
        h.proper.ids (h.covered.same hop.1) (h.noModule.same hop.2) ambient
      refine ⟨h.proper.discover files' ambient, ?_, ?_⟩
      · refine Covered.same hcovered ?_
        intro p hp
        have hmem : p ∈ lib.profiles := by
          rw [← hprofiles]
          exact hp
        exact (hop.1 p hmem).symm
      · rcases h.noModule with hdone | hother
        · exact Or.inl (hlegacy hdone)
        · exact Or.inr hother
  | renameApp app name saves =>
      exact h.update (step_update lib _ (Or.inl ⟨app, name, saves, rfl⟩))
  | recordLaunchOfApp app now saves =>
      exact h.update (step_update lib _ (Or.inr (Or.inl ⟨app, now, saves, rfl⟩)))
  | currentSHA256OfApp files' app saves =>
      exact h.update (step_update lib _ (Or.inr (Or.inr ⟨files', app, saves, rfl⟩)))
  | removeApp app saves =>
      obtain ⟨hprofiles, hdismissed, hlegacy⟩ := removeApp_frame surroundings lib app saves
      exact h.frame (h.proper.remove app saves) hprofiles hdismissed hlegacy
  | reopen profiles moves => exact absurd hop id

theorem Away.run {files : Files surroundings.documents} {selected : Option Hash}
    {executable : NSString} {start lib : TKAppLibrary}
    (hstart : Away files selected executable start)
    (h : Later files selected executable start lib) : Away files selected executable lib := by
  induction h with
  | refl => exact hstart
  | next h op keeps ih => exact ih.step keeps

theorem Away.removal {lib lib' : TKAppLibrary} (h : Proper lib)
    {files : Files surroundings.documents} {app removed : AppRecord} {unused : Option NSString}
    {saves : Bool}
    (hremove : removeApp surroundings lib app saves = (lib', some (removed, unused)))
    (hdismisses : Dismisses lib files removed) {selected : Option Hash}
    (hmodule : NoModule lib selected removed.executable) :
    Away files selected removed.executable lib' := by
  rcases removeApp_cases lib app saves with heq | ⟨removed', lib'', -, hsave, heq⟩
  · rw [heq] at hremove
    cases hremove
  · have hproper := h.save hsave fun r hr => h.valid r (List.mem_of_mem_filter hr)
    rw [heq, Prod.mk.injEq, Option.some.injEq, Prod.mk.injEq] at hremove
    obtain ⟨rfl, rfl, -⟩ := hremove
    obtain ⟨-, data, -, rfl⟩ := saveRecords_some hsave
    refine ⟨hproper, ?_, hmodule⟩
    intro p hp hresolve
    refine Finset.mem_union.mpr ?_
    rcases hdismisses p hp hresolve with hbefore | hown | ⟨hnone, hstandard⟩
    · exact Or.inl hbefore
    · refine Or.inr ?_
      simp [dismissals, hown]
    · refine Or.inr ?_
      simp only [dismissals, hnone, List.mem_toFinset, List.mem_map, List.mem_filter, beq_iff_eq]
      exact ⟨p, ⟨hp, hstandard⟩, rfl⟩

/-- After a removal that dismisses every profile which leads to the executable, no discovery
with the same profiles and files adds it, until it is imported again or an import takes back
the dismissal of such a profile. -/
theorem removed_stays {lib lib' lib'' : TKAppLibrary} (h : Open surroundings lib)
    {files files' : Files surroundings.documents} {app removed : AppRecord}
    {unused : Option NSString} {saves deletes : Bool}
    (hremove : removeApp surroundings lib app saves = (lib', some (removed, unused)))
    (hdismisses : Dismisses lib files removed)
    (hmodule : NoModule lib (selectedAfter files.selected unused deletes) removed.executable)
    (hlater : Later files (selectedAfter files.selected unused deletes) removed.executable lib'
      lib'')
    (hsame : SameFiles lib''.profiles files (selectedAfter files.selected unused deletes)
      removed.executable files') (ambient : ℕ → Ambient) :
    ∀ found ∈ (discover surroundings lib'' files' ambient).2,
      found.executable ≠ removed.executable := by
  have hstart := Away.removal (Proper.run h) hremove hdismisses hmodule
  have haway := hstart.run hlater
  exact (discover_avoids haway.proper.valid haway.proper.ids (haway.covered.same hsame.1)
    (haway.noModule.same hsame.2) ambient).2.2.2.2

section Fixture

private def listed : AppRecord := appEntry firstId (text "P") (text "a") (some (text "p"))

private def shown (id : NSString) : AppRecord := appEntry id (text "run") (text "b") none

private def sampleFor (table : List Stored) : Surroundings :=
  { documents := text "/D"
    standardizing := id
    coder := tableCoder table
    standard := standard_id }

private def thirdId : NSString := zerosUUID 51

private def other : AppRecord := appEntry thirdId (text "P") (text "c") (some (text "q"))

private def plain : Surroundings :=
  sampleFor [⟨[listed], ∅, false⟩, ⟨[listed], ∅, true⟩, ⟨[], {text "p"}, true⟩,
    ⟨[shown secondId], {text "p"}, true⟩,
    ⟨[{ shown secondId with lastLaunched := some 7 }], {text "p"}, true⟩,
    ⟨[{ shown secondId with lastLaunched := some 7 }, other], {text "p"}, true⟩]

private def linked : Surroundings :=
  sampleFor [⟨[shown firstId], ∅, false⟩, ⟨[shown firstId], ∅, true⟩, ⟨[], ∅, true⟩,
    ⟨[shown secondId], ∅, true⟩]

private def plainFiles : Files plain.documents :=
  tableFiles (text "/D") [(text "/D", text "/D"), (text "/D/a/run", text "/D/a/run"),
    (text "/D/b/run", text "/D/b/run"), (text "/D/c/run", text "/D/c/run")] (by decide)

/-- The folder `a` is a link to the folder `b`. -/
private def linkedFiles : Files linked.documents :=
  tableFiles (text "/D") [(text "/D", text "/D"), (text "/D/a/run", text "/D/b/run"),
    (text "/D/b/run", text "/D/b/run")] (by decide)

private def around (id : NSString) : ℕ → Ambient := fun _ => ⟨id, 0, true⟩

private def profilesAt : List Profile := [appProfile (text "a") validRelative_a]

private def twoProfiles : List Profile :=
  [appProfile (text "a") validRelative_a,
    { appProfile (text "c") (by decide) with id := text "q" }]

/-- The entry of the second profile cannot be saved. -/
private def savesFirst (i : ℕ) : Ambient := ⟨firstId, 0, decide (i ≠ 1)⟩

private def plainLibrary : TKAppLibrary :=
  step (openLibrary plain twoProfiles none false) (.discover plainFiles savesFirst)

private def linkedLibrary : TKAppLibrary :=
  step (openLibrary linked profilesAt none false) (.discover linkedFiles (around firstId))

private theorem plainLibrary_open : Open plain plainLibrary :=
  .next (.opened twoProfiles (by decide) none false) (.discover plainFiles savesFirst)
    (by simp)

private def importsOther : Op plain :=
  .importExecutable plainFiles (text "/D/b/run") false ⟨secondId, 0, true⟩

private def launchesOther : Op plain := .recordLaunchOfApp (shown secondId) 7 true

private def plainRemoved : TKAppLibrary := (removeApp plain plainLibrary listed true).1

private def plainLater : TKAppLibrary := step (step plainRemoved importsOther) launchesOther

private theorem plain_answers :
    (removeApp plain plainLibrary listed true).2 = some (listed, none) ∧
      plainLibrary.profiles = twoProfiles ∧
      (importExecutable plain plainRemoved plainFiles (text "/D/b/run") false
        ⟨secondId, 0, true⟩).2 = some (shown secondId) ∧
      (importDraft plain plainRemoved plainFiles (text "/D/b/run") false).bind
        (cleared plainRemoved) = none ∧
      (discover plain plainLater plainFiles (around thirdId)).2 = [other] := by
  decide

private theorem plainLibrary_removes :
    removeApp plain plainLibrary listed true = (plainRemoved, some (listed, none)) :=
  Prod.ext rfl plain_answers.1

private theorem plainLibrary_dismisses : Dismisses plainLibrary plainFiles listed := by
  intro p hp hresolve
  rw [plain_answers.2.1, twoProfiles, List.mem_pair] at hp
  rcases hp with rfl | rfl
  · exact Or.inr (Or.inl rfl)
  · exact absurd hresolve (by decide)

private theorem plainFiles_module : NoModule plainLibrary
    (selectedAfter plainFiles.selected none true) listed.executable :=
  Or.inr (by simp [plainFiles, tableFiles, selectedAfter])

private theorem plainFiles_same (profiles : List Profile) : SameFiles profiles plainFiles
    (selectedAfter plainFiles.selected none true) listed.executable plainFiles :=
  ⟨fun _ _ => rfl, by simp [plainFiles, tableFiles]⟩

private theorem importsOther_keeps : Keeps plainFiles (selectedAfter plainFiles.selected none true)
    listed.executable plainRemoved importsOther := by
  obtain ⟨-, -, himported, hcleared, -⟩ := plain_answers
  refine ⟨?_, ?_⟩
  · intro app happ
    rw [himported] at happ
    cases happ
    decide
  · intro draft hdraft p _ hclears
    rw [hdraft, Option.bind_some, hclears] at hcleared
    cases hcleared

private theorem plainLater_later : Later plainFiles (selectedAfter plainFiles.selected none true)
    listed.executable plainRemoved plainLater :=
  .next (.next .refl importsOther importsOther_keeps) launchesOther trivial

/-- The entry of a profile without links stays removed when another executable is imported and
launched, while the entry of the second profile is found. -/
theorem removed_stays_fixture :
    (discover plain plainLater plainFiles (around thirdId)).2 = [other] ∧
      ∀ found ∈ (discover plain plainLater plainFiles (around thirdId)).2,
        found.executable ≠ listed.executable :=
  ⟨plain_answers.2.2.2.2, removed_stays plainLibrary_open plainLibrary_removes plainLibrary_dismisses
    plainFiles_module plainLater_later (plainFiles_same _) (around thirdId)⟩

private theorem shown_executable (id id' : NSString) :
    (shown id).executable = (shown id').executable := rfl

private theorem linkedLibrary_open : Open linked linkedLibrary :=
  .next (.opened profilesAt (by decide) none false) (.discover linkedFiles (around firstId))
    (by simp)

private theorem linked_answers :
    (removeApp linked linkedLibrary (shown firstId) true).2 = some (shown firstId, none) ∧
      shown secondId ∈ (discover linked (removeApp linked linkedLibrary (shown firstId) true).1
        linkedFiles (around secondId)).2 := by
  decide

/-- A profile whose path passes a link: the entry is removed, and discovered again. -/
theorem linked_returns :
    ∃ lib removed, Open linked lib ∧
      (removeApp linked lib removed true).2 = some (removed, none) ∧
      ∃ found ∈ (discover linked (removeApp linked lib removed true).1 linkedFiles
        (around secondId)).2, found.executable = removed.executable :=
  ⟨linkedLibrary, shown firstId, linkedLibrary_open, linked_answers.1, shown secondId,
    linked_answers.2, shown_executable _ _⟩

end Fixture

end TKAppLibrary

end Tolkara
