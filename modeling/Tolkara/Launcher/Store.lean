import Mathlib.Data.List.DropRight
import Tolkara.Launcher.Library

/-!
# What a library keeps

Over every run the entries have different ids, no two name one file in place or hold one copy,
all are valid, and the file holds what is in memory. An import may give the entry of a profile
the place that another entry has; `Clean` says when it does not.
-/

namespace Tolkara

open NSString

namespace TKAppLibrary

variable {surroundings : Surroundings}

/-! ## Single operations -/

variable (surroundings) in
def importDraft (lib : TKAppLibrary) (files : Files surroundings.documents) (path : NSString)
    (copy : Bool) : Option Draft :=
  (bundleExecutable surroundings files path).bind fun path =>
    match inPlace surroundings files path copy with
    | some rest =>
      (files.hash (join surroundings.documents rest)).bind fun hash =>
        if files.supported (join surroundings.documents rest) then
          some (inPlaceDraft surroundings lib files rest hash)
        else none
    | none =>
      (files.importHash path).map fun hash => copyDraft (nameForCopiedSource path) hash

theorem importExecutable_eq (lib : TKAppLibrary) (files : Files surroundings.documents)
    (path : NSString) (copy : Bool) (ambient : Ambient) :
    importExecutable surroundings lib files path copy ambient =
      match importDraft surroundings lib files path copy with
      | none => (lib, none)
      | some draft => addRecord surroundings lib draft ambient := by
  unfold importExecutable importDraft
  cases bundleExecutable surroundings files path with
  | none => rfl
  | some path =>
      dsimp only [Option.bind_some]
      cases inPlace surroundings files path copy with
      | none =>
          dsimp only
          cases files.importHash path with
          | none => rfl
          | some hash => rfl
      | some rest =>
          dsimp only
          cases files.hash (join surroundings.documents rest) with
          | none => rfl
          | some hash =>
              dsimp only [Option.bind_some]
              by_cases h : files.supported (join surroundings.documents rest) = true
              · simp [h]
              · simp [h]

theorem saveRecords_some {lib lib' : TKAppLibrary} {records : List AppRecord}
    {dismissed : Finset NSString} {legacy saves : Bool}
    (h : saveRecords surroundings lib records dismissed legacy saves = some lib') :
    saves = true ∧ ∃ data, surroundings.coder.encode ⟨records, dismissed, legacy⟩ = some data ∧
      lib' = ⟨lib.profiles, records, dismissed, legacy, some data⟩ := by
  unfold saveRecords at h
  split_ifs at h with hsaves
  obtain ⟨data, hdata, rfl⟩ := Option.map_eq_some_iff.mp h
  exact ⟨by simpa using hsaves, data, hdata, rfl⟩

theorem saveRecords_false (lib : TKAppLibrary) (records : List AppRecord)
    (dismissed : Finset NSString) (legacy : Bool) :
    saveRecords surroundings lib records dismissed legacy false = none := by
  simp [saveRecords]

theorem refresh_some {draft : Draft} {records records' : List AppRecord} {entry : AppRecord}
    (h : refresh draft records = some (records', entry)) :
    ∃ before existing after, records = before ++ existing :: after ∧
      (∀ r ∈ before, same draft r = false) ∧ same draft existing = true ∧
      entry = updated draft existing ∧ records' = before ++ entry :: after := by
  induction records generalizing records' with
  | nil => cases h
  | cons r rest ih =>
      rw [refresh] at h
      split_ifs at h with hsame
      · cases h
        exact ⟨[], r, rest, rfl, by simp, hsame, rfl, rfl⟩
      · obtain ⟨⟨tail, entry'⟩, htail, heq⟩ := Option.map_eq_some_iff.mp h
        simp only [Prod.mk.injEq] at heq
        obtain ⟨rfl, rfl⟩ := heq
        obtain ⟨before, existing, after, rfl, hbefore, hexisting, hentry, rfl⟩ := ih htail
        refine ⟨r :: before, existing, after, rfl, ?_, hexisting, hentry, rfl⟩
        intro x hx
        rcases List.mem_cons.mp hx with rfl | hx
        · simpa using hsame
        · exact hbefore x hx

theorem refresh_none {draft : Draft} {records : List AppRecord}
    (h : refresh draft records = none) : ∀ r ∈ records, same draft r = false := by
  induction records with
  | nil => simp
  | cons r rest ih =>
      rw [refresh] at h
      split_ifs at h with hsame
      intro x hx
      rcases List.mem_cons.mp hx with rfl | hx
      · simpa using hsame
      · exact ih (Option.map_eq_none_iff.mp h) x hx

/-- What `addRecord` does: nothing, or it refreshes an entry or appends one, and saves. -/
theorem addRecord_cases (lib : TKAppLibrary) (draft : Draft) (ambient : Ambient) :
    addRecord surroundings lib draft ambient = (lib, none) ∨
      ambient.saves = true ∧
        ((∃ before existing after data, lib.records = before ++ existing :: after ∧
            (∀ r ∈ before, same draft r = false) ∧ same draft existing = true ∧
            surroundings.coder.encode ⟨before ++ updated draft existing :: after,
              undismiss lib.dismissedProfiles existing.profile, lib.legacyImported⟩ = some data ∧
            addRecord surroundings lib draft ambient =
              (⟨lib.profiles, before ++ updated draft existing :: after,
                undismiss lib.dismissedProfiles existing.profile, lib.legacyImported, some data⟩,
                if (updated draft existing).valid then some (updated draft existing)
                else none)) ∨
          ∃ data, (∀ r ∈ lib.records, same draft r = false) ∧
            (entryOf draft ambient).valid = true ∧
            surroundings.coder.encode ⟨lib.records ++ [entryOf draft ambient],
              undismiss lib.dismissedProfiles draft.profile, lib.legacyImported⟩ = some data ∧
            addRecord surroundings lib draft ambient =
              (⟨lib.profiles, lib.records ++ [entryOf draft ambient],
                undismiss lib.dismissedProfiles draft.profile, lib.legacyImported, some data⟩,
                some (entryOf draft ambient))) := by
  have hprofile : ∀ existing : AppRecord, (updated draft existing).profile = existing.profile := by
    intro existing
    unfold updated
    dsimp only
    split <;> rfl
  unfold addRecord
  cases hrefresh : refresh draft lib.records with
  | some p =>
      obtain ⟨records, entry⟩ := p
      obtain ⟨before, existing, after, hrecords, hbefore, hsame, rfl, rfl⟩ :=
        refresh_some hrefresh
      dsimp only
      rw [hprofile]
      cases hsave : saveRecords surroundings lib (before ++ updated draft existing :: after)
          (undismiss lib.dismissedProfiles existing.profile) lib.legacyImported
          ambient.saves with
      | none => exact Or.inl rfl
      | some lib' =>
          obtain ⟨hsaves, data, hdata, rfl⟩ := saveRecords_some hsave
          exact Or.inr ⟨hsaves, Or.inl ⟨before, existing, after, data, hrecords, hbefore, hsame,
            hdata, rfl⟩⟩
  | none =>
      dsimp only
      split
      · rename_i hvalid
        cases hsave : saveRecords surroundings lib (lib.records ++ [entryOf draft ambient])
            (undismiss lib.dismissedProfiles draft.profile) lib.legacyImported
            ambient.saves with
        | none => exact Or.inl rfl
        | some lib' =>
            obtain ⟨hsaves, data, hdata, rfl⟩ := saveRecords_some hsave
            exact Or.inr ⟨hsaves, Or.inr ⟨data, refresh_none hrefresh, hvalid, hdata, rfl⟩⟩
      · exact Or.inl rfl

/-! ## The invariant -/

/-- Two entries stand for different applications. -/
structure Distinct (a b : AppRecord) : Prop where
  id : a.id ≠ b.id
  place : a.source = .documents → b.source = .documents → a.executable ≠ b.executable
  copy : a.source = .copy → b.source = .copy → a.sha256 ≠ b.sha256

variable (surroundings) in
/-- The entries are different and valid, and the file holds them. -/
structure Sound (lib : TKAppLibrary) : Prop where
  distinct : lib.records.Pairwise Distinct
  valid : ∀ r ∈ lib.records, r.valid = true
  saved : (lib.file = none ∧ lib.records = [] ∧ lib.dismissedProfiles = ∅ ∧
      lib.legacyImported = false) ∨
    ∃ data, lib.file = some data ∧ surroundings.coder.decode data =
      some ⟨lib.records, lib.dismissedProfiles, lib.legacyImported⟩

variable (surroundings) in
/-- A sound library, with the ids that its entries have had and their sources. -/
structure Kept (seen : List (NSString × AppSource)) (lib : TKAppLibrary) : Prop where
  sound : Sound surroundings lib
  handles : ∀ r ∈ lib.records, (r.id, r.source) ∈ seen
  single : ∀ id a b, (id, a) ∈ seen → (id, b) ∈ seen → a = b

/-- The hash of a draft is one, and a place that comes from a profile is valid. -/
structure DraftValid (draft : Draft) : Prop where
  hash : ∀ hash ∈ draft.sha256, validHash hash = true
  place : draft.profile.isSome → validRelative draft.executable false = true ∧
    validRelative draft.workingDirectory true = true

/-- No entry behind the one that moves with its profile has the place it moves to. -/
def MovesAlone (lib : TKAppLibrary) (draft : Draft) : Prop :=
  ∀ before existing after, lib.records = before ++ existing :: after →
    (∀ r ∈ before, same draft r = false) → profiled draft existing = true →
      ∀ r ∈ after, r.source = .documents → r.executable ≠ draft.executable

theorem Distinct.symm {a b : AppRecord} (h : Distinct a b) : Distinct b a :=
  ⟨h.id.symm, fun hb ha => (h.place ha hb).symm, fun hb ha => (h.copy ha hb).symm⟩

theorem pairwise_insert {before after : List AppRecord} {r : AppRecord} :
    (before ++ r :: after).Pairwise Distinct ↔
      (before ++ after).Pairwise Distinct ∧ ∀ x ∈ before ++ after, Distinct x r := by
  simp only [List.pairwise_append, List.pairwise_cons, List.mem_append, List.mem_cons]
  constructor
  · rintro ⟨hbefore, ⟨hr, hafter⟩, hcross⟩
    refine ⟨⟨hbefore, hafter, fun a ha b hb => hcross a ha b (Or.inr hb)⟩, ?_⟩
    rintro x (hx | hx)
    · exact hcross x hx r (Or.inl rfl)
    · exact (hr x hx).symm
  · rintro ⟨⟨hbefore, hafter, hcross⟩, hr⟩
    refine ⟨hbefore, ⟨fun x hx => (hr x (Or.inr hx)).symm, hafter⟩, ?_⟩
    rintro a ha b (rfl | hb)
    · exact hr a (Or.inl ha)
    · exact hcross a ha b hb

@[simp] theorem updated_id (draft : Draft) (r : AppRecord) : (updated draft r).id = r.id := by
  unfold updated
  dsimp only
  split <;> rfl

@[simp] theorem updated_source (draft : Draft) (r : AppRecord) :
    (updated draft r).source = r.source := by
  unfold updated
  dsimp only
  split <;> rfl

@[simp] theorem updated_name (draft : Draft) (r : AppRecord) :
    (updated draft r).name = r.name := by
  unfold updated
  dsimp only
  split <;> rfl

@[simp] theorem updated_sha256 (draft : Draft) (r : AppRecord) :
    (updated draft r).sha256 = (draft.sha256 <|> r.sha256) := by
  unfold updated
  dsimp only

theorem updated_place (draft : Draft) (r : AppRecord) :
    (profiled draft r = true ∧ (updated draft r).executable = draft.executable ∧
        (updated draft r).workingDirectory = draft.workingDirectory) ∨
      profiled draft r = false ∧ (updated draft r).executable = r.executable ∧
        (updated draft r).workingDirectory = r.workingDirectory := by
  unfold updated
  cases profiled draft r with
  | true => exact Or.inl ⟨rfl, rfl, rfl⟩
  | false => exact Or.inr ⟨rfl, rfl, rfl⟩

/-- A profile moves entries in place. -/
theorem profiled_source {draft : Draft} {r : AppRecord} (h : profiled draft r = true) :
    draft.source = .documents ∧ r.source = .documents ∧ draft.profile.isSome = true := by
  simp only [profiled, Bool.and_eq_true, beq_iff_eq] at h
  exact ⟨h.1.1.1, h.1.1.2, h.1.2⟩

theorem not_same {draft : Draft} {r : AppRecord} (h : same draft r = false) :
    (draft.source = .documents → r.source = .documents → r.executable ≠ draft.executable) ∧
      (draft.source = .copy → r.source = .copy → r.sha256 ≠ draft.sha256) := by
  simp only [same, Bool.or_eq_false_iff, Bool.and_eq_false_iff, beq_eq_false_iff_ne] at h
  obtain ⟨-, h⟩ := h
  constructor
  · intro hdraft hr heq
    rcases h with h | h
    · exact h (hr.trans hdraft.symm)
    · rw [hdraft] at h
      simp [heq] at h
  · intro hdraft hr heq
    rcases h with h | h
    · exact h (hr.trans hdraft.symm)
    · rw [hdraft] at h
      simp [heq] at h

theorem valid_iff (r : AppRecord) :
    r.valid = true ↔ r.id.isUUID = true ∧ (cleanName r.name).isSome = true ∧
      validRelative r.executable false = true ∧ validRelative r.workingDirectory true = true ∧
      (r.source = .copy → r.sha256.isSome = true) ∧
      ∀ hash ∈ r.sha256, validHash hash = true := by
  simp only [AppRecord.valid, Bool.and_eq_true, Bool.or_eq_true, beq_iff_eq, and_assoc]
  cases hsource : r.source with
  | documents =>
      cases hsha : r.sha256 with
      | none => simp
      | some hash => simp
  | copy =>
      cases hsha : r.sha256 with
      | none => simp
      | some hash => simp

theorem updated_valid {draft : Draft} {r : AppRecord} (hdraft : DraftValid draft)
    (hr : r.valid = true) : (updated draft r).valid = true := by
  rw [valid_iff] at hr ⊢
  obtain ⟨hid, hname, hplace, hdirectory, hcopy, hhash⟩ := hr
  rw [updated_id, updated_name, updated_source, updated_sha256]
  have hplaces : validRelative (updated draft r).executable false = true ∧
      validRelative (updated draft r).workingDirectory true = true := by
    rcases updated_place draft r with ⟨hprofiled, hexecutable, hworking⟩ |
        ⟨-, hexecutable, hworking⟩
    · rw [hexecutable, hworking]
      exact hdraft.place (profiled_source hprofiled).2.2
    · rw [hexecutable, hworking]
      exact ⟨hplace, hdirectory⟩
  refine ⟨hid, hname, hplaces.1, hplaces.2, ?_, ?_⟩
  · intro hsource
    cases draft.sha256 with
    | none => exact hcopy hsource
    | some digits => rfl
  · intro hash hmem
    cases hsha : draft.sha256 with
    | none =>
        rw [hsha] at hmem
        exact hhash hash hmem
    | some digits =>
        rw [hsha] at hmem
        cases hmem
        exact hdraft.hash _ hsha

/-- The entry that is refreshed stays different from the others. -/
theorem updated_distinct {draft : Draft} {r x : AppRecord} (hr : Distinct x r)
    (hsame : same draft r = true)
    (hplace : profiled draft r = true → x.source = .documents →
      x.executable ≠ draft.executable) : Distinct x (updated draft r) := by
  refine ⟨?_, ?_, ?_⟩
  · rw [updated_id]
    exact hr.id
  · intro hx hsource
    rw [updated_source] at hsource
    rcases updated_place draft r with ⟨hprofiled, hexecutable, -⟩ | ⟨-, hexecutable, -⟩
    · rw [hexecutable]
      exact hplace hprofiled hx
    · rw [hexecutable]
      exact hr.place hx hsource
  · intro hx hsource
    rw [updated_source] at hsource
    have hsha : (draft.sha256 <|> r.sha256) = r.sha256 := by
      have hnot : profiled draft r = false := by
        rw [Bool.eq_false_iff]
        intro hprofiled
        cases (profiled_source hprofiled).2.1.symm.trans hsource
      simp only [same, hnot, Bool.false_or, Bool.and_eq_true, beq_iff_eq] at hsame
      obtain ⟨hsources, hmatch⟩ := hsame
      rw [← hsources, hsource] at hmatch
      rw [← beq_iff_eq.mp hmatch]
      cases r.sha256 with
      | none => rfl
      | some digits => rfl
    rw [updated_sha256, hsha]
    exact hr.copy hx hsource

theorem Kept.addRecord {seen : List (NSString × AppSource)} {lib : TKAppLibrary}
    (h : Kept surroundings seen lib) {draft : Draft} (hdraft : DraftValid draft)
    (hmoves : MovesAlone lib draft) {ambient : Ambient}
    (hfresh : ∀ source, (ambient.uuid, source) ∉ seen) :
    ∃ seen', Kept surroundings seen' (addRecord surroundings lib draft ambient).1 ∧
      seen ⊆ seen' ∧ ∀ k ∈ seen', k ∈ seen ∨ k.1 = ambient.uuid := by
  rcases addRecord_cases lib draft ambient with hnone | ⟨-, hrefreshed | hadded⟩
  · rw [hnone]
    exact ⟨seen, h, List.Subset.refl _, fun k hk => Or.inl hk⟩
  · obtain ⟨before, existing, after, data, hrecords, hbefore, hsame, hdata, heq⟩ := hrefreshed
    rw [heq]
    refine ⟨seen, ⟨⟨?_, ?_, Or.inr ⟨data, rfl, surroundings.coder.decode_encode hdata⟩⟩, ?_,
      h.single⟩, List.Subset.refl _, fun k hk => Or.inl hk⟩
    · have hdistinct := h.sound.distinct
      rw [hrecords, pairwise_insert] at hdistinct
      rw [pairwise_insert]
      refine ⟨hdistinct.1, ?_⟩
      intro x hx
      refine updated_distinct (hdistinct.2 x hx) hsame ?_
      intro hprofiled hsource
      rcases List.mem_append.mp hx with hx | hx
      · exact (not_same (hbefore x hx)).1 (profiled_source hprofiled).1 hsource
      · exact hmoves before existing after hrecords hbefore hprofiled x hx hsource
    · intro r hr
      have hvalid := h.sound.valid
      rw [hrecords] at hvalid
      simp only [List.mem_append, List.mem_cons] at hr hvalid
      rcases hr with hr | rfl | hr
      · exact hvalid r (Or.inl hr)
      · exact updated_valid hdraft (hvalid existing (Or.inr (Or.inl rfl)))
      · exact hvalid r (Or.inr (Or.inr hr))
    · intro r hr
      have hhandles := h.handles
      rw [hrecords] at hhandles
      simp only [List.mem_append, List.mem_cons] at hr hhandles
      rcases hr with hr | rfl | hr
      · exact hhandles r (Or.inl hr)
      · rw [updated_id, updated_source]
        exact hhandles existing (Or.inr (Or.inl rfl))
      · exact hhandles r (Or.inr (Or.inr hr))
  · obtain ⟨data, hother, hvalid, hdata, heq⟩ := hadded
    rw [heq]
    refine ⟨seen ++ [(ambient.uuid, draft.source)],
      ⟨⟨?_, ?_, Or.inr ⟨data, rfl, surroundings.coder.decode_encode hdata⟩⟩, ?_, ?_⟩,
      List.subset_append_left _ _, ?_⟩
    · rw [pairwise_insert, List.append_nil]
      refine ⟨h.sound.distinct, ?_⟩
      intro x hx
      refine ⟨?_, ?_, ?_⟩
      · intro hid
        refine hfresh x.source ?_
        have hhandle := h.handles x hx
        rw [hid] at hhandle
        exact hhandle
      · intro hsource hdocuments
        exact (not_same (hother x hx)).1 hdocuments hsource
      · intro hsource hcopy
        exact (not_same (hother x hx)).2 hcopy hsource
    · intro r hr
      rcases List.mem_append.mp hr with hr | hr
      · exact h.sound.valid r hr
      · rw [List.mem_singleton] at hr
        rw [hr]
        exact hvalid
    · intro r hr
      rcases List.mem_append.mp hr with hr | hr
      · exact List.mem_append_left _ (h.handles r hr)
      · rw [List.mem_singleton] at hr
        rw [hr]
        exact List.mem_append_right _ (List.mem_singleton.mpr rfl)
    · intro id a b ha hb
      simp only [List.mem_append, List.mem_singleton, Prod.mk.injEq] at ha hb
      rcases ha with ha | ⟨rfl, rfl⟩
      · rcases hb with hb | ⟨rfl, rfl⟩
        · exact h.single id a b ha hb
        · exact absurd ha (hfresh a)
      · rcases hb with hb | ⟨-, rfl⟩
        · exact absurd hb (hfresh b)
        · rfl
    · intro k hk
      rcases List.mem_append.mp hk with hk | hk
      · exact Or.inl hk
      · rw [List.mem_singleton] at hk
        rw [hk]
        exact Or.inr rfl

/-- A draft that is valid is either added or changes nothing. -/
theorem addRecord_none {lib lib' : TKAppLibrary} {draft : Draft} {ambient : Ambient}
    (hvalid : ∀ r ∈ lib.records, r.valid = true) (hdraft : DraftValid draft)
    (h : addRecord surroundings lib draft ambient = (lib', none)) : lib' = lib := by
  rcases addRecord_cases lib draft ambient with hnone | ⟨-, hrefreshed | hadded⟩
  · rw [hnone] at h
    cases h
    rfl
  · obtain ⟨before, existing, after, data, hrecords, -, -, -, heq⟩ := hrefreshed
    have hexisting : existing.valid = true := hvalid existing (by simp [hrecords])
    rw [heq, if_pos (updated_valid hdraft hexisting)] at h
    cases h
  · obtain ⟨data, -, -, -, heq⟩ := hadded
    rw [heq] at h
    cases h

theorem addRecord_places {lib lib' : TKAppLibrary} {draft : Draft} {ambient : Ambient}
    {app : AppRecord} (h : addRecord surroundings lib draft ambient = (lib', some app)) :
    ∀ r ∈ lib'.records, r.executable = draft.executable ∨
      ∃ x ∈ lib.records, x.executable = r.executable := by
  intro r hr
  rcases addRecord_cases lib draft ambient with hnone | ⟨-, hrefreshed | hadded⟩
  · rw [hnone] at h
    cases h
  · obtain ⟨before, existing, after, data, hrecords, -, -, -, heq⟩ := hrefreshed
    rw [heq, Prod.mk.injEq] at h
    obtain ⟨rfl, -⟩ := h
    rw [hrecords]
    simp only [List.mem_append, List.mem_cons] at hr ⊢
    rcases hr with hr | rfl | hr
    · exact Or.inr ⟨r, Or.inl hr, rfl⟩
    · rcases updated_place draft existing with ⟨-, hplace, -⟩ | ⟨-, hplace, -⟩
      · exact Or.inl hplace
      · exact Or.inr ⟨existing, Or.inr (Or.inl rfl), hplace.symm⟩
    · exact Or.inr ⟨r, Or.inr (Or.inr hr), rfl⟩
  · obtain ⟨data, -, -, -, heq⟩ := hadded
    rw [heq] at h
    cases h
    rcases List.mem_append.mp hr with hr | hr
    · exact Or.inr ⟨r, hr, rfl⟩
    · rw [List.mem_singleton] at hr
      rw [hr]
      exact Or.inl rfl

/-! ## Drafts -/

theorem relativeInDocuments_some {files : Files surroundings.documents} {path rest : NSString}
    (h : relativeInDocuments surroundings files path = some rest) :
    ∃ root, files.realPath surroundings.documents = some root ∧ root ≠ [] ∧
      files.realPath path = some (root ++ slash :: rest) := by
  unfold relativeInDocuments at h
  split at h
  · rename_i root real hroot hreal
    split_ifs at h with hfront
    cases h
    obtain ⟨tail, rfl⟩ := List.isPrefixOf_iff_prefix.mp hfront
    refine ⟨root, hroot, ?_, ?_⟩
    · rintro rfl
      cases files.absolute hroot
    · rw [hreal, List.append_assoc, List.singleton_append, List.drop_append]
      simp
  · cases h

theorem relativeInDocuments_valid {files : Files surroundings.documents} {path rest : NSString}
    (h : relativeInDocuments surroundings files path = some rest) :
    validRelative rest false = true := by
  obtain ⟨root, -, hne, hreal⟩ := relativeInDocuments_some h
  exact files.normal hreal hne

theorem validRelative_true {path : NSString} (h : validRelative path false = true) :
    validRelative path true = true := by
  unfold validRelative at h ⊢
  split_ifs at h ⊢
  all_goals first | rfl | exact h

theorem inPlaceDraft_valid (lib : TKAppLibrary) (files : Files surroundings.documents)
    {path : NSString} (hpath : validRelative path false = true) (hash : Hash) :
    DraftValid (inPlaceDraft surroundings lib files path hash) := by
  refine ⟨?_, ?_⟩
  · intro digits hdigits
    cases hdigits
    exact hash.valid
  · intro hprofile
    refine ⟨hpath, ?_⟩
    unfold inPlaceDraft describeExecutable at hprofile ⊢
    dsimp only at hprofile ⊢
    cases hfind : lib.profiles.find?
        (fun p => surroundings.standardizing p.executablePath == path) with
    | some p => exact validRelative_true p.validDirectory
    | none =>
        simp only [hfind] at hprofile
        split at hprofile
        · cases hprofile
        · cases hprofile

theorem copyDraft_valid (name : NSString) (hash : Hash) : DraftValid (copyDraft name hash) := by
  refine ⟨?_, ?_⟩
  · intro digits hdigits
    cases hdigits
    exact hash.valid
  · intro hprofile
    cases hprofile

theorem importDraft_cases {lib : TKAppLibrary} {files : Files surroundings.documents}
    {path : NSString} {copy : Bool} {draft : Draft}
    (h : importDraft surroundings lib files path copy = some draft) :
    (∃ path' rest hash, relativeInDocuments surroundings files path' = some rest ∧
        draft = inPlaceDraft surroundings lib files rest hash) ∨
      ∃ name hash, draft = copyDraft name hash := by
  obtain ⟨path', -, h⟩ := Option.bind_eq_some_iff.mp h
  cases hplace : inPlace surroundings files path' copy with
  | some rest =>
      simp only [hplace] at h
      obtain ⟨hash, -, h⟩ := Option.bind_eq_some_iff.mp h
      split_ifs at h
      cases h
      refine Or.inl ⟨path', rest, hash, ?_, rfl⟩
      unfold inPlace at hplace
      split_ifs at hplace
      exact (Option.filter_eq_some_iff.mp hplace).1
  | none =>
      simp only [hplace] at h
      obtain ⟨hash, -, rfl⟩ := Option.map_eq_some_iff.mp h
      exact Or.inr ⟨_, hash, rfl⟩

theorem importDraft_valid {lib : TKAppLibrary} {files : Files surroundings.documents}
    {path : NSString} {copy : Bool} {draft : Draft}
    (h : importDraft surroundings lib files path copy = some draft) : DraftValid draft := by
  rcases importDraft_cases h with ⟨path', rest, hash, hrest, rfl⟩ | ⟨name, hash, rfl⟩
  · exact inPlaceDraft_valid lib files (relativeInDocuments_valid hrest) hash
  · exact copyDraft_valid name hash

theorem copyDraft_moves (lib : TKAppLibrary) (name : NSString) (hash : Hash) :
    MovesAlone lib (copyDraft name hash) := by
  intro before existing after hrecords hbefore hprofiled
  cases (profiled_source hprofiled).1

/-! ## The other operations -/

theorem Kept.save {seen : List (NSString × AppSource)} {lib lib' : TKAppLibrary}
    (h : Kept surroundings seen lib) {records : List AppRecord} {dismissed : Finset NSString}
    {legacy saves : Bool}
    (hsave : saveRecords surroundings lib records dismissed legacy saves = some lib')
    (hdistinct : records.Pairwise Distinct) (hvalid : ∀ r ∈ records, r.valid = true)
    (hhandles : ∀ r ∈ records, (r.id, r.source) ∈ seen) : Kept surroundings seen lib' := by
  obtain ⟨-, data, hdata, rfl⟩ := saveRecords_some hsave
  exact ⟨⟨hdistinct, hvalid, Or.inr ⟨data, rfl, surroundings.coder.decode_encode hdata⟩⟩,
    hhandles, h.single⟩

theorem changeFirst_some {id : NSString} {change : AppRecord → AppRecord}
    {records records' : List AppRecord} (h : changeFirst id change records = some records') :
    ∃ before r after, records = before ++ r :: after ∧ r.id = id ∧
      records' = before ++ change r :: after := by
  induction records generalizing records' with
  | nil => cases h
  | cons x rest ih =>
      rw [changeFirst] at h
      split_ifs at h with hid
      · cases h
        exact ⟨[], x, rest, rfl, hid, rfl⟩
      · obtain ⟨tail, htail, rfl⟩ := Option.map_eq_some_iff.mp h
        obtain ⟨before, r, after, rfl, hr, rfl⟩ := ih htail
        exact ⟨x :: before, r, after, rfl, hr, rfl⟩

/-- A change that `updateApp` may make to an entry. -/
structure Harmless (r r' : AppRecord) : Prop where
  id : r'.id = r.id
  source : r'.source = r.source
  place : r'.executable = r.executable
  copy : r.source = .copy → r'.sha256 = r.sha256
  valid : r.valid = true → r'.valid = true

theorem Kept.updateApp {seen : List (NSString × AppSource)} {lib : TKAppLibrary}
    (h : Kept surroundings seen lib) {app : AppRecord} {change : AppRecord → AppRecord}
    (saves : Bool) (hchange : ∀ r ∈ lib.records, r.id = app.id → Harmless r (change r)) :
    Kept surroundings seen (updateApp surroundings lib app change saves).1 := by
  unfold TKAppLibrary.updateApp
  cases hfirst : changeFirst app.id change lib.records with
  | none => exact h
  | some records =>
      dsimp only
      cases hsave : saveRecords surroundings lib records lib.dismissedProfiles
          lib.legacyImported saves with
      | none => exact h
      | some lib' =>
          obtain ⟨before, r, after, hrecords, hid, rfl⟩ := changeFirst_some hfirst
          have hr : Harmless r (change r) := hchange r (by simp [hrecords]) hid
          have hdistinct := h.sound.distinct
          have hvalid := h.sound.valid
          have hhandles := h.handles
          rw [hrecords] at hdistinct hvalid hhandles
          rw [pairwise_insert] at hdistinct
          refine h.save hsave ?_ ?_ ?_
          · rw [pairwise_insert]
            refine ⟨hdistinct.1, ?_⟩
            intro x hx
            have hother := hdistinct.2 x hx
            refine ⟨?_, ?_, ?_⟩
            · rw [hr.id]
              exact hother.id
            · intro hxsource hsource
              rw [hr.place]
              exact hother.place hxsource (hr.source.symm.trans hsource)
            · intro hxsource hsource
              have hcopy := hr.source.symm.trans hsource
              rw [hr.copy hcopy]
              exact hother.copy hxsource hcopy
          · intro x hx
            simp only [List.mem_append, List.mem_cons] at hx hvalid
            rcases hx with hx | rfl | hx
            · exact hvalid x (Or.inl hx)
            · exact hr.valid (hvalid r (Or.inr (Or.inl rfl)))
            · exact hvalid x (Or.inr (Or.inr hx))
          · intro x hx
            simp only [List.mem_append, List.mem_cons] at hx hhandles
            rcases hx with hx | rfl | hx
            · exact hhandles x (Or.inl hx)
            · rw [hr.id, hr.source]
              exact hhandles r (Or.inr (Or.inl rfl))
            · exact hhandles x (Or.inr (Or.inr hx))

theorem trimmed_head {s : NSString} {u : UInt16} {rest : NSString} (h : s.trimmed = u :: rest) :
    NSString.isWhitespace u = false := by
  have hfront : s.trimmed <+: s.dropWhile NSString.isWhitespace :=
    List.rdropWhile_prefix NSString.isWhitespace _
  obtain ⟨tail, htail⟩ := hfront
  rw [h, List.cons_append] at htail
  have hne : s.dropWhile NSString.isWhitespace ≠ [] := by
    rw [← htail]
    exact List.cons_ne_nil _ _
  have hhead := List.head_dropWhile_not NSString.isWhitespace hne
  simp only [← htail, List.head_cons] at hhead
  exact hhead

theorem cleanName_cons {u : UInt16} (hu : NSString.isWhitespace u = false) (rest : NSString) :
    (cleanName (u :: rest)).isSome = true := by
  have hne : NSString.trimmed (u :: rest) ≠ [] := by
    intro hnil
    rw [trimmed_eq_nil] at hnil
    rw [hnil u (List.mem_cons_self)] at hu
    cases hu
  simp [cleanName, hne]

theorem cleanName_clean {name clean : NSString} (h : cleanName name = some clean) :
    (cleanName clean).isSome = true := by
  have hne : name.trimmed ≠ [] := by
    intro hnil
    rw [cleanName, if_pos hnil] at h
    cases h
  obtain ⟨u, rest, hcons⟩ := List.exists_cons_of_ne_nil hne
  have hhead := trimmed_head hcons
  rw [cleanName, if_neg hne, hcons, Option.some.injEq] at h
  rw [← h]
  split
  · exact cleanName_cons hhead (rest.take 99)
  · exact cleanName_cons hhead rest

/-! ## Discovery -/

/-- What holds between the rounds of `discover`: the library is kept and its places are known. -/
structure Discovering (surroundings : Surroundings) (seen : List (NSString × AppSource))
    (d : Discovery) : Prop where
  kept : Kept surroundings seen d.lib
  known : ∀ r ∈ d.lib.records, r.executable ∈ d.known

theorem mem_knownOf {records : List AppRecord} {r : AppRecord} (h : r ∈ records) :
    r.executable ∈ knownOf records := by
  rw [knownOf, List.mem_flatMap]
  exact ⟨r, h, List.mem_cons_self⟩

/-- A file that no entry names moves alone. -/
theorem movesAlone_of_unknown {lib : TKAppLibrary} {draft : Draft}
    (h : ∀ r ∈ lib.records, r.executable ≠ draft.executable) : MovesAlone lib draft := by
  intro before existing after hrecords hbefore hprofiled r hr hsource
  exact h r (by simp [hrecords, hr])

/-- What a profile offers is new and stands in `Documents`. -/
theorem candidate_some {files : Files surroundings.documents} {dismissed : Finset NSString}
    {known : List NSString} {p : Profile} {real : NSString} {hash : Hash}
    (h : candidate surroundings files dismissed known p = some (real, hash)) :
    p.id ∉ dismissed ∧ real ∉ known ∧
      relativeInDocuments surroundings files (join surroundings.documents p.executablePath) =
        some real := by
  unfold candidate at h
  split_ifs at h with hskip
  rw [not_or] at hskip
  cases hreal : relativeInDocuments surroundings files
      (join surroundings.documents p.executablePath) with
  | none =>
      simp only [hreal] at h
      cases h
  | some path =>
      simp only [hreal] at h
      split_ifs at h with hbad
      rw [not_or] at hbad
      obtain ⟨digest, -, heq⟩ := Option.map_eq_some_iff.mp h
      cases heq
      exact ⟨hskip.1, hbad.1, rfl⟩

theorem Discovering.profile {seen : List (NSString × AppSource)} {d : Discovery}
    (h : Discovering surroundings seen d) (files : Files surroundings.documents)
    (dismissed : Finset NSString) (p : Profile) {ambient : Ambient}
    (hfresh : ∀ source, (ambient.uuid, source) ∉ seen) :
    ∃ seen', Discovering surroundings seen'
        (discoverProfile surroundings files dismissed d p ambient) ∧
      seen ⊆ seen' ∧ ∀ k ∈ seen', k ∈ seen ∨ k.1 = ambient.uuid := by
  unfold discoverProfile
  cases hcandidate : candidate surroundings files dismissed d.known p with
  | none => exact ⟨seen, h, List.Subset.refl _, fun k hk => Or.inl hk⟩
  | some found =>
      obtain ⟨real, hash⟩ := found
      obtain ⟨-, hnew, hreal⟩ := candidate_some hcandidate
      dsimp only
      have hdraft := inPlaceDraft_valid d.lib files (relativeInDocuments_valid hreal) hash
      have hplaces : ∀ r ∈ d.lib.records,
          r.executable ≠ (inPlaceDraft surroundings d.lib files real hash).executable := by
        intro r hr heq
        have hmem := h.known r hr
        rw [heq] at hmem
        exact hnew hmem
      obtain ⟨seen', hkept, hsub, hnewer⟩ :=
        h.kept.addRecord hdraft (movesAlone_of_unknown hplaces) hfresh
      cases hadd : addRecord surroundings d.lib
          (inPlaceDraft surroundings d.lib files real hash) ambient with
      | mk lib app =>
          rw [hadd] at hkept
          cases app with
          | none =>
              have hlib := addRecord_none h.kept.sound.valid hdraft hadd
              refine ⟨seen', ⟨hkept, ?_⟩, hsub, hnewer⟩
              rw [hlib]
              exact h.known
          | some app =>
              refine ⟨seen', ⟨hkept, ?_⟩, hsub, hnewer⟩
              intro r hr
              rcases addRecord_places hadd r hr with hplace | ⟨x, hx, hplace⟩
              · rw [hplace]
                exact List.mem_cons_self
              · rw [← hplace]
                exact List.mem_cons_of_mem _ (List.mem_cons_of_mem _ (h.known x hx))

/-- The rounds use up the UUIDs in order. -/
theorem Discovering.profiles (files : Files surroundings.documents)
    (dismissed : Finset NSString) {ambient : ℕ → Ambient}
    (hdifferent : ∀ i j, (ambient i).uuid = (ambient j).uuid → i = j)
    {seen : List (NSString × AppSource)} (hfresh : ∀ i source, ((ambient i).uuid, source) ∉ seen)
    (profiles : List Profile) {i : ℕ} {now : List (NSString × AppSource)} {d : Discovery}
    (h : Discovering surroundings now d) (hsub : seen ⊆ now)
    (hnow : ∀ k ∈ now, k ∈ seen ∨ ∃ j < i, k.1 = (ambient j).uuid) :
    ∃ seen', Discovering surroundings seen'
        (discoverProfiles surroundings files dismissed ambient profiles i d) ∧
      seen ⊆ seen' ∧
        ∀ k ∈ seen', k ∈ seen ∨ ∃ j < i + profiles.length, k.1 = (ambient j).uuid := by
  induction profiles generalizing i now d with
  | nil => exact ⟨now, h, hsub, hnow⟩
  | cons p rest ih =>
      have hunused : ∀ source, ((ambient i).uuid, source) ∉ now := by
        intro source hmem
        rcases hnow _ hmem with hmem | ⟨j, hj, heq⟩
        · exact hfresh i source hmem
        · exact absurd (hdifferent i j heq) hj.ne'
      obtain ⟨next, hnext, hmore, hnewer⟩ := h.profile files dismissed p hunused
      have hnext' : ∀ k ∈ next, k ∈ seen ∨ ∃ j < i + 1, k.1 = (ambient j).uuid := by
        intro k hk
        rcases hnewer k hk with hk | hk
        · rcases hnow k hk with hk | ⟨j, hj, hk⟩
          · exact Or.inl hk
          · exact Or.inr ⟨j, by omega, hk⟩
        · exact Or.inr ⟨i, by omega, hk⟩
      obtain ⟨seen', hall, hbefore, hafter⟩ := ih hnext (List.Subset.trans hsub hmore) hnext'
      refine ⟨seen', hall, hbefore, ?_⟩
      intro k hk
      rcases hafter k hk with hk | ⟨j, hj, hk⟩
      · exact Or.inl hk
      · refine Or.inr ⟨j, ?_, hk⟩
        rw [List.length_cons]
        omega

theorem Discovering.legacy {seen : List (NSString × AppSource)} {d : Discovery}
    (h : Discovering surroundings seen d) (files : Files surroundings.documents)
    {ambient : Ambient} (hfresh : ∀ source, (ambient.uuid, source) ∉ seen) :
    ∃ seen', Kept surroundings seen' (discoverLegacy surroundings files d ambient).lib ∧
      seen ⊆ seen' := by
  unfold discoverLegacy
  cases files.selected with
  | none => exact ⟨seen, h.kept, List.Subset.refl _⟩
  | some hash =>
      dsimp only
      split_ifs
      · exact ⟨seen, h.kept, List.Subset.refl _⟩
      · obtain ⟨seen', hkept, hsub, -⟩ := h.kept.addRecord (copyDraft_valid _ hash)
          (copyDraft_moves d.lib _ hash) hfresh
        refine ⟨seen', ?_, hsub⟩
        split
        · rename_i lib heq
          rw [heq] at hkept
          exact hkept
        · rename_i lib app heq
          rw [heq] at hkept
          exact hkept

theorem Kept.discover {seen : List (NSString × AppSource)} {lib : TKAppLibrary}
    (h : Kept surroundings seen lib) (files : Files surroundings.documents)
    {ambient : ℕ → Ambient} (hdifferent : ∀ i j, (ambient i).uuid = (ambient j).uuid → i = j)
    (hfresh : ∀ i source, ((ambient i).uuid, source) ∉ seen) :
    ∃ seen', Kept surroundings seen' (discover surroundings lib files ambient).1 ∧
      seen ⊆ seen' := by
  have hstart : Discovering surroundings seen ⟨lib, knownOf lib.records, []⟩ :=
    ⟨h, fun r hr => mem_knownOf hr⟩
  obtain ⟨seen₁, hprofiles, hsub₁, hnew⟩ := Discovering.profiles files lib.dismissedProfiles
    hdifferent hfresh lib.profiles (i := 0) hstart (List.Subset.refl _) (fun k hk => Or.inl hk)
  unfold TKAppLibrary.discover
  dsimp only
  split_ifs
  · exact ⟨seen₁, hprofiles.kept, hsub₁⟩
  · have hunused : ∀ source, ((ambient lib.profiles.length).uuid, source) ∉ seen₁ := by
      intro source hmem
      rcases hnew _ hmem with hmem | ⟨j, hj, heq⟩
      · exact hfresh _ source hmem
      · have hsame := hdifferent _ _ heq
        omega
    obtain ⟨seen₂, hlegacy, hsub₂⟩ := hprofiles.legacy files hunused
    refine ⟨seen₂, ?_, List.Subset.trans hsub₁ hsub₂⟩
    dsimp only
    rcases Option.eq_none_or_eq_some (saveRecords surroundings
        (discoverLegacy surroundings files
          (discoverProfiles surroundings files lib.dismissedProfiles ambient lib.profiles 0
            ⟨lib, knownOf lib.records, []⟩) (ambient lib.profiles.length)).lib
        (discoverLegacy surroundings files
          (discoverProfiles surroundings files lib.dismissedProfiles ambient lib.profiles 0
            ⟨lib, knownOf lib.records, []⟩) (ambient lib.profiles.length)).lib.records
        (discoverLegacy surroundings files
          (discoverProfiles surroundings files lib.dismissedProfiles ambient lib.profiles 0
            ⟨lib, knownOf lib.records, []⟩) (ambient lib.profiles.length)).lib.dismissedProfiles
        true (ambient (lib.profiles.length + 1)).saves) with hsave | ⟨lib', hsave⟩
    · rw [hsave]
      exact hlegacy
    · rw [hsave]
      exact hlegacy.save hsave hlegacy.sound.distinct hlegacy.sound.valid hlegacy.handles

/-! ## Runs -/

variable (surroundings) in
inductive Op where
  | importExecutable (files : Files surroundings.documents) (path : NSString) (copy : Bool)
      (ambient : Ambient)
  | discover (files : Files surroundings.documents) (ambient : ℕ → Ambient)
  | renameApp (app : AppRecord) (name : NSString) (saves : Bool)
  | recordLaunchOfApp (app : AppRecord) (now : ℕ) (saves : Bool)
  | currentSHA256OfApp (files : Files surroundings.documents) (app : AppRecord) (saves : Bool)
  | removeApp (app : AppRecord) (saves : Bool)
  | reopen (profiles : List Profile) (moves : Bool)

def step (lib : TKAppLibrary) : Op surroundings → TKAppLibrary
  | .importExecutable files path copy ambient =>
    (importExecutable surroundings lib files path copy ambient).1
  | .discover files ambient => (discover surroundings lib files ambient).1
  | .renameApp app name saves => (renameApp surroundings lib app name saves).1
  | .recordLaunchOfApp app now saves => (recordLaunchOfApp surroundings lib app now saves).1
  | .currentSHA256OfApp files app saves => (currentSHA256OfApp surroundings lib files app saves).1
  | .removeApp app saves => (removeApp surroundings lib app saves).1
  | .reopen profiles moves => openLibrary surroundings profiles lib.file moves

/-- A library and the ids that its entries have had, with their sources. -/
structure World where
  lib : TKAppLibrary
  seen : List (NSString × AppSource)

def World.next (w : World) (op : Op surroundings) : World :=
  ⟨step w.lib op, w.seen ++ (step w.lib op).records.map fun r => (r.id, r.source)⟩

/-- The UUIDs are new, and an app is one that the library has had. -/
def Admissible (w : World) : Op surroundings → Prop
  | .importExecutable _ _ _ ambient => ∀ source, (ambient.uuid, source) ∉ w.seen
  | .discover _ ambient => (∀ i j, (ambient i).uuid = (ambient j).uuid → i = j) ∧
      ∀ i source, ((ambient i).uuid, source) ∉ w.seen
  | .renameApp app _ _ => (app.id, app.source) ∈ w.seen
  | .recordLaunchOfApp app _ _ => (app.id, app.source) ∈ w.seen
  | .currentSHA256OfApp _ app _ => (app.id, app.source) ∈ w.seen
  | .removeApp app _ => (app.id, app.source) ∈ w.seen
  | .reopen _ _ => True

/-- An import gives no entry the place of another, and a file that is read again is not too
large to be read. -/
def Clean (lib : TKAppLibrary) : Op surroundings → Prop
  | .importExecutable files path copy _ =>
    ∀ draft, importDraft surroundings lib files path copy = some draft → MovesAlone lib draft
  | .reopen _ _ => ∀ data, lib.file = some data → data.length ≤ sizeLimit
  | _ => True

variable (surroundings) in
/-- The runs from no file, under a condition on the steps. -/
inductive Reached (condition : TKAppLibrary → Op surroundings → Prop) : World → Prop
  | start (profiles : List Profile) (moves : Bool) :
      Reached condition ⟨openLibrary surroundings profiles none moves, []⟩
  | next {w : World} (h : Reached condition w) (op : Op surroundings) (ok : Admissible w op)
      (clean : condition w.lib op) : Reached condition (w.next op)

/-- A library that is read again has its entries. -/
theorem loadRecords_self {records : List AppRecord} (hdistinct : records.Pairwise Distinct)
    (hvalid : ∀ r ∈ records, r.valid = true) {identifiers : List NSString}
    (hnew : ∀ r ∈ records, r.id ∉ identifiers) : loadRecords records identifiers = records := by
  induction records generalizing identifiers with
  | nil => rfl
  | cons r rest ih =>
      rw [List.pairwise_cons] at hdistinct
      simp only [List.mem_cons, forall_eq_or_imp] at hvalid hnew
      have hkeep : ¬ (¬ r.valid = true ∨ r.id ∈ identifiers) := by
        rintro (hbad | hold)
        · exact hbad hvalid.1
        · exact hnew.1 hold
      rw [loadRecords, if_neg hkeep, ih hdistinct.2 hvalid.2]
      intro x hx
      rw [List.mem_cons, not_or]
      exact ⟨fun heq => (hdistinct.1 x hx).id heq.symm, hnew.2 x hx⟩

theorem Sound.reopen {lib : TKAppLibrary} (h : Sound surroundings lib) (profiles : List Profile)
    (moves : Bool) (hsize : ∀ data, lib.file = some data → data.length ≤ sizeLimit) :
    openLibrary surroundings profiles lib.file moves = { lib with profiles := profiles } := by
  rcases h.saved with ⟨hfile, hrecords, hdismissed, hlegacy⟩ | ⟨data, hfile, hdata⟩
  · rw [hfile, openLibrary]
    cases lib
    cases hfile
    cases hrecords
    cases hdismissed
    cases hlegacy
    rfl
  · have hload : loadRecords lib.records [] = lib.records :=
      loadRecords_self h.distinct h.valid (by simp)
    rw [hfile, openLibrary]
    simp only [if_pos (hsize data hfile), hdata, hload]

theorem Kept.shrink {seen seen' : List (NSString × AppSource)} {lib : TKAppLibrary}
    (h : Kept surroundings seen' lib) (hsub : seen ⊆ seen') :
    Kept surroundings (seen ++ lib.records.map fun r => (r.id, r.source)) lib := by
  have hall : ∀ k ∈ seen ++ lib.records.map (fun r => (r.id, r.source)), k ∈ seen' := by
    intro k hk
    rcases List.mem_append.mp hk with hk | hk
    · exact hsub hk
    · obtain ⟨r, hr, rfl⟩ := List.mem_map.mp hk
      exact h.handles r hr
  refine ⟨h.sound, ?_, fun id a b ha hb => h.single id a b (hall _ ha) (hall _ hb)⟩
  intro r hr
  exact List.mem_append_right _ (List.mem_map.mpr ⟨r, hr, rfl⟩)

theorem Kept.rename {seen : List (NSString × AppSource)} {lib : TKAppLibrary}
    (h : Kept surroundings seen lib) (app : AppRecord) (name : NSString) (saves : Bool) :
    Kept surroundings seen (renameApp surroundings lib app name saves).1 := by
  unfold renameApp
  cases hname : cleanName name with
  | none => exact h
  | some clean =>
      refine h.updateApp saves ?_
      intro r hr hid
      refine ⟨rfl, rfl, rfl, fun _ => rfl, ?_⟩
      intro hvalid
      rw [valid_iff] at hvalid ⊢
      exact ⟨hvalid.1, cleanName_clean hname, hvalid.2.2⟩

theorem Kept.current {seen : List (NSString × AppSource)} {lib : TKAppLibrary}
    (h : Kept surroundings seen lib) (files : Files surroundings.documents) {app : AppRecord}
    (happ : (app.id, app.source) ∈ seen) (saves : Bool) :
    Kept surroundings seen (currentSHA256OfApp surroundings lib files app saves).1 := by
  unfold currentSHA256OfApp
  cases (executablePathForApp surroundings files app).bind files.hash with
  | none => exact h
  | some hash =>
      dsimp only
      split
      · rename_i hdiffers
        refine h.updateApp saves ?_
        intro r hr hid
        have hsource : r.source = .documents := by
          have hhandle := h.handles r hr
          rw [hid] at hhandle
          rw [h.single _ _ _ hhandle happ]
          exact hdiffers.2
        refine ⟨rfl, rfl, rfl, ?_, ?_⟩
        · intro hcopy
          cases hsource.symm.trans hcopy
        · intro hvalid
          rw [valid_iff] at hvalid ⊢
          refine ⟨hvalid.1, hvalid.2.1, hvalid.2.2.1, hvalid.2.2.2.1, fun _ => rfl, ?_⟩
          intro digits hdigits
          cases hdigits
          exact hash.valid
      · exact h

theorem Kept.remove {seen : List (NSString × AppSource)} {lib : TKAppLibrary}
    (h : Kept surroundings seen lib) (app : AppRecord) (saves : Bool) :
    Kept surroundings seen (removeApp surroundings lib app saves).1 := by
  unfold removeApp
  dsimp only
  split
  · exact h
  · split
    · exact h
    · rename_i lib' hsave
      refine h.save hsave (h.sound.distinct.filter _) ?_ ?_
      · intro r hr
        exact h.sound.valid r (List.mem_of_mem_filter hr)
      · intro r hr
        exact h.handles r (List.mem_of_mem_filter hr)

theorem Kept.next {w : World} (h : Kept surroundings w.seen w.lib) {op : Op surroundings}
    (hok : Admissible w op) (hclean : Clean w.lib op) :
    Kept surroundings (w.next op).seen (w.next op).lib := by
  cases op with
  | importExecutable files path copy ambient =>
      obtain ⟨seen', hkept, hsub⟩ : ∃ seen', Kept surroundings seen'
          (importExecutable surroundings w.lib files path copy ambient).1 ∧ w.seen ⊆ seen' := by
        rw [importExecutable_eq]
        cases hdraft : importDraft surroundings w.lib files path copy with
        | none => exact ⟨w.seen, h, List.Subset.refl _⟩
        | some draft =>
            obtain ⟨seen', hkept, hsub, -⟩ :=
              h.addRecord (importDraft_valid hdraft) (hclean draft hdraft) hok
            exact ⟨seen', hkept, hsub⟩
      exact hkept.shrink hsub
  | discover files ambient =>
      obtain ⟨seen', hkept, hsub⟩ := h.discover files hok.1 hok.2
      exact hkept.shrink hsub
  | renameApp app name saves => exact (h.rename app name saves).shrink (List.Subset.refl _)
  | recordLaunchOfApp app now saves =>
      have hkept : Kept surroundings w.seen
          (recordLaunchOfApp surroundings w.lib app now saves).1 :=
        h.updateApp saves fun r _ _ => ⟨rfl, rfl, rfl, fun _ => rfl, fun hvalid => hvalid⟩
      exact hkept.shrink (List.Subset.refl _)
  | currentSHA256OfApp files app saves =>
      exact (h.current files hok saves).shrink (List.Subset.refl _)
  | removeApp app saves => exact (h.remove app saves).shrink (List.Subset.refl _)
  | reopen profiles moves =>
      have hkept : Kept surroundings w.seen
          (openLibrary surroundings profiles w.lib.file moves) := by
        rw [h.sound.reopen profiles moves hclean]
        exact ⟨⟨h.sound.distinct, h.sound.valid, h.sound.saved⟩, h.handles, h.single⟩
      exact hkept.shrink (List.Subset.refl _)

theorem Kept.run {w : World} (h : Reached surroundings Clean w) :
    Kept surroundings w.seen w.lib := by
  induction h with
  | start profiles moves =>
      refine ⟨⟨List.Pairwise.nil, ?_, Or.inl ⟨rfl, rfl, rfl, rfl⟩⟩, ?_, ?_⟩
      · intro r hr
        cases hr
      · intro r hr
        cases hr
      · intro id a b ha
        cases ha
  | next h op ok clean ih => exact ih.next ok clean

/-! ## Saves that fail -/

variable (surroundings) in
/-- An operation that reports a failure or that cannot write leaves the entries and the file;
so does each part of `discover`. -/
structure FailureKeeps (lib : TKAppLibrary) : Prop where
  importExecutable : ∀ files path copy ambient,
    (importExecutable surroundings lib files path copy ambient).2 = none →
      (importExecutable surroundings lib files path copy ambient).1 = lib
  renameApp : ∀ app name saves, (renameApp surroundings lib app name saves).2 = false →
    (renameApp surroundings lib app name saves).1 = lib
  recordLaunchOfApp : ∀ app now saves,
    (recordLaunchOfApp surroundings lib app now saves).2 = false →
      (recordLaunchOfApp surroundings lib app now saves).1 = lib
  currentSHA256OfApp : ∀ files app saves,
    (currentSHA256OfApp surroundings lib files app saves).1 = lib ∨
      ∃ records, saveRecords surroundings lib records lib.dismissedProfiles lib.legacyImported
        saves = some (currentSHA256OfApp surroundings lib files app saves).1
  removeApp : ∀ app saves, (removeApp surroundings lib app saves).2 = none →
    (removeApp surroundings lib app saves).1 = lib
  discover : ∀ files ambient, (∀ i, (ambient i).saves = false) →
    discover surroundings lib files ambient = (lib, [])
  discoverProfile : ∀ files dismissed d p ambient, ambient.saves = false →
    discoverProfile surroundings files dismissed d p ambient = d
  discoverLegacy : ∀ files d ambient, ambient.saves = false →
    discoverLegacy surroundings files d ambient = d

theorem addRecord_unsaved (lib : TKAppLibrary) (draft : Draft) {ambient : Ambient}
    (h : ambient.saves = false) : addRecord surroundings lib draft ambient = (lib, none) := by
  rcases addRecord_cases lib draft ambient with hnone | ⟨hsaves, -⟩
  · exact hnone
  · cases hsaves.symm.trans h

theorem discoverProfile_unsaved (files : Files surroundings.documents)
    (dismissed : Finset NSString) (d : Discovery) (p : Profile) {ambient : Ambient}
    (h : ambient.saves = false) :
    discoverProfile surroundings files dismissed d p ambient = d := by
  unfold discoverProfile
  cases candidate surroundings files dismissed d.known p with
  | none => rfl
  | some found => simp only [addRecord_unsaved _ _ h]

theorem discoverLegacy_unsaved (files : Files surroundings.documents) (d : Discovery)
    {ambient : Ambient} (h : ambient.saves = false) :
    discoverLegacy surroundings files d ambient = d := by
  unfold discoverLegacy
  cases files.selected with
  | none => rfl
  | some hash =>
      dsimp only
      split
      · rfl
      · simp only [addRecord_unsaved _ _ h]

theorem discoverProfiles_unsaved (files : Files surroundings.documents)
    (dismissed : Finset NSString) {ambient : ℕ → Ambient} (h : ∀ i, (ambient i).saves = false)
    (profiles : List Profile) (i : ℕ) (d : Discovery) :
    discoverProfiles surroundings files dismissed ambient profiles i d = d := by
  induction profiles generalizing i with
  | nil => rfl
  | cons p rest ih =>
      rw [discoverProfiles, discoverProfile_unsaved files dismissed d p (h i)]
      exact ih (i + 1)

theorem updateApp_unsaved {lib : TKAppLibrary} {app : AppRecord}
    {change : AppRecord → AppRecord} {saves : Bool}
    (h : (updateApp surroundings lib app change saves).2 = false) :
    (updateApp surroundings lib app change saves).1 = lib := by
  unfold updateApp at h ⊢
  split
  · rfl
  · split
    · rfl
    · rename_i records hfirst _ lib' hsave
      simp only [hfirst, hsave] at h
      cases h

variable (surroundings) in
theorem updateApp_saved (lib : TKAppLibrary) (app : AppRecord) (change : AppRecord → AppRecord)
    (saves : Bool) :
    (updateApp surroundings lib app change saves).1 = lib ∨
      ∃ records, saveRecords surroundings lib records lib.dismissedProfiles lib.legacyImported
        saves = some (updateApp surroundings lib app change saves).1 := by
  unfold updateApp
  split
  · exact Or.inl rfl
  · rename_i records hfirst
    split
    · exact Or.inl rfl
    · rename_i lib' hsave
      exact Or.inr ⟨records, hsave⟩

theorem failureKeeps {lib : TKAppLibrary} (h : Sound surroundings lib) :
    FailureKeeps surroundings lib where
  importExecutable := by
    intro files path copy ambient hnone
    rw [importExecutable_eq] at hnone ⊢
    cases hdraft : importDraft surroundings lib files path copy with
    | none => rfl
    | some draft =>
        simp only [hdraft] at hnone
        exact addRecord_none h.valid (importDraft_valid hdraft) (Prod.ext rfl hnone)
  renameApp := by
    intro app name saves hfalse
    unfold renameApp at hfalse ⊢
    cases hname : cleanName name with
    | none => rfl
    | some clean =>
        simp only [hname] at hfalse
        exact updateApp_unsaved hfalse
  recordLaunchOfApp := by
    intro app now saves hfalse
    exact updateApp_unsaved hfalse
  currentSHA256OfApp := by
    intro files app saves
    unfold currentSHA256OfApp
    split
    · exact Or.inl rfl
    · split
      · exact updateApp_saved surroundings lib app _ saves
      · exact Or.inl rfl
  removeApp := by
    intro app saves hnone
    unfold removeApp at hnone ⊢
    dsimp only at hnone ⊢
    split
    · rfl
    · split
      · rfl
      · rename_i removed hremoved _ lib' hsave
        simp only [hremoved, hsave] at hnone
        cases hnone
  discover := by
    intro files ambient hsaves
    unfold TKAppLibrary.discover
    simp only [discoverProfiles_unsaved files _ hsaves, discoverLegacy_unsaved files _ (hsaves _),
      hsaves, saveRecords_false, Option.getD_none, ite_self]
  discoverProfile := by
    intro files dismissed d p ambient hsaves
    exact discoverProfile_unsaved files dismissed d p hsaves
  discoverLegacy := by
    intro files d ambient hsaves
    exact discoverLegacy_unsaved files d hsaves

/-- In every run whose imports give no entry the place of another: the entries are different
and valid, a failure leaves the entries and the file, and a library that is opened again has
its entries. -/
theorem store_run {w : World} (h : Reached surroundings Clean w) :
    Sound surroundings w.lib ∧ FailureKeeps surroundings w.lib ∧
      ∀ profiles moves, (∀ data, w.lib.file = some data → data.length ≤ sizeLimit) →
        openLibrary surroundings profiles w.lib.file moves =
          { w.lib with profiles := profiles } := by
  have hsound := (Kept.run h).sound
  exact ⟨hsound, failureKeeps hsound, fun profiles moves hsize =>
    hsound.reopen profiles moves hsize⟩

/-! ## Examples -/

section Fixture

def realPathIn (table : List (NSString × NSString)) (path : NSString) : Option NSString :=
  (table.find? fun e => e.1 == path).map (·.2)

theorem realPathIn_mem {table : List (NSString × NSString)} {path real : NSString}
    (h : realPathIn table path = some real) : (path, real) ∈ table := by
  obtain ⟨e, he, rfl⟩ := Option.map_eq_some_iff.mp h
  have hpath : e.1 = path := by simpa using List.find?_some he
  rw [← hpath]
  exact List.mem_of_find?_eq_some he

/-- The real paths of a table are real, and those in `Documents` are reached through it. -/
def tableOk (documents : NSString) (table : List (NSString × NSString)) : Bool :=
  table.all fun e => e.2.head? == some slash &&
    (List.range e.2.length).all fun n => n == 0 || e.2[n]? != some slash ||
      (validRelative (e.2.drop (n + 1)) false &&
        (realPathIn table documents != some (e.2.take n) ||
          realPathIn table (join documents (e.2.drop (n + 1))) == some e.2))

theorem tableOk_split {documents : NSString} {table : List (NSString × NSString)}
    (h : tableOk documents table = true) {path root rest : NSString}
    (hpath : realPathIn table path = some (root ++ slash :: rest)) (hroot : root ≠ []) :
    validRelative rest false = true ∧ (realPathIn table documents = some root →
      realPathIn table (join documents rest) = some (root ++ slash :: rest)) := by
  have hentry := List.all_eq_true.mp h _ (realPathIn_mem hpath)
  rw [Bool.and_eq_true] at hentry
  have hlength : root.length ∈ List.range (root ++ slash :: rest).length := by
    simp
  have hn := List.all_eq_true.mp hentry.2 _ hlength
  have hpos : root.length ≠ 0 := by simpa using hroot
  have hdrop : (root ++ slash :: rest).drop (root.length + 1) = rest := by
    rw [List.drop_append]
    simp
  simp only [hdrop, List.take_left', List.getElem?_append_right, le_refl, Nat.sub_self,
    List.getElem?_cons_zero, Bool.or_eq_true, beq_iff_eq, bne_self_eq_false, hpos, false_or,
    Bool.false_eq_true, Bool.and_eq_true, bne_iff_ne, ne_eq] at hn
  refine ⟨hn.1, ?_⟩
  intro hdocuments
  rcases hn.2 with hother | hsame
  · exact absurd hdocuments hother
  · exact hsame

/-- A file system with one application at each path of a table. -/
def tableFiles (documents : NSString) (table : List (NSString × NSString))
    (h : tableOk documents table = true) : Files documents where
  realPath := realPathIn table
  isRegular := fun _ => true
  isDirectory := fun _ => true
  hash := fun _ => some ⟨List.replicate 64 48, by decide⟩
  supported := fun _ => true
  infoPlist := fun _ => none
  importHash := fun _ => none
  verified := fun _ => false
  selected := none
  sourceName := fun _ => none
  absolute := by
    intro path real hreal
    have hentry := List.all_eq_true.mp h _ (realPathIn_mem hreal)
    rw [Bool.and_eq_true, beq_iff_eq] at hentry
    exact hentry.1
  normal := fun hpath hroot => (tableOk_split h hpath hroot).1
  again := by
    intro path root rest hdocuments hpath
    have hroot : root ≠ [] := by
      rintro rfl
      have hentry := List.all_eq_true.mp h _ (realPathIn_mem hdocuments)
      simp at hentry
    exact (tableOk_split h hpath hroot).2 hdocuments

def tableCoder (table : List Stored) : Coder where
  encode := fun stored =>
    if stored ∈ table ∧ table.idxOf stored < 256 then some [UInt8.ofNat (table.idxOf stored)]
    else none
  decode := fun data => table[(data.headD 0).toNat]?
  decode_encode := by
    intro stored data h
    split_ifs at h with hmem
    cases h
    have hindex : (UInt8.ofNat (table.idxOf stored)).toNat = table.idxOf stored := by
      rw [UInt8.toNat_ofNat']
      exact Nat.mod_eq_of_lt hmem.2
    rw [List.headD_cons, hindex]
    exact List.getElem?_idxOf hmem.1

private def documentsPath : NSString := text "/D"

/-- The profile `p` with an executable `run`. -/
def appProfile (workingDirectory : NSString)
    (h : validRelative workingDirectory false = true) : Profile :=
  { id := text "p"
    name := text "P"
    workingDirectory := workingDirectory
    executable := text "run"
    runtime := none
    named := by decide
    validDirectory := h
    validExecutable := by decide
    validRuntime := by simp }

/-- The text of a UUID of zeros but for its last digit. -/
def zerosUUID (last : UInt16) : NSString :=
  List.replicate 8 48 ++ 45 :: List.replicate 4 48 ++ 45 :: List.replicate 4 48 ++
    45 :: List.replicate 4 48 ++ 45 :: List.replicate 11 48 ++ [last]

def firstId : NSString := zerosUUID 49

def secondId : NSString := zerosUUID 50

def appEntry (id name directory : NSString) (profile : Option NSString) : AppRecord :=
  { source := .documents
    name := name
    executable := directory ++ text "/run"
    workingDirectory := directory
    sha256 := some (List.replicate 64 48)
    profile := profile
    id := id
    added := 0
    lastLaunched := none }

theorem standard_id {path : NSString} (_ : plainParts path = true) :
    id path = path ∨ (id path).head? = some slash :=
  .inl rfl

private def sample : Surroundings :=
  { documents := documentsPath
    standardizing := id
    coder := tableCoder
      [⟨[appEntry firstId (text "P") (text "a") (some (text "p"))], ∅, false⟩,
        ⟨[appEntry firstId (text "P") (text "a") (some (text "p")),
          appEntry secondId (text "run") (text "b") none], ∅, false⟩,
        ⟨[appEntry firstId (text "P") (text "b") (some (text "p")),
          appEntry secondId (text "run") (text "b") none], ∅, false⟩]
    standard := standard_id }

private def sampleFiles : Files sample.documents :=
  tableFiles (text "/D")
    [(text "/D", text "/D"), (text "/D/a/run", text "/D/a/run"),
      (text "/D/b/run", text "/D/b/run")] (by decide)

private def importOf (path uuid : NSString) : Op sample :=
  .importExecutable sampleFiles path false ⟨uuid, 0, true⟩

private def reopenWith (directory : NSString)
    (h : validRelative directory false = true) : Op sample :=
  .reopen [appProfile directory h] false

theorem validRelative_a : validRelative (text "a") false = true := by decide

private def newLibrary : World :=
  ⟨openLibrary sample [appProfile (text "a") validRelative_a] none false, []⟩

private def oneEntry : World := newLibrary.next (importOf (text "/D/a/run") firstId)

private def twoEntries : World := oneEntry.next (importOf (text "/D/b/run") secondId)

theorem validRelative_b : validRelative (text "b") false = true := by decide

private def reopened : World := twoEntries.next (reopenWith (text "b") validRelative_b)

private def movedEntry : World := reopened.next (importOf (text "/D/b/run") (text "3"))

/-- The identifiers are new where they are given, and what the libraries hold. -/
private theorem worlds_hold :
    ((newLibrary.seen.map (·.1)).contains firstId = false ∧
      (oneEntry.seen.map (·.1)).contains secondId = false ∧
      (reopened.seen.map (·.1)).contains (text "3") = false) ∧
    newLibrary.lib.records.length ≤ 1 ∧ oneEntry.lib.records.length ≤ 1 ∧
    twoEntries.lib.records.length = 2 ∧
    movedEntry.lib.records = [appEntry firstId (text "P") (text "b") (some (text "p")),
      appEntry secondId (text "run") (text "b") none] := by
  decide

private theorem importOf_admissible {w : World} {path uuid : NSString}
    (h : (w.seen.map (·.1)).contains uuid = false) : Admissible w (importOf path uuid) := by
  intro source hmem
  have hcontains : (w.seen.map (·.1)).contains uuid = true := by
    rw [List.contains_iff_mem]
    exact List.mem_map.mpr ⟨_, hmem, rfl⟩
  cases hcontains.symm.trans h

private theorem movesAlone_of_single {lib : TKAppLibrary} (h : lib.records.length ≤ 1)
    (draft : Draft) : MovesAlone lib draft := by
  intro before existing after hrecords hbefore hprofiled r hr hsource
  have hlength := List.length_pos_of_mem hr
  rw [hrecords, List.length_append, List.length_cons] at h
  omega

/-- Two imports in place. -/
theorem store_run_fixture : twoEntries.lib.records.length = 2 ∧ Sound sample twoEntries.lib := by
  obtain ⟨⟨hfirst, hsecond, -⟩, hnew, hone, htwo, -⟩ := worlds_hold
  exact ⟨htwo, (store_run (.next (.next (.start _ false) (importOf (text "/D/a/run") firstId)
      (importOf_admissible hfirst) (fun draft _ => movesAlone_of_single hnew draft))
    (importOf (text "/D/b/run") secondId) (importOf_admissible hsecond)
      (fun draft _ => movesAlone_of_single hone draft))).1⟩

/-- An import in place moves the entry of a profile to the place of another entry. -/
theorem import_same_place :
    ¬ ∀ w, Reached sample (fun _ _ => True) w → Sound sample w.lib := by
  intro hall
  obtain ⟨⟨hfirst, hsecond, hthird⟩, -, -, -, hrecords⟩ := worlds_hold
  have hreached : Reached sample (fun _ _ => True) movedEntry := by
    refine .next (.next (.next (.next (.start _ false) _ ?_ trivial) _ ?_ trivial) _ ?_ trivial) _
      ?_ trivial
    · exact importOf_admissible hfirst
    · exact importOf_admissible hsecond
    · trivial
    · exact importOf_admissible hthird
  have hdistinct := (hall movedEntry hreached).distinct
  rw [hrecords, List.pairwise_pair] at hdistinct
  exact hdistinct.place rfl rfl rfl

end Fixture

end TKAppLibrary

end Tolkara
