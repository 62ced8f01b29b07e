import Tolkara.Modules.Import

/-!
# An import as a whole

Whichever calls of an import fail, it selects the module it stored or leaves the selection as
it was, and the modules that verified go on to verify. The one exception is the module that
is imported again: where the import cannot read it, it is taken for damaged, and if both the
move of the new copy and the move back fail, it is left under the name it was moved to.
-/

namespace Tolkara

namespace GuestModule

open Library NSString

variable (p : ModulePlatform) (c : Circumstances)

/-! ## Names -/

theorem dot_notMem {hash : NSString} (h : validHash hash = true) : (46 : UInt16) ∉ hash := by
  intro hdot
  have hdigit := ((validHash_iff hash).1 h).2 46 hdot
  revert hdigit
  decide

/-- The name of a module is none of the names that an import makes up. -/
theorem names_ne {hash : NSString} (h : validHash hash = true) :
    hash ≠ stageName c ∧ hash ≠ damagedName c ∧ hash ≠ currentName := by
  have hdot := dot_notMem h
  refine ⟨?_, ?_, ?_⟩
  · rintro rfl
    exact hdot (List.mem_append_left _ (by decide))
  · rintro rfl
    exact hdot (List.mem_append_left _ (by decide))
  · rintro rfl
    exact hdot (by decide)

theorem damagedName_ne_stageName : damagedName c ≠ stageName c := by
  intro h
  have hsecond := congrArg (·[1]?) h
  simp [damagedName, stageName, text] at hsecond

theorem currentName_ne : currentName ≠ stageName c ∧ currentName ≠ damagedName c := by
  constructor
  · intro h
    have hfirst := congrArg List.head? h
    simp [currentName, stageName, text] at hfirst
  · intro h
    have hfirst := congrArg List.head? h
    simp [currentName, damagedName, text] at hfirst

/-! ## The whole import -/

/-- The modules with other hashes are those of before. -/
def Others (h : Hash) (modules modules' : Modules) : Prop :=
  ∀ hash, validHash hash = true → hash ≠ h.digits → modules' hash = modules hash

/-- The module with this hash was found whole and stays, or is made of what was copied. -/
structure Placed (source : Source) (modules modules' : Modules) (h : Hash)
    (contents : Contents) : Prop where
  copied : Copied p source contents h
  others : Others h modules modules'
  module : VerifiedInside p c (modules h.digits) h.digits ∧
      modules' h.digits = modules h.digits ∨
    ¬ VerifiedInside p c (modules h.digits) h.digits ∧
      Intact p (modules' h.digits) h.digits contents.bytes

/-- A module that was not found whole was moved aside, and both moves after that failed. -/
structure LeftAside (source : Source) (modules modules' : Modules) (h : Hash)
    (contents : Contents) : Prop where
  copied : Copied p source contents h
  others : Others h modules modules'
  notFound : ¬ VerifiedInside p c (modules h.digits) h.digits
  moveStage : c.fails .moveStage = true
  moveBack : c.fails .moveBack = true
  gone : modules' h.digits = none
  aside : modules' (damagedName c) = modules h.digits

/-- How an import that fails leaves the modules. -/
def Failed (source : Source) (modules modules' : Modules) : Prop :=
  modules' currentName = modules currentName ∧
    ((∀ hash, validHash hash = true → modules' hash = modules hash) ∨
      ∃ h contents, Placed p c source modules modules' h contents ∨
        LeftAside p c source modules modules' h contents)

section

variable {p c} {root : NSString} {source : Source} {modules : Modules}

theorem Failed.of_eq {modules' : Modules}
    (h : ∀ name, name ≠ stageName c → modules' name = modules name) :
    Failed p c source modules modules' :=
  ⟨h _ (currentName_ne c).1, .inl fun hash hvalid => h hash (names_ne c hvalid).1⟩

theorem Placed.trans {modules' modules'' : Modules} {h : Hash} {contents : Contents}
    (hplaced : Placed p c source modules modules' h contents)
    (hsame : ∀ hash, validHash hash = true → modules'' hash = modules' hash) :
    Placed p c source modules modules'' h contents where
  copied := hplaced.copied
  others hash hvalid hne := (hsame hash hvalid).trans (hplaced.others hash hvalid hne)
  module := by
    rw [hsame _ h.valid]
    exact hplaced.module

theorem LeftAside.trans {modules' modules'' : Modules} {h : Hash} {contents : Contents}
    (haside : LeftAside p c source modules modules' h contents)
    (hsame : ∀ hash, validHash hash = true → modules'' hash = modules' hash)
    (hdamaged : modules'' (damagedName c) = modules' (damagedName c)) :
    LeftAside p c source modules modules'' h contents :=
  { haside with
    others := fun hash hvalid hne => (hsame hash hvalid).trans (haside.others hash hvalid hne)
    gone := (hsame _ h.valid).trans haside.gone
    aside := hdamaged.trans haside.aside }

theorem guestModuleImportHash_meets :
    (guestModuleImportHash p c root source).Meets modules
      (fun h modules' => selection p (fun _ => false) modules' = some h.digits ∧
        ∃ contents, Placed p c source modules modules' h contents)
      fun _ modules' => Failed p c source modules modules' := by
  unfold guestModuleImportHash
  refine Attempt.meets_bind.2 (meets_operation.2
    ⟨fun _ => ?_, fun _ => Failed.of_eq fun _ _ => rfl⟩)
  refine Attempt.meets_bind.2 ((createDirectory_meets _ _ _).imp ?_ ?_)
  · rintro - _ rfl
    refine Attempt.meets_always.2 (Attempt.meets_bind.2
      ((stageModule_meets (Function.update_self _ _ _)).imp ?_ ?_))
    · rintro h staged ⟨houtside, contents, hcopied, items, hstage, hwhole⟩
      have hstaged : ∀ name, name ≠ stageName c → staged name = modules name :=
        fun name hname => (houtside name hname).trans (Function.update_of_ne hname _ _)
      have hnames := names_ne c h.valid
      have hmodule := hstaged _ hnames.1
      have removed : ∀ {placed : Modules} (hash : NSString), validHash hash = true →
          removeStage c (stageName c) placed hash = placed hash :=
        fun hash hvalid => removeStage_of_ne (names_ne c hvalid).1
      have hrest : ∀ {placed : Modules},
          (∀ name, Apart c (stageName c) h.digits name → placed name = staged name) →
            placed currentName = modules currentName ∧ Others h modules placed := by
        intro placed hothers
        have hcurrent : Apart c (stageName c) h.digits currentName :=
          ⟨(currentName_ne c).1, (currentName_ne c).2, hnames.2.2.symm⟩
        refine ⟨(hothers _ hcurrent).trans (hstaged _ hcurrent.1), fun hash hvalid hne => ?_⟩
        have hhash := names_ne c hvalid
        exact (hothers _ ⟨hhash.1, hhash.2.1, hne⟩).trans (hstaged _ hhash.1)
      refine Attempt.meets_bind.2 ((placeModule_meets hstage hnames.1.symm hnames.2.1.symm
        (damagedName_ne_stageName c)).imp ?_ ?_)
      · rintro - placed ⟨hothers, hplaced⟩
        rw [hmodule] at hplaced
        have hdone : Placed p c source modules placed h contents :=
          ⟨hcopied, (hrest hothers).2, hplaced.imp_right fun ⟨hfound, hentry⟩ =>
            ⟨hfound, items, hentry, hwhole⟩⟩
        refine Attempt.meets_bind.2 ((writeCurrent_meets h placed).imp ?_ ?_)
        · rintro - written ⟨hkept, hselected⟩
          refine Attempt.meets_pure.2 ⟨?_, contents, hdone.trans fun hash hvalid => ?_⟩
          · rw [selection, removeStage_of_ne (currentName_ne c).1]
            exact hselected
          · exact (removed hash hvalid).trans (hkept hash (names_ne c hvalid).2.2)
        · rintro e _ rfl
          exact ⟨(removeStage_of_ne (currentName_ne c).1).trans (hrest hothers).1,
            .inr ⟨h, contents, .inl (hdone.trans removed)⟩⟩
      · rintro e placed ⟨hothers, hplaced⟩
        rw [hmodule] at hplaced
        refine ⟨(removeStage_of_ne (currentName_ne c).1).trans (hrest hothers).1, ?_⟩
        rcases hplaced with hback | ⟨hfound, hstage', hback, hgone, hmoved⟩
        · refine .inl fun hash hvalid => (removed hash hvalid).trans ?_
          by_cases hhash : hash = h.digits
          · rw [hhash, hback]
          · exact (hrest hothers).2 hash hvalid hhash
        · have haside : LeftAside p c source modules placed h contents :=
            ⟨hcopied, (hrest hothers).2, hfound, hstage', hback, hgone, hmoved⟩
          exact .inr ⟨h, contents, .inr (haside.trans removed
            (removeStage_of_ne (damagedName_ne_stageName c)))⟩
    · rintro e staged houtside
      exact Failed.of_eq fun name hname => (removeStage_of_ne hname).trans
        ((houtside name hname).trans (Function.update_of_ne hname _ _))
  · rintro e _ rfl
    exact Failed.of_eq fun _ _ => rfl

end

/-! ## Atomicity -/

/-- A call of the verification inside the import fails. -/
def Interrupted : Prop := ∃ call, c.fails (.verify call) = true

/-- The module is selected and verifies, with the bytes that were copied or, where a module
with the hash verified before, with its own. -/
structure Imported (root : NSString) (source : Source) (modules modules' : Modules) (h : Hash) :
    Prop where
  stored : ∃ contents bytes, Copied p source contents h ∧
    Verifies p root modules' h.digits bytes ∧
      (bytes = contents.bytes ∨ Verifies p root modules h.digits bytes)
  current : selection p (fun _ => false) modules' = some h.digits
  selected : guestModuleSelected p root (fun _ => false) (fun _ => false) modules' =
    .ok (modulePath root h.digits)

/-- What an import does to modules that verify: it fails with the selection of before or
selects a module, and every module goes on to verify. Only the module of the hash that is
imported can change, where the import could not read it: it then has the bytes that were
copied, or stands under the name it was moved to because both moves after that failed. -/
structure Atomic (root : NSString) (source : Source) (modules : Modules)
    (result : Except ImportError Hash × Modules) : Prop where
  imported : ∀ h, result.1 = .ok h → Imported p root source modules result.2 h
  refused : ∀ e, result.1 = .error e → result.2 currentName = modules currentName
  kept : ∀ hash bytes, Verifies p root modules hash bytes → Verifies p root result.2 hash bytes ∨
    Interrupted c ∧ ∃ h contents, h.digits = hash ∧ Copied p source contents h ∧
      (Verifies p root result.2 hash contents.bytes ∨
        c.fails .moveStage = true ∧ c.fails .moveBack = true ∧ (∃ e, result.1 = .error e) ∧
          result.2 hash = none ∧ result.2 (damagedName c) = modules hash)

section

variable {p c} {root : NSString} {source : Source} {modules modules' : Modules}

/-- A module that verifies is found whole unless a call fails. -/
theorem interrupted_of_intact {hash : NSString} {bytes : List UInt8}
    (h : Intact p (modules hash) hash bytes)
    (hfound : ¬ VerifiedInside p c (modules hash) hash) : Interrupted c := by
  by_contra hcalls
  simp only [Interrupted, not_exists, Bool.not_eq_true] at hcalls
  exact hfound ⟨hcalls, bytes, h⟩

theorem Others.verifies {h : Hash} (hothers : Others h modules modules') {hash : NSString}
    {bytes : List UInt8} (hverifies : Verifies p root modules hash bytes)
    (hne : hash ≠ h.digits) : Verifies p root modules' hash bytes := by
  rw [verifies_iff] at hverifies ⊢
  rw [hothers hash hverifies.1 hne]
  exact hverifies

theorem Placed.verifies {h : Hash} {contents : Contents}
    (hplaced : Placed p c source modules modules' h contents) :
    ∃ bytes, Verifies p root modules' h.digits bytes ∧
      (bytes = contents.bytes ∨ Verifies p root modules h.digits bytes) := by
  rcases hplaced.module with ⟨⟨-, bytes, hintact⟩, hsame⟩ | ⟨-, hintact⟩
  · have hbefore : Verifies p root modules h.digits bytes := verifies_iff.2 ⟨h.valid, hintact⟩
    rw [← hsame] at hintact
    exact ⟨bytes, verifies_iff.2 ⟨h.valid, hintact⟩, .inr hbefore⟩
  · exact ⟨contents.bytes, verifies_iff.2 ⟨h.valid, hintact⟩, .inl rfl⟩

theorem Placed.kept {h : Hash} {contents : Contents}
    (hplaced : Placed p c source modules modules' h contents) {hash : NSString}
    {bytes : List UInt8} (hverifies : Verifies p root modules hash bytes) :
    Verifies p root modules' hash bytes ∨
      Interrupted c ∧ h.digits = hash ∧ Verifies p root modules' hash contents.bytes := by
  by_cases hhash : hash = h.digits
  · subst hhash
    have hintact := (verifies_iff.1 hverifies).2
    rcases hplaced.module with ⟨-, hsame⟩ | ⟨hfound, hnew⟩
    · rw [← hsame] at hintact
      exact .inl (verifies_iff.2 ⟨h.valid, hintact⟩)
    · exact .inr ⟨interrupted_of_intact hintact hfound, rfl, verifies_iff.2 ⟨h.valid, hnew⟩⟩
  · exact .inl (hplaced.others.verifies hverifies hhash)

/-- The module that `current.json` names is the selected one. -/
theorem guestModuleSelected_eq {h : Hash} {bytes : List UInt8}
    (hselection : selection p (fun _ => false) modules = some h.digits)
    (hverifies : Verifies p root modules h.digits bytes) :
    guestModuleSelected p root (fun _ => false) (fun _ => false) modules =
      .ok (modulePath root h.digits) := by
  have hpath := hverifies.1
  rw [guestModulePath, if_pos h.valid] at hpath
  rw [guestModuleSelected, hselection]
  simp only [h.valid, if_true, hpath]

end

/-- An import takes place as a whole or not at all, whichever of its calls fail. -/
theorem guestModuleImportHash_atomic (root : NSString) (source : Source) (modules : Modules) :
    Atomic p c root source modules (guestModuleImportHash p c root source modules) := by
  have hmeets : (guestModuleImportHash p c root source).Meets modules _ _ :=
    guestModuleImportHash_meets
  constructor
  · intro h hok
    obtain ⟨hcurrent, contents, hplaced⟩ := hmeets.answered hok
    obtain ⟨bytes, hverifies, hbytes⟩ := hplaced.verifies
    exact ⟨⟨contents, bytes, hplaced.copied, hverifies, hbytes⟩, hcurrent,
      guestModuleSelected_eq hcurrent hverifies⟩
  · exact fun e he => (hmeets.failed he).1
  · intro hash bytes hverifies
    cases hresult : (guestModuleImportHash p c root source modules).1 with
    | ok h =>
        obtain ⟨-, contents, hplaced⟩ := hmeets.answered hresult
        refine (hplaced.kept hverifies).imp_right fun ⟨hcalls, hhash, hnew⟩ => ?_
        exact ⟨hcalls, h, contents, hhash, hplaced.copied, .inl hnew⟩
    | error e =>
        rcases (hmeets.failed hresult).2 with hsame | ⟨h, contents, hplaced | haside⟩
        · rw [verifies_iff] at hverifies ⊢
          rw [hsame hash hverifies.1]
          exact .inl hverifies
        · refine (hplaced.kept hverifies).imp_right fun ⟨hcalls, hhash, hnew⟩ => ?_
          exact ⟨hcalls, h, contents, hhash, hplaced.copied, .inl hnew⟩
        · by_cases hhash : hash = h.digits
          · subst hhash
            have hcalls := interrupted_of_intact (verifies_iff.1 hverifies).2 haside.notFound
            exact .inr ⟨hcalls, h, contents, rfl, haside.copied,
              .inr ⟨haside.moveStage, haside.moveBack, ⟨e, rfl⟩, haside.gone, haside.aside⟩⟩
          · exact .inl (haside.others.verifies hverifies hhash)

/-! ## A module that is lost -/

section

def sameValue : JSON → JSON → Bool
  | .string s, .string t => s == t
  | .bool b, .bool b' => b == b'
  | .int n, .int m => n == m
  | _, _ => false

def sameMembers : Members → Members → Bool
  | [], [] => true
  | (key, v) :: l, (key', v') :: l' => key == key' && sameValue v v' && sameMembers l l'
  | _, _ => false

theorem eq_of_sameValue {v v' : JSON} (h : sameValue v v' = true) : v = v' := by
  cases v <;> cases v' <;> first
    | exact congrArg _ (eq_of_beq h)
    | cases h

theorem eq_of_sameMembers {l l' : Members} (h : sameMembers l l' = true) : l = l' := by
  induction l generalizing l' with
  | nil =>
      cases l' with
      | nil => rfl
      | cons m l' => cases h
  | cons m l ih =>
      cases l' with
      | nil => cases h
      | cons m' l' =>
          simp only [sameMembers, Bool.and_eq_true, beq_iff_eq] at h
          rw [ih h.2, Prod.ext h.1.1 (eq_of_sameValue h.1.2)]

/-- The SHA-256 of the smallest executable, and of nothing else. -/
def digestOf (bytes : List UInt8) : Vector UInt8 32 :=
  if bytes = smallest then
    ⟨#[105, 47, 180, 106, 237, 48, 129, 145, 187, 57, 15, 45, 239, 108, 214, 163,
      19, 221, 76, 153, 233, 127, 174, 45, 50, 118, 102, 248, 185, 38, 17, 123], rfl⟩
  else Vector.replicate 32 0

def smallestHash : String := "692fb46aed308191bb390f2def6cd6a313dd4c99e97fae2d327666f8b926117b"

def smallestManifest : Members :=
  [("format".toList, .int 2), ("runtime".toList, .string "data-module".toList),
    ("source_name".toList, .string "app".toList),
    ("sha256".toList, .string smallestHash.toList), ("size".toList, .int 132),
    ("modified".toList, .bool false)]

def smallestContents : Contents := ⟨smallest, by decide +kernel⟩

def manifestContents : Contents where
  bytes := ascii "\x7b\n  \"format\" : 2,\n  \"runtime\" : \"data-module\",\n  \"source_name\" : " ++
    ascii "\"app\",\n  \"sha256\" : \"" ++ ascii smallestHash ++
      ascii "\",\n  \"size\" : 132,\n  \"modified\" : false\n\x7d"
  bounded := by decide +kernel

/-- A platform that knows this executable and its manifest. -/
def smallestPlatform : ModulePlatform where
  digest := digestOf
  parse bytes := if bytes = manifestContents.bytes then some (.object smallestManifest) else none
  write members := if sameMembers members smallestManifest then some manifestContents else none
  parse_nil := if_neg (by decide)
  parse_write := by
    intro members data _ hwrite
    split at hwrite
    · rename_i hsame
      obtain rfl : manifestContents = data := Option.some.inj hwrite
      rw [eq_of_sameMembers hsame, if_pos rfl]
      exact ⟨_, rfl, fun _ => rfl⟩
    · cases hwrite
  length_write := by
    intro members data _ hwrite
    split at hwrite
    · rename_i hsame
      obtain rfl : manifestContents = data := Option.some.inj hwrite
      rw [eq_of_sameMembers hsame]
      decide +kernel
    · cases hwrite

def smallestItems : NSString → Option Item := fun name =>
  if name = executableName then some (.file smallestContents)
  else if name = manifestName then some (.file manifestContents)
  else none

def smallestStore : Modules := fun name =>
  if name = text smallestHash then some (.directory smallestItems) else none

def smallestSource : Source where
  lastPathComponent := "app".toList
  item _ := some (.file smallestContents)
  named h := absurd h (by decide)

/-- The stored executable cannot be opened, and both moves after that fail. -/
def threeFailures : Circumstances where
  fails call := call = .verify (.executable .opening) ∨ call = .moveStage ∨ call = .moveBack
  stageUUID := text "1"
  damagedUUID := text "2"
  partialCopy := none
  leftover := none

theorem smallest_verifies :
    Verifies smallestPlatform (text "/m") smallestStore (text smallestHash) smallest := by
  have hparse : smallestPlatform.parse manifestContents.bytes =
      some (.object smallestManifest) := by simp only [smallestPlatform, if_true]
  have hwhole : Whole smallestPlatform smallestItems (text smallestHash) smallest :=
    ⟨⟨smallestContents, if_pos rfl, rfl⟩, by decide, manifestContents, smallestManifest,
      (if_neg (by decide)).trans (if_pos rfl), by decide +kernel, by decide +kernel, hparse,
      by decide +kernel, by decide +kernel, by decide +kernel⟩
  exact verifies_iff.2 ⟨by decide, smallestItems, if_pos rfl, hwhole⟩

/-- An import of a module that is stored can lose it. -/
theorem import_loses_module :
    ¬ ∀ hash bytes, Verifies smallestPlatform (text "/m") smallestStore hash bytes →
      Verifies smallestPlatform (text "/m")
        (guestModuleImportHash smallestPlatform threeFailures (text "/m") smallestSource
          smallestStore).2 hash bytes := by
  intro h
  have hafter := (verifies_iff.1 (h _ _ smallest_verifies)).2
  obtain ⟨items, hentry, -⟩ := hafter
  have hnone : ((guestModuleImportHash smallestPlatform threeFailures (text "/m") smallestSource
      smallestStore).2 (text smallestHash)).isNone = true := by decide +kernel
  rw [hentry] at hnone
  cases hnone

end

end GuestModule

end Tolkara
