import Tolkara.Image.Faithful
import Tolkara.Library.Attempts
import Tolkara.Modules.Verified

/-!
# Imports of modules

`guest_module_import_hash` copies an executable into a directory of its own, checks the copy
and moves the directory to its name, where a module that does not verify makes room for it
and comes back if the move fails. Every call it makes can fail, and the source is looked at
three times.
-/

namespace Tolkara

namespace GuestModule

open Library NSString

inductive ImportCall where
  | createRoot
  | createStage
  | hashSource (call : Reading)
  | copyItem
  | hashCopy (call : Reading)
  | rehashSource (call : Reading)
  | loadImage
  | chmod
  | writeManifest
  | fileExists
  | verify (call : Verifying)
  | moveFinal
  | moveStage
  | moveBack
  | writeCurrent
  | removeStage
deriving DecidableEq

/-- The errors of `module_error`, of `gi_load` and of the calls that report their own. -/
inductive ImportError where
  | module (message : String)
  | unsupported (reason : ImageError)
  | foundation (call : ImportCall)

/-- When an import looks at the source. -/
inductive Moment where
  | before
  | copying
  | after

/-- The path that is imported. The names of a file system have at most 255 characters. -/
structure Source where
  lastPathComponent : List Char
  item : Moment → Option Item
  named : 255 < lastPathComponent.length → ∀ moment, item moment = none

/-- What an import meets: the calls that fail, the new UUIDs, what a copy leaves that fails
and what is left of the stage where it is not removed. -/
structure Circumstances where
  fails : ImportCall → Bool
  stageUUID : NSString
  damagedUUID : NSString
  partialCopy : Option Item
  leftover : Option Entry

def Modules.put (modules : Modules) (directory name : NSString) (item : Option Item) : Modules :=
  match modules directory with
  | some (.directory items) =>
    Function.update modules directory (some (.directory (Function.update items name item)))
  | _ => modules

variable (p : ModulePlatform) (c : Circumstances)

/-! ## Calls -/

def stageName : NSString := text ".import-" ++ c.stageUUID

def damagedName : NSString := text ".damaged-" ++ c.damagedUUID

def operation (call : ImportCall) : Attempt Modules ImportError Unit :=
  .check (c.fails call = false) (.foundation call)

/-- `createDirectoryAtPath` without intermediate directories. -/
def createDirectory (call : ImportCall) (name : NSString) : Attempt Modules ImportError Unit := do
  operation c call
  let entry ← .observe fun modules => modules name
  .check (entry.isNone = true) (.foundation call)
  .change fun modules => Function.update modules name (some (.directory fun _ => none))

/-- `moveItemAtPath`, which replaces nothing. -/
def moveItem (call : ImportCall) (source target : NSString) :
    Attempt Modules ImportError Unit := do
  operation c call
  let entry ← .observe fun modules => modules source
  let taken ← .observe fun modules => modules target
  .check (entry.isSome = true ∧ taken.isNone = true) (.foundation call)
  .change fun modules => Function.update (Function.update modules source none) target entry

def copyItem (source : Source) (stage : NSString) : Attempt Modules ImportError Unit :=
  if c.fails .copyItem = true ∨ (source.item .copying).isNone = true then do
    .change fun modules => modules.put stage executableName c.partialCopy
    .lift (.error (.foundation .copyItem))
  else .change fun modules => modules.put stage executableName (source.item .copying)

def writeJSON (call : ImportCall) (members : Members) (store : Contents → Modules → Modules) :
    Attempt Modules ImportError Unit := do
  let data ← .lift (obtained (p.write members) (.foundation call))
  operation c call
  .change (store data)

def removeStage (stage : NSString) (modules : Modules) : Modules :=
  match modules stage with
  | none => modules
  | some _ =>
    Function.update modules stage (if c.fails .removeStage then c.leftover else none)

/-! ## The import -/

def hashText (hash : Hash) : List Char := hash.digits.map fun u => Char.ofNat u.toNat

def manifestOf (source : Source) (copied : Hash) (copySize : ℕ) : Members :=
  [("format".toList, .int 2), ("runtime".toList, .string "data-module".toList),
    ("source_name".toList, .string source.lastPathComponent),
    ("sha256".toList, .string (hashText copied)), ("size".toList, .int copySize),
    ("modified".toList, .bool false)]

def changed : ImportError := .module "The executable changed during import. Please retry."

/-- The copy in the stage, checked and with its manifest. -/
def stageModule (source : Source) (stage : NSString) : Attempt Modules ImportError Hash := do
  let (before, sourceSize) ← .lift <|
    (hashFile p (fun call => c.fails (.hashSource call)) (source.item .before)).mapError .module
  copyItem c source stage
  let copy ← .observe fun modules => modules.within stage executableName
  let (copied, copySize) ← .lift <|
    (hashFile p (fun call => c.fails (.hashCopy call)) copy).mapError fun _ => changed
  let again := hashFile p (fun call => c.fails (.rehashSource call)) (source.item .after)
  .check (before = copied ∧ sourceSize = copySize ∧ again.toOption.map Prod.fst = some before)
    changed
  let bytes ← .observe fun modules => storedBytes modules stage
  .lift <|
    (giLoad (if c.fails .loadImage then none else bytes) LoadedImage.empty).1.mapError
      .unsupported
  operation c .chmod
  writeJSON p c .writeManifest (manifestOf source copied copySize) fun data modules =>
    modules.put stage manifestName (some (.file data))
  return copied

/-- The stage takes the place of a module that is missing or does not verify. -/
def placeModule (root stage : NSString) (copied : Hash) : Attempt Modules ImportError Unit := do
  let final := copied.digits
  let found ← .observe fun modules => (modules final).isSome && !c.fails .fileExists
  if found then
    let verified ← .observe fun modules =>
      (verify p root (fun call => c.fails (.verify call)) modules final).isOk
    if verified then return ()
    else
      moveItem c .moveFinal final (damagedName c)
      (moveItem c .moveStage stage final).onFailure fun modules =>
        (moveItem c .moveBack (damagedName c) final modules).2
  else moveItem c .moveStage stage final

/-- The module that `current.json` names from now on. A file does not replace a directory. -/
def writeCurrent (copied : Hash) : Attempt Modules ImportError Unit := do
  let entry ← .observe fun modules => modules currentName
  .check (entry.any Entry.isDirectory = false) (.foundation .writeCurrent)
  writeJSON p c .writeCurrent [("sha256".toList, .string (hashText copied))] fun data modules =>
    Function.update modules currentName (some (.item (.file data)))

def guestModuleImportHash (root : NSString) (source : Source) :
    Attempt Modules ImportError Hash := do
  operation c .createRoot
  let stage := stageName c
  createDirectory c .createStage stage
  Attempt.always
    (do
      let copied ← stageModule p c source stage
      placeModule p c root stage copied
      writeCurrent p c copied
      return copied)
    (removeStage c stage)

/-! ## What the calls do -/

section

variable {c} {modules : Modules} {call : ImportCall} {name source target : NSString}

@[simp] theorem meets_operation {Q : Unit → Modules → Prop} {E : ImportError → Modules → Prop} :
    (operation c call).Meets modules Q E ↔
      (c.fails call = false → Q () modules) ∧
        (c.fails call = true → E (.foundation call) modules) := by
  simp [operation, Attempt.meets_check]

theorem createDirectory_meets (call : ImportCall) (name : NSString) (modules : Modules) :
    (createDirectory c call name).Meets modules
      (fun _ modules' =>
        modules' = Function.update modules name (some (.directory fun _ => none)))
      fun _ modules' => modules' = modules := by
  simp [createDirectory, Attempt.meets_check]

theorem moveItem_meets (call : ImportCall) (source target : NSString) (modules : Modules) :
    (moveItem c call source target).Meets modules
      (fun _ modules' => ∃ entry, modules source = some entry ∧ modules target = none ∧
        modules' = Function.update (Function.update modules source none) target (some entry))
      fun _ modules' => modules' = modules ∧
        (c.fails call = true ∨ modules source = none ∨ modules target ≠ none) := by
  simp only [moveItem, Attempt.meets_bind, meets_operation, Attempt.meets_observe,
    Attempt.meets_check, Attempt.meets_change]
  refine ⟨fun _ => ⟨?_, fun htaken => ⟨trivial, .inr ?_⟩⟩, fun hfails => ⟨trivial, .inl hfails⟩⟩
  · rintro ⟨hsource, htarget⟩
    obtain ⟨entry, hentry⟩ := Option.isSome_iff_exists.1 hsource
    exact ⟨entry, hentry, Option.isNone_iff_eq_none.1 htarget, by rw [hentry]⟩
  · rw [not_and_or, Option.not_isSome_iff_eq_none] at htaken
    exact htaken.imp_right fun h htarget => h (Option.isNone_iff_eq_none.2 htarget)

theorem put_of_ne {directory : NSString} {item : Option Item} (h : name ≠ directory) (key) :
    modules.put directory key item name = modules name := by
  cases hentry : modules directory with
  | none => simp [Modules.put, hentry]
  | some entry => cases entry <;> simp [Modules.put, hentry, h]

theorem put_directory {directory : NSString} {items : NSString → Option Item}
    (h : modules directory = some (.directory items)) (key : NSString) (item : Option Item) :
    modules.put directory key item directory =
      some (.directory (Function.update items key item)) := by
  simp [Modules.put, h]

theorem removeStage_of_ne {stage : NSString} (h : name ≠ stage) :
    removeStage c stage modules name = modules name := by
  cases hentry : modules stage with
  | none => simp [removeStage, hentry]
  | some entry => simp [removeStage, hentry, h]

theorem copyItem_meets (source : Source) {stage : NSString} {items : NSString → Option Item}
    (h : modules stage = some (.directory items)) :
    (copyItem c source stage).Meets modules
      (fun _ modules' => (∀ name, name ≠ stage → modules' name = modules name) ∧
        modules' stage =
          some (.directory (Function.update items executableName (source.item .copying))))
      fun _ modules' => ∀ name, name ≠ stage → modules' name = modules name := by
  unfold copyItem
  split
  · exact fun name hname => put_of_ne hname _
  · exact ⟨fun name hname => put_of_ne hname _, put_directory h _ _⟩

theorem writeJSON_meets (call : ImportCall) (members : Members)
    (store : Contents → Modules → Modules) (modules : Modules) :
    (writeJSON p c call members store).Meets modules
      (fun _ modules' => ∃ data, p.write members = some data ∧ modules' = store data modules)
      fun _ modules' => modules' = modules := by
  simp only [writeJSON, Attempt.meets_bind, Attempt.meets_lift, obtained_ok, meets_operation,
    Attempt.meets_change, implies_true, and_true]
  exact fun data hdata _ => ⟨data, hdata, rfl⟩

end

/-! ## What is written -/

theorem toNat_hashText (h : Hash) {u : UInt16} (hu : u ∈ h.digits) :
    (Char.ofNat u.toNat).toNat = u.toNat ∧ u.toNat < 0x80 := by
  have hdigit := ((validHash_iff h.digits).1 h.valid).2 u hu
  simp only [UInt16.le_iff_toNat_le, UInt16.reduceToNat] at hdigit
  have hsmall : u.toNat < 0x80 := by omega
  have hchar : ∀ n < 0x80, (Char.ofNat n).toNat = n := by decide
  exact ⟨hchar _ hsmall, hsmall⟩

theorem utf16_hashText (h : Hash) : utf16 (hashText h) = h.digits := by
  have hascii : ∀ ch ∈ hashText h, ch.toNat < 0x80 := by
    intro ch hch
    obtain ⟨u, hu, rfl⟩ := List.mem_map.1 hch
    obtain ⟨hchar, hsmall⟩ := toNat_hashText h hu
    rwa [hchar]
  have hunit : ∀ u ∈ h.digits, UInt16.ofNat (Char.ofNat u.toNat).toNat = u := by
    intro u hu
    rw [(toNat_hashText h hu).1, UInt16.ofNat_toNat]
  rw [utf16_ascii hascii, hashText, List.map_map]
  exact (List.map_congr_left hunit).trans (List.map_id _)

section

variable {p} {members : Members} {data : Contents} {source : Source} {copied : Hash}

theorem readable_of_written (hplain : PlainMembers members)
    (hshort : printedLength members ≤ 16384) (hwrite : p.write members = some data) :
    ∃ read, readJSON p (fun _ => false) (some (.file data)) = some read ∧
      ∀ key, member read key = member members key := by
  obtain ⟨read, hparse, hread⟩ := p.parse_write hplain hwrite
  have hne : data.bytes ≠ [] := by
    intro hnil
    rw [hnil, p.parse_nil] at hparse
    cases hparse
  exact ⟨read, readJSON_some.2 ⟨fun _ => rfl, data, rfl, List.length_pos_iff.2 hne,
    (p.length_write hplain hwrite).trans hshort, hparse⟩, hread⟩

theorem manifestOf_plain {n : ℕ} (hn : n < 2 ^ 63) :
    PlainMembers (manifestOf source copied n) := by
  constructor
  · simp only [manifestOf, List.map_cons, List.map_nil]
    decide
  · simp only [manifestOf, List.forall_mem_cons]
    refine ⟨by decide, trivial, trivial, trivial, ?_, trivial, nofun⟩
    rw [abs_of_nonneg (Int.natCast_nonneg n)]
    exact_mod_cast hn

theorem printedLength_manifestOf {n : ℕ} (h : source.lastPathComponent.length ≤ 255) :
    printedLength (manifestOf source copied n) ≤ 16384 := by
  have hname := length_utf16_le source.lastPathComponent
  have hhash : (utf16 (hashText copied)).length = 64 := by
    rw [utf16_hashText]
    exact ((validHash_iff _).1 copied.valid).1
  have hkeys : (utf16 "format".toList).length = 6 ∧ (utf16 "runtime".toList).length = 7 ∧
      (utf16 "data-module".toList).length = 11 ∧ (utf16 "source_name".toList).length = 11 ∧
        (utf16 "sha256".toList).length = 6 ∧ (utf16 "size".toList).length = 4 ∧
          (utf16 "modified".toList).length = 8 := by decide
  simp only [printedLength, manifestOf, List.map_cons, List.map_nil, List.sum_cons, List.sum_nil,
    printedValue, hhash, hkeys]
  omega

end

/-! ## The stage -/

structure Copied (source : Source) (contents : Contents) (hash : Hash) : Prop where
  copied : source.item .copying = some (.file contents)
  hashed : sha256 p contents.bytes = hash
  before : ∃ seen, source.item .before = some (.file seen) ∧ sha256 p seen.bytes = hash ∧
    seen.bytes.length = contents.bytes.length
  after : ∃ seen, source.item .after = some (.file seen) ∧ sha256 p seen.bytes = hash

def Outside (stage : NSString) (modules modules' : Modules) : Prop :=
  ∀ name, name ≠ stage → modules' name = modules name

section

variable {p c} {source : Source} {stage : NSString} {modules : Modules}

/-- The manifest that is written makes the copy a module. -/
theorem whole_of_manifest {copied : Hash} {contents data : Contents}
    {items : NSString → Option Item} (hshort : source.lastPathComponent.length ≤ 255)
    (hitem : items executableName = some (.file contents))
    (hhash : sha256 p contents.bytes = copied)
    (hwrite : p.write (manifestOf source copied contents.bytes.length) = some data) :
    Whole p (Function.update items manifestName (some (.file data))) copied.digits
      contents.bytes := by
  have hname : executableName ≠ manifestName := by decide
  obtain ⟨read, hread, hmember⟩ := readable_of_written (manifestOf_plain contents.bounded)
    (printedLength_manifestOf hshort) hwrite
  obtain ⟨-, _, ⟨⟩, hlow, hhigh, hparse⟩ := readJSON_some.1 hread
  refine ⟨⟨contents, by simp [hname, hitem], rfl⟩, by rw [hhash],
    data, read, by simp, hlow, hhigh, hparse, ?_, ?_, ?_⟩
  · rw [hmember]
    rfl
  · rw [hmember]
    change (utf16 (hashText copied) == copied.digits) = true
    rw [utf16_hashText, beq_self_eq_true]
  · rw [hmember]
    exact beq_self_eq_true (contents.bytes.length : ℤ)

theorem stageModule_meets (hstage : modules stage = some (.directory fun _ => none)) :
    (stageModule p c source stage).Meets modules
      (fun copied modules' => Outside stage modules modules' ∧ ∃ contents,
        Copied p source contents copied ∧
          Intact p (modules' stage) copied.digits contents.bytes)
      fun _ modules' => Outside stage modules modules' := by
  have hsame : Outside stage modules modules := fun _ _ => rfl
  unfold stageModule
  refine Attempt.meets_bind.2 (Attempt.meets_lift.2 ⟨?_, fun _ _ => hsame⟩)
  rintro ⟨before, sourceSize⟩ hbefore
  obtain ⟨-, seen, hseen, hseenHash, hseenSize⟩ := hashFile_ok.1 (mapError_ok.1 hbefore)
  refine Attempt.meets_bind.2 ((copyItem_meets source hstage).imp ?_ fun _ _ h => h)
  rintro - copying ⟨hcopying, hitems⟩
  refine Attempt.meets_bind.2 (Attempt.meets_observe.2 ?_)
  refine Attempt.meets_bind.2 (Attempt.meets_lift.2 ⟨?_, fun _ _ => hcopying⟩)
  rintro ⟨copied, copySize⟩ hcopy
  obtain ⟨-, contents, hcontents, hcopied, rfl⟩ := hashFile_ok.1 (mapError_ok.1 hcopy)
  refine Attempt.meets_bind.2 (Attempt.meets_check.2 ⟨?_, fun _ => hcopying⟩)
  rintro ⟨rfl, rfl, hagain⟩
  refine Attempt.meets_bind.2 (Attempt.meets_observe.2 ?_)
  refine Attempt.meets_bind.2 (Attempt.meets_lift.2 ⟨fun _ _ => ?_, fun _ _ => hcopying⟩)
  refine Attempt.meets_bind.2 (meets_operation.2 ⟨fun _ => ?_, fun _ => hcopying⟩)
  refine Attempt.meets_bind.2 ((writeJSON_meets p _ _ _ _).imp ?_ ?_)
  · rintro - _ ⟨data, hdata, rfl⟩
    have hsource : source.item .copying = some (.file contents) := by
      simpa [Modules.within, hitems] using hcontents
    have hshort : source.lastPathComponent.length ≤ 255 := by
      by_contra hlong
      rw [source.named (not_le.1 hlong)] at hsource
      cases hsource
    refine ⟨fun name hname => (put_of_ne hname _).trans (hcopying name hname), contents,
      ⟨hsource, hcopied, ⟨seen, hseen, hseenHash, hseenSize⟩, ?_⟩, _,
      put_directory hitems _ _, whole_of_manifest hshort (by simp [hsource]) hcopied hdata⟩
    obtain ⟨⟨_, _⟩, hrehashed, rfl⟩ := Option.map_eq_some_iff.1 hagain
    obtain ⟨-, last, hlast, hlastHash, -⟩ := hashFile_ok.1 (toOption_some.1 hrehashed)
    exact ⟨last, hlast, hlastHash⟩
  · rintro _ _ rfl
    exact hcopying

end

/-! ## The place of the module -/

/-- The verification inside the import finds a whole module. -/
def VerifiedInside (entry : Option Entry) (hash : NSString) : Prop :=
  (∀ call, c.fails (.verify call) = false) ∧ ∃ bytes, Intact p entry hash bytes

/-- The names that an import touches, `current.json` apart, are not this one. -/
def Apart (stage final name : NSString) : Prop :=
  name ≠ stage ∧ name ≠ damagedName c ∧ name ≠ final

section

variable {p c} {root stage : NSString} {modules : Modules}

theorem verify_isOk {hash : NSString} :
    (verify p root (fun call => c.fails (.verify call)) modules hash).isOk = true ↔
      VerifiedInside p c (modules hash) hash := by
  unfold VerifiedInside
  constructor
  · intro hrun
    cases hverify : verify p root (fun call => c.fails (.verify call)) modules hash with
    | error e =>
        rw [hverify] at hrun
        cases hrun
    | ok path =>
        obtain ⟨hcalls, -, hintact⟩ := verify_ok.1 hverify
        exact ⟨hcalls, hintact⟩
  · rintro ⟨hcalls, hintact⟩
    rw [verify_ok.2 ⟨hcalls, rfl, hintact⟩]
    rfl

theorem not_verifiedInside_of_none {hash : NSString} (h : modules hash = none) :
    ¬ VerifiedInside p c (modules hash) hash := by
  rintro ⟨-, bytes, items, hentry, -⟩
  rw [h] at hentry
  cases hentry

/-- A module that was moved aside is back, or stays aside where that move fails. -/
theorem moveBack_ended {final damaged : NSString} {old : Entry} (hne : damaged ≠ final)
    (hold : modules final = some old) :
    let back := (moveItem c .moveBack damaged final
      (Function.update (Function.update modules final none) damaged (some old))).2
    (∀ name, name ≠ damaged → name ≠ final → back name = modules name) ∧
      (back final = modules final ∨
        c.fails .moveBack = true ∧ back final = none ∧ back damaged = modules final) := by
  refine Attempt.Meets.ended (R := fun back : Modules =>
    (∀ name, name ≠ damaged → name ≠ final → back name = modules name) ∧
      (back final = modules final ∨
        c.fails .moveBack = true ∧ back final = none ∧ back damaged = modules final))
    ((moveItem_meets .moveBack damaged final _).imp ?_ ?_)
  · rintro - _ ⟨entry, hentry, -, rfl⟩
    rw [Function.update_self] at hentry
    refine ⟨fun name hname hname' => by simp [hname, hname'], .inl ?_⟩
    rw [Function.update_self, ← hentry, hold]
  · rintro - _ ⟨rfl, hfails⟩
    refine ⟨fun name hname hname' => by simp [hname, hname'], .inr ⟨?_, ?_, ?_⟩⟩
    · simpa [hne.symm] using hfails
    · simp [hne.symm]
    · rw [Function.update_self, hold]

/-- The stage is in the place of the module, or the module was found whole and stays. Where
the replacement fails, the module is back, or is left aside where the move back fails too. -/
theorem placeModule_meets {copied : Hash} {entry : Entry} (hstage : modules stage = some entry)
    (hfinal : stage ≠ copied.digits) (hdamaged : damagedName c ≠ copied.digits)
    (hnames : damagedName c ≠ stage) :
    (placeModule p c root stage copied).Meets modules
      (fun _ modules' =>
        (∀ name, Apart c stage copied.digits name → modules' name = modules name) ∧
          (VerifiedInside p c (modules copied.digits) copied.digits ∧
              modules' copied.digits = modules copied.digits ∨
            ¬ VerifiedInside p c (modules copied.digits) copied.digits ∧
              modules' copied.digits = some entry))
      fun _ modules' =>
        (∀ name, Apart c stage copied.digits name → modules' name = modules name) ∧
          (modules' copied.digits = modules copied.digits ∨
            ¬ VerifiedInside p c (modules copied.digits) copied.digits ∧
              c.fails .moveStage = true ∧ c.fails .moveBack = true ∧
                modules' copied.digits = none ∧
                  modules' (damagedName c) = modules copied.digits) := by
  have hsame : ∀ name, Apart c stage copied.digits name → modules name = modules name :=
    fun _ _ => rfl
  unfold placeModule
  refine Attempt.meets_bind.2 (Attempt.meets_observe.2 ?_)
  split
  · refine Attempt.meets_bind.2 (Attempt.meets_observe.2 ?_)
    split
    · rename_i hverified
      exact ⟨hsame, .inl ⟨verify_isOk.1 hverified, rfl⟩⟩
    · rename_i hverified
      rw [verify_isOk] at hverified
      refine Attempt.meets_bind.2 ((moveItem_meets _ _ _ _).imp ?_ ?_)
      · rintro - aside ⟨old, hold, hfree, rfl⟩
        refine Attempt.meets_onFailure.2 ((moveItem_meets _ _ _ _).imp ?_ ?_)
        · rintro - _ ⟨placed, hplaced, -, rfl⟩
          rw [Function.update_of_ne hnames.symm, Function.update_of_ne hfinal, hstage] at hplaced
          refine ⟨fun name hname => ?_, .inr ⟨hverified, ?_⟩⟩
          · simp [hname.1, hname.2.1, hname.2.2]
          · rw [Function.update_self, hplaced]
        · rintro e _ ⟨rfl, hfails⟩
          have hmove : c.fails .moveStage = true := by
            simpa [hnames.symm, hfinal, hdamaged.symm, hstage] using hfails
          obtain ⟨hothers, hback⟩ := moveBack_ended hdamaged hold
          refine ⟨fun name hname => hothers name hname.2.1 hname.2.2, ?_⟩
          exact hback.imp_right fun hfails => ⟨hverified, hmove, hfails⟩
      · rintro e _ ⟨rfl, -⟩
        exact ⟨hsame, .inl rfl⟩
  · refine (moveItem_meets _ _ _ _).imp ?_ ?_
    · rintro - _ ⟨placed, hplaced, hfree, rfl⟩
      rw [hstage] at hplaced
      refine ⟨fun name hname => ?_, .inr ⟨not_verifiedInside_of_none hfree, ?_⟩⟩
      · simp [hname.1, hname.2.2]
      · rw [Function.update_self, hplaced]
    · rintro e _ ⟨rfl, -⟩
      exact ⟨hsame, .inl rfl⟩

/-- Other modules stay, and `current.json` is as before where it cannot be written. -/
theorem writeCurrent_meets (copied : Hash) (modules : Modules) :
    (writeCurrent p c copied).Meets modules
      (fun _ modules' => (∀ name, name ≠ currentName → modules' name = modules name) ∧
        selection p (fun _ => false) modules' = some copied.digits)
      fun _ modules' => modules' = modules := by
  have hhash : (utf16 (hashText copied)).length = 64 := by
    rw [utf16_hashText]
    exact ((validHash_iff _).1 copied.valid).1
  have hplain : PlainMembers [("sha256".toList, .string (hashText copied))] :=
    ⟨by simp, by simp⟩
  have hshort : printedLength [("sha256".toList, .string (hashText copied))] ≤ 16384 := by
    simp only [printedLength, List.map_cons, List.map_nil, List.sum_cons, List.sum_nil,
      printedValue, hhash, show (utf16 "sha256".toList).length = 6 by decide]
    decide
  unfold writeCurrent
  refine Attempt.meets_bind.2 (Attempt.meets_observe.2 ?_)
  refine Attempt.meets_bind.2 (Attempt.meets_check.2 ⟨fun _ => ?_, fun _ => rfl⟩)
  refine (writeJSON_meets p _ _ _ _).imp ?_ fun _ _ h => h
  rintro - _ ⟨data, hdata, rfl⟩
  obtain ⟨read, hread, hmember⟩ := readable_of_written hplain hshort hdata
  refine ⟨fun name hname => Function.update_of_ne hname _ _, ?_⟩
  have hfield : field (some read) "sha256" = some (.string (hashText copied)) :=
    (hmember "sha256").trans rfl
  rw [selection, Function.update_self, Option.map_some, Entry.asItem, hread, hfield]
  exact congrArg some (utf16_hashText copied)

end

end GuestModule

end Tolkara
