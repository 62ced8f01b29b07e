import Mathlib.Data.List.DropRight
import Mathlib.Data.Finset.Basic
import Mathlib.Tactic

/-!
# The launcher's list of applications

`TKAppLibrary`: the entries of imported applications, the profiles that were dismissed and
the file `apps.json` that both are saved in. What the file system says when a method asks it
is the parameter `Files`, and what the JSON coder does is `Coder`.
-/

namespace Tolkara

abbrev NSString := List UInt16

def text (s : String) : NSString := s.toList.map fun c => UInt16.ofNat c.toNat

namespace NSString

def slash : UInt16 := 47

def parts (path : NSString) : List NSString := path.splitOn slash

/-- `pathComponents` of a path without a slash at its end. -/
def pathComponents (path : NSString) : List NSString :=
  (if path.head? = some slash then [[slash]] else []) ++ path.parts.filter (· ≠ [])

def lastPathComponent (path : NSString) : NSString := path.pathComponents.getLastD []

def pathWithComponents (components : List NSString) : NSString := [slash].intercalate components

def appendingPathComponent (directory component : NSString) : NSString :=
  if directory = [] then component
  else if directory.getLast? = some slash then directory ++ component
  else directory ++ slash :: component

/-- `pathExtension`: what follows the last dot of the last component, unless it starts the
component. -/
def pathExtension (path : NSString) : NSString :=
  let pieces := path.lastPathComponent.splitOn 46
  if pieces.length < 2 ∨ pieces.dropLast = [[]] then [] else pieces.getLastD []

def deletingPathExtension (component : NSString) : NSString :=
  if component.pathExtension = [] then component
  else component.take (component.length - (component.pathExtension.length + 1))

def isWhitespace (u : UInt16) : Bool :=
  (9 ≤ u && u ≤ 13) || u == 0x20 || u == 0x85 || u == 0xA0 || u == 0x1680 ||
    (0x2000 ≤ u && u ≤ 0x200A) || u == 0x2028 || u == 0x2029 || u == 0x202F || u == 0x205F ||
    u == 0x3000

/-- `stringByTrimmingCharactersInSet` of the whitespace. -/
def trimmed (s : NSString) : NSString :=
  ((s.dropWhile isWhitespace).reverse.dropWhile isWhitespace).reverse

theorem trimmed_eq_nil (s : NSString) :
    s.trimmed = [] ↔ ∀ u ∈ s, isWhitespace u = true := by
  rw [trimmed, List.reverse_eq_nil_iff, List.dropWhile_eq_nil_iff]
  constructor
  · intro h
    by_contra hnot
    have hne : s.dropWhile isWhitespace ≠ [] :=
      fun hnil => hnot (List.dropWhile_eq_nil_iff.mp hnil)
    have hhead := List.head_dropWhile_not isWhitespace hne
    rw [h _ (List.mem_reverse.mpr (List.head_mem hne))] at hhead
    cases hhead
  · intro h u hu
    exact h u ((List.dropWhile_suffix isWhitespace).subset (List.mem_reverse.mp hu))

def isHexDigit (u : UInt16) : Bool :=
  (48 ≤ u && u ≤ 57) || (97 ≤ u && u ≤ 102) || (65 ≤ u && u ≤ 70)

/-- `initWithUUIDString` accepts the text. -/
def isUUID (s : NSString) : Bool :=
  let pieces := s.splitOn 45
  pieces.map List.length == [8, 4, 4, 4, 12] && pieces.all (·.all isHexDigit)

end NSString

open NSString

/-- No part of the path is empty, a dot or two dots. -/
def plainParts (path : NSString) : Bool :=
  path.parts.all fun part => part ≠ [] && part ≠ text "." && part ≠ text ".."

def validRelative (path : NSString) (allowEmpty : Bool) : Bool :=
  if 4096 < path.length then false
  else if path = [] then allowEmpty
  else plainParts path

def validHash (hash : NSString) : Bool :=
  hash.length == 64 && hash.all fun u => (48 ≤ u && u ≤ 57) || (97 ≤ u && u ≤ 102)

def join (directory path : NSString) : NSString :=
  if path = [] then directory else directory.appendingPathComponent path

def cleanName (name : NSString) : Option NSString :=
  if name.trimmed = [] then none
  else some (if 100 < name.trimmed.length then name.trimmed.take 100 else name.trimmed)

/-- A digest as `guest_module_hash` writes it. -/
structure Hash where
  digits : NSString
  valid : validHash digits = true
deriving DecidableEq

/-- A profile that `profilesInDirectory` accepts. -/
structure Profile where
  id : NSString
  name : NSString
  workingDirectory : NSString
  executable : NSString
  runtime : Option NSString
  named : (cleanName name).isSome
  validDirectory : validRelative workingDirectory false = true
  validExecutable : validRelative executable false = true
  validRuntime : ∀ r ∈ runtime, validRelative r false = true
deriving DecidableEq

namespace Profile

def executablePath (p : Profile) : NSString :=
  join (p.runtime.getD p.workingDirectory) p.executable

end Profile

inductive AppSource where
  | documents
  | copy
deriving DecidableEq

/-- What an entry is made of: a record without its id and its dates. -/
structure Draft where
  source : AppSource
  name : NSString
  executable : NSString
  workingDirectory : NSString
  sha256 : Option NSString
  profile : Option NSString
deriving DecidableEq

/-- An entry. The dates are the bits of their `NSNumber`. -/
structure AppRecord extends Draft where
  id : NSString
  added : ℕ
  lastLaunched : Option ℕ
deriving DecidableEq

def AppRecord.valid (r : AppRecord) : Bool :=
  r.id.isUUID && (cleanName r.name).isSome && validRelative r.executable false &&
    validRelative r.workingDirectory true &&
    (r.source == .documents || (r.source == .copy && r.sha256.any validHash)) &&
    r.sha256.all validHash

/-- The keys of an `Info.plist` that are strings. -/
structure InfoPlist where
  executable : Option NSString
  displayName : Option NSString
  bundleName : Option NSString

/-- What the file system answers while a method runs. A real path starts with a slash, has no
empty, dot or dot-dot component and is its own real path, also when it is reached through
`Documents`. -/
structure Files (documents : NSString) where
  realPath : NSString → Option NSString
  /-- `lstat` finds a regular file. -/
  isRegular : NSString → Bool
  isDirectory : NSString → Bool
  /-- `guest_module_hash`. -/
  hash : NSString → Option Hash
  /-- `gi_load` accepts the file. -/
  supported : NSString → Bool
  infoPlist : NSString → Option InfoPlist
  /-- `guest_module_import_hash`. -/
  importHash : NSString → Option Hash
  /-- `verify` accepts the stored module. -/
  verified : NSString → Bool
  /-- The module of `guest_module_selected`. -/
  selected : Option Hash
  /-- The `source_name` in the manifest of a stored module. -/
  sourceName : Hash → Option NSString
  absolute : ∀ {path real}, realPath path = some real → real.head? = some slash
  normal : ∀ {path root rest}, realPath path = some (root ++ slash :: rest) → root ≠ [] →
    validRelative rest false = true
  again : ∀ {path root rest}, realPath documents = some root →
    realPath path = some (root ++ slash :: rest) →
      realPath (join documents rest) = some (root ++ slash :: rest)

/-- What `apps.json` holds. -/
structure Stored where
  apps : List AppRecord
  dismissedProfiles : Finset NSString
  legacyImported : Bool
deriving DecidableEq

/-- `NSJSONSerialization`: what it writes, it reads back. -/
structure Coder where
  encode : Stored → Option (List UInt8)
  decode : List UInt8 → Option Stored
  decode_encode : ∀ {stored data}, encode stored = some data → decode data = some stored

/-- What a method that adds an entry takes from its surroundings: a new UUID, the time and
whether the file can be written. -/
structure Ambient where
  uuid : NSString
  now : ℕ
  saves : Bool

/-- What stands around a library: the path of `Documents`, `stringByStandardizingPath` and the
coder. A relative path without empty or dot components is standard, unless it starts with a
tilde, which makes it absolute. -/
structure Surroundings where
  documents : NSString
  standardizing : NSString → NSString
  coder : Coder
  standard : ∀ {path}, plainParts path = true →
    standardizing path = path ∨ (standardizing path).head? = some slash

structure TKAppLibrary where
  profiles : List Profile
  records : List AppRecord
  dismissedProfiles : Finset NSString
  legacyImported : Bool
  file : Option (List UInt8)
deriving DecidableEq

namespace TKAppLibrary

variable (surroundings : Surroundings)

def modulesDirectory : NSString := text "GuestModules"

def moduleExecutable (hash : NSString) : NSString :=
  (modulesDirectory.appendingPathComponent hash).appendingPathComponent
    (text "OriginalExecutable.bin")

def sizeLimit : ℕ := 4 * 1024 * 1024

/-- The loop over the records of a file: those that are valid, each id once. -/
def loadRecords : List AppRecord → List NSString → List AppRecord
  | [], _ => []
  | r :: rest, identifiers =>
    if ¬ r.valid ∨ r.id ∈ identifiers then loadRecords rest identifiers
    else r :: loadRecords rest (r.id :: identifiers)

/-- `initWithDocuments`, on a file. A damaged one is moved aside, when that is possible. -/
def openLibrary (profiles : List Profile) (file : Option (List UInt8)) (moves : Bool) :
    TKAppLibrary :=
  match file with
  | none => ⟨profiles, [], ∅, false, none⟩
  | some data =>
    match if data.length ≤ sizeLimit then surroundings.coder.decode data else none with
    | none => ⟨profiles, [], ∅, false, if moves then none else some data⟩
    | some stored =>
      ⟨profiles, loadRecords stored.apps [], stored.dismissedProfiles, stored.legacyImported,
        some data⟩

/-- `saveRecords`: the library with its file written, or nothing. -/
def saveRecords (lib : TKAppLibrary) (records : List AppRecord) (dismissed : Finset NSString)
    (legacy saves : Bool) : Option TKAppLibrary :=
  if ¬ saves then none
  else
    (surroundings.coder.encode ⟨records, dismissed, legacy⟩).map fun data =>
      { lib with
        records := records
        dismissedProfiles := dismissed
        legacyImported := legacy
        file := some data }

def relativeInDocuments (files : Files surroundings.documents) (path : NSString) :
    Option NSString :=
  match files.realPath surroundings.documents, files.realPath path with
  | some root, some real =>
    if (root ++ [slash]).isPrefixOf real then some (real.drop (root.length + 1)) else none
  | _, _ => none

/-- A path inside a bundle: the name of the bundle with its extension. -/
def bundleOf (components : List NSString) : Option NSString :=
  match components.reverse with
  | _ :: macOS :: contents :: app :: _ =>
    if macOS = text "MacOS" ∧ contents = text "Contents" ∧ app.pathExtension = text "app" then
      some app
    else none
  | _ => none

/-- `describeExecutable`: the name, the working directory and the profile. -/
def describeExecutable (lib : TKAppLibrary) (files : Files surroundings.documents)
    (path : NSString) : NSString × NSString × Option NSString :=
  match lib.profiles.find? (fun p => surroundings.standardizing p.executablePath == path) with
  | some p => ((cleanName p.name).getD [], p.workingDirectory, some p.id)
  | none =>
    let components := path.pathComponents
    match bundleOf components with
    | some app =>
      let bundle := pathWithComponents (components.take (components.length - 3))
      let info := files.infoPlist
        ((join surroundings.documents bundle).appendingPathComponent (text "Contents/Info.plist"))
      let name := ((info.bind (·.displayName)).bind cleanName <|>
        (info.bind (·.bundleName)).bind cleanName) <|> cleanName app.deletingPathExtension
      (name.getD path.lastPathComponent,
        pathWithComponents (components.take (components.length - 4)), none)
    | none =>
      (path.lastPathComponent, pathWithComponents components.dropLast, none)

def nameForCopiedSource (source : NSString) : NSString :=
  match bundleOf source.pathComponents with
  | some app => (cleanName app.deletingPathExtension).getD source.lastPathComponent
  | none => (cleanName source.lastPathComponent).getD (text "Imported app")

def profiled (draft : Draft) (existing : AppRecord) : Bool :=
  draft.source == .documents && existing.source == .documents && draft.profile.isSome &&
    existing.profile == draft.profile

/-- The entry is one for the same file or copy. -/
def same (draft : Draft) (existing : AppRecord) : Bool :=
  profiled draft existing ||
    (existing.source == draft.source &&
      match draft.source with
      | .copy => existing.sha256 == draft.sha256
      | .documents => existing.executable == draft.executable)

/-- An entry with a new hash and, with its profile, a new place. -/
def updated (draft : Draft) (existing : AppRecord) : AppRecord :=
  let moved :=
    if profiled draft existing then
      { existing with
        executable := draft.executable
        workingDirectory := draft.workingDirectory }
    else existing
  { moved with sha256 := draft.sha256 <|> existing.sha256 }

def refresh (draft : Draft) : List AppRecord → Option (List AppRecord × AppRecord)
  | [] => none
  | existing :: rest =>
    if same draft existing then some (updated draft existing :: rest, updated draft existing)
    else (refresh draft rest).map fun r => (existing :: r.1, r.2)

def undismiss (dismissed : Finset NSString) (profile : Option NSString) : Finset NSString :=
  match profile with
  | none => dismissed
  | some id => dismissed.erase id

def entryOf (draft : Draft) (ambient : Ambient) : AppRecord :=
  { draft with
    id := ambient.uuid
    added := ambient.now
    lastLaunched := none }

def addRecord (lib : TKAppLibrary) (draft : Draft) (ambient : Ambient) :
    TKAppLibrary × Option AppRecord :=
  match refresh draft lib.records with
  | some (records, entry) =>
    match saveRecords surroundings lib records (undismiss lib.dismissedProfiles entry.profile)
        lib.legacyImported ambient.saves with
    | none => (lib, none)
    | some lib => (lib, if entry.valid then some entry else none)
  | none =>
    if (entryOf draft ambient).valid then
      match saveRecords surroundings lib (lib.records ++ [entryOf draft ambient])
          (undismiss lib.dismissedProfiles draft.profile) lib.legacyImported ambient.saves with
      | none => (lib, none)
      | some lib => (lib, some (entryOf draft ambient))
    else (lib, none)

def bundleExecutable (files : Files surroundings.documents) (path : NSString) :
    Option NSString :=
  if path.pathExtension ≠ text "app" ∨ ¬ files.isDirectory path then some path
  else
    match (files.infoPlist (path.appendingPathComponent (text "Contents/Info.plist"))).bind
        (·.executable) with
    | none => none
    | some name =>
      if name = [] ∨ slash ∈ name ∨ name = text ".." then none
      else some (path.appendingPathComponent
        ((text "Contents/MacOS").appendingPathComponent name))

def inPlaceDraft (lib : TKAppLibrary) (files : Files surroundings.documents) (path : NSString)
    (hash : Hash) : Draft :=
  let described := describeExecutable surroundings lib files path
  { source := .documents
    name := described.1
    executable := path
    workingDirectory := described.2.1
    sha256 := some hash.digits
    profile := described.2.2 }

def copyDraft (name : NSString) (hash : Hash) : Draft :=
  { source := .copy
    name := name
    executable := moduleExecutable hash.digits
    workingDirectory := modulesDirectory.appendingPathComponent hash.digits
    sha256 := some hash.digits
    profile := none }

def inPlace (files : Files surroundings.documents) (path : NSString) (copy : Bool) :
    Option NSString :=
  if copy then none
  else
    (relativeInDocuments surroundings files path).filter fun rest =>
      ¬ (modulesDirectory ++ [slash]).isPrefixOf rest

def importExecutable (lib : TKAppLibrary) (files : Files surroundings.documents)
    (path : NSString) (copy : Bool) (ambient : Ambient) : TKAppLibrary × Option AppRecord :=
  match bundleExecutable surroundings files path with
  | none => (lib, none)
  | some path =>
    match inPlace surroundings files path copy with
    | some rest =>
      match files.hash (join surroundings.documents rest) with
      | none => (lib, none)
      | some hash =>
        if ¬ files.supported (join surroundings.documents rest) then (lib, none)
        else addRecord surroundings lib (inPlaceDraft surroundings lib files rest hash) ambient
    | none =>
      match files.importHash path with
      | none => (lib, none)
      | some hash => addRecord surroundings lib (copyDraft (nameForCopiedSource path) hash) ambient

/-- What `discover` knows when it starts: the executables and the hashes. -/
def knownOf (records : List AppRecord) : List NSString :=
  records.flatMap fun r => r.executable :: r.sha256.toList

def candidate (files : Files surroundings.documents) (dismissed : Finset NSString)
    (known : List NSString) (p : Profile) : Option (NSString × Hash) :=
  if p.id ∈ dismissed ∨ p.executablePath ∈ known then none
  else
    match relativeInDocuments surroundings files
        (join surroundings.documents p.executablePath) with
    | none => none
    | some real =>
      if real ∈ known ∨ ¬ files.isRegular (join surroundings.documents real) ∨
          ¬ files.isDirectory (join surroundings.documents p.workingDirectory) then none
      else (files.hash (join surroundings.documents real)).map fun hash => (real, hash)

/-- The state of the loop of `discover`. -/
structure Discovery where
  lib : TKAppLibrary
  known : List NSString
  found : List AppRecord

def discoverProfile (files : Files surroundings.documents) (dismissed : Finset NSString)
    (d : Discovery) (p : Profile) (ambient : Ambient) : Discovery :=
  match candidate surroundings files dismissed d.known p with
  | none => d
  | some (real, hash) =>
    match addRecord surroundings d.lib (inPlaceDraft surroundings d.lib files real hash)
        ambient with
    | (lib, none) => { d with lib := lib }
    | (lib, some app) => ⟨lib, real :: hash.digits :: d.known, d.found ++ [app]⟩

def discoverProfiles (files : Files surroundings.documents) (dismissed : Finset NSString)
    (ambient : ℕ → Ambient) : List Profile → ℕ → Discovery → Discovery
  | [], _, d => d
  | p :: rest, i, d =>
    discoverProfiles files dismissed ambient rest (i + 1)
      (discoverProfile surroundings files dismissed d p (ambient i))

/-- The module that an older launcher had selected. -/
def discoverLegacy (files : Files surroundings.documents) (d : Discovery) (ambient : Ambient) :
    Discovery :=
  match files.selected with
  | none => d
  | some hash =>
    if hash.digits ∈ d.known then d
    else
      match addRecord surroundings d.lib
          (copyDraft (((files.sourceName hash).bind cleanName).getD (text "Imported app")) hash)
          ambient with
      | (lib, none) => { d with lib := lib }
      | (lib, some app) => ⟨lib, d.known, d.found ++ [app]⟩

def discover (lib : TKAppLibrary) (files : Files surroundings.documents)
    (ambient : ℕ → Ambient) : TKAppLibrary × List AppRecord :=
  let d := discoverProfiles surroundings files lib.dismissedProfiles ambient lib.profiles 0
    ⟨lib, knownOf lib.records, []⟩
  if lib.legacyImported then (d.lib, d.found)
  else
    let d := discoverLegacy surroundings files d (ambient lib.profiles.length)
    let saved := saveRecords surroundings d.lib d.lib.records d.lib.dismissedProfiles true
      (ambient (lib.profiles.length + 1)).saves
    (saved.getD d.lib, d.found)

def changeFirst (id : NSString) (change : AppRecord → AppRecord) :
    List AppRecord → Option (List AppRecord)
  | [] => none
  | r :: rest =>
    if r.id = id then some (change r :: rest)
    else (changeFirst id change rest).map (r :: ·)

def updateApp (lib : TKAppLibrary) (app : AppRecord) (change : AppRecord → AppRecord)
    (saves : Bool) : TKAppLibrary × Bool :=
  match changeFirst app.id change lib.records with
  | none => (lib, false)
  | some records =>
    match saveRecords surroundings lib records lib.dismissedProfiles lib.legacyImported saves with
    | none => (lib, false)
    | some lib => (lib, true)

def renameApp (lib : TKAppLibrary) (app : AppRecord) (name : NSString) (saves : Bool) :
    TKAppLibrary × Bool :=
  match cleanName name with
  | none => (lib, false)
  | some clean => updateApp surroundings lib app (fun r => { r with name := clean }) saves

def recordLaunchOfApp (lib : TKAppLibrary) (app : AppRecord) (now : ℕ) (saves : Bool) :
    TKAppLibrary × Bool :=
  updateApp surroundings lib app (fun r => { r with lastLaunched := some now }) saves

def dismissals (lib : TKAppLibrary) (removed : AppRecord) : Finset NSString :=
  match removed.profile with
  | some id => {id}
  | none =>
    ((lib.profiles.filter fun p =>
      surroundings.standardizing p.executablePath == removed.executable).map (·.id)).toFinset

def unusedCopy (records : List AppRecord) (removed : AppRecord) : Option NSString :=
  if removed.source = .copy then
    removed.sha256.filter fun hash =>
      validHash hash && !records.any fun r => r.sha256 == some hash && r.source == .copy
  else none

/-- `removeApp`, up to the files: the entry that was removed and the copy to delete. -/
def removeApp (lib : TKAppLibrary) (app : AppRecord) (saves : Bool) :
    TKAppLibrary × Option (AppRecord × Option NSString) :=
  let records := lib.records.filter (·.id ≠ app.id)
  match (lib.records.filter (·.id = app.id)).getLast? with
  | none => (lib, none)
  | some removed =>
    match saveRecords surroundings lib records
        (lib.dismissedProfiles ∪ dismissals surroundings lib removed) lib.legacyImported saves with
    | none => (lib, none)
    | some lib => (lib, some (removed, unusedCopy records removed))

def executablePathForApp (files : Files surroundings.documents) (app : AppRecord) :
    Option NSString :=
  match app.source with
  | .copy =>
    (app.sha256.filter fun hash => validHash hash && files.verified hash).map fun hash =>
      join surroundings.documents (moduleExecutable hash)
  | .documents =>
    let path := join surroundings.documents app.executable
    if files.isRegular path ∧ relativeInDocuments surroundings files path = some app.executable
    then some path
    else none

def currentSHA256OfApp (lib : TKAppLibrary) (files : Files surroundings.documents)
    (app : AppRecord) (saves : Bool) : TKAppLibrary × Option Hash :=
  match (executablePathForApp surroundings files app).bind files.hash with
  | none => (lib, none)
  | some hash =>
    if hash.digits ≠ app.sha256.getD [] ∧ app.source = .documents then
      ((updateApp surroundings lib app (fun r => { r with sha256 := some hash.digits }) saves).1,
        some hash)
    else (lib, some hash)

end TKAppLibrary

end Tolkara
