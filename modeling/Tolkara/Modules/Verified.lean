import Tolkara.Launcher.Profiles
import Tolkara.Library.Readers

/-!
# Stored modules

An imported executable is a directory named by its SHA-256 that holds the executable and a
manifest. `verify` checks a module before its executable is used, with the message of
`module_error` where it is not whole. Each call of the system that it makes can fail, and
which of them do is a parameter; a module that verifies when none fails is `Intact`.
-/

namespace Tolkara

namespace GuestModule

open Library NSString

/-! ## Files -/

/-- What a regular file holds. -/
structure Contents where
  bytes : List UInt8
  /-- An `off_t` holds the size. -/
  bounded : bytes.length < 2 ^ 63

/-- What a path shows. `closed` is a symbolic link, or what the process cannot open;
`special` is a directory or a device. -/
inductive Item where
  | file (contents : Contents)
  | closed
  | special

/-- What stands in the directory of the modules. -/
inductive Entry where
  | directory (items : NSString → Option Item)
  | item (shown : Item)

abbrev Modules := NSString → Option Entry

def Entry.asItem : Entry → Item
  | .directory _ => .special
  | .item shown => shown

def Entry.isDirectory : Entry → Bool
  | .directory _ => true
  | .item _ => false

def Modules.within (modules : Modules) (directory name : NSString) : Option Item :=
  match modules directory with
  | some (.directory items) => items name
  | _ => none

/-- The calls that read a file. -/
inductive Reading where
  | opening
  | status
  | reading
deriving DecidableEq

inductive Verifying where
  | status
  | manifest (call : Reading)
  | executable (call : Reading)
deriving DecidableEq

/-- What `NSJSONSerialization` reads back as it was written: strings, booleans and integers of
64 bits under distinct names. -/
structure PlainMembers (members : Members) : Prop where
  distinct : (members.map Prod.fst).Nodup
  values : ∀ m ∈ members, match m.2 with
    | .string _ => True
    | .bool _ => True
    | .int value => |value| < 2 ^ 63
    | _ => False

/-- The bytes of a value at most: each unit of a text may be escaped. -/
def printedValue : JSON → ℕ
  | .string s => 6 * (utf16 s).length + 2
  | _ => 20

/-- The bytes of a pretty-printed object at most. -/
def printedLength (members : Members) : ℕ :=
  4 + (members.map fun m => 6 * (utf16 m.1).length + printedValue m.2 + 10).sum

structure ModulePlatform where
  /-- `CC_SHA256`. -/
  digest : List UInt8 → Vector UInt8 32
  /-- `JSONObjectWithData`. -/
  parse : List UInt8 → Option JSON
  /-- `dataWithJSONObject`. -/
  write : Members → Option Contents
  parse_nil : parse [] = none
  parse_write : ∀ {members data}, PlainMembers members → write members = some data →
    ∃ read, parse data.bytes = some (.object read) ∧
      ∀ key, member read key = member members key
  length_write : ∀ {members data}, PlainMembers members → write members = some data →
    data.bytes.length ≤ printedLength members

/-! ## Hashes -/

def hexDigit (n : ℕ) : UInt16 := if n < 10 then UInt16.ofNat (48 + n) else UInt16.ofNat (87 + n)

def hexByte (b : UInt8) : NSString := [hexDigit (b.toNat / 16), hexDigit (b.toNat % 16)]

theorem validHash_iff (s : NSString) : validHash s = true ↔
    s.length = 64 ∧ ∀ u ∈ s, 48 ≤ u ∧ u ≤ 57 ∨ 97 ≤ u ∧ u ≤ 102 := by
  simp [validHash]

theorem hexDigit_valid {n : ℕ} (h : n < 16) :
    48 ≤ hexDigit n ∧ hexDigit n ≤ 57 ∨ 97 ≤ hexDigit n ∧ hexDigit n ≤ 102 := by
  interval_cases n <;> decide

theorem hexBytes_valid (v : Vector UInt8 32) : validHash (v.toList.flatMap hexByte) = true := by
  rw [validHash_iff]
  constructor
  · simp [List.length_flatMap, hexByte]
  · intro u hu
    simp only [List.mem_flatMap, hexByte, List.mem_cons, List.not_mem_nil, or_false] at hu
    obtain ⟨b, -, rfl | rfl⟩ := hu
    · exact hexDigit_valid (Nat.div_lt_of_lt_mul b.toNat_lt)
    · exact hexDigit_valid (Nat.mod_lt _ (by decide))

variable (p : ModulePlatform)

/-- The hash that `hash_file` writes for these bytes. -/
def sha256 (bytes : List UInt8) : Hash where
  digits := (p.digest bytes).toList.flatMap hexByte
  valid := hexBytes_valid _

/-- The file that `open` with `O_NOFOLLOW` and `fstat` find. -/
def regular : Option Item → Except String Contents
  | some (.file contents) => .ok contents
  | some .special => .error "The module must be a regular file."
  | some .closed => .error "Cannot open the module file."
  | none => .error "Cannot open the module file."

def hashFile (fails : Reading → Bool) (item : Option Item) : Except String (Hash × ℕ) := do
  need (fails .opening = false) "Cannot open the module file."
  let contents ← regular item
  need (fails .status = false) "The module must be a regular file."
  need (fails .reading = false) "Module read failed or its size changed."
  return (sha256 p contents.bytes, contents.bytes.length)

def dictionary : JSON → Option Members
  | .object members => some members
  | _ => none

def readJSON (fails : Reading → Bool) (item : Option Item) : Option Members := do
  guard (fails .opening = false)
  let data ← (regular item).toOption
  guard (fails .status = false ∧ 1 ≤ data.bytes.length ∧ data.bytes.length ≤ 16384)
  guard (fails .reading = false)
  let value ← p.parse data.bytes
  dictionary value

def isText (value : Option JSON) (s : NSString) : Bool :=
  match value with
  | some (.string t) => utf16 t == s
  | _ => false

def isNumber (value : Option JSON) (n : ℕ) : Bool :=
  match value with
  | some (.int k) => k == n
  | some (.decimal q) => q == n
  | some (.bool b) => b.toNat == n
  | _ => false

def manifestName : NSString := text "manifest.json"
def executableName : NSString := text "OriginalExecutable.bin"
def currentName : NSString := text "current.json"

def modulePath (root hash : NSString) : NSString :=
  (root.appendingPathComponent hash).appendingPathComponent executableName

/-- The member of the manifest, which may be missing. -/
def field (manifest : Option Members) (key : String) : Option JSON :=
  manifest.bind fun m => member m key

def verify (root : NSString) (fails : Verifying → Bool) (modules : Modules) (hash : NSString) :
    Except String NSString :=
  match modules hash with
  | some (.directory items) =>
    if fails .status then
      .error "The selected module directory is missing or invalid."
    else do
      let manifest := readJSON p (fun call => fails (.manifest call)) (items manifestName)
      let (actual, size) ←
        hashFile p (fun call => fails (.executable call)) (items executableName)
      need (isNumber (field manifest "format") 2 ∧ isText (field manifest "sha256") hash ∧
        isNumber (field manifest "size") size ∧ actual.digits = hash)
        "Module integrity check failed. Import the original file again."
      return modulePath root hash
  | _ => .error "The selected module directory is missing or invalid."

def guestModulePath (root : NSString) (fails : Verifying → Bool) (modules : Modules)
    (hash : NSString) : Except String NSString :=
  if validHash hash then verify p root fails modules hash
  else .error "Invalid module identifier."

/-- The text of `current.json` that names a module. -/
def selection (reads : Reading → Bool) (modules : Modules) : Option NSString :=
  match field (readJSON p reads ((modules currentName).map Entry.asItem)) "sha256" with
  | some (.string s) => some (utf16 s)
  | _ => none

def guestModuleSelected (root : NSString) (reads : Reading → Bool) (fails : Verifying → Bool)
    (modules : Modules) : Except String NSString :=
  match selection p reads modules with
  | some hash =>
    if validHash hash then verify p root fails modules hash
    else .error "Import the original game executable to begin."
  | none => .error "Import the original game executable to begin."

/-! ## Whole modules -/

/-- The items of a module with this hash and these bytes. -/
structure Whole (items : NSString → Option Item) (hash : NSString) (bytes : List UInt8) :
    Prop where
  executable : ∃ contents, items executableName = some (.file contents) ∧ contents.bytes = bytes
  digits : (sha256 p bytes).digits = hash
  manifest : ∃ data members, items manifestName = some (.file data) ∧ 1 ≤ data.bytes.length ∧
    data.bytes.length ≤ 16384 ∧ p.parse data.bytes = some (.object members) ∧
      isNumber (member members "format") 2 = true ∧
        isText (member members "sha256") hash = true ∧
          isNumber (member members "size") bytes.length = true

/-- The entry is a module with this hash and these bytes. -/
def Intact (entry : Option Entry) (hash : NSString) (bytes : List UInt8) : Prop :=
  ∃ items, entry = some (.directory items) ∧ Whole p items hash bytes

/-- What the file of a stored executable holds. -/
def storedBytes (modules : Modules) (hash : NSString) : Option (List UInt8) :=
  match modules.within hash executableName with
  | some (.file contents) => some contents.bytes
  | _ => none

/-- `guest_module_path` succeeds where no call fails, for these bytes. -/
def Verifies (root : NSString) (modules : Modules) (hash : NSString) (bytes : List UInt8) :
    Prop :=
  guestModulePath p root (fun _ => false) modules hash = .ok (modulePath root hash) ∧
    storedBytes modules hash = some bytes

section

variable {p}

theorem regular_ok {item : Option Item} {contents : Contents} :
    regular item = .ok contents ↔ item = some (.file contents) := by
  cases item with
  | none => simp [regular]
  | some item => cases item <;> simp [regular]

theorem dictionary_some {value : JSON} {members : Members} :
    dictionary value = some members ↔ value = .object members := by
  cases value <;> simp [dictionary]

theorem reading_forall {fails : Reading → Bool} : (∀ call, fails call = false) ↔
    fails .opening = false ∧ fails .status = false ∧ fails .reading = false :=
  ⟨fun h => ⟨h _, h _, h _⟩, fun ⟨h1, h2, h3⟩ call => by cases call <;> assumption⟩

theorem hashFile_ok {fails : Reading → Bool} {item : Option Item} {h : Hash} {n : ℕ} :
    hashFile p fails item = .ok (h, n) ↔ (∀ call, fails call = false) ∧
      ∃ contents, item = some (.file contents) ∧ sha256 p contents.bytes = h ∧
        contents.bytes.length = n := by
  rw [reading_forall, hashFile]
  simp only [bind_ok, need_ok, regular_ok]
  constructor
  · rintro ⟨-, hopening, contents, hitem, -, hstatus, -, hreading, hrun⟩
    cases hrun
    exact ⟨⟨hopening, hstatus, hreading⟩, contents, hitem, rfl, rfl⟩
  · rintro ⟨⟨hopening, hstatus, hreading⟩, contents, hitem, rfl, rfl⟩
    exact ⟨(), hopening, contents, hitem, (), hstatus, (), hreading, rfl⟩

theorem readJSON_some {fails : Reading → Bool} {item : Option Item} {members : Members} :
    readJSON p fails item = some members ↔ (∀ call, fails call = false) ∧
      ∃ data, item = some (.file data) ∧ 1 ≤ data.bytes.length ∧ data.bytes.length ≤ 16384 ∧
        p.parse data.bytes = some (.object members) := by
  rw [reading_forall, readJSON]
  simp only [Option.bind_eq_bind, Option.bind_eq_some_iff, Option.guard_eq_some', toOption_some,
    regular_ok, dictionary_some, exists_eq_right]
  constructor
  · rintro ⟨-, hopening, data, hitem, -, ⟨hstatus, hlow, hhigh⟩, -, hreading, hparse⟩
    exact ⟨⟨hopening, hstatus, hreading⟩, data, hitem, hlow, hhigh, hparse⟩
  · rintro ⟨⟨hopening, hstatus, hreading⟩, data, hitem, hlow, hhigh, hparse⟩
    exact ⟨(), hopening, data, hitem, (), ⟨hstatus, hlow, hhigh⟩, (), hreading, hparse⟩

theorem isNumber_field {manifest : Option Members} {key : String} {n : ℕ} :
    isNumber (field manifest key) n = true ↔
      ∃ members, manifest = some members ∧ isNumber (member members key) n = true := by
  cases manifest with
  | none => simp [field, isNumber]
  | some members => simp [field]

variable {root hash path : NSString} {modules : Modules}

theorem verifying_forall {fails : Verifying → Bool} : (∀ call, fails call = false) ↔
    fails .status = false ∧ (∀ call, fails (.manifest call) = false) ∧
      ∀ call, fails (.executable call) = false :=
  ⟨fun h => ⟨h _, fun _ => h _, fun _ => h _⟩, fun ⟨h1, h2, h3⟩ call => by
    cases call with
    | status => exact h1
    | manifest call => exact h2 call
    | executable call => exact h3 call⟩

theorem verify_ok {fails : Verifying → Bool} :
    verify p root fails modules hash = .ok path ↔ (∀ call, fails call = false) ∧
      path = modulePath root hash ∧ ∃ bytes, Intact p (modules hash) hash bytes := by
  rw [verifying_forall]
  unfold verify
  constructor
  · intro hrun
    split at hrun
    · rename_i items hentry
      split at hrun
      · cases hrun
      · rename_i hstatus
        obtain ⟨⟨actual, size⟩, hhash, hrun⟩ := bind_ok.1 hrun
        obtain ⟨hexecutable, contents, hitem, rfl, rfl⟩ := hashFile_ok.1 hhash
        dsimp only at hrun
        obtain ⟨_, hneed, hrun⟩ := bind_ok.1 hrun
        obtain ⟨hformat, htext, hsize, hdigits⟩ := need_ok.1 hneed
        obtain ⟨members, hmanifest, hformat⟩ := isNumber_field.1 hformat
        rw [hmanifest] at htext hsize
        obtain ⟨hcalls, data, hdata, hlow, hhigh, hparse⟩ := readJSON_some.1 hmanifest
        cases hrun
        exact ⟨⟨by simpa using hstatus, hcalls, hexecutable⟩, rfl, contents.bytes, items, hentry,
          ⟨contents, hitem, rfl⟩, hdigits,
          data, members, hdata, hlow, hhigh, hparse, hformat, htext, hsize⟩
    · cases hrun
  · rintro ⟨⟨hstatus, hmanifest, hexecutable⟩, rfl, bytes, items, hentry, hwhole⟩
    obtain ⟨contents, hitem, rfl⟩ := hwhole.executable
    obtain ⟨data, members, hdata, hlow, hhigh, hparse, hformat, htext, hsize⟩ := hwhole.manifest
    rw [hentry]
    dsimp only
    rw [if_neg (by simp [hstatus]), readJSON_some.2 ⟨hmanifest, data, hdata, hlow, hhigh, hparse⟩]
    exact bind_ok.2 ⟨_, hashFile_ok.2 ⟨hexecutable, contents, hitem, rfl, rfl⟩,
      bind_ok.2 ⟨(), need_ok.2 ⟨hformat, htext, hsize, hwhole.digits⟩, rfl⟩⟩

theorem Intact.stored {bytes : List UInt8} (h : Intact p (modules hash) hash bytes) :
    storedBytes modules hash = some bytes := by
  obtain ⟨items, hentry, hwhole⟩ := h
  obtain ⟨contents, hitem, rfl⟩ := hwhole.executable
  simp [storedBytes, Modules.within, hentry, hitem]

/-- What `guest_module_path` accepts where no call fails. -/
theorem verifies_iff {bytes : List UInt8} : Verifies p root modules hash bytes ↔
    validHash hash = true ∧ Intact p (modules hash) hash bytes := by
  unfold Verifies guestModulePath
  constructor
  · rintro ⟨hrun, hstored⟩
    split at hrun
    · rename_i hvalid
      obtain ⟨-, -, bytes', hintact⟩ := verify_ok.1 hrun
      rw [hintact.stored] at hstored
      obtain rfl : bytes' = bytes := Option.some.inj hstored
      exact ⟨hvalid, hintact⟩
    · cases hrun
  · rintro ⟨hvalid, hintact⟩
    rw [if_pos hvalid]
    exact ⟨verify_ok.2 ⟨fun _ => rfl, rfl, bytes, hintact⟩, hintact.stored⟩

end

end GuestModule

end Tolkara
