import Tolkara.Launcher.Library
import Tolkara.Library.Readers
import Tolkara.Library.UTF16

/-!
# Profiles

A profile is a JSON document. `tools/check_profile.py` checks one before it is shipped, and
`profilesInDirectory` of the launcher checks it again where it is used. Both read what one
JSON parser makes of the bytes; the one counts the characters of a text, the other its
UTF-16 units.
-/

namespace Tolkara

open Library NSString

/-- What a JSON parser answers. A number has a fraction or an exponent, or is an integer; the names
of an object are distinct. -/
inductive JSON where
  | null
  | bool (value : Bool)
  | int (value : ℤ)
  | decimal (value : ℚ)
  | string (value : List Char)
  | array (items : List JSON)
  | object (members : List (List Char × JSON))

abbrev Members := List (List Char × JSON)

def member (p : Members) (key : String) : Option JSON := p.lookup key.toList

/-- What `Foundation` does for the launcher: the JSON parser, the order of names, whether
`caseInsensitiveCompare` finds two texts the same, and the `integerValue` of a number with a
fraction, where its `doubleValue` is equal. No bytes are no document. -/
structure Foundation where
  parse : List UInt8 → Option JSON
  before : NSString → NSString → Bool
  sameIgnoringCase : NSString → NSString → Bool
  integerOfDecimal : ℚ → Option ℤ
  parse_nil : parse [] = none

/-! ## The launcher -/

namespace Launcher

def validRelativeValue (path : JSON) (allowEmpty : Bool) : Bool :=
  match path with
  | .string path => validRelative (utf16 path) allowEmpty
  | _ => false

/-- The round of the loop of `valid_case_aliases`. -/
def validCaseAlias (f : Foundation) (path : List Char) (target : JSON) : Bool :=
  match target with
  | .string target =>
    let leaf := lastPathComponent (utf16 path)
    validRelative (utf16 path) false && validRelative (utf16 target) false &&
      !(utf16 target).contains slash && utf16 target != leaf &&
      f.sameIgnoringCase (utf16 target) leaf
  | _ => false

def validCaseAliases (f : Foundation) : Option JSON → Bool
  | none => true
  | some (.object aliases) => aliases.all fun a => validCaseAlias f a.1 a.2
  | some _ => false

def validText : JSON → Bool
  | .string s => decide ((utf16 s).length ≤ 4096)
  | _ => false

def validArguments : JSON → Bool
  | .array arguments => decide (arguments.length ≤ 64) && arguments.all validText
  | _ => false

def isWord (u : UInt16) : Bool :=
  (65 ≤ u && u ≤ 90) || (97 ≤ u && u ≤ 122) || (48 ≤ u && u ≤ 57) || u == 95

def validVariable (name : NSString) : Bool :=
  match name with
  | [] => false
  | first :: _ =>
    decide (name.length ≤ 256) && !(48 ≤ first && first ≤ 57) && name.all isWord

def validEnvironment : JSON → Bool
  | .object environment =>
    decide (environment.length ≤ 64) &&
      environment.all fun v => validVariable (utf16 v.1) && validText v.2
  | _ => false

def validLibraries : JSON → Bool
  | .array libraries =>
    decide (libraries.length ≤ 64) && libraries.all fun path => validRelativeValue path false
  | _ => false

def validCodePool (f : Foundation) : JSON → Bool
  | .int size => decide (1 ≤ size ∧ size ≤ 1024)
  | .decimal size => (f.integerOfDecimal size).any fun n => decide (1 ≤ n ∧ n ≤ 1024)
  | _ => false

def cleanNameValue : JSON → Option NSString
  | .string name => cleanName (utf16 name)
  | _ => none

def newId (seen : List NSString) : JSON → Bool
  | .string id => id != [] && !seen.contains (utf16 id)
  | _ => false

/-- The rules of `profilesInDirectory` for the members of a document. -/
def acceptsProfile (f : Foundation) (seen : List NSString) (p : Members) : Bool :=
  (member p "name").any (fun name => (cleanNameValue name).isSome) && (member p "id").any (newId seen) &&
    (member p "workingDirectory").any (validRelativeValue · false) &&
    (member p "executable").any (validRelativeValue · false) &&
    validCaseAliases f (member p "caseAliases") &&
    (member p "runtime").all (validRelativeValue · false) &&
    (member p "arguments").all validArguments &&
    (member p "environment").all validEnvironment &&
    (member p "libraries").all (fun libraries => (member p "runtime").isSome && validLibraries libraries) &&
    (member p "codePool").all (fun size => (member p "runtime").isSome && validCodePool f size)

/-- The document of a file of at most 64 kilobytes. -/
def profileOf (f : Foundation) (data : Option (List UInt8)) : Option JSON :=
  let data := data.getD []
  if data ≠ [] ∧ data.length ≤ 65536 then f.parse data else none

def idOf (p : Members) : NSString :=
  match member p "id" with
  | some (.string id) => utf16 id
  | _ => []

def profilesLoop (f : Foundation) (contents : NSString → Option (List UInt8)) :
    List NSString → List NSString → List Members
  | [], _ => []
  | name :: names, seen =>
    if name.pathExtension = text "json" then
      match profileOf f (contents name) with
      | some (.object p) =>
        if acceptsProfile f seen p then p :: profilesLoop f contents names (idOf p :: seen)
        else profilesLoop f contents names seen
      | _ => profilesLoop f contents names seen
    else profilesLoop f contents names seen

/-- `profilesInDirectory`, on the names of the files there and what is read of them. -/
def profilesInDirectory (f : Foundation) (names : List NSString)
    (contents : NSString → Option (List UInt8)) : List Members :=
  profilesLoop f contents (names.mergeSort f.before) []

end Launcher

/-! ## The check -/

namespace CheckProfile

def required : List String := ["id", "name", "workingDirectory", "executable"]

def optional : List String :=
  ["notes", "tested", "caseAliases", "runtime", "arguments", "environment", "libraries", "codePool"]

/-- What `check` raises, with what the message names. -/
inductive ValueError where
  | json
  | notObject
  | unknownKeys (keys : List (List Char))
  | emptyString (key : String)
  | outsideDocuments (key : String)
  | aliasesNotObject
  | aliasOutside (path : List Char)
  | aliasTarget (path : List Char) (target : JSON) (leaf : List Char)
  | librariesWithoutRuntime
  | libraries
  | codePoolWithoutRuntime
  | codePool
  | arguments
  | environment
  | variableName (name : List Char)
  | variableValue (name : List Char)

def relativeText (s : List Char) : Bool :=
  s != [] && s.head? != some '/' &&
    (s.splitOn '/').all fun part => part != [] && part != ['.'] && part != ['.', '.']

def relative : JSON → Bool
  | .string s => relativeText s
  | _ => false

/-- `alias.rsplit('/', 1)[-1]`. -/
def leafOf (path : List Char) : List Char := (path.splitOn '/').getLastD []

def checkCaseAlias (lower : List Char → List Char) (path : List Char) (target : JSON) :
    Except ValueError Unit := do
  need (relativeText path = true) (.aliasOutside path)
  let leaf := leafOf path
  match target with
  | .string name =>
    need (relativeText name = true ∧ '/' ∉ name ∧ name ≠ leaf ∧ lower name = lower leaf)
      (.aliasTarget path target leaf)
  | _ => .error (.aliasTarget path target leaf)

def checkCaseAliases (lower : List Char → List Char) : JSON → Except ValueError Unit
  | .object aliases => aliases.forM fun a => checkCaseAlias lower a.1 a.2
  | _ => .error .aliasesNotObject

def shortText (limit : ℕ) : JSON → Bool
  | .string s => decide (s.length ≤ limit)
  | _ => false

def isFirst (c : Char) : Bool :=
  (65 ≤ c.toNat && c.toNat ≤ 90) || (97 ≤ c.toNat && c.toNat ≤ 122) || c.toNat == 95

def isRest (c : Char) : Bool := isFirst c || (48 ≤ c.toNat && c.toNat ≤ 57)

def isVariableName : List Char → Bool
  | [] => false
  | first :: rest => isFirst first && rest.all isRest

def checkVariable (name : List Char) (value : JSON) : Except ValueError Unit := do
  need (isVariableName name = true ∧ name.length ≤ 256) (.variableName name)
  need (shortText 4096 value = true) (.variableValue name)

def checkArguments : JSON → Except ValueError Unit
  | .array arguments =>
    need (arguments.length ≤ 64 ∧ arguments.all (shortText 4096) = true) .arguments
  | _ => .error .arguments

def checkEnvironment : JSON → Except ValueError Unit
  | .object environment => do
    need (environment.length ≤ 64) .environment
    environment.forM fun v => checkVariable v.1 v.2
  | _ => .error .environment

def checkCommandLine (p : Members) : Except ValueError Unit := do
  checkArguments ((member p "arguments").getD (.array []))
  checkEnvironment ((member p "environment").getD (.object []))

def nonemptyString : JSON → Bool
  | .string s => s != []
  | _ => false

def checkLibraries (p : Members) (libraries : JSON) : Except ValueError Unit := do
  need ((member p "runtime").isSome = true) .librariesWithoutRuntime
  match libraries with
  | .array libraries => need (libraries.length ≤ 64 ∧ libraries.all relative = true) .libraries
  | _ => .error .libraries

def checkCodePool (p : Members) (size : JSON) : Except ValueError Unit := do
  need ((member p "runtime").isSome = true) .codePoolWithoutRuntime
  match size with
  | .int size => need (1 ≤ size ∧ size ≤ 1024) .codePool
  | _ => .error .codePool

def unknownKeys (p : Members) : List (List Char) :=
  (p.map Prod.fst).filter fun key => !((required ++ optional).map String.toList).contains key

def ifPresent (p : Members) (key : String) (f : JSON → Except ValueError Unit) :
    Except ValueError Unit :=
  match member p key with
  | some value => f value
  | none => .ok ()

/-- `check`, with `str.lower`, on what the file holds. -/
def check (parse : List UInt8 → Option JSON) (lower : List Char → List Char)
    (data : List UInt8) : Except ValueError Members := do
  let profile ← obtained (parse data) .json
  match profile with
  | .object p =>
    need (unknownKeys p = []) (.unknownKeys (unknownKeys p))
    required.forM fun key => need ((member p key).any nonemptyString = true) (.emptyString key)
    ["workingDirectory", "executable", "runtime"].forM fun key =>
      need ((member p key).all relative = true) (.outsideDocuments key)
    ifPresent p "caseAliases" (checkCaseAliases lower)
    ifPresent p "libraries" (checkLibraries p)
    ifPresent p "codePool" (checkCodePool p)
    checkCommandLine p
    .ok p
  | _ => .error .notObject

end CheckProfile

end Tolkara
