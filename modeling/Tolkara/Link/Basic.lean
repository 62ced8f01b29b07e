import Tolkara.Image.Basic
import Tolkara.Library.Walks

/-!
# The libraries an application carries

`GuestLink.c`: which of the libraries an executable names lie in its own folder, and
the list of those. The file system is a parameter, with what `realpath` and `stat` are
documented to do; so is `gi_load_library`, which says what image a file holds or that it
is refused. An image is referred to by where it is, as the code compares pointers.
-/

namespace Tolkara

def pathMax : ℕ := 1024

def glMaxLibraries : ℕ := 64

def slash : UInt8 := 47

/-- `realpath` and `stat`, at one moment. A resolved path fits a buffer, names the same
file as the path it was made from, and every part of it that ends before a slash is a
folder. -/
structure FileSystem where
  realpath : CString → Option CString
  isRegular : CString → Bool
  length_realpath : ∀ {p r}, realpath p = some r → r.length < pathMax
  isRegular_realpath : ∀ {p r}, realpath p = some r → isRegular r = isRegular p
  isRegular_take : ∀ {p r i}, realpath p = some r → r[i]? = some slash → isRegular (r.take i) = false
  isRegular_slash : isRegular (ascii "/") = false
  isRegular_dot : isRegular (ascii ".") = false

def lastSlash : CString → Option ℕ
  | [] => none
  | c :: rest =>
    match lastSlash rest with
    | some i => some (i + 1)
    | none => if c = slash then some 0 else none

def directoryOf (path : CString) (size : ℕ) : CString :=
  match lastSlash path with
  | none => ascii "."
  | some 0 => ascii "/"
  | some (i + 1) => path.take (min (i + 1) (size - 1))

/-- The last place a text occurs at, as the loop over `strstr` finds it. -/
def lastOccurrence (text : CString) : CString → Option ℕ
  | [] => none
  | c :: rest =>
    match lastOccurrence text rest with
    | some i => some (i + 1)
    | none => if text.isPrefixOf (c :: rest) then some 0 else none

def ownFolder (executable : CString) (size : ℕ) : CString :=
  match lastOccurrence (ascii "/Contents/MacOS/") executable with
  | none => directoryOf executable size
  | some i => executable.take (min i (size - 1))

def inside (root path : CString) : Bool :=
  root.isPrefixOf path && ((path.drop root.length).isEmpty || (path.drop root.length).head? == some slash)

structure GuestLibrary where
  image : GuestImage
  path : CString
  installName : CString
  loader : ℕ
  slide : BitVec 64

structure GuestLinkSet where
  libraries : List GuestLibrary
  refused : ℕ
  root : CString
  executable : CString
  executableImage : GuestImage
  executableSlide : BitVec 64

inductive ImageRef where
  | executable
  | library (index : ℕ)
  | other (image : GuestImage)

/-- Why `gl_load` or `gl_carry` gives up. -/
inductive LinkError where
  | cannotResolveExecutable
  | cannotResolveFolder
  | tooManyLibraries
  | cannotResolveRuntimeFolder
  | runtimeFolderOutside
  | notInside (path : CString)
deriving DecidableEq, Repr

namespace GuestLinkSet

def count (set : GuestLinkSet) : ℕ := set.libraries.length

def imageOf (set : GuestLinkSet) : ImageRef → Option GuestImage
  | .executable => some set.executableImage
  | .library i => set.libraries[i]?.map (·.image)
  | .other image => some image

def pathOf (set : GuestLinkSet) : ImageRef → Option CString
  | .executable => some set.executable
  | .library i => set.libraries[i]?.map (·.path)
  | .other _ => none

def libraryOf (set : GuestLinkSet) : ImageRef → Option GuestLibrary
  | .library i => set.libraries[i]?
  | _ => none

/-- `expand`, into a buffer of `pathMax` bytes. -/
def expand (set : GuestLinkSet) (fromPath name : CString) : Option CString :=
  let fits (out : CString) : Option CString := if out.length < pathMax then some out else none
  if (ascii "@executable_path").isPrefixOf name ∧
      (name.length = 16 ∨ name[16]? = some slash) then
    fits (directoryOf set.executable pathMax ++ name.drop 16)
  else if (ascii "@loader_path").isPrefixOf name ∧
      (name.length = 12 ∨ name[12]? = some slash) then
    fits (directoryOf fromPath pathMax ++ name.drop 12)
  else if (ascii "@").isPrefixOf name then none
  else fits name

/-- `accept`, into a buffer of `pathMax` bytes. -/
def accept (fs : FileSystem) (set : GuestLinkSet) (candidate : CString) : Option CString :=
  match fs.realpath candidate with
  | none => none
  | some resolved =>
    if fs.isRegular resolved ∧ inside set.root resolved ∧ resolved.length < pathMax then
      some resolved
    else none

def tryRpath (fs : FileSystem) (set : GuestLinkSet) (path name rpath : CString) : Option CString :=
  match set.expand path rpath with
  | none => none
  | some expanded =>
    if (expanded ++ slash :: name).length < pathMax then
      set.accept fs (expanded ++ slash :: name)
    else none

def tryRpaths (fs : FileSystem) (set : GuestLinkSet) (image : Option GuestImage)
    (path name : CString) : Option CString :=
  ((image.map (·.rpaths)).getD []).findSome? (set.tryRpath fs path name)

/-- The loop of `gl_resolve` over the naming image and its loaders. -/
def rpathLoop (fs : FileSystem) (set : GuestLinkSet) (name : CString) :
    ℕ → ImageRef → CString → Option CString
  | 0, _, _ => none
  | steps + 1, image, path =>
    match set.tryRpaths fs (set.imageOf image) path name with
    | some out => some out
    | none =>
      match set.libraryOf image with
      | none => none
      | some library =>
        match set.libraries[library.loader]? with
        | some loader => rpathLoop fs set name steps (.library library.loader) loader.path
        | none => rpathLoop fs set name steps .executable set.executable

def glResolve (fs : FileSystem) (set : GuestLinkSet) (image : ImageRef) (fromPath name : CString) :
    Option CString :=
  if (ascii "@rpath/").isPrefixOf name then
    set.rpathLoop fs (name.drop 7) (set.count + 1) image fromPath
  else
    match set.expand fromPath name with
    | none => none
    | some candidate => set.accept fs candidate

def knownPath (set : GuestLinkSet) (path : CString) : Bool :=
  set.libraries.any (·.path == path)

/-- `carry`: one more library, unless the list is full. -/
def carry (giLoadLibrary : CString → Option GuestImage) (set : GuestLinkSet)
    (path installName : CString) (loader : ℕ) : Walk GuestLinkSet LinkError :=
  if set.count = glMaxLibraries then .stop set .tooManyLibraries
  else
    match giLoadLibrary path with
    | none => .change { set with refused := set.refused + 1 }
    | some image =>
      if image.tlsInitializerCount ≠ 0 then .change { set with refused := set.refused + 1 }
      else .change { set with
        libraries := set.libraries ++
          [{ image := image, path := path, installName := installName, loader := loader,
             slide := 0 }] }

def carriedByLoop (fs : FileSystem) (giLoadLibrary : CString → Option GuestImage)
    (image : ImageRef) (fromPath : CString) (loader : ℕ) :
    List GIDylib → GuestLinkSet → Walk GuestLinkSet LinkError
  | [], set => .done set
  | dylib :: rest, set =>
    match set.glResolve fs image fromPath dylib.name with
    | none => carriedByLoop fs giLoadLibrary image fromPath loader rest set
    | some path =>
      if set.knownPath path then carriedByLoop fs giLoadLibrary image fromPath loader rest set
      else (set.carry giLoadLibrary path dylib.name loader).andThen
        (carriedByLoop fs giLoadLibrary image fromPath loader rest)

/-- The index `carried_by` notes as the loader of what an image names. -/
def loaderIndex : ImageRef → ℕ
  | .library i => i
  | _ => glMaxLibraries

def carriedBy (fs : FileSystem) (giLoadLibrary : CString → Option GuestImage)
    (set : GuestLinkSet) (image : ImageRef) : Walk GuestLinkSet LinkError :=
  carriedByLoop fs giLoadLibrary image ((set.pathOf image).getD []) (loaderIndex image)
    (((set.imageOf image).map (·.dylibs)).getD []) set

/-- The loop over the libraries from index `i` on, which grows the list it goes over.
The list is full at 64, which bounds the rounds. -/
def eachLibrary (fs : FileSystem) (giLoadLibrary : CString → Option GuestImage) :
    ℕ → ℕ → GuestLinkSet → Walk GuestLinkSet LinkError
  | 0, _, set => .done set
  | rounds + 1, i, set =>
    if i < set.count then
      (set.carriedBy fs giLoadLibrary (.library i)).andThen
        (eachLibrary fs giLoadLibrary rounds (i + 1))
    else .done set

/-- What `gl_load` starts with: the executable and its folder. -/
def start (fs : FileSystem) (executable : GuestImage) (executablePath : CString) :
    Except LinkError GuestLinkSet :=
  match fs.realpath executablePath with
  | none => .error .cannotResolveExecutable
  | some resolved =>
    match fs.realpath (ownFolder resolved pathMax) with
    | none => .error .cannotResolveFolder
    | some root => .ok
      { libraries := []
        refused := 0
        root := root
        executable := resolved
        executableImage := executable
        executableSlide := 0 }

def load (fs : FileSystem) (giLoadLibrary : CString → Option GuestImage) (set : GuestLinkSet) :
    Walk GuestLinkSet LinkError :=
  (set.carriedBy fs giLoadLibrary .executable).andThen
    (eachLibrary fs giLoadLibrary glMaxLibraries 0)

def glLoad (fs : FileSystem) (giLoadLibrary : CString → Option GuestImage)
    (executable : GuestImage) (executablePath : CString) : Except LinkError GuestLinkSet :=
  match start fs executable executablePath with
  | .error e => .error e
  | .ok set =>
    match (set.load fs giLoadLibrary).error with
    | some e => .error e
    | none => .ok (set.load fs giLoadLibrary).state

/-- The first part of `gl_carry`: a wider application folder. -/
def widen (fs : FileSystem) (set : GuestLinkSet) : Option CString → Walk GuestLinkSet LinkError
  | none => .done set
  | some root =>
    match fs.realpath root with
    | none => .stop set .cannotResolveRuntimeFolder
    | some resolved =>
      if inside resolved set.root then .change { set with root := resolved }
      else .stop set .runtimeFolderOutside

def carryPaths (fs : FileSystem) (giLoadLibrary : CString → Option GuestImage) :
    List CString → GuestLinkSet → Walk GuestLinkSet LinkError
  | [], set => .done set
  | path :: rest, set =>
    if path.head? ≠ some slash then .stop set (.notInside path)
    else
      match set.accept fs path with
      | none => .stop set (.notInside path)
      | some resolved =>
        if set.knownPath resolved then carryPaths fs giLoadLibrary rest set
        else (set.carry giLoadLibrary resolved resolved glMaxLibraries).andThen
          (carryPaths fs giLoadLibrary rest)

def glCarry (fs : FileSystem) (giLoadLibrary : CString → Option GuestImage) (set : GuestLinkSet)
    (root : Option CString) (paths : List CString) : Walk GuestLinkSet LinkError :=
  (set.widen fs root).andThen fun wider =>
    (carryPaths fs giLoadLibrary paths wider).andThen
      (eachLibrary fs giLoadLibrary (glMaxLibraries - set.count) set.count)

end GuestLinkSet

end Tolkara
