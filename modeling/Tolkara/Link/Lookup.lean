import Tolkara.Library.FirstAnswer
import Tolkara.Link.Containment

/-!
# Symbol lookup

`gl_lookup`: which image of the application answers a bind. A re-export is followed from
library to library, and a mask of the libraries visited cuts cycles. The mask is a list
of indices here. Each call of `library_export` marks a library, which bounds the depth.

The queries of a link set, an image with a symbol, form a graph. The lookup gives the
first answer of the graph as long as it does not come to one library under two names.
-/

namespace Tolkara

def glExecutable : CString := ascii "<executable>"

/-- Where a name is, whether it is a weak definition, and who answered. -/
structure Answer where
  value : BitVec 64
  weak : Bool
  name : CString
deriving DecidableEq, Repr

namespace GuestLinkSet

/-- `carried_as`: the index of the carried library that a name points at. -/
def carriedAs (fs : FileSystem) (set : GuestLinkSet) (image : ImageRef)
    (fromPath installName : CString) : Option ℕ :=
  match set.glResolve fs image fromPath installName with
  | none => none
  | some path => set.libraries.findIdx? (·.path == path)

/-- The loop of `image_export` over the libraries that are re-exported whole. -/
def reexportLoop (carried : CString → Option ℕ)
    (libraryExport : ℕ → List ℕ → Option Answer × List ℕ) :
    List GIDylib → List ℕ → Option Answer × List ℕ
  | [], visited => (none, visited)
  | dylib :: rest, visited =>
    if dylib.reexport = false then reexportLoop carried libraryExport rest visited
    else
      match carried dylib.name with
      | none => reexportLoop carried libraryExport rest visited
      | some through =>
        match libraryExport through visited with
        | (some answer, visited') => (some answer, visited')
        | (none, visited') => reexportLoop carried libraryExport rest visited'

def imageExport (carried : CString → Option ℕ)
    (libraryExport : ℕ → CString → List ℕ → Option Answer × List ℕ) (image : GuestImage)
    (slide : BitVec 64) (name symbol : CString) (shallow : Bool) (visited : List ℕ) :
    Option Answer × List ℕ :=
  match image.giExport symbol with
  | .found e =>
    (some
      { value := if e.absolute then BitVec.ofNat 64 e.address
          else BitVec.ofNat 64 e.address + slide
        weak := e.weak
        name := name }, visited)
  | .reexport ordinal renamed =>
    match (image.dylibs[ordinal - 1]?).bind (fun dylib => carried dylib.name) with
    | none => (none, visited)
    | some defines => libraryExport defines (renamed.getD symbol) visited
  | .missing | .invalid =>
    if shallow then (none, visited)
    else reexportLoop carried (fun i => libraryExport i symbol) image.dylibs visited

def libraryExport (fs : FileSystem) (set : GuestLinkSet) :
    ℕ → ℕ → CString → Bool → List ℕ → Option Answer × List ℕ
  | 0, _, _, _, visited => (none, visited)
  | depth + 1, i, symbol, shallow, visited =>
    if i ∈ visited then (none, visited)
    else
      match set.libraries[i]? with
      | none => (none, i :: visited)
      | some library =>
        imageExport (set.carriedAs fs (.library i) library.path)
          (fun j name => libraryExport fs set depth j name false) library.image library.slide
          library.installName symbol shallow (i :: visited)

def executableExport (fs : FileSystem) (set : GuestLinkSet) (symbol : CString) (shallow : Bool)
    (visited : List ℕ) : Option Answer × List ℕ :=
  imageExport (set.carriedAs fs .executable set.executable)
    (fun j name => set.libraryExport fs (set.count + 1) j name false) set.executableImage
    set.executableSlide glExecutable symbol shallow visited

/-- `library_export` from outside of a search. -/
def libraryLookup (fs : FileSystem) (set : GuestLinkSet) (i : ℕ) (symbol : CString) (shallow : Bool)
    (visited : List ℕ) : Option Answer × List ℕ :=
  set.libraryExport fs (set.count + 2) i symbol shallow visited

/-- The loop of `coalesce` over the images that have weak definitions: the first non-weak
definition, else the first weak one. -/
def coalesceLoop (fs : FileSystem) (set : GuestLinkSet) (symbol : CString) :
    List ImageRef → Option Answer → Option Answer
  | [], found => found
  | image :: rest, found =>
    if ((set.imageOf image).map (·.weakDefines)).getD false = false then
      coalesceLoop fs set symbol rest found
    else
      let candidate := match image with
        | .library i => (set.libraryLookup fs i symbol true []).1
        | _ => (set.executableExport fs symbol true []).1
      match candidate with
      | none => coalesceLoop fs set symbol rest found
      | some answer =>
        if answer.weak = false then some answer
        else coalesceLoop fs set symbol rest (found.or (some answer))

def coalesce (fs : FileSystem) (set : GuestLinkSet) (image : ImageRef) (symbol : CString) :
    Option Answer :=
  match coalesceLoop fs set symbol
      (.executable :: (List.range set.count).map ImageRef.library) none with
  | some answer => some answer
  | none =>
    match image with
    | .executable => (set.executableExport fs symbol false []).1
    | .library i => (set.libraryLookup fs i symbol false []).1
    | .other _ => none

def flatLoop (fs : FileSystem) (set : GuestLinkSet) (symbol : CString) :
    List ℕ → List ℕ → Option Answer
  | [], _ => none
  | i :: rest, visited =>
    match set.libraryLookup fs i symbol false visited with
    | (some answer, _) => some answer
    | (none, visited') => flatLoop fs set symbol rest visited'

def glLookup (fs : FileSystem) (set : GuestLinkSet) (image : ImageRef) (fromPath : CString)
    (ordinal : ℤ) (symbol : CString) : Option Answer :=
  if 0 < ordinal then
    match ((((set.imageOf image).map (·.dylibs)).getD [])[ordinal.toNat - 1]?).bind
        (fun dylib => set.carriedAs fs image fromPath dylib.name) with
    | none => none
    | some named => (set.libraryLookup fs named symbol false []).1
  else if ordinal = -1 then (set.executableExport fs symbol false []).1
  else if ordinal = 0 then
    match image with
    | .executable => (set.executableExport fs symbol false []).1
    | .library i => (set.libraryLookup fs i symbol false []).1
    | .other _ => none
  else if ordinal = -2 then
    match set.executableExport fs symbol false [] with
    | (some answer, _) => some answer
    | (none, visited) => flatLoop fs set symbol (List.range set.count) visited
  else if ordinal = -3 then set.coalesce fs image symbol
  else none

end GuestLinkSet

end Tolkara
