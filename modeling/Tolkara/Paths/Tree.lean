import Tolkara.Library.Components
import Tolkara.Paths.Basic

/-!
# A tree of directories

A file system as `lstat` and `readdir` show it: a path is walked from the root, which is also
the current directory, and a directory lists what is in it. What is listed is there.
-/

namespace Tolkara

open Library

/-- One step of a walk, from the place reached so far. -/
def walk (place : List CString) (part : CString) : List CString :=
  if part = [] ∨ part = ascii "." then place
  else if part = ascii ".." then place.dropLast
  else place ++ [part]

def placeOf (path : CString) : List CString := (path.splitOn slash).foldl walk []

theorem placeOf_append_slash (l m : CString) :
    placeOf (l ++ slash :: m) = (m.splitOn slash).foldl walk (placeOf l) := by
  rw [placeOf, List.splitOn_append_cons_self, List.foldl_append, placeOf]

theorem placeOf_concat_slash (l : CString) : placeOf (l ++ [slash]) = placeOf l :=
  placeOf_append_slash l []

/-- Slashes at the end of a prefix do not matter. -/
theorem placeOf_take_prefixLoop (out : CString) (n : ℕ) :
    placeOf (out.take (prefixLoop out n)) = placeOf (out.take n) := by
  induction n with
  | zero => rfl
  | succ n ih =>
      rw [prefixLoop]
      split_ifs with h
      · rw [ih, List.take_add_one, h.2]
        exact (placeOf_concat_slash _).symm
      · rfl

theorem placeOf_directoryAt (out : CString) : placeOf (directoryAt out) = placeOf out := by
  have htake := placeOf_take_prefixLoop out out.length
  rw [List.take_length] at htake
  rw [directoryAt]
  split_ifs with h
  · rw [h] at htake
    exact htake
  · exact htake

/-- The name of an entry of a directory. -/
def PlainName (name : CString) : Prop := name ≠ [] ∧ isDots name = false ∧ slash ∉ name

instance (name : CString) : Decidable (PlainName name) :=
  inferInstanceAs (Decidable (_ ∧ _ ∧ _))

theorem PlainName.walk {name : CString} (h : PlainName name) (place : List CString) :
    walk place name = place ++ [name] := by
  have hdot : name ≠ ascii "." := by
    rintro rfl
    exact absurd h.2.1 (by decide)
  have hdots : name ≠ ascii ".." := by
    rintro rfl
    exact absurd h.2.1 (by decide)
  rw [Tolkara.walk, if_neg (not_or.2 ⟨h.1, hdot⟩), if_neg hdots]

theorem PlainName.placeOf_append {name parent : CString} (h : PlainName name)
    (hopen : Open slash parent) : placeOf (parent ++ name) = placeOf parent ++ [name] := by
  have hsplit : name.splitOn slash = [name] := List.splitOn_eq_singleton h.2.2
  rcases hopen with rfl | hlast
  · rw [List.nil_append, placeOf, hsplit]
    exact h.walk []
  · obtain ⟨l, rfl⟩ := List.getLast?_eq_some_iff.1 hlast
    rw [List.append_assoc, List.singleton_append, placeOf_append_slash, hsplit,
      placeOf_concat_slash]
    exact h.walk _

/-- Directories, each with the place it is at and the names in it. -/
structure DirectoryTree where
  directories : List (List CString × List CString)
  plain : ∀ directory ∈ directories, ∀ name ∈ directory.2, PlainName name

namespace DirectoryTree

variable (tree : DirectoryTree)

def errorOf (path : CString) : ℕ :=
  if placeOf path = [] ∨
      ∃ directory ∈ tree.directories, ∃ name ∈ directory.2, placeOf path = directory.1 ++ [name]
    then 0 else enoent

def list (path : CString) : Option (List CString) :=
  (tree.directories.find? fun directory => directory.1 = placeOf path).map Prod.snd

theorem errorOf_of_mem {parent name : CString} {entries : List CString}
    (hopen : Open slash parent) (hlist : tree.list (directoryAt parent) = some entries)
    (hname : name ∈ entries) : tree.errorOf (parent ++ name) = 0 := by
  obtain ⟨directory, hfind, rfl⟩ := Option.map_eq_some_iff.1 hlist
  have hmem := List.mem_of_find?_eq_some hfind
  have hplace : directory.1 = placeOf parent := by
    rw [← placeOf_directoryAt]
    simpa using List.find?_some hfind
  refine if_pos (Or.inr ⟨directory, hmem, name, hname, ?_⟩)
  rw [(tree.plain directory hmem name hname).placeOf_append hopen, hplace]

def files : GPFiles where
  errorOf := tree.errorOf
  list := tree.list
  agree := tree.errorOf_of_mem

end DirectoryTree

end Tolkara
