import Tolkara.Link.Basic

/-!
# Paths that ignore case

`gp_case_insensitive`: a path is copied and rewritten component by component, each that does
not exist as written by the one entry of its directory that matches it ignoring case. The
file system is a parameter.
-/

namespace Tolkara

def nameMax : ℕ := 255

def enoent : ℕ := 2

/-- The loop that takes the slashes off the end of a prefix, and leaves one at the root. -/
def prefixLoop (out : CString) : ℕ → ℕ
  | 0 => 0
  | length + 1 =>
    if 1 < length + 1 ∧ out[length]? = some slash then prefixLoop out length else length + 1

/-- The directory so far: `.` when relative, `/` at the root. -/
def directoryAt (out : CString) : CString :=
  let length := prefixLoop out out.length
  if length = 0 then ascii "." else out.take length

/-- A file system to look in. What a directory lists is there, under every path that names
the directory. -/
structure GPFiles where
  errorOf : CString → ℕ
  list : CString → Option (List CString)
  agree : ∀ {parent entries name}, parent = [] ∨ parent.getLast? = some slash →
    list (directoryAt parent) = some entries → name ∈ entries → errorOf (parent ++ name) = 0

def lower (b : UInt8) : UInt8 := if 65 ≤ b ∧ b ≤ 90 then b + 32 else b

/-- `strncasecmp` of two texts of the same length. -/
def sameIgnoringCase (name component : CString) : Bool := name.map lower == component.map lower

/-- The entries of one directory that match a component ignoring case. -/
structure Search where
  name : CString
  found : CString
  matched : ℕ

def consider (search : Search) (name : CString) : Search :=
  if name.length ≠ search.name.length ∨ sameIgnoringCase name search.name = false then search
  else
    { search with
      found := if search.matched = 0 then name else search.found
      matched := search.matched + 1 }

def isDots (component : CString) : Bool :=
  component.head? == some 46 &&
    (component.length == 1 || (component.length == 2 && component[1]? == some 46))

theorem length_rest_lt {c : UInt8} (hc : ¬ c = slash) (tail : CString) :
    ((c :: tail).dropWhile (· ≠ slash)).length < (c :: tail).length := by
  rw [List.dropWhile_cons_of_pos (by simpa using hc), List.length_cons]
  exact Nat.lt_succ_of_le (List.dropWhile_suffix _).length_le

/-- The loop over the path: `out` up to where a component starts, and the rest of the path,
which is still as it was. Nothing when it returns false at once. -/
def gpLoop (files : GPFiles) (out rest : CString) (changed : Bool) : Option (CString × Bool) :=
  match rest with
  | [] => some (out, changed)
  | c :: tail =>
    if c = slash then gpLoop files (out ++ [slash]) tail changed
    else
      let component := (c :: tail).takeWhile (· ≠ slash)
      let after := (c :: tail).dropWhile (· ≠ slash)
      if isDots component then gpLoop files (out ++ component) after changed
      else if files.errorOf (out ++ component) = enoent then
        if nameMax < component.length then none
        else
          match files.list (directoryAt out) with
          | none => none
          | some entries =>
            let search := entries.foldl consider ⟨component, [], 0⟩
            if search.matched ≠ 1 then none
            else gpLoop files (out ++ search.found) after true
      else if files.errorOf (out ++ component) ≠ 0 then none
      else gpLoop files (out ++ component) after changed
termination_by rest.length
decreasing_by
  · exact Nat.lt_succ_self _
  all_goals exact length_rest_lt ‹_› tail

def gpCaseInsensitive (files : GPFiles) (path : CString) (size : ℕ) : Option CString :=
  if path.length = 0 ∨ size ≤ path.length ∨ pathMax ≤ path.length then none
  else
    match gpLoop files [] path false with
    | some (out, true) => some out
    | _ => none

end Tolkara
