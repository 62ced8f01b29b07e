import Mathlib.Data.List.TakeWhile
import Tolkara.Paths.Tree

/-!
# Resolution that ignores case is faithful

What a path and its resolution have in common (`Faithful`), kept from component to
component, and why nothing is found where nothing is.
-/

namespace Tolkara

open Library

/-! ## Case -/

theorem lower_eq_slash (b : UInt8) : lower b = slash ↔ b = slash := by
  unfold lower
  split_ifs with h
  · have hlow := UInt8.le_iff_toNat_le.1 h.1
    have hhigh := UInt8.le_iff_toNat_le.1 h.2
    have h65 : (65 : UInt8).toNat = 65 := rfl
    have h90 : (90 : UInt8).toNat = 90 := rfl
    have h32 : (32 : UInt8).toNat = 32 := rfl
    have h47 : slash.toNat = 47 := rfl
    rw [← UInt8.toNat_inj, ← UInt8.toNat_inj, UInt8.toNat_add]
    omega
  · rfl

theorem slash_mem_map_lower {l : CString} : slash ∈ l.map lower ↔ slash ∈ l := by
  rw [List.mem_map]
  constructor
  · rintro ⟨b, hb, hlower⟩
    rwa [← (lower_eq_slash b).1 hlower]
  · intro h
    exact ⟨slash, h, (lower_eq_slash slash).2 rfl⟩

theorem getElem?_map_lower (l : CString) (i : ℕ) :
    (l.map lower)[i]? = some slash ↔ l[i]? = some slash := by
  rw [List.getElem?_map, Option.map_eq_some_iff]
  constructor
  · rintro ⟨b, hb, hlower⟩
    rwa [← (lower_eq_slash b).1 hlower]
  · intro h
    exact ⟨slash, h, (lower_eq_slash slash).2 rfl⟩

theorem sameIgnoringCase_iff {name component : CString} :
    sameIgnoringCase name component = true ↔ name.map lower = component.map lower := beq_iff_eq

theorem foldl_consider (entries : List CString) (search : Search) :
    entries.foldl consider search =
      { search with
        found := if search.matched = 0 then
            (entries.filter (sameIgnoringCase · search.name)).head?.getD search.found
          else search.found
        matched := search.matched +
          (entries.filter (sameIgnoringCase · search.name)).length } := by
  induction entries generalizing search with
  | nil => simp
  | cons name entries ih =>
      rw [List.foldl_cons, ih]
      cases hsame : sameIgnoringCase name search.name with
      | false =>
          have hskip : consider search name = search := if_pos (Or.inr hsame)
          rw [hskip, List.filter_cons_of_neg (p := fun x => sameIgnoringCase x search.name)
            (by rw [hsame]; decide)]
      | true =>
          have hlength : name.length = search.name.length := by
            have := congrArg List.length (sameIgnoringCase_iff.1 hsame)
            rwa [List.length_map, List.length_map] at this
          have htake : consider search name =
              { search with
                found := if search.matched = 0 then name else search.found
                matched := search.matched + 1 } := by
            rw [consider, if_neg]
            rw [hlength, hsame]
            simp
          rw [htake, List.filter_cons_of_pos (p := fun x => sameIgnoringCase x search.name) hsame]
          simp only [Nat.succ_ne_zero, if_false, List.head?_cons, Option.getD_some,
            List.length_cons]
          rw [Nat.add_assoc, Nat.add_comm 1]

theorem search_eq_one {entries : List CString} {component : CString}
    (h : (entries.foldl consider ⟨component, [], 0⟩).matched = 1) :
    entries.filter (sameIgnoringCase · component) =
      [(entries.foldl consider ⟨component, [], 0⟩).found] := by
  rw [foldl_consider] at h ⊢
  dsimp only at h ⊢
  rw [Nat.zero_add] at h
  obtain ⟨name, hname⟩ := List.length_eq_one_iff.1 h
  rw [hname]
  rfl

/-! ## What resolution keeps -/

def originalOf (path before part : CString) : CString := (path.drop before.length).take part.length

/-- A path, or a part of it, and what it was resolved to: the same but for case; all there
but for dots; and other than it was only where the original is not in the directory so far
and exactly one entry matches it. -/
structure Faithful (files : GPFiles) (path out : CString) : Prop where
  sameCase : out.map lower = path.map lower
  present : ∀ before part after, Component slash out before part after → isDots part = false →
    files.errorOf (before ++ part) = 0
  replaced : ∀ before part after, Component slash out before part after →
    originalOf path before part ≠ part →
      files.errorOf (before ++ originalOf path before part) = enoent ∧
        ∃ entries, files.list (directoryAt before) = some entries ∧
          entries.filter (sameIgnoringCase · (originalOf path before part)) = [part]

/-- Some part was replaced. -/
def Differs (path out : CString) : Prop :=
  ∃ before part after, Component slash out before part after ∧ originalOf path before part ≠ part

variable {files : GPFiles} {path out : CString}

theorem Faithful.length_eq (h : Faithful files path out) : out.length = path.length := by
  have hlength := congrArg List.length h.sameCase
  rwa [List.length_map, List.length_map] at hlength

theorem Faithful.slashes (h : Faithful files path out) (i : ℕ) :
    out[i]? = some slash ↔ path[i]? = some slash := by
  rw [← getElem?_map_lower, h.sameCase, getElem?_map_lower]

theorem Faithful.open_iff (h : Faithful files path out) : Open slash out ↔ Open slash path := by
  have hlength := h.length_eq
  unfold Open
  rw [List.getLast?_eq_getElem?, List.getLast?_eq_getElem?, h.slashes, hlength,
    ← List.length_eq_zero_iff, hlength, List.length_eq_zero_iff]

theorem Faithful.nil (files : GPFiles) : Faithful files [] [] where
  sameCase := rfl
  present before part after h := by
    have htext := h.text_eq
    have hne := h.nonempty
    simp_all
  replaced before part after h := by
    have htext := h.text_eq
    have hne := h.nonempty
    simp_all

theorem length_before_part {before part after : CString}
    (h : Component slash out before part after) : before.length + part.length ≤ out.length := by
  have hlength := congrArg List.length h.text_eq
  rw [List.length_append, List.length_append] at hlength
  omega

/-- What is added behind a part does not change its original. -/
theorem originalOf_append {before part : CString} (new : CString)
    (h : before.length + part.length ≤ path.length) :
    originalOf (path ++ new) before part = originalOf path before part := by
  rw [originalOf, originalOf, List.drop_append_of_le_length (by omega),
    List.take_append_of_le_length (by rw [List.length_drop]; omega)]

theorem originalOf_last {original part : CString} (hout : out.length = path.length)
    (hpart : part.length = original.length) : originalOf (path ++ original) out part = original := by
  rw [originalOf, hout, List.drop_left, hpart, List.take_length]

theorem Faithful.slash (h : Faithful files path out) :
    Faithful files (path ++ [slash]) (out ++ [slash]) where
  sameCase := by rw [List.map_append, List.map_append, h.sameCase]
  present before part after hpart hdots := by
    obtain ⟨after', -, hold⟩ := hpart.of_concat
    exact h.present before part after' hold hdots
  replaced before part after hpart hne := by
    obtain ⟨after', -, hold⟩ := hpart.of_concat
    have hle := h.length_eq ▸ length_before_part hold
    rw [originalOf_append _ hle] at hne ⊢
    exact h.replaced before part after' hold hne

/-- One more part, there as it was or replaced by the one entry that matches it. -/
theorem Faithful.part (h : Faithful files path out) (hopen : Open Tolkara.slash out)
    {original new : CString} (hne : original ≠ []) (hslash : Tolkara.slash ∉ original)
    (hcase : new.map lower = original.map lower)
    (hpresent : isDots new = false → files.errorOf (out ++ new) = 0)
    (hreplaced : original ≠ new → files.errorOf (out ++ original) = enoent ∧
      ∃ entries, files.list (directoryAt out) = some entries ∧
        entries.filter (sameIgnoringCase · original) = [new]) :
    Faithful files (path ++ original) (out ++ new) := by
  have hlength : new.length = original.length := by
    have := congrArg List.length hcase
    rwa [List.length_map, List.length_map] at this
  have hnewSlash : Tolkara.slash ∉ new := by
    rwa [← slash_mem_map_lower, hcase, slash_mem_map_lower]
  have hnewNe : new ≠ [] := by
    rintro rfl
    exact hne (List.length_eq_zero_iff.1 hlength.symm)
  refine ⟨by rw [List.map_append, List.map_append, h.sameCase, hcase], ?_, ?_⟩
  · intro before part after hpart hdots
    rcases hpart.of_append hopen hnewSlash hnewNe with ⟨rfl, rfl, -⟩ | ⟨after', -, hold⟩
    · exact hpresent hdots
    · exact h.present before part after' hold hdots
  · intro before part after hpart hdiffers
    rcases hpart.of_append hopen hnewSlash hnewNe with ⟨rfl, rfl, -⟩ | ⟨after', -, hold⟩
    · rw [originalOf_last h.length_eq hlength] at hdiffers ⊢
      exact hreplaced hdiffers
    · have hle := h.length_eq ▸ length_before_part hold
      rw [originalOf_append _ hle] at hdiffers ⊢
      exact h.replaced before part after' hold hdiffers

theorem Differs.slash (hlength : out.length = path.length) (h : Differs path out) :
    Differs (path ++ [slash]) (out ++ [slash]) := by
  obtain ⟨before, part, after, hpart, hne⟩ := h
  refine ⟨before, part, _, hpart.concat, ?_⟩
  rwa [originalOf_append _ (hlength ▸ length_before_part hpart)]

theorem Differs.part (hlength : out.length = path.length) (h : Differs path out)
    (hopen : Open Tolkara.slash out) (original new : CString) :
    Differs (path ++ original) (out ++ new) := by
  obtain ⟨before, part, after, hpart, hne⟩ := h
  refine ⟨before, part, _, hpart.append hopen new, ?_⟩
  rwa [originalOf_append _ (hlength ▸ length_before_part hpart)]

/-! ## The loop -/

/-- Why a part is not resolved: an error other than not-found, too long a name, a directory
that cannot be listed, or no match or several. -/
def Blocked (files : GPFiles) (resolved part : CString) : Prop :=
  (files.errorOf (resolved ++ part) ≠ 0 ∧ files.errorOf (resolved ++ part) ≠ enoent) ∨
    (files.errorOf (resolved ++ part) = enoent ∧
      (nameMax < part.length ∨ files.list (directoryAt resolved) = none ∨
        ∃ entries, files.list (directoryAt resolved) = some entries ∧
          (entries.filter (sameIgnoringCase · part)).length ≠ 1))

/-- A part that is not resolved, after what is before it was. -/
def Unresolved (files : GPFiles) (path : CString) : Prop :=
  ∃ before part after resolved, Component slash path before part after ∧
    Faithful files before resolved ∧ isDots part = false ∧ Blocked files resolved part

def Outcome (files : GPFiles) (path : CString) : Option (CString × Bool) → Prop
  | some (out, changed) =>
    Faithful files path out ∧ (changed = false → out = path) ∧ (changed = true → Differs path out)
  | none => Unresolved files path

theorem component_spec {c : UInt8} (hc : ¬ c = slash) (tail : CString) :
    (c :: tail).takeWhile (· ≠ slash) ≠ [] ∧ slash ∉ (c :: tail).takeWhile (· ≠ slash) ∧
      ((c :: tail).dropWhile (· ≠ slash) = [] ∨
        ((c :: tail).dropWhile (· ≠ slash)).head? = some slash) := by
  refine ⟨?_, fun hmem => ?_, ?_⟩
  · rw [List.takeWhile_cons_of_pos (by simpa using hc)]
    exact List.cons_ne_nil _ _
  · have := List.mem_takeWhile_imp hmem
    simp at this
  · cases hafter : (c :: tail).dropWhile (· ≠ slash) with
    | nil => exact Or.inl rfl
    | cons x after =>
        refine Or.inr ?_
        have hhead := List.head?_dropWhile_not (· ≠ slash) (c :: tail)
        rw [hafter] at hhead
        simpa using hhead

/-- A round in which the part at the start of the rest is not resolved. -/
theorem unresolved_of_blocked {read tail : CString} {c : UInt8} (hc : ¬ c = slash)
    (h : Faithful files read out) (hopen : Open slash out)
    (hdots : ¬ isDots ((c :: tail).takeWhile (· ≠ slash)) = true)
    (hblocked : Blocked files out ((c :: tail).takeWhile (· ≠ slash))) :
    Outcome files (read ++ c :: tail) none := by
  obtain ⟨hne, hslash, hafter⟩ := component_spec hc tail
  refine ⟨read, _, _, out, ⟨?_, hne, hslash, h.open_iff.1 hopen, hafter⟩, h,
    Bool.not_eq_true _ ▸ hdots, hblocked⟩
  rw [List.append_assoc, List.takeWhile_append_dropWhile]

theorem Faithful.keep {read part : CString} (h : Faithful files read out)
    (hopen : Open Tolkara.slash out) (hne : part ≠ []) (hslash : Tolkara.slash ∉ part)
    (hpresent : isDots part = false → files.errorOf (out ++ part) = 0) :
    Faithful files (read ++ part) (out ++ part) :=
  h.part hopen hne hslash rfl hpresent fun hdiffers => absurd rfl hdiffers

/-- A round in which it is replaced by the one entry that matches it. -/
theorem Faithful.replace {read part new : CString} {entries : List CString}
    (h : Faithful files read out) (hopen : Open Tolkara.slash out) (hne : part ≠ [])
    (hslash : Tolkara.slash ∉ part) (herror : files.errorOf (out ++ part) = enoent)
    (hlist : files.list (directoryAt out) = some entries)
    (hone : entries.filter (sameIgnoringCase · part) = [new]) :
    Faithful files (read ++ part) (out ++ new) ∧ Differs (read ++ part) (out ++ new) := by
  have hmem : new ∈ entries.filter (sameIgnoringCase · part) :=
    hone ▸ List.mem_singleton_self new
  obtain ⟨hentry, hmatch⟩ := List.mem_filter.1 hmem
  have hcase := sameIgnoringCase_iff.1 hmatch
  have hpresent := files.agree hopen hlist hentry
  have hnewSlash : Tolkara.slash ∉ new := by
    rwa [← slash_mem_map_lower, hcase, slash_mem_map_lower]
  have hlength : new.length = part.length := by
    have := congrArg List.length hcase
    rwa [List.length_map, List.length_map] at this
  have hnewNe : new ≠ [] := by
    rintro rfl
    exact hne (List.length_eq_zero_iff.1 hlength.symm)
  refine ⟨h.part hopen hne hslash hcase (fun _ => hpresent) fun _ =>
      ⟨herror, entries, hlist, hone⟩, out, new, [], component_last hopen hnewNe hnewSlash, ?_⟩
  -- The entry is there and the original is not.
  rw [originalOf_last h.length_eq hlength]
  rintro rfl
  rw [herror] at hpresent
  cases hpresent

theorem gpLoop_outcome (files : GPFiles) (out rest : CString) (changed : Bool) {read : CString}
    (h : Faithful files read out)
    (hready : Open slash out ∨ rest = [] ∨ rest.head? = some slash)
    (hsame : changed = false → out = read) (hdiffers : changed = true → Differs read out) :
    Outcome files (read ++ rest) (gpLoop files out rest changed) := by
  have hopen : ∀ {out : CString} {c : UInt8} {tail : CString}, ¬ c = slash →
      Open slash out ∨ c :: tail = [] ∨ (c :: tail).head? = some slash → Open slash out :=
    fun hc hready => hready.resolve_right fun hstart =>
      hstart.elim (List.cons_ne_nil _ _) fun hhead => hc (Option.some.inj hhead)
  fun_induction gpLoop files out rest changed generalizing read with
  | case1 out changed =>
      rw [List.append_nil]
      exact ⟨h, hsame, hdiffers⟩
  | case2 out changed tail ih =>
      rw [List.append_cons]
      refine ih h.slash (Or.inl (Open.concat slash out)) (fun hc => by rw [hsame hc]) ?_
      exact fun hc => (hdiffers hc).slash h.length_eq
  | case3 =>
      -- Dots stay.
      rename_i out changed c tail hc component after hdots ih
      obtain ⟨hne, hslash, hafter⟩ := component_spec hc tail
      rw [← List.takeWhile_append_dropWhile (p := (· ≠ slash)) (l := c :: tail), ← List.append_assoc]
      refine ih (h.keep (hopen hc hready) hne hslash fun hfalse => ?_) (Or.inr hafter)
        (fun hflag => by rw [hsame hflag]) fun hflag => ?_
      · rw [hdots] at hfalse
        cases hfalse
      · exact (hdiffers hflag).part h.length_eq (hopen hc hready) component component
  | case4 =>
      rename_i out changed c tail hc component hdots herror hlong
      exact unresolved_of_blocked hc h (hopen hc hready) hdots (Or.inr ⟨herror, Or.inl hlong⟩)
  | case5 =>
      rename_i out changed c tail hc component hdots herror hlong hlist
      exact unresolved_of_blocked hc h (hopen hc hready) hdots
        (Or.inr ⟨herror, Or.inr (Or.inl hlist)⟩)
  | case6 =>
      rename_i out changed c tail hc component hdots herror hlong entries hlist search hmatched
      refine unresolved_of_blocked hc h (hopen hc hready) hdots
        (Or.inr ⟨herror, Or.inr (Or.inr ⟨entries, hlist, fun hone => hmatched ?_⟩)⟩)
      change (entries.foldl consider ⟨component, [], 0⟩).matched = 1
      rw [foldl_consider]
      dsimp only
      rw [Nat.zero_add]
      exact hone
  | case7 =>
      -- The one entry takes the place of the component.
      rename_i out changed c tail hc component after hdots herror hlong entries hlist search
        hmatched ih
      obtain ⟨hne, hslash, hafter⟩ := component_spec hc tail
      obtain ⟨hfaithful, hnew⟩ := h.replace (hopen hc hready) hne hslash herror hlist
        (search_eq_one (not_not.1 hmatched))
      rw [← List.takeWhile_append_dropWhile (p := (· ≠ slash)) (l := c :: tail), ← List.append_assoc]
      exact ih hfaithful (Or.inr hafter) nofun fun _ => hnew
  | case8 =>
      rename_i out changed c tail hc component hdots hfound herror
      exact unresolved_of_blocked hc h (hopen hc hready) hdots (Or.inl ⟨herror, hfound⟩)
  | case9 =>
      -- There as it was.
      rename_i out changed c tail hc component after hdots hfound herror ih
      obtain ⟨hne, hslash, hafter⟩ := component_spec hc tail
      rw [← List.takeWhile_append_dropWhile (p := (· ≠ slash)) (l := c :: tail), ← List.append_assoc]
      refine ih (h.keep (hopen hc hready) hne hslash fun _ => not_not.1 herror) (Or.inr hafter)
        (fun hflag => by rw [hsame hflag]) fun hflag => ?_
      exact (hdiffers hflag).part h.length_eq (hopen hc hready) component component

theorem Faithful.case_eq (h : Faithful files path out) {before part after : CString}
    (hpart : Component Tolkara.slash out before part after) :
    part.map lower = (originalOf path before part).map lower := by
  have htake : (out.drop before.length).take part.length = part := by
    rw [hpart.text_eq, List.append_assoc, List.drop_left, List.take_left]
  rw [originalOf, List.map_take, List.map_drop, ← h.sameCase, ← List.map_drop, ← List.map_take,
    htake]

theorem gpCaseInsensitive_eq (files : GPFiles) {path : CString} {size : ℕ}
    (hne : path.length ≠ 0) (hsize : path.length < size) (hmax : path.length < pathMax) :
    Outcome files path (gpLoop files [] path false) ∧
      gpCaseInsensitive files path size =
        match gpLoop files [] path false with
        | some (out, true) => some out
        | _ => none := by
  refine ⟨?_, if_neg (by omega)⟩
  have houtcome := gpLoop_outcome files [] path false (Faithful.nil files)
    (Or.inl (Open.nil slash)) (fun _ => rfl) nofun
  rwa [List.nil_append] at houtcome

/-- **Resolution that ignores case.** What is found has the slashes and, but for case, the
components of the path; every component but dots is there; one was replaced only where the
original is not in the directory resolved so far and exactly one entry matches it, and at
least one was. Within the limits nothing is found only where all is there as it was, or a
component cannot be resolved. -/
structure CaseInsensitive (files : GPFiles) : Prop where
  found : ∀ path size out, gpCaseInsensitive files path size = some out →
    out.length = path.length ∧ (∀ i : ℕ, out[i]? = some slash ↔ path[i]? = some slash) ∧
      (∀ before part after, Component slash out before part after →
        part.map lower = (originalOf path before part).map lower) ∧
      Faithful files path out ∧ Differs path out
  notFound : ∀ path size, path.length ≠ 0 → path.length < size → path.length < pathMax →
    gpCaseInsensitive files path size = none →
      (∀ before part after, Component slash path before part after → isDots part = false →
        files.errorOf (before ++ part) = 0) ∨ Unresolved files path

def docsTree : DirectoryTree where
  directories := [([], [ascii "Docs", ascii "lib"]), ([ascii "Docs"], [ascii "ReadMe"])]
  plain := by decide

end Tolkara
