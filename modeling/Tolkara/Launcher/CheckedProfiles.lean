import Tolkara.Launcher.Profiles

/-!
# Checked profiles

`check` and the launcher state the same rules. They part where the launcher counts UTF-16 units
instead of characters, bounds the length of a path, trims the name and compares an alias
with its target in its own way: `FitsLauncher` says when a checked profile passes there, and
`checked_profile_returned_iff` that this is all.
-/

namespace Tolkara

open Library NSString

namespace CheckProfile

/-! ## Paths -/

/-- A relative path without empty, dot or dot-dot components. -/
def IsRelative (s : List Char) : Prop :=
  s.head? ≠ some '/' ∧ ∀ part ∈ s.splitOn '/', part ≠ [] ∧ part ≠ ['.'] ∧ part ≠ ['.', '.']

theorem parts_utf16 (s : List Char) : parts (utf16 s) = (s.splitOn '/').map utf16 :=
  splitOn_utf16 (show '/'.toNat < 0x80 by decide) s

theorem plainParts_utf16 (s : List Char) :
    plainParts (utf16 s) = true ↔
      ∀ part ∈ s.splitOn '/', part ≠ [] ∧ part ≠ ['.'] ∧ part ≠ ['.', '.'] := by
  have hdot : text "." = utf16 ['.'] := by decide
  have hdots : text ".." = utf16 ['.', '.'] := by decide
  have hpart : ∀ part : List Char,
      (utf16 part ≠ [] ∧ utf16 part ≠ text ".") ∧ utf16 part ≠ text ".." ↔
        part ≠ [] ∧ part ≠ ['.'] ∧ part ≠ ['.', '.'] := by
    intro part
    rw [hdot, hdots, utf16_injective.ne_iff, utf16_injective.ne_iff, and_assoc, ne_eq,
      utf16_eq_nil]
  simp only [plainParts, parts_utf16, List.all_map, List.all_eq_true, Function.comp_apply,
    Bool.and_eq_true, decide_eq_true_eq, hpart]

theorem isRelative_iff {s : List Char} :
    IsRelative s ↔ ∀ part ∈ s.splitOn '/', part ≠ [] ∧ part ≠ ['.'] ∧ part ≠ ['.', '.'] := by
  refine ⟨fun h => h.2, fun h => ⟨fun hhead => ?_, h⟩⟩
  exact (h [] (nil_mem_splitOn hhead)).1 rfl

theorem IsRelative.ne_nil {s : List Char} (h : IsRelative s) : s ≠ [] := by
  rintro rfl
  exact (h.2 [] (List.mem_singleton_self _)).1 rfl

theorem relativeText_iff {s : List Char} : relativeText s = true ↔ IsRelative s := by
  simp only [relativeText, Bool.and_eq_true, bne_iff_ne, List.all_eq_true, and_assoc]
  exact ⟨fun h => h.2, fun h => ⟨h.ne_nil, h⟩⟩

theorem validRelative_utf16 {s : List Char} :
    validRelative (utf16 s) false = true ↔ (utf16 s).length ≤ 4096 ∧ IsRelative s := by
  unfold validRelative
  by_cases hlong : 4096 < (utf16 s).length
  · rw [if_pos hlong]
    exact ⟨nofun, fun h => absurd h.1 (by omega)⟩
  rw [if_neg hlong, ← not_lt, isRelative_iff, ← plainParts_utf16]
  by_cases hnil : utf16 s = []
  · rw [if_pos hnil, hnil]
    decide
  · rw [if_neg hnil]
    exact ⟨fun h => ⟨hlong, h⟩, fun h => h.2⟩

theorem lastPathComponent_utf16 {s : List Char} (h : IsRelative s) :
    lastPathComponent (utf16 s) = utf16 (leafOf s) := by
  have hhead : (utf16 s).head? ≠ some slash := by
    intro hslash
    have hmem : [] ∈ parts (utf16 s) := nil_mem_splitOn hslash
    rw [parts_utf16] at hmem
    obtain ⟨part, hpart, hnil⟩ := List.mem_map.1 hmem
    exact (h.2 part hpart).1 (utf16_eq_nil.1 hnil)
  have hfilter : (parts (utf16 s)).filter (· ≠ []) = parts (utf16 s) := by
    rw [List.filter_eq_self, parts_utf16]
    intro part hpart
    obtain ⟨part, hmem, rfl⟩ := List.mem_map.1 hpart
    exact decide_eq_true fun hnil => (h.2 part hmem).1 (utf16_eq_nil.1 hnil)
  rw [lastPathComponent, pathComponents, if_neg hhead, hfilter, List.nil_append, parts_utf16,
    leafOf]
  cases hs : s.splitOn '/' using List.reverseRecOn with
  | nil => rfl
  | append_singleton l x => simp

/-! ## Texts -/

/-- A text has at most 4096 units. -/
def Short (v : JSON) : Prop := ∀ s, v = .string s → (utf16 s).length ≤ 4096

theorem validRelativeValue_iff {v : JSON} (h : relative v = true) :
    Launcher.validRelativeValue v false = true ↔ Short v := by
  cases v with
  | string s =>
      change validRelative (utf16 s) false = true ↔ _
      rw [validRelative_utf16]
      refine ⟨fun hv t ht => ?_, fun hv => ⟨hv s rfl, relativeText_iff.1 h⟩⟩
      cases ht
      exact hv.1
  | _ => exact absurd h Bool.false_ne_true

theorem validText_iff {v : JSON} (h : shortText 4096 v = true) :
    Launcher.validText v = true ↔ Short v := by
  cases v with
  | string s =>
      change decide _ = true ↔ _
      rw [decide_eq_true_eq]
      refine ⟨fun hv t ht => ?_, fun hv => hv s rfl⟩
      cases ht
      exact hv
  | _ => exact absurd h Bool.false_ne_true

/-! ## Names of variables -/

theorem isWord_iff (c : Char) : (∀ u ∈ unitsOf c, Launcher.isWord u = true) ↔ isRest c = true := by
  have hword : ∀ u : UInt16, Launcher.isWord u = true ↔
      (65 ≤ u.toNat ∧ u.toNat ≤ 90) ∨ (97 ≤ u.toNat ∧ u.toNat ≤ 122) ∨
        (48 ≤ u.toNat ∧ u.toNat ≤ 57) ∨ u.toNat = 95 := by
    intro u
    simp only [Launcher.isWord, Bool.or_eq_true, Bool.and_eq_true, decide_eq_true_eq, beq_iff_eq,
      UInt16.le_iff_toNat_le, ← UInt16.toNat_inj, or_assoc]
    rfl
  simp only [hword, isRest, isFirst, Bool.or_eq_true, Bool.and_eq_true, decide_eq_true_eq,
    beq_iff_eq]
  rcases unitsOf_cases c with ⟨u, hc, h1, -⟩ | ⟨u, v, hc, h1, h2, h3, h4⟩
  · rw [hc, List.forall_mem_singleton, h1]
    omega
  · rw [hc]
    simp only [List.mem_cons, List.not_mem_nil, or_false, forall_eq_or_imp, forall_eq]
    omega

theorem all_isWord_iff (s : List Char) :
    (utf16 s).all Launcher.isWord = true ↔ s.all isRest = true := by
  rw [List.all_eq_true, List.all_eq_true, utf16]
  simp only [List.mem_flatMap, ← isWord_iff]
  constructor
  · intro h c hc u hu
    exact h u ⟨c, hc, hu⟩
  · rintro h u ⟨c, hc, hu⟩
    exact h c hc u hu

theorem isRest_iff (c : Char) :
    isRest c = true ↔ isFirst c = true ∨ 48 ≤ c.toNat ∧ c.toNat ≤ 57 := by
  simp only [isRest, Bool.or_eq_true, Bool.and_eq_true, decide_eq_true_eq]

theorem lt_of_isRest {c : Char} (h : isRest c = true) : c.toNat < 0x80 := by
  simp only [isRest, isFirst, Bool.or_eq_true, Bool.and_eq_true, decide_eq_true_eq,
    beq_iff_eq] at h
  omega

/-- A character of a name is a digit for the launcher if it is one for the check. -/
theorem isDigit_iff {c : Char} (h : isRest c = true) :
    (!(48 ≤ UInt16.ofNat c.toNat && UInt16.ofNat c.toNat ≤ 57)) = true ↔ isFirst c = true := by
  have hunit : (UInt16.ofNat c.toNat).toNat = c.toNat :=
    toNat_unit ((lt_of_isRest h).trans (by norm_num))
  have hdigit : (48 ≤ UInt16.ofNat c.toNat ∧ UInt16.ofNat c.toNat ≤ 57) ↔
      48 ≤ c.toNat ∧ c.toNat ≤ 57 := by
    rw [UInt16.le_iff_toNat_le, UInt16.le_iff_toNat_le, hunit]
    rfl
  simp only [Bool.not_eq_true', Bool.and_eq_false_iff, decide_eq_false_iff_not, ← not_and_or,
    hdigit]
  refine ⟨fun hno => ((isRest_iff c).1 h).resolve_right hno, fun hfirst => ?_⟩
  simp only [isFirst, Bool.or_eq_true, Bool.and_eq_true, decide_eq_true_eq, beq_iff_eq] at hfirst
  omega

theorem validVariable_iff (name : List Char) :
    Launcher.validVariable (utf16 name) = true ↔
      isVariableName name = true ∧ name.length ≤ 256 := by
  cases name with
  | nil => decide
  | cons c rest =>
      by_cases hword : (c :: rest).all isRest = true
      · have hunits := utf16_ascii fun d hd => lt_of_isRest (List.all_eq_true.1 hword d hd)
        have hall := (all_isWord_iff (c :: rest)).2 hword
        rw [List.all_cons, Bool.and_eq_true] at hword
        rw [hunits, List.map_cons] at hall ⊢
        rw [Launcher.validVariable, hall, Bool.and_true, isVariableName, hword.2, Bool.and_true,
          Bool.and_eq_true, isDigit_iff hword.1, decide_eq_true_eq, List.length_cons,
          List.length_map, List.length_cons, and_comm]
      · have hunits : ¬ (utf16 (c :: rest)).all Launcher.isWord = true :=
          fun h => hword ((all_isWord_iff _).1 h)
        refine iff_of_false (fun h => hunits ?_) fun h => hword ?_
        · unfold Launcher.validVariable at h
          split at h
          · cases h
          · exact (Bool.and_eq_true _ _ ▸ h).2
        · rw [isVariableName, Bool.and_eq_true] at h
          rw [List.all_cons, Bool.and_eq_true]
          exact ⟨(isRest_iff c).2 (.inl h.1.1), h.1.2⟩

/-! ## Aliases -/

section

variable {f : Foundation} {lower : List Char → List Char} {path : List Char} {target : JSON}

theorem checkCaseAlias_ok (h : checkCaseAlias lower path target = .ok ()) :
    IsRelative path ∧ ∃ name, target = .string name ∧ IsRelative name ∧ '/' ∉ name ∧
      name ≠ leafOf path := by
  obtain ⟨_, hpath, h⟩ := bind_ok.1 h
  cases target with
  | string name =>
      obtain ⟨hname, hslash, hne, -⟩ := need_ok.1 h
      exact ⟨relativeText_iff.1 (need_ok.1 hpath), name, rfl, relativeText_iff.1 hname, hslash, hne⟩
  | _ => cases h

/-- What is left for the launcher to find wrong in an alias. -/
theorem validCaseAlias_iff (h : checkCaseAlias lower path target = .ok ()) :
    Launcher.validCaseAlias f path target = true ↔
      (utf16 path).length ≤ 4096 ∧ Short target ∧
        ∀ name, target = .string name →
          f.sameIgnoringCase (utf16 name) (utf16 (leafOf path)) = true := by
  obtain ⟨hpath, name, rfl, hname, hslash, hne⟩ := checkCaseAlias_ok h
  have hslash' : slash ∉ utf16 name := by
    intro hmem
    exact hslash ((mem_utf16_ascii (show '/'.toNat < 0x80 by decide)).1 hmem)
  simp only [Launcher.validCaseAlias, lastPathComponent_utf16 hpath, Bool.and_eq_true,
    validRelative_utf16, bne_iff_ne, Bool.not_eq_true', List.contains_eq_mem,
    decide_eq_false_iff_not, utf16_injective.ne_iff, hpath, hname, hslash', hne, and_true,
    not_false_eq_true, ne_eq, and_assoc]
  refine and_congr_right fun _ => and_congr ⟨?_, fun hv => hv name rfl⟩ ⟨?_, fun hv => hv name rfl⟩
  · rintro hv _ ⟨⟩
    exact hv
  · rintro hv _ ⟨⟩
    exact hv

end

/-! ## Profiles -/

/-- The rules of `check` that speak of what the launcher reads. -/
structure Checked (lower : List Char → List Char) (p : Members) : Prop where
  strings : ∀ key ∈ required, (member p key).any nonemptyString = true
  inside : ∀ key ∈ ["workingDirectory", "executable", "runtime"],
    (member p key).all relative = true
  aliases : ifPresent p "caseAliases" (checkCaseAliases lower) = .ok ()
  libraries : ifPresent p "libraries" (checkLibraries p) = .ok ()
  codePool : ifPresent p "codePool" (checkCodePool p) = .ok ()
  commandLine : checkCommandLine p = .ok ()

theorem check_ok {parse : List UInt8 → Option JSON} {lower : List Char → List Char}
    {data : List UInt8} {p : Members} (h : check parse lower data = .ok p) :
    parse data = some (.object p) ∧ Checked lower p := by
  obtain ⟨profile, hparse, h⟩ := bind_ok.1 h
  rw [obtained_ok] at hparse
  cases profile with
  | object members =>
      simp only [bind_ok, need_ok, exists_const] at h
      obtain ⟨-, _, hstrings, _, hinside, _, haliases, _, hlibraries, _, hcodePool, _, hline,
        heq⟩ := h
      cases heq
      exact ⟨hparse, fun key hkey => need_ok.1 (forM_ok.1 hstrings key hkey),
        fun key hkey => need_ok.1 (forM_ok.1 hinside key hkey), haliases, hlibraries, hcodePool,
        hline⟩
  | _ => cases h

/-- What the launcher asks of a checked profile besides. -/
structure FitsLauncher (f : Foundation) (p : Members) : Prop where
  name : ∀ s, member p "name" = some (.string s) → ∃ u ∈ utf16 s, isWhitespace u = false
  workingDirectory : ∀ v, member p "workingDirectory" = some v → Short v
  executable : ∀ v, member p "executable" = some v → Short v
  runtime : ∀ v, member p "runtime" = some v → Short v
  libraries : ∀ l, member p "libraries" = some (.array l) → ∀ v ∈ l, Short v
  arguments : ∀ l, member p "arguments" = some (.array l) → ∀ v ∈ l, Short v
  environment : ∀ l, member p "environment" = some (.object l) → ∀ v ∈ l, Short v.2
  aliases : ∀ l, member p "caseAliases" = some (.object l) → ∀ a ∈ l,
    (utf16 a.1).length ≤ 4096 ∧ Short a.2 ∧ ∀ name, a.2 = .string name →
      f.sameIgnoringCase (utf16 name) (utf16 (leafOf a.1)) = true

section

variable {f : Foundation} {lower : List Char → List Char} {p : Members}

theorem ifPresent_ok {key : String} {g : JSON → Except ValueError Unit} :
    ifPresent p key g = .ok () ↔ ∀ v, member p key = some v → g v = .ok () := by
  unfold ifPresent
  cases member p key with
  | none => exact ⟨fun _ => nofun, fun _ => rfl⟩
  | some v =>
      refine ⟨?_, fun h => h v rfl⟩
      rintro h _ ⟨⟩
      exact h

theorem Checked.string (h : Checked lower p) {key : String} (hkey : key ∈ required) :
    ∃ s, member p key = some (.string s) ∧ s ≠ [] := by
  have hany := h.strings key hkey
  rw [Option.any_eq_true] at hany
  obtain ⟨v, hv, hnonempty⟩ := hany
  cases v with
  | string s => exact ⟨s, hv, bne_iff_ne.1 hnonempty⟩
  | _ => exact absurd hnonempty Bool.false_ne_true

theorem Checked.relative (h : Checked lower p) {key : String}
    (hkey : key ∈ ["workingDirectory", "executable", "runtime"]) {v : JSON}
    (hv : member p key = some v) : relative v = true := by
  have hall := h.inside key hkey
  rw [hv] at hall
  exact hall

theorem Checked.alias_ok (h : Checked lower p) {v : JSON} (hv : member p "caseAliases" = some v) :
    ∃ l, v = .object l ∧ ∀ a ∈ l, checkCaseAlias lower a.1 a.2 = .ok () := by
  have hok := ifPresent_ok.1 h.aliases v hv
  cases v with
  | object l => exact ⟨l, rfl, forM_ok.1 hok⟩
  | _ => cases hok

theorem Checked.library (h : Checked lower p) {v : JSON} (hv : member p "libraries" = some v) :
    (member p "runtime").isSome = true ∧
      ∃ l, v = .array l ∧ l.length ≤ 64 ∧ ∀ path ∈ l, CheckProfile.relative path = true := by
  obtain ⟨_, hruntime, hok⟩ := bind_ok.1 (ifPresent_ok.1 h.libraries v hv)
  cases v with
  | array l =>
      obtain ⟨hlength, hall⟩ := need_ok.1 hok
      exact ⟨need_ok.1 hruntime, l, rfl, hlength, List.all_eq_true.1 hall⟩
  | _ => cases hok

theorem Checked.pool (h : Checked lower p) {v : JSON} (hv : member p "codePool" = some v) :
    (member p "runtime").isSome = true ∧ ∃ n, v = .int n ∧ 1 ≤ n ∧ n ≤ 1024 := by
  obtain ⟨_, hruntime, hok⟩ := bind_ok.1 (ifPresent_ok.1 h.codePool v hv)
  cases v with
  | int n => exact ⟨need_ok.1 hruntime, n, rfl, need_ok.1 hok⟩
  | _ => cases hok

theorem Checked.argument (h : Checked lower p) {v : JSON} (hv : member p "arguments" = some v) :
    ∃ l, v = .array l ∧ l.length ≤ 64 ∧ ∀ x ∈ l, shortText 4096 x = true := by
  obtain ⟨_, hok, -⟩ := bind_ok.1 h.commandLine
  rw [hv, Option.getD_some] at hok
  cases v with
  | array l =>
      obtain ⟨hlength, hall⟩ := need_ok.1 hok
      exact ⟨l, rfl, hlength, List.all_eq_true.1 hall⟩
  | _ => cases hok

theorem Checked.variable_ok (h : Checked lower p) {v : JSON}
    (hv : member p "environment" = some v) :
    ∃ l, v = .object l ∧ l.length ≤ 64 ∧
      ∀ x ∈ l, (isVariableName x.1 = true ∧ x.1.length ≤ 256) ∧ shortText 4096 x.2 = true := by
  obtain ⟨_, -, hok⟩ := bind_ok.1 h.commandLine
  rw [hv, Option.getD_some] at hok
  cases v with
  | object l =>
      obtain ⟨_, hneed, hall⟩ := bind_ok.1 hok
      refine ⟨l, rfl, need_ok.1 hneed, fun x hx => ?_⟩
      obtain ⟨_, hname, hvalue⟩ := bind_ok.1 (forM_ok.1 hall x hx)
      exact ⟨need_ok.1 hname, need_ok.1 hvalue⟩
  | _ => cases hok

/-! ## The launcher on a checked profile -/

theorem any_name_iff (h : Checked lower p) :
    (member p "name").any (fun name => (Launcher.cleanNameValue name).isSome) = true ↔
      ∀ s, member p "name" = some (.string s) → ∃ u ∈ utf16 s, isWhitespace u = false := by
  obtain ⟨s, hs, -⟩ := h.string (show "name" ∈ required by decide)
  have hclean : (cleanName (utf16 s)).isSome = true ↔ ∃ u ∈ utf16 s, isWhitespace u = false := by
    have hnot := not_congr (trimmed_eq_nil (utf16 s))
    simp only [not_forall, Bool.not_eq_true, exists_prop] at hnot
    rw [← hnot, cleanName]
    by_cases hnil : trimmed (utf16 s) = [] <;> simp [hnil]
  rw [hs]
  refine hclean.trans ⟨?_, fun hall => hall s rfl⟩
  rintro hu _ ⟨⟩
  exact hu

theorem any_relative_iff (h : Checked lower p) {key : String} (hkey : key ∈ required)
    (hkey' : key ∈ ["workingDirectory", "executable", "runtime"]) :
    (member p key).any (Launcher.validRelativeValue · false) = true ↔
      ∀ v, member p key = some v → Short v := by
  obtain ⟨s, hs, -⟩ := h.string hkey
  have hvalid := validRelativeValue_iff (h.relative hkey' hs)
  rw [hs]
  refine hvalid.trans ⟨?_, fun hall => hall _ rfl⟩
  rintro hv _ ⟨⟩
  exact hv

theorem all_runtime_iff (h : Checked lower p) :
    (member p "runtime").all (Launcher.validRelativeValue · false) = true ↔
      ∀ v, member p "runtime" = some v → Short v := by
  rw [Option.all_eq_true]
  exact forall_congr' fun v => forall_congr' fun hv =>
    validRelativeValue_iff (h.relative (by decide) hv)

theorem all_arguments_iff (h : Checked lower p) :
    (member p "arguments").all Launcher.validArguments = true ↔
      ∀ l, member p "arguments" = some (.array l) → ∀ v ∈ l, Short v := by
  rw [Option.all_eq_true]
  constructor
  · intro hall l hl v hv
    obtain ⟨_, ⟨⟩, -, htext⟩ := h.argument hl
    have hvalid := hall _ hl
    rw [Launcher.validArguments, Bool.and_eq_true, List.all_eq_true] at hvalid
    exact (validText_iff (htext v hv)).1 (hvalid.2 v hv)
  · intro hall v hv
    obtain ⟨l, rfl, hlength, htext⟩ := h.argument hv
    rw [Launcher.validArguments, Bool.and_eq_true, List.all_eq_true]
    exact ⟨decide_eq_true hlength, fun x hx => (validText_iff (htext x hx)).2 (hall l hv x hx)⟩

theorem all_environment_iff (h : Checked lower p) :
    (member p "environment").all Launcher.validEnvironment = true ↔
      ∀ l, member p "environment" = some (.object l) → ∀ v ∈ l, Short v.2 := by
  rw [Option.all_eq_true]
  constructor
  · intro hall l hl v hv
    obtain ⟨_, ⟨⟩, -, hvariable⟩ := h.variable_ok hl
    have hvalid := hall _ hl
    rw [Launcher.validEnvironment, Bool.and_eq_true, List.all_eq_true] at hvalid
    have hpair := hvalid.2 v hv
    rw [Bool.and_eq_true] at hpair
    exact (validText_iff (hvariable v hv).2).1 hpair.2
  · intro hall v hv
    obtain ⟨l, rfl, hlength, hvariable⟩ := h.variable_ok hv
    rw [Launcher.validEnvironment, Bool.and_eq_true, List.all_eq_true]
    refine ⟨decide_eq_true hlength, fun x hx => ?_⟩
    obtain ⟨hname, htext⟩ := hvariable x hx
    rw [Bool.and_eq_true]
    exact ⟨(validVariable_iff x.1).2 hname, (validText_iff htext).2 (hall l hv x hx)⟩

theorem all_libraries_iff (h : Checked lower p) :
    (member p "libraries").all
        (fun libraries => (member p "runtime").isSome && Launcher.validLibraries libraries) = true ↔
      ∀ l, member p "libraries" = some (.array l) → ∀ v ∈ l, Short v := by
  rw [Option.all_eq_true]
  constructor
  · intro hall l hl v hv
    obtain ⟨-, _, ⟨⟩, -, hpath⟩ := h.library hl
    have hvalid := hall _ hl
    rw [Bool.and_eq_true, Launcher.validLibraries, Bool.and_eq_true, List.all_eq_true] at hvalid
    exact (validRelativeValue_iff (hpath v hv)).1 (hvalid.2.2 v hv)
  · intro hall v hv
    obtain ⟨hruntime, l, rfl, hlength, hpath⟩ := h.library hv
    rw [Bool.and_eq_true, Launcher.validLibraries, Bool.and_eq_true, List.all_eq_true]
    exact ⟨hruntime, decide_eq_true hlength,
      fun x hx => (validRelativeValue_iff (hpath x hx)).2 (hall l hv x hx)⟩

theorem all_codePool (h : Checked lower p) :
    (member p "codePool").all
      (fun size => (member p "runtime").isSome && Launcher.validCodePool f size) = true := by
  rw [Option.all_eq_true]
  intro v hv
  obtain ⟨hruntime, n, rfl, hn⟩ := h.pool hv
  rw [Bool.and_eq_true]
  exact ⟨hruntime, decide_eq_true hn⟩

theorem validCaseAliases_iff (h : Checked lower p) :
    Launcher.validCaseAliases f (member p "caseAliases") = true ↔
      ∀ l, member p "caseAliases" = some (.object l) → ∀ a ∈ l,
        (utf16 a.1).length ≤ 4096 ∧ Short a.2 ∧ ∀ name, a.2 = .string name →
          f.sameIgnoringCase (utf16 name) (utf16 (leafOf a.1)) = true := by
  cases hv : member p "caseAliases" with
  | none => exact ⟨fun _ => nofun, fun _ => rfl⟩
  | some v =>
      obtain ⟨l, rfl, hall⟩ := h.alias_ok hv
      rw [Launcher.validCaseAliases, List.all_eq_true]
      constructor
      · rintro hvalid _ ⟨⟩ a ha
        exact (validCaseAlias_iff (hall a ha)).1 (hvalid a ha)
      · intro hshort a ha
        exact (validCaseAlias_iff (hall a ha)).2 (hshort l rfl a ha)

theorem acceptsProfile_iff (h : Checked lower p) :
    Launcher.acceptsProfile f [] p = true ↔ FitsLauncher f p := by
  obtain ⟨id, hid, hne⟩ := h.string (show "id" ∈ required by decide)
  have hnew : (member p "id").any (Launcher.newId []) = true := by
    rw [hid]
    exact Bool.and_eq_true_iff.2 ⟨bne_iff_ne.2 hne, rfl⟩
  simp only [Launcher.acceptsProfile, Bool.and_eq_true, any_name_iff h, hnew,
    any_relative_iff h (show "workingDirectory" ∈ required by decide) (by decide),
    any_relative_iff h (show "executable" ∈ required by decide) (by decide), all_runtime_iff h,
    all_arguments_iff h, all_environment_iff h, all_libraries_iff h, all_codePool h,
    validCaseAliases_iff h, and_true]
  constructor
  · rintro ⟨⟨⟨⟨⟨⟨⟨hname, hdirectory⟩, hexecutable⟩, haliases⟩, hruntime⟩, harguments⟩,
      henvironment⟩, hlibraries⟩
    exact ⟨hname, hdirectory, hexecutable, hruntime, hlibraries, harguments, henvironment,
      haliases⟩
  · intro hfits
    exact ⟨⟨⟨⟨⟨⟨⟨hfits.name, hfits.workingDirectory⟩, hfits.executable⟩, hfits.aliases⟩,
      hfits.runtime⟩, hfits.arguments⟩, hfits.environment⟩, hfits.libraries⟩

end

end CheckProfile

namespace Launcher

open CheckProfile

/-- The paths of a profile are relative, without empty, dot or dot-dot components. -/
structure SafePaths (p : Members) : Prop where
  workingDirectory : ∃ s, member p "workingDirectory" = some (.string s) ∧ IsRelative s
  executable : ∃ s, member p "executable" = some (.string s) ∧ IsRelative s
  runtime : ∀ v, member p "runtime" = some v → ∃ s, v = .string s ∧ IsRelative s
  libraries : ∀ v, member p "libraries" = some v →
    ∃ l, v = .array l ∧ ∀ path ∈ l, ∃ s, path = .string s ∧ IsRelative s
  aliases : ∀ v, member p "caseAliases" = some v →
    ∃ l, v = .object l ∧ ∀ a ∈ l, IsRelative a.1 ∧ ∃ s, a.2 = .string s ∧ IsRelative s

section

variable {f : Foundation} {p : Members}

theorem isRelative_of_valid {v : JSON} (h : validRelativeValue v false = true) :
    ∃ s, v = .string s ∧ IsRelative s := by
  cases v with
  | string s => exact ⟨s, rfl, (validRelative_utf16.1 h).2⟩
  | _ => exact absurd h Bool.false_ne_true

theorem isRelative_of_alias {path : List Char} {target : JSON}
    (h : validCaseAlias f path target = true) :
    IsRelative path ∧ ∃ s, target = .string s ∧ IsRelative s := by
  cases target with
  | string s =>
      simp only [validCaseAlias, Bool.and_eq_true, validRelative_utf16] at h
      exact ⟨h.1.1.1.1.2, s, rfl, h.1.1.1.2.2⟩
  | _ => exact absurd h Bool.false_ne_true

theorem safePaths_of_accepts {seen : List NSString} (h : acceptsProfile f seen p = true) :
    SafePaths p := by
  simp only [acceptsProfile, Bool.and_eq_true, Option.any_eq_true, Option.all_eq_true] at h
  obtain ⟨⟨⟨⟨⟨⟨⟨⟨⟨-, -⟩, hdirectory⟩, hexecutable⟩, haliases⟩, hruntime⟩, -⟩, -⟩, hlibraries⟩, -⟩ := h
  constructor
  · obtain ⟨v, hv, hvalid⟩ := hdirectory
    obtain ⟨s, rfl, hs⟩ := isRelative_of_valid hvalid
    exact ⟨s, hv, hs⟩
  · obtain ⟨v, hv, hvalid⟩ := hexecutable
    obtain ⟨s, rfl, hs⟩ := isRelative_of_valid hvalid
    exact ⟨s, hv, hs⟩
  · exact fun v hv => isRelative_of_valid (hruntime v hv)
  · intro v hv
    obtain ⟨-, hvalid⟩ := hlibraries v hv
    cases v with
    | array l =>
        rw [validLibraries, Bool.and_eq_true, List.all_eq_true] at hvalid
        exact ⟨l, rfl, fun path hpath => isRelative_of_valid (hvalid.2 path hpath)⟩
    | _ => exact absurd hvalid Bool.false_ne_true
  · intro v hv
    rw [hv] at haliases
    cases v with
    | object l =>
        rw [validCaseAliases, List.all_eq_true] at haliases
        exact ⟨l, rfl, fun a ha => isRelative_of_alias (haliases a ha)⟩
    | _ => exact absurd haliases Bool.false_ne_true

theorem safePaths_profilesLoop {contents : NSString → Option (List UInt8)}
    {names seen : List NSString} (h : p ∈ profilesLoop f contents names seen) : SafePaths p := by
  induction names generalizing seen with
  | nil => cases h
  | cons name names ih =>
      rw [profilesLoop] at h
      split at h
      · split at h
        · split at h
          · rename_i hdata haccepts
            rcases List.mem_cons.1 h with rfl | h
            · exact safePaths_of_accepts haccepts
            · exact ih h
          · exact ih h
        · exact ih h
      · exact ih h

theorem profilesInDirectory_single {file : NSString} (hfile : file.pathExtension = text "json")
    {data : List UInt8} (hlength : data.length ≤ 65536) (hparse : f.parse data = some (.object p)) :
    profilesInDirectory f [file] (fun _ => some data) =
      if acceptsProfile f [] p then [p] else [] := by
  have hne : data ≠ [] := by
    rintro rfl
    rw [f.parse_nil] at hparse
    cases hparse
  have hdocument : profileOf f (some data) = some (.object p) := by
    rw [profileOf, Option.getD_some, if_pos ⟨hne, hlength⟩, hparse]
  rw [profilesInDirectory, List.mergeSort_singleton, profilesLoop, if_pos hfile, hdocument]
  rfl

end

/-- A profile that `check` accepts is found where it stands alone if and only if it fits
the launcher; and whatever is found in a directory stays inside `Documents`. -/
theorem checked_profile_returned_iff (f : Foundation) (lower : List Char → List Char) :
    (∀ (file : NSString) (data : List UInt8) (p : Members), file.pathExtension = text "json" →
      data.length ≤ 65536 → check f.parse lower data = .ok p →
        (profilesInDirectory f [file] (fun _ => some data) = [p] ↔ FitsLauncher f p)) ∧
      ∀ (names : List NSString) (contents : NSString → Option (List UInt8)),
        ∀ p ∈ profilesInDirectory f names contents, SafePaths p := by
  refine ⟨fun file data p hfile hlength hcheck => ?_, fun names contents p hp => ?_⟩
  · obtain ⟨hparse, hchecked⟩ := check_ok hcheck
    rw [profilesInDirectory_single hfile hlength hparse, ← acceptsProfile_iff hchecked]
    by_cases haccepts : acceptsProfile f [] p = true
    · rw [if_pos haccepts]
      exact iff_of_true rfl haccepts
    · rw [if_neg haccepts]
      exact iff_of_false (List.cons_ne_nil _ _).symm haccepts
  · exact safePaths_profilesLoop hp

/-- What the parser makes of one document; letters of a text are compared without case. -/
def oneDocument (data : List UInt8) (p : Members) (hdata : data ≠ []) : Foundation where
  parse d := if d = data then some (.object p) else none
  before _ _ := true
  sameIgnoringCase a b :=
    let folded (s : NSString) := s.map fun u => if 65 ≤ u && u ≤ 90 then u + 32 else u
    folded a == folded b
  integerOfDecimal _ := none
  parse_nil := if_neg hdata.symm

def document (s : String) : List UInt8 := s.toList.map fun c => UInt8.ofNat c.toNat

def named (name : String) : Members :=
  [("id".toList, .string "a".toList), ("name".toList, .string name.toList),
    ("workingDirectory".toList, .string "w".toList), ("executable".toList, .string "e".toList)]

def blankDocument : List UInt8 :=
  document "\x7b\"id\":\"a\",\"name\":\" \",\"workingDirectory\":\"w\",\"executable\":\"e\"\x7d"

/-- A profile with every optional key that the launcher reads. -/
def optionalProfile : Members :=
  named "A" ++
    [("runtime".toList, .string "r/x".toList),
      ("arguments".toList, .array [.string "-w".toList]),
      ("environment".toList, .object [("K_1".toList, .string "v".toList)]),
      ("libraries".toList, .array [.string "l.dylib".toList]), ("codePool".toList, .int 16),
      ("caseAliases".toList, .object [("d/Data".toList, .string "data".toList)])]

def optionalDocument : List UInt8 :=
  ["\x7b\"id\":\"a\",\"name\":\"A\",", "\"workingDirectory\":\"w\",", "\"executable\":\"e\",",
    "\"runtime\":\"r/x\",\"arguments\":[\"-w\"],", "\"environment\":\x7b\"K_1\":\"v\"\x7d,",
    "\"libraries\":[\"l.dylib\"],\"codePool\":16,",
    "\"caseAliases\":\x7b\"d/Data\":\"data\"\x7d\x7d"].flatMap document

theorem optionalDocument_length :
    0 < optionalDocument.length ∧ optionalDocument.length ≤ 65536 := by decide +kernel

def optionalFoundation : Foundation :=
  oneDocument optionalDocument optionalProfile
    (List.ne_nil_of_length_pos optionalDocument_length.1)

theorem blank_parsed (lower : List Char → List Char) :
    check (oneDocument blankDocument (named " ") (by decide)).parse lower blankDocument =
      .ok (named " ") := by
  rw [check, oneDocument]
  dsimp only
  rw [if_pos rfl]
  rfl

/-- A name of a space is a name for the check and none for the launcher. -/
theorem checked_blank_not_returned :
    check (oneDocument blankDocument (named " ") (by decide)).parse id blankDocument =
        .ok (named " ") ∧
      profilesInDirectory (oneDocument blankDocument (named " ") (by decide)) [text "a.json"]
        (fun _ => some blankDocument) ≠ [named " "] := by
  refine ⟨blank_parsed id, ?_⟩
  rw [profilesInDirectory_single (by decide) (by decide) (check_ok (blank_parsed id)).1,
    if_neg (by decide)]
  exact (List.cons_ne_nil _ _).symm

theorem checked_profile_returned_optional :
    FitsLauncher optionalFoundation optionalProfile ∧ SafePaths optionalProfile := by
  have hcheck : check optionalFoundation.parse (List.map Char.toLower) optionalDocument =
      .ok optionalProfile := by
    rw [check, optionalFoundation, oneDocument]
    dsimp only
    rw [if_pos rfl]
    rfl
  have hfound : profilesInDirectory optionalFoundation [text "a.json"]
      (fun _ => some optionalDocument) = [optionalProfile] := by
    rw [profilesInDirectory_single (by decide) optionalDocument_length.2 (check_ok hcheck).1,
      if_pos (by decide)]
  have hiff := checked_profile_returned_iff optionalFoundation (List.map Char.toLower)
  refine ⟨(hiff.1 (text "a.json") optionalDocument optionalProfile (by decide)
    optionalDocument_length.2 hcheck).1 hfound, hiff.2 [text "a.json"]
      (fun _ => some optionalDocument) _ ?_⟩
  rw [hfound]
  exact List.mem_singleton_self _

end Launcher

end Tolkara
