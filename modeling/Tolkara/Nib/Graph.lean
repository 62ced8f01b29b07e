import Tolkara.Nib.Agreement

/-!
# What the reader at run time accepts

The graph has as many objects as the header says, every reference of it names one of them, and
every class and key is text that stands in the archive.
-/

namespace Tolkara

open Library

namespace Nib

variable {τ α : Type} {decode : List UInt8 → Option τ} {data : List UInt8} {c : AKNibCursor}
  {heap : ℕ → Bool}

/-! ## The cursor keeps its bytes -/

@[simp] theorem fail_bytes : c.fail.bytes = c.bytes := rfl

theorem nibVarintLoop_bytes {left shift value : ℕ} :
    (nibVarintLoop left shift c value).2.bytes = c.bytes := by
  induction left generalizing shift value c with
  | zero => rfl
  | succ left ih =>
      rw [nibVarintLoop]
      split
      · rfl
      · dsimp only
        split
        · rfl
        · rw [ih]

@[simp] theorem nibVarint_bytes : (nibVarint c).2.bytes = c.bytes := nibVarintLoop_bytes

@[simp] theorem nibData_bytes : (nibData heap c).2.bytes = c.bytes := by
  rw [nibData]
  split_ifs <;> simp

@[simp] theorem nibValue_bytes : (nibValue heap c).2.bytes = c.bytes := by
  rw [nibValue]
  split
  · rfl
  · dsimp only
    split_ifs <;> simp

@[simp] theorem nibString_bytes {length : ℕ} :
    (nibString decode c length).2.bytes = c.bytes := by
  rw [nibString]
  split
  · rfl
  · dsimp only
    split <;> rfl

/-! ## Entries -/

/-- Text that a stretch of the archive stands for. -/
def Stands (decode : List UInt8 → Option τ) (data : List UInt8) (text : τ) : Prop :=
  ∃ start size, decode ((data.drop start).take size) = some text

/-- What a reader of entries gives satisfies `P`, and it keeps the bytes. -/
def Yields (data : List UInt8) (entry : AKNibCursor → Option α × AKNibCursor) (P : α → Prop) :
    Prop :=
  ∀ c, c.bytes = data → (entry c).2.bytes = data ∧ ∀ x, (entry c).1 = some x → P x

theorem nibString_stands {length : ℕ} {text : τ} (hbytes : c.bytes = data)
    (h : (nibString decode c length).1 = some text) : Stands decode data text := by
  rw [nibString] at h
  split at h
  · cases h
  · dsimp only at h
    split at h
    · rename_i text' hdecode
      cases h
      rw [hbytes] at hdecode
      exact ⟨_, _, hdecode⟩
    · cases h

theorem objectEntry_yields : Yields data objectEntry fun _ => True :=
  fun c hbytes => ⟨by simp [objectEntry, hbytes], fun _ _ => trivial⟩

theorem keyEntry_yields : Yields data (keyEntry decode) (Stands decode data) := by
  intro c hbytes
  refine ⟨by simp [keyEntry, hbytes], fun x h => nibString_stands ?_ h⟩
  rw [nibVarint_bytes, hbytes]

theorem classEntry_yields : Yields data (classEntry decode) (Stands decode data) := by
  intro c hbytes
  rw [classEntry]
  split
  · refine ⟨by simp [hbytes], fun x h => ?_⟩
    cases h
  · refine ⟨by simp [hbytes], fun x h => nibString_stands ?_ h⟩
    simp [hbytes]

/-! ## Tables -/

theorem tableLoop_spec {entry : AKNibCursor → Option α × AKNibCursor} {P : α → Prop}
    (hentry : Yields data entry P) {left : ℕ} {done table : List α} (hbytes : c.bytes = data)
    (h : tableLoop entry left c done = some table) (hdone : ∀ x ∈ done, P x) :
    table.length = done.length + left ∧ ∀ x ∈ table, P x := by
  induction left generalizing c done with
  | zero =>
      cases h
      exact ⟨rfl, hdone⟩
  | succ left ih =>
      rw [tableLoop] at h
      obtain ⟨hnext, hP⟩ := hentry c hbytes
      split at h
      · rename_i x c' hx
        rw [hx] at hnext hP
        split at h
        · cases h
        · have hall : ∀ y ∈ done ++ [x], P y := by
            intro y hy
            rcases List.mem_append.1 hy with hy | hy
            · exact hdone y hy
            · rw [List.mem_singleton.1 hy]
              exact hP x rfl
          obtain ⟨hlength, hforall⟩ := ih hnext h hall
          rw [List.length_append, List.length_singleton] at hlength
          exact ⟨by omega, hforall⟩
      · cases h

theorem readTable_spec {entry : AKNibCursor → Option α × AKNibCursor} {P : α → Prop}
    (hentry : Yields data entry P) {kind : ℕ} {table : List α}
    (h : readTable data kind entry = some table) :
    table.length = header data (2 + kind * 2) ∧ table.length ≤ 100000 ∧ ∀ x ∈ table, P x := by
  rw [readTable] at h
  split at h
  · cases h
  · rename_i hcount
    obtain ⟨hlength, hforall⟩ := tableLoop_spec hentry rfl h (by simp)
    rw [List.length_nil, Nat.zero_add] at hlength
    exact ⟨hlength, by omega, hforall⟩

/-! ## The graph -/

section Graph

variable {keys classes : List τ} {values : List (ℕ × NibValue)} {objectCount : ℕ}

/-- A field whose key stands in the archive and whose reference names an object. -/
def FieldFits (keys : List τ) (objectCount : ℕ) (field : τ × NibValue) : Prop :=
  field.1 ∈ keys ∧ ∀ index, field.2 = .ref index → index < objectCount

theorem dangles_eq_false {value : NibValue} (h : dangles value objectCount = false) {index : ℕ}
    (href : value = .ref index) : index < objectCount := by
  subst href
  exact Nat.lt_of_not_le (of_decide_eq_false h)

theorem fieldLoop_fits {left i : ℕ} {done fields : List (τ × NibValue)}
    (h : fieldLoop keys values objectCount left i done = some fields)
    (hdone : ∀ field ∈ done, FieldFits keys objectCount field) :
    ∀ field ∈ fields, FieldFits keys objectCount field := by
  induction left generalizing i done with
  | zero =>
      cases h
      exact hdone
  | succ left ih =>
      rw [fieldLoop] at h
      obtain ⟨pair, -, h⟩ := Option.bind_eq_some_iff.1 h
      obtain ⟨key, hkey, h⟩ := Option.bind_eq_some_iff.1 h
      cases hdangles : dangles pair.2 objectCount with
      | true =>
          rw [if_pos hdangles] at h
          cases h
      | false =>
          rw [if_neg (by rw [hdangles]; exact Bool.false_ne_true)] at h
          refine ih h fun field hfield => ?_
          rcases List.mem_append.1 hfield with hfield | hfield
          · exact hdone field hfield
          · rw [List.mem_singleton.1 hfield]
            exact ⟨List.mem_of_getElem? hkey, fun _ => dangles_eq_false hdangles⟩

theorem resolveObject_fits {entry : ℕ × ℕ × ℕ} {object : NibObject τ}
    (h : resolveObject keys values classes objectCount entry = some object) :
    object.cls ∈ classes ∧ ∀ field ∈ object.values, FieldFits keys objectCount field := by
  rw [resolveObject] at h
  obtain ⟨cls, hcls, h⟩ := Option.bind_eq_some_iff.1 h
  split at h
  · cases h
  · obtain ⟨fields, hfields, h⟩ := Option.bind_eq_some_iff.1 h
    cases h
    exact ⟨List.mem_of_getElem? hcls, fieldLoop_fits hfields (by simp)⟩

end Graph

theorem mapM_spec {β : Type} {f : α → Option β} {P : β → Prop}
    (hf : ∀ a b, f a = some b → P b) {l : List α} {bs : List β} (h : l.mapM f = some bs) :
    bs.length = l.length ∧ ∀ b ∈ bs, P b := by
  induction l generalizing bs with
  | nil =>
      cases h
      exact ⟨rfl, by simp⟩
  | cons a l ih =>
      rw [List.mapM_cons] at h
      obtain ⟨b, hb, h⟩ := Option.bind_eq_some_iff.1 h
      obtain ⟨rest, hrest, h⟩ := Option.bind_eq_some_iff.1 h
      cases h
      obtain ⟨hlength, hforall⟩ := ih hrest
      exact ⟨congrArg (· + 1) hlength, List.forall_mem_cons.2 ⟨hf a b hb, hforall⟩⟩

/-- The graph of an archive is closed: as many objects as the header says, every reference names
one of them, and every class and key stands in the archive. -/
theorem akReadNibArchive_closed {graph : List (NibObject τ)}
    (h : akReadNibArchive heap decode data = some graph) :
    graph.length = header data 2 ∧ graph.length ≤ 100000 ∧
      ∀ object ∈ graph, Stands decode data object.cls ∧
        ∀ field ∈ object.values, Stands decode data field.1 ∧
          ∀ index, field.2 = .ref index → index < graph.length := by
  rw [akReadNibArchive] at h
  split at h
  · cases h
  split at h
  · cases h
  obtain ⟨objects, hobjects, h⟩ := Option.bind_eq_some_iff.1 h
  obtain ⟨keys, hkeys, h⟩ := Option.bind_eq_some_iff.1 h
  obtain ⟨values, -, h⟩ := Option.bind_eq_some_iff.1 h
  obtain ⟨classes, hclasses, h⟩ := Option.bind_eq_some_iff.1 h
  obtain ⟨hcount, hbound, -⟩ := readTable_spec objectEntry_yields hobjects
  obtain ⟨-, -, hkeysStand⟩ := readTable_spec keyEntry_yields hkeys
  obtain ⟨-, -, hclassesStand⟩ := readTable_spec classEntry_yields hclasses
  obtain ⟨hlength, hfits⟩ := mapM_spec (fun _ _ => resolveObject_fits) h
  refine ⟨hlength.trans hcount, hlength.trans_le hbound, fun object hobject => ?_⟩
  obtain ⟨hcls, hfields⟩ := hfits object hobject
  refine ⟨hclassesStand _ hcls, fun field hfield => ?_⟩
  obtain ⟨hkey, href⟩ := hfields field hfield
  exact ⟨hkeysStand _ hkey, fun index hindex => hlength ▸ href index hindex⟩

theorem akReadNibArchive_closed_self :
    Stands some selfArchive [78] ∧ Stands some selfArchive [107] := by
  have hread : akReadNibArchive (fun _ => true) some selfArchive =
      some [⟨[78], [([107], .ref 0)]⟩] := by
    decide
  obtain ⟨-, -, hgraph⟩ := akReadNibArchive_closed hread
  obtain ⟨hcls, hfields⟩ := hgraph _ (List.mem_singleton_self _)
  exact ⟨hcls, (hfields _ (List.mem_singleton_self _)).1⟩

end Nib

end Tolkara
