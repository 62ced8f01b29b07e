import Tolkara.Image.FileCommands
import Tolkara.Memory.DenseFlat

/-!
# Guest memory after loading

What an image that `load` accepts looks like. The memory shows the segments as the file
has them and nothing else (`Mirrors`), the segments lie apart and within the budget,
and the addresses and ranges the image records are what they are taken for (`Faithful`).
-/

namespace Tolkara

open Library

/-! ## One segment -/

namespace GuestMemory

theorem map_ok {m m' : GuestMemory} (hm : m.Wf) {a n : ℕ} {prot maxprot : Prot}
    (h : gmMap (fun _ => true) m a n prot maxprot false false = (.ok, m')) :
    m'.Wf ∧ PageRange a n ∧
      m'.flat = {
        perm := fun k => if Flat.InPages a n k then some (prot, maxprot) else m.flat.perm k
        byte := fun x => if a ≤ x ∧ x < a + n then 0 else m.flat.byte x } := by
  obtain ⟨hresult, hwf, hflat⟩ := map_flat hm a n prot maxprot false
  rw [h] at hresult hwf hflat
  dsimp only at hresult hwf hflat
  unfold Flat.map at hresult hflat
  split at hresult
  · cases hresult
  · rename_i hrange
    split at hresult
    · cases hresult
    · rename_i hfree
      rw [if_neg hrange, if_neg hfree] at hflat
      exact ⟨hwf, (not_not.1 hrange).1, hflat⟩

/-- A copy into mapped memory that succeeds. -/
theorem populate_ok {m m' : GuestMemory} (hm : m.Wf) {a n : ℕ} {buffer : Buffer}
    (h : gmPopulate (fun _ => true) m a (some buffer) n = (.ok, m')) :
    m'.Wf ∧ m'.flat = { m.flat with
      byte := fun x => if a ≤ x ∧ x < a + n then buffer (x - a) else m.flat.byte x } := by
  obtain ⟨r, m₁, heq, hwf, hcases⟩ := copy_write hm (fun _ => true) none a (some buffer) n 0#32
  rw [gmPopulate, heq, Prod.mk.injEq] at h
  obtain ⟨hr, rfl⟩ := h
  refine ⟨hwf, ?_⟩
  rcases hcases with ⟨hsame, hbad, hr'⟩ | ⟨-, -, -, ⟨hnull, -⟩ | ⟨hnomem, -⟩⟩ |
    ⟨b, hb, -, hok, -, hw⟩
  · have h0 : n = 0 := hbad.resolve_left fun hne => hne (hr'.symm.trans hr)
    rw [flat_of_viewAt hsame.views]
    have hbyte : (fun x => if a ≤ x ∧ x < a + n then buffer (x - a) else m.flat.byte x) =
        m.flat.byte := by
      funext x
      rw [if_neg (by omega)]
    rw [hbyte]
  · cases hnull
  · rw [hnomem] at hr
    cases hr
  · cases hb
    exact hw.flat hok

end GuestMemory

theorem populateLoop_flat {read : Reader} {content : ℕ → UInt8} (hread : read.Gives content)
    {s : GISegment} {rounds off : ℕ} (hrounds : s.fileSize ≤ off + rounds)
    {memory memory' : GuestMemory} (hwf : memory.Wf)
    (h : populateLoop read s rounds off memory = .ok memory') :
    memory'.Wf ∧ memory'.flat.perm = memory.flat.perm ∧
      ∀ x, memory'.flat.byte x =
        if s.address + off ≤ x ∧ x < s.address + s.fileSize then
          content (s.fileOffset + (x - s.address)) else memory.flat.byte x := by
  induction rounds generalizing off memory with
  | zero =>
      cases h
      refine ⟨hwf, rfl, fun x => ?_⟩
      rw [if_neg (by omega)]
  | succ rounds ih =>
      rw [populateLoop] at h
      split at h
      · dsimp only at h
        split at h
        · cases h
        · rename_i buffer hbuffer
          split at h
          · rename_i m₁ hpopulate
            obtain ⟨hwf₁, hflat₁⟩ := GuestMemory.populate_ok hwf hpopulate
            obtain ⟨hwf', hperm', hbyte'⟩ := ih (by omega) hwf₁ h
            rw [hflat₁] at hperm' hbyte'
            refine ⟨hwf', hperm', fun x => ?_⟩
            rw [hbyte' x]
            by_cases hlater : s.address + (off + min 65536 (s.fileSize - off)) ≤ x ∧
                x < s.address + s.fileSize
            · rw [if_pos hlater, if_pos (by omega)]
            rw [if_neg hlater]
            dsimp only
            by_cases hnow : s.address + off ≤ x ∧
                x < s.address + off + min 65536 (s.fileSize - off)
            · rw [if_pos hnow, if_pos (by omega), hread _ _ _ hbuffer _ (by omega)]
              congr 1
              omega
            · rw [if_neg hnow, if_neg (by omega)]
          · cases h
      · cases h
        refine ⟨hwf, rfl, fun x => ?_⟩
        rw [if_neg (by omega)]

/-! ## All segments -/

/-- The memory of a mapped segment: the bytes of the file and then zeros, with the segment's
permissions. -/
def Shows (memory : Flat) (content : ℕ → UInt8) (s : GISegment) : Prop :=
  ∀ x, s.address ≤ x → x < s.address + s.size →
    memory.perm (x / pageSize) = some (s.prot, s.maxprot) ∧
      memory.byte x =
        if x < s.address + s.fileSize then content (s.fileOffset + (x - s.address)) else 0

/-- The memory shows these segments and nothing else. -/
structure Mirrors (content : ℕ → UInt8) (segments : List GISegment) (memory : GuestMemory) :
    Prop where
  wf : memory.Wf
  shown : ∀ s ∈ segments, s.Mapped → Shows memory.flat content s
  only : ∀ x, memory.flat.perm (x / pageSize) ≠ none →
    ∃ s ∈ segments, s.Mapped ∧ s.address ≤ x ∧ x < s.address + s.size

/-- Two segments do not overlap. -/
def GISegment.Apart (s t : GISegment) : Prop :=
  s.size = 0 ∨ t.size = 0 ∨ s.address + s.size ≤ t.address ∨ t.address + t.size ≤ s.address

theorem Mirrors.skip {content : ℕ → UInt8} {segments : List GISegment} {memory : GuestMemory}
    (h : Mirrors content segments memory) {s : GISegment} (hs : ¬ s.Mapped) :
    Mirrors content (segments ++ [s]) memory where
  wf := h.wf
  shown := by
    intro t ht hmapped
    rcases List.mem_append.1 ht with hold | hnew
    · exact h.shown t hold hmapped
    · rw [List.mem_singleton.1 hnew] at hmapped
      exact absurd hmapped hs
  only := by
    intro x hx
    obtain ⟨t, ht, hrest⟩ := h.only x hx
    exact ⟨t, List.mem_append_left _ ht, hrest⟩

theorem Mirrors.add {read : Reader} {content : ℕ → UInt8} (hread : read.Gives content)
    {segments : List GISegment} {memory m₁ m₂ : GuestMemory}
    (h : Mirrors content segments memory) {s : GISegment} (hs : s.Mapped) (hchecked : s.Checked)
    (hapart : ∀ t ∈ segments, GISegment.Apart t s)
    (hmap : GuestMemory.gmMap (fun _ => true) memory s.address s.size s.prot s.maxprot false false =
      (.ok, m₁))
    (hfill : populateLoop read s s.fileSize 0 m₁ = .ok m₂) :
    Mirrors content (segments ++ [s]) m₂ := by
  obtain ⟨hwf₁, hrange, hflat₁⟩ := GuestMemory.map_ok h.wf hmap
  obtain ⟨hwf₂, hperm₂, hbyte₂⟩ := populateLoop_flat hread (by omega) hwf₁ hfill
  have hfilled := hchecked.filled
  have hin : ∀ x, Flat.InPages s.address s.size (x / pageSize) ↔
      s.address ≤ x ∧ x < s.address + s.size :=
    fun x => Flat.div_pageSize_of_inPages hchecked.aligned.1 hchecked.aligned.2
  have hperm : ∀ x, m₂.flat.perm (x / pageSize) =
      if s.address ≤ x ∧ x < s.address + s.size then some (s.prot, s.maxprot)
      else memory.flat.perm (x / pageSize) := by
    intro x
    rw [hperm₂, hflat₁]
    simp only [hin x]
  have hbyte : ∀ x, m₂.flat.byte x =
      if s.address ≤ x ∧ x < s.address + s.fileSize then
        content (s.fileOffset + (x - s.address))
      else if s.address ≤ x ∧ x < s.address + s.size then 0 else memory.flat.byte x := by
    intro x
    rw [hbyte₂, hflat₁]
    rfl
  refine ⟨hwf₂, ?_, ?_⟩
  · intro t ht hmapped x h1 h2
    rcases List.mem_append.1 ht with hold | hnew
    · -- The new segment is somewhere else.
      have hout : ¬ (s.address ≤ x ∧ x < s.address + s.size) := by
        rcases hapart t hold with h0 | h0 | hle | hle
        · exact absurd h0 hmapped.1
        · exact absurd h0 hs.1
        · omega
        · omega
      rw [hperm, if_neg hout, hbyte, if_neg (by omega), if_neg hout]
      exact h.shown t hold hmapped x h1 h2
    · rw [List.mem_singleton.1 hnew] at h1 h2 ⊢
      rw [hperm, if_pos ⟨h1, h2⟩, hbyte]
      refine ⟨rfl, ?_⟩
      by_cases hfile : x < s.address + s.fileSize
      · rw [if_pos ⟨h1, hfile⟩, if_pos hfile]
      · rw [if_neg (fun h => hfile h.2), if_pos ⟨h1, h2⟩, if_neg hfile]
  · intro x hx
    rw [hperm] at hx
    split at hx
    · rename_i hin'
      exact ⟨s, List.mem_append_right _ (List.mem_singleton_self _), hs, hin'⟩
    · obtain ⟨t, ht, hrest⟩ := h.only x hx
      exact ⟨t, List.mem_append_left _ ht, hrest⟩

theorem mappedTotal_cons (size : GISegment → ℕ) (s : GISegment) (rest : List GISegment) :
    mappedTotal size (s :: rest) =
      (if s.size ≠ 0 ∧ s.name ≠ pageZero then size s else 0) + mappedTotal size rest := by
  unfold mappedTotal
  rw [List.filter_cons]
  simp only [decide_eq_true_eq]
  split
  · rw [List.map_cons, List.sum_cons]
  · rw [Nat.zero_add]

theorem mapLoop_mirrors {kind : ImageKind} {read : Reader} {content : ℕ → UInt8}
    (hread : read.Gives content) {rest earlier : List GISegment} {memory memory' : GuestMemory}
    {mapped : ℕ} (hchecked : ∀ s ∈ rest, s.Checked) (hmirrors : Mirrors content earlier memory)
    (hapart : earlier.Pairwise GISegment.Apart) (hbudget : mapped ≤ 2147483648)
    (h : mapLoop kind read earlier rest memory mapped = .ok memory') :
    Mirrors content (earlier ++ rest) memory' ∧ (earlier ++ rest).Pairwise GISegment.Apart ∧
      mapped + mappedTotal GISegment.size rest ≤ 2147483648 := by
  induction rest generalizing earlier memory mapped with
  | nil =>
      cases h
      rw [List.append_nil]
      exact ⟨hmirrors, hapart, hbudget⟩
  | cons s rest ih =>
      have hrest : ∀ t ∈ rest, t.Checked := fun t ht => hchecked t (List.mem_cons_of_mem _ ht)
      have hbounded := (hchecked s List.mem_cons_self).bounded
      rw [List.append_cons, mappedTotal_cons]
      rw [mapLoop] at h
      split at h
      · cases h
      · rename_i hoverlap
        have hapart' : ∀ t ∈ earlier, GISegment.Apart t s := by
          intro t ht
          rw [List.any_eq_true, not_exists] at hoverlap
          have := hoverlap t
          simp only [ht, true_and, decide_eq_true_eq] at this
          unfold GISegment.Apart
          omega
        have hpair : (earlier ++ [s]).Pairwise GISegment.Apart := by
          rw [List.pairwise_append]
          refine ⟨hapart, List.pairwise_singleton _ _, ?_⟩
          intro t ht u hu
          rw [List.mem_singleton.1 hu]
          exact hapart' t ht
        have hskip : ∀ {m : GuestMemory}, ¬ s.Mapped → Mirrors content earlier m →
            mapLoop kind read (earlier ++ [s]) rest m mapped = .ok memory' →
            Mirrors content (earlier ++ [s] ++ rest) memory' ∧
              (earlier ++ [s] ++ rest).Pairwise GISegment.Apart ∧
              mapped + ((if s.size ≠ 0 ∧ s.name ≠ pageZero then s.size else 0) +
                mappedTotal GISegment.size rest) ≤ 2147483648 := by
          intro m hs hm hloop
          have hs' : ¬ (s.size ≠ 0 ∧ s.name ≠ pageZero) := hs
          rw [if_neg hs', Nat.zero_add]
          exact ih hrest (hm.skip hs) hpair hbudget hloop
        split at h
        · rename_i hzero
          split at h
          · cases h
          · exact hskip (fun hs => hs.2 hzero) hmirrors h
        · rename_i hname
          split at h
          · rename_i hempty
            exact hskip (fun hs => hs.1 hempty) hmirrors h
          · rename_i hempty
            split at h
            · cases h
            · rename_i hfits
              simp only [not_or, not_lt] at hfits
              split at h
              · rename_i m₁ hmap
                split at h
                · cases h
                · rename_i m₂ hfill
                  rw [if_pos ⟨hempty, hname⟩, ← Nat.add_assoc]
                  exact ih hrest (hmirrors.add hread ⟨hempty, hname⟩
                    (hchecked s List.mem_cons_self) hapart' hmap hfill) hpair (by omega) h
              · cases h

/-! ## Addresses -/

/-- A word of an instruction in these bytes of an executable segment. -/
def ExecutableAt (segments : List GISegment) (size : GISegment → ℕ) (a : ℕ) : Prop :=
  a % 4 = 0 ∧ ∃ s ∈ segments, s.Mapped ∧ s.prot &&& GM.EXEC ≠ 0#32 ∧ s.address ≤ a ∧
    a + 4 ≤ s.address + size s

theorem GuestMemory.gmRead_memory {m : GuestMemory} (hm : m.Wf) (a : ℕ) (buffer : Buffer) (n : ℕ) :
    ∃ f, (m.gmRead a (some buffer) n).2.1 = { m with faultAddress := f } := by
  obtain ⟨f, heq⟩ := copy_read hm (fun _ => true) none a buffer n GM.READ
  exact ⟨f, by rw [gmRead, heq]⟩

theorem GuestMemory.gmFetch_memory {m : GuestMemory} (hm : m.Wf) (a : ℕ) :
    ∃ f, (m.gmFetch none a).2.1 = { m with faultAddress := f } := by
  unfold gmFetch
  split
  · exact ⟨a, rfl⟩
  · obtain ⟨f, heq⟩ := copy_read hm (fun _ => true) none a (fun _ => 0) 4 GM.EXEC
    exact ⟨f, by rw [heq]⟩

namespace Mirrors

variable {content : ℕ → UInt8} {segments : List GISegment} {memory : GuestMemory}

theorem fault (h : Mirrors content segments memory) (f : ℕ) :
    Mirrors content segments { memory with faultAddress := f } where
  wf := ⟨h.wf.sorted, h.wf.aligned, h.wf.bounded⟩
  shown := h.shown
  only := h.only

theorem gmRead (h : Mirrors content segments memory) (a : ℕ) (buffer : Buffer) (n : ℕ) :
    Mirrors content segments (memory.gmRead a (some buffer) n).2.1 := by
  obtain ⟨f, heq⟩ := GuestMemory.gmRead_memory h.wf a buffer n
  rw [heq]
  exact h.fault f

theorem gmFetch (h : Mirrors content segments memory) (a : ℕ) :
    Mirrors content segments (memory.gmFetch none a).2.1 := by
  obtain ⟨f, heq⟩ := GuestMemory.gmFetch_memory h.wf a
  rw [heq]
  exact h.fault f

theorem executableAt (h : Mirrors content segments memory)
    (hchecked : ∀ s ∈ segments, s.Checked) {a : ℕ} (hfetch : (memory.gmFetch none a).1 = .ok) :
    ExecutableAt segments GISegment.size a := by
  unfold GuestMemory.gmFetch at hfetch
  split at hfetch
  · cases hfetch
  · rename_i haligned
    rw [not_not] at haligned
    obtain ⟨f, heq⟩ := GuestMemory.copy_read h.wf (fun _ => true) none a (fun _ => 0) 4 GM.EXEC
    rw [heq] at hfetch
    obtain ⟨v, hv, hallowed⟩ := GuestMemory.exists_view_of_answer hfetch le_rfl (by omega)
    have hperm : memory.flat.perm (a / pageSize) = some (GuestMemory.viewPerm v) := by
      change (memory.look _).map _ = _
      rw [GuestMemory.look_div, hv]
      rfl
    obtain ⟨s, hs, hmapped, h1, h2⟩ := h.only a (by rw [hperm]; nofun)
    have hprot := (h.shown s hs hmapped a h1 h2).1
    rw [hperm, Option.some.injEq] at hprot
    have hexec : s.prot &&& GM.EXEC = GM.EXEC := by
      have hfst : (GuestMemory.viewPerm v).1 = s.prot := by rw [hprot]
      rw [← hfst]
      simpa [GuestMemory.deniedView, GuestMemory.denied, GuestMemory.viewPerm] using hallowed
    refine ⟨haligned, s, hs, hmapped, ?_, h1, ?_⟩
    · rw [hexec]
      decide
    · -- The end of the segment is a multiple of four, too.
      have halign := (hchecked s hs).aligned
      unfold pageSize at halign
      omega

theorem pages (h : Mirrors content segments memory) (hchecked : ∀ s ∈ segments, s.Checked)
    {p : GMPage} (hp : p ∈ memory.pages) :
    ∃ s ∈ segments, s.Mapped ∧ s.address ≤ p.address ∧
      p.address + pageSize ≤ s.address + s.size := by
  have hpage := h.wf.aligned p hp
  have hperm : memory.flat.perm (p.address / pageSize) ≠ none := by
    rw [Ne, GuestMemory.perm_eq_none, Nat.div_mul_cancel (Nat.dvd_of_mod_eq_zero hpage),
      GuestMemory.pageAt_of_mem h.wf.sorted hp]
    nofun
  obtain ⟨s, hs, hmapped, h1, h2⟩ := h.only p.address hperm
  have halign := (hchecked s hs).aligned
  refine ⟨s, hs, hmapped, h1, ?_⟩
  unfold pageSize at *
  omega

theorem byte_eq (h : Mirrors content segments memory) {s : GISegment} (hs : s ∈ segments)
    (hmapped : s.Mapped) (hfilled : s.fileSize ≤ s.size) {i : ℕ} (hi : i < s.fileSize) :
    memory.flat.perm ((s.address + i) / pageSize) = some (s.prot, s.maxprot) ∧
      memory.flat.byte (s.address + i) = content (s.fileOffset + i) := by
  obtain ⟨hperm, hbyte⟩ := h.shown s hs hmapped (s.address + i) (by omega) (by omega)
  rw [if_pos (by omega), Nat.add_sub_cancel_left] at hbyte
  exact ⟨hperm, hbyte⟩

end Mirrors

theorem findEntry_executableAt {segments : List GISegment} {entryOffset : Option ℕ} {entry : ℕ}
    (hchecked : ∀ s ∈ segments, s.Checked)
    (hzero : ∀ s ∈ segments, s.name = pageZero → s.maxprot = 0#32)
    (hsome : entryOffset.isSome) (h : findEntry segments entryOffset = .ok entry) :
    ExecutableAt segments GISegment.fileSize entry := by
  cases entryOffset with
  | none => cases hsome
  | some offset =>
      simp only [findEntry, bind_ok, need_ok, obtained_ok, exists_const] at h
      obtain ⟨s, hfind, haligned, h⟩ := h
      cases h
      have hs := List.mem_of_find?_eq_some hfind
      have hchosen := List.find?_some hfind
      simp only [decide_eq_true_eq] at hchosen
      obtain ⟨hexec, hle, hwithin⟩ := hchosen
      rw [isWithin_iff] at hwithin
      have hfilled := (hchecked s hs).filled
      refine ⟨haligned, s, hs, ⟨by omega, fun hname => ?_⟩, hexec, by omega, by omega⟩
      rw [(hchecked s hs).prot_eq_zero (hzero s hs hname), BitVec.zero_and] at hexec
      exact hexec rfl

section Initializers

variable {content : ℕ → UInt8} {segments : List GISegment} {memory memory' : GuestMemory}

theorem initializerLoop_spec (hchecked : ∀ s ∈ segments, s.Checked)
    {header address left i : ℕ} {found found' : List ℕ}
    (hmirrors : Mirrors content segments memory)
    (hfound : ∀ a ∈ found, ExecutableAt segments GISegment.size a)
    (h : initializerLoop header address left i memory found = .ok (memory', found')) :
    Mirrors content segments memory' ∧ found'.length = found.length + left ∧
      ∀ a ∈ found', ExecutableAt segments GISegment.size a := by
  induction left generalizing i memory found with
  | zero =>
      cases h
      exact ⟨hmirrors, rfl, hfound⟩
  | succ left ih =>
      simp only [initializerLoop, bind_ok, need_ok, exists_const] at h
      obtain ⟨-, hfetch, h⟩ := h
      have hread := hmirrors.gmRead (address + i * 4) (fun _ => 0) 4
      have hfound' := List.forall_mem_append.2
        ⟨hfound, List.forall_mem_singleton.2 (hread.executableAt hchecked hfetch)⟩
      obtain ⟨hmirrors', hlength, hall⟩ := ih (hread.gmFetch _) hfound' h
      rw [List.length_append, List.length_singleton] at hlength
      exact ⟨hmirrors', by omega, hall⟩

theorem firstPointer_spec {x : InitSection} {first : ℕ}
    (hmirrors : Mirrors content segments memory)
    (h : firstPointer x memory = .ok (memory', first)) : Mirrors content segments memory' := by
  unfold firstPointer at h
  split at h
  · cases h
    exact hmirrors
  · simp only [bind_ok, need_ok, exists_const] at h
    obtain ⟨-, h⟩ := h
    cases h
    exact hmirrors.gmRead _ _ _

theorem readInitializers_spec (hchecked : ∀ s ∈ segments, s.Checked) {header : ℕ}
    {section_ : Option InitSection} {chained : Bool} {x : Initializers}
    (hmirrors : Mirrors content segments memory)
    (h : readInitializers header section_ chained memory = .ok (memory', x)) :
    Mirrors content segments memory' ∧
      (x.initializerOffsets = true → x.initializers.length = x.initializerCount ∧
        ∀ a ∈ x.initializers, ExecutableAt segments GISegment.size a) := by
  unfold readInitializers at h
  dsimp only at h
  split at h
  · simp only [bind_ok, Prod.exists] at h
    obtain ⟨m, list, hloop, h⟩ := h
    cases h
    obtain ⟨hmirrors', hlength, hall⟩ :=
      initializerLoop_spec hchecked hmirrors (List.forall_mem_nil _) hloop
    refine ⟨hmirrors', fun _ => ⟨?_, hall⟩⟩
    rw [hlength, List.length_nil, Nat.zero_add]
  · simp only [bind_ok, Prod.exists] at h
    obtain ⟨m, first, hfirst, h⟩ := h
    have hm := firstPointer_spec hmirrors hfirst
    split at h
    · simp only [bind_ok, need_ok, exists_const] at h
      obtain ⟨-, h⟩ := h
      cases h
      exact ⟨hm.gmFetch _, fun hoffsets => absurd hoffsets Bool.false_ne_true⟩
    · cases h
      exact ⟨hm, fun hoffsets => absurd hoffsets Bool.false_ne_true⟩

end Initializers

theorem readExports_spec {read : Reader} {content : ℕ → UInt8} (hread : read.Gives content)
    {total : ℕ} {range : Option (ℕ × ℕ)} (hrange : ∀ r ∈ range, Inside total r)
    {exports : List UInt8} (h : readExports read range = .ok exports) :
    ∃ r, Inside total r ∧ exports = (List.range r.2).map fun i => content (r.1 + i) := by
  cases range with
  | none =>
      cases h
      exact ⟨(0, 0), Nat.zero_le _, rfl⟩
  | some r =>
      refine ⟨r, hrange r rfl, ?_⟩
      obtain ⟨offset, size⟩ := r
      simp only [readExports] at h
      split at h
      · rename_i h0
        cases h
        rw [h0]
        rfl
      · simp only [bind_ok, need_ok, obtained_ok, exists_const] at h
        obtain ⟨-, b, hb, h⟩ := h
        cases h
        apply List.map_congr_left
        intro i hi
        exact hread _ _ _ hb i (List.mem_range.1 hi)

end Tolkara
