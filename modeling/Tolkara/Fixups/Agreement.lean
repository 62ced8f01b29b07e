import Tolkara.Fixups.Applied
import Tolkara.Fixups.Frame

/-!
# The two formats agree

A chain is followed through records that are overwritten on the way. Where the pointers are apart
each record is still there when its turn comes, so a chain does what its records said in the
beginning. Two images whose formats say the same pointers, in whatever order, get the same values.
-/

namespace Tolkara

open Library

namespace GuestFixups

variable {σ : Type} {host : GFHost σ} {resolve : CString → ℤ → ℕ} {image : LoadedImage}
  {slide : ℕ} {m : Flat} {s : Fixing σ} {done l : List GFPointer} {blob : List UInt8}

/-! ## Chains -/

/-- The chains of a segment under a slide; what they say does not depend on it. -/
def Chains.slid (x : Chains) (slide : ℕ) : Chains := { x with slide := slide }

theorem chainedValue_does (hhost : Answers host resolve) {x : Chains} {address raw : ℕ}
    {meaning : GFMeaning} (hsaid : recordSaid x raw = some meaning) (h : Done resolve slide m done s) :
    (chainedValue host (x.slid slide) address raw).Meets s
      (fun value t => value = (meaning.value resolve slide, meaning.symbol) ∧
        Written resolve slide m done t ∧
        t.rebases = rebaseCount (done ++ [⟨address, meaning⟩]) ∧
        t.binds = bindCount (done ++ [⟨address, meaning⟩])) fun _ _ => False := by
  rw [rebaseCount_append, bindCount_append, ← h.rebases, ← h.binds]
  unfold recordSaid at hsaid
  unfold chainedValue
  by_cases hbind : 2 ^ 63 ≤ raw
  · rw [if_pos hbind] at hsaid ⊢
    split_ifs at hsaid with hreserved
    obtain ⟨found, hfound, rfl⟩ := Option.map_eq_some_iff.1 hsaid
    unfold chainedBind
    refine Attempt.meets_bind.2 (Attempt.meets_check.2 ⟨fun _ => ?_, fun hno => hno hreserved⟩)
    change (Attempt.lift (obtained x.imports[_]? _) >>= _).Meets _ _ _
    rw [hfound]
    refine Attempt.meets_bind.2 (Attempt.meets_ok.2 ?_)
    obtain ⟨context, hask⟩ := ask_run hhost s found.name found.ordinal found.weak false
    refine Attempt.meets_bind.2 (Attempt.meets_of_run hask ?_)
    refine Attempt.meets_bind.2 (Attempt.meets_check.2 ⟨fun _ => ?_, fun hno => hno (.inl rfl)⟩)
    refine Attempt.meets_bind.2 (Attempt.meets_change.2 ⟨?_, h.same h.wf rfl rfl, rfl, rfl⟩)
    rw [GFMeaning.value, GFMeaning.symbol, Nat.add_mod_mod, Nat.add_assoc]
  · rw [if_neg hbind] at hsaid ⊢
    by_cases hreserved : raw / 2 ^ 44 % 2 ^ 7 = 0
    · rw [if_pos hreserved] at hsaid
      cases hsaid
      unfold chainedRebase
      refine Attempt.meets_bind.2 (Attempt.meets_check.2 ⟨fun _ => ?_, fun hno => hno hreserved⟩)
      refine Attempt.meets_bind.2 (Attempt.meets_change.2 ⟨?_, h.same h.wf rfl rfl, rfl, rfl⟩)
      rw [GFMeaning.value, GFMeaning.symbol, Nat.mod_add_mod]
      rfl
    · rw [if_neg hreserved] at hsaid
      cases hsaid

theorem chainedOnce_does (hhost : Answers host resolve) {x : Chains}
    {pageStart pageEnd address : ℕ} {meaning : GFMeaning} (h : Done resolve slide m done s)
    (hin : address ≤ (pageEnd + 2 ^ 64 - 8) % 2 ^ 64 ∧ pageStart ≤ address)
    (hsaid : recordSaid x (m.word address) = some meaning)
    (hfine : Fine m (done ++ [⟨address, meaning⟩])) :
    Does resolve slide m (done ++ [⟨address, meaning⟩])
      (chainedOnce host (x.slid slide) pageStart pageEnd address) s
      (nextRecord address (m.word address / 2 ^ 51 % 2 ^ 12)) := by
  unfold Does chainedOnce
  refine Attempt.meets_bind.2 (Attempt.meets_check.2 ⟨fun _ => ?_, fun hno => hno hin⟩)
  obtain ⟨memory, hwf, hflat, hrun⟩ := readWord_run h.toWritten hfine
  dsimp only at hrun
  generalize m.word address = raw at hrun hsaid ⊢
  refine Attempt.meets_bind.2 (Attempt.meets_of_run hrun ?_)
  refine Attempt.meets_bind.2 (Attempt.meets_ok.2 ?_)
  have ht : Done resolve slide m done { s with memory := memory } :=
    ⟨h.same hwf hflat rfl, h.rebases, h.binds⟩
  refine Attempt.meets_bind.2 ((chainedValue_does hhost hsaid ht).imp (fun value t hvalue => ?_)
    fun _ _ => id)
  obtain ⟨rfl, hwritten, hrebases, hbinds⟩ := hvalue
  exact report_does hhost hwritten hfine hrebases hbinds _ _

theorem pointerLoop_does (hhost : Answers host resolve) {x : Chains} {pageStart pageEnd : ℕ}
    {steps address : ℕ} (h : Done resolve slide m done s)
    (hsaid : pointerLoopSaid x m pageStart pageEnd steps address = some l)
    (hfine : Fine m (done ++ l)) :
    Does resolve slide m (done ++ l)
      (pointerLoop host (x.slid slide) pageStart pageEnd steps address) s () := by
  induction steps generalizing address l done s with
  | zero => cases hsaid
  | succ steps ih =>
      rw [pointerLoopSaid] at hsaid
      rw [pointerLoop]
      split_ifs at hsaid with hin
      obtain ⟨meaning, hmeaning, hsaid⟩ := Option.bind_eq_some_iff.1 hsaid
      cases hnext : nextRecord address (m.word address / 2 ^ 51 % 2 ^ 12) with
      | none =>
          rw [hnext] at hsaid
          cases hsaid
          refine Attempt.meets_bind.2 ((chainedOnce_does hhost h hin hmeaning hfine).imp
            (fun next t ht => ?_) fun _ _ => id)
          obtain ⟨rfl, ht⟩ := ht
          rw [hnext]
          exact ⟨rfl, ht⟩
      | some next =>
          rw [hnext] at hsaid
          obtain ⟨rest, hrest, hsaid⟩ := Option.bind_eq_some_iff.1 hsaid
          cases hsaid
          rw [List.append_cons] at hfine ⊢
          refine Attempt.meets_bind.2 ((chainedOnce_does hhost h hin hmeaning hfine.left).imp
            (fun next t ht => ?_) fun _ _ => id)
          obtain ⟨rfl, ht⟩ := ht
          rw [hnext]
          exact ih ht hrest hfine

theorem chain_does (hhost : Answers host resolve) {x : Chains} {segmentOffset page offset : ℕ}
    (h : Done resolve slide m done s)
    (hsaid : chainSaid x m segmentOffset page offset = some l) (hfine : Fine m (done ++ l)) :
    Does resolve slide m (done ++ l) (chain host (x.slid slide) segmentOffset page offset) s () := by
  unfold chainSaid at hsaid
  dsimp only at hsaid
  split_ifs at hsaid with hgood
  obtain ⟨hoffset, hinside⟩ := hgood
  unfold Does chain
  refine Attempt.meets_bind.2 (Attempt.meets_check.2 ⟨fun _ => ?_, fun hno => hno hoffset⟩)
  refine Attempt.meets_bind.2 (Attempt.meets_check.2 ⟨fun _ => ?_, fun hno => hno hinside⟩)
  exact pointerLoop_does hhost h hsaid hfine

theorem startList_does (hhost : Answers host resolve) {x : Chains} {i segmentOffset page : ℕ}
    {fuel place : ℕ} (h : Done resolve slide m done s)
    (hsaid : startListSaid x m blob segmentOffset page fuel place = some l)
    (hfine : Fine m (done ++ l)) :
    Does resolve slide m (done ++ l)
      (startList host (x.slid slide) blob i segmentOffset page fuel place) s () := by
  induction fuel generalizing place l done s with
  | zero => cases hsaid
  | succ fuel ih =>
      rw [startListSaid] at hsaid
      rw [startList]
      obtain ⟨offset, hoffset, hsaid⟩ := Option.bind_eq_some_iff.1 hsaid
      obtain ⟨first, hfirst, hsaid⟩ := Option.bind_eq_some_iff.1 hsaid
      rw [hoffset]
      refine Attempt.meets_bind.2 (Attempt.meets_ok.2 ?_)
      split_ifs at hsaid ⊢ with hlast
      · cases hsaid
        exact Attempt.meets_bind.2 ((chain_does hhost h hfirst hfine).imp (fun _ _ h => ⟨rfl, h.2⟩)
          fun _ _ => id)
      · obtain ⟨rest, hrest, hsaid⟩ := Option.bind_eq_some_iff.1 hsaid
        cases hsaid
        rw [← List.append_assoc] at hfine ⊢
        exact Attempt.meets_bind.2 ((chain_does hhost h hfirst hfine.left).imp
          (fun _ t ht => ih ht.2 hrest hfine) fun _ _ => id)

theorem pageChains_does (hhost : Answers host resolve) {x : Chains} {i place segmentOffset : ℕ}
    {page start : ℕ} (h : Done resolve slide m done s)
    (hsaid : pageChainsSaid x m blob place segmentOffset page start = some l)
    (hfine : Fine m (done ++ l)) :
    Does resolve slide m (done ++ l)
      (pageChains host (x.slid slide) blob i place segmentOffset page start) s () := by
  unfold pageChainsSaid at hsaid
  unfold pageChains
  split_ifs at hsaid ⊢
  · cases hsaid
    rw [List.append_nil]
    exact ⟨rfl, h⟩
  · exact startList_does hhost h hsaid hfine
  · exact chain_does hhost h hsaid hfine

theorem pageLoop_does (hhost : Answers host resolve) {x : Chains} {i place segmentOffset : ℕ}
    {left page : ℕ} (h : Done resolve slide m done s)
    (hsaid : pageLoopSaid x m blob place segmentOffset left page = some l)
    (hfine : Fine m (done ++ l)) :
    Does resolve slide m (done ++ l)
      (pageLoop host (x.slid slide) blob i place segmentOffset left page) s () := by
  induction left generalizing page l done s with
  | zero =>
      cases hsaid
      rw [List.append_nil]
      exact ⟨rfl, h⟩
  | succ left ih =>
      rw [pageLoopSaid] at hsaid
      rw [pageLoop]
      obtain ⟨start, hstart, hsaid⟩ := Option.bind_eq_some_iff.1 hsaid
      obtain ⟨first, hfirst, hsaid⟩ := Option.bind_eq_some_iff.1 hsaid
      obtain ⟨rest, hrest, hsaid⟩ := Option.bind_eq_some_iff.1 hsaid
      cases hsaid
      rw [hstart]
      refine Attempt.meets_bind.2 (Attempt.meets_ok.2 ?_)
      rw [← List.append_assoc] at hfine ⊢
      exact Attempt.meets_bind.2 ((pageChains_does hhost h hfirst hfine.left).imp
        (fun _ t ht => ih ht.2 hrest hfine) fun _ _ => id)

theorem chainedSegment_does (hhost : Answers host resolve) {header : ChainedHeader}
    {imports : List ChainedImport} {i info : ℕ} (h : Done resolve slide m done s)
    (hsaid : chainedSegmentSaid image m blob header imports i info = some l)
    (hfine : Fine m (done ++ l)) :
    Does resolve slide m (done ++ l)
      (chainedSegment host image slide blob header imports i info) s () := by
  obtain ⟨segment, hsegment, hsaid⟩ := Option.bind_eq_some_iff.1 hsaid
  obtain ⟨pageSize, hpageSize, hsaid⟩ := Option.bind_eq_some_iff.1 hsaid
  obtain ⟨format, hformat, hsaid⟩ := Option.bind_eq_some_iff.1 hsaid
  obtain ⟨segmentOffset, hsegmentOffset, hsaid⟩ := Option.bind_eq_some_iff.1 hsaid
  obtain ⟨pageCount, hpageCount, hsaid⟩ := Option.bind_eq_some_iff.1 hsaid
  split_ifs at hsaid with hgood
  obtain ⟨hpointer, hpage⟩ := hgood
  unfold Does chainedSegment
  dsimp only
  rw [hsegment, hpageSize, hformat, hsegmentOffset, hpageCount]
  refine Attempt.meets_bind.2 (Attempt.meets_ok.2 ?_)
  refine Attempt.meets_bind.2 (Attempt.meets_ok.2 ?_)
  refine Attempt.meets_bind.2 (Attempt.meets_ok.2 ?_)
  refine Attempt.meets_bind.2 (Attempt.meets_ok.2 ?_)
  refine Attempt.meets_bind.2 (Attempt.meets_ok.2 ?_)
  refine Attempt.meets_bind.2 (Attempt.meets_check.2 ⟨fun _ => ?_, fun hno => hno hpointer⟩)
  refine Attempt.meets_bind.2 (Attempt.meets_check.2 ⟨fun _ => ?_, fun hno => hno hpage⟩)
  exact pageLoop_does hhost h hsaid hfine

theorem startsOf_does (hhost : Answers host resolve) {header : ChainedHeader}
    {imports : List ChainedImport} {i info : ℕ} (h : Done resolve slide m done s)
    (hsaid : startsSaid image m blob header imports i info = some l)
    (hfine : Fine m (done ++ l)) :
    Does resolve slide m (done ++ l) (startsOf host image slide blob header imports i info) s
      () := by
  unfold startsSaid at hsaid
  unfold startsOf
  by_cases hinfo : info = 0
  · rw [if_pos hinfo] at hsaid ⊢
    cases hsaid
    rw [List.append_nil]
    exact ⟨rfl, h⟩
  · rw [if_neg hinfo] at hsaid ⊢
    exact chainedSegment_does hhost h hsaid hfine

theorem segmentLoop_does (hhost : Answers host resolve) {header : ChainedHeader}
    {imports : List ChainedImport} {left i : ℕ} (h : Done resolve slide m done s)
    (hsaid : segmentLoopSaid image m blob header imports left i = some l)
    (hfine : Fine m (done ++ l)) :
    Does resolve slide m (done ++ l)
      (segmentLoop host image slide blob header imports left i) s () := by
  induction left generalizing i l done s with
  | zero =>
      cases hsaid
      rw [List.append_nil]
      exact ⟨rfl, h⟩
  | succ left ih =>
      rw [segmentLoopSaid] at hsaid
      rw [segmentLoop]
      obtain ⟨info, hinfo, hsaid⟩ := Option.bind_eq_some_iff.1 hsaid
      obtain ⟨first, hfirst, hsaid⟩ := Option.bind_eq_some_iff.1 hsaid
      obtain ⟨rest, hrest, hsaid⟩ := Option.bind_eq_some_iff.1 hsaid
      cases hsaid
      rw [hinfo]
      refine Attempt.meets_bind.2 (Attempt.meets_ok.2 ?_)
      rw [← List.append_assoc] at hfine ⊢
      exact Attempt.meets_bind.2 ((startsOf_does hhost h hfirst hfine.left).imp
        (fun _ t ht => ih ht.2 hrest hfine) fun _ _ => id)

theorem chained_does (hhost : Answers host resolve) (h : Done resolve slide m [] s)
    {range : ℕ × ℕ} (hsaid : chainedSaid image m range = some l) (hfine : Fine m l) :
    Does resolve slide m l (chained host image slide range) s () := by
  obtain ⟨blob, hblob, hsaid⟩ := Option.bind_eq_some_iff.1 hsaid
  obtain ⟨header, hheader, hsaid⟩ := Option.bind_eq_some_iff.1 hsaid
  obtain ⟨imports, himports, hsaid⟩ := Option.bind_eq_some_iff.1 hsaid
  obtain ⟨segmentCount, hsegmentCount, hsaid⟩ := Option.bind_eq_some_iff.1 hsaid
  have hread : readImports host image blob header = .ok imports := by
    unfold importsSaid at himports
    split_ifs at himports with hgood
    simp only [readImports, bind_ok, need_ok, exists_const]
    exact ⟨hgood.1, hgood.2, hhost.malloc 1, toOption_some.1 himports⟩
  have hnone : Beside image [] range := fun _ _ _ hp => absurd hp List.not_mem_nil
  refine Attempt.meets_bind.2 ((stream_does hhost h 0 hblob hnone).imp (fun read t ht => ?_)
    fun _ _ => id)
  obtain ⟨rfl, ht⟩ := ht
  refine Attempt.meets_bind.2 (Attempt.meets_ok.2 ?_)
  rw [toOption_some.1 hheader]
  refine Attempt.meets_bind.2 (Attempt.meets_ok.2 ?_)
  rw [hread]
  refine Attempt.meets_bind.2 (Attempt.meets_ok.2 ?_)
  rw [hsegmentCount]
  refine Attempt.meets_bind.2 (Attempt.meets_ok.2 ?_)
  exact segmentLoop_does hhost ht hsaid hfine

/-! ## Images -/

def said (image : LoadedImage) : Option (List GFPointer) :=
  match image.chained with
  | some range =>
    if image.dyldInfo.rebase.2 = 0 ∧ image.dyldInfo.bind.2 = 0 ∧ image.dyldInfo.lazyBind.2 = 0 ∧
        image.dyldInfo.weakBind.2 = 0 then
      chainedSaid image image.memory.flat range
    else none
  | none => opcodesSaid image image.memory.flat

/-- Opcodes count what they ask for, and read their streams one after the other. -/
def Orderly (image : LoadedImage) (l : List GFPointer) : Prop :=
  image.chained = none → Within l ∧
    ∀ range ∈ [image.dyldInfo.lazyBind, image.dyldInfo.bind, image.dyldInfo.weakBind],
      Beside image l range

/-- Pointers that are apart get what the image says, and nothing else changes. -/
theorem gfApplyObserved_does (hhost : Answers host resolve) (hwf : image.memory.Wf) (context : σ)
    (hsaid : said image = some l) (hfine : Fine image.memory.flat l) (horderly : Orderly image l) :
    ∃ s, gfApplyObserved host image slide context = (.ok (), s) ∧
      Done resolve slide image.memory.flat l s := by
  have hstart : Done resolve slide image.memory.flat [] (start image context) :=
    ⟨⟨hwf, rfl, rfl⟩, rfl, rfl⟩
  have hdoes : Does resolve slide image.memory.flat l (apply host image slide)
      (start image context) () := by
    unfold said at hsaid
    unfold apply
    cases hchained : image.chained with
    | none =>
        rw [hchained] at hsaid
        obtain ⟨hwithin, hbeside⟩ := horderly hchained
        exact opcodes_does hhost hstart hsaid hbeside hfine hwithin
    | some range =>
        rw [hchained] at hsaid
        dsimp only at hsaid
        split_ifs at hsaid with hempty
        refine Attempt.meets_bind.2 (Attempt.meets_check.2 ⟨fun _ => ?_, fun hno => hno hempty⟩)
        exact chained_does hhost hstart hsaid hfine
  unfold gfApplyObserved
  unfold Does Attempt.Meets at hdoes
  split at hdoes
  · rename_i u t hrun
    exact ⟨t, hrun, hdoes.2⟩
  · exact hdoes.elim

theorem Done.word (h : Done resolve slide m l s) (hfine : Fine m l) {p : GFPointer} (hp : p ∈ l) :
    s.memory.flat.word p.address = p.meaning.value resolve slide := by
  obtain ⟨before, rest, rfl⟩ := List.append_of_mem hp
  obtain ⟨-, hcons, -⟩ := List.pairwise_append.1 hfine.apart
  obtain ⟨hapart, -⟩ := List.pairwise_cons.1 hcons
  have hlater : ∀ v ∈ (rest.map (GFPointer.observation resolve slide)).map GFObservation.write,
      Flat.Apart v (p.observation resolve slide).write := by
    intro v hv
    rw [List.map_map] at hv
    obtain ⟨q, hq, rfl⟩ := List.mem_map.1 hv
    exact (hapart q hq).symm
  rw [h.flat, after, List.map_append, List.map_append, List.map_cons, List.map_cons]
  refine (Flat.word_storeAll m hlater).trans (Nat.mod_eq_of_lt ?_)
  change p.meaning.value resolve slide < _
  cases p.meaning <;> exact Nat.mod_lt _ (by decide)

/-- The bytes outside of the pointers stay. -/
theorem Done.byte (h : Done resolve slide m l s) {x : ℕ}
    (hx : ∀ p ∈ l, ¬(p.address ≤ x ∧ x < p.address + 8)) : s.memory.flat.byte x = m.byte x := by
  rw [h.flat, after]
  refine Flat.byte_storeAll_of_outside m fun w hw => ?_
  rw [List.map_map] at hw
  obtain ⟨p, hp, rfl⟩ := List.mem_map.1 hw
  exact hx p hp

/-- Two images that say the same pointers, in whichever format and order, get the same values
there, and neither changes anything else. -/
theorem formats_agree (hhost : Answers host resolve) {image' : LoadedImage} {l' : List GFPointer}
    (hwf : image.memory.Wf) (hwf' : image'.memory.Wf) (hsaid : said image = some l)
    (hsaid' : said image' = some l') (hperm : l.Perm l') (hfine : Fine image.memory.flat l)
    (hfine' : Fine image'.memory.flat l') (horderly : Orderly image l)
    (horderly' : Orderly image' l') (context context' : σ) :
    ∃ s s', gfApplyObserved host image slide context = (.ok (), s) ∧
      gfApplyObserved host image' slide context' = (.ok (), s') ∧
      (∀ p ∈ l, s.memory.flat.word p.address = p.meaning.value resolve slide ∧
        s'.memory.flat.word p.address = p.meaning.value resolve slide) ∧
      ∀ x, (∀ p ∈ l, ¬(p.address ≤ x ∧ x < p.address + 8)) →
        s.memory.flat.byte x = image.memory.flat.byte x ∧
          s'.memory.flat.byte x = image'.memory.flat.byte x := by
  obtain ⟨s, hrun, hdone⟩ := gfApplyObserved_does hhost hwf context hsaid hfine horderly
  obtain ⟨s', hrun', hdone'⟩ := gfApplyObserved_does hhost hwf' context' hsaid' hfine' horderly'
  refine ⟨s, s', hrun, hrun', fun p hp => ?_, fun x hx => ?_⟩
  · exact ⟨hdone.word hfine hp, hdone'.word hfine' (hperm.subset hp)⟩
  · exact ⟨hdone.byte hx, hdone'.byte fun p hp => hx p (hperm.symm.subset hp)⟩

/-- A resolver that gives every symbol the same value. -/
def plainHost : GFHost Unit :=
  ⟨fun _ _ _ _ _ => ((true, 0x5000), ()), fun _ => true, fun _ _ => true⟩

/-- The pointers of `opcodeFile`; `chainedFile` has them the other way round. -/
def rebasedPointer : GFPointer := ⟨0x1000000c0, .rebase 0x100000800⟩

def boundPointer : GFPointer := ⟨0x1000000b8, .bind (ascii "_s") 0 3⟩

theorem fine_pair {p q : GFPointer} (hapart : GFPointer.Apart p q) (hp : Ready m p.address)
    (hq : Ready m q.address) : Fine m [p, q] := by
  refine ⟨List.pairwise_pair.2 hapart, fun x hx => ?_⟩
  rcases List.mem_pair.1 hx with rfl | rfl
  · exact hp
  · exact hq

theorem said_opcodeImage :
    said opcodeImage = some [rebasedPointer, boundPointer] ∧
      (opcodeImage.memory.flat.access 0x1000000c0 8 GM.READ = .ok ∧
        opcodeImage.memory.flat.access 0x1000000b8 8 GM.READ = .ok) ∧
      [opcodeImage.dyldInfo.lazyBind, opcodeImage.dyldInfo.bind,
        opcodeImage.dyldInfo.weakBind] = [(0, 0), (206, 12), (0, 0)] ∧
      streamPlace opcodeImage (0, 0) = some 0x100000000 ∧
      streamPlace opcodeImage (206, 12) = some 0x1000000ce := by
  decide +kernel

theorem said_chainedImage :
    said chainedImage = some [boundPointer, rebasedPointer] ∧
      (chainedImage.memory.flat.access 0x1000000b8 8 GM.READ = .ok ∧
        chainedImage.memory.flat.access 0x1000000c0 8 GM.READ = .ok) ∧
      chainedImage.chained ≠ none := by
  decide +kernel

theorem orderly_opcodeImage : Orderly opcodeImage [rebasedPointer, boundPointer] := by
  obtain ⟨-, -, hranges, hempty, hbinds⟩ := said_opcodeImage
  refine fun _ => ⟨⟨by decide, by decide⟩, ?_⟩
  rw [hranges]
  intro range hrange place hplace p hp
  have hrange : range = (0, 0) ∨ range = (206, 12) := by
    rcases List.mem_cons.1 hrange with hfirst | hlater
    · exact .inl hfirst
    · exact (List.mem_pair.1 hlater).symm
  have haddress : p.address + 8 ≤ 0x1000000c8 ∧ 0x1000000b8 ≤ p.address := by
    rcases List.mem_pair.1 hp with rfl | rfl
    · exact ⟨by decide, by decide⟩
    · exact ⟨by decide, by decide⟩
  rcases hrange with rfl | rfl
  · have hat : place = 0x100000000 := Option.some.inj (hplace.symm.trans hempty)
    exact .inr (by dsimp only; omega)
  · have hat : place = 0x1000000ce := Option.some.inj (hplace.symm.trans hbinds)
    exact .inl (by omega)

/-- Opcodes that rebase and then bind, and a chain that binds and then rebases. -/
theorem formats_agree_chained :
    ∃ s s', gfApplyObserved plainHost opcodeImage 0x200000 () = (.ok (), s) ∧
      gfApplyObserved plainHost chainedImage 0x200000 () = (.ok (), s') ∧
      (s.memory.flat.word 0x1000000c0 = 0x100200800 ∧
        s'.memory.flat.word 0x1000000c0 = 0x100200800) ∧
      s.memory.flat.word 0x1000000b8 = 0x5003 ∧ s'.memory.flat.word 0x1000000b8 = 0x5003 := by
  have hhost : Answers plainHost fun _ _ => 0x5000 :=
    ⟨fun _ _ _ _ _ => rfl, fun _ => rfl, fun _ _ => rfl⟩
  obtain ⟨hsaid, ⟨hrebaseReady, hbindReady⟩, -⟩ := said_opcodeImage
  obtain ⟨hsaid', ⟨hbindReady', hrebaseReady'⟩, hchained⟩ := said_chainedImage
  obtain ⟨s, s', hrun, hrun', hwords, -⟩ := formats_agree hhost (placed_of_load load_opcodeFile).2
    (placed_of_load load_chainedFile).2 hsaid hsaid' (List.Perm.swap _ _ [])
    (fine_pair (.inr (by decide)) ⟨by decide, hrebaseReady⟩ ⟨by decide, hbindReady⟩)
    (fine_pair (.inl (by decide)) ⟨by decide, hbindReady'⟩ ⟨by decide, hrebaseReady'⟩)
    orderly_opcodeImage (fun hnone => absurd hnone hchained) () ()
  have hrebased : rebasedPointer.meaning.value (fun _ _ => 0x5000) 0x200000 = 0x100200800 := by
    decide
  have hbound : boundPointer.meaning.value (fun _ _ => 0x5000) 0x200000 = 0x5003 := by decide
  obtain ⟨hrebase, hrebase'⟩ := hwords rebasedPointer List.mem_cons_self
  obtain ⟨hbind, hbind'⟩ := hwords boundPointer (List.mem_cons_of_mem _ List.mem_cons_self)
  rw [hrebased] at hrebase hrebase'
  rw [hbound] at hbind hbind'
  exact ⟨s, s', hrun, hrun', ⟨hrebase, hrebase'⟩, hbind, hbind'⟩

end GuestFixups

end Tolkara
