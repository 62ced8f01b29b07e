import Tolkara.Debugger.Transcript

/-!
# The batches of a session

What the loops of `preflightBatch` and `prepareBatch` ask for: the reads go on where the last
batch ended, and the writes take the pages of the regions in order. The pages of a request are
distinct.
-/

namespace Tolkara

namespace DebugArenaSession

/-! ## Pages -/

theorem mem_pagesOf {r : DebugArenaRequest.Region} {a : ℕ} :
    a ∈ pagesOf r ↔ ∃ k < r.size / page, r.address + k * page = a := by
  simp [pagesOf]

theorem pagesOf_bounds {r : DebugArenaRequest.Region} {a : ℕ} (h : a ∈ pagesOf r) :
    r.address ≤ a ∧ a < r.address + r.size := by
  obtain ⟨k, hk, rfl⟩ := mem_pagesOf.1 h
  have hsize : k * page < r.size := by
    have := Nat.div_mul_le_self r.size page
    have hpos : k * page < r.size / page * page := Nat.mul_lt_mul_of_pos_right hk (by decide)
    omega
  omega

theorem nodup_pagesOf (r : DebugArenaRequest.Region) : (pagesOf r).Nodup := by
  refine List.nodup_range.map fun j k h => ?_
  have h : r.address + j * page = r.address + k * page := h
  exact Nat.eq_of_mul_eq_mul_right (by decide : 0 < page) (by omega)

theorem disjoint_pagesOf {r other : DebugArenaRequest.Region} (h : r.Apart other) :
    (pagesOf r).Disjoint (pagesOf other) := by
  intro a hr hother
  have hr := pagesOf_bounds hr
  have hother := pagesOf_bounds hother
  rcases h with h | h <;> omega

theorem nodup_pages (request : DebugArenaRequest) : (pages request).Nodup := by
  refine List.nodup_flatMap.2 ⟨fun r _ => nodup_pagesOf r, ?_⟩
  exact request.regions_apart.imp disjoint_pagesOf

theorem lt_of_mem_pages {request : DebugArenaRequest} {a : ℕ} (h : a ∈ pages request) :
    a < 2 ^ 64 := by
  obtain ⟨r, hr, ha⟩ := List.mem_flatMap.1 h
  have hbounds := pagesOf_bounds ha
  obtain ⟨-, -, -, hsize, -, haddress, -⟩ := request.regions_valid r hr
  omega

theorem nodup_writes (request : DebugArenaRequest) {l : List ℕ} (h : l <+: pages request) :
    (l.map writeText).Nodup := by
  obtain ⟨rest, hrest⟩ := h
  have hnodup := nodup_pages request
  rw [← hrest] at hnodup
  refine (List.nodup_append.1 hnodup).1.map_on fun a ha b hb heq => ?_
  have hmem {a : ℕ} (ha : a ∈ l) : a ∈ pages request := by
    rw [← hrest]
    exact List.mem_append_left _ ha
  exact writeText_inj (lt_of_mem_pages (hmem ha)) (lt_of_mem_pages (hmem hb)) heq

/-! ## The writes -/

def remaining (regions : List DebugArenaRequest.Region) (place : ℕ × ℕ) : List ℕ :=
  match regions[place.1]? with
  | none => []
  | some r => (pagesOf r).drop (place.2 / page) ++ (regions.drop (place.1 + 1)).flatMap pagesOf

structure OnPage (regions : List DebugArenaRequest.Region) (place : ℕ × ℕ) : Prop where
  aligned : place.2 % page = 0
  inside : ∀ r, regions[place.1]? = some r → place.2 < r.size

theorem remaining_start (regions : List DebugArenaRequest.Region) (i : ℕ) :
    remaining regions (i, 0) = (regions.drop i).flatMap pagesOf := by
  unfold remaining
  cases h : regions[i]? with
  | none => rw [List.drop_eq_nil_of_le (List.getElem?_eq_none_iff.1 h), List.flatMap_nil]
  | some r =>
      obtain ⟨hi, hget⟩ := List.getElem?_eq_some_iff.1 h
      rw [List.drop_eq_getElem_cons hi, List.flatMap_cons, hget]
      simp

/-- What a page asks for: its write and its read. -/
def pageBatch (address : ℕ) : List (Text × Reply) :=
  [(writeText address, .ok), (readText address 1, .zeros 1)]

theorem remaining_cons {regions : List DebugArenaRequest.Region} {place : ℕ × ℕ}
    {r : DebugArenaRequest.Region}
    (hplace : OnPage regions place) (hr : regions[place.1]? = some r) (hsize : r.size % page = 0) :
    remaining regions place = (r.address + place.2) ::
      remaining regions
        (if place.2 + page = r.size then (place.1 + 1, 0) else (place.1, place.2 + page)) := by
  obtain ⟨i, offset⟩ := place
  have hinside := hplace.inside r hr
  obtain ⟨k, rfl⟩ : ∃ k, offset = k * page :=
    ⟨offset / page, (Nat.div_mul_cancel (Nat.dvd_of_mod_eq_zero hplace.aligned)).symm⟩
  obtain ⟨n, hn⟩ : ∃ n, r.size = n * page :=
    ⟨r.size / page, (Nat.div_mul_cancel (Nat.dvd_of_mod_eq_zero hsize)).symm⟩
  have hpos : 0 < page := by decide
  have hk : k < n := by
    dsimp only at hinside
    rw [hn] at hinside
    exact Nat.lt_of_mul_lt_mul_right hinside
  have hcount : r.size / page = n := by rw [hn, Nat.mul_div_cancel _ hpos]
  have hdrop : (pagesOf r).drop k = (r.address + k * page) :: (pagesOf r).drop (k + 1) := by
    have hlength : k < (pagesOf r).length := by
      rw [pagesOf, List.length_map, List.length_range, hcount]
      exact hk
    rw [List.drop_eq_getElem_cons hlength]
    simp [pagesOf]
  dsimp only at hr ⊢
  conv_lhs => rw [remaining]
  simp only [hr, Nat.mul_div_cancel _ hpos, hdrop, List.cons_append, List.cons.injEq, true_and]
  split
  · rename_i hlast
    have hkn : k + 1 = n := by
      refine Nat.eq_of_mul_eq_mul_right hpos ?_
      rw [Nat.succ_mul, hlast, hn]
    rw [remaining_start, List.drop_eq_nil_of_le, List.nil_append]
    rw [pagesOf, List.length_map, List.length_range, hcount, hkn]
  · rw [remaining]
    have hnext : k * page + page = (k + 1) * page := (Nat.succ_mul k page).symm
    simp only [hr, hnext, Nat.mul_div_cancel _ hpos]

theorem OnPage.next {regions : List DebugArenaRequest.Region} {place : ℕ × ℕ}
    {r : DebugArenaRequest.Region}
    (hplace : OnPage regions place) (hr : regions[place.1]? = some r)
    (hvalid : ∀ r ∈ regions, 0 < r.size ∧ r.size % page = 0) :
    OnPage regions
      (if place.2 + page = r.size then (place.1 + 1, 0) else (place.1, place.2 + page)) := by
  have hinside := hplace.inside r hr
  have haligned := hplace.aligned
  have hsize := (hvalid r (List.mem_of_getElem? hr)).2
  split
  · exact ⟨rfl, fun r' hr' => (hvalid r' (List.mem_of_getElem? hr')).1⟩
  · rename_i hne
    refine ⟨?_, fun r' hr' => ?_⟩
    · dsimp only
      rw [Nat.add_mod_right]
      exact haligned
    · rw [hr] at hr'
      cases hr'
      dsimp only
      unfold page at *
      omega

/-- The loop takes the pages at the front of those that remain. -/
theorem prepareLoop_spec {regions : List DebugArenaRequest.Region}
    (hvalid : ∀ r ∈ regions, 0 < r.size ∧ r.size % page = 0) (fuel : ℕ) {place : ℕ × ℕ}
    (hplace : OnPage regions place) (batch : List (Text × Reply)) :
    ∃ now, remaining regions place = now ++
        remaining regions (prepareLoop regions fuel place batch).2 ∧
      (prepareLoop regions fuel place batch).1 = batch ++ now.flatMap pageBatch ∧
      OnPage regions (prepareLoop regions fuel place batch).2 := by
  induction fuel generalizing place batch with
  | zero => exact ⟨[], rfl, (List.append_nil batch).symm, hplace⟩
  | succ fuel ih =>
      rw [prepareLoop]
      split
      · split
        · exact ⟨[], rfl, (List.append_nil batch).symm, hplace⟩
        · rename_i r hr
          obtain ⟨now, hremaining, hbatch, hlast⟩ := ih (hplace.next hr hvalid)
            (batch ++ [(writeText (r.address + place.2), .ok),
              (readText (r.address + place.2) 1, .zeros 1)])
          refine ⟨(r.address + place.2) :: now, ?_, ?_, hlast⟩
          · rw [remaining_cons hplace hr (hvalid r (List.mem_of_getElem? hr)).2, hremaining]
            rfl
          · rw [hbatch, List.append_assoc]
            rfl
      · exact ⟨[], rfl, (List.append_nil batch).symm, hplace⟩

theorem writes_pageBatch (now : List ℕ) :
    ((now.flatMap pageBatch).map (·.1)).filter IsWrite = now.map writeText := by
  induction now with
  | nil => rfl
  | cons address now ih =>
      rw [List.flatMap_cons, List.map_append, List.filter_append, ih]
      rfl

/-! ## The reads -/

theorem preflightLoop_spec {range : DebugArenaRequest.Region} (chunk fuel start : ℕ) {offset : ℕ}
    {batch : List (Text × Reply)} (hle : offset ≤ range.size)
    (hreads : ∀ item ∈ batch, ∃ address count, item = (readText address count, .zeros count))
    (hbatch : ∀ a, range.address + start ≤ a → a < range.address + offset →
      ∃ address count, (readText address count, Reply.zeros count) ∈ batch ∧
        address ≤ a ∧ a < address + count) :
    (preflightLoop range chunk fuel offset batch).2 ≤ range.size ∧
      (∀ item ∈ (preflightLoop range chunk fuel offset batch).1,
        ∃ address count, item = (readText address count, .zeros count)) ∧
      ∀ a, range.address + start ≤ a →
        a < range.address + (preflightLoop range chunk fuel offset batch).2 →
        ∃ address count, (readText address count, Reply.zeros count) ∈
            (preflightLoop range chunk fuel offset batch).1 ∧
          address ≤ a ∧ a < address + count := by
  induction fuel generalizing offset batch with
  | zero => exact ⟨hle, hreads, hbatch⟩
  | succ fuel ih =>
      rw [preflightLoop]
      split
      · refine ih ?_ ?_ ?_
        · have := Nat.min_le_right chunk (range.size - offset)
          omega
        · intro item hitem
          rcases List.mem_append.1 hitem with hitem | hitem
          · exact hreads item hitem
          · exact ⟨_, _, List.mem_singleton.1 hitem⟩
        · intro a hlo hhi
          by_cases hold : a < range.address + offset
          · obtain ⟨address, count, hmem, hbounds⟩ := hbatch a hlo hold
            exact ⟨address, count, List.mem_append_left _ hmem, hbounds⟩
          · exact ⟨_, _, List.mem_append_right _ (List.mem_singleton.2 rfl), by omega, by omega⟩
      · exact ⟨hle, hreads, hbatch⟩

end DebugArenaSession

end Tolkara
