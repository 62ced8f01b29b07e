import Tolkara.Library.Doubles
import Tolkara.Library.Lookup
import Tolkara.Tunnel.OrderlyClose

/-!
# The table of the streams

What a run of the streams' owner keeps: the table of the streams and the table of their
ports are inverse to each other, a port rests for 120 seconds after its stream ended, and
a stream that leaves the table is reported closed once and never heard of again. A call
moves one stream after the other; `Moved` says what such moves do together.
-/

namespace Tolkara

/-- Times that stand for numbers of seconds: the comparisons of finite ones are those of the
numbers. What a sum stands for is not said, since the sum of the source is rounded. -/
class LawfulClock (T : Type) [Clock T] where
  value : T → ℚ
  finite_start : Clock.isFinite (Clock.seconds 0 : T) = true
  ge_iff : ∀ {a b : T}, Clock.isFinite a = true → Clock.isFinite b = true →
    (Clock.ge a b = true ↔ value b ≤ value a)
  lt_iff : ∀ {a b : T}, Clock.isFinite a = true → Clock.isFinite b = true →
    (Clock.lt a b = true ↔ value a < value b)

instance : LawfulClock Float where
  value := Library.doubleValue
  finite_start := by decide
  ge_iff ha hb := decide_eq_true_iff.trans (Library.le_double hb ha)
  lt_iff ha hb := decide_eq_true_iff.trans (Library.lt_double ha hb)

namespace TunnelTCP

variable {T : Type} [Clock T] {s : TunnelTCP T}

/-! ## What ends a stream -/

def endings (events : List Event) : ℕ := events.countP TunnelStreams.terminal

theorem endings_append (events more : List Event) :
    endings (events ++ more) = endings events + endings more := by
  rw [endings, List.countP_append]
  rfl

theorem endings_of_any {events : List Event} (h : events.any TunnelStreams.terminal = false) :
    endings events = 0 := by
  rw [endings, List.countP_eq_zero]
  intro event hevent hterminal
  have hany : events.any TunnelStreams.terminal = true :=
    List.any_eq_true.mpr ⟨event, hevent, hterminal⟩
  rw [h] at hany
  cases hany

theorem endings_flush (s : TunnelTCP T) (now : T) : endings (s.flush now).2 = 0 :=
  endings_of_any (flush_buffer s now).2

theorem endings_acknowledge (s : TunnelTCP T) (seg : TunnelTCPSegment) (now : T) :
    endings (s.acknowledge seg now).2 ≤ 1 := by
  unfold acknowledge
  split
  · exact Nat.zero_le 1
  · dsimp only
    split
    · unfold advanceClose
      split_ifs <;> simp [endings, TunnelStreams.terminal]
    · exact Nat.zero_le 1

theorem endings_takeSegment (s : TunnelTCP T) (seg : TunnelTCPSegment) (now : T) :
    endings (s.takeSegment seg now).2 = 0 := by
  have hdata : endings (s.takeData seg).2 = 0 := by
    unfold takeData
    dsimp only
    split <;> rfl
  have hend : ∀ (s : TunnelTCP T) (reach available : ℤ),
      endings (s.takeFin seg reach available now).2 = 0 := by
    intro s reach available
    unfold takeFin
    dsimp only
    split_ifs <;> rfl
  unfold takeSegment
  dsimp only
  rw [endings_append, endings_append, endings_append, hdata, hend, endings_flush]
  split <;> rfl

theorem endings_receiveOpen (s : TunnelTCP T) (seg : TunnelTCPSegment) (now : T) :
    endings (s.receiveOpen seg now).2 ≤ 1 := by
  have hack := endings_acknowledge s seg now
  unfold receiveOpen
  split
  · exact Nat.zero_le 1
  · split
    · exact Nat.zero_le 1
    · dsimp only
      split
      · exact hack
      · split
        · rw [endings_append, endings_append, endings_flush]
          exact hack
        · split
          · rw [endings_append, endings_append, endings_flush]
            split
            · exact hack
            · exact hack
          · rw [endings_append, endings_takeSegment]
            exact hack

theorem endings_receiveSegment (s : TunnelTCP T) (seg : TunnelTCPSegment) (now : T) :
    endings (s.receiveSegment seg now).2 ≤ 1 := by
  unfold receiveSegment
  split
  · unfold receiveSynSent
    split_ifs <;> simp [endings, fail, TunnelStreams.terminal, ackPacket, packet]
  · split
    · split_ifs <;> simp [endings, fail, TunnelStreams.terminal, ackPacket, packet]
    · split
      · split <;> simp [endings, TunnelStreams.terminal, ackPacket, packet]
      · split
        · simp [endings, TunnelStreams.terminal, ackPacket, packet]
        · split
          · exact Nat.zero_le 1
          · exact endings_receiveOpen s seg now

/-- A packet ends a stream at most once. -/
theorem endings_receive (s : TunnelTCP T) (bytes : List UInt8) (now : T) :
    endings (s.receive bytes now).2 ≤ 1 := by
  unfold receive
  split
  · exact Nat.zero_le 1
  · split
    · exact Nat.zero_le 1
    · exact endings_receiveSegment s _ now

theorem endings_probe (s : TunnelTCP T) (now : T) : endings (s.probe now).2 ≤ 1 := by
  unfold probe
  split
  · exact Nat.zero_le 1
  · split_ifs <;> simp [endings, fail, TunnelStreams.terminal, packet]

theorem endings_tick (s : TunnelTCP T) (now : T) : endings (s.tick now).2 ≤ 1 := by
  unfold tick
  split
  · exact Nat.zero_le 1
  · split
    · split <;> simp [endings, fail, TunnelStreams.terminal]
    · split
      · exact endings_probe s now
      · split
        · unfold retransmit
          split_ifs <;> simp [endings, fail, TunnelStreams.terminal, packet]
        · exact endings_probe s now

omit [Clock T] in
theorem endings_abort (s : TunnelTCP T) : endings s.abort.2 ≤ 1 := by
  unfold abort
  split
  · exact Nat.zero_le 1
  · simp [endings, TunnelStreams.terminal, packet]

end TunnelTCP

namespace TunnelStreams

open Lookup

variable {T : Type} [Clock T] {t t' t'' : TunnelStreams T}

/-! ## What the owner is told -/

def StreamEvent.isClosed : StreamEvent → Bool
  | .closed _ => true
  | _ => false

def told (id : ℕ) (events : List Event) : List StreamEvent :=
  events.filterMap fun event =>
    match event with
    | .packet _ => none
    | .stream stream event => if stream = id then some event else none

def Running (events : List StreamEvent) : Prop := ∀ event ∈ events, event.isClosed = false

/-- The stream was reported closed, once and last. -/
def Finished (events : List StreamEvent) : Prop :=
  ∃ before error, events = before ++ [.closed error] ∧ Running before

@[simp] theorem told_nil (id : ℕ) : told id [] = [] := rfl

@[simp] theorem told_append (id : ℕ) (events more : List Event) :
    told id (events ++ more) = told id events ++ told id more := by
  simp [told]

theorem running_nil : Running [] := by simp [Running]

theorem Running.append {events more : List StreamEvent} (h : Running events)
    (h' : Running more) : Running (events ++ more) := by
  intro event hevent
  rcases List.mem_append.mp hevent with hmem | hmem
  · exact h event hmem
  · exact h' event hmem

theorem Running.finish {events more : List StreamEvent} (h : Running events)
    (h' : Finished more) : Finished (events ++ more) := by
  obtain ⟨before, error, rfl, hbefore⟩ := h'
  exact ⟨events ++ before, error, by rw [List.append_assoc], h.append hbefore⟩

def closing (cancellation : Bool) : TunnelTCP.Event → StreamEvent
  | .failed reason => .closed (some (.tcp reason))
  | _ => .closed (if cancellation then some .cancelled else none)

theorem told_ended (id : ℕ) (cancellation : Bool) (events : List TunnelTCP.Event) :
    told id (events.flatMap (translateEvent id cancellation true)) =
      (events.filter terminal).map (closing cancellation) := by
  induction events with
  | nil => rfl
  | cons event events ih =>
      rw [List.flatMap_cons, told_append, ih, List.filter_cons]
      cases event with
      | closed => simp [told, translateEvent, terminal, closing]
      | failed reason => simp [told, translateEvent, terminal, closing]
      | _ => simp [told, translateEvent, terminal]

/-- A stream that does not end runs on. -/
theorem told_running (id : ℕ) (cancellation : Bool) {events : List TunnelTCP.Event}
    (h : events.any terminal = false) :
    Running (told id (events.flatMap (translateEvent id cancellation false))) := by
  induction events with
  | nil => exact running_nil
  | cons event events ih =>
      rw [List.any_cons, Bool.or_eq_false_iff] at h
      rw [List.flatMap_cons, told_append]
      refine Running.append ?_ (ih h.2)
      have hopen := h.1
      cases event with
      | closed => cases hopen
      | failed reason => cases hopen
      | _ => simp [told, translateEvent, Running, StreamEvent.isClosed]

/-- Nothing is told of another stream. -/
theorem told_other {id j : ℕ} (hj : j ≠ id) (cancellation ended : Bool)
    (events : List TunnelTCP.Event) :
    told j (events.flatMap (translateEvent id cancellation ended)) = [] := by
  induction events with
  | nil => rfl
  | cons event events ih =>
      rw [List.flatMap_cons, told_append, ih]
      cases event <;> cases ended <;> simp [told, translateEvent, hj.symm]

/-- What a stream's step tells of it. -/
theorem told_translate (t : TunnelStreams T) {events : List TunnelTCP.Event} (id : ℕ) (now : T)
    (cancellation : Bool) (honce : TunnelTCP.endings events ≤ 1) :
    (events.any terminal = true → Finished (told id (t.translate events id now cancellation).2)) ∧
      (events.any terminal = false →
        Running (told id (t.translate events id now cancellation).2)) := by
  constructor
  · intro hended
    have hone : TunnelTCP.endings events = 1 := by
      have hpos : 0 < TunnelTCP.endings events := by
        obtain ⟨event, hevent, hterminal⟩ := List.any_eq_true.mp hended
        exact List.countP_pos_iff.mpr ⟨event, hevent, hterminal⟩
      omega
    rw [TunnelTCP.endings, List.countP_eq_length_filter, List.length_eq_one_iff] at hone
    obtain ⟨event, hevent⟩ := hone
    unfold translate
    dsimp only
    rw [hended, told_ended, hevent, List.map_singleton]
    refine ⟨[], ?_⟩
    cases event with
    | failed reason => exact ⟨_, rfl, running_nil⟩
    | _ => exact ⟨_, rfl, running_nil⟩
  · intro hopen
    unfold translate
    dsimp only
    rw [hopen]
    exact told_running id cancellation hopen

/-! ## The table -/

omit [Clock T] in
theorem entry_setTCP (t : TunnelStreams T) (id : ℕ) (tcp : TunnelTCP T) (j : ℕ) :
    (t.setTCP id tcp).entry j =
      (t.entry j).map fun e => if j = id then { e with tcp := tcp } else e := by
  have hmap := lookup_map t.entries (fun k e => if k = id then { e with tcp := tcp } else e) j
  rw [entry, entry, ← hmap, setTCP]
  dsimp only
  congr 2
  funext x
  split <;> rfl

theorem entry_drop (t : TunnelStreams T) (id : ℕ) (now : T) (j : ℕ) :
    (t.drop id now).entry j = if j = id then none else t.entry j := by
  unfold drop
  split
  · rename_i hnone
    by_cases hj : j = id
    · rw [if_pos hj, hj]
      exact hnone
    · rw [if_neg hj]
  · exact lookup_filter_key t.entries id j

theorem ports_drop {id : ℕ} {e : Entry T} (h : t.entry id = some e) (now : T) (p : BitVec 16) :
    (t.drop id now).ports.lookup p = if p = e.port then none else t.ports.lookup p := by
  rw [drop, h]
  exact lookup_filter_key t.ports e.port p

theorem retired_drop {id : ℕ} {e : Entry T} (h : t.entry id = some e) (now : T)
    (p : BitVec 16) :
    (t.drop id now).retired.lookup p =
      if p = e.port then some (Clock.add now (Clock.seconds 120)) else t.retired.lookup p := by
  rw [drop, h]
  dsimp only
  rw [lookup_cons, lookup_filter_key]
  split
  · rfl
  · rfl

structure Table (t : TunnelStreams T) : Prop where
  inverse : ∀ id port, t.ports.lookup port = some id ↔ ∃ e, t.entry id = some e ∧ e.port = port
  nodup : (t.entries.map Prod.fst).Nodup
  fresh : ∀ id, t.nextID ≤ id → t.entry id = none
  few : t.entries.length ≤ 8
  ephemeral : ∀ id e, t.entry id = some e → 49152 ≤ e.port.toNat
  unretired : ∀ id e, t.entry id = some e → t.retired.lookup e.port = none

theorem Table.port_inj (h : Table t) {i j : ℕ} {e e' : Entry T} (hi : t.entry i = some e)
    (hj : t.entry j = some e') (hport : e.port = e'.port) : i = j := by
  have hpi := (h.inverse i e.port).mpr ⟨e, hi, rfl⟩
  have hpj := (h.inverse j e.port).mpr ⟨e', hj, hport.symm⟩
  rw [hpi] at hpj
  exact Option.some.inj hpj

omit [Clock T] in
theorem length_setTCP (t : TunnelStreams T) (id : ℕ) (tcp : TunnelTCP T) :
    (t.setTCP id tcp).entries.length = t.entries.length := by
  simp [setTCP]

omit [Clock T] in
theorem port_setTCP {id : ℕ} {tcp : TunnelTCP T} {j : ℕ} {e : Entry T}
    (h : (t.setTCP id tcp).entry j = some e) : ∃ e', t.entry j = some e' ∧ e'.port = e.port := by
  rw [entry_setTCP, Option.map_eq_some_iff] at h
  obtain ⟨e', he', rfl⟩ := h
  refine ⟨e', he', ?_⟩
  split <;> rfl

omit [Clock T] in
theorem Table.setTCP (h : Table t) (id : ℕ) (tcp : TunnelTCP T) :
    Table (t.setTCP id tcp) := by
  refine ⟨?_, ?_, ?_, ?_, ?_, ?_⟩
  · intro j port
    refine (h.inverse j port).trans ?_
    constructor
    · rintro ⟨e, he, rfl⟩
      refine ⟨_, by rw [entry_setTCP, he]; rfl, ?_⟩
      split <;> rfl
    · rintro ⟨e, he, rfl⟩
      exact port_setTCP he
  · rw [keys_setTCP]
    exact h.nodup
  · intro j hj
    rw [entry_setTCP, h.fresh j hj]
    rfl
  · rw [length_setTCP]
    exact h.few
  · intro j e he
    obtain ⟨e', he', hport⟩ := port_setTCP he
    rw [← hport]
    exact h.ephemeral j e' he'
  · intro j e he
    obtain ⟨e', he', hport⟩ := port_setTCP he
    rw [← hport]
    exact h.unretired j e' he'

theorem Table.drop (h : Table t) (id : ℕ) (now : T) : Table (t.drop id now) := by
  cases he : t.entry id with
  | none =>
      rw [TunnelStreams.drop, he]
      exact h
  | some e =>
      refine ⟨?_, ?_, ?_, ?_, ?_, ?_⟩
      · intro j port
        rw [ports_drop he, entry_drop]
        by_cases hport : port = e.port
        · rw [if_pos hport]
          constructor
          · intro hnone
            cases hnone
          · rintro ⟨e', he', heq⟩
            split at he'
            · cases he'
            · rename_i hj
              exact absurd (h.port_inj he' he (heq.trans hport)) hj
        · rw [if_neg hport, h.inverse]
          constructor
          · rintro ⟨e', he', heq⟩
            have hj : j ≠ id := by
              rintro rfl
              rw [he] at he'
              cases he'
              exact hport heq.symm
            exact ⟨e', by rw [if_neg hj]; exact he', heq⟩
          · rintro ⟨e', he', heq⟩
            split at he'
            · cases he'
            · exact ⟨e', he', heq⟩
      · exact h.nodup.sublist (keys_drop t id now)
      · intro j hj
        rw [nextID_drop] at hj
        rw [entry_drop, h.fresh j hj]
        split <;> rfl
      · have hlength := (keys_drop t id now).length_le
        rw [List.length_map, List.length_map] at hlength
        exact hlength.trans h.few
      · intro j e' he'
        rw [entry_drop] at he'
        split at he'
        · cases he'
        · exact h.ephemeral j e' he'
      · intro j e' he'
        rw [entry_drop] at he'
        split at he'
        · cases he'
        · rename_i hj
          rw [retired_drop he, if_neg]
          · exact h.unretired j e' he'
          · intro hport
            exact hj (h.port_inj he' he hport)

/-! ## Moves -/

def restUntil (now : T) : T := Clock.add now (Clock.seconds 120)

/-- What the steps of some streams in one call do together. -/
structure Moved (now : T) (t t' : TunnelStreams T) (events : List Event) : Prop where
  lastTime : t'.lastTime = t.lastTime
  nextID : t'.nextID = t.nextID
  table : Table t → Table t'
  kept : ∀ j e', t'.entry j = some e' → ∃ e, t.entry j = some e ∧ e.port = e'.port
  left : ∀ j e, t.entry j = some e → t'.entry j = none → Clock.lt now (restUntil now) = true →
    t'.retired.lookup e.port = some (restUntil now)
  resting : ∀ p v, (∀ j e, t.entry j = some e → e.port ≠ p) → t.retired.lookup p = some v →
    Clock.lt now v = true → t'.retired.lookup p = some v
  absent : ∀ j, t.entry j = none → told j events = []
  running : ∀ j, t.entry j ≠ none → t'.entry j ≠ none → Running (told j events)
  finished : ∀ j, t.entry j ≠ none → t'.entry j = none → Finished (told j events)

theorem Moved.refl (now : T) (t : TunnelStreams T) : Moved now t t [] := by
  refine ⟨rfl, rfl, id, ?_, ?_, ?_, ?_, ?_, ?_⟩
  · intro j e he
    exact ⟨e, he, rfl⟩
  · intro j e he hnone
    rw [he] at hnone
    cases hnone
  · intro p v _ hv _
    exact hv
  · intro j _
    rfl
  · intro j _ _
    exact running_nil
  · intro j hsome hnone
    exact absurd hnone hsome

theorem Moved.gone {now : T} {events : List Event} (h : Moved now t t' events) {j : ℕ}
    (hj : t.entry j = none) : t'.entry j = none := by
  cases hj' : t'.entry j with
  | none => rfl
  | some e' =>
      obtain ⟨e, he, -⟩ := h.kept j e' hj'
      rw [hj] at he
      cases he

theorem Moved.trans {now : T} {events more : List Event} (ht : Table t)
    (h : Moved now t t' events) (h' : Moved now t' t'' more) :
    Moved now t t'' (events ++ more) := by
  refine ⟨h'.lastTime.trans h.lastTime, h'.nextID.trans h.nextID, fun _ => h'.table (h.table ht),
    ?_, ?_, ?_, ?_, ?_, ?_⟩
  · intro j e'' he''
    obtain ⟨e', he', hport'⟩ := h'.kept j e'' he''
    obtain ⟨e, he, hport⟩ := h.kept j e' he'
    exact ⟨e, he, hport.trans hport'⟩
  · intro j e he hnone hlt
    cases hj : t'.entry j with
    | none =>
        refine h'.resting e.port (restUntil now) ?_ (h.left j e he hj hlt) hlt
        intro i e' he' hport'
        obtain ⟨e₀, he₀, hport⟩ := h.kept i e' he'
        have hij : i = j := ht.port_inj he₀ he (hport.trans hport')
        rw [hij, hj] at he'
        cases he'
    | some e' =>
        obtain ⟨e₀, he₀, hport⟩ := h.kept j e' hj
        rw [he] at he₀
        cases he₀
        rw [hport]
        exact h'.left j e' hj hnone hlt
  · intro p v hfree hv hlt
    refine h'.resting p v ?_ (h.resting p v hfree hv hlt) hlt
    intro j e' he'
    obtain ⟨e, he, hport⟩ := h.kept j e' he'
    rw [← hport]
    exact hfree j e he
  · intro j hj
    rw [told_append, h.absent j hj, h'.absent j (h.gone hj)]
    rfl
  · intro j hj hj''
    have hj' : t'.entry j ≠ none := fun hnone => hj'' (h'.gone hnone)
    rw [told_append]
    exact (h.running j hj hj').append (h'.running j hj' hj'')
  · intro j hj hj''
    rw [told_append]
    by_cases hj' : t'.entry j = none
    · rw [h'.absent j hj', List.append_nil]
      exact h.finished j hj hj'
    · exact (h.running j hj hj').finish (h'.finished j hj' hj'')

omit [Clock T] in
theorem setTCP_eq_none {id j : ℕ} {tcp : TunnelTCP T} :
    (t.setTCP id tcp).entry j = none ↔ t.entry j = none := by
  rw [entry_setTCP, Option.map_eq_none_iff]

theorem lastTime_drop (t : TunnelStreams T) (id : ℕ) (now : T) :
    (t.drop id now).lastTime = t.lastTime := by
  unfold drop
  split <;> rfl

theorem moved_translate {id : ℕ} {e : Entry T} (he : t.entry id = some e)
    {r : TunnelTCP T × List TunnelTCP.Event} (honce : TunnelTCP.endings r.2 ≤ 1) (now : T)
    (c : Bool) :
    Moved now t ((t.setTCP id r.1).translate r.2 id now c).1
      ((t.setTCP id r.1).translate r.2 id now c).2 := by
  obtain ⟨hfinished, hrunning⟩ := told_translate (t.setTCP id r.1) id now c honce
  have hother : ∀ j, j ≠ id → told j ((t.setTCP id r.1).translate r.2 id now c).2 = [] :=
    fun j hj => told_other hj c (r.2.any terminal) r.2
  have habsent : ∀ j, t.entry j = none →
      told j ((t.setTCP id r.1).translate r.2 id now c).2 = [] := by
    intro j hj
    refine hother j ?_
    rintro rfl
    rw [he] at hj
    cases hj
  cases hended : r.2.any terminal with
  | false =>
      have hstate : ((t.setTCP id r.1).translate r.2 id now c).1 = t.setTCP id r.1 := by
        rw [translate, hended]
        rfl
      rw [hstate]
      refine ⟨rfl, rfl, fun ht => ht.setTCP id r.1, ?_, ?_, ?_, habsent, ?_, ?_⟩
      · intro j e' he'
        exact port_setTCP he'
      · intro j e' he' hnone
        rw [setTCP_eq_none, he'] at hnone
        cases hnone
      · intro p v _ hv _
        exact hv
      · intro j _ _
        by_cases hj : j = id
        · rw [hj]
          exact hrunning hended
        · rw [hother j hj]
          exact running_nil
      · intro j hsome hnone
        exact absurd (setTCP_eq_none.mp hnone) hsome
  | true =>
      have hstate : ((t.setTCP id r.1).translate r.2 id now c).1 =
          (t.setTCP id r.1).drop id now := by
        rw [translate, hended]
        rfl
      obtain ⟨e₁, he₁⟩ : ∃ e₁, (t.setTCP id r.1).entry id = some e₁ := exists_setTCP he
      have hport : e₁.port = e.port := by
        obtain ⟨e₂, he₂, hport⟩ := port_setTCP he₁
        rw [he] at he₂
        cases he₂
        exact hport.symm
      rw [hstate]
      refine ⟨lastTime_drop _ _ _, nextID_drop _ _ _, fun ht => (ht.setTCP id r.1).drop id now,
        ?_, ?_, ?_, habsent, ?_, ?_⟩
      · intro j e' he'
        rw [entry_drop] at he'
        split at he'
        · cases he'
        · exact port_setTCP he'
      · intro j e' he' hnone _
        have hj : j = id := by
          by_contra hj
          rw [entry_drop, if_neg hj, setTCP_eq_none, he'] at hnone
          cases hnone
        rw [hj, he] at he'
        cases he'
        rw [retired_drop he₁, if_pos hport.symm]
        rfl
      · intro p v hfree hv _
        rw [retired_drop he₁, if_neg]
        · exact hv
        · rw [hport]
          exact fun heq => hfree id e he heq.symm
      · intro j _ hsome
        by_cases hj : j = id
        · rw [entry_drop, if_pos hj] at hsome
          exact absurd rfl hsome
        · rw [hother j hj]
          exact running_nil
      · intro j hsome hnone
        by_cases hj : j = id
        · rw [hj]
          exact hfinished hended
        · rw [entry_drop, if_neg hj, setTCP_eq_none] at hnone
          exact absurd hnone hsome

theorem advance_ok {now : T} (h : t.advance now = .ok t') :
    Clock.isFinite now = true ∧ Clock.ge now t.lastTime = true ∧
      t' = { t with lastTime := now, retired := t.retired.filter fun r => Clock.lt now r.2 } := by
  unfold advance at h
  split_ifs at h with hstopped htime
  cases h
  exact ⟨htime.1, htime.2, rfl⟩

theorem Table.advance {now : T} (h : Table t) (hok : t.advance now = .ok t') : Table t' := by
  obtain ⟨-, -, rfl⟩ := advance_ok hok
  refine ⟨h.inverse, h.nodup, h.fresh, h.few, h.ephemeral, ?_⟩
  intro id e he
  exact lookup_filter_none _ (h.unretired id e he)

/-- A second look at the clock at the same time. -/
theorem moved_advance {now : T} (hnow : t.lastTime = now) (hok : t.advance now = .ok t') :
    Moved now t t' [] := by
  have htable : Table t → Table t' := fun h => h.advance hok
  obtain ⟨-, -, rfl⟩ := advance_ok hok
  refine ⟨hnow.symm, rfl, htable, ?_, ?_, ?_, ?_, ?_, ?_⟩
  · intro j e he
    exact ⟨e, he, rfl⟩
  · intro j e he hnone
    exact absurd (he.symm.trans hnone) (by simp)
  · intro p v _ hv hlt
    exact lookup_filter_value hv hlt
  · intro j _
    rfl
  · intro j _ _
    exact running_nil
  · intro j hsome hnone
    exact absurd hnone hsome

theorem tickLoop_moved (now : T) (ids : List ℕ) (ht : Table t) :
    Moved now t (tickLoop now ids t).1 (tickLoop now ids t).2 := by
  induction ids generalizing t with
  | nil => exact .refl now t
  | cons id ids ih =>
      rw [tickLoop]
      cases he : t.entry id with
      | none => exact ih ht
      | some e =>
          have hmove := moved_translate he (TunnelTCP.endings_tick e.tcp now) now false
          exact hmove.trans ht (ih (hmove.table ht))

theorem callTCP_moved {id : ℕ} {now : T}
    {f : TunnelTCP T → Except TunnelTCP.Failure (TunnelTCP T × List TunnelTCP.Event)}
    (hf : ∀ tcp r, f tcp = .ok r → TunnelTCP.endings r.2 ≤ 1) (hok : t.advance now = .ok t') :
    Moved now t' (reported (fun events => events) (t.callTCP id now f)).1
      (reported (fun events => events) (t.callTCP id now f)).2 := by
  unfold callTCP
  rw [hok]
  dsimp only
  cases he : t'.entry id with
  | none => exact .refl now t'
  | some e =>
      cases hcall : f e.tcp with
      | error failure =>
          simp only [hcall]
          exact .refl now t'
      | ok r =>
          simp only [hcall]
          exact moved_translate he (hf e.tcp r hcall) now false

theorem cancel_moved {now : T} (hok : t.advance now = .ok t') (id : ℕ) :
    ∃ t'' events, t.cancel id now = (t'', .ok events) ∧ Moved now t' t'' events ∧
      t''.stopped = t'.stopped := by
  unfold cancel
  rw [hok]
  dsimp only
  cases he : t'.entry id with
  | none => exact ⟨t', [], rfl, .refl now t', rfl⟩
  | some e =>
      refine ⟨_, _, rfl, moved_translate he (TunnelTCP.endings_abort e.tcp) now true, ?_⟩
      unfold translate
      dsimp only
      split
      · unfold drop
        split <;> rfl
      · rfl

/-- All streams are cancelled, at a time that was just accepted. -/
theorem stopLoop_moved [LawfulClock T] {now : T} (hfinite : Clock.isFinite now = true)
    (ids : List ℕ) (ht : Table t) (hnow : t.lastTime = now) (hrunning : t.stopped = false) :
    ∃ t' events, stopLoop now ids t = (t', .ok events) ∧ Moved now t t' events := by
  induction ids generalizing t with
  | nil => exact ⟨t, [], rfl, .refl now t⟩
  | cons id ids ih =>
      have hadvance : t.advance now = .ok
          { t with lastTime := now, retired := t.retired.filter fun r => Clock.lt now r.2 } := by
        have hge : Clock.ge now t.lastTime = true := by
          rw [hnow]
          exact (LawfulClock.ge_iff hfinite hfinite).mpr le_rfl
        rw [advance, if_neg (by simp [hrunning]), if_neg (by simp [hfinite, hge])]
      have hagain := moved_advance hnow hadvance
      obtain ⟨t₁, events, hcancel, hmoved, hstopped⟩ := cancel_moved hadvance id
      have hfirst := hagain.trans ht hmoved
      obtain ⟨t₂, more, hloop, hrest⟩ := ih (hfirst.table ht) (hfirst.lastTime.trans hnow)
        (hstopped.trans hrunning)
      refine ⟨t₂, events ++ more, ?_, hfirst.trans ht hrest⟩
      rw [stopLoop, hcancel]
      simp only [hloop]

theorem Moved.stopped {now : T} {events : List Event} (h : Moved now t t' events) :
    Moved now t { t' with stopped := true } events :=
  ⟨h.lastTime, h.nextID, fun ht => ⟨(h.table ht).inverse, (h.table ht).nodup, (h.table ht).fresh,
    (h.table ht).few, (h.table ht).ephemeral, (h.table ht).unretired⟩, h.kept, h.left, h.resting,
    h.absent, h.running, h.finished⟩

/-! ## Opening -/

/-- A new stream on a free port. -/
structure Opened (t t' : TunnelStreams T) (port : BitVec 16) (tcp : TunnelTCP T) : Prop where
  ephemeral : 49152 ≤ port.toNat
  free : t.ports.lookup port = none
  rested : t.retired.lookup port = none
  room : t.entries.length < 8
  table : t' =
    { t with
      entries := t.entries ++ [(t.nextID, ⟨port, tcp⟩)]
      ports := (port, t.nextID) :: t.ports
      nextID := t.nextID + 1 }

theorem freePort_some {start fuel : ℕ} {port : BitVec 16} (h : t.freePort start fuel = some port) :
    49152 ≤ port.toNat ∧ t.ports.lookup port = none ∧ t.retired.lookup port = none := by
  induction fuel with
  | zero => cases h
  | succ fuel ih =>
      rw [freePort] at h
      split at h
      · rename_i hfree
        cases h
        refine ⟨?_, hfree.1, Option.isNone_iff_eq_none.mp hfree.2⟩
        rw [BitVec.toNat_ofNat]
        omega
      · exact ih h

omit [Clock T] in
theorem Opened.entry {port : BitVec 16} {tcp : TunnelTCP T} (h : Opened t t' port tcp)
    (ht : Table t) (j : ℕ) :
    t'.entry j = if j = t.nextID then some ⟨port, tcp⟩ else t.entry j := by
  rw [h.table]
  exact lookup_concat (ht.fresh t.nextID le_rfl) _ j

theorem Opened.sound {port : BitVec 16} {tcp : TunnelTCP T} (h : Opened t t' port tcp)
    (ht : Table t) : Table t' := by
  have hentry := h.entry ht
  have hnew : t.entry t.nextID = none := ht.fresh t.nextID le_rfl
  have hports : ∀ p, t'.ports.lookup p =
      if p = port then some t.nextID else t.ports.lookup p := by
    intro p
    rw [h.table]
    exact lookup_cons port t.nextID t.ports p
  have hretired : t'.retired = t.retired := by rw [h.table]
  have hnext : t'.nextID = t.nextID + 1 := by rw [h.table]
  refine ⟨?_, ?_, ?_, ?_, ?_, ?_⟩
  · intro j p
    rw [hports, hentry]
    by_cases hp : p = port
    · subst hp
      rw [if_pos rfl]
      constructor
      · intro heq
        rw [if_pos (Option.some.inj heq).symm]
        exact ⟨_, rfl, rfl⟩
      · rintro ⟨e, he, hport⟩
        split at he
        · rename_i hj
          rw [hj]
        · have hlive := (ht.inverse j p).mpr ⟨e, he, hport⟩
          rw [h.free] at hlive
          cases hlive
    · rw [if_neg hp, ht.inverse]
      constructor
      · rintro ⟨e, he, hport⟩
        have hj : j ≠ t.nextID := by
          rintro rfl
          rw [hnew] at he
          cases he
        exact ⟨e, by rw [if_neg hj]; exact he, hport⟩
      · rintro ⟨e, he, hport⟩
        split at he
        · cases he
          exact absurd hport.symm hp
        · exact ⟨e, he, hport⟩
  · rw [h.table]
    simp only [List.map_append, List.map_cons, List.map_nil]
    refine List.nodup_append.mpr ⟨ht.nodup, by simp, ?_⟩
    intro j hj k hk hjk
    rw [List.mem_singleton] at hk
    obtain ⟨x, hx, rfl⟩ := List.mem_map.mp hj
    rw [TunnelStreams.entry, List.lookup_eq_none_iff] at hnew
    have hne := hnew x hx
    rw [hjk, hk] at hne
    simp at hne
  · intro j hj
    rw [hnext] at hj
    rw [hentry, if_neg (by omega)]
    exact ht.fresh j (by omega)
  · have hroom := h.room
    rw [h.table]
    simp only [List.length_append, List.length_singleton]
    omega
  · intro j e he
    rw [hentry] at he
    split at he
    · cases he
      exact h.ephemeral
    · exact ht.ephemeral j e he
  · intro j e he
    rw [hretired]
    rw [hentry] at he
    split at he
    · cases he
      exact h.rested
    · exact ht.unretired j e he

/-- A call of `open` at an accepted time fails, or adds a stream and moves it. -/
theorem openStream_cases {now : T} (hok : t.advance now = .ok t') (ht : Table t')
    (port : BitVec 16) (start isn : BitVec 32) :
    (∃ failure, t.openStream port now start isn = (t', .error failure)) ∨
      ∃ t₁ localPort tcp, Opened t' t₁ localPort tcp ∧
        Moved now t₁ (reported Prod.snd (t.openStream port now start isn)).1
          (reported Prod.snd (t.openStream port now start isn)).2 ∧
        ∀ id events, (t.openStream port now start isn).2 = .ok (id, events) → id = t'.nextID := by
  unfold openStream
  rw [hok]
  dsimp only
  split
  · exact .inl ⟨_, rfl⟩
  · split
    · exact .inl ⟨_, rfl⟩
    · rename_i hroom
      cases hport : t'.freePort (start.toNat % 16384) 16384 with
      | none => exact .inl ⟨_, rfl⟩
      | some localPort =>
          obtain ⟨hephemeral, hfree, hrested⟩ := freePort_some hport
          dsimp only
          cases htcp : (TunnelTCP.init ⟨t'.configuration.clientAddress,
              t'.configuration.serverAddress, localPort, port⟩ t'.configuration.mtu isn :
              Option (TunnelTCP T)) with
          | none => exact .inl ⟨_, rfl⟩
          | some tcp =>
              have hopened : Opened t'
                  { t' with
                    entries := t'.entries ++ [(t'.nextID, ⟨localPort, tcp⟩)]
                    ports := (localPort, t'.nextID) :: t'.ports
                    nextID := t'.nextID + 1 } localPort tcp :=
                ⟨hephemeral, hfree, hrested, by omega, rfl⟩
              dsimp only
              cases hconnect : tcp.connect now with
              | error failure =>
                  refine .inr ⟨_, localPort, tcp, hopened, .refl now _, ?_⟩
                  intro id events hevents
                  cases hevents
              | ok r =>
                  have hsound : ∀ j, TunnelStreams.entry
                      { t' with
                        entries := t'.entries ++ [(t'.nextID, ⟨localPort, tcp⟩)]
                        ports := (localPort, t'.nextID) :: t'.ports
                        nextID := t'.nextID + 1 } j =
                      if j = t'.nextID then some ⟨localPort, tcp⟩ else t'.entry j :=
                    hopened.entry ht
                  have hentry := hsound t'.nextID
                  rw [if_pos rfl] at hentry
                  have honce : TunnelTCP.endings r.2 ≤ 1 := by
                    rw [TunnelTCP.endings_of_any (TunnelTCP.connect_buffer hconnect).2]
                    exact Nat.zero_le 1
                  refine .inr ⟨_, localPort, tcp, hopened, moved_translate hentry honce now false,
                    ?_⟩
                  intro id events hevents
                  cases hevents
                  rfl

/-! ## Runs -/

/-- A call of the owner of the streams. The order of `tick` and `stop` is the one the
dictionary happens to have. -/
inductive Operation (T : Type) where
  | openStream (port : BitVec 16) (now : T) (start isn : BitVec 32)
  | receive (packet : List UInt8) (now : T)
  | write (id : ℕ) (data : List UInt8) (now : T)
  | read (id maximum : ℕ) (now : T)
  | shutdownWrite (id : ℕ) (now : T)
  | cancel (id : ℕ) (now : T)
  | tick (order : List ℕ) (now : T)
  | stop (order : List ℕ) (now : T)

def Operation.now : Operation T → T
  | .openStream _ now _ _ => now
  | .receive _ now => now
  | .write _ _ now => now
  | .read _ _ now => now
  | .shutdownWrite _ now => now
  | .cancel _ now => now
  | .tick _ now => now
  | .stop _ now => now

/-- The table after a call and what the call reports; nothing, if it throws. -/
def operate (t : TunnelStreams T) : Operation T → TunnelStreams T × List Event
  | .openStream port now start isn => reported Prod.snd (t.openStream port now start isn)
  | .receive packet now => reported (fun events => events) (t.receive packet now)
  | .write stream data now => reported (fun events => events) (t.write stream data now)
  | .read stream maximum now => reported Prod.snd (t.read stream maximum now)
  | .shutdownWrite stream now => reported (fun events => events) (t.shutdownWrite stream now)
  | .cancel stream now => reported (fun events => events) (t.cancel stream now)
  | .tick order now => reported (fun events => events) (t.tick order now)
  | .stop order now => reported (fun events => events) (t.stop order now)

/-- The streams with all that was reported, and the ports of the streams that left the
table with the times of the calls they left in. -/
structure History (T : Type) where
  streams : TunnelStreams T
  log : List Event
  ended : List (BitVec 16 × T)

namespace History

def start (configuration : CDTunnelConfiguration) : History T :=
  ⟨TunnelStreams.init configuration, [], []⟩

def left (t t' : TunnelStreams T) (now : T) : List (BitVec 16 × T) :=
  (t.entries.filter fun x => (t'.entry x.1).isNone).map fun x => (x.2.port, now)

def step (o : History T) (operation : Operation T) : History T :=
  { streams := (o.streams.operate operation).1
    log := o.log ++ (o.streams.operate operation).2
    ended := o.ended ++ left o.streams (o.streams.operate operation).1 operation.now }

def run (o : History T) (operations : List (Operation T)) : History T := operations.foldl step o

end History

theorem receive_moved {packet : List UInt8} {now : T} (hok : t.advance now = .ok t') :
    Moved now t' (reported (fun events => events) (t.receive packet now)).1
      (reported (fun events => events) (t.receive packet now)).2 := by
  unfold receive
  rw [hok]
  dsimp only
  cases hroute : t'.route packet with
  | none => exact .refl now t'
  | some found =>
      obtain ⟨id, e⟩ := found
      exact moved_translate (entry_of_route hroute) (TunnelTCP.endings_receive e.tcp packet now)
        now false

theorem read_moved {id maximum : ℕ} {now : T} (hok : t.advance now = .ok t') :
    Moved now t' (reported Prod.snd (t.read id maximum now)).1
      (reported Prod.snd (t.read id maximum now)).2 := by
  unfold read
  rw [hok]
  dsimp only
  split
  · exact .refl now t'
  · cases he : t'.entry id with
    | none => exact .refl now t'
    | some e =>
        have honce : TunnelTCP.endings (e.tcp.read maximum).2.2 ≤ 1 := by
          rw [TunnelTCP.endings_of_any (TunnelTCP.read_buffer e.tcp maximum).2]
          exact Nat.zero_le 1
        exact moved_translate he honce now false

theorem stop_moved [LawfulClock T] {order : List ℕ} {now : T} (hok : t.advance now = .ok t')
    (ht : Table t') :
    Moved now t' (reported (fun events => events) (t.stop order now)).1
      (reported (fun events => events) (t.stop order now)).2 := by
  obtain ⟨hfinite, -, heq⟩ := advance_ok hok
  have hnow : t'.lastTime = now := by rw [heq]
  have hrunning : t'.stopped = false := by
    rw [heq]
    unfold advance at hok
    split_ifs at hok with hstopped
    exact Bool.eq_false_iff.mpr hstopped
  obtain ⟨t₁, events, hloop, hmoved⟩ := stopLoop_moved hfinite (t'.ordered order) ht hnow hrunning
  unfold stop
  rw [hok]
  simp only [hloop]
  exact hmoved.stopped

/-- What a call can do: nothing, or after a look at the clock it moves streams, of which
`open` may have added one. -/
theorem operate_cases [LawfulClock T] (ht : Table t) (operation : Operation T) :
    t.operate operation = (t, []) ∨
      ∃ t₁, t.advance operation.now = .ok t₁ ∧
        (Moved operation.now t₁ (t.operate operation).1 (t.operate operation).2 ∨
          ∃ t₂ port tcp, Opened t₁ t₂ port tcp ∧
            Moved operation.now t₂ (t.operate operation).1 (t.operate operation).2) := by
  cases hadvance : t.advance operation.now with
  | error failure =>
      -- Every call looks at the clock first.
      left
      cases operation <;> simp only [Operation.now] at hadvance <;>
        simp only [operate, openStream, receive, write, shutdownWrite, callTCP, read, cancel,
          tick, stop, hadvance] <;> rfl
  | ok t₁ =>
      have ht₁ := ht.advance hadvance
      refine .inr ⟨t₁, rfl, ?_⟩
      cases operation with
      | openStream port now start isn =>
          change t.advance now = _ at hadvance
          rcases openStream_cases hadvance ht₁ port start isn with ⟨failure, hfailed⟩ |
            ⟨t₂, localPort, tcp, hopened, hmoved, -⟩
          · left
            simp only [operate, Operation.now, hfailed]
            exact .refl now t₁
          · exact .inr ⟨t₂, localPort, tcp, hopened, hmoved⟩
      | receive packet now => exact .inl (receive_moved hadvance)
      | write id data now =>
          refine .inl (callTCP_moved (fun tcp r h => ?_) hadvance)
          rw [TunnelTCP.endings_of_any (TunnelTCP.write_buffer h).2]
          exact Nat.zero_le 1
      | read id maximum now => exact .inl (read_moved hadvance)
      | shutdownWrite id now =>
          refine .inl (callTCP_moved (fun tcp r h => ?_) hadvance)
          rw [TunnelTCP.endings_of_any (TunnelTCP.shutdownWrite_buffer h).2]
          exact Nat.zero_le 1
      | cancel id now =>
          change t.advance now = _ at hadvance
          obtain ⟨t₂, events, hcancel, hmoved, -⟩ := cancel_moved hadvance id
          left
          simp only [operate, Operation.now, hcancel]
          exact hmoved
      | tick order now =>
          left
          change t.advance now = _ at hadvance
          simp only [operate, Operation.now, TunnelStreams.tick, hadvance]
          exact tickLoop_moved now _ ht₁
      | stop order now => exact .inl (stop_moved hadvance ht₁)

omit [Clock T] in
theorem entry_of_mem (hnodup : (t.entries.map Prod.fst).Nodup) {id : ℕ} {e : Entry T}
    (h : (id, e) ∈ t.entries) : t.entry id = some e := by
  cases he : t.entry id with
  | none =>
      rw [entry, List.lookup_eq_none_iff] at he
      simpa using he (id, e) h
  | some e' =>
      have hpair := List.inj_on_of_nodup_map hnodup h (mem_of_lookup he) rfl
      rw [(Prod.mk.inj hpair).2]

/-- What a run keeps. -/
structure History.Sound (o : History T) : Prop where
  table : Table o.streams
  finite : Clock.isFinite o.streams.lastTime = true
  rested : ∀ p s, (p, s) ∈ o.ended → Clock.isFinite (restUntil s) = true →
    Clock.lt o.streams.lastTime (restUntil s) = true →
    o.streams.retired.lookup p = some (restUntil s)
  unopened : ∀ id, o.streams.nextID ≤ id → told id o.log = []
  running : ∀ id, o.streams.entry id ≠ none → Running (told id o.log)
  finished : ∀ id, id < o.streams.nextID → o.streams.entry id = none → Finished (told id o.log)

namespace History

variable {o : History T}

theorem Sound.advance [LawfulClock T] {now : T} (h : Sound o)
    (hok : o.streams.advance now = .ok t) : Sound { o with streams := t } := by
  have htable := h.table.advance hok
  obtain ⟨hnow, hge, rfl⟩ := advance_ok hok
  refine ⟨htable, hnow, ?_, h.unopened, h.running, h.finished⟩
  intro p s hs hrest hlt
  -- A port that rests now has rested at the last call too.
  have hearlier : Clock.lt o.streams.lastTime (restUntil s) = true := by
    rw [LawfulClock.lt_iff h.finite hrest]
    exact ((LawfulClock.ge_iff hnow h.finite).mp hge).trans_lt
      ((LawfulClock.lt_iff hnow hrest).mp hlt)
  exact lookup_filter_value (h.rested p s hs hrest hearlier) hlt

theorem Sound.moved {now : T} {events : List Event} (h : Sound o)
    (hnow : o.streams.lastTime = now) (hmoved : Moved now o.streams t events) :
    Sound ⟨t, o.log ++ events, o.ended ++ left o.streams t now⟩ := by
  refine ⟨hmoved.table h.table, ?_, ?_, ?_, ?_, ?_⟩
  · rw [hmoved.lastTime]
    exact h.finite
  · intro p s hs hrest hlt
    dsimp only at hlt ⊢
    rw [hmoved.lastTime] at hlt
    rcases List.mem_append.mp hs with hs | hs
    · have hresting := h.rested p s hs hrest hlt
      rw [hnow] at hlt
      refine hmoved.resting p _ ?_ hresting hlt
      intro j e he hport
      have hfree := h.table.unretired j e he
      rw [hport, hresting] at hfree
      cases hfree
    · obtain ⟨⟨j, e⟩, hmem, heq⟩ := List.mem_map.mp hs
      rw [List.mem_filter, Option.isNone_iff_eq_none] at hmem
      cases heq
      rw [hnow] at hlt
      exact hmoved.left j e (entry_of_mem h.table.nodup hmem.1) hmem.2 hlt
  · intro id hid
    dsimp only at hid ⊢
    rw [hmoved.nextID] at hid
    rw [told_append, h.unopened id hid, hmoved.absent id (h.table.fresh id hid)]
    rfl
  · intro id hlive
    dsimp only at hlive ⊢
    have hbefore : o.streams.entry id ≠ none := fun hnone => hlive (hmoved.gone hnone)
    rw [told_append]
    exact (h.running id hbefore).append (hmoved.running id hbefore hlive)
  · intro id hid hgone
    dsimp only at hid hgone ⊢
    rw [hmoved.nextID] at hid
    rw [told_append]
    by_cases hbefore : o.streams.entry id = none
    · rw [hmoved.absent id hbefore, List.append_nil]
      exact h.finished id hid hbefore
    · exact (h.running id hbefore).finish (hmoved.finished id hbefore hgone)

theorem Sound.opened {port : BitVec 16} {tcp : TunnelTCP T} (h : Sound o)
    (hopened : Opened o.streams t port tcp) : Sound { o with streams := t } := by
  have hentry := hopened.entry h.table
  have hnext : t.nextID = o.streams.nextID + 1 := by rw [hopened.table]
  refine ⟨hopened.sound h.table, ?_, ?_, ?_, ?_, ?_⟩
  · rw [hopened.table]
    exact h.finite
  · rw [hopened.table]
    exact h.rested
  · intro id hid
    dsimp only at hid
    rw [hnext] at hid
    exact h.unopened id (by omega)
  · intro id hlive
    dsimp only at hlive ⊢
    by_cases hid : id = o.streams.nextID
    · rw [h.unopened id hid.ge]
      exact running_nil
    · rw [hentry, if_neg hid] at hlive
      exact h.running id hlive
  · intro id hid hgone
    dsimp only at hid hgone ⊢
    rw [hentry] at hgone
    split at hgone
    · cases hgone
    · rename_i hne
      rw [hnext] at hid
      exact h.finished id (by omega) hgone

theorem left_congr {now : T} (hentries : t'.entries = t.entries) :
    left t' t'' now = left t t'' now := by
  rw [left, hentries]
  rfl

theorem left_opened {now : T} {port : BitVec 16} {tcp : TunnelTCP T}
    (h : Opened t t' port tcp) {x : BitVec 16 × T} (hx : x ∈ left t t'' now) :
    x ∈ left t' t'' now := by
  obtain ⟨y, hy, rfl⟩ := List.mem_map.mp hx
  rw [List.mem_filter] at hy
  refine List.mem_map.mpr ⟨y, List.mem_filter.mpr ⟨?_, hy.2⟩, rfl⟩
  rw [h.table]
  exact List.mem_append_left _ hy.1

/-- Fewer ports to watch. -/
theorem Sound.mono {ended : List (BitVec 16 × T)} (h : Sound o)
    (hsub : ∀ x ∈ ended, x ∈ o.ended) : Sound { o with ended := ended } :=
  ⟨h.table, h.finite, fun p s hs => h.rested p s (hsub _ hs), h.unopened, h.running,
    h.finished⟩

theorem Sound.step [LawfulClock T] (h : Sound o) (operation : Operation T) :
    Sound (o.step operation) := by
  rcases operate_cases h.table operation with hsame | ⟨t₁, hadvance, hmoves⟩
  · have hleft : left o.streams o.streams operation.now = [] := by
      rw [left, List.map_eq_nil_iff, List.filter_eq_nil_iff]
      rintro ⟨id, e⟩ hmem
      simp [entry_of_mem h.table.nodup hmem]
    have hstep : o.step operation = o := by
      rw [History.step, hsame]
      dsimp only
      rw [hleft, List.append_nil, List.append_nil]
    rw [hstep]
    exact h
  · have hentries : t₁.entries = o.streams.entries := (advance_table hadvance).1
    have hnow : t₁.lastTime = operation.now := by
      rw [(advance_ok hadvance).2.2]
    have hadvanced := h.advance hadvance
    unfold History.step
    rw [← left_congr hentries]
    rcases hmoves with hmoved | ⟨t₂, port, tcp, hopened, hmoved⟩
    · exact hadvanced.moved hnow hmoved
    · have hnow₂ : t₂.lastTime = operation.now := by
        rw [hopened.table]
        exact hnow
      refine ((hadvanced.opened hopened).moved hnow₂ hmoved).mono ?_
      intro x hx
      rcases List.mem_append.mp hx with hx | hx
      · exact List.mem_append_left _ hx
      · exact List.mem_append_right _ (left_opened hopened hx)

theorem sound_start [LawfulClock T] (configuration : CDTunnelConfiguration) :
    Sound (start configuration : History T) := by
  refine ⟨⟨?_, ?_, ?_, ?_, ?_, ?_⟩, LawfulClock.finite_start, ?_, ?_, ?_, ?_⟩ <;>
    simp [start, TunnelStreams.init, TunnelStreams.entry]

theorem Sound.run [LawfulClock T] (h : Sound o) (operations : List (Operation T)) :
    Sound (o.run operations) := by
  induction operations generalizing o with
  | nil => exact h
  | cons operation operations ih => exact ih (h.step operation)

end History

/-- A packet reaches only the stream of the port it names. -/
theorem receive_other (ht : Table t) {packet : List UInt8} {now : T} {id : ℕ} {e : Entry T}
    (he : t.entry id = some e) (hport : e.port ≠ TunnelTCPCodec.u16 packet 42) :
    (reported (fun events => events) (t.receive packet now)).1.entry id = some e ∧
      told id (reported (fun events => events) (t.receive packet now)).2 = [] := by
  unfold receive
  cases hadvance : t.advance now with
  | error failure => exact ⟨he, rfl⟩
  | ok t₁ =>
      have ht₁ := ht.advance hadvance
      have he₁ : t₁.entry id = some e := by
        rw [entry, (advance_table hadvance).1]
        exact he
      dsimp only
      cases hroute : t₁.route packet with
      | none => exact ⟨he₁, rfl⟩
      | some found =>
          obtain ⟨j, e'⟩ := found
          have hj : id ≠ j := by
            rintro rfl
            unfold route at hroute
            split at hroute
            · split at hroute
              · cases hroute
              · rename_i i hi
                obtain ⟨e'', he'', heq⟩ := Option.map_eq_some_iff.mp hroute
                cases heq
                obtain ⟨e₂, he₂, hport₂⟩ := (ht₁.inverse _ _).mp hi
                rw [he₁] at he₂
                cases he₂
                exact hport hport₂
            · cases hroute
          refine ⟨?_, told_other hj false _ _⟩
          change ((t₁.setTCP j (e'.tcp.receive packet now).1).translate
            (e'.tcp.receive packet now).2 j now false).1.entry id = some e
          have hkept : (t₁.setTCP j (e'.tcp.receive packet now).1).entry id = some e := by
            rw [entry_setTCP, he₁]
            simp [hj]
          unfold translate
          dsimp only
          split
          · rw [entry_drop, if_neg hj]
            exact hkept
          · exact hkept

/-- The port a call of `open` gave to its stream. -/
def givenPort : TunnelStreams T × Except Failure (ℕ × List Event) → Option (BitVec 16)
  | (t, .ok (id, _)) => (t.entry id).map Entry.port
  | (_, .error _) => none

theorem History.Sound.given [LawfulClock T] {o : History T} (h : o.Sound) {port : BitVec 16}
    {now : T} {start isn : BitVec 32} {p : BitVec 16}
    (hgiven : givenPort (o.streams.openStream port now start isn) = some p) {s : T}
    (hs : (p, s) ∈ o.ended) (hrest : Clock.isFinite (restUntil s) = true) :
    Clock.isFinite now = true ∧ Clock.lt now (restUntil s) = false := by
  cases hadvance : o.streams.advance now with
  | error failure =>
      rw [openStream, hadvance] at hgiven
      cases hgiven
  | ok t₁ =>
      obtain ⟨hfinite, -, heq⟩ := advance_ok hadvance
      refine ⟨hfinite, ?_⟩
      have hadvanced := h.advance hadvance
      rcases openStream_cases hadvance hadvanced.table port start isn with ⟨failure, hfailed⟩ |
        ⟨t₂, localPort, tcp, hopened, hmoved, hid⟩
      · rw [hfailed] at hgiven
        cases hgiven
      · cases hresult : o.streams.openStream port now start isn with
        | mk t result =>
            rw [hresult] at hgiven hmoved hid
            cases result with
            | error failure => cases hgiven
            | ok opened =>
                obtain ⟨e, he, rfl⟩ := Option.map_eq_some_iff.mp hgiven
                obtain ⟨e₂, he₂, hport⟩ := hmoved.kept opened.1 e he
                rw [hopened.entry hadvanced.table, if_pos (hid opened.1 opened.2 rfl)] at he₂
                cases he₂
                by_contra hlt
                rw [Bool.not_eq_false] at hlt
                have hended : (localPort, s) ∈ o.ended := by
                  rw [show localPort = e.port from hport]
                  exact hs
                have hearly : Clock.lt t₁.lastTime (restUntil s) = true := by
                  rw [heq]
                  exact hlt
                have hresting := hadvanced.rested localPort s hended hrest hearly
                rw [hopened.rested] at hresting
                cases hresting

/-- **The table of the streams.** After any run of the owner's calls the tables are
inverse to each other with at most eight streams on ephemeral ports that do not rest; a
port is given to a new stream only when 120 seconds have passed since each stream that
used it ended, unless that time with 120 seconds added was rounded down; a packet reaches
only the stream whose port it names; and of every stream that was opened, one close is
reported when it leaves the table, and nothing after it. -/
theorem table_run [LawfulClock T] (configuration : CDTunnelConfiguration)
    (operations : List (Operation T)) :
    Table ((History.start configuration).run operations).streams ∧
    (∀ (port : BitVec 16) (now : T) (start isn : BitVec 32) (p : BitVec 16),
      givenPort (((History.start configuration).run operations).streams.openStream port now
        start isn) = some p →
      ∀ s, (p, s) ∈ ((History.start configuration).run operations).ended →
        Clock.isFinite (Clock.add s (Clock.seconds 120)) = true →
        Clock.lt now (Clock.add s (Clock.seconds 120)) = false ∧
          (LawfulClock.value s + 120 ≤ LawfulClock.value (Clock.add s (Clock.seconds 120)) →
            LawfulClock.value s + 120 ≤ LawfulClock.value now)) ∧
    (∀ (packet : List UInt8) (now : T) (id : ℕ) (e : Entry T),
      ((History.start configuration).run operations).streams.entry id = some e →
      e.port ≠ TunnelTCPCodec.u16 packet 42 →
      (((History.start configuration).run operations).streams.operate
          (.receive packet now)).1.entry id = some e ∧
        told id (((History.start configuration).run operations).streams.operate
          (.receive packet now)).2 = []) ∧
    ∀ id,
      (((History.start configuration).run operations).streams.nextID ≤ id →
        told id ((History.start configuration).run operations).log = []) ∧
      (((History.start configuration).run operations).streams.entry id ≠ none →
        Running (told id ((History.start configuration).run operations).log)) ∧
      (id < ((History.start configuration).run operations).streams.nextID →
        ((History.start configuration).run operations).streams.entry id = none →
        Finished (told id ((History.start configuration).run operations).log)) := by
  have hsound := (History.sound_start configuration).run operations
  generalize (History.start configuration).run operations = o at hsound
  refine ⟨hsound.table, ?_, ?_, fun id => ⟨hsound.unopened id, hsound.running id,
    hsound.finished id⟩⟩
  · intro port now start isn p hgiven s hs hrest
    obtain ⟨hfinite, hlt⟩ := hsound.given hgiven hs hrest
    refine ⟨hlt, fun hexact => hexact.trans ?_⟩
    by_contra hearly
    rw [not_le, ← LawfulClock.lt_iff hfinite hrest] at hearly
    exact Bool.false_ne_true (hlt.symm.trans hearly)
  · intro packet now id e he hport
    exact receive_other hsound.table he hport

def fixtureTunnel : CDTunnelConfiguration :=
  ⟨TunnelTCP.fixtureEndpoints.localAddress, TunnelTCP.fixtureEndpoints.remoteAddress, 1280⟩

/-- A stream that is opened and cancelled, and two more. -/
def fixtureCalls : List (Operation Float) :=
  [.openStream 80 1 0 7, .cancel 0 2, .openStream 58783 3 8 100, .openStream 80 4 0 9]

/-- The port of the first stream rests for 120 seconds, a packet for the second is not
heard of by the third, and the first is closed. -/
theorem table_run_fixture :
    Table ((History.start fixtureTunnel).run fixtureCalls).streams ∧
    givenPort (((History.start fixtureTunnel).run fixtureCalls).streams.openStream 80 121 0 5) =
      some 49154 ∧
    givenPort (((History.start fixtureTunnel).run fixtureCalls).streams.openStream 80 122 0 5) =
      some 49152 ∧
    LawfulClock.value (2 : Float) + 120 ≤ LawfulClock.value (122 : Float) ∧
    told 1 (((History.start fixtureTunnel).run fixtureCalls).streams.operate
      (.receive (TunnelTCP.incoming 1000 101 18 32768 [] (some 1220)) 5)).2 = [.connected] ∧
    told 2 (((History.start fixtureTunnel).run fixtureCalls).streams.operate
      (.receive (TunnelTCP.incoming 1000 101 18 32768 [] (some 1220)) 5)).2 = [] ∧
    Finished (told 0 ((History.start fixtureTunnel).run fixtureCalls).log) := by
  obtain ⟨htable, hgiven, hother, htold⟩ := table_run fixtureTunnel fixtureCalls
  have hreuse : givenPort (((History.start fixtureTunnel).run fixtureCalls).streams.openStream
      80 122 0 5) = some 49152 := by decide
  have hthird : (((History.start fixtureTunnel).run fixtureCalls).streams.entry 2).map
      Entry.port = some 49153 := by decide
  obtain ⟨e, he, hport⟩ := Option.map_eq_some_iff.mp hthird
  have hended : ((History.start fixtureTunnel).run fixtureCalls).ended = [(49152, 2)] := by
    decide
  refine ⟨htable, by decide, hreuse, ?_, by decide, ?_, ?_⟩
  · refine (hgiven 80 122 0 5 49152 hreuse 2 ?_ (by decide +kernel)).2 (by decide +kernel)
    rw [hended]
    exact List.mem_singleton_self _
  · refine (hother _ _ 2 e he ?_).2
    rw [hport]
    decide
  · exact (htold 0).2.2 (by decide) (by decide)

/-- A time to which 120 seconds add nothing. -/
def fixtureLate : Float := Float.ofNat (2 ^ 60)

/-- The port of a stream that ended then is given again at once. -/
theorem port_given_late :
    ¬∀ (configuration : CDTunnelConfiguration) (operations : List (Operation Float))
      (port : BitVec 16) (now : Float) (start isn : BitVec 32) (p : BitVec 16),
      givenPort (((History.start configuration).run operations).streams.openStream port now
        start isn) = some p →
      ∀ s, (p, s) ∈ ((History.start configuration).run operations).ended →
        LawfulClock.value s + 120 ≤ LawfulClock.value now := by
  intro hrest
  have hended : ((History.start fixtureTunnel).run
      [.openStream 80 fixtureLate 0 7, .cancel 0 fixtureLate]).ended = [(49152, fixtureLate)] := by
    decide
  have hlate : LawfulClock.value fixtureLate + 120 ≤ LawfulClock.value fixtureLate := by
    refine hrest fixtureTunnel [.openStream 80 fixtureLate 0 7, .cancel 0 fixtureLate] 80
      fixtureLate 0 9 49152 (by decide) fixtureLate ?_
    rw [hended]
    exact List.mem_singleton_self _
  linarith

end TunnelStreams

end Tolkara
