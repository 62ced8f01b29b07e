import Tolkara.Discovery.Basic

/-!
# Discovery and the cuts of the stream

What one frame can do to the state of a discovery, and from it how far the catalog
that a client gets depends on the chunks the stream arrives in. The reference is the
run byte by byte, `reported`. A chunk that reaches past the byte that completes the
catalog is the only place where the two can differ: the code handles the rest of the
chunk before it returns, and an error there takes the catalog with it.
-/

namespace Tolkara

namespace RemoteDiscovery

open Chunking

theorem foldl_keep (events : List Event) (found : Option RemoteServiceCatalog) :
    events.foldl keep found = (catalogOf events).or found := by
  induction events generalizing found with
  | nil => rfl
  | cons event rest ih =>
      have hrest : catalogOf (event :: rest) = (catalogOf rest).or (keep none event) := ih _
      rw [List.foldl_cons, ih, hrest]
      cases event with
      | send bytes => simp [keep]
      | catalog value => cases catalogOf rest <;> rfl

@[simp]
theorem catalogOf_append (xs ys : List Event) :
    catalogOf (xs ++ ys) = (catalogOf ys).or (catalogOf xs) := by
  rw [catalogOf, List.foldl_append, foldl_keep]
  rfl

@[simp]
theorem catalogOf_nil : catalogOf [] = none := rfl

@[simp]
theorem catalogOf_send (bytes : List UInt8) (rest : List Event) :
    catalogOf (.send bytes :: rest) = catalogOf rest := rfl

@[simp]
theorem catalogOf_catalog (catalog : RemoteServiceCatalog) :
    catalogOf [.catalog catalog] = some catalog := rfl

namespace Connection

/-- The state follows the first SETTINGS frame. -/
def Sound (c : Connection) : Prop :=
  c.state = .negotiating ∧ c.settingsSeen = false ∨
    c.state = .discovering ∧ c.settingsSeen = true ∨ c.state = .complete ∧ c.settingsSeen = true

/-- What frames do to the state: a discovery that is complete stays so, and a catalog
is reported exactly on the way there. -/
def Advance (c c' : Connection) (events : List Event) : Prop :=
  (c.state = .complete → c'.state = .complete) ∧
    ((catalogOf events).isSome ↔ c.state ≠ .complete ∧ c'.state = .complete)

theorem Advance.refl (c : Connection) : Advance c c [] := by
  refine ⟨id, ?_⟩
  simp only [catalogOf_nil, Option.isSome_none, Bool.false_eq_true, false_iff, not_and]
  exact fun h h' => h h'

theorem Advance.trans {c c' c'' : Connection} {events events' : List Event}
    (h : Advance c c' events) (h' : Advance c' c'' events') :
    Advance c c'' (events ++ events') := by
  obtain ⟨hkeep, hreport⟩ := h
  obtain ⟨hkeep', hreport'⟩ := h'
  refine ⟨fun hc => hkeep' (hkeep hc), ?_⟩
  rw [catalogOf_append, Option.isSome_or, Bool.or_eq_true, hreport, hreport']
  tauto

/-- The state and the SETTINGS flag are those before. -/
def Kept (c c' : Connection) : Prop :=
  c'.state = c.state ∧ c'.settingsSeen = c.settingsSeen

theorem Kept.sound {c c' : Connection} (h : Kept c c') (hc : c.Sound) : c'.Sound := by
  unfold Sound
  rw [h.1, h.2]
  exact hc

theorem Kept.advance {c c' : Connection} (h : Kept c c') {events : List Event}
    (hquiet : catalogOf events = none) : Advance c c' events := by
  refine ⟨fun hc => h.1.trans hc, ?_⟩
  rw [hquiet, h.1]
  simp only [Option.isSome_none, Bool.false_eq_true, false_iff, not_and]
  exact fun h h' => h h'

theorem flushLoop_spec (rounds : ℕ) (c : Connection) (events : List Event)
    (hquiet : catalogOf events = none) :
    Kept c (flushLoop rounds c events).1 ∧ catalogOf (flushLoop rounds c events).2 = none := by
  induction rounds generalizing c events with
  | zero => exact ⟨⟨rfl, rfl⟩, hquiet⟩
  | succ rounds ih =>
      rw [flushLoop]
      split
      · dsimp only
        split
        · exact ⟨⟨rfl, rfl⟩, hquiet⟩
        · refine ih _ _ ?_
          rw [catalogOf_append, catalogOf_send, catalogOf_nil, Option.none_or, hquiet]
      · exact ⟨⟨rfl, rfl⟩, hquiet⟩

theorem flush_spec (c : Connection) : Kept c c.flush.1 ∧ catalogOf c.flush.2 = none := by
  have h := flushLoop_spec (c.pending.length - c.pendingOffset) c [] rfl
  unfold flush
  dsimp only
  split
  · exact ⟨⟨h.1.1, h.1.2⟩, h.2⟩
  · exact h

theorem setting_kept {c c' : Connection} {key value : ℕ} (h : c.setting key value = .ok c') :
    Kept c c' := by
  simp only [setting, bind, Except.bind, pure, Except.pure, throw, throwThe,
    MonadExceptOf.throw] at h
  split_ifs at h <;> cases h <;> exact ⟨rfl, rfl⟩

theorem settings_kept {payload : List UInt8} {c c' : Connection}
    (h : settings payload c = .ok c') : Kept c c' := by
  induction payload, c using settings.induct with
  | case1 c k₁ k₀ v₃ v₂ v₁ v₀ rest ih =>
      rw [settings] at h
      obtain ⟨t, ht, hrest⟩ := ok_of_bind h
      have h₁ := setting_kept ht
      have h₂ := ih t hrest
      exact ⟨h₂.1.trans h₁.1, h₂.2.trans h₁.2⟩
  | case2 payload c hshort =>
      rw [settings] at h
      · cases h
        exact ⟨rfl, rfl⟩
      · exact hshort

variable {canonical : List UInt8 → List UInt8}

theorem handleSettings_spec {c c' : Connection} {flags : UInt8} {stream : ℕ}
    {payload : List UInt8} {events : List Event} (hc : c.Sound)
    (h : handleSettings canonical c flags stream payload = .ok (c', events)) :
    c'.Sound ∧ Advance c c' events := by
  simp only [handleSettings, bind, Except.bind, pure, Except.pure, throw, throwThe,
    MonadExceptOf.throw] at h
  split_ifs at h with h₁ h₂ h₃ h₄
  · cases h
    have hkept : Kept c { c with settingsAcknowledged := true } := ⟨rfl, rfl⟩
    exact ⟨hkept.sound hc, hkept.advance rfl⟩
  · cases hset : settings payload c with
    | error e =>
        rw [hset] at h
        cases h
    | ok v =>
        have hv := settings_kept hset
        rw [hset] at h
        dsimp only at h
        split_ifs at h with hseen
        · cases h
          have hf := flush_spec v
          have hkept : Kept c v.flush.1 := ⟨hf.1.1.trans hv.1, hf.1.2.trans hv.2⟩
          exact ⟨hkept.sound hc, hkept.advance hf.2⟩
        · -- The first SETTINGS frame: the handshake becomes pending.
          cases hcode : RemoteXPCWire.encode canonical v.handshake with
          | error e =>
              rw [hcode] at h
              cases h
          | ok bytes =>
              rw [hcode] at h
              cases h
              have hf := flush_spec
                { v with settingsSeen := true, state := .discovering, pending := bytes }
              refine ⟨.inr (.inl ⟨hf.1.1, hf.1.2⟩), ?_, ?_⟩
              · intro hdone
                rcases hc with hc | hc | hc
                · exact absurd (hc.1.symm.trans hdone) (by decide)
                · exact absurd (hc.1.symm.trans hdone) (by decide)
                · exact absurd (hv.2.trans hc.2) hseen
              · rw [catalogOf_send, hf.2, hf.1.1]
                simp

theorem handleWindowUpdate_spec {c c' : Connection} {stream : ℕ} {payload : List UInt8}
    {events : List Event} (hc : c.Sound)
    (h : handleWindowUpdate c stream payload = .ok (c', events)) :
    c'.Sound ∧ Advance c c' events := by
  have hflush : ∀ t : Connection, Kept c t → t.flush = (c', events) →
      c'.Sound ∧ Advance c c' events := by
    intro t ht heq
    have hf := flush_spec t
    rw [heq] at hf
    have hkept : Kept c c' := ⟨hf.1.1.trans ht.1, hf.1.2.trans ht.2⟩
    exact ⟨hkept.sound hc, hkept.advance hf.2⟩
  simp only [handleWindowUpdate, bind, Except.bind, pure, Except.pure, throw, throwThe,
    MonadExceptOf.throw] at h
  split_ifs at h <;> first
    | cases h
    | exact hflush _ (by exact ⟨rfl, rfl⟩) (Except.ok.inj h)

theorem handlePing_spec {c c' : Connection} {flags : UInt8} {stream : ℕ}
    {payload : List UInt8} {events : List Event} (hc : c.Sound)
    (h : handlePing c flags stream payload = .ok (c', events)) :
    c'.Sound ∧ Advance c c' events := by
  have hkept : Kept c c := ⟨rfl, rfl⟩
  simp only [handlePing, bind, Except.bind, pure, Except.pure, throw, throwThe,
    MonadExceptOf.throw] at h
  split_ifs at h <;> cases h <;> exact ⟨hc, hkept.advance rfl⟩

theorem handleMessage_spec {c c' : Connection} {message : RemoteXPCMessage}
    {events : List Event} (hc : c.Sound)
    (h : handleMessage canonical c message = .ok (c', events)) :
    c'.Sound ∧ Advance c c' events := by
  unfold handleMessage at h
  split at h
  · cases h
    exact ⟨hc, Advance.refl c⟩
  · split at h
    · cases h
    · cases h
      exact ⟨hc, Advance.refl c⟩
    · split_ifs at h with hready
      split at h
      · cases h
      · cases h
        have hstate : c.state ≠ .complete := by
          rw [hready.1]
          decide
        have hseen : c.settingsSeen = true := by
          rcases hc with hc | hc | hc
          · exact absurd (hc.1.symm.trans hready.1) (by decide)
          · exact hc.2
          · exact hc.2
        refine ⟨.inr (.inr ⟨rfl, hseen⟩), fun _ => rfl, ?_⟩
        rw [catalogOf_catalog]
        exact ⟨fun _ => ⟨hstate, rfl⟩, fun _ => rfl⟩

theorem consume_kept {c c' : Connection} {stream : ℕ} {data : List UInt8}
    {messages : List RemoteXPCMessage}
    (h : c.consume canonical stream data = .ok (c', messages)) : Kept c c' := by
  unfold consume at h
  split at h <;> obtain ⟨t, ht, heq⟩ := ok_of_bind h <;> cases heq <;> exact ⟨rfl, rfl⟩

theorem handleData_spec {c c' : Connection} {flags : UInt8} {stream : ℕ}
    {payload : List UInt8} {events : List Event} (hc : c.Sound)
    (h : handleData canonical c flags stream payload = .ok (c', events)) :
    c'.Sound ∧ Advance c c' events := by
  simp only [handleData, bind, Except.bind, pure, Except.pure, throw, throwThe,
    MonadExceptOf.throw] at h
  split at h
  · cases h
  · cases hdata : unpadded flags payload with
    | error e =>
        rw [hdata] at h
        cases h
    | ok data =>
        cases hconsume : c.consume canonical stream data with
        | error e =>
            simp only [hdata, hconsume] at h
            cases h
        | ok p =>
            obtain ⟨c₁, messages⟩ := p
            cases hmessages : feedAll (handleMessage canonical) c₁ messages with
            | error e =>
                simp only [hdata, hconsume, hmessages] at h
                cases h
            | ok q =>
                obtain ⟨c₂, found⟩ := q
                simp only [hdata, hconsume, hmessages] at h
                have hkept := consume_kept hconsume
                have hstep : c₂.Sound ∧ Advance c₁ c₂ found :=
                  feedAll_rel Advance.refl (fun _ _ _ _ _ => Advance.trans)
                    (fun _ _ _ _ hs hm => handleMessage_spec hs hm) (hkept.sound hc) hmessages
                have hadvance : Advance c c₂ found :=
                  (hkept.advance catalogOf_nil).trans hstep.2
                split at h
                · cases h
                  exact ⟨hstep.1, hadvance⟩
                · cases h
                  exact ⟨hstep.1, hadvance.trans (Kept.advance ⟨rfl, rfl⟩ rfl)⟩

theorem handle_spec {c c' : Connection} {frame : List UInt8} {events : List Event}
    (hc : c.Sound) (h : handle canonical c frame = .ok (c', events)) :
    c'.Sound ∧ Advance c c' events := by
  simp only [handle] at h
  split_ifs at h
  · exact handleSettings_spec hc h
  · exact handleWindowUpdate_spec hc h
  · exact handlePing_spec hc h
  · cases h
    exact ⟨hc, Advance.refl c⟩
  · exact handleData_spec hc h
  · cases h
    exact ⟨hc, Advance.refl c⟩
  · cases h
    exact ⟨hc, Advance.refl c⟩

theorem take_spec {c c' : Connection} {b : UInt8} {events : List Event} (hc : c.Sound)
    (h : take canonical c b = .ok (c', events)) : c'.Sound ∧ Advance c c' events := by
  have htake : ∀ length : Option ℕ,
      (if length = some (c.frame ++ [b]).length then
        if 4096 < c.frames + 1 then .error .oversized
        else handle canonical { c with frame := [], frameLength := none, frames := c.frames + 1 }
          (c.frame ++ [b])
      else .ok ({ c with frame := c.frame ++ [b], frameLength := length }, [])) = .ok (c', events) →
      c'.Sound ∧ Advance c c' events := by
    intro length h
    split_ifs at h
    · have hkept : Kept c { c with frame := [], frameLength := none, frames := c.frames + 1 } :=
        ⟨rfl, rfl⟩
      obtain ⟨hsound, hadvance⟩ := handle_spec (hkept.sound hc) h
      exact ⟨hsound, (hkept.advance catalogOf_nil).trans hadvance⟩
    · cases h
      have hkept : Kept c { c with frame := c.frame ++ [b], frameLength := length } := ⟨rfl, rfl⟩
      exact ⟨hkept.sound hc, hkept.advance rfl⟩
  simp only [take, bind, Except.bind, pure, Except.pure, throw, throwThe,
    MonadExceptOf.throw] at h
  split at h
  · split at h
    · exact htake _ h
    · cases h
  · exact htake _ h

theorem feedAll_spec {c c' : Connection} {bytes : List UInt8} {events : List Event}
    (hc : c.Sound) (h : feedAll (take canonical) c bytes = .ok (c', events)) :
    c'.Sound ∧ Advance c c' events :=
  feedAll_rel Advance.refl (fun _ _ _ _ _ => Advance.trans)
    (fun _ _ _ _ hs hb => take_spec hs hb) hc h

variable (canonical) in
/-- The run byte by byte, up to the first catalog: the catalog, the connection that
reported it and the bytes after the one that completed it. -/
def reported (c : Connection) : List UInt8 → Option (RemoteServiceCatalog × Connection × List UInt8)
  | [] => none
  | b :: rest =>
    match take canonical c b with
    | .error _ => none
    | .ok (c', events) =>
      match catalogOf events with
      | some catalog => some (catalog, c', rest)
      | none => reported c' rest

theorem reported_cons_error {c : Connection} {b : UInt8} {e : PairingError} (rest : List UInt8)
    (h : take canonical c b = .error e) : reported canonical c (b :: rest) = none := by
  rw [reported, h]

theorem reported_cons_catalog {c c' : Connection} {b : UInt8} {events : List Event}
    {catalog : RemoteServiceCatalog} (rest : List UInt8) (h : take canonical c b = .ok (c', events))
    (hfound : catalogOf events = some catalog) :
    reported canonical c (b :: rest) = some (catalog, c', rest) := by
  rw [reported, h]
  simp only [hfound]

theorem reported_cons_quiet {c c' : Connection} {b : UInt8} {events : List Event}
    (rest : List UInt8) (h : take canonical c b = .ok (c', events))
    (hquiet : catalogOf events = none) :
    reported canonical c (b :: rest) = reported canonical c' rest := by
  rw [reported, h]
  simp only [hquiet]

/-- Bytes that are taken without a catalog leave the search to what follows them. -/
theorem reported_append_quiet {c c' : Connection} {xs : List UInt8} {events : List Event}
    (h : feedAll (take canonical) c xs = .ok (c', events)) (hquiet : catalogOf events = none)
    (ys : List UInt8) : reported canonical c (xs ++ ys) = reported canonical c' ys := by
  induction xs generalizing c events with
  | nil =>
      cases h
      rfl
  | cons b rest ih =>
      obtain ⟨t, out, out', hb, hrest, rfl⟩ := feedAll_cons_inv h
      rw [catalogOf_append, Option.or_eq_none_iff] at hquiet
      rw [List.cons_append, reported_cons_quiet _ hb hquiet.2]
      exact ih hrest hquiet.1

/-- Where a catalog is found: the bytes before the one that completes it are taken
without a catalog. -/
theorem reported_inv {c c' : Connection} {bytes rest : List UInt8}
    {catalog : RemoteServiceCatalog} (h : reported canonical c bytes = some (catalog, c', rest)) :
    ∃ before b c₁ events₁ events₂, bytes = before ++ b :: rest ∧
      feedAll (take canonical) c before = .ok (c₁, events₁) ∧ catalogOf events₁ = none ∧
      take canonical c₁ b = .ok (c', events₂) ∧ catalogOf events₂ = some catalog := by
  induction bytes generalizing c with
  | nil => cases h
  | cons b tail ih =>
      cases hb : take canonical c b with
      | error e =>
          rw [reported_cons_error tail hb] at h
          cases h
      | ok p =>
          obtain ⟨t, events⟩ := p
          cases hfound : catalogOf events with
          | some found =>
              rw [reported_cons_catalog tail hb hfound] at h
              cases h
              exact ⟨[], b, c, [], events, rfl, rfl, rfl, hb, hfound⟩
          | none =>
              rw [reported_cons_quiet tail hb hfound] at h
              obtain ⟨before, b', c₁, events₁, events₂, rfl, hbefore, hquiet, hlast, hcatalog⟩ :=
                ih h
              refine ⟨b :: before, b', c₁, events ++ events₁, events₂, rfl,
                feedAll_cons_ok hb hbefore, ?_, hlast, hcatalog⟩
              rw [catalogOf_append, hquiet, hfound]
              rfl

/-- More bytes after a catalog are left over. -/
theorem reported_append_some {c c' : Connection} {xs rest : List UInt8}
    {catalog : RemoteServiceCatalog} (h : reported canonical c xs = some (catalog, c', rest))
    (ys : List UInt8) :
    reported canonical c (xs ++ ys) = some (catalog, c', rest ++ ys) := by
  obtain ⟨before, b, c₁, events₁, events₂, rfl, hbefore, hquiet, hb, hfound⟩ := reported_inv h
  rw [List.append_assoc, reported_append_quiet hbefore hquiet, List.cons_append,
    reported_cons_catalog _ hb hfound]

/-- Without a catalog, a run of bytes fails for good or is taken quietly. -/
theorem reported_none {c : Connection} {xs : List UInt8} (h : reported canonical c xs = none) :
    (∃ e, feedAll (take canonical) c xs = .error e ∧
      ∀ ys, reported canonical c (xs ++ ys) = none) ∨
    ∃ c' events, feedAll (take canonical) c xs = .ok (c', events) ∧ catalogOf events = none := by
  induction xs generalizing c with
  | nil => exact .inr ⟨c, [], rfl, rfl⟩
  | cons b rest ih =>
      cases hb : take canonical c b with
      | error e => exact .inl ⟨e, feedAll_cons_error rest hb, fun _ => reported_cons_error _ hb⟩
      | ok p =>
          obtain ⟨t, events⟩ := p
          cases hfound : catalogOf events with
          | some found =>
              rw [reported_cons_catalog rest hb hfound] at h
              cases h
          | none =>
              rw [reported_cons_quiet rest hb hfound] at h
              rcases ih h with ⟨e, herror, hall⟩ | ⟨c', events', hok, hquiet⟩
              · refine .inl ⟨e, feedAll_cons_later_error hb herror, fun ys => ?_⟩
                rw [List.cons_append, reported_cons_quiet _ hb hfound]
                exact hall ys
              · refine .inr ⟨c', events ++ events', feedAll_cons_ok hb hok, ?_⟩
                rw [catalogOf_append, hquiet, hfound]
                rfl

/-- After a catalog, the rest of the bytes decides whether it is returned: a rest
that is taken brings no second catalog. -/
theorem feedAll_of_reported_ok {c c' c'' : Connection} {xs rest : List UInt8}
    {catalog : RemoteServiceCatalog} {events : List Event} (hc : c.Sound)
    (h : reported canonical c xs = some (catalog, c', rest))
    (hrest : feedAll (take canonical) c' rest = .ok (c'', events)) :
    ∃ events', feedAll (take canonical) c xs = .ok (c'', events') ∧
      catalogOf events' = some catalog ∧ c''.state = .complete := by
  obtain ⟨before, b, c₁, events₁, events₂, rfl, hbefore, hquiet, hb, hfound⟩ := reported_inv h
  obtain ⟨hc₁, hadvance₁⟩ := feedAll_spec hc hbefore
  obtain ⟨hc', hadvance₂⟩ := take_spec hc₁ hb
  obtain ⟨hc'', hadvance₃⟩ := feedAll_spec hc' hrest
  have hdone : c'.state = .complete := (hadvance₂.2.mp (by rw [hfound]; rfl)).2
  have hlater : catalogOf events = none := by
    rw [← Option.not_isSome_iff_eq_none, hadvance₃.2]
    exact fun hnew => hnew.1 hdone
  refine ⟨events₁ ++ (events₂ ++ events),
    feedAll_append_ok hbefore (feedAll_cons_ok hb hrest), ?_, hadvance₃.1 hdone⟩
  rw [catalogOf_append, catalogOf_append, hlater, hfound]
  rfl

end Connection

section Runs

open Connection

variable {T : Type} {canonical : List UInt8 → List UInt8}

/-- A discovery between two reads of the client. -/
structure Waiting (d : RemoteDiscovery T) : Prop where
  sound : d.connection.Sound
  running : d.connection.state ≠ .complete
  read : d.receivedBytes ≤ 2097152

theorem Waiting.active {d : RemoteDiscovery T} (h : d.Waiting) : d.active = true := by
  unfold RemoteDiscovery.active
  rcases h.sound with hc | hc | hc
  · rw [hc.1]
    rfl
  · rw [hc.1]
    rfl
  · exact absurd hc.1 h.running

def after (d : RemoteDiscovery T) (c : Connection) (bytes : List UInt8) : RemoteDiscovery T :=
  { d with connection := c, receivedBytes := d.receivedBytes + bytes.length }

variable (canonical) in
/-- The catalog of the run byte by byte, when its bytes are within what a discovery
reads. -/
def outcome (d : RemoteDiscovery T) (bytes : List UInt8) : Option RemoteServiceCatalog :=
  match reported canonical d.connection bytes with
  | none => none
  | some (catalog, _, rest) =>
    if d.receivedBytes + (bytes.length - rest.length) ≤ 2097152 then some catalog else none

variable (canonical) in
/-- What a chunk can bring after the byte that completes the catalog is harmless: the
next `size - 1` bytes stay within what a discovery reads, and the frames they complete
are ones it takes. -/
def Undisturbed (size : ℕ) (d : RemoteDiscovery T) (bytes : List UInt8) : Prop :=
  ∀ catalog c rest, reported canonical d.connection bytes = some (catalog, c, rest) →
    d.receivedBytes + (bytes.length - rest.length) ≤ 2097152 →
    d.receivedBytes + (bytes.length - rest.length) + min (size - 1) rest.length ≤ 2097152 ∧
      ∃ taken, feedAll (take canonical) c (rest.take (size - 1)) = .ok taken

theorem outcome_of_reported {d : RemoteDiscovery T} {bytes rest : List UInt8}
    {catalog : RemoteServiceCatalog} {c : Connection}
    (h : reported canonical d.connection bytes = some (catalog, c, rest)) :
    d.outcome canonical bytes =
      if d.receivedBytes + (bytes.length - rest.length) ≤ 2097152 then some catalog else none := by
  simp only [outcome, h]

theorem outcome_of_reported_none {d : RemoteDiscovery T} {bytes : List UInt8}
    (h : reported canonical d.connection bytes = none) : d.outcome canonical bytes = none := by
  simp only [outcome, h]

theorem length_of_reported {c c' : Connection} {bytes rest : List UInt8}
    {catalog : RemoteServiceCatalog} (h : reported canonical c bytes = some (catalog, c', rest)) :
    rest.length < bytes.length := by
  obtain ⟨before, b, c₁, events₁, events₂, rfl, -⟩ := reported_inv h
  simp only [List.length_append, List.length_cons]
  omega

/-- The bytes up to a catalog, counted from before a quiet chunk or from after it. -/
theorem read_append {d : RemoteDiscovery T} {xs ys tail : List UInt8} {c c' : Connection}
    {catalog : RemoteServiceCatalog} (htail : reported canonical c ys = some (catalog, c', tail)) :
    d.receivedBytes + ((xs ++ ys).length - tail.length) =
      (d.after c xs).receivedBytes + (ys.length - tail.length) := by
  have hlength := length_of_reported htail
  simp only [RemoteDiscovery.after, List.length_append]
  omega

theorem outcome_append_quiet {d : RemoteDiscovery T} {xs : List UInt8} {c : Connection}
    {events : List Event} (hok : feedAll (take canonical) d.connection xs = .ok (c, events))
    (hnone : catalogOf events = none) (ys : List UInt8) :
    d.outcome canonical (xs ++ ys) = (d.after c xs).outcome canonical ys := by
  have hlater := reported_append_quiet hok hnone ys
  cases htail : reported canonical c ys with
  | none =>
      rw [outcome_of_reported_none (hlater.trans htail)]
      exact (outcome_of_reported_none htail).symm
  | some found =>
      obtain ⟨catalog, c', tail⟩ := found
      rw [outcome_of_reported (hlater.trans htail), read_append htail]
      exact (outcome_of_reported htail).symm

theorem Undisturbed.append_quiet {size : ℕ} {d : RemoteDiscovery T} {xs ys : List UInt8}
    {c : Connection} {events : List Event} (hquiet : d.Undisturbed canonical size (xs ++ ys))
    (hok : feedAll (take canonical) d.connection xs = .ok (c, events))
    (hnone : catalogOf events = none) : (d.after c xs).Undisturbed canonical size ys := by
  intro catalog c' tail htail hread
  have hnext := hquiet catalog c' tail ((reported_append_quiet hok hnone ys).trans htail)
  rw [read_append htail] at hnext
  exact hnext hread

/-- A discovery that has read all it may finds no catalog any more. -/
theorem outcome_of_full {d : RemoteDiscovery T} (hfull : 2097152 < d.receivedBytes)
    (bytes : List UInt8) : d.outcome canonical bytes = none := by
  cases hfound : reported canonical d.connection bytes with
  | none => exact outcome_of_reported_none hfound
  | some found =>
      obtain ⟨catalog, c', tail⟩ := found
      rw [outcome_of_reported hfound, if_neg (by omega)]

theorem Waiting.after_quiet {d : RemoteDiscovery T} (hd : d.Waiting) {xs : List UInt8}
    {c : Connection} {events : List Event}
    (hok : feedAll (take canonical) d.connection xs = .ok (c, events))
    (hnone : catalogOf events = none) (hlimit : d.receivedBytes + xs.length ≤ 2097152) :
    (d.after c xs).Waiting := by
  obtain ⟨hsound, hadvance⟩ := feedAll_spec hd.sound hok
  refine ⟨hsound, fun hdone => ?_, hlimit⟩
  have hsome := hadvance.2.mpr ⟨hd.running, hdone⟩
  rw [hnone] at hsome
  cases hsome

/-- Single bytes bring nothing after the catalog. -/
theorem undisturbed_one (d : RemoteDiscovery T) (bytes : List UInt8) :
    d.Undisturbed canonical 1 bytes := by
  intro catalog c rest _ hread
  refine ⟨?_, (c, []), rfl⟩
  rw [Nat.sub_self, Nat.zero_min]
  exact hread

theorem xpc_kept {c c' : Connection} {value : Option RemoteXPCValue} {flags id stream : ℕ}
    {bytes : List UInt8} (h : c.xpc canonical value flags id stream = .ok (c', bytes)) :
    Kept c c' := by
  obtain ⟨code, hcode, h⟩ := ok_of_bind h
  simp only [bind, Except.bind, pure, Except.pure, throw, throwThe, MonadExceptOf.throw] at h
  split_ifs at h <;> cases h <;> exact ⟨rfl, rfl⟩

variable [Clock T]

theorem receiveBody_of_feedAll {d : RemoteDiscovery T} {bytes : List UInt8} {now : T}
    (htime : d.onTime now = true)
    (hsize : bytes.length ≤ 65536 ∧ d.receivedBytes + bytes.length ≤ 2097152)
    {c : Connection} {events : List Event}
    (hfeed : feedAll (take canonical) d.connection bytes = .ok (c, events)) :
    d.receiveBody canonical bytes now = .ok (d.after c bytes, events) := by
  have hlimit : ¬ (65536 < bytes.length ∨ 2097152 - d.receivedBytes < bytes.length) := by
    omega
  simp only [receiveBody, htime, not_true_eq_false, if_false, hlimit, bind, Except.bind, hfeed]
  rfl

theorem receiveBody_error_of_feedAll {d : RemoteDiscovery T} {bytes : List UInt8} {now : T}
    {e : PairingError} (hfeed : feedAll (take canonical) d.connection bytes = .error e) :
    ∃ e', d.receiveBody canonical bytes now = .error e' := by
  simp only [receiveBody, bind, Except.bind, throw, throwThe, MonadExceptOf.throw, hfeed]
  split_ifs <;> exact ⟨_, rfl⟩

theorem receiveBody_error_of_size {d : RemoteDiscovery T} {bytes : List UInt8} {now : T}
    (hsize : 2097152 < d.receivedBytes + bytes.length) (hne : bytes ≠ []) :
    ∃ e', d.receiveBody canonical bytes now = .error e' := by
  have hpos : 0 < bytes.length := List.length_pos_of_ne_nil hne
  have hlimit : 65536 < bytes.length ∨ 2097152 - d.receivedBytes < bytes.length := by
    omega
  simp only [receiveBody, bind, Except.bind, throw, throwThe, MonadExceptOf.throw, hlimit, if_true]
  split_ifs <;> exact ⟨_, rfl⟩

theorem discover_cons_error {d : RemoteDiscovery T} {bytes : List UInt8} {now : T}
    {rest : List (List UInt8 × T)} (h : ∃ e, d.receiveBody canonical bytes now = .error e) :
    discover canonical d ((bytes, now) :: rest) = none := by
  obtain ⟨e, he⟩ := h
  rw [discover, receive, he]
  split
  · rfl
  · rename_i heq
    split at heq <;> cases heq

theorem discover_cons_quiet {d d' : RemoteDiscovery T} {bytes : List UInt8} {now : T}
    {events : List Event} (rest : List (List UInt8 × T)) (hactive : d.active = true)
    (h : d.receiveBody canonical bytes now = .ok (d', events)) (hquiet : catalogOf events = none) :
    discover canonical d ((bytes, now) :: rest) = discover canonical d' rest := by
  rw [discover, receive, h, if_pos hactive]
  simp only [hquiet]

theorem discover_cons_catalog {d d' : RemoteDiscovery T} {bytes : List UInt8} {now : T}
    {events : List Event} {catalog : RemoteServiceCatalog} (rest : List (List UInt8 × T))
    (hactive : d.active = true) (h : d.receiveBody canonical bytes now = .ok (d', events))
    (hfound : catalogOf events = some catalog) (hdone : d'.connection.state = .complete) :
    discover canonical d ((bytes, now) :: rest) = some catalog := by
  rw [discover, receive, h, if_pos hactive]
  simp only [hfound, finish, hdone, if_true]

/-- A stream cut into chunks of at most `size` bytes, each read before the deadline. -/
structure IsCut (d : RemoteDiscovery T) (size : ℕ) (bytes : List UInt8)
    (chunks : List (List UInt8 × T)) : Prop where
  whole : (chunks.map Prod.fst).flatten = bytes
  small : ∀ chunk ∈ chunks, chunk.1.length ≤ size
  inTime : ∀ chunk ∈ chunks, d.onTime chunk.2 = true

theorem discover_cons_reported {d : RemoteDiscovery T} (hd : d.Waiting) {size : ℕ}
    (hsize : size ≤ 65536) {chunk ys r : List UInt8} {now : T} {rest : List (List UInt8 × T)}
    {catalog : RemoteServiceCatalog} {c : Connection} (htime : d.onTime now = true)
    (hsmall : chunk.length ≤ size)
    (hquiet : d.Undisturbed canonical size (chunk ++ ys))
    (h : reported canonical d.connection chunk = some (catalog, c, r)) :
    discover canonical d ((chunk, now) :: rest) = d.outcome canonical (chunk ++ ys) := by
  have hwhole := reported_append_some h ys
  have hshort := length_of_reported h
  rw [outcome_of_reported hwhole]
  have hlength : (chunk ++ ys).length - (r ++ ys).length = chunk.length - r.length := by
    simp only [List.length_append]
    omega
  rw [hlength]
  split
  · -- The rest of the chunk is a prefix of the bytes that are known to be taken.
    rename_i hlimit
    have hnext := hquiet catalog c (r ++ ys) hwhole (by rw [hlength]; exact hlimit)
    rw [hlength] at hnext
    obtain ⟨hread, ⟨c₁, events₁⟩, hfeed⟩ := hnext
    have hhead : (r ++ ys).take (size - 1) = r ++ ys.take (size - 1 - r.length) := by
      rw [List.take_append, List.take_of_length_le (by omega)]
    rw [hhead] at hfeed
    obtain ⟨c₂, events₂, events₃, hr, -, -⟩ := feedAll_append_inv hfeed
    obtain ⟨events, hchunk, hfound, hdone⟩ := feedAll_of_reported_ok hd.sound h hr
    have hr_length : r.length ≤ min (size - 1) (r ++ ys).length := by
      rw [List.length_append]
      omega
    exact discover_cons_catalog rest hd.active
      (receiveBody_of_feedAll htime ⟨by omega, by omega⟩ hchunk) hfound hdone
  · rename_i hlimit
    have hne : chunk ≠ [] := by
      rintro rfl
      cases h
    exact discover_cons_error (receiveBody_error_of_size (by omega) hne)

/-- A stream whose cut brings nothing harmful gives the catalog of the run byte by
byte. The induction is on the chunks: a chunk fails for good, is taken quietly, or
completes the catalog. -/
theorem discover_eq_outcome {size : ℕ} (hsize : size ≤ 65536) {d : RemoteDiscovery T}
    (hd : d.Waiting) {bytes : List UInt8} {chunks : List (List UInt8 × T)}
    (hcut : d.IsCut size bytes chunks) (hquiet : d.Undisturbed canonical size bytes) :
    discover canonical d chunks = d.outcome canonical bytes := by
  induction chunks generalizing d bytes with
  | nil =>
      obtain rfl : bytes = [] := hcut.whole.symm
      rfl
  | cons chunk rest ih =>
      obtain ⟨xs, now⟩ := chunk
      obtain ⟨hwhole, hsmall, htime⟩ := hcut
      have hxs : xs.length ≤ size := hsmall (xs, now) List.mem_cons_self
      have hnow : d.onTime now = true := htime (xs, now) List.mem_cons_self
      obtain rfl : xs ++ (rest.map Prod.fst).flatten = bytes := hwhole
      cases hfound : reported canonical d.connection xs with
      | some found =>
          obtain ⟨catalog, c, r⟩ := found
          exact discover_cons_reported hd hsize hnow hxs hquiet hfound
      | none =>
          rcases reported_none hfound with ⟨e, herror, hall⟩ | ⟨c, events, hok, hnone⟩
          · rw [outcome_of_reported_none (hall _)]
            exact discover_cons_error (receiveBody_error_of_feedAll herror)
          · rw [outcome_append_quiet hok hnone]
            by_cases hlimit : d.receivedBytes + xs.length ≤ 2097152
            · have hcut' : (d.after c xs).IsCut size (rest.map Prod.fst).flatten rest :=
                ⟨rfl, fun x hx => hsmall x (List.mem_cons_of_mem _ hx),
                  fun x hx => htime x (List.mem_cons_of_mem _ hx)⟩
              rw [discover_cons_quiet rest hd.active
                (receiveBody_of_feedAll hnow ⟨by omega, hlimit⟩ hok) hnone]
              exact ih (hd.after_quiet hok hnone hlimit) hcut' (hquiet.append_quiet hok hnone)
            · -- The stream is too long before the catalog.
              have hne : xs ≠ [] := by
                rintro rfl
                exact hlimit hd.read
              have hfull : 2097152 < (d.after c xs).receivedBytes := by
                simp only [RemoteDiscovery.after]
                omega
              rw [discover_cons_error (receiveBody_error_of_size (by omega) hne),
                outcome_of_full hfull]

def single (now : T) (bytes : List UInt8) : List (List UInt8 × T) :=
  bytes.map fun b => ([b], now)

theorem isCut_single {d : RemoteDiscovery T} {now : T} (hnow : d.onTime now = true)
    (bytes : List UInt8) : d.IsCut 1 bytes (single now bytes) := by
  refine ⟨?_, ?_, ?_⟩
  · induction bytes with
    | nil => rfl
    | cons b rest ih => exact congrArg (List.cons b) ih
  · intro chunk hchunk
    obtain ⟨b, hb, rfl⟩ := List.mem_map.mp hchunk
    exact le_rfl
  · intro chunk hchunk
    obtain ⟨b, hb, rfl⟩ := List.mem_map.mp hchunk
    exact hnow

theorem IsCut.mono {d : RemoteDiscovery T} {size size' : ℕ} (hle : size ≤ size')
    {bytes : List UInt8} {chunks : List (List UInt8 × T)} (h : d.IsCut size bytes chunks) :
    d.IsCut size' bytes chunks :=
  ⟨h.whole, fun chunk hchunk => (h.small chunk hchunk).trans hle, h.inTime⟩

theorem IsCut.append {d : RemoteDiscovery T} {size : ℕ} {xs ys : List UInt8}
    {chunks chunks' : List (List UInt8 × T)} (h : d.IsCut size xs chunks)
    (h' : d.IsCut size ys chunks') : d.IsCut size (xs ++ ys) (chunks ++ chunks') := by
  refine ⟨?_, ?_, ?_⟩
  · rw [List.map_append, List.flatten_append, h.whole, h'.whole]
  · intro chunk hchunk
    rcases List.mem_append.mp hchunk with hc | hc
    · exact h.small chunk hc
    · exact h'.small chunk hc
  · intro chunk hchunk
    rcases List.mem_append.mp hchunk with hc | hc
    · exact h.inTime chunk hc
    · exact h'.inTime chunk hc

/-- Single bytes that are taken quietly leave the run to the chunks after them. -/
theorem discover_single_append {d : RemoteDiscovery T} (hd : d.Waiting) {now : T}
    (hnow : d.onTime now = true) {xs : List UInt8} {c : Connection} {events : List Event}
    (hok : feedAll (take canonical) d.connection xs = .ok (c, events))
    (hnone : catalogOf events = none) (hlimit : d.receivedBytes + xs.length ≤ 2097152)
    (rest : List (List UInt8 × T)) :
    discover canonical d (single now xs ++ rest) = discover canonical (d.after c xs) rest := by
  induction xs generalizing d events with
  | nil =>
      cases hok
      rfl
  | cons b tail ih =>
      obtain ⟨t, out, out', hb, htail, rfl⟩ := feedAll_cons_inv hok
      rw [catalogOf_append, Option.or_eq_none_iff] at hnone
      rw [List.length_cons] at hlimit
      have hone : feedAll (take canonical) d.connection [b] = .ok (t, out ++ []) :=
        feedAll_cons_ok hb rfl
      rw [List.append_nil] at hone
      have hone_limit : d.receivedBytes + [b].length ≤ 2097152 := by
        rw [List.length_singleton]
        omega
      have hstep : discover canonical d (single now (b :: tail) ++ rest) =
          discover canonical (d.after t [b]) (single now tail ++ rest) :=
        discover_cons_quiet _ hd.active
          (receiveBody_of_feedAll hnow ⟨by simp, hone_limit⟩ hone) hnone.2
      have hlimit' : (d.after t [b]).receivedBytes + tail.length ≤ 2097152 := by
        simp only [RemoteDiscovery.after, List.length_singleton]
        omega
      have hafter : (d.after t [b]).after c tail = d.after c (b :: tail) := by
        have hcount : d.receivedBytes + 1 + tail.length = d.receivedBytes + (tail.length + 1) := by
          omega
        exact congrArg (fun n => { d with connection := c, receivedBytes := n }) hcount
      rw [hstep, ih (hd.after_quiet hone hnone.2 hone_limit) hnow htail hnone.1 hlimit', hafter]

/-- A cut that ends the run when the bytes after the catalog disturb it: single bytes
up to the one that completes the catalog, and that byte with all that one chunk can
hold after it. -/
theorem discover_disturbed {d : RemoteDiscovery T} (hd : d.Waiting) {now : T}
    (hnow : d.onTime now = true) {bytes : List UInt8}
    (h : ¬ d.Undisturbed canonical 65536 bytes) :
    ∃ catalog, d.outcome canonical bytes = some catalog ∧
      ∃ chunks, d.IsCut 65536 bytes chunks ∧ discover canonical d chunks = none := by
  simp only [Undisturbed, not_forall] at h
  obtain ⟨catalog, c, rest, hfound, hread, hdisturbed⟩ := h
  have houtcome := outcome_of_reported hfound
  rw [if_pos hread] at houtcome
  refine ⟨catalog, houtcome, ?_⟩
  obtain ⟨before, b, c₁, events₁, events₂, rfl, hbefore, hquiet, hb, hcatalog⟩ :=
    reported_inv hfound
  have hlength : (before ++ b :: rest).length - rest.length = before.length + 1 := by
    simp only [List.length_append, List.length_cons]
    omega
  rw [hlength] at hread hdisturbed
  have hbig : d.IsCut 65536 (b :: rest.take 65535) [(b :: rest.take 65535, now)] := by
    refine ⟨by simp, ?_, ?_⟩
    · intro chunk hchunk
      rw [List.mem_singleton.mp hchunk, List.length_cons, List.length_take]
      omega
    · intro chunk hchunk
      rw [List.mem_singleton.mp hchunk]
      exact hnow
  have hcut := (((isCut_single hnow before).mono (by omega)).append hbig).append
    ((isCut_single hnow (rest.drop 65535)).mono (by omega : 1 ≤ 65536))
  refine ⟨single now before ++ [(b :: rest.take 65535, now)] ++ single now (rest.drop 65535),
    ?_, ?_⟩
  · rw [List.append_assoc, List.cons_append, List.take_append_drop] at hcut
    exact hcut
  · rw [List.append_assoc, discover_single_append hd hnow hbefore hquiet (by omega)]
    apply discover_cons_error
    by_cases hlimit : d.receivedBytes + (before.length + 1) + min 65535 rest.length ≤ 2097152
    · -- The bytes are within the limit, so one of their frames is refused.
      have hfeed : ¬ ∃ taken, feedAll (take canonical) c (rest.take 65535) = .ok taken :=
        fun htaken => hdisturbed ⟨hlimit, htaken⟩
      cases hrest : feedAll (take canonical) c (rest.take 65535) with
      | ok taken => exact absurd ⟨taken, hrest⟩ hfeed
      | error e => exact receiveBody_error_of_feedAll (feedAll_cons_later_error hb hrest)
    · refine receiveBody_error_of_size ?_ (List.cons_ne_nil _ _)
      simp only [RemoteDiscovery.after, List.length_cons, List.length_take]
      omega

theorem start_waiting {identifier uuid : List UInt8} {begun : T} {d : RemoteDiscovery T}
    {sent : List Event} (h : (init identifier uuid).start canonical begun = .ok (d, sent)) :
    d.Waiting := by
  simp only [start, throw, throwThe, MonadExceptOf.throw] at h
  split at h
  · cases h
  · obtain ⟨⟨c₁, opening⟩, h₁, h⟩ := ok_of_bind h
    obtain ⟨⟨c₂, flags⟩, h₂, h⟩ := ok_of_bind h
    obtain ⟨⟨c₃, reply⟩, h₃, h⟩ := ok_of_bind h
    cases h
    have hkept₁ := xpc_kept h₁
    have hkept₂ := xpc_kept h₂
    have hkept₃ := xpc_kept h₃
    have hstate : c₃.state = .negotiating := hkept₃.1.trans (hkept₂.1.trans hkept₁.1)
    have hseen : c₃.settingsSeen = false := hkept₃.2.trans (hkept₂.2.trans hkept₁.2)
    refine ⟨.inl ⟨hstate, hseen⟩, ?_, Nat.zero_le _⟩
    intro hdone
    exact absurd (hstate.symm.trans hdone) (by decide)

/-- **The cuts of a stream.** Any two ways to cut a stream into chunks of at most 65536
bytes, read before the deadline, give the same catalog or none, exactly when no chunk
can bring, after the byte that completes the catalog, bytes the discovery refuses. -/
theorem discover_cuts_agree_iff {identifier uuid : List UInt8} {begun now : T}
    {d : RemoteDiscovery T} {sent : List Event}
    (hstart : (init identifier uuid).start canonical begun = .ok (d, sent))
    (hnow : d.onTime now = true) (bytes : List UInt8) :
    (∀ chunks chunks', d.IsCut 65536 bytes chunks → d.IsCut 65536 bytes chunks' →
      discover canonical d chunks = discover canonical d chunks') ↔
    d.Undisturbed canonical 65536 bytes := by
  have hd := start_waiting hstart
  constructor
  · intro hagree
    by_contra hdisturbed
    obtain ⟨catalog, houtcome, chunks, hcut, hnone⟩ := discover_disturbed hd hnow hdisturbed
    have hsingle := isCut_single hnow bytes
    have heq := hagree chunks (single now bytes) hcut (hsingle.mono (by omega))
    rw [hnone, discover_eq_outcome (by omega) hd hsingle (undisturbed_one d bytes),
      houtcome] at heq
    cases heq
  · intro hquiet chunks chunks' hcut hcut'
    rw [discover_eq_outcome le_rfl hd hcut hquiet, discover_eq_outcome le_rfl hd hcut' hquiet]

/-- A discovery of the device `X`, begun at time 0, and what it sent. -/
def fixture : RemoteDiscovery ℕ × List Event :=
  ((init (ascii "X") (List.replicate 16 0)).start id 0).toOption.getD (init [] [], [])

def settingsFrame : List UInt8 := frameOf 4 0 0 []

/-- The DATA frame of a peer that is the device `X` and has one service. -/
def catalogFrame : List UInt8 :=
  frameOf 0 0 1 ((RemoteXPCWire.encode id
    { flags := 0x101
      identifier := 1
      value := some (.dictionary
        [(ascii "Properties", .dictionary [(ascii "UniqueDeviceID", .string (ascii "X"))]),
          (ascii "Services", .dictionary
            [(ascii "a", .dictionary [(ascii "Port", .string (ascii "80"))])])]) }).toOption.getD [])

/-- The settings of the peer, its catalog, and settings once more. -/
def settingsTwice : List UInt8 := settingsFrame ++ catalogFrame ++ settingsFrame

/-- The discovery starts. It finds a catalog between the settings in time and within what it reads,
and takes the rest; a second catalog in the same chunk takes the first with it. -/
theorem fixture_runs :
    ((init (ascii "X") (List.replicate 16 0)).start id 0 :
      Except PairingError (RemoteDiscovery ℕ × List Event)).toOption.isSome = true ∧
    (fixture.1.onTime 0 = true ∧ fixture.1.receivedBytes + settingsTwice.length ≤ 2097152 ∧
      (reported id fixture.1.connection settingsTwice).any (fun found =>
        (feedAll (take id) found.2.1 (found.2.2.take 65535)).toOption.isSome) = true) ∧
    discover id fixture.1 [(settingsFrame ++ catalogFrame ++ catalogFrame, 0)] = none ∧
    (discover id fixture.1
      [(settingsFrame ++ catalogFrame, 0), (catalogFrame, 0)]).isSome = true ∧
    (settingsFrame ++ catalogFrame ++ catalogFrame).length ≤ 65536 := by
  decide +kernel

theorem start_fixture :
    (init (ascii "X") (List.replicate 16 0)).start id 0 = .ok fixture := by
  have hok := fixture_runs.1
  unfold fixture
  cases h : ((init (ascii "X") (List.replicate 16 0)).start id 0 :
      Except PairingError (RemoteDiscovery ℕ × List Event)) with
  | error e =>
      rw [h] at hok
      cases hok
  | ok p => rfl

theorem settingsTwice_undisturbed : fixture.1.Undisturbed id 65536 settingsTwice := by
  obtain ⟨-, hread, htaken⟩ := fixture_runs.2.1
  intro catalog c rest hfound _
  have hlength := length_of_reported hfound
  rw [hfound] at htaken
  refine ⟨by omega, ?_⟩
  change (feedAll (take id) c (rest.take 65535)).toOption.isSome = true at htaken
  cases h : feedAll (take id) c (rest.take 65535) with
  | error e =>
      rw [h] at htaken
      cases htaken
  | ok taken => exact ⟨taken, rfl⟩

theorem discover_cuts_agree_fixture :
    (init (ascii "X") (List.replicate 16 0)).start id 0 = .ok (fixture.1, fixture.2) ∧
      fixture.1.onTime 0 = true ∧
      (reported id fixture.1.connection settingsTwice).isSome = true ∧
      ∀ chunks chunks', fixture.1.IsCut 65536 settingsTwice chunks →
        fixture.1.IsCut 65536 settingsTwice chunks' →
        discover id fixture.1 chunks = discover id fixture.1 chunks' := by
  obtain ⟨hnow, -, htaken⟩ := fixture_runs.2.1
  exact ⟨start_fixture, hnow, Option.isSome_of_any htaken,
    (discover_cuts_agree_iff start_fixture hnow settingsTwice).2 settingsTwice_undisturbed⟩

/-- A peer that sends its catalog twice: in one chunk the second one is an error and
takes the first with it, and in two chunks the client has its catalog. -/
theorem discover_cuts_differ :
    (init (ascii "X") (List.replicate 16 0)).start id 0 = .ok (fixture.1, fixture.2) ∧
      ¬ ∀ bytes chunks chunks', fixture.1.IsCut 65536 bytes chunks →
        fixture.1.IsCut 65536 bytes chunks' →
        discover id fixture.1 chunks = discover id fixture.1 chunks' := by
  refine ⟨start_fixture, fun hagree => ?_⟩
  obtain ⟨-, ⟨hnow, -⟩, hone, htwo, hlength⟩ := fixture_runs
  have hsmall : ∀ chunk ∈ [(settingsFrame ++ catalogFrame, 0), (catalogFrame, 0)],
      chunk.1.length ≤ 65536 := by
    intro chunk hchunk
    rw [List.length_append] at hlength
    rcases List.mem_pair.1 hchunk with rfl | rfl <;> dsimp only <;> omega
  have heq := hagree (settingsFrame ++ catalogFrame ++ catalogFrame)
    [(settingsFrame ++ catalogFrame ++ catalogFrame, 0)]
    [(settingsFrame ++ catalogFrame, 0), (catalogFrame, 0)]
    ⟨by simp, by simpa using hlength, by simpa using hnow⟩
    ⟨by simp, hsmall, by simpa using hnow⟩
  rw [← heq, hone] at htwo
  cases htwo

end Runs

end RemoteDiscovery

end Tolkara
