import Tolkara.Discovery.Chunking

/-!
# Flow control of a discovery

The credit a peer grants is a function of the frames it sends: 65535 bytes for the
connection and for each stream, more by WINDOW_UPDATE, and for the streams more or less
by SETTINGS. What a discovery sends is read off the bytes it emits. The windows it keeps
are the credit less what was sent, so whenever it sends DATA the credit covers it; a later
SETTINGS frame may take credit back.
-/

namespace Tolkara

namespace RemoteDiscovery

open Chunking

/-- A frame of HTTP/2. The highest bit of its stream is reserved. -/
structure HTTPFrame where
  type : UInt8
  flags : UInt8
  stream : ℕ
  payload : List UInt8
  stream_lt : stream < 2 ^ 32
  payload_lt : payload.length < 2 ^ 24

namespace HTTPFrame

def bytes (f : HTTPFrame) : List UInt8 := frameOf f.type f.flags f.stream f.payload

def dataOn (stream : ℕ) (frames : List HTTPFrame) : List UInt8 :=
  (frames.filter fun f => f.type = 0 ∧ f.stream = stream).flatMap payload

def data (frames : List HTTPFrame) : List UInt8 :=
  (frames.filter fun f => f.type = 0).flatMap payload

end HTTPFrame

/-- The length in the first bytes of a frame. -/
def lengthField (b : List UInt8) : ℕ :=
  (b.getD 0 0).toNat * 65536 + (b.getD 1 0).toNat * 256 + (b.getD 2 0).toNat

theorem u32_lt (b : List UInt8) (offset : ℕ) : u32 b offset < 2 ^ 32 := by
  have h₀ := (b.getD offset 0).toNat_lt
  have h₁ := (b.getD (offset + 1) 0).toNat_lt
  have h₂ := (b.getD (offset + 2) 0).toNat_lt
  have h₃ := (b.getD (offset + 3) 0).toNat_lt
  unfold u32
  omega

theorem lengthField_lt (b : List UInt8) : lengthField b < 2 ^ 24 := by
  have h₀ := (b.getD 0 0).toNat_lt
  have h₁ := (b.getD 1 0).toNat_lt
  have h₂ := (b.getD 2 0).toNat_lt
  unfold lengthField
  omega

def framesLoop : ℕ → List UInt8 → List HTTPFrame
  | 0, _ => []
  | rounds + 1, b =>
    if b.length < 9 + lengthField b then []
    else
      { type := b.getD 3 0
        flags := b.getD 4 0
        stream := u32 b 5
        payload := (b.drop 9).take (lengthField b)
        stream_lt := u32_lt b 5
        payload_lt := (List.length_take_le _ _).trans_lt (lengthField_lt b) } ::
        framesLoop rounds (b.drop (9 + lengthField b))

def framesIn (b : List UInt8) : List HTTPFrame := framesLoop b.length b

def bytesOf (events : List Event) : List UInt8 :=
  events.flatMap fun event =>
    match event with
    | .send bytes => bytes
    | .catalog _ => []

/-- What the peer allows to be sent. -/
structure Credit where
  connection : ℤ
  stream1 : ℤ
  stream3 : ℤ
  initial : ℤ

namespace Credit

def start : Credit := ⟨65535, 65535, 65535, 65535⟩

/-- An entry of a SETTINGS frame changes the credit of both streams. -/
def setting (c : Credit) (key value : ℕ) : Credit :=
  if key = 4 then
    { c with
      stream1 := c.stream1 + (value - c.initial)
      stream3 := c.stream3 + (value - c.initial)
      initial := value }
  else c

def settings : List UInt8 → Credit → Credit
  | k₁ :: k₀ :: v₃ :: v₂ :: v₁ :: v₀ :: rest, c =>
    settings rest (c.setting (k₁.toNat * 256 + k₀.toNat) (u32 [v₃, v₂, v₁, v₀] 0))
  | _, c => c

def grant (c : Credit) (f : HTTPFrame) : Credit :=
  if f.type = 4 ∧ f.flags &&& 1 = 0 then settings f.payload c
  else if f.type = 8 then
    let increment : ℤ := (u32 f.payload 0 % 0x80000000 : ℕ)
    if f.stream % 0x80000000 = 0 then { c with connection := c.connection + increment }
    else if f.stream % 0x80000000 = 1 then { c with stream1 := c.stream1 + increment }
    else if f.stream % 0x80000000 = 3 then { c with stream3 := c.stream3 + increment }
    else c
  else c

end Credit

/-! ## Reading frames back -/

theorem u32_be {n : ℕ} (hn : n < 2 ^ 32) (front rest : List UInt8) :
    u32 (front ++ (be n ++ rest)) front.length = n := by
  have hget : ∀ i < 4, (front ++ (be n ++ rest)).getD (front.length + i) 0 = (be n).getD i 0 := by
    intro i hi
    simp only [List.getD_eq_getElem?_getD]
    rw [List.getElem?_append_right (Nat.le_add_right _ _), Nat.add_sub_cancel_left,
      List.getElem?_append_left (by simpa [be] using hi)]
  have h₀ := hget 0 (by omega)
  rw [Nat.add_zero] at h₀
  rw [u32, h₀, hget 1 (by omega), hget 2 (by omega), hget 3 (by omega)]
  simp only [be, List.getD_cons_zero, List.getD_cons_succ, UInt8.toNat_ofNat']
  omega

theorem lengthField_frame {payload : List UInt8} (h : payload.length < 2 ^ 24)
    (type flags : UInt8) (stream : ℕ) (rest : List UInt8) :
    lengthField (frameOf type flags stream payload ++ rest) = payload.length := by
  simp only [lengthField, frameOf, List.cons_append, List.getD_cons_zero, List.getD_cons_succ,
    UInt8.toNat_ofNat']
  omega

theorem length_frameOf (type flags : UInt8) (stream : ℕ) (payload : List UInt8) :
    (frameOf type flags stream payload).length = 9 + payload.length := by
  simp [frameOf, be]
  omega

namespace HTTPFrame

theorem length_bytes (f : HTTPFrame) : f.bytes.length = 9 + f.payload.length :=
  length_frameOf f.type f.flags f.stream f.payload

theorem lengthField_bytes (f : HTTPFrame) (rest : List UInt8) :
    lengthField (f.bytes ++ rest) = f.payload.length :=
  lengthField_frame f.payload_lt f.type f.flags f.stream rest

theorem stream_bytes (f : HTTPFrame) (rest : List UInt8) : u32 (f.bytes ++ rest) 5 = f.stream := by
  have hread := u32_be f.stream_lt
    [UInt8.ofNat (f.payload.length / 65536), UInt8.ofNat (f.payload.length / 256 % 256),
      UInt8.ofNat (f.payload.length % 256), f.type, f.flags] (f.payload ++ rest)
  rw [← hread]
  simp [bytes, frameOf]

theorem drop_bytes (f : HTTPFrame) (rest : List UInt8) :
    (f.bytes ++ rest).drop 9 = f.payload ++ rest := by
  simp [bytes, frameOf, be]

end HTTPFrame

/-- A frame at the front of some bytes is the first in them. -/
theorem framesLoop_append (f : HTTPFrame) (rest : List UInt8) (rounds : ℕ) :
    framesLoop (rounds + 1) (f.bytes ++ rest) = f :: framesLoop rounds rest := by
  have hpayload : ((f.bytes ++ rest).drop 9).take f.payload.length = f.payload := by
    rw [f.drop_bytes, List.take_left' rfl]
  have hrest : (f.bytes ++ rest).drop (9 + f.payload.length) = rest := by
    rw [← f.length_bytes, List.drop_left' rfl]
  rw [framesLoop]
  simp only [f.lengthField_bytes, List.length_append, f.length_bytes]
  rw [if_neg (by omega)]
  simp only [f.stream_bytes, hpayload, hrest]
  rfl

theorem framesLoop_flatMap (frames : List HTTPFrame) (rounds : ℕ) (h : frames.length ≤ rounds) :
    framesLoop rounds (frames.flatMap HTTPFrame.bytes) = frames := by
  induction frames generalizing rounds with
  | nil =>
      cases rounds with
      | zero => rfl
      | succ rounds => rw [framesLoop, if_pos (by simp)]
  | cons f frames ih =>
      cases rounds with
      | zero => exact absurd h (by simp)
      | succ rounds =>
          rw [List.flatMap_cons, framesLoop_append, ih rounds (by simpa using h)]

theorem framesIn_flatMap (frames : List HTTPFrame) :
    framesIn (frames.flatMap HTTPFrame.bytes) = frames := by
  refine framesLoop_flatMap frames _ ?_
  induction frames with
  | nil => simp
  | cons f frames ih =>
      simp only [List.length_cons, List.flatMap_cons, List.length_append, f.length_bytes]
      omega

@[simp] theorem bytesOf_append (events more : List Event) :
    bytesOf (events ++ more) = bytesOf events ++ bytesOf more := by
  simp [bytesOf]

@[simp] theorem bytesOf_send (b : List UInt8) (events : List Event) :
    bytesOf (.send b :: events) = b ++ bytesOf events := by
  simp [bytesOf]

@[simp] theorem bytesOf_nil : bytesOf [] = [] := rfl

namespace HTTPFrame

@[simp] theorem dataOn_append (stream : ℕ) (frames more : List HTTPFrame) :
    dataOn stream (frames ++ more) = dataOn stream frames ++ dataOn stream more := by
  simp [dataOn]

@[simp] theorem data_append (frames more : List HTTPFrame) :
    data (frames ++ more) = data frames ++ data more := by
  simp [data]

@[simp] theorem dataOn_nil (stream : ℕ) : dataOn stream [] = [] := rfl

@[simp] theorem data_nil : data [] = [] := rfl

/-- A frame without DATA. -/
def Quiet (f : HTTPFrame) : Prop := f.type ≠ 0

theorem data_of_quiet {frames : List HTTPFrame} (h : ∀ f ∈ frames, f.Quiet) :
    data frames = [] := by
  have hnone : frames.filter (fun f => f.type = 0) = [] := by
    rw [List.filter_eq_nil_iff]
    intro f hf
    simp [show f.type ≠ 0 from h f hf]
  rw [data, hnone, List.flatMap_nil]

theorem dataOn_of_quiet {frames : List HTTPFrame} (h : ∀ f ∈ frames, f.Quiet) (stream : ℕ) :
    dataOn stream frames = [] := by
  have hnone : frames.filter (fun f => f.type = 0 ∧ f.stream = stream) = [] := by
    rw [List.filter_eq_nil_iff]
    intro f hf
    simp [show f.type ≠ 0 from h f hf]
  rw [dataOn, hnone, List.flatMap_nil]

/-- A DATA frame of stream 1. -/
def chunk (b : List UInt8) (h : b.length < 2 ^ 24) : HTTPFrame :=
  { type := 0
    flags := 0
    stream := 1
    payload := b
    stream_lt := by norm_num
    payload_lt := h }

end HTTPFrame

/-! ## The windows -/

namespace Connection

/-- What `flush` does: it sends some of the pending bytes in DATA frames of stream 1, as
far as both windows allow. -/
structure Flushed (c c' : Connection) (frames : List HTTPFrame) : Prop where
  small : ∀ f ∈ frames, f.payload.length ≤ 16384
  first : HTTPFrame.data frames = HTTPFrame.dataOn 1 frames
  third : HTTPFrame.dataOn 3 frames = []
  connection : c'.connectionWindow = c.connectionWindow - (HTTPFrame.data frames).length
  window1 : c'.window1 = c.window1 - (HTTPFrame.data frames).length
  covered : HTTPFrame.data frames ≠ [] → 0 ≤ c'.connectionWindow ∧ 0 ≤ c'.window1
  bytes : HTTPFrame.data frames =
    (c.pending.drop c.pendingOffset).take (HTTPFrame.data frames).length
  within : (HTTPFrame.data frames).length ≤ c.pending.length - c.pendingOffset

/-- The fields `flush` leaves alone. -/
def Beside (c c' : Connection) : Prop :=
  c'.window3 = c.window3 ∧ c'.initialWindow = c.initialWindow ∧
    c'.settingsSeen = c.settingsSeen ∧ c'.hostUUID = c.hostUUID ∧ c'.frame = c.frame ∧
    c'.frameLength = c.frameLength

theorem Flushed.refl (c : Connection) : Flushed c c [] := by
  refine ⟨by simp, rfl, rfl, ?_, ?_, ?_, ?_, ?_⟩ <;> simp

theorem flushLoop_flushed (rounds : ℕ) (c : Connection) (events : List Event) :
    ∃ frames, bytesOf (flushLoop rounds c events).2 =
        bytesOf events ++ frames.flatMap HTTPFrame.bytes ∧
      Flushed c (flushLoop rounds c events).1 frames ∧
      Beside c (flushLoop rounds c events).1 ∧
      (flushLoop rounds c events).1.pending = c.pending ∧
      (flushLoop rounds c events).1.pendingOffset =
        c.pendingOffset + (HTTPFrame.data frames).length := by
  induction rounds generalizing c events with
  | zero => exact ⟨[], by simp [flushLoop], .refl c, by simp [flushLoop, Beside], rfl, rfl⟩
  | succ rounds ih =>
      rw [flushLoop]
      split
      · rename_i hleft
        dsimp only
        split
        · exact ⟨[], by simp, .refl c, by simp [Beside], rfl, rfl⟩
        · rename_i hcount
          generalize hn : min (min 16384 ((c.pending.length - c.pendingOffset : ℕ) : ℤ))
            (min c.connectionWindow c.window1) = count at hcount ⊢
          have hbounds : 0 < count ∧ count ≤ 16384 ∧
              count.toNat ≤ c.pending.length - c.pendingOffset ∧
              count ≤ c.connectionWindow ∧ count ≤ c.window1 := by omega
          obtain ⟨hpos, hsmall, hroom, hconnection, hwindow⟩ := hbounds
          have hlength : ((c.pending.drop c.pendingOffset).take count.toNat).length =
              count.toNat := by
            simp only [List.length_take, List.length_drop]
            omega
          obtain ⟨frames, hbytes, hflushed, hbeside, hpending, hoffset⟩ := ih
            { c with
              connectionWindow := c.connectionWindow - count
              window1 := c.window1 - count
              pendingOffset := c.pendingOffset + count.toNat }
            (events ++ [.send (frameOf 0 0 1 ((c.pending.drop c.pendingOffset).take count.toNat))])
          have hlt : ((c.pending.drop c.pendingOffset).take count.toNat).length < 2 ^ 24 := by
            rw [hlength]
            omega
          have hdata : HTTPFrame.data (HTTPFrame.chunk _ hlt :: frames) =
              (c.pending.drop c.pendingOffset).take count.toNat ++ HTTPFrame.data frames := by
            simp [HTTPFrame.data, HTTPFrame.chunk]
          have hnat : ((count.toNat : ℕ) : ℤ) = count := Int.toNat_of_nonneg hpos.le
          refine ⟨HTTPFrame.chunk _ hlt :: frames, ?_, ⟨?_, ?_, ?_, ?_, ?_, ?_, ?_, ?_⟩, hbeside,
            hpending, ?_⟩
          · rw [hbytes]
            simp [HTTPFrame.chunk, HTTPFrame.bytes]
          · intro f hf
            rcases List.mem_cons.mp hf with rfl | hmem
            · rw [HTTPFrame.chunk]
              dsimp only
              rw [hlength]
              omega
            · exact hflushed.small f hmem
          · rw [hdata, hflushed.first]
            simp [HTTPFrame.dataOn, HTTPFrame.chunk]
          · have hthird := hflushed.third
            simpa [HTTPFrame.dataOn, HTTPFrame.chunk] using hthird
          · rw [hflushed.connection, hdata, List.length_append, hlength]
            push_cast
            omega
          · rw [hflushed.window1, hdata, List.length_append, hlength]
            push_cast
            omega
          · intro _
            by_cases hmore : HTTPFrame.data frames = []
            · rw [hflushed.connection, hflushed.window1, hmore]
              simp only [List.length_nil]
              omega
            · exact hflushed.covered hmore
          · rw [hdata, List.length_append, hlength, List.take_add]
            congr 1
            rw [hflushed.bytes]
            simp [List.drop_drop]
          · have hwithin := hflushed.within
            rw [hdata, List.length_append, hlength]
            dsimp only at hwithin
            omega
          · rw [hoffset, hdata, List.length_append, hlength, Nat.add_assoc]
      · exact ⟨[], by simp, .refl c, by simp [Beside], rfl, rfl⟩

theorem flush_flushed (c : Connection) :
    ∃ frames, bytesOf c.flush.2 = frames.flatMap HTTPFrame.bytes ∧ Flushed c c.flush.1 frames ∧
      Beside c c.flush.1 ∧
      ((c.flush.1.pending = c.pending ∧
          c.flush.1.pendingOffset = c.pendingOffset + (HTTPFrame.data frames).length) ∨
        (c.flush.1.pending = [] ∧ c.flush.1.pendingOffset = 0 ∧
          c.pendingOffset + (HTTPFrame.data frames).length = c.pending.length)) := by
  obtain ⟨frames, hbytes, hflushed, hbeside, hpending, hoffset⟩ :=
    flushLoop_flushed (c.pending.length - c.pendingOffset) c []
  refine ⟨frames, ?_⟩
  unfold flush
  dsimp only
  split
  · rename_i hdone
    refine ⟨hbytes, ⟨hflushed.small, hflushed.first, hflushed.third, hflushed.connection,
      hflushed.window1, hflushed.covered, hflushed.bytes, hflushed.within⟩, hbeside,
      Or.inr ⟨rfl, rfl, ?_⟩⟩
    rw [← hoffset, hdone, hpending]
  · exact ⟨hbytes, hflushed, hbeside, Or.inl ⟨hpending, hoffset⟩⟩

/-- The first message of stream 1, its second one and the one that opens stream 3. -/
def firstMessage : List UInt8 :=
  (RemoteXPCWire.encode id ⟨1, 0, some (.dictionary [])⟩).toOption.getD []

def secondMessage : List UInt8 := (RemoteXPCWire.encode id ⟨0x201, 0, none⟩).toOption.getD []

def replyMessage : List UInt8 := (RemoteXPCWire.encode id ⟨0x400001, 0, none⟩).toOption.getD []

def opening : List UInt8 := firstMessage ++ secondMessage

variable (canonical : List UInt8 → List UInt8)

/-- How much of the handshake was sent: none before the first SETTINGS frame, and then
what is before the offset into the pending bytes, or all of it. -/
def Sending (c : Connection) (bytes : List UInt8) : Prop :=
  c.settingsSeen = false ∧ c.pending = [] ∧ c.pendingOffset = 0 ∧ bytes = [] ∨
    c.settingsSeen = true ∧ ∃ whole, RemoteXPCWire.encode canonical c.handshake = .ok whole ∧
      (c.pending = whole ∧ bytes = whole.take c.pendingOffset ∧ c.pendingOffset ≤ whole.length ∨
        c.pending = [] ∧ c.pendingOffset = 0 ∧ bytes = whole)

/-- The windows are the credit of the peer less what was sent. -/
structure Accounts (c : Connection) (credit : Credit) (sent : List HTTPFrame) : Prop where
  connection : c.connectionWindow = credit.connection - (HTTPFrame.data sent).length
  stream1 : c.window1 = credit.stream1 - (HTTPFrame.dataOn 1 sent).length
  stream3 : c.window3 = credit.stream3 - (HTTPFrame.dataOn 3 sent).length
  initial : c.initialWindow = credit.initial
  covered : 0 ≤ c.connectionWindow
  connection_le : c.connectionWindow ≤ 0x7fffffff
  stream1_le : c.window1 ≤ 0x7fffffff
  stream3_le : c.window3 ≤ 0x7fffffff
  small : ∀ f ∈ sent, f.payload.length ≤ 16384
  sending : ∃ bytes, HTTPFrame.dataOn 1 sent = opening ++ bytes ∧ Sending canonical c bytes

variable {canonical}

theorem handshake_congr {c c' : Connection} (h : c'.hostUUID = c.hostUUID) :
    c'.handshake = c.handshake := by
  simp [handshake, h]

/-- The fields that the accounts are about are those before. -/
structure Same (c c' : Connection) : Prop where
  connection : c'.connectionWindow = c.connectionWindow
  window1 : c'.window1 = c.window1
  window3 : c'.window3 = c.window3
  initial : c'.initialWindow = c.initialWindow
  seen : c'.settingsSeen = c.settingsSeen
  host : c'.hostUUID = c.hostUUID
  pending : c'.pending = c.pending
  offset : c'.pendingOffset = c.pendingOffset
  frame : c'.frame = c.frame
  frameLength : c'.frameLength = c.frameLength

theorem Same.refl (c : Connection) : Same c c :=
  ⟨rfl, rfl, rfl, rfl, rfl, rfl, rfl, rfl, rfl, rfl⟩

theorem Same.trans {c c' c'' : Connection} (h : Same c c') (h' : Same c' c'') : Same c c'' :=
  ⟨h'.connection.trans h.connection, h'.window1.trans h.window1, h'.window3.trans h.window3,
    h'.initial.trans h.initial, h'.seen.trans h.seen, h'.host.trans h.host,
    h'.pending.trans h.pending, h'.offset.trans h.offset, h'.frame.trans h.frame,
    h'.frameLength.trans h.frameLength⟩

theorem Sending.same {c c' : Connection} {bytes : List UInt8} (hs : Same c c')
    (h : Sending canonical c bytes) : Sending canonical c' bytes := by
  unfold Sending
  rw [hs.seen, hs.pending, hs.offset, handshake_congr hs.host]
  exact h

/-- A frame without DATA costs nothing. -/
theorem Accounts.quiet {c c' : Connection} {credit : Credit} {sent more : List HTTPFrame}
    (h : Accounts canonical c credit sent) (hs : Same c c') (hquiet : ∀ f ∈ more, f.Quiet)
    (hsmall : ∀ f ∈ more, f.payload.length ≤ 16384) :
    Accounts canonical c' credit (sent ++ more) := by
  have hdata := HTTPFrame.data_of_quiet hquiet
  have hdataOn := HTTPFrame.dataOn_of_quiet hquiet
  obtain ⟨bytes, hsent, hsending⟩ := h.sending
  constructor
  · simpa [hs.connection, hdata] using h.connection
  · simpa [hs.window1, hdataOn] using h.stream1
  · simpa [hs.window3, hdataOn] using h.stream3
  · exact hs.initial.trans h.initial
  · exact hs.connection.symm ▸ h.covered
  · exact hs.connection.symm ▸ h.connection_le
  · exact hs.window1.symm ▸ h.stream1_le
  · exact hs.window3.symm ▸ h.stream3_le
  · intro f hf
    rcases List.mem_append.mp hf with hf | hf
    · exact h.small f hf
    · exact hsmall f hf
  · exact ⟨bytes, by simpa [hdataOn] using hsent, hsending.same hs⟩

theorem Accounts.flush {c : Connection} {credit : Credit} {sent : List HTTPFrame}
    (h : Accounts canonical c credit sent) :
    ∃ more, bytesOf c.flush.2 = more.flatMap HTTPFrame.bytes ∧
      Accounts canonical c.flush.1 credit (sent ++ more) ∧
      (HTTPFrame.dataOn 1 more ≠ [] → 0 ≤ c.flush.1.window1) ∧
      HTTPFrame.dataOn 3 more = [] ∧ c.flush.1.hostUUID = c.hostUUID ∧
      c.flush.1.frame = c.frame ∧ c.flush.1.frameLength = c.frameLength := by
  obtain ⟨more, hbytes, hflushed, ⟨hwindow3, hinitial, hseen, hhost, hframe, hlength⟩, hleft⟩ :=
    flush_flushed c
  refine ⟨more, hbytes, ?_, ?_, hflushed.third, hhost, hframe, hlength⟩
  · obtain ⟨bytes, hsent, hsending⟩ := h.sending
    have hconnection := h.connection
    have hstream1 := h.stream1
    have hfirst := congrArg List.length hflushed.first
    constructor
    · rw [hflushed.connection, hconnection]
      simp only [HTTPFrame.data_append, List.length_append]
      omega
    · rw [hflushed.window1, hstream1]
      simp only [HTTPFrame.dataOn_append, List.length_append]
      omega
    · simpa [hwindow3, hflushed.third] using h.stream3
    · exact hinitial.trans h.initial
    · by_cases hnone : HTTPFrame.data more = []
      · simpa [hflushed.connection, hnone] using h.covered
      · exact (hflushed.covered hnone).1
    · have hle := h.connection_le
      rw [hflushed.connection]
      omega
    · have hle := h.stream1_le
      rw [hflushed.window1]
      omega
    · exact hwindow3.symm ▸ h.stream3_le
    · intro f hf
      rcases List.mem_append.mp hf with hf | hf
      · exact h.small f hf
      · exact hflushed.small f hf
    · refine ⟨bytes ++ HTTPFrame.data more, ?_, ?_⟩
      · rw [HTTPFrame.dataOn_append, hsent, hflushed.first, List.append_assoc]
      · have hnew := hflushed.bytes
        have hwithin := hflushed.within
        unfold Sending
        rw [hseen, handshake_congr hhost]
        rcases hsending with ⟨hs, hp, ho, rfl⟩ | ⟨hs, whole, hwhole, hrest⟩
        · have hdata : HTTPFrame.data more = [] := by
            rw [hnew, hp]
            simp
          refine Or.inl ⟨hs, ?_, ?_, by simp [hdata]⟩
          · rcases hleft with ⟨hpending, -⟩ | ⟨hpending, -⟩
            · exact hpending.trans hp
            · exact hpending
          · rcases hleft with ⟨-, hoffset⟩ | ⟨-, hoffset, -⟩
            · simp [hoffset, hdata, ho]
            · exact hoffset
        · refine Or.inr ⟨hs, whole, hwhole, ?_⟩
          rcases hrest with ⟨rfl, rfl, ho⟩ | ⟨hp, ho, rfl⟩
          · -- The handshake is pending: its first bytes grow by what was sent.
            have hgrown : c.pending.take c.pendingOffset ++ HTTPFrame.data more =
                c.pending.take (c.pendingOffset + (HTTPFrame.data more).length) := by
              rw [List.take_add, ← hnew]
            rw [hgrown]
            rcases hleft with ⟨hpending, hoffset⟩ | ⟨hpending, hoffset, hall⟩
            · refine Or.inl ⟨hpending, by rw [hoffset], ?_⟩
              omega
            · refine Or.inr ⟨hpending, hoffset, ?_⟩
              rw [hall, List.take_length]
          · have hdata : HTTPFrame.data more = [] := by
              rw [hnew, hp]
              simp
            refine Or.inr ⟨?_, ?_, by simp [hdata]⟩
            · rcases hleft with ⟨hpending, -⟩ | ⟨hpending, -⟩
              · exact hpending.trans hp
              · exact hpending
            · rcases hleft with ⟨-, hoffset⟩ | ⟨-, hoffset, -⟩
              · simp [hoffset, hdata, ho]
              · exact hoffset
  · intro hsome
    rw [← hflushed.first] at hsome
    exact (hflushed.covered hsome).2

/-- Between frames nothing of a frame is kept. -/
def Between (c : Connection) : Prop := c.frame = [] ∧ c.frameLength = none

def Answered (canonical : List UInt8 → List UInt8) (c c' : Connection) (credit : Credit)
    (sent : List HTTPFrame) (events : List Event) : Prop :=
  ∃ more, bytesOf events = more.flatMap HTTPFrame.bytes ∧
    Accounts canonical c' credit (sent ++ more) ∧
    (HTTPFrame.dataOn 1 more ≠ [] → 0 ≤ c'.window1) ∧ HTTPFrame.dataOn 3 more = [] ∧
    c'.hostUUID = c.hostUUID ∧ (c.Between → c'.Between)

/-- Frames without DATA, and then what `flush` sends. -/
theorem Accounts.answered_flush {c c' : Connection} {credit : Credit}
    {sent front : List HTTPFrame} {head : List Event} (h : Accounts canonical c' credit sent)
    (hhost : c'.hostUUID = c.hostUUID) (hframe : c'.frame = c.frame)
    (hlength : c'.frameLength = c.frameLength)
    (hhead : bytesOf head = front.flatMap HTTPFrame.bytes) (hquiet : ∀ f ∈ front, f.Quiet)
    (hsmall : ∀ f ∈ front, f.payload.length ≤ 16384) :
    Answered canonical c c'.flush.1 credit sent (head ++ c'.flush.2) := by
  obtain ⟨more, hbytes, haccounts, hcovered, hthird, hhost', hframe', hlength'⟩ :=
    (h.quiet (Same.refl c') hquiet hsmall).flush
  have hdataOn := HTTPFrame.dataOn_of_quiet hquiet
  refine ⟨front ++ more, ?_, ?_, ?_, ?_, hhost'.trans hhost, ?_⟩
  · simp [hhead, hbytes]
  · rw [← List.append_assoc]
    exact haccounts
  · simpa [hdataOn] using hcovered
  · simpa [hdataOn] using hthird
  · rintro ⟨hnone, hnone'⟩
    exact ⟨hframe'.trans (hframe.trans hnone), hlength'.trans (hlength.trans hnone')⟩

theorem Accounts.answered_quiet {c c' : Connection} {credit : Credit}
    {sent more : List HTTPFrame} {events : List Event} (h : Accounts canonical c credit sent)
    (hs : Same c c') (hbytes : bytesOf events = more.flatMap HTTPFrame.bytes)
    (hquiet : ∀ f ∈ more, f.Quiet) (hsmall : ∀ f ∈ more, f.payload.length ≤ 16384) :
    Answered canonical c c' credit sent events := by
  have hdataOn := HTTPFrame.dataOn_of_quiet hquiet
  refine ⟨more, hbytes, h.quiet hs hquiet hsmall, ?_, hdataOn 3, hs.host, ?_⟩
  · intro hsome
    exact absurd (hdataOn 1) hsome
  · rintro ⟨hnone, hnone'⟩
    exact ⟨hs.frame.trans hnone, hs.frameLength.trans hnone'⟩

theorem bytesOf_none : bytesOf [] = ([] : List HTTPFrame).flatMap HTTPFrame.bytes := rfl

/-- What does not send and leaves the accounts alone. -/
theorem Accounts.answered_nil {c c' : Connection} {credit : Credit} {sent : List HTTPFrame}
    (h : Accounts canonical c credit sent) (hs : Same c c') :
    Answered canonical c c' credit sent [] :=
  h.answered_quiet hs bytesOf_none (by simp) (by simp)

/-! ## The frames of the peer -/

theorem setting_accounts {c c' : Connection} {credit : Credit} {sent : List HTTPFrame}
    {key value : ℕ} (h : Accounts canonical c credit sent) (hok : c.setting key value = .ok c') :
    Accounts canonical c' (credit.setting key value) sent ∧ c'.settingsSeen = c.settingsSeen ∧
      c'.hostUUID = c.hostUUID ∧ c'.frame = c.frame ∧ c'.frameLength = c.frameLength := by
  have hinitial := h.initial
  have hstream1 := h.stream1
  have hstream3 := h.stream3
  obtain ⟨bytes, hsent, hsending⟩ := h.sending
  simp only [setting, bind, Except.bind, pure, Except.pure, throw, throwThe,
    MonadExceptOf.throw] at hok
  by_cases hkey : key = 4
  · subst hkey
    simp only [Credit.setting, if_true] at hok ⊢
    split_ifs at hok <;> cases hok
    refine ⟨⟨h.connection, ?_, ?_, rfl, h.covered, h.connection_le, ?_, ?_, h.small,
      ⟨bytes, hsent, hsending⟩⟩, rfl, rfl, rfl, rfl⟩
    · dsimp only
      omega
    · dsimp only
      omega
    · dsimp only
      omega
    · dsimp only
      omega
  · simp only [Credit.setting, if_neg hkey]
    split_ifs at hok <;> cases hok <;> exact ⟨h, rfl, rfl, rfl, rfl⟩

theorem settings_accounts {payload : List UInt8} {c c' : Connection} {credit : Credit}
    {sent : List HTTPFrame} (h : Accounts canonical c credit sent)
    (hok : settings payload c = .ok c') :
    Accounts canonical c' (credit.settings payload) sent ∧ c'.settingsSeen = c.settingsSeen ∧
      c'.hostUUID = c.hostUUID ∧ c'.frame = c.frame ∧ c'.frameLength = c.frameLength := by
  induction payload, c using settings.induct generalizing credit with
  | case1 c k₁ k₀ v₃ v₂ v₁ v₀ rest ih =>
      rw [settings] at hok
      obtain ⟨t, ht, hrest⟩ := ok_of_bind hok
      obtain ⟨haccounts, hseen, hhost, hframe, hlength⟩ := setting_accounts h ht
      obtain ⟨haccounts', hseen', hhost', hframe', hlength'⟩ := ih t haccounts hrest
      rw [Credit.settings]
      exact ⟨haccounts', hseen'.trans hseen, hhost'.trans hhost, hframe'.trans hframe,
        hlength'.trans hlength⟩
  | case2 payload c hshort =>
      rw [settings] at hok
      · cases hok
        rw [Credit.settings]
        · exact ⟨h, rfl, rfl, rfl, rfl⟩
        · exact hshort
      · exact hshort

def settingsAck : HTTPFrame :=
  { type := 4
    flags := 1
    stream := 0
    payload := []
    stream_lt := by norm_num
    payload_lt := by norm_num }

/-- At the first SETTINGS frame the handshake becomes pending. -/
theorem Accounts.queue {c : Connection} {credit : Credit} {sent : List HTTPFrame}
    {whole : List UInt8} (h : Accounts canonical c credit sent) (hseen : ¬ c.settingsSeen)
    (hwhole : RemoteXPCWire.encode canonical c.handshake = .ok whole) :
    Accounts canonical
      { c with
        settingsSeen := true
        state := .discovering
        pending := whole } credit sent := by
  obtain ⟨bytes, hbytes, hsending⟩ := h.sending
  refine ⟨h.connection, h.stream1, h.stream3, h.initial, h.covered, h.connection_le,
    h.stream1_le, h.stream3_le, h.small, bytes, hbytes, Or.inr ⟨rfl, whole, hwhole, ?_⟩⟩
  rcases hsending with ⟨-, -, hoffset, rfl⟩ | ⟨hset, -⟩
  · exact Or.inl ⟨rfl, by simp [hoffset], by simp [hoffset]⟩
  · exact absurd hset hseen

theorem handleSettings_answered {c c' : Connection} {credit : Credit} {sent : List HTTPFrame}
    {flags : UInt8} {stream : ℕ} {payload : List UInt8} {events : List Event}
    (h : Accounts canonical c credit sent)
    (hok : handleSettings canonical c flags stream payload = .ok (c', events)) :
    Answered canonical c c' (if flags &&& 1 = 0 then credit.settings payload else credit) sent
      events := by
  have hack : bytesOf [.send (frameOf 4 1 0 [])] = [settingsAck].flatMap HTTPFrame.bytes := by
    simp [settingsAck, HTTPFrame.bytes]
  have hquiet : ∀ f ∈ [settingsAck], f.Quiet := by simp [settingsAck, HTTPFrame.Quiet]
  have hsmall : ∀ f ∈ [settingsAck], f.payload.length ≤ 16384 := by simp [settingsAck]
  simp only [handleSettings, bind, Except.bind, pure, Except.pure, throw, throwThe,
    MonadExceptOf.throw] at hok
  split_ifs at hok with h₁ h₂ h₃ h₄
  · cases hok
    rw [if_neg h₂]
    exact h.answered_nil ⟨rfl, rfl, rfl, rfl, rfl, rfl, rfl, rfl, rfl, rfl⟩
  · rw [if_pos (not_not.mp h₂)]
    cases hset : settings payload c with
    | error e =>
        rw [hset] at hok
        cases hok
    | ok v =>
        obtain ⟨haccounts, hseen, hhost, hframe, hlength⟩ := settings_accounts h hset
        rw [hset] at hok
        dsimp only at hok
        split_ifs at hok with hfirst
        · cases hok
          exact haccounts.answered_flush hhost hframe hlength hack hquiet hsmall
        · cases hcode : RemoteXPCWire.encode canonical v.handshake with
          | error e =>
              rw [hcode] at hok
              cases hok
          | ok whole =>
              rw [hcode] at hok
              cases hok
              exact (haccounts.queue hfirst hcode).answered_flush hhost hframe hlength hack hquiet
                hsmall

theorem handleWindowUpdate_answered {c c' : Connection} {credit : Credit}
    {sent : List HTTPFrame} {stream : ℕ} {payload : List UInt8} {events : List Event}
    (h : Accounts canonical c credit sent)
    (hok : handleWindowUpdate c stream payload = .ok (c', events)) :
    Answered canonical c c'
      (if stream = 0 then
        { credit with connection := credit.connection + (u32 payload 0 % 0x80000000 : ℕ) }
      else if stream = 1 then
        { credit with stream1 := credit.stream1 + (u32 payload 0 % 0x80000000 : ℕ) }
      else if stream = 3 then
        { credit with stream3 := credit.stream3 + (u32 payload 0 % 0x80000000 : ℕ) }
      else credit) sent events := by
  have hflush : ∀ (t : Connection) (credit' : Credit), t.flush = (c', events) →
      Accounts canonical t credit' sent → t.hostUUID = c.hostUUID → t.frame = c.frame →
      t.frameLength = c.frameLength → Answered canonical c c' credit' sent events := by
    intro t credit' heq ht hhost hframe hlength
    have hsent := ht.answered_flush hhost hframe hlength bytesOf_none (by simp) (by simp)
    rw [heq] at hsent
    exact hsent
  have hconnection := h.connection
  have hcovered := h.covered
  have hstream1 := h.stream1
  have hstream3 := h.stream3
  simp only [handleWindowUpdate, bind, Except.bind, pure, Except.pure, throw, throwThe,
    MonadExceptOf.throw] at hok
  split_ifs at hok with h₁ h₂ h₃ h₄ h₅ h₆ h₇
  · rw [if_pos h₃]
    refine hflush _ _ (Except.ok.inj hok) ⟨?_, h.stream1, h.stream3, h.initial, ?_, ?_,
      h.stream1_le, h.stream3_le, h.small, h.sending⟩ rfl rfl rfl
    · dsimp only
      omega
    · dsimp only
      omega
    · dsimp only
      omega
  · rw [if_neg h₃, if_pos h₅]
    refine hflush _ _ (Except.ok.inj hok) ⟨h.connection, ?_, h.stream3, h.initial,
      h.covered, h.connection_le, ?_, h.stream3_le, h.small, h.sending⟩ rfl rfl rfl
    · dsimp only
      omega
    · dsimp only
      omega
  · rw [if_neg h₃, if_neg h₅, if_pos (by omega)]
    refine hflush _ _ (Except.ok.inj hok) ⟨h.connection, h.stream1, ?_, h.initial,
      h.covered, h.connection_le, h.stream1_le, ?_, h.small, h.sending⟩ rfl rfl rfl
    · dsimp only
      omega
    · dsimp only
      omega

theorem handlePing_answered {c c' : Connection} {credit : Credit} {sent : List HTTPFrame}
    {flags : UInt8} {stream : ℕ} {payload : List UInt8} {events : List Event}
    (h : Accounts canonical c credit sent)
    (hok : handlePing c flags stream payload = .ok (c', events)) :
    Answered canonical c c' credit sent events := by
  simp only [handlePing, bind, Except.bind, pure, Except.pure, throw, throwThe,
    MonadExceptOf.throw] at hok
  split_ifs at hok with h₁ h₂
  · cases hok
    have hlength : payload.length = 8 := by
      by_contra hne
      exact h₁ (Or.inr (Or.inl hne))
    let pong : HTTPFrame :=
      { type := 6
        flags := 1
        stream := 0
        payload := payload
        stream_lt := by norm_num
        payload_lt := by omega }
    have hbytes : bytesOf [.send (frameOf 6 1 0 payload)] = [pong].flatMap HTTPFrame.bytes := by
      simp [pong, HTTPFrame.bytes]
    exact h.answered_quiet (Same.refl c) hbytes (by simp [pong, HTTPFrame.Quiet])
      (by simp [pong, hlength])
  · cases hok
    exact h.answered_nil (Same.refl c)

theorem handleMessage_same {c c' : Connection} {message : RemoteXPCMessage}
    {events : List Event} (h : handleMessage canonical c message = .ok (c', events)) :
    Same c c' ∧ bytesOf events = [] := by
  unfold handleMessage at h
  split at h
  · cases h
    exact ⟨Same.refl c, rfl⟩
  · split at h
    · cases h
    · cases h
      exact ⟨Same.refl c, rfl⟩
    · split_ifs at h
      split at h
      · cases h
      · cases h
        exact ⟨⟨rfl, rfl, rfl, rfl, rfl, rfl, rfl, rfl, rfl, rfl⟩, rfl⟩

theorem consume_same {c c' : Connection} {stream : ℕ} {data : List UInt8}
    {messages : List RemoteXPCMessage}
    (h : c.consume canonical stream data = .ok (c', messages)) : Same c c' := by
  unfold consume at h
  split at h <;> obtain ⟨t, ht, heq⟩ := ok_of_bind h <;> cases heq <;>
    exact ⟨rfl, rfl, rfl, rfl, rfl, rfl, rfl, rfl, rfl, rfl⟩

/-- A WINDOW_UPDATE frame for the bytes that were received. -/
def windowUpdate (stream count : ℕ) (h : stream < 2 ^ 32) : HTTPFrame :=
  { type := 8
    flags := 0
    stream := stream
    payload := be count
    stream_lt := h
    payload_lt := by simp [be] }

theorem handleData_answered {c c' : Connection} {credit : Credit} {sent : List HTTPFrame}
    {flags : UInt8} {stream : ℕ} {payload : List UInt8} {events : List Event}
    (h : Accounts canonical c credit sent)
    (hok : handleData canonical c flags stream payload = .ok (c', events)) :
    Answered canonical c c' credit sent events := by
  simp only [handleData, bind, Except.bind, pure, Except.pure, throw, throwThe,
    MonadExceptOf.throw] at hok
  split at hok
  · cases hok
  · rename_i hguard
    have hstream : stream < 2 ^ 32 := by
      push Not at hguard
      omega
    cases hdata : unpadded flags payload with
    | error e =>
        rw [hdata] at hok
        cases hok
    | ok data =>
        cases hconsume : c.consume canonical stream data with
        | error e =>
            simp only [hdata, hconsume] at hok
            cases hok
        | ok p =>
            obtain ⟨c₁, messages⟩ := p
            cases hmessages : feedAll (handleMessage canonical) c₁ messages with
            | error e =>
                simp only [hdata, hconsume, hmessages] at hok
                cases hok
            | ok q =>
                obtain ⟨c₂, found⟩ := q
                simp only [hdata, hconsume, hmessages] at hok
                have hfeed : True ∧ Same c₁ c₂ ∧ bytesOf found = [] :=
                  feedAll_rel (P := fun _ => True)
                    (R := fun s s' out => Same s s' ∧ bytesOf out = [])
                    (fun s => ⟨Same.refl s, rfl⟩)
                    (fun _ _ _ _ _ h₁ h₂ => ⟨h₁.1.trans h₂.1, by simp [h₁.2, h₂.2]⟩)
                    (fun _ _ _ _ _ hm => ⟨trivial, handleMessage_same hm⟩) trivial hmessages
                have hsame := (consume_same hconsume).trans hfeed.2.1
                split at hok
                · cases hok
                  exact h.answered_quiet hsame (hfeed.2.2.trans bytesOf_none) (by simp) (by simp)
                · cases hok
                  have hbytes : bytesOf (found ++ [.send (frameOf 8 0 0 (be payload.length)),
                      .send (frameOf 8 0 stream (be payload.length))]) =
                      [windowUpdate 0 payload.length (by norm_num),
                        windowUpdate stream payload.length hstream].flatMap HTTPFrame.bytes := by
                    simp [hfeed.2.2, windowUpdate, HTTPFrame.bytes]
                  exact h.answered_quiet hsame hbytes
                    (by simp [windowUpdate, HTTPFrame.Quiet]) (by simp [windowUpdate, be])

/-- What one frame of the peer leads to. -/
theorem handle_answered {c c' : Connection} {credit : Credit} {sent : List HTTPFrame}
    {f : HTTPFrame} {events : List Event} (h : Accounts canonical c credit sent)
    (hok : handle canonical c f.bytes = .ok (c', events)) :
    Answered canonical c c' (credit.grant f) sent events := by
  have htype : f.bytes.getD 3 0 = f.type := rfl
  have hflags : f.bytes.getD 4 0 = f.flags := rfl
  have hstream : u32 f.bytes 5 = f.stream := by simpa using f.stream_bytes []
  have hpayload : f.bytes.drop 9 = f.payload := by simpa using f.drop_bytes []
  have htype_iff : ∀ n : ℕ, n < 256 → (f.type.toNat = n ↔ f.type = UInt8.ofNat n) := by
    intro n hn
    rw [← UInt8.toNat_inj, UInt8.toNat_ofNat', Nat.mod_eq_of_lt hn]
  simp only [handle, htype, hflags, hstream, hpayload] at hok
  by_cases hsettings : f.type = 4
  · rw [if_pos ((htype_iff 4 (by omega)).mpr hsettings)] at hok
    have hanswered := handleSettings_answered h hok
    unfold Credit.grant
    by_cases hack : f.flags &&& 1 = 0
    · rw [if_pos ⟨hsettings, hack⟩]
      rwa [if_pos hack] at hanswered
    · rw [if_neg (fun hboth => hack hboth.2), if_neg (by rw [hsettings]; decide)]
      rwa [if_neg hack] at hanswered
  · rw [if_neg (fun heq => hsettings ((htype_iff 4 (by omega)).mp heq))] at hok
    have hother : ¬ (f.type = 4 ∧ f.flags &&& 1 = 0) := fun hboth => hsettings hboth.1
    unfold Credit.grant
    rw [if_neg hother]
    by_cases hwindow : f.type = 8
    · rw [if_pos ((htype_iff 8 (by omega)).mpr hwindow)] at hok
      rw [if_pos hwindow]
      exact handleWindowUpdate_answered h hok
    · rw [if_neg (fun heq => hwindow ((htype_iff 8 (by omega)).mp heq))] at hok
      rw [if_neg hwindow]
      split_ifs at hok
      · exact handlePing_answered h hok
      · cases hok
        exact h.answered_nil (Same.refl c)
      · exact handleData_answered h hok
      · cases hok
        exact h.answered_nil (Same.refl c)
      · cases hok
        exact h.answered_nil (Same.refl c)

/-- What one byte does: it completes a frame or is kept. -/
theorem take_cases {c c' : Connection} {b : UInt8} {events : List Event}
    (h : take canonical c b = .ok (c', events)) :
    ∃ length, (length = if (c.frame ++ [b]).length = 9 then
        some (lengthField (c.frame ++ [b]) + 9) else c.frameLength) ∧
      (length = some (c.frame ++ [b]).length ∧
          handle canonical { c with frame := [], frameLength := none, frames := c.frames + 1 }
            (c.frame ++ [b]) = .ok (c', events) ∨
        length ≠ some (c.frame ++ [b]).length ∧
          c' = { c with frame := c.frame ++ [b], frameLength := length } ∧ events = []) := by
  have htake : ∀ length : Option ℕ,
      (if length = some (c.frame ++ [b]).length then
        if 4096 < c.frames + 1 then .error .oversized
        else handle canonical { c with frame := [], frameLength := none, frames := c.frames + 1 }
          (c.frame ++ [b])
      else .ok ({ c with frame := c.frame ++ [b], frameLength := length }, [])) = .ok (c', events) →
      (length = some (c.frame ++ [b]).length ∧
          handle canonical { c with frame := [], frameLength := none, frames := c.frames + 1 }
            (c.frame ++ [b]) = .ok (c', events) ∨
        length ≠ some (c.frame ++ [b]).length ∧
          c' = { c with frame := c.frame ++ [b], frameLength := length } ∧ events = []) := by
    intro length h
    split_ifs at h with hcomplete
    · exact Or.inl ⟨hcomplete, h⟩
    · cases h
      exact Or.inr ⟨hcomplete, rfl, rfl⟩
  simp only [take, bind, Except.bind, pure, Except.pure, throw, throwThe,
    MonadExceptOf.throw] at h
  by_cases hheader : (c.frame ++ [b]).length = 9
  · rw [if_pos hheader] at h
    refine ⟨some (lengthField (c.frame ++ [b]) + 9), by rw [if_pos hheader], ?_⟩
    split at h
    · exact htake _ h
    · cases h
  · rw [if_neg hheader] at h
    exact ⟨c.frameLength, by rw [if_neg hheader], htake _ h⟩

theorem lengthField_append {front : List UInt8} (h : 3 ≤ front.length) (rest : List UInt8) :
    lengthField (front ++ rest) = lengthField front := by
  match front, h with
  | a :: b :: c :: front, _ => simp [lengthField]

/-- The bytes of a frame are collected and then handled. The induction is on the bytes
still to come. -/
theorem feedAll_frame {f : HTTPFrame} {front rest : List UInt8} {c c' : Connection}
    {events : List Event} (hbytes : front ++ rest = f.bytes) (hrest : rest ≠ [])
    (hframe : c.frame = front)
    (hlength : c.frameLength = if 9 ≤ front.length then some (9 + f.payload.length) else none)
    (h : feedAll (take canonical) c rest = .ok (c', events)) :
    handle canonical { c with frame := [], frameLength := none, frames := c.frames + 1 } f.bytes =
      .ok (c', events) := by
  induction rest generalizing front c events with
  | nil => exact absurd rfl hrest
  | cons b rest ih =>
      obtain ⟨t, out, out', hb, hmore, rfl⟩ := feedAll_cons_inv h
      obtain ⟨length, hnext, hdone⟩ := take_cases hb
      rw [hframe] at hnext hdone
      have hgrown : front ++ [b] ++ rest = f.bytes := by
        rw [← hbytes]
        simp
      have htotal := congrArg List.length hgrown
      rw [f.length_bytes, List.length_append] at htotal
      -- The ninth byte tells how long the frame is.
      have hknown : length =
          if 9 ≤ (front ++ [b]).length then some (9 + f.payload.length) else none := by
        rw [hnext]
        split
        · rename_i hnine
          have hfield := f.lengthField_bytes []
          rw [List.append_nil, ← hgrown, lengthField_append (by omega)] at hfield
          rw [if_pos hnine.ge, hfield, Nat.add_comm]
        · rename_i hnine
          rw [hlength]
          simp only [List.length_append, List.length_singleton] at hnine ⊢
          split_ifs <;> first | rfl | omega
      rcases hdone with ⟨hcomplete, hhandle⟩ | ⟨hmid, rfl, rfl⟩
      · have hempty : rest = [] := by
          rw [hcomplete] at hknown
          split at hknown
          · have hcount := Option.some.inj hknown
            rw [← List.length_eq_zero_iff]
            omega
          · cases hknown
        subst hempty
        cases hmore
        rw [List.append_nil] at hgrown ⊢
        rw [← hgrown]
        exact hhandle
      · have hleft : rest ≠ [] := by
          rintro rfl
          rw [List.length_nil, Nat.add_zero] at htotal
          refine hmid ?_
          rw [hknown, if_pos (by omega), htotal]
        have hkept : ({ c with frame := front ++ [b], frameLength := length } : Connection).frame =
            front ++ [b] := rfl
        have hlater := ih hgrown hleft hkept hknown hmore
        exact hlater

/-- A frame of the peer, fed byte by byte. -/
theorem feedAll_answered {c c' : Connection} {credit : Credit} {sent : List HTTPFrame}
    {f : HTTPFrame} {events : List Event} (h : Accounts canonical c credit sent)
    (hc : c.Between) (hok : feedAll (take canonical) c f.bytes = .ok (c', events)) :
    Answered canonical c c' (credit.grant f) sent events ∧ c'.Between := by
  have hne : f.bytes ≠ [] := by
    rw [← List.length_pos_iff_ne_nil, f.length_bytes]
    omega
  have hhandle := feedAll_frame (List.nil_append _) hne hc.1 (by simpa using hc.2) hok
  have hsame : Same c { c with frame := [], frameLength := none, frames := c.frames + 1 } :=
    ⟨rfl, rfl, rfl, rfl, rfl, rfl, rfl, rfl, hc.1.symm, hc.2.symm⟩
  have haccounts := h.quiet hsame (by simp : ∀ f ∈ [], HTTPFrame.Quiet f) (by simp)
  rw [List.append_nil] at haccounts
  obtain ⟨more, hbytes, haccounts', hcovered, hthird, hhost, hbetween⟩ :=
    handle_answered haccounts hhandle
  exact ⟨⟨more, hbytes, haccounts', hcovered, hthird, hhost, fun _ => hbetween ⟨rfl, rfl⟩⟩,
    hbetween ⟨rfl, rfl⟩⟩

theorem feedAll_accounts {frames : List HTTPFrame} {c c' : Connection} {credit : Credit}
    {sent : List HTTPFrame} {events : List Event} (h : Accounts canonical c credit sent)
    (hc : c.Between)
    (hok : feedAll (take canonical) c (frames.flatMap HTTPFrame.bytes) = .ok (c', events)) :
    ∃ more, bytesOf events = more.flatMap HTTPFrame.bytes ∧
      Accounts canonical c' (frames.foldl Credit.grant credit) (sent ++ more) ∧ c'.Between ∧
      c'.hostUUID = c.hostUUID := by
  induction frames generalizing c credit sent events with
  | nil =>
      cases hok
      exact ⟨[], rfl, by simpa using h, hc, rfl⟩
  | cons f frames ih =>
      rw [List.flatMap_cons] at hok
      obtain ⟨t, out, out', hf, hrest, rfl⟩ := feedAll_append_inv hok
      obtain ⟨⟨more, hbytes, haccounts, -, -, hhost, -⟩, ht⟩ := feedAll_answered h hc hf
      obtain ⟨more', hbytes', haccounts', hc', hhost'⟩ := ih haccounts ht hrest
      refine ⟨more ++ more', ?_, ?_, hc', hhost'.trans hhost⟩
      · simp [hbytes, hbytes']
      · rw [← List.append_assoc]
        exact haccounts'

end Connection

section Start

open Connection

variable {T : Type} [Clock T] {canonical : List UInt8 → List UInt8}

theorem xpc_ok {c c' : Connection} {value : Option RemoteXPCValue} {flags number stream : ℕ}
    {message bytes : List UInt8}
    (hcode : RemoteXPCWire.encode canonical ⟨flags, number, value⟩ = .ok message)
    (h : c.xpc canonical value flags number stream = .ok (c', bytes)) :
    bytes = frameOf 0 0 stream message ∧
      c' = if stream = 1 then
          { c with
            connectionWindow := c.connectionWindow - message.length
            window1 := c.window1 - message.length }
        else
          { c with
            connectionWindow := c.connectionWindow - message.length
            window3 := c.window3 - message.length } := by
  obtain ⟨code, hcode', h⟩ := ok_of_bind h
  rw [hcode] at hcode'
  cases hcode'
  simp only [bind, Except.bind, pure, Except.pure, throw, throwThe, MonadExceptOf.throw] at h
  split_ifs at h with hstream
  · cases h
    exact ⟨rfl, by rw [if_pos hstream]⟩
  · cases h
    exact ⟨rfl, by rw [if_neg hstream]⟩

theorem length_firstMessage : firstMessage.length = 44 := rfl

theorem length_secondMessage : secondMessage.length = 24 := rfl

theorem length_replyMessage : replyMessage.length = 24 := rfl

def openingFrames : List HTTPFrame :=
  [{ type := 4
     flags := 0
     stream := 0
     payload := [0, 3] ++ be 100 ++ [0, 4] ++ be 1048576
     stream_lt := by norm_num
     payload_lt := by simp [be] },
    windowUpdate 0 (1048576 - 65535) (by norm_num),
    { type := 1
      flags := 4
      stream := 1
      payload := []
      stream_lt := by norm_num
      payload_lt := by norm_num },
    HTTPFrame.chunk firstMessage (by rw [length_firstMessage]; norm_num),
    { type := 1
      flags := 4
      stream := 3
      payload := []
      stream_lt := by norm_num
      payload_lt := by norm_num },
    HTTPFrame.chunk secondMessage (by rw [length_secondMessage]; norm_num),
    { type := 0
      flags := 0
      stream := 3
      payload := replyMessage
      stream_lt := by norm_num
      payload_lt := by rw [length_replyMessage]; norm_num }]

theorem start_accounts {identifier uuid : List UInt8} {begun : T} {d : RemoteDiscovery T}
    {sent : List Event} (h : (init identifier uuid).start canonical begun = .ok (d, sent)) :
    (bytesOf sent).drop 24 = openingFrames.flatMap HTTPFrame.bytes ∧
      Accounts canonical d.connection Credit.start openingFrames ∧ d.connection.Between := by
  simp only [start, throw, throwThe, MonadExceptOf.throw] at h
  split at h
  · cases h
  · obtain ⟨⟨c₁, first⟩, h₁, h⟩ := ok_of_bind h
    obtain ⟨⟨c₂, second⟩, h₂, h⟩ := ok_of_bind h
    obtain ⟨⟨c₃, reply⟩, h₃, h⟩ := ok_of_bind h
    cases h
    obtain ⟨rfl, hc₁⟩ := xpc_ok (rfl : RemoteXPCWire.encode canonical _ = .ok firstMessage) h₁
    obtain ⟨rfl, hc₂⟩ := xpc_ok (rfl : RemoteXPCWire.encode canonical _ = .ok secondMessage) h₂
    obtain ⟨rfl, hc₃⟩ := xpc_ok (rfl : RemoteXPCWire.encode canonical _ = .ok replyMessage) h₃
    rw [if_pos rfl] at hc₁ hc₂
    rw [if_neg (by norm_num)] at hc₃
    subst hc₁ hc₂ hc₃
    have hdata : (HTTPFrame.data openingFrames).length = 92 := rfl
    have hdata1 : HTTPFrame.dataOn 1 openingFrames = opening := rfl
    have hdata3 : (HTTPFrame.dataOn 3 openingFrames).length = 24 := rfl
    have hopening : opening.length = 68 := rfl
    have hsmall : ∀ f ∈ openingFrames, f.payload.length ≤ 16384 := by
      intro f hf
      simp only [openingFrames, List.mem_cons, List.not_mem_nil, or_false] at hf
      rcases hf with rfl | rfl | rfl | rfl | rfl | rfl | rfl
      · norm_num [be]
      · norm_num [windowUpdate, be]
      · norm_num
      · norm_num [HTTPFrame.chunk, length_firstMessage]
      · norm_num
      · norm_num [HTTPFrame.chunk, length_secondMessage]
      · norm_num [length_replyMessage]
    refine ⟨rfl, ⟨?_, ?_, ?_, rfl, ?_, ?_, ?_, ?_, hsmall, [], ?_, Or.inl ⟨rfl, rfl, rfl, rfl⟩⟩,
      rfl, rfl⟩
    · simp [hdata, init, Credit.start, length_firstMessage, length_secondMessage,
        length_replyMessage]
    · simp [hdata1, hopening, init, Credit.start, length_firstMessage, length_secondMessage]
    · simp [hdata3, init, Credit.start, length_replyMessage]
    · simp [init, length_firstMessage, length_secondMessage, length_replyMessage]
    · simp [init, length_firstMessage, length_secondMessage, length_replyMessage]
    · simp [init, length_firstMessage, length_secondMessage]
    · simp [init, length_replyMessage]
    · rw [hdata1, List.append_nil]

/-- The frames `before` were sent and then, when the peer had granted a credit, the
frames `now`: the connection is within its credit, a stream is whenever DATA goes out on
it, no balance is over `2 ^ 31 - 1` and no DATA is over 16384 bytes. -/
structure Respected (credit : Credit) (before now : List HTTPFrame) : Prop where
  connection : ((HTTPFrame.data (before ++ now)).length : ℤ) ≤ credit.connection
  stream1 : HTTPFrame.dataOn 1 now ≠ [] →
    ((HTTPFrame.dataOn 1 (before ++ now)).length : ℤ) ≤ credit.stream1
  stream3 : HTTPFrame.dataOn 3 now ≠ [] →
    ((HTTPFrame.dataOn 3 (before ++ now)).length : ℤ) ≤ credit.stream3
  connection_le : credit.connection - (HTTPFrame.data (before ++ now)).length ≤ 2 ^ 31 - 1
  stream1_le : credit.stream1 - (HTTPFrame.dataOn 1 (before ++ now)).length ≤ 2 ^ 31 - 1
  stream3_le : credit.stream3 - (HTTPFrame.dataOn 3 (before ++ now)).length ≤ 2 ^ 31 - 1
  small : ∀ f ∈ before ++ now, f.type = 0 → f.payload.length ≤ 16384

theorem Connection.Accounts.respected {c : Connection} {credit : Credit}
    {before now : List HTTPFrame} (h : Accounts canonical c credit (before ++ now))
    (h1 : HTTPFrame.dataOn 1 now ≠ [] → 0 ≤ c.window1)
    (h3 : HTTPFrame.dataOn 3 now ≠ [] → 0 ≤ c.window3) : Respected credit before now := by
  have hconnection := h.connection
  have hstream1 := h.stream1
  have hstream3 := h.stream3
  have hcovered := h.covered
  have hconnection_le := h.connection_le
  have hstream1_le := h.stream1_le
  have hstream3_le := h.stream3_le
  refine ⟨by omega, ?_, ?_, by omega, by omega, by omega, fun f hf _ => h.small f hf⟩
  · intro hsome
    have hwindow := h1 hsome
    omega
  · intro hsome
    have hwindow := h3 hsome
    omega

theorem Connection.Sending.isPrefix {c : Connection} {bytes : List UInt8}
    (h : Sending canonical c bytes) :
    bytes = [] ∨ ∃ whole, RemoteXPCWire.encode canonical c.handshake = .ok whole ∧
      bytes <+: whole := by
  rcases h with ⟨-, -, -, rfl⟩ | ⟨-, whole, hwhole, hbytes⟩
  · exact Or.inl rfl
  · refine Or.inr ⟨whole, hwhole, ?_⟩
    rcases hbytes with ⟨-, rfl, -⟩ | ⟨-, -, rfl⟩
    · exact List.take_prefix _ _
    · exact List.prefix_rfl

/-- **Flow control of a discovery.** Whatever frames the peer sends, what is sent respects
the credit of the frames that came before, from the opening on, and stream 1 carries the
opening messages and then a prefix of the handshake. -/
theorem credit_respected {identifier uuid : List UInt8} {begun : T} {d : RemoteDiscovery T}
    {sent : List Event} {frames : List HTTPFrame} {f : HTTPFrame} {c c' : Connection}
    {events events' : List Event}
    (hstart : (init identifier uuid).start canonical begun = .ok (d, sent))
    (hframes : feedAll (take canonical) d.connection (frames.flatMap HTTPFrame.bytes) =
      .ok (c, events))
    (hnext : feedAll (take canonical) c f.bytes = .ok (c', events')) :
    Respected Credit.start [] (framesIn ((bytesOf sent).drop 24)) ∧
      Respected ((frames ++ [f]).foldl Credit.grant Credit.start)
        (framesIn ((bytesOf sent).drop 24 ++ bytesOf events)) (framesIn (bytesOf events')) ∧
      ∃ rest, HTTPFrame.dataOn 1 (framesIn ((bytesOf sent).drop 24 ++ bytesOf events) ++
          framesIn (bytesOf events')) = opening ++ rest ∧
        (rest = [] ∨ ∃ whole,
          RemoteXPCWire.encode canonical d.connection.handshake = .ok whole ∧ rest <+: whole) := by
  obtain ⟨hopening, haccounts, hbetween⟩ := start_accounts hstart
  obtain ⟨more, hmore, haccounts₁, hbetween₁, hhost₁⟩ :=
    feedAll_accounts haccounts hbetween hframes
  obtain ⟨⟨last, hlast, haccounts₂, hcovered, hthird, hhost₂, -⟩, -⟩ :=
    feedAll_answered haccounts₁ hbetween₁ hnext
  have hbefore : framesIn ((bytesOf sent).drop 24 ++ bytesOf events) = openingFrames ++ more := by
    rw [hopening, hmore, ← List.flatMap_append, framesIn_flatMap]
  rw [hbefore, hopening, hlast, framesIn_flatMap, framesIn_flatMap, List.foldl_append]
  refine ⟨?_, ?_, ?_⟩
  · have h1 := haccounts.stream1
    have h3 := haccounts.stream3
    have hlength1 : (HTTPFrame.dataOn 1 openingFrames).length = 68 := rfl
    have hlength3 : (HTTPFrame.dataOn 3 openingFrames).length = 24 := rfl
    refine Accounts.respected haccounts (fun _ => ?_) (fun _ => ?_)
    · rw [h1, hlength1]
      decide
    · rw [h3, hlength3]
      decide
  · exact haccounts₂.respected hcovered (fun hsome => absurd hthird hsome)
  · obtain ⟨rest, hrest, hsending⟩ := haccounts₂.sending
    refine ⟨rest, hrest, ?_⟩
    rw [← handshake_congr (hhost₂.trans hhost₁)]
    exact hsending.isPrefix

/-- A SETTINGS frame that sets the initial window of the streams. -/
def windowSetting (value : ℕ) : HTTPFrame :=
  { type := 4
    flags := 0
    stream := 0
    payload := [0, 4] ++ be value
    stream_lt := by norm_num
    payload_lt := by simp [be] }

/-- A discovery after more frames of the peer, and what it sent in answer. -/
def Connection.answer (c : Connection) (frames : List HTTPFrame) : Connection × List Event :=
  (feedAll (take id) c (frames.flatMap HTTPFrame.bytes)).toOption.getD (c, [])

theorem answer_ok {c : Connection} {frames : List HTTPFrame}
    (h : (feedAll (take id) c (frames.flatMap HTTPFrame.bytes)).toOption.isSome = true) :
    feedAll (take id) c (frames.flatMap HTTPFrame.bytes) =
      .ok ((c.answer frames).1, (c.answer frames).2) := by
  unfold Connection.answer
  cases hfeed : feedAll (take id) c (frames.flatMap HTTPFrame.bytes) with
  | error e =>
      rw [hfeed] at h
      cases h
  | ok p => rfl

/-- A peer that grants 100 bytes for each stream and then 200. -/
theorem credit_respected_fixture :
    Respected Credit.start [] (framesIn ((bytesOf fixture.2).drop 24)) ∧
      Respected (([windowSetting 100] ++ [windowSetting 200]).foldl Credit.grant Credit.start)
        (framesIn ((bytesOf fixture.2).drop 24 ++
          bytesOf (fixture.1.connection.answer [windowSetting 100]).2))
        (framesIn (bytesOf ((fixture.1.connection.answer [windowSetting 100]).1.answer
          [windowSetting 200]).2)) := by
  have htaken : (feedAll (take id) fixture.1.connection
        ([windowSetting 100].flatMap HTTPFrame.bytes)).toOption.isSome = true ∧
      (feedAll (take id) (fixture.1.connection.answer [windowSetting 100]).1
        ([windowSetting 200].flatMap HTTPFrame.bytes)).toOption.isSome = true := by
    decide +kernel
  have hnext := answer_ok htaken.2
  rw [List.flatMap_singleton] at hnext
  have hall := credit_respected start_fixture (answer_ok htaken.1) hnext
  exact ⟨hall.1, hall.2.1⟩

/-- A peer that takes back the credit of its streams: stream 1 has sent its opening
messages and may send nothing. -/
theorem stream_over_credit :
    (init (ascii "X") (List.replicate 16 0)).start id 0 = .ok (fixture.1, fixture.2) ∧
      ¬ ∀ (frames : List HTTPFrame) (c : Connection) (events : List Event),
        feedAll (take id) fixture.1.connection (frames.flatMap HTTPFrame.bytes) =
          .ok (c, events) →
        ((HTTPFrame.dataOn 1
          (framesIn ((bytesOf fixture.2).drop 24 ++ bytesOf events))).length : ℤ) ≤
          (frames.foldl Credit.grant Credit.start).stream1 := by
  have hover : (feedAll (take id) fixture.1.connection
        ([windowSetting 0].flatMap HTTPFrame.bytes)).toOption.isSome = true ∧
      ¬ ((HTTPFrame.dataOn 1 (framesIn ((bytesOf fixture.2).drop 24 ++
        bytesOf (fixture.1.connection.answer [windowSetting 0]).2))).length : ℤ) ≤
        ([windowSetting 0].foldl Credit.grant Credit.start).stream1 := by
    decide +kernel
  exact ⟨start_fixture, fun hall => hover.2 (hall [windowSetting 0] _ _ (answer_ok hover.1))⟩

end Start

end RemoteDiscovery

end Tolkara
