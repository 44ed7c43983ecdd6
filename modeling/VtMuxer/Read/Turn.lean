import VtMuxer.Read.Shared

/-! One turn of the poll loop, told by what comes of it. -/
namespace VtMuxer

namespace SharedReader

def payloadLeft (owner : SocketAddr) (n : ℕ) : SharedReaderState :=
  if n = 0 then .nextPacket [] else .read owner n

/-- The count of header bytes after a read, a `u8`. -/
def filledBy (header bs : List UInt8) : ℕ := (header.length + bs.length % 256) % 256

def headerBy (header bs : List UInt8) : MuxFrameHeader := .assumeInit ((header ++ bs).take 20)

/-- The next turn asks the stream for bytes. -/
def Reads (s : SharedReader) : Prop :=
  match s.state with
  | .read owner _ => ∀ id, s.upgrade owner = some id → (s.entries id).buffer.room ≠ 0
  | .nextPacket _ => True
  | _ => False

/-- A count of payload bytes that ends the stream. -/
def Cut (amount left : ℕ) : Prop := amount = 0 ∨ ¬ (amount < 65536 ∧ amount ≤ left)

/-- A buffer without room: its reader is woken and the caller waits. -/
def refuse (id : ℕ) (cx : Waker) (s : SharedReader) : SharedReader :=
  ((s.wake (s.entries id).readerPipeWaker).setEntry id { s.entries id with waitingWaker := cx }).emit
    (.full id cx)

def fill (id : ℕ) (bs : List UInt8) (s : SharedReader) : SharedReader :=
  (s.deliver id ((s.entries id).buffer.fill bs) (bs.take (s.entries id).buffer.room)).wake
    (s.entries id).readerPipeWaker

/-- Everything that a turn of the caller `cx` with the answers `t` can come to. -/
inductive Turn (cx : Waker) (t : Tick) (s : SharedReader) :
    Poll (Except IoError Unit) → SharedReader → Prop where
  | parked (h : s.Reads) (hr : t.read = .pending) : Turn cx t s .pending (s.park cx)
  | full {owner : SocketAddr} {left id : ℕ} (hs : s.state = .read owner left)
      (hu : s.upgrade owner = some id) (hroom : (s.entries id).buffer.room = 0) :
      Turn cx t s .pending (s.refuse id cx)
  | short {header bs : List UInt8} (hs : s.state = .nextPacket header) (hr : t.read = .ready (.ok bs))
      (h0 : bs ≠ []) (hlt : filledBy header bs < 20) :
      Turn cx t s .pending
        ((s.consume bs).setState (.nextPacket ((header ++ bs).take (filledBy header bs))))
  | sending {addr : SocketAddr} {id : ℕ} {polled : Bool} (hs : s.state = .sendSocket addr id polled)
      (hc : s.connected = true) :
      Turn cx t s .pending
        (((if polled then s else s.offer addr id).setState (.sendSocket addr id true)).emit (.sendPending cx))
  | failed (h : s.Reads) {e : IoError} (hr : t.read = .ready (.error e)) :
      Turn cx t s (.ready (.error e)) s
  | broken (hs : s.state = .error) (e : IoError) : Turn cx t s (.ready (.error e)) s
  | discardCut {owner : SocketAddr} {left : ℕ} {bs : List UInt8} (hs : s.state = .read owner left)
      (hu : s.upgrade owner = none) (hr : t.read = .ready (.ok bs)) (hb : Cut bs.length left) (e : IoError) :
      Turn cx t s (.ready (.error e)) ((s.consume bs).setState .error)
  | fillCut {owner : SocketAddr} {left id : ℕ} {bs : List UInt8} (hs : s.state = .read owner left)
      (hu : s.upgrade owner = some id) (hroom : (s.entries id).buffer.room ≠ 0)
      (hr : t.read = .ready (.ok bs)) (hb : Cut (bs.take (s.entries id).buffer.room).length left)
      (e : IoError) :
      Turn cx t s (.ready (.error e)) ((s.fill id bs).setState .error)
  | headerCut {header bs : List UInt8} (hs : s.state = .nextPacket header) (hr : t.read = .ready (.ok bs))
      (hb : bs = [] ∨ 20 < filledBy header bs) (e : IoError) :
      Turn cx t s (.ready (.error e)) ((s.consume bs).setState .error)
  | noMemory {header bs : List UInt8} (hs : s.state = .nextPacket header) (hr : t.read = .ready (.ok bs))
      (h0 : bs ≠ []) (h20 : filledBy header bs = 20) (hl : (headerBy header bs).len = 0)
      (hm : s.socketMap (headerBy header bs).addr = none) (hc : s.connected = true) (ha : t.alloc = false)
      (e : IoError) : Turn cx t s (.ready (.error e)) (s.consume bs)
  | discard {owner : SocketAddr} {left : ℕ} {bs : List UInt8} (hs : s.state = .read owner left)
      (hu : s.upgrade owner = none) (hr : t.read = .ready (.ok bs)) (h0 : bs ≠ []) (hle : bs.length ≤ left) :
      Turn cx t s (.ready (.ok ())) ((s.consume bs).setState (payloadLeft owner (left - bs.length)))
  | fill {owner : SocketAddr} {left id : ℕ} {bs : List UInt8} (hs : s.state = .read owner left)
      (hu : s.upgrade owner = some id) (hr : t.read = .ready (.ok bs))
      (h0 : bs.take (s.entries id).buffer.room ≠ [])
      (hle : (bs.take (s.entries id).buffer.room).length ≤ left) :
      Turn cx t s (.ready (.ok ()))
        ((s.fill id bs).setState
          (payloadLeft owner (left - (bs.take (s.entries id).buffer.room).length)))
  | payload {header bs : List UInt8} (hs : s.state = .nextPacket header) (hr : t.read = .ready (.ok bs))
      (h0 : bs ≠ []) (h20 : filledBy header bs = 20) (hl : (headerBy header bs).len ≠ 0) :
      Turn cx t s (.ready (.ok ()))
        ((s.consume bs).setState (.read (headerBy header bs).addr (headerBy header bs).len))
  | close {header bs : List UInt8} {id : ℕ} (hs : s.state = .nextPacket header)
      (hr : t.read = .ready (.ok bs)) (h0 : bs ≠ []) (h20 : filledBy header bs = 20)
      (hl : (headerBy header bs).len = 0) (hm : s.socketMap (headerBy header bs).addr = some id) :
      Turn cx t s (.ready (.ok ()))
        (((s.consume bs).remove (headerBy header bs).addr).setState (.nextPacket []))
  | ignore {header bs : List UInt8} (hs : s.state = .nextPacket header) (hr : t.read = .ready (.ok bs))
      (h0 : bs ≠ []) (h20 : filledBy header bs = 20) (hl : (headerBy header bs).len = 0)
      (hm : s.socketMap (headerBy header bs).addr = none) (hc : s.connected = false) :
      Turn cx t s (.ready (.ok ())) ((s.consume bs).setState (.nextPacket []))
  | opening {header bs : List UInt8} (hs : s.state = .nextPacket header) (hr : t.read = .ready (.ok bs))
      (h0 : bs ≠ []) (h20 : filledBy header bs = 20) (hl : (headerBy header bs).len = 0)
      (hm : s.socketMap (headerBy header bs).addr = none) (hc : s.connected = true) :
      Turn cx t s (.ready (.ok ()))
        ((((s.consume bs).add (headerBy header bs).addr cx .queued).setState
          (.sendSocket (headerBy header bs).addr s.next false)).emit
            (.opened (headerBy header bs).addr s.next))
  | sent {addr : SocketAddr} {id : ℕ} {polled : Bool} (hs : s.state = .sendSocket addr id polled)
      (hc : s.connected = true) :
      Turn cx t s (.ready (.ok ())) ((if polled then s else s.offer addr id).setState (.nextPacket []))
  | unsent {addr : SocketAddr} {id : ℕ} {polled : Bool} (hs : s.state = .sendSocket addr id polled)
      (hc : s.connected = false) :
      Turn cx t s (.ready (.ok ()))
        ((if (s.entries id).handle = .queued then
            s.setEntry id { s.entries id with handle := .dropped } else s).setState (.nextPacket []))

section
variable {cx : Waker} {t : Tick} {s : SharedReader}

/-- The count of a payload either ends the stream or is subtracted. -/
theorem finishRead_eq (owner : SocketAddr) (left amount : ℕ) (s : SharedReader) :
    (Cut amount left ∧ ∃ e, s.finishRead owner left amount = (.ready (.error e), s.setState .error)) ∨
      (amount ≠ 0 ∧ amount ≤ left ∧
        s.finishRead owner left amount = (.ready (.ok ()), s.setState (payloadLeft owner (left - amount)))) := by
  unfold finishRead Cut payloadLeft
  by_cases h0 : amount = 0
  · exact Or.inl ⟨Or.inl h0, _, by rw [if_pos h0]; rfl⟩
  by_cases hfit : amount < 65536 ∧ amount ≤ left
  · refine Or.inr ⟨h0, hfit.2, ?_⟩
    rw [if_neg h0, if_pos hfit]
    split <;> rfl
  · exact Or.inl ⟨Or.inr hfit, _, by rw [if_neg h0, if_neg hfit]; rfl⟩

theorem pollRead_turn {owner : SocketAddr} {left : ℕ} (hs : s.state = .read owner left) :
    Turn cx t s (s.pollRead cx t owner left).1 (s.pollRead cx t owner left).2 := by
  unfold pollRead
  cases hu : s.upgrade owner with
  | none =>
    have hreads : s.Reads := by
      simp [Reads, hs, hu]
    dsimp only
    cases hr : t.read with
    | pending => exact .parked hreads hr
    | ready res =>
      cases res with
      | error e => exact .failed hreads hr
      | ok bs =>
        dsimp only
        obtain ⟨hcut, e, heq⟩ | ⟨h0, hle, heq⟩ := (s.consume bs).finishRead_eq owner left bs.length
        · rw [heq]
          exact .discardCut hs hu hr hcut e
        · have hne : bs ≠ [] := List.ne_nil_of_length_pos (by omega)
          rw [heq]
          exact .discard hs hu hr hne hle
  | some id =>
    dsimp only
    by_cases hroom : (s.entries id).buffer.room = 0
    · have hfull : (s.entries id).buffer.fillBuffer t.read = (.ready (.ok none), (s.entries id).buffer) := by
        simp [ReadBuffer.fillBuffer, hroom]
      simp only [hfull]
      exact .full hs hu hroom
    · have hreads : s.Reads := by
        simp [Reads, hs, hu, hroom]
      cases hr : t.read with
      | pending =>
        have hfill : (s.entries id).buffer.fillBuffer .pending = (.pending, (s.entries id).buffer) := by
          simp [ReadBuffer.fillBuffer, hroom]
        simp only [hfill]
        exact .parked hreads hr
      | ready res =>
        cases res with
        | error e =>
          have hfill : (s.entries id).buffer.fillBuffer (.ready (.error e)) =
              (.ready (.error e), (s.entries id).buffer) := by
            simp [ReadBuffer.fillBuffer, hroom]
          simp only [hfill]
          exact .failed hreads hr
        | ok bs =>
          have hfill : (s.entries id).buffer.fillBuffer (.ready (.ok bs)) =
              (.ready (.ok (some (bs.take (s.entries id).buffer.room).length)),
                (s.entries id).buffer.fill bs) := by
            simp [ReadBuffer.fillBuffer, hroom]
          simp only [hfill]
          obtain ⟨hcut, e, heq⟩ | ⟨h0, hle, heq⟩ := (s.fill id bs).finishRead_eq owner left
            (bs.take (s.entries id).buffer.room).length
          · have hstep : ((s.deliver id ((s.entries id).buffer.fill bs)
                (got (s.entries id).buffer (.ready (.ok bs)))).wake (s.entries id).readerPipeWaker) =
                s.fill id bs := rfl
            rw [hstep, heq]
            exact .fillCut hs hu hroom hr hcut e
          · have hstep : ((s.deliver id ((s.entries id).buffer.fill bs)
                (got (s.entries id).buffer (.ready (.ok bs)))).wake (s.entries id).readerPipeWaker) =
                s.fill id bs := rfl
            have hne : bs.take (s.entries id).buffer.room ≠ [] := List.ne_nil_of_length_pos (by omega)
            rw [hstep, heq]
            exact .fill hs hu hr hne hle

theorem pollNextPacket_turn {header : List UInt8} (hs : s.state = .nextPacket header) :
    Turn cx t s (s.pollNextPacket cx t header).1 (s.pollNextPacket cx t header).2 := by
  have hreads : s.Reads := by
    simp [Reads, hs]
  unfold pollNextPacket
  cases hr : t.read with
  | pending => exact .parked hreads hr
  | ready res =>
    cases res with
    | error e => exact .failed hreads hr
    | ok bs =>
      dsimp only
      by_cases h0 : bs.length = 0
      · have hnil : bs = [] := List.length_eq_zero_iff.mp h0
        rw [if_pos h0]
        exact .headerCut hs hr (Or.inl hnil) _
      have hne : bs ≠ [] := List.ne_nil_of_length_pos (by omega)
      rw [if_neg h0]
      have hdef : (header.length + bs.length % 256) % 256 = filledBy header bs := rfl
      rw [hdef]
      rcases lt_trichotomy (filledBy header bs) MuxFrameHeader.size with hlt | heq | hgt
      · rw [compare_lt_iff_lt.mpr hlt]
        exact .short hs hr hne hlt
      · rw [compare_eq_iff_eq.mpr heq]
        dsimp only
        unfold takeHeader
        by_cases hl : (headerBy header bs).len = 0
        · have hl' : ¬ (MuxFrameHeader.assumeInit ((header ++ bs).take 20)).len ≠ 0 := not_not.mpr hl
          rw [if_neg hl']
          cases hm : s.socketMap (headerBy header bs).addr with
          | some id =>
            have hsome : ((s.consume bs).socketMap
                (MuxFrameHeader.assumeInit ((header ++ bs).take 20)).addr).isSome = true := by
              have : (s.consume bs).socketMap (MuxFrameHeader.assumeInit ((header ++ bs).take 20)).addr =
                some id := hm
              rw [this]
              rfl
            rw [if_pos hsome]
            exact .close hs hr hne heq hl hm
          | none =>
            have hnone : (s.consume bs).socketMap
                (MuxFrameHeader.assumeInit ((header ++ bs).take 20)).addr = none := hm
            rw [hnone, if_neg (by simp)]
            by_cases hc : s.connected = true
            · have hc' : (s.consume bs).connected = true := hc
              rw [if_pos hc']
              cases ha : t.alloc with
              | true =>
                simp only [insert, hnone, if_true]
                exact .opening hs hr hne heq hl hm hc
              | false =>
                simp only [insert, hnone, Bool.false_eq_true, if_false]
                exact .noMemory hs hr hne heq hl hm hc ha _
            · have hc' : ¬ (s.consume bs).connected = true := hc
              rw [if_neg hc']
              exact .ignore hs hr hne heq hl hm (by simpa using hc)
        · have hl' : (MuxFrameHeader.assumeInit ((header ++ bs).take 20)).len ≠ 0 := hl
          rw [if_pos hl']
          exact .payload hs hr hne heq hl
      · rw [compare_gt_iff_gt.mpr hgt]
        exact .headerCut hs hr (Or.inr hgt) _

theorem pollSend_turn {addr : SocketAddr} {id : ℕ} {polled : Bool}
    (hs : s.state = .sendSocket addr id polled) :
    Turn cx t s (s.pollSend cx t addr id polled).1 (s.pollSend cx t addr id polled).2 := by
  unfold pollSend
  by_cases hc : s.connected = true
  · rw [if_pos hc]
    cases t.send with
    | pending => exact .sending hs hc
    | ready u => exact .sent hs hc
  · rw [if_neg hc]
    exact .unsent hs (by simpa using hc)

/-- One iteration of the loop is one of the turns. -/
theorem pollOnce_turn (cx : Waker) (t : Tick) (s : SharedReader) :
    Turn cx t s (s.pollOnce cx t).1 (s.pollOnce cx t).2 := by
  unfold pollOnce
  cases hs : s.state with
  | read owner left => exact pollRead_turn hs
  | nextPacket header => exact pollNextPacket_turn hs
  | sendSocket addr id polled => exact pollSend_turn hs
  | error => exact .broken hs _

end

end SharedReader

end VtMuxer
