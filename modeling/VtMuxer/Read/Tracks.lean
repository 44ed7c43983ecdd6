import VtMuxer.Read.Demux

/-! What one operation of the shared reader does in terms of the reference demultiplexer. -/
namespace VtMuxer

def Event.isTraffic : Event → Bool
  | opened _ _ => true
  | closed _ _ => true
  | _ => false

namespace Position

def Valid : Position → Prop
  | header filled => filled.length < 20
  | payload _ left => 0 < left ∧ left < 65536

end Position

namespace SharedReader

def traffic (s : SharedReader) : List Event := s.log.filter Event.isTraffic

/-- A new socket on its way to the listener stands between two frames. -/
def position (s : SharedReader) : Option Position :=
  match s.state with
  | .read owner left => some (.payload owner left)
  | .nextPacket header => some (.header header)
  | .sendSocket _ _ _ => some (.header [])
  | .error => none

/-- How many bytes the next iteration wants from the stream, if it reads at all. -/
def requested (s : SharedReader) : Option ℕ :=
  match s.state with
  | .read owner left =>
    match s.upgrade owner with
    | none => some left
    | some id =>
      if (s.entries id).buffer.room = 0 then none else some (min (s.entries id).buffer.room left)
  | .nextPacket header => some (20 - header.length)
  | .sendSocket _ _ _ => none
  | .error => none

/-- The stream gives between one and all of the bytes wanted, or none yet; memory can be
allocated. -/
def Fair (s : SharedReader) (t : Tick) : Prop :=
  t.alloc = true ∧ ∀ n, s.requested = some n →
    t.read = .pending ∨ ∃ bs, t.read = .ready (.ok bs) ∧ 1 ≤ bs.length ∧ bs.length ≤ n

theorem Fair.bytes {s : SharedReader} {bs : List UInt8} {n : ℕ} (hn : s.requested = some n) (h1 : 1 ≤ bs.length)
    (hle : bs.length ≤ n) : s.Fair (.bytes bs) := by
  refine ⟨rfl, fun m hm => Or.inr ⟨bs, rfl, h1, ?_⟩⟩
  rw [hn] at hm
  exact Option.some.inj hm ▸ hle

theorem Fair.silent {s : SharedReader} (hn : s.requested = none) : s.Fair (.bytes []) := by
  refine ⟨rfl, fun n h => ?_⟩
  rw [hn] at h
  cases h

@[simp] theorem emit_traffic {e : Event} (h : e.isTraffic = false) (s : SharedReader) :
    (s.emit e).traffic = s.traffic := by
  simp [traffic, emit, h]

@[simp] theorem wake_traffic (w : Waker) (s : SharedReader) : (s.wake w).traffic = s.traffic :=
  emit_traffic rfl s

@[simp] theorem wakeReceiver_traffic (s : SharedReader) : s.wakeReceiver.traffic = s.traffic := by
  unfold wakeReceiver
  split
  · rfl
  · exact wake_traffic _ _

end SharedReader

/-- The reader has done what the reference did. -/
structure Tracks (live : ℕ → Bool) (s : SharedReader) (d : Demux) : Prop where
  map : s.socketMap = d.map
  next : s.next = d.next
  events : s.traffic = d.events
  appended : ∀ id < s.next, (s.entries id).appended = d.appended id
  alive : ∀ id < s.next, live id = true ↔ (s.entries id).handle ≠ .dropped
  fresh : ∀ id, s.next ≤ id → live id = true
  sending : ∀ a id polled, s.state = .sendSocket a id polled → s.connected = true

section
variable {live : ℕ → Bool} {s s' : SharedReader} {d : Demux}

theorem Tracks.congr (h : Tracks live s d) (hm : s'.socketMap = s.socketMap) (hn : s'.next = s.next)
    (ht : s'.traffic = s.traffic) (ha : ∀ id, (s'.entries id).appended = (s.entries id).appended)
    (hh : ∀ id, (s'.entries id).handle = .dropped ↔ (s.entries id).handle = .dropped)
    (hs : ∀ a id polled, s'.state = .sendSocket a id polled → s'.connected = true) :
    Tracks live s' d where
  map := hm.trans h.map
  next := hn.trans h.next
  events := ht.trans h.events
  appended id hid := (ha id).trans (h.appended id (hn ▸ hid))
  alive id hid := by
    rw [ne_eq, hh id]
    exact h.alive id (hn ▸ hid)
  fresh id hid := h.fresh id (hn ▸ hid)
  sending := hs

theorem Tracks.upgrade (h : Tracks live s d) (a : SocketAddr) :
    s.upgrade a = (d.map a).filter fun id => live id := by
  unfold SharedReader.upgrade
  rw [h.map]
  cases hd : d.map a with
  | none => rfl
  | some id =>
    have hlt : id < s.next := s.allocated a id (by rw [h.map, hd])
    have hl := h.alive id hlt
    by_cases hh : (s.entries id).handle = .dropped
    · have : live id = false := by simpa [hh] using hl
      simp [Option.filter, hh, this]
    · have : live id = true := hl.mpr hh
      simp [Option.filter, hh, this]

/-- Payload nobody reads leaves no trace. -/
theorem Tracks.deliver_none (h : Tracks live s d) {a : SocketAddr} (hu : s.upgrade a = none)
    (bs : List UInt8) : d.deliver live a bs = d := by
  rw [h.upgrade a] at hu
  unfold Demux.deliver
  cases hd : d.map a with
  | none => rfl
  | some id =>
    have hl : live id = false := by simpa [hd, Option.filter] using hu
    simp [hl]

theorem Tracks.deliver_some (h : Tracks live s d) {a : SocketAddr} {id : ℕ} {bs : List UInt8}
    (hu : s.upgrade a = some id) (htake : bs.take (s.entries id).buffer.room = bs) :
    Tracks live (s.deliver id ((s.entries id).buffer.fill bs) bs) (d.deliver live a bs) := by
  rw [h.upgrade a] at hu
  obtain ⟨hd, hl⟩ : d.map a = some id ∧ live id = true := by
    simpa [Option.filter_eq_some_iff] using hu
  have hdel : d.deliver live a bs =
      { d with appended := Function.update d.appended id (d.appended id ++ bs) } := by
    simp [Demux.deliver, hd, hl]
  rw [hdel]
  constructor
  case map => exact h.map
  case next => exact h.next
  case events => exact h.events
  case appended =>
    intro j hj
    rcases eq_or_ne j id with rfl | hne
    · have := h.appended j hj
      simp [SharedReader.deliver, SharedReader.setEntry, htake, this]
    · have := h.appended j hj
      simpa [SharedReader.deliver, SharedReader.setEntry, SharedReader.consume, hne] using this
  case alive =>
    intro j hj
    rcases eq_or_ne j id with rfl | hne
    · simpa [SharedReader.deliver, SharedReader.setEntry] using h.alive j hj
    · simpa [SharedReader.deliver, SharedReader.setEntry, SharedReader.consume, hne] using h.alive j hj
  case fresh => exact h.fresh
  case sending => exact h.sending

theorem Tracks.setState (h : Tracks live s d) {st : SharedReaderState}
    (hst : ∀ a id polled, st ≠ .sendSocket a id polled) : Tracks live (s.setState st) d :=
  h.congr rfl rfl rfl (fun _ => rfl) (fun _ => Iff.rfl) fun a id polled he => absurd he (hst a id polled)

theorem Tracks.wake (h : Tracks live s d) (w : Waker) : Tracks live (s.wake w) d :=
  h.congr rfl rfl (SharedReader.wake_traffic w s) (fun _ => rfl) (fun _ => Iff.rfl) h.sending

theorem Tracks.consume (h : Tracks live s d) (bs : List UInt8) : Tracks live (s.consume bs) d :=
  h.congr rfl rfl rfl (fun _ => rfl) (fun _ => Iff.rfl) h.sending

theorem Tracks.park (h : Tracks live s d) (cx : Waker) : Tracks live (s.park cx) d := by
  have ht : (s.park cx).traffic = s.traffic := by
    simp [SharedReader.traffic, SharedReader.park, Event.isTraffic]
  exact h.congr rfl rfl ht (fun _ => rfl) (fun _ => Iff.rfl) h.sending

theorem Tracks.unlink (h : Tracks live s d) (connected : Bool) {a : SocketAddr} {id : ℕ}
    (hm : s.socketMap a = some id) : Tracks live (s.unlink a id) (d.toggle connected a) := by
  have hd : d.map a = some id := by rw [← h.map, hm]
  have htog : d.toggle connected a =
      { d with map := Function.update d.map a none, events := d.events ++ [.closed a id] } := by
    simp [Demux.toggle, hd]
  rw [htog]
  constructor
  case map => simp [SharedReader.unlink, h.map]
  case next => exact h.next
  case events =>
    have he := h.events
    unfold SharedReader.traffic at he ⊢
    simp [SharedReader.unlink, he, Event.isTraffic]
  case appended =>
    intro j hj
    have ha := h.appended j hj
    rcases eq_or_ne j id with rfl | hne
    · simpa [SharedReader.unlink] using ha
    · simpa [SharedReader.unlink, hne] using ha
  case alive =>
    intro j hj
    have ha := h.alive j hj
    rcases eq_or_ne j id with rfl | hne
    · simpa [SharedReader.unlink] using ha
    · simpa [SharedReader.unlink, hne] using ha
  case fresh => exact h.fresh
  case sending => exact h.sending

theorem Tracks.remove (h : Tracks live s d) (connected : Bool) {a : SocketAddr} {id : ℕ}
    (hm : s.socketMap a = some id) : Tracks live (s.remove a) (d.toggle connected a) := by
  have hu := h.unlink connected hm
  unfold SharedReader.remove
  rw [hm]
  dsimp only
  split
  · exact hu
  · exact hu.wake _

theorem Tracks.add (h : Tracks live s d) (hc : s.connected = true) {a : SocketAddr}
    (hm : s.socketMap a = none) (cx : Waker) :
    Tracks live (((s.add a cx .queued).setState (.sendSocket a s.next false)).emit (.opened a s.next))
      (d.toggle s.connected a) := by
  have hd : d.map a = none := by rw [← h.map, hm]
  have htog : d.toggle s.connected a =
      { map := Function.update d.map a (some d.next), next := d.next + 1,
        events := d.events ++ [.opened a d.next], appended := Function.update d.appended d.next [] } := by
    simp [Demux.toggle, hd, hc]
  rw [htog]
  constructor
  case map => simp [SharedReader.emit, SharedReader.setState, SharedReader.add, h.map, h.next]
  case next => simp [SharedReader.emit, SharedReader.setState, SharedReader.add, h.next]
  case events =>
    have he := h.events
    unfold SharedReader.traffic at he ⊢
    simp [SharedReader.emit, SharedReader.setState, SharedReader.add, he, Event.isTraffic, h.next]
  case appended =>
    intro j hj
    have hle : j < s.next + 1 := hj
    rcases eq_or_ne j s.next with rfl | hne
    · simp [SharedReader.emit, SharedReader.setState, SharedReader.add, ReaderEntry.new, h.next]
    · have hne' : j ≠ d.next := h.next ▸ hne
      have ha := h.appended j (by omega)
      simpa [SharedReader.emit, SharedReader.setState, SharedReader.add, hne, hne'] using ha
  case alive =>
    intro j hj
    have hle : j < s.next + 1 := hj
    rcases eq_or_ne j s.next with rfl | hne
    · have hf := h.fresh s.next le_rfl
      simpa [SharedReader.emit, SharedReader.setState, SharedReader.add, ReaderEntry.new] using hf
    · have ha := h.alive j (by omega)
      simpa [SharedReader.emit, SharedReader.setState, SharedReader.add, hne] using ha
  case fresh =>
    intro j hj
    have hle : s.next + 1 ≤ j := hj
    exact h.fresh j (by omega)
  case sending => exact fun _ _ _ _ => hc

end

/-- From `s`, at the reference's position `p`, the reader took `bs` from the stream and came
to `s'`, where the reference comes with them. -/
structure Advances (live : ℕ → Bool) (s s' : SharedReader) (d : Demux) (p : Position) (bs : List UInt8) :
    Prop where
  consumed : s'.consumed = s.consumed ++ bs
  connected : s'.connected = s.connected
  tracks : Tracks live s' (d.resume live s.connected bs p).1
  position : s'.position = some (d.resume live s.connected bs p).2

namespace Demux
variable {live : ℕ → Bool} {connected : Bool}

theorem resume_nil {p : Position} (hv : p.Valid) (d : Demux) : d.resume live connected [] p = (d, p) := by
  cases p with
  | header filled =>
    have hr : d.run live connected (filled ++ []) = (d, .header filled) := by
      rw [List.append_nil]
      exact run_of_lt hv
    exact hr
  | payload owner left =>
    have h0 : ¬ left ≤ 0 := by
      have := hv.1
      omega
    simp [resume, h0]

end Demux

section
variable {live : ℕ → Bool} {s : SharedReader} {d : Demux} {p : Position}

theorem Tracks.stays {s' : SharedReader} (h : Tracks live s' d) (hv : p.Valid)
    (hc : s'.consumed = s.consumed) (hn : s'.connected = s.connected) (hp : s'.position = some p) :
    Advances live s s' d p [] := by
  have hr : d.resume live s.connected [] p = (d, p) := Demux.resume_nil hv d
  constructor
  case consumed => rw [hc, List.append_nil]
  case connected => exact hn
  case tracks => rw [hr]; exact h
  case position => rw [hr]; exact hp

theorem Tracks.pollSend (h : Tracks live s d) {a : SocketAddr} {id : ℕ} {polled : Bool}
    (hs : s.state = .sendSocket a id polled) (cx : Waker) (t : Tick) :
    Advances live s (s.pollSend cx t a id polled).2 d (.header []) [] := by
  have hc : s.connected = true := h.sending a id polled hs
  have hoff : ∃ s₁ : SharedReader, (if polled then s else s.offer a id) = s₁ ∧
      Tracks live s₁ d ∧ s₁.consumed = s.consumed ∧ s₁.connected = s.connected := by
    refine ⟨_, rfl, ?_⟩
    cases polled with
    | true => exact ⟨h, rfl, rfl⟩
    | false =>
      have ho : Tracks live (s.offer a id) d := by
        refine h.congr ?_ ?_ ?_ ?_ ?_ ?_ <;> simp [SharedReader.offer, hc]
        rfl
      have hcons : (s.offer a id).consumed = s.consumed := by simp [SharedReader.offer]
      have hconn : (s.offer a id).connected = s.connected := by simp [SharedReader.offer]
      exact ⟨ho, hcons, hconn⟩
  obtain ⟨s₁, he, ht, hcons, hconn⟩ := hoff
  have hv : (Position.header []).Valid := by simp [Position.Valid]
  unfold SharedReader.pollSend
  rw [if_pos hc]
  dsimp only
  rw [he]
  cases t.send with
  | pending =>
    refine Tracks.stays ?_ hv hcons hconn rfl
    have h₂ : Tracks live (s₁.setState (.sendSocket a id true)) d :=
      ht.congr rfl rfl rfl (fun _ => rfl) (fun _ => Iff.rfl) fun _ _ _ _ => hconn.trans hc
    exact h₂.congr rfl rfl (SharedReader.emit_traffic rfl _) (fun _ => rfl) (fun _ => Iff.rfl) h₂.sending
  | ready u =>
    have hne : ∀ a id polled, SharedReaderState.nextPacket [] ≠ .sendSocket a id polled := by simp
    exact Tracks.stays (ht.setState hne) hv hcons hconn rfl

/-- A complete header is acted on as the reference does. -/
theorem Tracks.takeHeader (h : Tracks live s d) {t : Tick} (ha : t.alloc = true) (cx : Waker)
    (header : MuxFrameHeader) :
    (s.takeHeader cx t header).2.consumed = s.consumed ∧
      (s.takeHeader cx t header).2.connected = s.connected ∧
      Tracks live (s.takeHeader cx t header).2
        (if header.len = 0 then d.toggle s.connected header.addr else d) ∧
      (s.takeHeader cx t header).2.position =
        some (if header.len = 0 then .header [] else .payload header.addr header.len) := by
  have hne : ∀ a id polled, SharedReaderState.nextPacket [] ≠ .sendSocket a id polled := by simp
  unfold SharedReader.takeHeader
  by_cases hl : header.len = 0
  · simp only [hl, ne_eq, not_true_eq_false, if_false, if_true]
    cases hm : s.socketMap header.addr with
    | some id =>
      simp only [Option.isSome_some, if_true]
      exact ⟨by simp [SharedReader.setState], by simp [SharedReader.setState],
        (h.remove s.connected hm).setState hne, rfl⟩
    | none =>
      simp only [Option.isSome_none, Bool.false_eq_true, if_false]
      cases hc : s.connected with
      | true =>
        have hi : s.insert header.addr cx .queued t.alloc = (.ok s.next, s.add header.addr cx .queued) := by
          simp [SharedReader.insert, hm, ha]
        simp only [if_true, hi]
        exact ⟨rfl, hc, hc ▸ h.add hc hm cx, rfl⟩
      | false =>
        have htog : d.toggle false header.addr = d := by
          have hd : d.map header.addr = none := by rw [← h.map, hm]
          simp [Demux.toggle, hd]
        simp only [Bool.false_eq_true, if_false, htog]
        exact ⟨rfl, hc, h.setState hne, rfl⟩
  · simp only [hl, ne_eq, not_false_eq_true, if_true, if_false]
    exact ⟨rfl, rfl, h.setState (by simp), rfl⟩

theorem Tracks.pollNextPacket (h : Tracks live s d) {header : List UInt8}
    (hs : s.state = .nextPacket header) (hv : header.length < 20) {t : Tick} (hf : s.Fair t)
    (cx : Waker) : ∃ bs, Advances live s (s.pollNextPacket cx t header).2 d (.header header) bs := by
  have hreq : s.requested = some (20 - header.length) := by simp [SharedReader.requested, hs]
  unfold SharedReader.pollNextPacket
  rcases hf.2 _ hreq with hr | ⟨bs, hr, hpos, hle⟩
  · rw [hr]
    have hp : (s.park cx).position = some (.header header) := by
      simp [SharedReader.position, SharedReader.park, hs]
    exact ⟨[], (h.park cx).stays hv rfl rfl hp⟩
  rw [hr]
  have h0 : bs.length ≠ 0 := by omega
  have hfill : (header.length + bs.length % 256) % 256 = header.length + bs.length := by omega
  have hc := h.consume bs
  simp only [h0, if_false, hfill]
  refine ⟨bs, ?_⟩
  rcases Nat.lt_or_ge (header.length + bs.length) 20 with hlt | hge
  · have hcmp : compare (header.length + bs.length) MuxFrameHeader.size = .lt :=
      compare_lt_iff_lt.mpr hlt
    have htake : (header ++ bs).take (header.length + bs.length) = header ++ bs :=
      List.take_of_length_le (by simp)
    have hrun : d.resume live s.connected bs (.header header) = (d, .header (header ++ bs)) :=
      Demux.run_of_lt (by simpa using hlt)
    simp only [hcmp, htake]
    constructor
    case consumed => rfl
    case connected => rfl
    case tracks => rw [hrun]; exact hc.setState (by simp)
    case position => rw [hrun]; rfl
  · have heq : header.length + bs.length = 20 := by omega
    have hlen : (header ++ bs).length = 20 := by simpa using heq
    have hcmp : compare (header.length + bs.length) MuxFrameHeader.size = .eq :=
      compare_eq_iff_eq.mpr heq
    have htake : (header ++ bs).take 20 = header ++ bs := List.take_of_length_le hlen.le
    have hinit : MuxFrameHeader.assumeInit ((header ++ bs).take 20) = .ofBytes (header ++ bs) hlen := by
      rw [htake]
      simp [MuxFrameHeader.assumeInit, hlen]
    have hrun : d.resume live s.connected bs (.header header) =
        (if (MuxFrameHeader.ofBytes (header ++ bs) hlen).len = 0 then
            d.toggle s.connected (MuxFrameHeader.ofBytes (header ++ bs) hlen).addr else d,
          if (MuxFrameHeader.ofBytes (header ++ bs) hlen).len = 0 then .header []
          else .payload (MuxFrameHeader.ofBytes (header ++ bs) hlen).addr
            (MuxFrameHeader.ofBytes (header ++ bs) hlen).len) := by
      have hl : ((header ++ bs).take 20).length = 20 := by rw [htake, hlen]
      have hh : MuxFrameHeader.ofBytes ((header ++ bs).take 20) hl = .ofBytes (header ++ bs) hlen :=
        MuxFrameHeader.ofBytes_congr htake _ _
      have hdrop : (header ++ bs).drop 20 = [] := List.drop_of_length_le hlen.le
      have hge : d.resume live s.connected bs (.header header) = d.run live s.connected (header ++ bs) := rfl
      rw [hge, Demux.run_of_ge hlen.ge hl, hh, hdrop]
      by_cases hz : (MuxFrameHeader.ofBytes (header ++ bs) hlen).len = 0
      · simp [hz]
      · have hpos : 0 < (MuxFrameHeader.ofBytes (header ++ bs) hlen).len := Nat.pos_of_ne_zero hz
        have hval : (Position.payload (MuxFrameHeader.ofBytes (header ++ bs) hlen).addr
          (MuxFrameHeader.ofBytes (header ++ bs) hlen).len).Valid := ⟨hpos, MuxFrameHeader.len_lt _⟩
        simp only [hz, if_false]
        exact Demux.resume_nil hval d
    obtain ⟨hcons, hconn, htr, hpos'⟩ := hc.takeHeader hf.1 cx (.ofBytes (header ++ bs) hlen)
    simp only [hcmp, hinit]
    constructor
    case consumed => rw [hcons]; rfl
    case connected => rw [hconn]; rfl
    case tracks => rw [hrun]; exact htr
    case position => rw [hrun]; exact hpos'

theorem Demux.resume_payload {owner : SocketAddr} {left : ℕ} {bs : List UInt8} {connected : Bool}
    (hle : bs.length ≤ left) (d : Demux) :
    d.resume live connected bs (.payload owner left) =
      (d.deliver live owner bs,
        if left - bs.length = 0 then .header [] else .payload owner (left - bs.length)) := by
  unfold Demux.resume
  by_cases hl : left ≤ bs.length
  · have heq : left = bs.length := by omega
    subst heq
    simp
  · have h0 : left - bs.length ≠ 0 := by omega
    simp [hl, h0]

theorem Tracks.finishRead (h : Tracks live s d) (owner : SocketAddr) {left amount : ℕ}
    (hpos : 0 < amount) (hle : amount ≤ left) (hlt : left < 65536) :
    (s.finishRead owner left amount).2.consumed = s.consumed ∧
      (s.finishRead owner left amount).2.connected = s.connected ∧
      Tracks live (s.finishRead owner left amount).2 d ∧
      (s.finishRead owner left amount).2.position =
        some (if left - amount = 0 then .header [] else .payload owner (left - amount)) := by
  have h0 : amount ≠ 0 := by omega
  have hfit : amount < 65536 ∧ amount ≤ left := ⟨by omega, hle⟩
  unfold SharedReader.finishRead
  rw [if_neg h0, if_pos hfit]
  by_cases hz : left - amount = 0
  · simp only [hz, if_true]
    exact ⟨rfl, rfl, h.setState (by simp), rfl⟩
  · simp only [hz, if_false]
    exact ⟨rfl, rfl, h.setState (by simp), rfl⟩

theorem Tracks.moves {s₁ : SharedReader} {owner : SocketAddr} {left : ℕ} {bs : List UInt8}
    (h : Tracks live s₁ (d.deliver live owner bs)) (hc : s₁.consumed = s.consumed ++ bs)
    (hn : s₁.connected = s.connected) (hpos : 1 ≤ bs.length) (hle : bs.length ≤ left)
    (hlt : left < 65536) :
    Advances live s (s₁.finishRead owner left bs.length).2 d (.payload owner left) bs := by
  obtain ⟨hcons, hconn, htr, hp⟩ := h.finishRead owner hpos hle hlt
  have hr : d.resume live s.connected bs (.payload owner left) =
      (d.deliver live owner bs,
        if left - bs.length = 0 then .header [] else .payload owner (left - bs.length)) :=
    Demux.resume_payload hle d
  constructor
  case consumed => rw [hcons, hc]
  case connected => rw [hconn, hn]
  case tracks => rw [hr]; exact htr
  case position => rw [hr]; exact hp

theorem Tracks.pollRead (h : Tracks live s d) {owner : SocketAddr} {left : ℕ}
    (hs : s.state = .read owner left) (hv : (Position.payload owner left).Valid) {t : Tick}
    (hf : s.Fair t) (cx : Waker) :
    ∃ bs, Advances live s (s.pollRead cx t owner left).2 d (.payload owner left) bs := by
  have hpos : ∀ s' : SharedReader, s'.state = s.state → s'.position = some (.payload owner left) := by
    intro s' he
    simp [SharedReader.position, he, hs]
  unfold SharedReader.pollRead
  cases hu : s.upgrade owner with
  | none =>
    have hreq : s.requested = some left := by simp [SharedReader.requested, hs, hu]
    rcases hf.2 _ hreq with hr | ⟨bs, hr, h1, hle⟩
    · simp only [hr]
      exact ⟨[], (h.park cx).stays hv rfl rfl (hpos _ rfl)⟩
    · simp only [hr]
      have hdel : d.deliver live owner bs = d := h.deliver_none hu bs
      have hc : Tracks live (s.consume bs) (d.deliver live owner bs) := hdel.symm ▸ h.consume bs
      exact ⟨bs, hc.moves rfl rfl h1 hle hv.2⟩
  | some id =>
    dsimp only
    by_cases hroom : (s.entries id).buffer.room = 0
    · have hfull : (s.entries id).buffer.fillBuffer t.read = (.ready (.ok none), (s.entries id).buffer) := by
        simp [ReadBuffer.fillBuffer, hroom]
      simp only [hfull]
      have hw := h.wake (s.entries id).readerPipeWaker
      refine ⟨[], Tracks.stays ?_ hv rfl rfl (hpos _ rfl)⟩
      refine hw.congr rfl rfl ?_ ?_ ?_ hw.sending
      · exact SharedReader.emit_traffic rfl _
      · intro j
        rcases eq_or_ne j id with rfl | hne
        · simp [SharedReader.emit, SharedReader.setEntry, SharedReader.wake]
        · simp [SharedReader.emit, SharedReader.setEntry, SharedReader.wake, hne]
      · intro j
        rcases eq_or_ne j id with rfl | hne
        · simp [SharedReader.emit, SharedReader.setEntry, SharedReader.wake]
        · simp [SharedReader.emit, SharedReader.setEntry, SharedReader.wake, hne]
    · have hreq : s.requested = some (min (s.entries id).buffer.room left) := by
        simp [SharedReader.requested, hs, hu, hroom]
      rcases hf.2 _ hreq with hr | ⟨bs, hr, h1, hle⟩
      · have hfill : (s.entries id).buffer.fillBuffer t.read = (.pending, (s.entries id).buffer) := by
          simp [ReadBuffer.fillBuffer, hroom, hr]
        simp only [hfill]
        exact ⟨[], (h.park cx).stays hv rfl rfl (hpos _ rfl)⟩
      · have htake : bs.take (s.entries id).buffer.room = bs := List.take_of_length_le (by omega)
        have hfill : (s.entries id).buffer.fillBuffer t.read =
            (.ready (.ok (some bs.length)), (s.entries id).buffer.fill bs) := by
          simp [ReadBuffer.fillBuffer, hroom, hr, htake]
        have hgot : SharedReader.got (s.entries id).buffer t.read = bs := by
          simp [SharedReader.got, hr, htake]
        simp only [hfill, hgot]
        have hd := (h.deliver_some hu htake).wake (s.entries id).readerPipeWaker
        exact ⟨bs, hd.moves rfl rfl h1 (by omega) hv.2⟩

/-- One iteration of the poll loop follows the reference. -/
theorem Tracks.pollOnce (h : Tracks live s d) (hp : s.position = some p) (hv : p.Valid) {t : Tick}
    (hf : s.Fair t) (cx : Waker) : ∃ bs, Advances live s (s.pollOnce cx t).2 d p bs := by
  unfold SharedReader.pollOnce
  cases hs : s.state with
  | read owner left =>
    obtain rfl : p = .payload owner left := by simpa [SharedReader.position, hs, eq_comm] using hp
    exact h.pollRead hs hv hf cx
  | nextPacket header =>
    obtain rfl : p = .header header := by simpa [SharedReader.position, hs, eq_comm] using hp
    exact h.pollNextPacket hs hv hf cx
  | sendSocket a id polled =>
    obtain rfl : p = .header [] := by simpa [SharedReader.position, hs, eq_comm] using hp
    exact ⟨[], h.pollSend hs cx t⟩
  | error => simp [SharedReader.position, hs] at hp

/-- Draining a buffer changes nothing that is tracked. -/
theorem Tracks.readEntry (h : Tracks live s d) (cx : Waker) (id n : ℕ) :
    Tracks live (s.readEntry cx id n).2 d := by
  have hset : ∀ e : ReaderEntry, e.appended = (s.entries id).appended →
      e.handle = (s.entries id).handle → Tracks live (s.setEntry id e) d := by
    intro e ha hh
    refine h.congr rfl rfl rfl ?_ ?_ h.sending
    · intro j
      rcases eq_or_ne j id with rfl | hne
      · simpa [SharedReader.setEntry] using ha
      · simp [SharedReader.setEntry, hne]
    · intro j
      rcases eq_or_ne j id with rfl | hne
      · simp [SharedReader.setEntry, hh]
      · simp [SharedReader.setEntry, hne]
  unfold SharedReader.readEntry
  dsimp only
  split
  · exact h
  split
  · have hread : Tracks live (s.setEntry id
        { s.entries id with
          buffer := ((s.entries id).buffer.read n).2
          taken := (s.entries id).taken ++ ((s.entries id).buffer.read n).1 }) d := hset _ (by simp) rfl
    exact hread.wake _
  split
  · exact h.congr rfl rfl (SharedReader.emit_traffic rfl s) (fun _ => rfl) (fun _ => Iff.rfl) h.sending
  · exact hset _ rfl rfl

theorem Tracks.dropReceiver (h : Tracks live s d) (a : ℕ) (hooked : Bool) :
    Tracks live (s.dropReceiver a hooked) d := by
  unfold SharedReader.dropReceiver
  split
  · exact h.congr rfl rfl rfl (fun _ => rfl) (fun _ => Iff.rfl) h.sending
  split
  · refine h.congr (by simp) (by simp) (by simp) (by simp) (by simp) ?_
    intro b id polled he
    rw [SharedReader.wakeReceiver_state] at he
    rw [SharedReader.wakeReceiver_connected]
    exact h.sending b id polled he
  · exact h

theorem Tracks.recvEntry (h : Tracks live s d) (a : ℕ) (hooked : Bool) (cx : Waker) :
    Tracks live (s.recvEntry a hooked cx).2 d := by
  unfold SharedReader.recvEntry
  split
  · unfold SharedReader.awaitItem
    split
    · exact h.congr rfl rfl rfl (fun _ => rfl) (fun _ => Iff.rfl) h.sending
    · exact h.congr rfl rfl rfl (fun _ => rfl) (fun _ => Iff.rfl) h.sending
  · rename_i item rest _
    have htaken : Tracks live (SharedReader.setEntry item.2
        { s.entries item.2 with handle := (s.entries item.2).handle.accept } { s with chan := rest }) d := by
      refine h.congr rfl rfl rfl ?_ ?_ h.sending
      · intro j
        rcases eq_or_ne j item.2 with rfl | hne
        · simp [SharedReader.setEntry]
        · simp [SharedReader.setEntry, hne]
      · intro j
        rcases eq_or_ne j item.2 with rfl | hne
        · simp [SharedReader.setEntry]
        · simp [SharedReader.setEntry, hne]
    exact htaken.dropReceiver a hooked

theorem SharedReader.readEntry_rest (s : SharedReader) (cx : Waker) (id n : ℕ) :
    (s.readEntry cx id n).2.consumed = s.consumed ∧ (s.readEntry cx id n).2.connected = s.connected ∧
      (s.readEntry cx id n).2.state = s.state := by
  unfold SharedReader.readEntry
  dsimp only
  split
  · exact ⟨rfl, rfl, rfl⟩
  split
  · exact ⟨rfl, rfl, rfl⟩
  split <;> exact ⟨rfl, rfl, rfl⟩

theorem SharedReader.dropReceiver_rest (s : SharedReader) (a : ℕ) (hooked : Bool) :
    (s.dropReceiver a hooked).consumed = s.consumed ∧
      (s.dropReceiver a hooked).connected = s.connected ∧ (s.dropReceiver a hooked).state = s.state := by
  unfold SharedReader.dropReceiver
  split
  · exact ⟨rfl, rfl, rfl⟩
  split
  · exact ⟨by simp, by simp, by simp⟩
  · exact ⟨rfl, rfl, rfl⟩

theorem SharedReader.recvEntry_rest (s : SharedReader) (a : ℕ) (hooked : Bool) (cx : Waker) :
    (s.recvEntry a hooked cx).2.consumed = s.consumed ∧
      (s.recvEntry a hooked cx).2.connected = s.connected ∧ (s.recvEntry a hooked cx).2.state = s.state := by
  unfold SharedReader.recvEntry
  split
  · unfold SharedReader.awaitItem
    split <;> exact ⟨rfl, rfl, rfl⟩
  · exact SharedReader.dropReceiver_rest _ a hooked

end

namespace Demux
variable {live : ℕ → Bool} {connected : Bool}

theorem run_valid (n : ℕ) : ∀ (d : Demux) (bytes : List UInt8), bytes.length ≤ n →
    (d.run live connected bytes).2.Valid := by
  induction n with
  | zero =>
    intro d bytes hb
    rw [run_of_lt (by omega)]
    show bytes.length < 20
    omega
  | succ n ih =>
    intro d bytes hb
    by_cases h : 20 ≤ bytes.length
    · have hl : (bytes.take 20).length = 20 := by simp [h]
      have hle : (bytes.drop 20).length ≤ n := by
        rw [List.length_drop]
        omega
      rw [run_of_ge h hl]
      split
      · exact ih _ _ hle
      · rename_i hz
        have hlt := MuxFrameHeader.len_lt (.ofBytes (bytes.take 20) hl)
        unfold resume
        split
        · rename_i he
          cases he
        · rename_i owner left he
          obtain ⟨-, rfl⟩ := Position.payload.inj he
          split
          · refine ih _ _ ?_
            rw [List.length_drop]
            omega
          · refine ⟨?_, ?_⟩ <;> omega
    · rw [run_of_lt (by omega)]
      show bytes.length < 20
      omega

theorem resume_valid {p : Position} (hv : p.Valid) (d : Demux) (bytes : List UInt8) :
    (d.resume live connected bytes p).2.Valid := by
  cases p with
  | header filled => exact run_valid _ _ _ le_rfl
  | payload owner left =>
    have hlt := hv.2
    unfold resume
    dsimp only
    split
    · exact run_valid _ _ _ le_rfl
    · refine ⟨?_, ?_⟩ <;> omega

/-- The connections of a reader, as the reference sees them. -/
def ofReader (s : SharedReader) : Demux where
  map := s.socketMap
  next := s.next
  events := s.traffic
  appended id := (s.entries id).appended

end Demux

end VtMuxer
