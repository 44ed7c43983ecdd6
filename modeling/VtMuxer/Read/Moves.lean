import VtMuxer.Read.Failures

/-! Runs of a shared reader by the moves they are made of, and what a move can come to: the
stream says something and the reader does it, or nothing is said, or a new connection finds
no memory. -/
namespace VtMuxer

/-- Everything that can be done with a shared reader. -/
inductive Move where
  | once (cx : Waker) (t : Tick)
  | yield (cx : Waker)
  | read (cx : Waker) (id n : ℕ)
  | accept (k : ℕ) (hooked : Bool) (cx : Waker)
  | leave (k : ℕ) (hooked : Bool)
  | add (addr : SocketAddr) (alloc : Bool)
  | release (id : ℕ)
  | disconnect

namespace SharedReader

def perform (s : SharedReader) : Move → SharedReader
  | .once cx t => (s.pollOnce cx t).2
  | .yield cx => s.emit (.coopPending cx)
  | .read cx id n => (s.readEntry cx id n).2
  | .accept k hooked cx => (s.recvEntry k hooked cx).2
  | .leave k hooked => s.dropReceiver k hooked
  | .add addr alloc => (s.insert addr .noop .held alloc).2
  | .release id => s.release id
  | .disconnect => s.disconnect

def Sane (s : SharedReader) : Move → Prop
  | .once _ t => s.Within t
  | _ => True

/-- The runs from `s` all of whose moves are as `ok` says in the state that they find. -/
def Plays (ok : SharedReader → Move → Prop) : SharedReader → SharedReader → Prop :=
  Relation.ReflTransGen fun s s' => ∃ m, s.Sane m ∧ ok s m ∧ s.perform m = s'

theorem acts_perform {s : SharedReader} {m : Move} (h : s.Sane m) : s.Acts (s.perform m) := by
  cases m with
  | once cx t => exact .once cx t h
  | yield cx => exact .yield cx
  | read cx id n => exact .read cx id n
  | accept k hooked cx => exact .accept k hooked cx
  | leave k hooked => exact .leave k hooked
  | add addr alloc => exact .add addr alloc
  | release id => exact .release id
  | disconnect => exact .disconnect

/-- The invariant of the entries holds in every run. -/
theorem Coherent.plays {ok : SharedReader → Move → Prop} {s s' : SharedReader} (hc : s.Coherent)
    (h : Plays ok s s') : s'.Coherent := by
  induction h with
  | refl => exact hc
  | tail _ hs ih =>
    obtain ⟨m, hsane, -, rfl⟩ := hs
    exact ih.acts (acts_perform hsane)

/-- What a move does that takes nothing from the stream and adds no entry. -/
structure Calm (s s' : SharedReader) : Prop where
  consumed : s'.consumed = s.consumed
  state : s'.state = s.state
  next : s'.next = s.next
  socketMap : s'.socketMap = s.socketMap
  appended : ∀ id, (s'.entries id).appended = (s.entries id).appended
  traffic : s'.traffic = s.traffic

section
variable (s : SharedReader)

theorem Calm.setEntry {id : ℕ} {e : ReaderEntry} (h : e.appended = (s.entries id).appended) :
    Calm s (s.setEntry id e) := by
  refine ⟨rfl, rfl, rfl, rfl, fun j => ?_, rfl⟩
  rcases eq_or_ne j id with rfl | hne
  · simp [SharedReader.setEntry, h]
  · simp [SharedReader.setEntry, hne]

theorem Calm.emit {s₁ : SharedReader} {e : Event} (h : Calm s s₁) (he : e.isTraffic = false) :
    Calm s (s₁.emit e) where
  consumed := h.consumed
  state := h.state
  next := h.next
  socketMap := h.socketMap
  appended := h.appended
  traffic := (emit_traffic he s₁).trans h.traffic

theorem Calm.readEntry (cx : Waker) (id n : ℕ) : Calm s (s.readEntry cx id n).2 := by
  unfold SharedReader.readEntry
  dsimp only
  split
  · exact ⟨rfl, rfl, rfl, rfl, fun _ => rfl, rfl⟩
  split
  · have hset : Calm s (s.setEntry id
        { s.entries id with
          buffer := ((s.entries id).buffer.read n).2
          taken := (s.entries id).taken ++ ((s.entries id).buffer.read n).1 }) := .setEntry s (by simp)
    exact hset.emit s rfl
  split
  · exact .emit s ⟨rfl, rfl, rfl, rfl, fun _ => rfl, rfl⟩ rfl
  · exact .setEntry s rfl

theorem Calm.dropReceiver (k : ℕ) (hooked : Bool) : Calm s (s.dropReceiver k hooked) := by
  unfold SharedReader.dropReceiver
  split
  · exact ⟨rfl, rfl, rfl, rfl, fun _ => rfl, rfl⟩
  split
  · exact ⟨by simp, by simp, by simp, by simp, by simp, wakeReceiver_traffic s⟩
  · exact ⟨rfl, rfl, rfl, rfl, fun _ => rfl, rfl⟩

theorem Calm.recvEntry (k : ℕ) (hooked : Bool) (cx : Waker) : Calm s (s.recvEntry k hooked cx).2 := by
  unfold SharedReader.recvEntry
  split
  · unfold awaitItem
    split <;> exact ⟨rfl, rfl, rfl, rfl, fun _ => rfl, rfl⟩
  · rename_i item rest _
    dsimp only
    have hset : Calm { s with chan := rest } (SharedReader.setEntry item.2
        { s.entries item.2 with handle := (s.entries item.2).handle.accept } { s with chan := rest }) :=
      .setEntry _ rfl
    have hdrop := Calm.dropReceiver (SharedReader.setEntry item.2
      { s.entries item.2 with handle := (s.entries item.2).handle.accept } { s with chan := rest }) k hooked
    exact ⟨hdrop.consumed.trans hset.consumed, hdrop.state.trans hset.state, hdrop.next.trans hset.next,
      hdrop.socketMap.trans hset.socketMap, fun id => (hdrop.appended id).trans (hset.appended id),
      hdrop.traffic.trans hset.traffic⟩

theorem readEntry_handle (cx : Waker) (id n j : ℕ) :
    ((s.readEntry cx id n).2.entries j).handle = (s.entries j).handle := by
  unfold SharedReader.readEntry
  dsimp only
  split
  · rfl
  split
  · rcases eq_or_ne j id with rfl | hne
    · simp [SharedReader.wake, SharedReader.emit, SharedReader.setEntry]
    · simp [SharedReader.wake, SharedReader.emit, SharedReader.setEntry, hne]
  split
  · rfl
  · rcases eq_or_ne j id with rfl | hne
    · simp [SharedReader.setEntry]
    · simp [SharedReader.setEntry, hne]

theorem dropReceiver_entries (k : ℕ) (hooked : Bool) : (s.dropReceiver k hooked).entries = s.entries := by
  unfold SharedReader.dropReceiver
  split
  · rfl
  split
  · simp
  · rfl

theorem recvEntry_dropped (k : ℕ) (hooked : Bool) (cx : Waker) (j : ℕ) :
    ((s.recvEntry k hooked cx).2.entries j).handle = .dropped ↔ (s.entries j).handle = .dropped := by
  unfold SharedReader.recvEntry
  split
  · unfold awaitItem
    split <;> rfl
  · rename_i item rest _
    dsimp only
    rw [dropReceiver_entries]
    rcases eq_or_ne j item.2 with rfl | hne
    · simp [SharedReader.setEntry]
    · simp [SharedReader.setEntry, hne]

/-- A move is a turn of the poll loop, or an insertion, or it concerns no connection. -/
theorem perform_calm (m : Move) :
    (∃ cx t, m = .once cx t) ∨ (∃ addr alloc, m = .add addr alloc) ∨ Calm s (s.perform m) := by
  cases m with
  | once cx t => exact Or.inl ⟨cx, t, rfl⟩
  | add addr alloc => exact Or.inr (Or.inl ⟨addr, alloc, rfl⟩)
  | yield cx => exact Or.inr (Or.inr (.emit s ⟨rfl, rfl, rfl, rfl, fun _ => rfl, rfl⟩ rfl))
  | read cx id n => exact Or.inr (Or.inr (.readEntry s cx id n))
  | accept k hooked cx => exact Or.inr (Or.inr (.recvEntry s k hooked cx))
  | leave k hooked => exact Or.inr (Or.inr (.dropReceiver s k hooked))
  | release id => exact Or.inr (Or.inr (.setEntry s rfl))
  | disconnect => exact Or.inr (Or.inr ⟨rfl, rfl, rfl, rfl, fun _ => rfl, rfl⟩)

theorem perform_add (addr : SocketAddr) (alloc : Bool) :
    s.perform (.add addr alloc) = s ∨
      s.socketMap addr = none ∧ s.perform (.add addr alloc) = s.add addr .noop .held := by
  unfold perform insert
  dsimp only
  split
  · exact Or.inl rfl
  · rename_i hm
    split
    · exact Or.inr ⟨hm, rfl⟩
    · exact Or.inl rfl

end

/-- A turn in which the stream says nothing: what concerns the connections stays as it is. -/
structure Hushed (s s' : SharedReader) (p : Position) (bs : List UInt8) : Prop where
  consumed : s'.consumed = s.consumed ++ bs
  signals : (p.scan bs).2 = []
  position : s'.state = .error ∨ s'.position = some (p.scan bs).1
  next : s'.next = s.next
  socketMap : s'.socketMap = s.socketMap
  connected : s'.connected = s.connected
  appended : ∀ id, (s'.entries id).appended = (s.entries id).appended
  handle : ∀ id, (s'.entries id).handle = (s.entries id).handle
  traffic : s'.traffic = s.traffic

/-- A new connection that finds no memory. Its frame is consumed, and the state is the one
before the frame was completed. -/
structure Starved (s s' : SharedReader) (t : Tick) (header bs : List UInt8) : Prop where
  state : s.state = .nextPacket header
  read : t.read = .ready (.ok bs)
  bytes : bs ≠ []
  filled : header.length + bs.length = 20
  len : (headerBy header bs).len = 0
  unknown : s.socketMap (headerBy header bs).addr = none
  connected : s.connected = true
  alloc : t.alloc = false
  result : s' = s.consume bs

section
variable {cx : Waker} {t : Tick} {s s' : SharedReader} {r : Poll (Except IoError Unit)} {p : Position}

theorem Hushed.still (hc : s'.consumed = s.consumed) (hp : s'.state = .error ∨ s'.position = some p)
    (hn : s'.next = s.next) (hm : s'.socketMap = s.socketMap) (hconn : s'.connected = s.connected)
    (ha : ∀ id, (s'.entries id).appended = (s.entries id).appended)
    (hh : ∀ id, (s'.entries id).handle = (s.entries id).handle) (ht : s'.traffic = s.traffic) :
    Hushed s s' p [] where
  consumed := by rw [hc, List.append_nil]
  signals := rfl
  position := hp
  next := hn
  socketMap := hm
  connected := hconn
  appended := ha
  handle := hh
  traffic := ht

theorem Hushed.fillCut (s : SharedReader) (id : ℕ) : Hushed s ((s.fill id []).setState .error) p [] := by
  have hentry : ∀ j, (((s.fill id []).setState .error).entries j).appended = (s.entries j).appended ∧
      (((s.fill id []).setState .error).entries j).handle = (s.entries j).handle := by
    intro j
    rcases eq_or_ne j id with rfl | hne
    · simp [SharedReader.setState, SharedReader.fill, SharedReader.wake, SharedReader.emit, deliver,
        SharedReader.setEntry]
    · simp [SharedReader.setState, SharedReader.fill, SharedReader.wake, SharedReader.emit, deliver,
        SharedReader.setEntry, SharedReader.consume, hne]
  refine .still ?_ (Or.inl rfl) rfl rfl rfl (fun j => (hentry j).1) (fun j => (hentry j).2) (wake_traffic _ _)
  simp [SharedReader.setState, SharedReader.fill, SharedReader.wake, SharedReader.emit, deliver,
    SharedReader.setEntry, SharedReader.consume]

theorem Hushed.refused (hp : s.position = some p) (id : ℕ) : Hushed s (s.refuse id cx) p [] := by
  have hentry : ∀ j, ((s.refuse id cx).entries j).appended = (s.entries j).appended ∧
      ((s.refuse id cx).entries j).handle = (s.entries j).handle := by
    intro j
    rcases eq_or_ne j id with rfl | hne
    · simp [refuse, SharedReader.emit, SharedReader.setEntry]
    · simp [refuse, SharedReader.emit, SharedReader.setEntry, SharedReader.wake, hne]
  refine .still rfl (Or.inr hp) rfl rfl rfl (fun j => (hentry j).1) (fun j => (hentry j).2) ?_
  simp [SharedReader.traffic, refuse, SharedReader.emit, SharedReader.setEntry, SharedReader.wake, Event.isTraffic]

theorem Hushed.queued {addr : SocketAddr} {id : ℕ} {polled : Bool} (hp : p = .header []) :
    Hushed s (((if polled then s else s.offer addr id).setState (.sendSocket addr id true)).emit
      (.sendPending cx)) p [] := by
  have hsame : ∃ s₁ : SharedReader, (if polled then s else s.offer addr id) = s₁ ∧
      s₁.consumed = s.consumed ∧ s₁.next = s.next ∧ s₁.socketMap = s.socketMap ∧
      s₁.connected = s.connected ∧ s₁.entries = s.entries ∧ s₁.traffic = s.traffic := by
    refine ⟨_, rfl, ?_⟩
    cases polled with
    | true => exact ⟨rfl, rfl, rfl, rfl, rfl, rfl⟩
    | false =>
      refine ⟨by simp, by simp [offer], by simp [offer], by simp [offer], by simp [offer], ?_⟩
      exact wakeReceiver_traffic _
  obtain ⟨s₁, heq, hc, hn, hm, hconn, he, ht⟩ := hsame
  rw [heq]
  refine .still hc (Or.inr ?_) hn hm hconn (fun j => ?_) (fun j => ?_) ((emit_traffic rfl _).trans ht)
  · rw [hp]
    rfl
  · exact congrArg (fun f => (f j).appended) he
  · exact congrArg (fun f => (f j).handle) he

theorem Hushed.short {header bs : List UInt8} (hp : p = .header header)
    (hlt : header.length + bs.length < 20) {st : SharedReaderState} (hst : st = .nextPacket (header ++ bs)) :
    Hushed s ((s.consume bs).setState st) p bs := by
  have hscan := Position.scan_short hlt
  subst hp hst
  constructor
  case consumed => rfl
  case signals => rw [hscan]
  case position =>
    right
    rw [hscan]
    rfl
  case next => rfl
  case socketMap => rfl
  case connected => rfl
  case appended => exact fun _ => rfl
  case handle => exact fun _ => rfl
  case traffic => rfl

/-- What a turn comes to. -/
theorem Turn.outcome (h : Turn cx t s r s') (hw : s.Within t) (hp : s.position = some p) (hv : p.Valid) :
    (∃ bs signals, Heard s s' p bs signals ∧ Effect cx s signals s') ∨ (∃ bs, Hushed s s' p bs) ∨
      ∃ header bs, Starved s s' t header bs := by
  have hhead : ∀ header, s.state = .nextPacket header → p = .header header ∧ header.length < 20 := by
    intro header hs
    obtain rfl : p = .header header := by simpa [position, hs, eq_comm] using hp
    exact ⟨rfl, hv⟩
  have hleft : ∀ owner left, s.state = .read owner left → left < 65536 := by
    intro owner left hs
    obtain rfl : p = .payload owner left := by simpa [position, hs, eq_comm] using hp
    exact hv.2
  have hcut : Hushed s ((s.consume []).setState .error) p [] :=
    .still (List.append_nil _) (Or.inl rfl) rfl rfl rfl (fun _ => rfl) (fun _ => rfl) rfl
  cases h with
  | parked =>
    refine Or.inr (Or.inl ⟨[], .still rfl (Or.inr hp) rfl rfl rfl (fun _ => rfl) (fun _ => rfl) ?_⟩)
    simp [traffic, park, Event.isTraffic]
  | full => exact Or.inr (Or.inl ⟨[], .refused hp _⟩)
  | @short header bs hs hr h0 hlt =>
    obtain ⟨rfl, hlen⟩ := hhead header hs
    have hle := hw.header hs hr
    rw [filledBy_eq hlen hle] at hlt ⊢
    have htake : (header ++ bs).take (header.length + bs.length) = header ++ bs :=
      List.take_of_length_le (by simp)
    exact Or.inr (Or.inl ⟨bs, .short rfl hlt (by rw [htake])⟩)
  | @sending addr id polled hs =>
    have hnone : p = .header [] := by simpa [position, hs, eq_comm] using hp
    exact Or.inr (Or.inl ⟨[], .queued hnone⟩)
  | failed => exact Or.inr (Or.inl ⟨[], .still rfl (Or.inr hp) rfl rfl rfl (fun _ => rfl) (fun _ => rfl) rfl⟩)
  | broken hs => exact Or.inr (Or.inl ⟨[], .still rfl (Or.inl hs) rfl rfl rfl (fun _ => rfl) (fun _ => rfl) rfl⟩)
  | discardCut hs hu hr hb =>
    obtain rfl := hb.nil (hw.discard hs hu hr) (hleft _ _ hs)
    exact Or.inr (Or.inl ⟨[], hcut⟩)
  | @fillCut owner left id bs hs hu hroom hr hb =>
    obtain ⟨htake, hle⟩ := hw.fill hs hu hroom hr
    rw [htake] at hb
    obtain rfl := hb.nil hle (hleft _ _ hs)
    exact Or.inr (Or.inl ⟨[], .fillCut s id⟩)
  | @headerCut header bs hs hr hb =>
    obtain ⟨-, hlen⟩ := hhead header hs
    have hle := hw.header hs hr
    have hnil : bs = [] := by
      rcases hb with hb | hb
      · exact hb
      · rw [filledBy_eq hlen hle] at hb
        omega
    subst hnil
    exact Or.inr (Or.inl ⟨[], hcut⟩)
  | @noMemory header bs hs hr h0 h20 hl hm hc ha =>
    obtain ⟨-, hlen⟩ := hhead header hs
    rw [filledBy_eq hlen (hw.header hs hr)] at h20
    exact Or.inr (Or.inr ⟨header, bs, hs, hr, h0, h20, hl, hm, hc, ha, rfl⟩)
  | discard hs hu hr h0 hle => exact Or.inl (Turn.heard (.discard hs hu hr h0 hle) hw hp hv)
  | fill hs hu hr h0 hle => exact Or.inl (Turn.heard (.fill hs hu hr h0 hle) hw hp hv)
  | payload hs hr h0 h20 hl => exact Or.inl (Turn.heard (.payload hs hr h0 h20 hl) hw hp hv)
  | close hs hr h0 h20 hl hm => exact Or.inl (Turn.heard (.close hs hr h0 h20 hl hm) hw hp hv)
  | ignore hs hr h0 h20 hl hm hc => exact Or.inl (Turn.heard (.ignore hs hr h0 h20 hl hm hc) hw hp hv)
  | opening hs hr h0 h20 hl hm hc => exact Or.inl (Turn.heard (.opening hs hr h0 h20 hl hm hc) hw hp hv)
  | sent hs hc => exact Or.inl (Turn.heard (.sent hs hc) hw hp hv)
  | unsent hs hc => exact Or.inl (Turn.heard (.unsent hs hc) hw hp hv)

theorem remove_traffic {addr : SocketAddr} {id : ℕ} (hm : s.socketMap addr = some id) :
    (s.remove addr).traffic = s.traffic ++ [.closed addr id] := by
  have hu : (s.unlink addr id).traffic = s.traffic ++ [.closed addr id] := by
    simp [SharedReader.traffic, unlink, Event.isTraffic]
  unfold remove
  rw [hm]
  dsimp only
  split
  · exact hu
  · rw [wake_traffic, hu]

/-- A turn puts bytes into an entry only if they are the payload of its address. -/
theorem Effect.appended {signals : List Signal} {id : ℕ} (h : Effect cx s signals s') (hid : id < s.next) :
    (s'.entries id).appended = (s.entries id).appended ∨
      ∃ owner left bs, s.state = .read owner left ∧ s.socketMap owner = some id ∧
        signals = bs.map (.data owner) ∧ (s'.entries id).appended = (s.entries id).appended ++ bs := by
  cases h with
  | discard => exact Or.inl rfl
  | @fill owner left n j bs hs hu h0 hroom =>
    rcases eq_or_ne id j with rfl | hne
    · have hm : s.socketMap owner = some id := (Option.filter_eq_some_iff.mp hu).1
      refine Or.inr ⟨owner, left, bs, hs, hm, rfl, ?_⟩
      simp [SharedReader.setState, SharedReader.fill, SharedReader.wake, SharedReader.emit, deliver,
        SharedReader.setEntry, hroom]
    · left
      simp [SharedReader.setState, SharedReader.fill, SharedReader.wake, SharedReader.emit, deliver,
        SharedReader.setEntry, SharedReader.consume, hne]
  | payload => exact Or.inl rfl
  | @close header bs addr => exact Or.inl (remove_appended addr (s.consume bs) id)
  | ignore => exact Or.inl rfl
  | opening =>
    left
    simp [SharedReader.emit, SharedReader.setState, SharedReader.add, SharedReader.consume, hid.ne]
  | @sent addr j polled =>
    left
    cases polled <;> simp [SharedReader.setState, SharedReader.offer]
  | @unsent addr j =>
    left
    split
    · rcases eq_or_ne id j with rfl | hne
      · simp [SharedReader.setState, SharedReader.setEntry]
      · simp [SharedReader.setState, SharedReader.setEntry, hne]
    · rfl

theorem Starved.scan {header bs : List UInt8} (h : Starved s s' t header bs) :
    (Position.header header).scan bs = (.header [], [.zero (headerBy header bs).addr]) := by
  rw [Position.scan_header h.bytes h.filled, if_pos h.len]

end

end SharedReader

end VtMuxer
