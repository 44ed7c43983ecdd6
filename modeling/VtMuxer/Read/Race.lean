import VtMuxer.Read.Moves

/-! An entry is closed by one task while its reader is polled by another. `remove` copies the
waker of the reader under the entry's mutex, drops the weak reference outside of it, and
wakes; the reader looks at the weak count and leaves its waker in a section of its own, which
may fall between any two of these. -/
namespace VtMuxer

namespace SharedReader

/-- `remove` has taken the weak reference out of the map and holds it. -/
def takeOut (socket : SocketAddr) (s : SharedReader) : SharedReader :=
  { s with
    socketMap := Function.update s.socketMap socket none
    allocated := s.allocated_remove socket
    distinct := s.distinct_remove socket }

/-- `drop(weak_entry)`. -/
def detach (socket : SocketAddr) (id : ℕ) (s : SharedReader) : SharedReader :=
  { s with
    entries := Function.update s.entries id { s.entries id with weak := (s.entries id).weak - 1 }
    log := s.log ++ [.closed socket id] }

/-- Without anybody in between the three steps are `remove`. -/
theorem remove_eq_steps {socket : SocketAddr} {id : ℕ} {s : SharedReader} (hm : s.socketMap socket = some id)
    (hh : (s.entries id).handle ≠ .dropped) :
    s.remove socket = ((s.takeOut socket).detach socket id).wake ((s.takeOut socket).entries id).readerPipeWaker := by
  unfold remove
  rw [hm]
  dsimp only
  rw [if_neg hh]
  rfl

/-- The turn finds a frame without payload for an address in the map. -/
structure Removes (s : SharedReader) (t : Tick) (header bs : List UInt8) (addr : SocketAddr) (id : ℕ) : Prop where
  state : s.state = .nextPacket header
  read : t.read = .ready (.ok bs)
  bytes : bs ≠ []
  filled : filledBy header bs = 20
  len : (headerBy header bs).len = 0
  names : (headerBy header bs).addr = addr
  known : s.socketMap addr = some id

/-- The waker was woken since the weak reference to the entry was dropped. -/
def WokenSince (s : SharedReader) (id : ℕ) (cx : Waker) : Prop :=
  ∃ before after addr, s.log = before ++ .closed addr id :: after ∧ .wake cx ∈ after

/-- What the race is about stays as it is. -/
structure Spared (id : ℕ) (s s' : SharedReader) : Prop where
  next : s.next ≤ s'.next
  weak : (s'.entries id).weak = (s.entries id).weak
  waker : (s'.entries id).readerPipeWaker = (s.entries id).readerPipeWaker
  held : (s'.entries id).handle = .held
  log : s.log <+: s'.log

section
variable {s s' : SharedReader} {id : ℕ} {cx : Waker}

theorem WokenSince.mono (h : s.WokenSince id cx) (hl : s.log <+: s'.log) : s'.WokenSince id cx := by
  obtain ⟨before, after, addr, heq, hin⟩ := h
  obtain ⟨new, hnew⟩ := hl
  refine ⟨before, after ++ new, addr, ?_, List.mem_append_left _ hin⟩
  rw [← hnew, heq]
  simp

theorem Spared.setEntry {j : ℕ} {e : ReaderEntry} (hh : (s.entries id).handle = .held)
    (he : j = id → e.weak = (s.entries id).weak ∧ e.readerPipeWaker = (s.entries id).readerPipeWaker ∧
      e.handle = .held) : Spared id s (s.setEntry j e) := by
  rcases eq_or_ne id j with rfl | hne
  · obtain ⟨hw, hp, hd⟩ := he rfl
    constructor
    case next => exact le_rfl
    case weak => simpa [SharedReader.setEntry] using hw
    case waker => simpa [SharedReader.setEntry] using hp
    case held => simpa [SharedReader.setEntry] using hd
    case log => exact List.prefix_rfl
  · constructor
    case next => exact le_rfl
    case weak => simp [SharedReader.setEntry, hne]
    case waker => simp [SharedReader.setEntry, hne]
    case held => simpa [SharedReader.setEntry, hne] using hh
    case log => exact List.prefix_rfl

theorem Spared.of_entries (hh : (s.entries id).handle = .held) (hn : s.next ≤ s'.next)
    (he : s'.entries id = s.entries id) (hl : s.log <+: s'.log) : Spared id s s' where
  next := hn
  weak := by rw [he]
  waker := by rw [he]
  held := by rw [he, hh]
  log := hl

theorem Spared.trans {s₁ : SharedReader} (h : Spared id s s₁) (h' : Spared id s₁ s') : Spared id s s' where
  next := h.next.trans h'.next
  weak := h'.weak.trans h.weak
  waker := h'.waker.trans h.waker
  held := h'.held
  log := h.log.trans h'.log

theorem Spared.rest {s₁ : SharedReader} (h : Spared id s s₁) (hn : s₁.next ≤ s'.next)
    (he : s'.entries id = s₁.entries id) (hl : s₁.log <+: s'.log) : Spared id s s' :=
  h.trans (.of_entries h.held hn he hl)

theorem offer_log_grows (addr : SocketAddr) (j : ℕ) (polled : Bool) (s : SharedReader) :
    s.log <+: (if polled then s else s.offer addr j).log := by
  obtain ⟨new, hnew, -⟩ := s.sendQueued_log addr j polled
  rw [hnew]
  exact List.prefix_append _ _

/-- A turn leaves an entry alone whose reader is held, unless it removes an entry. -/
theorem Turn.spared {t : Tick} {r : Poll (Except IoError Unit)} (h : Turn cx t s r s') (hid : id < s.next)
    (hh : (s.entries id).handle = .held) :
    Spared id s s' ∨ ∃ header bs addr j, s.Removes t header bs addr j ∧
      s' = ((s.consume bs).remove addr).setState (.nextPacket []) := by
  have hsame : ∀ s₁ : SharedReader, s₁.next = s.next → s₁.entries = s.entries → s.log <+: s₁.log → Spared id s s₁ :=
    fun s₁ hn he hl => .of_entries hh hn.ge (by rw [he]) hl
  have hset : ∀ (s₁ : SharedReader) (j : ℕ) (e : ReaderEntry), Spared id s s₁ →
      e.weak = (s.entries j).weak → e.readerPipeWaker = (s.entries j).readerPipeWaker →
      e.handle = (s.entries j).handle → Spared id s (s₁.setEntry j e) := by
    intro s₁ j e h₁ hw hp hd
    refine h₁.trans (.setEntry h₁.held ?_)
    rintro rfl
    exact ⟨hw.trans h₁.weak.symm, hp.trans h₁.waker.symm, hd.trans hh⟩
  have hfill : ∀ j bs, Spared id s (s.fill j bs) := by
    intro j bs
    have hcons : Spared id s (s.consume (bs.take (s.entries j).buffer.room)) := hsame _ rfl rfl List.prefix_rfl
    have hput := hset _ j { s.entries j with buffer := (s.entries j).buffer.fill bs } hcons rfl rfl rfl
    exact hput.rest le_rfl rfl (List.prefix_append _ _)
  cases h with
  | parked => exact Or.inl (hsame _ rfl rfl (List.prefix_append _ _))
  | @full owner left j hs hu hroom =>
    have hwake : Spared id s (s.wake (s.entries j).readerPipeWaker) := hsame _ rfl rfl (List.prefix_append _ _)
    have hwait := hset _ j { s.entries j with waitingWaker := cx } hwake rfl rfl rfl
    exact Or.inl (hwait.rest le_rfl rfl (List.prefix_append _ _))
  | short => exact Or.inl (hsame _ rfl rfl List.prefix_rfl)
  | @sending addr j polled =>
    left
    refine hsame _ ?_ ?_ ((offer_log_grows addr j polled s).trans (List.prefix_append _ _))
    · cases polled <;> simp [SharedReader.emit, SharedReader.setState, SharedReader.offer]
    · cases polled <;> simp [SharedReader.emit, SharedReader.setState, SharedReader.offer]
  | failed => exact Or.inl (hsame _ rfl rfl List.prefix_rfl)
  | broken => exact Or.inl (hsame _ rfl rfl List.prefix_rfl)
  | discardCut => exact Or.inl (hsame _ rfl rfl List.prefix_rfl)
  | fillCut => exact Or.inl ((hfill _ _).rest le_rfl rfl List.prefix_rfl)
  | headerCut => exact Or.inl (hsame _ rfl rfl List.prefix_rfl)
  | noMemory => exact Or.inl (hsame _ rfl rfl List.prefix_rfl)
  | discard => exact Or.inl (hsame _ rfl rfl List.prefix_rfl)
  | fill => exact Or.inl ((hfill _ _).rest le_rfl rfl List.prefix_rfl)
  | payload => exact Or.inl (hsame _ rfl rfl List.prefix_rfl)
  | close hs hr h0 h20 hl hm => exact Or.inr ⟨_, _, _, _, ⟨hs, hr, h0, h20, hl, rfl, hm⟩, rfl⟩
  | ignore => exact Or.inl (hsame _ rfl rfl List.prefix_rfl)
  | opening =>
    refine Or.inl (.of_entries hh (Nat.le_succ _) ?_ (List.prefix_append _ _))
    simp [SharedReader.emit, SharedReader.setState, SharedReader.add, SharedReader.consume, hid.ne]
  | @sent addr j polled =>
    left
    refine hsame _ ?_ ?_ (offer_log_grows addr j polled s)
    · cases polled <;> simp [SharedReader.setState, SharedReader.offer]
    · cases polled <;> simp [SharedReader.setState, SharedReader.offer]
  | @unsent addr j =>
    left
    split
    · rename_i hq
      have hne : j ≠ id := by
        rintro rfl
        rw [hh] at hq
        cases hq
      have hdrop : Spared id s (s.setEntry j { s.entries j with handle := .dropped }) :=
        .setEntry hh fun he => absurd he hne
      exact hdrop.rest le_rfl rfl List.prefix_rfl
    · exact hsame _ rfl rfl List.prefix_rfl

/-- Removing an entry closes it and wakes whoever its reader has left there. -/
theorem remove_spared {addr : SocketAddr} {j : ℕ} (hm : s.socketMap addr = some j)
    (hh : (s.entries id).handle = .held) :
    Spared id s (s.remove addr) ∨
      (s.remove addr).WokenSince id (s.entries id).readerPipeWaker ∧ (s.remove addr).next = s.next ∧
        ((s.remove addr).entries id).handle = .held ∧ s.log <+: (s.remove addr).log := by
  obtain ⟨new, hnew, -⟩ := s.remove_log addr
  have hlog : s.log <+: (s.remove addr).log := by
    rw [hnew]
    exact List.prefix_append _ _
  have hhandle := (remove_buffer addr s id).2.trans hh
  rcases eq_or_ne id j with rfl | hne
  · have hd : (s.entries id).handle ≠ .dropped := by
      rw [hh]
      simp
    refine Or.inr ⟨?_, remove_next addr s, hhandle, hlog⟩
    rw [remove_eq_steps hm hd]
    exact ⟨s.log, [.wake (s.entries id).readerPipeWaker], addr, by
      simp [SharedReader.wake, SharedReader.emit, detach, takeOut], List.mem_singleton_self _⟩
  · have he : (s.remove addr).entries id = s.entries id := by
      unfold remove
      rw [hm]
      dsimp only
      split
      · simp [unlink, hne]
      · simp [SharedReader.wake, SharedReader.emit, unlink, hne]
    exact Or.inl (.of_entries hh (remove_next addr s).ge he hlog)

theorem Spared.dropReceiver (hh : (s.entries id).handle = .held) (k : ℕ) (hooked : Bool) :
    Spared id s (s.dropReceiver k hooked) := by
  refine .of_entries hh (Calm.dropReceiver s k hooked).next.ge (by rw [dropReceiver_entries]) ?_
  unfold SharedReader.dropReceiver
  split
  · exact List.prefix_rfl
  split
  · unfold wakeReceiver
    split
    · exact List.prefix_rfl
    · exact List.prefix_append _ _
  · exact List.prefix_rfl

theorem perform_spared {m : Move} (hid : id < s.next) (hh : (s.entries id).handle = .held)
    (honce : ∀ cx t, m ≠ .once cx t) (hread : ∀ cx n, m ≠ .read cx id n) (hrel : m ≠ .release id) :
    Spared id s (s.perform m) := by
  cases m with
  | once cx t => exact absurd rfl (honce cx t)
  | yield cx => exact .of_entries hh le_rfl rfl (List.prefix_append _ _)
  | read cx j n =>
    have hne : id ≠ j := by
      rintro rfl
      exact hread cx n rfl
    show Spared id s (s.readEntry cx j n).2
    unfold SharedReader.readEntry
    dsimp only
    split
    · exact .of_entries hh le_rfl rfl List.prefix_rfl
    split
    · refine .of_entries hh le_rfl ?_ (List.prefix_append _ _)
      simp [SharedReader.wake, SharedReader.emit, SharedReader.setEntry, hne]
    split
    · exact .of_entries hh le_rfl rfl (List.prefix_append _ _)
    · refine .of_entries hh le_rfl ?_ List.prefix_rfl
      simp [SharedReader.setEntry, hne]
  | accept k hooked cx =>
    show Spared id s (s.recvEntry k hooked cx).2
    unfold SharedReader.recvEntry
    split
    · unfold awaitItem
      split <;> exact .of_entries hh le_rfl rfl List.prefix_rfl
    · rename_i item rest _
      dsimp only
      have hset : Spared id { s with chan := rest } (SharedReader.setEntry item.2
          { s.entries item.2 with handle := (s.entries item.2).handle.accept } { s with chan := rest }) := by
        refine .setEntry hh ?_
        rintro rfl
        exact ⟨rfl, rfl, by simp [hh, Handle.accept]⟩
      have hdrop := hset.trans (.dropReceiver hset.held k hooked)
      exact ⟨hdrop.next, hdrop.weak, hdrop.waker, hdrop.held, hdrop.log⟩
  | leave k hooked => exact .dropReceiver hh k hooked
  | add addr alloc =>
    rcases s.perform_add addr alloc with heq | ⟨-, heq⟩
    · rw [heq]
      exact .of_entries hh le_rfl rfl List.prefix_rfl
    · rw [heq]
      refine .of_entries hh (Nat.le_succ _) ?_ List.prefix_rfl
      simp [SharedReader.add, hid.ne]
  | release j =>
    refine .setEntry hh ?_
    rintro rfl
    exact absurd rfl hrel
  | disconnect => exact .of_entries hh le_rfl rfl List.prefix_rfl

end

end SharedReader

/-- Where a task is inside `remove`, with the shared lock in hand. -/
inductive Removal where
  | outside
  /-- The weak reference is out of the map, and upgraded. -/
  | taken (addr : SocketAddr) (id : ℕ)
  /-- The reader's waker is copied. -/
  | copied (addr : SocketAddr) (id : ℕ) (w : Waker)
  /-- The weak reference is dropped. -/
  | detached (w : Waker)
  deriving DecidableEq, Repr

/-- Where the reader of the entry is in its `poll_read`. -/
inductive Caller where
  | idle
  /-- The section of its entry is behind it, the shared lock is next. -/
  | waiting (cx : Waker)
  /-- `poll_read` has returned `Pending`. -/
  | parked (cx : Waker)
  deriving DecidableEq, Repr

structure Race where
  shared : SharedReader
  removal : Removal
  reader : Caller

namespace Race

/-- The atomic steps around entry `id`: what happens under the shared lock while nobody
removes an entry, the steps of `remove`, the two sections of the reader's `poll_read`, and
what other tasks do. `ok` says when the reader may enter the section of its entry. -/
inductive Step (id : ℕ) (ok : Race → Waker → ℕ → Prop) (R : Race) : Race → Prop where
  | turn (cx : Waker) (t : Tick) (hout : R.removal = .outside)
      (hnot : ∀ header bs addr j, ¬ R.shared.Removes t header bs addr j) :
      Step id ok R { R with shared := (R.shared.pollOnce cx t).2 }
  | take (t : Tick) {header bs : List UInt8} {addr : SocketAddr} {j : ℕ} (hout : R.removal = .outside)
      (h : R.shared.Removes t header bs addr j) :
      Step id ok R { R with shared := (R.shared.consume bs).takeOut addr, removal := .taken addr j }
  | copy {addr : SocketAddr} {j : ℕ} (h : R.removal = .taken addr j)
      (hlive : (R.shared.entries j).handle ≠ .dropped) :
      Step id ok R { R with removal := .copied addr j (R.shared.entries j).readerPipeWaker }
  | gone {addr : SocketAddr} {j : ℕ} (h : R.removal = .taken addr j)
      (hdead : (R.shared.entries j).handle = .dropped) :
      Step id ok R
        { R with shared := (R.shared.detach addr j).setState (.nextPacket []), removal := .outside }
  | drop {addr : SocketAddr} {j : ℕ} {w : Waker} (h : R.removal = .copied addr j w) :
      Step id ok R { R with shared := R.shared.detach addr j, removal := .detached w }
  | wake {w : Waker} (h : R.removal = .detached w) :
      Step id ok R { R with shared := (R.shared.wake w).setState (.nextPacket []), removal := .outside }
  | enter (cx : Waker) (n : ℕ) (hr : ∀ cx', R.reader ≠ .waiting cx') (hok : ok R cx n) :
      Step id ok R
        { R with
          shared := (R.shared.readEntry cx id n).2
          reader := if (R.shared.readEntry cx id n).1 = none then .waiting cx else .idle }
  | poll {cx : Waker} (ts : List Tick) {res : Poll (Except IoError Empty)} {s' : SharedReader}
      (hr : R.reader = .waiting cx) (hout : R.removal = .outside) (h : R.shared.poll cx ts = some (res, s')) :
      Step id ok R
        { R with shared := s', reader := match res with | .pending => .parked cx | .ready _ => .idle }
  | other (m : Move) (honce : ∀ cx t, m ≠ .once cx t) (hread : ∀ cx n, m ≠ .read cx id n)
      (hrel : m ≠ .release id) (hadd : ∀ addr alloc, m = .add addr alloc → R.removal = .outside) :
      Step id ok R { R with shared := R.shared.perform m }

/-- Every interleaving that begins with the reader outside of its `poll_read`. -/
def Runs (id : ℕ) (ok : Race → Waker → ℕ → Prop) (s : SharedReader) : Race → Prop :=
  Relation.ReflTransGen (Step id ok) ⟨s, .outside, .idle⟩

/-- Once the entry is removed, its reader is not left parked without a wake-up since the
weak reference was dropped. -/
def Safe (id : ℕ) (R : Race) : Prop :=
  R.removal = .outside → (R.shared.entries id).weak = 0 → ∀ cx, R.reader = .parked cx →
    R.shared.WokenSince id cx

/-- Between the copy of the waker and the drop of the weak reference the reader does not look
for bytes in an empty buffer, unless with the waker that was copied. -/
def Prompt (id : ℕ) (R : Race) (cx : Waker) (n : ℕ) : Prop :=
  ∀ addr w, R.removal = .copied addr id w → n ≠ 0 → (R.shared.entries id).buffer.bytes = [] → cx = w

/-- Why a reader that waits will be told of the end of its stream. -/
inductive Alert (id : ℕ) (cx : Waker) (R : Race) : Prop where
  | ahead (hw : (R.shared.entries id).weak ≠ 0) (hp : (R.shared.entries id).readerPipeWaker = cx)
      (hc : ∀ addr w, R.removal = .copied addr id w → w = cx)
  | next {before after : List Event} {addr : SocketAddr} (hr : R.removal = .detached cx)
      (hlog : R.shared.log = before ++ .closed addr id :: after)
  | woken (h : R.shared.WokenSince id cx)

structure Guarded (id : ℕ) (R : Race) : Prop where
  old : id < R.shared.next
  held : (R.shared.entries id).handle = .held
  alert : ∀ cx, R.reader = .waiting cx ∨ R.reader = .parked cx → Alert id cx R

section
variable {id : ℕ} {cx : Waker} {R R' : Race}

theorem Alert.spared (h : Alert id cx R) (hs : SharedReader.Spared id R.shared R'.shared)
    (hr : R'.removal = R.removal) : Alert id cx R' := by
  cases h with
  | ahead hw hp hc => exact .ahead (by rwa [hs.weak]) (hs.waker.trans hp) (by rwa [hr])
  | @next before after addr hd hlog =>
    obtain ⟨new, hnew⟩ := hs.log
    have hlog' : R'.shared.log = before ++ .closed addr id :: (after ++ new) := by
      rw [← hnew, hlog]
      simp
    exact .next (hr.trans hd) hlog'
  | woken h => exact .woken (h.mono hs.log)

/-- Nobody is inside `remove` and nothing happens to the entry but that its waker is woken. -/
theorem Alert.woken_of_outside {s' : SharedReader} (h : Alert id cx R) (hout : R.removal = .outside)
    (hw : s'.WokenSince id (R.shared.entries id).readerPipeWaker) (hl : R.shared.log <+: s'.log) :
    s'.WokenSince id cx := by
  cases h with
  | ahead _ hp =>
    rw [← hp]
    exact hw
  | next hd =>
    rw [hout] at hd
    cases hd
  | woken h => exact h.mono hl

theorem Guarded.spared (h : Guarded id R) (hs : SharedReader.Spared id R.shared R'.shared)
    (hr : R'.removal = R.removal) (hc : R'.reader = R.reader) : Guarded id R' where
  old := h.old.trans_le hs.next
  held := hs.held
  alert cx hcx := (h.alert cx (by rwa [hc] at hcx)).spared hs hr

theorem Guarded.turn {s s' : SharedReader} {c : Caller} {t : Tick} {r : Poll (Except IoError Unit)}
    (h : Guarded id ⟨s, .outside, c⟩) (ht : SharedReader.Turn cx t s r s') : Guarded id ⟨s', .outside, c⟩ := by
  rcases ht.spared h.old h.held with hs | ⟨header, bs, addr, j, hrem, rfl⟩
  · exact h.spared hs rfl rfl
  have hknown : (s.consume bs).socketMap addr = some j := hrem.known
  have hheld : ((s.consume bs).entries id).handle = .held := h.held
  rcases SharedReader.remove_spared hknown hheld with hs | ⟨hw, hn, hh, hl⟩
  · exact h.spared ⟨hs.next, hs.weak, hs.waker, hs.held, hs.log⟩ rfl rfl
  · constructor
    case old => exact h.old.trans_le hn.ge
    case held => exact hh
    case alert => exact fun cx' hcx => .woken ((h.alert cx' hcx).woken_of_outside rfl hw hl)

theorem Guarded.emit {s : SharedReader} {c : Caller} {e : Event} (h : Guarded id ⟨s, .outside, c⟩) :
    Guarded id ⟨s.emit e, .outside, c⟩ :=
  h.spared ⟨le_rfl, rfl, rfl, h.held, List.prefix_append _ _⟩ rfl rfl

/-- The section under the shared lock, by induction over its turns. -/
theorem Guarded.poll {ts : List Tick} {c : Caller} :
    ∀ {s s' : SharedReader} {res : Poll (Except IoError Empty)}, Guarded id ⟨s, .outside, c⟩ →
      s.poll cx ts = some (res, s') → Guarded id ⟨s', .outside, c⟩ := by
  induction ts with
  | nil =>
    intro s s' res _ hpoll
    cases hpoll
  | cons t ts ih =>
    intro s s' res h hpoll
    have hturn := h.turn (SharedReader.pollOnce_turn cx t s)
    unfold SharedReader.poll at hpoll
    split at hpoll
    · rename_i s₁ honce
      rw [honce] at hturn
      split at hpoll
      · cases hpoll
        exact hturn
      · cases hpoll
    · rename_i e s₁ honce
      rw [honce] at hturn
      split at hpoll
      · cases hpoll
        exact hturn
      · cases hpoll
    · rename_i s₁ honce
      rw [honce] at hturn
      split at hpoll
      · split at hpoll
        · cases hpoll
          exact hturn.emit
        · cases hpoll
      · exact ih hturn hpoll

/-- The section of the entry either gives the reader something or leaves its waker there. -/
theorem Guarded.enter {n : ℕ} (h : Guarded id R) (hok : Prompt id R cx n) :
    Guarded id
      { R with
        shared := (R.shared.readEntry cx id n).2
        reader := if (R.shared.readEntry cx id n).1 = none then .waiting cx else .idle } := by
  have hcalm := SharedReader.Calm.readEntry R.shared cx id n
  constructor
  case old => exact h.old.trans_le hcalm.next.ge
  case held => exact (R.shared.readEntry_handle cx id n id).trans h.held
  case alert =>
    intro cx' hcx
    by_cases hnone : (R.shared.readEntry cx id n).1 = none
    · obtain rfl : cx = cx' := by simpa [hnone] using hcx
      obtain ⟨hn, hempty, hweak, heq⟩ := SharedReader.readEntry_none hnone
      refine .ahead ?_ ?_ fun addr w hc => (hok addr w hc hn hempty).symm
      · simpa [heq, SharedReader.setEntry] using hweak
      · simp [heq, SharedReader.setEntry]
    · simp [hnone] at hcx

/-- The weak reference is dropped, and the waker of the reader is the one that will be woken. -/
theorem Guarded.drop {addr : SocketAddr} {j : ℕ} {w : Waker} (h : Guarded id R)
    (hc : R.removal = .copied addr j w) :
    Guarded id { R with shared := R.shared.detach addr j, removal := .detached w } := by
  have hlog : R.shared.log <+: (R.shared.detach addr j).log := List.prefix_append _ _
  constructor
  case old => exact h.old
  case held =>
    rcases eq_or_ne id j with rfl | hne
    · simpa [SharedReader.detach] using h.held
    · simpa [SharedReader.detach, hne] using h.held
  case alert =>
    intro cx hcx
    cases h.alert cx hcx with
    | ahead hw hp hwak =>
      rcases eq_or_ne id j with rfl | hne
      · obtain rfl := hwak addr w hc
        exact .next rfl rfl
      · refine .ahead ?_ ?_ (by simp)
        · simpa [SharedReader.detach, hne] using hw
        · simpa [SharedReader.detach, hne] using hp
    | next hd =>
      rw [hc] at hd
      cases hd
    | woken hwoken => exact .woken (hwoken.mono hlog)

theorem Guarded.wake {w : Waker} (h : Guarded id R) (hd : R.removal = .detached w) :
    Guarded id { R with shared := (R.shared.wake w).setState (.nextPacket []), removal := .outside } := by
  constructor
  case old => exact h.old
  case held => exact h.held
  case alert =>
    intro cx hcx
    cases h.alert cx hcx with
    | ahead hw hp => exact .ahead hw hp fun _ _ h => nomatch h
    | @next before after addr hd' hlog =>
      obtain rfl : w = cx := by simpa [hd] using hd'
      have hlog' : ((R.shared.wake w).setState (.nextPacket [])).log = before ++ .closed addr id :: (after ++ [.wake w]) := by
        simp [SharedReader.setState, SharedReader.wake, SharedReader.emit, hlog]
      exact .woken ⟨before, after ++ [.wake w], addr, hlog', by simp⟩
    | woken hwoken => exact .woken (hwoken.mono (List.prefix_append _ _))

theorem Guarded.step (h : Guarded id R) (hs : Step id (Prompt id) R R') : Guarded id R' := by
  obtain ⟨s, rem, c⟩ := R
  cases hs with
  | turn cx t hout =>
    obtain rfl : rem = .outside := hout
    exact h.turn (SharedReader.pollOnce_turn cx t s)
  | take t hout hrem =>
    obtain rfl : rem = .outside := hout
    constructor
    case old => exact h.old
    case held => exact h.held
    case alert =>
      intro cx hcx
      cases h.alert cx hcx with
      | ahead hw hp => exact .ahead hw hp (by simp)
      | next hd => cases hd
      | woken hwoken => exact .woken hwoken
  | @copy addr j ht hlive =>
    obtain rfl : rem = .taken addr j := ht
    constructor
    case old => exact h.old
    case held => exact h.held
    case alert =>
      intro cx hcx
      cases h.alert cx hcx with
      | ahead hw hp =>
        refine .ahead hw hp fun addr' w hc => ?_
        cases hc
        exact hp
      | next hd => cases hd
      | woken hwoken => exact .woken hwoken
  | @gone addr j ht hdead =>
    obtain rfl : rem = .taken addr j := ht
    have hne : id ≠ j := by
      rintro rfl
      have hheld : (s.entries id).handle = .held := h.held
      rw [hheld] at hdead
      cases hdead
    constructor
    case old => exact h.old
    case held => simpa [SharedReader.setState, SharedReader.detach, hne] using h.held
    case alert =>
      intro cx hcx
      cases h.alert cx hcx with
      | ahead hw hp =>
        refine .ahead ?_ ?_ (by simp)
        · simpa [SharedReader.setState, SharedReader.detach, hne] using hw
        · simpa [SharedReader.setState, SharedReader.detach, hne] using hp
      | next hd => cases hd
      | woken hwoken => exact .woken (hwoken.mono (List.prefix_append _ _))
  | drop hc => exact h.drop hc
  | wake hd => exact h.wake hd
  | enter cx n hr hok => exact h.enter hok
  | @poll cx ts res s' hr hout hpoll =>
    obtain rfl : rem = .outside := hout
    obtain rfl : c = .waiting cx := hr
    have hlocked := h.poll hpoll
    constructor
    case old => exact hlocked.old
    case held => exact hlocked.held
    case alert =>
      intro cx' hcx
      have halert := hlocked.alert cx (Or.inl rfl)
      cases res with
      | pending =>
        obtain rfl : cx = cx' := by simpa using hcx
        exact halert.spared ⟨le_rfl, rfl, rfl, hlocked.held, List.prefix_rfl⟩ rfl
      | ready r => simp at hcx
  | other m honce hread hrel hadd =>
    exact h.spared (SharedReader.perform_spared h.old h.held honce hread hrel) rfl rfl

end

/-- A reader that is prompt is told of the end of its stream, wherever its `poll_read` falls. -/
theorem close_wakes {s : SharedReader} {id : ℕ} {R : Race} (hid : id < s.next)
    (hh : (s.entries id).handle = .held) (h : Runs id (Prompt id) s R) : R.Safe id := by
  have hstart : Guarded id ⟨s, .outside, .idle⟩ := ⟨hid, hh, by simp⟩
  have hrun : Guarded id R := by
    induction h with
    | refl => exact hstart
    | tail _ hs ih => exact ih.step hs
  intro hout hweak cx hcx
  cases hrun.alert cx (Or.inr hcx) with
  | ahead hw => exact absurd hweak hw
  | next hd =>
    rw [hout] at hd
    cases hd
  | woken hwoken => exact hwoken

def opened : SharedReader := (SharedReader.init true).perform (.add .unspecified true)

theorem removes_unspecified {s : SharedReader} (hs : s.state = .nextPacket [])
    (hm : s.socketMap .unspecified = some 0) :
    s.Removes (.bytes (frame .unspecified [])) [] (frame .unspecified []) .unspecified 0 where
  state := hs
  read := rfl
  bytes := by decide
  filled := by decide
  len := by decide
  names := by decide
  known := hm

theorem close_wakes_parked :
    ∃ R, Runs 0 (Prompt 0) opened R ∧ R.reader = .parked (.task 0) ∧ (R.shared.entries 0).weak = 0 ∧ R.Safe 0 := by
  have henter : Runs 0 (Prompt 0) opened _ :=
    .single (.enter (.task 0) 1 (fun _ h => nomatch h) fun _ _ h => nomatch h)
  have hpark := henter.tail (.poll [.idle] rfl rfl rfl)
  have htake := hpark.tail (.take _ rfl (removes_unspecified rfl rfl))
  have hcopy := htake.tail (.copy rfl (by decide))
  have hdrop := hcopy.tail (.drop rfl)
  have hwake := hdrop.tail (.wake rfl)
  exact ⟨_, hwake, rfl, rfl, close_wakes (by decide) rfl hwake⟩

/-- The reader looks at the weak count after its old waker was copied and before the weak
reference is dropped. -/
theorem close_wake_lost :
    ∃ R, Runs 0 (fun _ _ _ => True) opened R ∧ ¬ R.Safe 0 := by
  have htake : Runs 0 (fun _ _ _ => True) opened _ := .single (.take _ rfl (removes_unspecified rfl rfl))
  have hcopy := htake.tail (.copy rfl (by decide))
  have henter := hcopy.tail (.enter (.task 0) 1 (fun _ h => nomatch h) trivial)
  have hdrop := henter.tail (.drop rfl)
  have hwake := hdrop.tail (.wake rfl)
  have hpark := hwake.tail (.poll [.idle] rfl rfl rfl)
  refine ⟨_, hpark, fun hsafe => ?_⟩
  obtain ⟨before, after, addr, hlog, hin⟩ := hsafe rfl rfl (.task 0) rfl
  have hwoken : Event.wake (.task 0) ∈ before ++ .closed addr 0 :: after := by simp [hin]
  rw [← hlog] at hwoken
  revert hwoken
  decide

end Race

end VtMuxer
