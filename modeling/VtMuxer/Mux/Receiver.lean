import VtMuxer.Read.Chunking
import VtMuxer.Read.Coherent
import VtMuxer.Mux.Delivery

/-! The receiving end of a pipe: a listener that accepts connections and consumers that read
them, in any order, while the shared reader takes the stream in pieces of any size. -/
namespace VtMuxer

namespace SharedReader

def openings (s : SharedReader) : List (SocketAddr × ℕ) := s.log.filterMap Event.opening

/-- A new socket that is not in the channel yet. -/
def unsent (s : SharedReader) : List (SocketAddr × ℕ) :=
  match s.state with
  | .sendSocket a id false => [(a, id)]
  | _ => []

theorem openings_eq_traffic (s : SharedReader) : s.openings = s.traffic.filterMap Event.opening := by
  unfold openings traffic
  rw [List.filterMap_filter]
  congr 1
  funext e
  cases e <;> rfl

theorem openings_emit {e : Event} (h : e.opening = none) (s : SharedReader) : (s.emit e).openings = s.openings := by
  simp [openings, emit, h]

theorem openings_wakeReceiver (s : SharedReader) : s.wakeReceiver.openings = s.openings := by
  unfold wakeReceiver
  split
  · rfl
  · exact openings_emit rfl _

theorem openings_remove (addr : SocketAddr) (s : SharedReader) : (s.remove addr).openings = s.openings := by
  unfold remove
  split
  · rfl
  · dsimp only
    split <;> simp [openings, unlink, wake, emit, Event.opening]

/-- What a turn does to the entries. -/
inductive Alters (s s' : SharedReader) : Prop where
  | none (hn : s'.next = s.next) (he : s'.entries = s.entries)
  /-- Only an entry in the map gets bytes or loses its weak reference. -/
  | one (j : ℕ) (e : ReaderEntry) (hn : s'.next = s.next) (he : s'.entries = Function.update s.entries j e)
      (ht : e.taken = (s.entries j).taken)
      (hb : e.buffer = (s.entries j).buffer ∧ e.weak = (s.entries j).weak ∨ ∃ a, s.socketMap a = some j)
  | new (e : ReaderEntry) (hn : s'.next = s.next + 1) (he : s'.entries = Function.update s.entries s.next e)
      (ht : e.taken = [])

section
variable {cx : Waker} {t : Tick} {s s' : SharedReader} {r : Poll (Except IoError Unit)}

theorem Alters.fill (s : SharedReader) {owner : SocketAddr} {id : ℕ} (hu : s.upgrade owner = some id)
    (bs : List UInt8) (st : SharedReaderState) : Alters s ((s.fill id bs).setState st) :=
  .one id _ rfl rfl rfl (Or.inr ⟨owner, (Option.filter_eq_some_iff.mp hu).1⟩)

theorem Alters.queued (s : SharedReader) (addr : SocketAddr) (id : ℕ) (polled : Bool) :
    Alters s (if polled then s else s.offer addr id) := by
  cases polled with
  | true => exact .none rfl rfl
  | false => exact .none (by simp [offer]) (by simp [offer])

theorem Alters.remove (s : SharedReader) {addr : SocketAddr} {id : ℕ} (hm : s.socketMap addr = some id) :
    Alters s (s.remove addr) := by
  unfold SharedReader.remove
  rw [hm]
  dsimp only
  split
  · exact .one id _ rfl rfl rfl (Or.inr ⟨addr, hm⟩)
  · exact .one id _ rfl rfl rfl (Or.inr ⟨addr, hm⟩)

theorem Alters.congr {s₀ s₁ : SharedReader} (h : Alters s₀ s₁) (hm : s₀.socketMap = s.socketMap)
    (hn₀ : s₀.next = s.next) (he₀ : s₀.entries = s.entries) (hn : s'.next = s₁.next)
    (he : s'.entries = s₁.entries) : Alters s s' := by
  cases h with
  | none hn₁ he₁ => exact .none (hn.trans (hn₁.trans hn₀)) (he.trans (he₁.trans he₀))
  | one j e hn₁ he₁ ht hb =>
    rw [he₀] at he₁ ht hb
    rw [hm] at hb
    exact .one j e (hn.trans (hn₁.trans hn₀)) (he.trans he₁) ht hb
  | new e hn₁ he₁ ht =>
    rw [hn₀] at hn₁ he₁
    rw [he₀] at he₁
    exact .new e (hn.trans hn₁) (he.trans he₁) ht

theorem Turn.alters (h : Turn cx t s r s') : Alters s s' := by
  cases h with
  | parked => exact .none rfl rfl
  | full => exact .one _ _ rfl rfl rfl (Or.inl ⟨rfl, rfl⟩)
  | short => exact .none rfl rfl
  | @sending addr id polled => exact (Alters.queued s addr id polled).congr rfl rfl rfl rfl rfl
  | failed => exact .none rfl rfl
  | broken => exact .none rfl rfl
  | discardCut => exact .none rfl rfl
  | fillCut _ hu => exact .fill s hu _ _
  | headerCut => exact .none rfl rfl
  | noMemory => exact .none rfl rfl
  | discard => exact .none rfl rfl
  | fill _ hu => exact .fill s hu _ _
  | payload => exact .none rfl rfl
  | @close header bs id _ _ _ _ _ hm =>
    have hrem : Alters (s.consume bs) ((s.consume bs).remove (headerBy header bs).addr) := .remove _ hm
    exact hrem.congr rfl rfl rfl rfl rfl
  | ignore => exact .none rfl rfl
  | opening => exact .new _ rfl rfl rfl
  | @sent addr id polled => exact (Alters.queued s addr id polled).congr rfl rfl rfl rfl rfl
  | unsent =>
    split
    · exact .one _ _ rfl rfl rfl (Or.inl ⟨rfl, rfl⟩)
    · exact .none rfl rfl

theorem Alters.next_le (h : Alters s s') : s.next ≤ s'.next := by
  cases h with
  | none hn _ => exact hn.ge
  | one _ _ hn _ _ _ => exact hn.ge
  | new _ hn _ _ =>
    rw [hn]
    exact Nat.le_succ _

/-- New sockets: there is none, or the entry that was added last is one. -/
def Newest (s s' : SharedReader) (new : List (SocketAddr × ℕ)) : Prop :=
  new = [] ∨ ∃ a, new = [(a, s.next)] ∧ s'.next = s.next + 1 ∧ s'.socketMap a = some s.next

theorem Newest.lt {new : List (SocketAddr × ℕ)} (h : Newest s s' new) : ∀ x ∈ new, x.2 < s'.next := by
  intro x hx
  rcases h with rfl | ⟨a, rfl, hn, -⟩
  · cases hx
  · rw [List.mem_singleton.mp hx, hn]
    exact Nat.lt_succ_self s.next

/-- New sockets go through the state of the reader into the channel, in order. -/
theorem Turn.opens (h : Turn cx t s r s') (hc : s.connected = true) :
    ∃ new, s'.openings = s.openings ++ new ∧ s'.chan ++ s'.unsent = s.chan ++ s.unsent ++ new ∧
      Newest s s' new := by
  have hstay : s'.openings = s.openings → s'.chan = s.chan → s'.unsent = s.unsent →
      ∃ new, s'.openings = s.openings ++ new ∧ s'.chan ++ s'.unsent = s.chan ++ s.unsent ++ new ∧
        Newest s s' new := by
    intro ho hch hun
    exact ⟨[], by rw [ho, List.append_nil], by rw [hch, hun, List.append_nil], Or.inl rfl⟩
  have hread : ∀ owner left, s.state = .read owner left → s.unsent = [] := by
    intro owner left hs
    simp [SharedReader.unsent, hs]
  have hnext : ∀ header, s.state = .nextPacket header → s.unsent = [] := by
    intro header hs
    simp [SharedReader.unsent, hs]
  have hleft : ∀ (owner : SocketAddr) (n : ℕ) (s₁ : SharedReader),
      (s₁.setState (payloadLeft owner n)).unsent = [] := by
    intro owner n s₁
    unfold payloadLeft
    split <;> rfl
  have hfill : ∀ id bs, (s.fill id bs).openings = s.openings := fun id bs => openings_emit rfl _
  have hqueued : ∀ addr id polled (s₁ : SharedReader), s.state = .sendSocket addr id polled →
      s₁.openings = (if polled then s else s.offer addr id).openings →
      s₁.chan = (if polled then s else s.offer addr id).chan → s₁.unsent = [] →
      ∃ new, s₁.openings = s.openings ++ new ∧ s₁.chan ++ s₁.unsent = s.chan ++ s.unsent ++ new ∧
        Newest s s₁ new := by
    intro addr id polled s₁ hs ho hch hun
    refine ⟨[], ?_, ?_, Or.inl rfl⟩
    · rw [ho, List.append_nil]
      cases polled with
      | true => rfl
      | false => exact openings_wakeReceiver _
    · rw [hch, hun]
      cases polled with
      | true => simp [SharedReader.unsent, hs]
      | false => simp [SharedReader.unsent, hs, offer]
  cases h with
  | parked => exact hstay (by simp [openings, park, Event.opening]) rfl rfl
  | full => exact hstay (by simp [openings, refuse, wake, emit, SharedReader.setEntry, Event.opening]) rfl rfl
  | short hs => exact hstay rfl rfl (hnext _ hs).symm
  | @sending addr id polled hs => exact hqueued addr id polled _ hs (openings_emit rfl _) rfl rfl
  | failed => exact hstay rfl rfl rfl
  | broken => exact hstay rfl rfl rfl
  | discardCut hs => exact hstay rfl rfl (hread _ _ hs).symm
  | fillCut hs => exact hstay (hfill _ _) rfl (hread _ _ hs).symm
  | headerCut hs => exact hstay rfl rfl (hnext _ hs).symm
  | noMemory => exact hstay rfl rfl rfl
  | discard hs => exact hstay rfl rfl ((hleft _ _ _).trans (hread _ _ hs).symm)
  | fill hs => exact hstay (hfill _ _) rfl ((hleft _ _ _).trans (hread _ _ hs).symm)
  | payload hs => exact hstay rfl rfl (hnext _ hs).symm
  | @close header bs id hs =>
    exact hstay ((s.consume bs).openings_remove _) (remove_chan _ _) (hnext _ hs).symm
  | ignore hs => exact hstay rfl rfl (hnext _ hs).symm
  | @opening header bs hs =>
    refine ⟨[((headerBy header bs).addr, s.next)], ?_, ?_, ?_⟩
    · simp [openings, emit, SharedReader.setState, SharedReader.add, SharedReader.consume, Event.opening]
    · rw [hnext _ hs, List.append_nil]
      rfl
    · exact Or.inr ⟨_, rfl, rfl, Function.update_self _ _ _⟩
  | @sent addr id polled hs => exact hqueued addr id polled _ hs rfl rfl rfl
  | unsent hs hc' =>
    rw [hc] at hc'
    cases hc'

/-- A socket on its way to the listener is in the map. -/
def Sending (s : SharedReader) : Prop :=
  ∀ a id polled, s.state = .sendSocket a id polled → s.socketMap a = some id

theorem Sending.turn (hs₀ : s.Sending) (h : Turn cx t s r s') : s'.Sending := by
  have hno : (∀ a id polled, s'.state ≠ .sendSocket a id polled) → s'.Sending :=
    fun hne a id polled he => absurd he (hne a id polled)
  have hleft : ∀ (owner : SocketAddr) (n : ℕ), s'.state = payloadLeft owner n → s'.Sending := by
    intro owner n he
    refine hno fun a id polled => ?_
    rw [he]
    unfold payloadLeft
    split <;> simp
  cases h with
  | parked => exact hs₀
  | full => exact hs₀
  | short => exact hno (by simp [setState])
  | @sending addr id polled hs =>
    intro a j b he
    obtain ⟨rfl, rfl, -⟩ := SharedReaderState.sendSocket.inj he
    have hmap : (if polled then s else s.offer addr id).socketMap = s.socketMap := by
      cases polled <;> simp [offer]
    show (if polled then s else s.offer addr id).socketMap addr = some id
    rw [hmap]
    exact hs₀ addr id polled hs
  | failed => exact hs₀
  | broken => exact hs₀
  | discardCut => exact hno (by simp [setState])
  | fillCut => exact hno (by simp [setState])
  | headerCut => exact hno (by simp [setState])
  | noMemory => exact hs₀
  | discard => exact hleft _ _ rfl
  | fill => exact hleft _ _ rfl
  | payload => exact hno (by simp [setState])
  | close => exact hno (by simp [setState])
  | ignore => exact hno (by simp [setState])
  | @opening header bs =>
    intro a id polled he
    obtain ⟨rfl, rfl, -⟩ := SharedReaderState.sendSocket.inj he
    exact Function.update_self _ _ _
  | sent => exact hno (by simp [setState])
  | unsent => exact hno (by simp [setState])

end

theorem readEntry_frame (s : SharedReader) (cx : Waker) (id n : ℕ) :
    (s.readEntry cx id n).2.next = s.next ∧ (s.readEntry cx id n).2.socketMap = s.socketMap ∧
      (s.readEntry cx id n).2.chan = s.chan ∧ (s.readEntry cx id n).2.openings = s.openings ∧
      ∀ j, j ≠ id → (s.readEntry cx id n).2.entries j = s.entries j := by
  unfold readEntry
  dsimp only
  split
  · exact ⟨rfl, rfl, rfl, rfl, fun _ _ => rfl⟩
  split
  · exact ⟨rfl, rfl, rfl, openings_emit rfl _, fun j hj => Function.update_of_ne hj _ _⟩
  split
  · exact ⟨rfl, rfl, rfl, openings_emit rfl _, fun _ _ => rfl⟩
  · exact ⟨rfl, rfl, rfl, rfl, fun j hj => Function.update_of_ne hj _ _⟩

theorem dropReceiver_frame (s : SharedReader) (k : ℕ) (hooked : Bool) :
    (s.dropReceiver k hooked).next = s.next ∧ (s.dropReceiver k hooked).socketMap = s.socketMap ∧
      (s.dropReceiver k hooked).chan = s.chan ∧ (s.dropReceiver k hooked).openings = s.openings ∧
      (s.dropReceiver k hooked).entries = s.entries := by
  unfold dropReceiver
  split
  · exact ⟨rfl, rfl, rfl, rfl, rfl⟩
  split
  · exact ⟨by simp, by simp, by simp, s.openings_wakeReceiver, by simp⟩
  · exact ⟨rfl, rfl, rfl, rfl, rfl⟩

/-- What an accept returns comes from the front of the channel; otherwise it only notes who
has the reader. -/
theorem recvEntry_frame (s : SharedReader) (k : ℕ) (hooked : Bool) (cx : Waker) :
    (s.recvEntry k hooked cx).2.next = s.next ∧ (s.recvEntry k hooked cx).2.socketMap = s.socketMap ∧
      (s.recvEntry k hooked cx).1.toList ++ (s.recvEntry k hooked cx).2.chan = s.chan ∧
      (s.recvEntry k hooked cx).2.openings = s.openings ∧ s.Alters (s.recvEntry k hooked cx).2 := by
  unfold recvEntry
  split
  · unfold awaitItem
    split
    · exact ⟨rfl, rfl, rfl, rfl, .none rfl rfl⟩
    · exact ⟨rfl, rfl, rfl, rfl, .none rfl rfl⟩
  · rename_i item rest hch
    dsimp only
    obtain ⟨hn, hm, hc, ho, he⟩ := dropReceiver_frame (setEntry item.2
      { s.entries item.2 with handle := (s.entries item.2).handle.accept } { s with chan := rest }) k hooked
    refine ⟨hn, hm, ?_, ho, .one item.2 _ hn he rfl (Or.inl ⟨rfl, rfl⟩)⟩
    rw [hc, hch]
    rfl

theorem Fair.within {s : SharedReader} {t : Tick} (h : s.Fair t) : s.Within t := by
  intro n bs hn hr
  rcases h.2 n hn with hp | ⟨cs, hcs, -, hle⟩
  · rw [hr] at hp
    cases hp
  · rw [hr] at hcs
    cases hcs
    exact hle

end SharedReader

/-- The bytes that calls of `poll_read` returned before the first one that put no byte into a
non-empty slice. A call is the size of its slice and the bytes put there. -/
def beforeEof : List (ℕ × List UInt8) → List UInt8
  | [] => []
  | (n, bs) :: rest => if n ≠ 0 ∧ bs = [] then [] else bs ++ beforeEof rest

def HasEof (calls : List (ℕ × List UInt8)) : Prop := ∃ n, n ≠ 0 ∧ (n, []) ∈ calls

theorem beforeEof_snoc_nil (calls : List (ℕ × List UInt8)) (n : ℕ) :
    beforeEof (calls ++ [(n, [])]) = beforeEof calls := by
  induction calls with
  | nil =>
    simp only [List.nil_append, beforeEof]
    split <;> rfl
  | cons c calls ih =>
    obtain ⟨m, bs⟩ := c
    simp only [List.cons_append, beforeEof, ih]

theorem beforeEof_snoc {calls : List (ℕ × List UInt8)} (h : ¬ HasEof calls) (n : ℕ) {bs : List UInt8}
    (hbs : bs ≠ []) : beforeEof (calls ++ [(n, bs)]) = beforeEof calls ++ bs := by
  induction calls with
  | nil => simp [beforeEof, hbs]
  | cons c calls ih =>
    obtain ⟨m, cs⟩ := c
    have hhead : ¬ (m ≠ 0 ∧ cs = []) := by
      rintro ⟨hm, rfl⟩
      exact h ⟨m, hm, by simp⟩
    have hrest : ¬ HasEof calls := by
      rintro ⟨k, hk, hin⟩
      exact h ⟨k, hk, by simp [hin]⟩
    simp only [List.cons_append, beforeEof, if_neg hhead, ih hrest, List.append_assoc]

/-- The calls on an entry returned what was taken out of it, and an end only when nothing is
left and nothing more will come. -/
structure Told (calls : List (ℕ × List UInt8)) (e : ReaderEntry) : Prop where
  bytes : beforeEof calls = e.taken
  ended : HasEof calls → e.weak = 0 ∧ e.buffer.bytes = []

section
variable {s s' : SharedReader} {calls : List (ℕ × List UInt8)}

theorem Told.new {e : ReaderEntry} (h : e.taken = []) : Told [] e where
  bytes := h.symm
  ended := by
    rintro ⟨n, -, hin⟩
    cases hin

theorem Told.readEntry {id : ℕ} (h : Told calls (s.entries id)) (cx : Waker) (n : ℕ) :
    Told (calls ++ (s.readEntry cx id n).1.toList.map fun bs => (n, bs))
      ((s.readEntry cx id n).2.entries id) := by
  unfold SharedReader.readEntry
  dsimp only
  split
  · rename_i hn
    constructor
    case bytes => exact (beforeEof_snoc_nil calls n).trans h.bytes
    case ended =>
      rintro ⟨m, hm, hin⟩
      rcases List.mem_append.mp hin with hin | hin
      · exact h.ended ⟨m, hm, hin⟩
      · have heq : (m, []) = (n, ([] : List UInt8)) := by simpa using hin
        exact absurd ((Prod.mk.inj heq).1.trans hn) hm
  rename_i hn
  split
  · rename_i hbs
    have hno : ¬ HasEof calls := by
      intro hend
      have hempty := (h.ended hend).2
      rw [ReadBuffer.read_fst, hempty] at hbs
      simp at hbs
    constructor
    case bytes =>
      refine (beforeEof_snoc hno n hbs).trans ?_
      rw [h.bytes]
      simp [SharedReader.wake, SharedReader.emit, SharedReader.setEntry]
    case ended =>
      rintro ⟨m, hm, hin⟩
      rcases List.mem_append.mp hin with hin | hin
      · exact absurd ⟨m, hm, hin⟩ hno
      · have heq : (m, []) = (n, ((s.entries id).buffer.read n).1) := by simpa using hin
        exact absurd (Prod.mk.inj heq).2.symm hbs
  rename_i hbs
  have hempty : (s.entries id).buffer.bytes = [] := by
    have htake : (s.entries id).buffer.bytes.take n = [] := not_not.mp hbs
    rcases List.take_eq_nil_iff.mp htake with h0 | hnil
    · exact absurd h0 hn
    · exact hnil
  split
  · rename_i hw
    exact ⟨(beforeEof_snoc_nil calls n).trans h.bytes, fun _ => ⟨hw, hempty⟩⟩
  · have hsame : Told calls { s.entries id with readerPipeWaker := cx } := ⟨h.bytes, h.ended⟩
    simpa [SharedReader.setEntry] using hsame

/-- A turn of the shared reader takes nothing out of an entry, and gives nothing to one that
is closed. -/
theorem Told.alters {id : ℕ} (h : Told calls (s.entries id)) (hc : s.Coherent) (hid : id < s.next)
    (ha : s.Alters s') : Told calls (s'.entries id) := by
  cases ha with
  | none _ he =>
    rw [he]
    exact h
  | one j e _ he ht hb =>
    rw [he]
    rcases eq_or_ne id j with rfl | hne
    · rw [Function.update_self]
      constructor
      case bytes => rw [ht, h.bytes]
      case ended =>
        intro hend
        obtain ⟨hw, hempty⟩ := h.ended hend
        rcases hb with ⟨hbuf, hweak⟩ | ⟨a, hm⟩
        · exact ⟨hweak.trans hw, by rw [hbuf, hempty]⟩
        · rcases hc.linked id hid with ⟨hone, -⟩ | ⟨-, hno⟩
          · rw [hw] at hone
            cases hone
          · exact absurd hm (hno a)
    · rw [Function.update_of_ne hne]
      exact h
  | new e _ he _ =>
    rw [he, Function.update_of_ne hid.ne]
    exact h

end

/-- A listener with the connections it has accepted and the calls made on each of them. -/
structure Receiver where
  shared : SharedReader
  accepted : List (SocketAddr × ℕ)
  calls : ℕ → List (ℕ × List UInt8)

namespace Receiver

def init : Receiver := ⟨.init true, [], fun _ => []⟩

/-- `ReaderInner::poll_read` on an entry, as far as it needs no other. -/
def read (cx : Waker) (id n : ℕ) (r : Receiver) : Receiver where
  shared := (r.shared.readEntry cx id n).2
  accepted := r.accepted
  calls := Function.update r.calls id
    (r.calls id ++ (r.shared.readEntry cx id n).1.toList.map fun bs => (n, bs))

/-- `MuxListener::accept`, as far as it needs the channel only. -/
def accept (k : ℕ) (hooked : Bool) (cx : Waker) (r : Receiver) : Receiver where
  shared := (r.shared.recvEntry k hooked cx).2
  accepted := r.accepted ++ (r.shared.recvEntry k hooked cx).1.toList
  calls := r.calls

/-- What can happen at the receiving end while the stream brings the bytes `wire`: an
iteration of the poll loop by anybody, one that ends because the budget is used up, a read
of an accepted connection, an accept, and an accept that is given up. -/
inductive Step (wire : List UInt8) (r : Receiver) : Receiver → Prop where
  | once (cx : Waker) (t : Tick) (hf : r.shared.Fair t) (hw : (r.shared.pollOnce cx t).2.consumed <+: wire) :
      Step wire r { r with shared := (r.shared.pollOnce cx t).2 }
  | yield (cx : Waker) : Step wire r { r with shared := r.shared.emit (.coopPending cx) }
  | read (cx : Waker) (a : SocketAddr) (id n : ℕ) (ha : (a, id) ∈ r.accepted) : Step wire r (r.read cx id n)
  | accept (k : ℕ) (hooked : Bool) (cx : Waker) : Step wire r (r.accept k hooked cx)
  | leave (k : ℕ) (hooked : Bool) : Step wire r { r with shared := r.shared.dropReceiver k hooked }

def Runs (wire : List UInt8) : Receiver → Prop := Relation.ReflTransGen (Step wire) init

/-- What every run keeps. -/
structure Keeps (wire : List UInt8) (r : Receiver) : Prop where
  coherent : r.shared.Coherent
  connected : r.shared.connected = true
  onWire : r.shared.consumed <+: wire
  advances : Advances (fun _ => true) (.init true) r.shared (.ofReader (.init true)) (.header [])
    r.shared.consumed
  sending : r.shared.Sending
  known : r.accepted ++ (r.shared.chan ++ r.shared.unsent) = r.shared.openings
  allocated : ∀ x ∈ r.shared.openings, x.2 < r.shared.next
  fresh : ∀ id, r.shared.next ≤ id → r.calls id = []
  told : ∀ id < r.shared.next, Told (r.calls id) (r.shared.entries id)

section
variable {wire : List UInt8} {r : Receiver}

theorem Keeps.init : Keeps wire init where
  coherent := .init true
  connected := rfl
  onWire := List.nil_prefix
  advances := by
    have htr : Tracks (fun _ => true) (.init true) (.ofReader (.init true)) := by
      refine ⟨rfl, rfl, rfl, fun _ _ => rfl, fun id hid => ?_, fun _ _ => rfl, ?_⟩
      · exact absurd hid (Nat.not_lt_zero id)
      · intro a id polled he
        cases he
    exact htr.stays (by simp [Position.Valid]) rfl rfl rfl
  sending a id polled he := by cases he
  known := rfl
  allocated x hx := by cases hx
  fresh _ _ := rfl
  told id hid := absurd hid (Nat.not_lt_zero id)

theorem Keeps.stays (h : Keeps wire r) {s' : SharedReader}
    (ht : ∀ d, Tracks (fun _ => true) r.shared d → Tracks (fun _ => true) s' d)
    (hc : s'.consumed = r.shared.consumed ∧ s'.connected = r.shared.connected ∧ s'.state = r.shared.state) :
    Advances (fun _ => true) (.init true) s' (.ofReader (.init true)) (.header []) s'.consumed := by
  obtain ⟨hcons, hconn, hst⟩ := hc
  have hval : (Demux.resume (fun _ => true) true (.ofReader (.init true)) r.shared.consumed (.header [])).2.Valid :=
    Demux.resume_valid (by simp [Position.Valid]) _ _
  have hpos : s'.position = r.shared.position := by
    unfold SharedReader.position
    rw [hst]
  have hstep := (ht _ h.advances.tracks).stays hval hcons hconn (hpos.trans h.advances.position)
  have htrans := h.advances.trans hstep
  rw [List.append_nil, ← hcons] at htrans
  exact htrans

theorem Keeps.once (h : Keeps wire r) (cx : Waker) {t : Tick} (hf : r.shared.Fair t)
    (hw : (r.shared.pollOnce cx t).2.consumed <+: wire) :
    Keeps wire { r with shared := (r.shared.pollOnce cx t).2 } := by
  have hturn := r.shared.pollOnce_turn cx t
  have hval : (Demux.resume (fun _ => true) true (.ofReader (.init true)) r.shared.consumed (.header [])).2.Valid :=
    Demux.resume_valid (by simp [Position.Valid]) _ _
  obtain ⟨bs, hb⟩ := h.advances.tracks.pollOnce h.advances.position hval hf cx
  have halt := hturn.alters
  obtain ⟨new, ho, hch, hnew⟩ := hturn.opens h.connected
  constructor
  case coherent => exact h.coherent.turn hturn hf.within
  case connected => exact hb.connected.trans h.connected
  case onWire => exact hw
  case advances =>
    have htrans := h.advances.trans hb
    rw [← hb.consumed] at htrans
    exact htrans
  case sending => exact h.sending.turn hturn
  case known =>
    dsimp only
    rw [ho, hch, ← h.known]
    simp
  case allocated =>
    intro x hx
    have hx' : x ∈ r.shared.openings ++ new := ho ▸ hx
    rcases List.mem_append.mp hx' with hin | hin
    · exact (h.allocated x hin).trans_le halt.next_le
    · exact hnew.lt x hin
  case fresh => exact fun id hid => h.fresh id (halt.next_le.trans hid)
  case told =>
    intro id hid
    by_cases hold : id < r.shared.next
    · exact (h.told id hold).alters h.coherent hold halt
    · have hid' : id < (r.shared.pollOnce cx t).2.next := hid
      dsimp only
      rw [h.fresh id (by omega)]
      cases halt with
      | none hn _ => omega
      | one _ _ hn _ _ _ => omega
      | new e hn he ht =>
        obtain rfl : id = r.shared.next := by omega
        rw [he, Function.update_self]
        exact .new ht

theorem Keeps.rest {r' : Receiver} (h : Keeps wire r) (hcoh : r'.shared.Coherent)
    (ht : ∀ d, Tracks (fun _ => true) r.shared d → Tracks (fun _ => true) r'.shared d)
    (hc : r'.shared.consumed = r.shared.consumed ∧ r'.shared.connected = r.shared.connected ∧
      r'.shared.state = r.shared.state)
    (hn : r'.shared.next = r.shared.next) (hm : r'.shared.socketMap = r.shared.socketMap)
    (hch : r'.accepted ++ r'.shared.chan = r.accepted ++ r.shared.chan)
    (ho : r'.shared.openings = r.shared.openings)
    (hfresh : ∀ id, r.shared.next ≤ id → r'.calls id = [])
    (htold : ∀ id < r.shared.next, Told (r'.calls id) (r'.shared.entries id)) : Keeps wire r' := by
  constructor
  case coherent => exact hcoh
  case connected => exact hc.2.1.trans h.connected
  case onWire => exact hc.1 ▸ h.onWire
  case advances => exact h.stays ht hc
  case sending =>
    intro b j polled hb
    rw [hc.2.2] at hb
    exact (congrFun hm b).trans (h.sending b j polled hb)
  case known =>
    have hun : r'.shared.unsent = r.shared.unsent := by
      unfold SharedReader.unsent
      rw [hc.2.2]
    rw [hun, ho, ← List.append_assoc, hch, List.append_assoc, h.known]
  case allocated =>
    rw [ho, hn]
    exact h.allocated
  case fresh =>
    rw [hn]
    exact hfresh
  case told =>
    rw [hn]
    exact htold

theorem Keeps.read (h : Keeps wire r) (cx : Waker) {a : SocketAddr} {id : ℕ} (n : ℕ)
    (ha : (a, id) ∈ r.accepted) : Keeps wire (r.read cx id n) := by
  obtain ⟨hn, hm, hch, ho, he⟩ := r.shared.readEntry_frame cx id n
  have hold : id < r.shared.next := by
    refine h.allocated (a, id) ?_
    rw [← h.known]
    exact List.mem_append_left _ ha
  refine h.rest (h.coherent.readEntry cx id n) (fun d ht => ht.readEntry cx id n)
    (r.shared.readEntry_rest cx id n) hn hm (congrArg (r.accepted ++ ·) hch) ho ?_ ?_
  · intro j hj
    have hne : j ≠ id := by omega
    exact (Function.update_of_ne hne _ _).trans (h.fresh j hj)
  · intro j hj
    show Told (Function.update r.calls id _ j) ((r.shared.readEntry cx id n).2.entries j)
    rcases eq_or_ne j id with rfl | hne
    · rw [Function.update_self]
      exact (h.told j hj).readEntry cx n
    · rw [Function.update_of_ne hne, he j hne]
      exact h.told j hj

theorem Keeps.step {r' : Receiver} (h : Keeps wire r) (hs : Step wire r r') : Keeps wire r' := by
  cases hs with
  | once cx t hf hw => exact h.once cx hf hw
  | yield cx =>
    have ht : ∀ d, Tracks (fun _ => true) r.shared d →
        Tracks (fun _ => true) (r.shared.emit (.coopPending cx)) d := fun d hd =>
      hd.congr rfl rfl (SharedReader.emit_traffic rfl _) (fun _ => rfl) (fun _ => Iff.rfl) hd.sending
    exact h.rest (h.coherent.emit _) ht ⟨rfl, rfl, rfl⟩ rfl rfl rfl (SharedReader.openings_emit rfl _)
      h.fresh h.told
  | read cx a id n ha => exact h.read cx n ha
  | accept k hooked cx =>
    obtain ⟨hn, hm, hch, ho, halt⟩ := r.shared.recvEntry_frame k hooked cx
    refine h.rest (h.coherent.recvEntry k hooked cx) (fun d hd => hd.recvEntry k hooked cx)
      (r.shared.recvEntry_rest k hooked cx) hn hm ?_ ho h.fresh fun id hid => ?_
    · exact (List.append_assoc _ _ _).trans (congrArg (r.accepted ++ ·) hch)
    · exact (h.told id hid).alters h.coherent hid halt
  | leave k hooked =>
    obtain ⟨hn, hm, hch, ho, he⟩ := r.shared.dropReceiver_frame k hooked
    refine h.rest (h.coherent.dropReceiver k hooked) (fun d hd => hd.dropReceiver k hooked)
      (r.shared.dropReceiver_rest k hooked) hn hm (congrArg (r.accepted ++ ·) hch) ho h.fresh fun id hid => ?_
    exact (h.told id hid).alters h.coherent hid (.none hn he)

theorem Runs.step {r' : Receiver} (h : Runs wire r) (hs : Step wire r r') : Runs wire r' := .tail h hs

theorem Runs.bytes (h : Runs wire r) (bs : List UInt8) {n : ℕ} (hn : r.shared.requested = some n)
    (h1 : 1 ≤ bs.length) (hle : bs.length ≤ n)
    (hw : (r.shared.pollOnce .noop (.bytes bs)).2.consumed <+: wire) :
    Runs wire { r with shared := (r.shared.pollOnce .noop (.bytes bs)).2 } := by
  exact h.step (.once .noop _ (.bytes hn h1 hle) hw)

theorem Runs.keeps (h : Runs wire r) : Keeps wire r := by
  induction h with
  | refl => exact .init
  | tail _ hs ih => exact ih.step hs

end

end Receiver

end VtMuxer
