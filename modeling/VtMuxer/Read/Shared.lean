import VtMuxer.Format.Protocol
import VtMuxer.Read.ReadBuffer

/-! The read half that all connections of a pipe share. Whoever polls it reads for
everybody: payload goes to the buffer of its connection, frames without payload open and
close connections, and new ones are sent to the listener. -/
namespace VtMuxer

/-- Where the `ReaderInner` of an entry is. -/
inductive Handle where
  | queued
  | held
  | dropped
  deriving DecidableEq, Repr

def Handle.accept : Handle → Handle
  | queued => held
  | h => h

@[simp] theorem Handle.accept_eq_dropped (h : Handle) : h.accept = .dropped ↔ h = .dropped := by
  cases h <;> simp [accept]

/-- A `ReaderEntry` behind its `Arc`, with the number of weak references to it. `taken`
records what was read from the buffer. -/
structure ReaderEntry where
  readerPipeWaker : Waker
  waitingWaker : Waker
  buffer : ReadBuffer
  handle : Handle
  weak : ℕ
  taken : List UInt8
  deriving DecidableEq, Repr

/-- What ever came into the buffer: it was read or is still there. -/
def ReaderEntry.appended (e : ReaderEntry) : List UInt8 := e.taken ++ e.buffer.bytes

/-- `header` is what is filled of the next header. The send future of a new socket enters
the channel when it is first polled. -/
inductive SharedReaderState where
  | read (owner : SocketAddr) (left : ℕ)
  | nextPacket (header : List UInt8)
  | sendSocket (addr : SocketAddr) (id : ℕ) (polled : Bool)
  | error
  deriving DecidableEq, Repr

/-- What can be observed of a reader from outside. -/
inductive Event where
  | wake (w : Waker)
  /-- The stream had no bytes for the caller with this waker. -/
  | tcpPending (w : Waker)
  | sendPending (w : Waker)
  /-- The buffer of the entry was full for the caller with this waker. -/
  | full (id : ℕ) (w : Waker)
  | coopPending (w : Waker)
  | opened (addr : SocketAddr) (id : ℕ)
  | closed (addr : SocketAddr) (id : ℕ)
  /-- A read on the entry returned no bytes into a non-empty slice. -/
  | eof (id : ℕ)
  deriving DecidableEq, Repr

/-- Entries are kept under numbers, `next` being the first free one. `chan` holds what was
sent to the listener and `receivers` who waits for it; `tcp` is the waker registered with
the stream and `consumed` what was read from it. -/
structure SharedReader where
  entries : ℕ → ReaderEntry
  next : ℕ
  socketMap : SocketAddr → Option ℕ
  allocated : ∀ a id, socketMap a = some id → id < next
  distinct : ∀ a b id, socketMap a = some id → socketMap b = some id → a = b
  state : SharedReaderState
  connected : Bool
  chan : List (SocketAddr × ℕ)
  receivers : List (ℕ × Waker)
  tcp : Option Waker
  consumed : List UInt8
  log : List Event

/-- What the environment answers during one iteration of the poll loop. -/
structure Tick where
  read : Poll (Except IoError (List UInt8))
  send : Poll Unit
  alloc : Bool
  coop : Poll Unit
  deriving DecidableEq, Repr

def Tick.bytes (bs : List UInt8) : Tick := ⟨.ready (.ok bs), .ready (), true, .ready ()⟩

def Tick.idle : Tick := ⟨.pending, .pending, true, .ready ()⟩

def DEFAULT_BUFFER_CAPACITY : ℕ := 131070

def ReaderEntry.new (cx : Waker) (handle : Handle) : ReaderEntry where
  readerPipeWaker := .noop
  waitingWaker := cx
  buffer := .new DEFAULT_BUFFER_CAPACITY (by decide)
  handle := handle
  weak := 1
  taken := []

section
variable (e : ReaderEntry)

@[simp] theorem ReaderEntry.appended_mk (readerPipeWaker waitingWaker : Waker) (buffer : ReadBuffer)
    (handle : Handle) (weak : ℕ) (taken : List UInt8) :
    (ReaderEntry.mk readerPipeWaker waitingWaker buffer handle weak taken).appended =
      taken ++ buffer.bytes := rfl
@[simp] theorem ReaderEntry.taken_bytes : e.taken ++ e.buffer.bytes = e.appended := rfl
@[simp] theorem ReaderEntry.taken_bytes_append (bs : List UInt8) :
    e.taken ++ (e.buffer.bytes ++ bs) = e.appended ++ bs := (List.append_assoc _ _ _).symm
@[simp] theorem ReaderEntry.taken_read (n : ℕ) :
    e.taken ++ ((e.buffer.read n).1 ++ (e.buffer.read n).2.bytes) = e.appended := by
  rw [ReadBuffer.read_append]
  rfl
theorem ReaderEntry.appended_drained (h : e.buffer.bytes = []) : e.appended = e.taken := by
  rw [ReaderEntry.appended, h, List.append_nil]
@[simp] theorem ReaderEntry.appended_new (cx : Waker) (handle : Handle) :
    (ReaderEntry.new cx handle).appended = [] := rfl

end

/-- `assume_init`, which may be anything while bytes are missing. -/
def MuxFrameHeader.assumeInit (l : List UInt8) : MuxFrameHeader :=
  if h : l.length = 20 then .ofBytes l h else .empty .unspecified

namespace SharedReader

def emit (e : Event) (s : SharedReader) : SharedReader := { s with log := s.log ++ [e] }

def wake (w : Waker) (s : SharedReader) : SharedReader := s.emit (.wake w)

def setState (st : SharedReaderState) (s : SharedReader) : SharedReader := { s with state := st }

def setEntry (id : ℕ) (e : ReaderEntry) (s : SharedReader) : SharedReader :=
  { s with entries := Function.update s.entries id e }

def consume (bs : List UInt8) (s : SharedReader) : SharedReader :=
  { s with consumed := s.consumed ++ bs }

/-- The stream is not ready and keeps the caller's waker, in place of any other. -/
def park (cx : Waker) (s : SharedReader) : SharedReader :=
  { s with tcp := some cx, log := s.log ++ [.tcpPending cx] }

/-- `socket_map.get(&addr).and_then(Weak::upgrade)`. -/
def upgrade (addr : SocketAddr) (s : SharedReader) : Option ℕ :=
  (s.socketMap addr).filter fun id => (s.entries id).handle ≠ .dropped

def wakeReceiver (s : SharedReader) : SharedReader :=
  match s.receivers with
  | [] => s
  | (_, w) :: rest => wake w { s with receivers := rest }

theorem allocated_insert (s : SharedReader) (socket a : SocketAddr) (id : ℕ)
    (h : Function.update s.socketMap socket (some s.next) a = some id) : id < s.next + 1 := by
  by_cases ha : a = socket
  · subst ha
    simp at h
    omega
  · rw [Function.update_of_ne ha] at h
    have := s.allocated a id h
    omega

theorem distinct_insert (s : SharedReader) (socket a b : SocketAddr) (id : ℕ)
    (ha : Function.update s.socketMap socket (some s.next) a = some id)
    (hb : Function.update s.socketMap socket (some s.next) b = some id) : a = b := by
  have hlt : ∀ x, s.socketMap x ≠ some s.next := fun x hx => absurd (s.allocated x _ hx) (by omega)
  by_cases hax : a = socket <;> by_cases hbx : b = socket
  · rw [hax, hbx]
  · simp only [hax, Function.update_self, Option.some.injEq, Function.update_of_ne hbx] at ha hb
    exact absurd (ha ▸ hb) (hlt b)
  · simp only [hbx, Function.update_self, Option.some.injEq, Function.update_of_ne hax] at ha hb
    exact absurd (hb ▸ ha) (hlt a)
  · rw [Function.update_of_ne hax] at ha
    rw [Function.update_of_ne hbx] at hb
    exact s.distinct a b id ha hb

theorem of_update_none {s : SharedReader} {socket a : SocketAddr} {id : ℕ}
    (h : Function.update s.socketMap socket none a = some id) : s.socketMap a = some id := by
  by_cases ha : a = socket
  · simp [ha] at h
  · rwa [Function.update_of_ne ha] at h

theorem allocated_remove (s : SharedReader) (socket a : SocketAddr) (id : ℕ)
    (h : Function.update s.socketMap socket none a = some id) : id < s.next :=
  s.allocated a id (of_update_none h)

theorem distinct_remove (s : SharedReader) (socket a b : SocketAddr) (id : ℕ)
    (ha : Function.update s.socketMap socket none a = some id)
    (hb : Function.update s.socketMap socket none b = some id) : a = b :=
  s.distinct a b id (of_update_none ha) (of_update_none hb)

def add (socket : SocketAddr) (cx : Waker) (handle : Handle) (s : SharedReader) : SharedReader :=
  { s with
    entries := Function.update s.entries s.next (.new cx handle)
    next := s.next + 1
    socketMap := Function.update s.socketMap socket (some s.next)
    allocated := s.allocated_insert socket
    distinct := s.distinct_insert socket }

def insert (socket : SocketAddr) (cx : Waker) (handle : Handle) (alloc : Bool) (s : SharedReader) :
    Except IoError ℕ × SharedReader :=
  match s.socketMap socket with
  | some _ => (.error ⟨.addrInUse, "duplicate socket entry"⟩, s)
  | none =>
    if alloc then (.ok s.next, s.add socket cx handle)
    else (.error ⟨.outOfMemory, "failed to allocate read buffer"⟩, s)

/-- The weak reference to an entry is taken out of the map and dropped. -/
def unlink (socket : SocketAddr) (id : ℕ) (s : SharedReader) : SharedReader :=
  { s with
    entries := Function.update s.entries id { s.entries id with weak := (s.entries id).weak - 1 }
    socketMap := Function.update s.socketMap socket none
    allocated := s.allocated_remove socket
    distinct := s.distinct_remove socket
    log := s.log ++ [.closed socket id] }

/-- The reader is woken when the weak reference is gone. -/
def remove (socket : SocketAddr) (s : SharedReader) : SharedReader :=
  match s.socketMap socket with
  | none => s
  | some id =>
    let e := s.entries id
    if e.handle = .dropped then s.unlink socket id
    else (s.unlink socket id).wake e.readerPipeWaker

def error (kind : ErrorKind) (message : String) (s : SharedReader) :
    Poll (Except IoError Unit) × SharedReader :=
  (.ready (.error ⟨kind, message⟩), s.setState .error)

/-- The end of `poll_read`, once `amount` bytes of the payload are read. -/
def finishRead (owner : SocketAddr) (left amount : ℕ) (s : SharedReader) :
    Poll (Except IoError Unit) × SharedReader :=
  if amount = 0 then s.error .unexpectedEof s!"expected {left} more bytes"
  else if amount < 65536 ∧ amount ≤ left then
    if left - amount = 0 then (.ready (.ok ()), s.setState (.nextPacket []))
    else (.ready (.ok ()), s.setState (.read owner (left - amount)))
  else s.error .other "read more bytes than in provided buffer"

def got (b : ReadBuffer) : Poll (Except IoError (List UInt8)) → List UInt8
  | .ready (.ok bs) => bs.take b.room
  | _ => []

def deliver (id : ℕ) (b : ReadBuffer) (bs : List UInt8) (s : SharedReader) : SharedReader :=
  (s.consume bs).setEntry id { s.entries id with buffer := b }

def pollRead (cx : Waker) (t : Tick) (owner : SocketAddr) (left : ℕ) (s : SharedReader) :
    Poll (Except IoError Unit) × SharedReader :=
  match s.upgrade owner with
  | none =>
    -- nobody reads the payload, it goes to a scratch buffer
    match t.read with
    | .pending => (.pending, s.park cx)
    | .ready (.error e) => (.ready (.error e), s)
    | .ready (.ok bs) => (s.consume bs).finishRead owner left bs.length
  | some id =>
    let e := s.entries id
    match e.buffer.fillBuffer t.read with
    | (.pending, _) => (.pending, s.park cx)
    | (.ready (.error err), _) => (.ready (.error err), s)
    | (.ready (.ok none), _) =>
      (.pending,
        ((s.wake e.readerPipeWaker).setEntry id { e with waitingWaker := cx }).emit (.full id cx))
    | (.ready (.ok (some amount)), b) =>
      ((s.deliver id b (got e.buffer t.read)).wake e.readerPipeWaker).finishRead owner left amount

def takeHeader (cx : Waker) (t : Tick) (header : MuxFrameHeader) (s : SharedReader) :
    Poll (Except IoError Unit) × SharedReader :=
  if header.len ≠ 0 then (.ready (.ok ()), s.setState (.read header.addr header.len))
  else if (s.socketMap header.addr).isSome then
    (.ready (.ok ()), (s.remove header.addr).setState (.nextPacket []))
  else if s.connected then
    match s.insert header.addr cx .queued t.alloc with
    | (.error e, s') => (.ready (.error e), s')
    | (.ok id, s') =>
      (.ready (.ok ()), (s'.setState (.sendSocket header.addr id false)).emit (.opened header.addr id))
  else (.ready (.ok ()), s.setState (.nextPacket []))

/-- The count is a `u8`; in the first branch nobody is told to wake the caller. -/
def pollNextPacket (cx : Waker) (t : Tick) (header : List UInt8) (s : SharedReader) :
    Poll (Except IoError Unit) × SharedReader :=
  match t.read with
  | .pending => (.pending, s.park cx)
  | .ready (.error e) => (.ready (.error e), s)
  | .ready (.ok bs) =>
    let s := s.consume bs
    if bs.length = 0 then s.error .unexpectedEof "eof on header read"
    else
      let newFilled := (header.length + bs.length % 256) % 256
      match compare newFilled MuxFrameHeader.size with
      | .lt => (.pending, s.setState (.nextPacket ((header ++ bs).take newFilled)))
      | .eq => s.takeHeader cx t (.assumeInit ((header ++ bs).take 20))
      | .gt => s.error .other "reader read more bytes than were provided"

def offer (addr : SocketAddr) (id : ℕ) (s : SharedReader) : SharedReader :=
  wakeReceiver { s with chan := s.chan ++ [(addr, id)] }

/-- Polling the send future: its first poll puts the new socket into the channel, unless
the listener is gone. -/
def pollSend (cx : Waker) (t : Tick) (addr : SocketAddr) (id : ℕ) (polled : Bool) (s : SharedReader) :
    Poll (Except IoError Unit) × SharedReader :=
  if s.connected then
    let s := if polled then s else s.offer addr id
    match t.send with
    | .pending => (.pending, (s.setState (.sendSocket addr id true)).emit (.sendPending cx))
    | .ready () => (.ready (.ok ()), s.setState (.nextPacket []))
  else
    let e := s.entries id
    let s := if e.handle = .queued then s.setEntry id { e with handle := .dropped } else s
    (.ready (.ok ()), s.setState (.nextPacket []))

def pollOnce (cx : Waker) (t : Tick) (s : SharedReader) : Poll (Except IoError Unit) × SharedReader :=
  match s.state with
  | .read owner left => s.pollRead cx t owner left
  | .nextPacket header => s.pollNextPacket cx t header
  | .sendSocket addr id polled => s.pollSend cx t addr id polled
  | .error => (.ready (.error ⟨.brokenPipe, "socket hit fatal error"⟩), s)

/-- The call of `poll` that ends with the last of these answers. -/
def poll (cx : Waker) : List Tick → SharedReader → Option (Poll (Except IoError Empty) × SharedReader)
  | [], _ => none
  | t :: ts, s =>
    match s.pollOnce cx t with
    | (.pending, s') => if ts = [] then some (.pending, s') else none
    | (.ready (.error e), s') => if ts = [] then some (.ready (.error e), s') else none
    | (.ready (.ok ()), s') =>
      match t.coop with
      | .pending => if ts = [] then some (.pending, s'.emit (.coopPending cx)) else none
      | .ready () => poll cx ts s'

/-- The part of `ReaderInner::poll_read` that needs its own entry only: the result, if
there is one without polling the shared reader. -/
def readEntry (cx : Waker) (id n : ℕ) (s : SharedReader) : Option (List UInt8) × SharedReader :=
  let e := s.entries id
  let (bs, b) := e.buffer.read n
  if n = 0 then (some [], s)
  else if bs ≠ [] then
    (some bs, (s.setEntry id { e with buffer := b, taken := e.taken ++ bs }).wake e.waitingWaker)
  else if e.weak = 0 then (some [], s.emit (.eof id))
  else (none, s.setEntry id { e with readerPipeWaker := cx })

def readerPollRead (cx : Waker) (id n : ℕ) (ts : List Tick) (s : SharedReader) :
    Option (Poll (Except IoError (List UInt8)) × SharedReader) :=
  match s.readEntry cx id n with
  | (some bs, s') => if ts = [] then some (.ready (.ok bs), s') else none
  | (none, s') =>
    match s'.poll cx ts with
    | none => none
    | some (.pending, s'') => some (.pending, s'')
    | some (.ready (.error e), s'') => some (.ready (.error e), s'')

/-- Dropping the `ReaderInner` of an entry. Nobody is told. -/
def release (id : ℕ) (s : SharedReader) : SharedReader :=
  s.setEntry id { s.entries id with handle := .dropped }

/-- The receive future `a` ends. If it was woken for an item that is still there, the next
one in line is woken. -/
def dropReceiver (a : ℕ) (hooked : Bool) (s : SharedReader) : SharedReader :=
  if a ∈ s.receivers.map Prod.fst then { s with receivers := s.receivers.filter fun r => r.1 ≠ a }
  else if hooked ∧ s.chan ≠ [] then s.wakeReceiver
  else s

/-- The receive future `a` waits, at the place it already has or at the end. -/
def awaitItem (a : ℕ) (cx : Waker) (s : SharedReader) : SharedReader :=
  if a ∈ s.receivers.map Prod.fst then
    { s with receivers := s.receivers.map fun r => if r.1 = a then (a, cx) else r }
  else { s with receivers := s.receivers ++ [(a, cx)] }

def recvEntry (a : ℕ) (hooked : Bool) (cx : Waker) (s : SharedReader) :
    Option (SocketAddr × ℕ) × SharedReader :=
  match s.chan with
  | [] => (none, s.awaitItem a cx)
  | item :: rest =>
    let e := s.entries item.2
    (some item,
      dropReceiver a hooked (setEntry item.2 { e with handle := e.handle.accept } { s with chan := rest }))

def disconnect (s : SharedReader) : SharedReader := { s with connected := false }

def init (connected : Bool) : SharedReader where
  entries _ := .new .noop .dropped
  next := 0
  socketMap _ := none
  allocated _ _ h := by cases h
  distinct _ _ _ h := by cases h
  state := .nextPacket []
  connected := connected
  chan := []
  receivers := []
  tcp := none
  consumed := []
  log := []

section
variable (s : SharedReader)

@[simp] theorem wakeReceiver_entries : s.wakeReceiver.entries = s.entries := by
  unfold wakeReceiver
  split <;> rfl
@[simp] theorem wakeReceiver_next : s.wakeReceiver.next = s.next := by
  unfold wakeReceiver
  split <;> rfl
@[simp] theorem wakeReceiver_socketMap : s.wakeReceiver.socketMap = s.socketMap := by
  unfold wakeReceiver
  split <;> rfl
@[simp] theorem wakeReceiver_state : s.wakeReceiver.state = s.state := by
  unfold wakeReceiver
  split <;> rfl
@[simp] theorem wakeReceiver_connected : s.wakeReceiver.connected = s.connected := by
  unfold wakeReceiver
  split <;> rfl
@[simp] theorem wakeReceiver_chan : s.wakeReceiver.chan = s.chan := by
  unfold wakeReceiver
  split <;> rfl
@[simp] theorem wakeReceiver_tcp : s.wakeReceiver.tcp = s.tcp := by
  unfold wakeReceiver
  split <;> rfl
@[simp] theorem wakeReceiver_consumed : s.wakeReceiver.consumed = s.consumed := by
  unfold wakeReceiver
  split <;> rfl

end

@[simp] theorem remove_next (addr : SocketAddr) (s : SharedReader) : (s.remove addr).next = s.next := by
  unfold remove
  split
  · rfl
  · dsimp only
    split <;> rfl

theorem remove_socketMap (addr : SocketAddr) (s : SharedReader) :
    (s.remove addr).socketMap = Function.update s.socketMap addr none := by
  unfold remove
  split
  · rename_i hm
    rw [Function.update_eq_self_iff.mpr hm.symm]
  · dsimp only
    split <;> rfl

theorem remove_buffer (addr : SocketAddr) (s : SharedReader) (id : ℕ) :
    ((s.remove addr).entries id).buffer = (s.entries id).buffer ∧
      ((s.remove addr).entries id).handle = (s.entries id).handle := by
  unfold remove
  split
  · exact ⟨rfl, rfl⟩
  · rename_i j _
    dsimp only
    have hu : ((s.unlink addr j).entries id).buffer = (s.entries id).buffer ∧
        ((s.unlink addr j).entries id).handle = (s.entries id).handle := by
      rcases eq_or_ne id j with rfl | hne
      · simp [unlink]
      · simp [unlink, hne]
    split <;> exact hu

theorem unlink_appended (addr : SocketAddr) (j : ℕ) (s : SharedReader) (id : ℕ) :
    ((s.unlink addr j).entries id).appended = (s.entries id).appended := by
  rcases eq_or_ne id j with rfl | hne
  · simp [unlink]
  · simp [unlink, hne]

theorem remove_appended (addr : SocketAddr) (s : SharedReader) (id : ℕ) :
    ((s.remove addr).entries id).appended = (s.entries id).appended := by
  unfold remove
  split
  · rfl
  · rename_i j _
    dsimp only
    split <;> exact s.unlink_appended addr j id

theorem remove_chan (addr : SocketAddr) (s : SharedReader) : (s.remove addr).chan = s.chan := by
  unfold remove
  split
  · rfl
  · dsimp only
    split <;> rfl

@[simp] theorem remove_consumed (a : SocketAddr) (s : SharedReader) :
    (s.remove a).consumed = s.consumed := by
  unfold remove
  split
  · rfl
  · dsimp only
    split <;> rfl

@[simp] theorem remove_connected (a : SocketAddr) (s : SharedReader) :
    (s.remove a).connected = s.connected := by
  unfold remove
  split
  · rfl
  · dsimp only
    split <;> rfl

end SharedReader

end VtMuxer
