import VtMuxer.Async.Basic
import VtMuxer.Interaction.Pool
import VtMuxer.Write.PacketBuffer

/-! The write half of a connection. A call is a program that asks the shared mutex for
its lock and the socket to take bytes; between two answers it runs alone on the memory of
its connection. Loops carry a bound on their iterations, which they never use up. -/
namespace VtMuxer
open Interaction

/-- The guard of the source's variants is implied by the variant. -/
inductive ShutDownState where
  | waitingLock
  | flushing (written : ℕ)
  | writing (written : ℕ)
  | done
  | error
  deriving DecidableEq, Repr

inductive WriteState where
  | buffering
  | flushing (written : ℕ)
  deriving DecidableEq, Repr

inductive WritePipeState where
  | poisoned
  | shutdown (state : ShutDownState)
  | writing (waker : Waker) (state : WriteState)
  deriving DecidableEq, Repr

/-- `fut` is `write_lock.fut.is_some()`: a place in the queue of the mutex. -/
structure WriteInner where
  fut : Bool
  state : WritePipeState
  buffer : PacketBuffer
  deriving DecidableEq, Repr

/-- What bytes are put on the wire for. -/
inductive Origin where
  | handshake
  | data
  | eof
  deriving DecidableEq, Repr

/-- A connection and what its history is judged by. `task` is the guard of an async body
(the handshake or the task spawned by `drop`) with the bytes it has yet to write; `opened`
says that the handshake completed, `pushed` is everything `PacketBuffer::push` accepted,
`woken` the wakers invoked and `last` the state in which `drop` found the connection. -/
structure Conn where
  inner : WriteInner
  task : Option (Origin × List UInt8)
  opened : Bool
  pushed : List UInt8
  woken : List Waker
  last : Option WritePipeState
  deriving DecidableEq, Repr

inductive WriteQuery where
  /-- `try_lock_owned`. -/
  | tryLock
  /-- Polling the future of `lock_owned`. -/
  | pollFut
  /-- Awaiting the mutex, with the future already queued or with a new one. -/
  | awaitLock (queued : Bool)
  /-- `Writer::poll_write`. -/
  | write (bytes : List UInt8)
  /-- The `poll_write` of `write_all`, once it is ready. -/
  | awaitWrite (bytes : List UInt8)
  /-- `Writer::poll_flush`. -/
  | flush
  deriving DecidableEq, Repr

abbrev WriteResp : WriteQuery → Type
  | .tryLock => Bool
  | .pollFut => Bool
  | .awaitLock _ => Unit
  | .write _ => Poll (Except IoError ℕ)
  | .awaitWrite _ => Except IoError ℕ
  | .flush => Poll (Except IoError Unit)

abbrev WriteM := Proc WriteQuery WriteResp Conn

abbrev askTryLock : WriteM Bool := Proc.ask WriteQuery.tryLock
abbrev askPollFut : WriteM Bool := Proc.ask WriteQuery.pollFut
abbrev askAwaitLock (queued : Bool) : WriteM Unit := Proc.ask (WriteQuery.awaitLock queued)
abbrev askWrite (bytes : List UInt8) : WriteM (Poll (Except IoError ℕ)) :=
  Proc.ask (WriteQuery.write bytes)
abbrev askAwaitWrite (bytes : List UInt8) : WriteM (Except IoError ℕ) :=
  Proc.ask (WriteQuery.awaitWrite bytes)
abbrev askFlush : WriteM (Poll (Except IoError Unit)) := Proc.ask WriteQuery.flush

namespace WritePipeState

def guarded : WritePipeState → Bool
  | writing _ (.flushing _) => true
  | shutdown (.flushing _) => true
  | shutdown (.writing _) => true
  | _ => false

/-- `WriteCounter::current_count` of the counter in the state. -/
def written : WritePipeState → ℕ
  | writing _ (.flushing w) => w
  | shutdown (.flushing w) => w
  | shutdown (.writing w) => w
  | _ => 0

/-- `checked_add(amt as uN)` for a counter of `bits` bits. -/
def checkedAdd (bits w amt : ℕ) : Option ℕ :=
  if w + amt % 2 ^ bits < 2 ^ bits then some (w + amt % 2 ^ bits) else none

/-- `WriteCounter::add`: a `u32` for frames, a `u8` for the final header. -/
def add? (amt : ℕ) : WritePipeState → Option WritePipeState
  | writing k (.flushing w) => (checkedAdd 32 w amt).map fun w => writing k (.flushing w)
  | shutdown (.flushing w) => (checkedAdd 32 w amt).map fun w => shutdown (.flushing w)
  | shutdown (.writing w) => (checkedAdd 8 w amt).map fun w => shutdown (.writing w)
  | _ => none

end WritePipeState

namespace Conn

def addr (c : Conn) : SocketAddr := c.inner.buffer.addr

def setState (st : WritePipeState) (c : Conn) : Conn := { c with inner := { c.inner with state := st } }

def setFut (b : Bool) (c : Conn) : Conn := { c with inner := { c.inner with fut := b } }

def clear (c : Conn) : Conn := { c with inner := { c.inner with buffer := c.inner.buffer.clear } }

def setTask (t : Option (Origin × List UInt8)) (c : Conn) : Conn := { c with task := t }

def setOpened (c : Conn) : Conn := { c with opened := true }

def wake (w : Waker) (c : Conn) : Conn := { c with woken := c.woken ++ [w] }

/-- `*write_state = WriteState::Buffering`, which drops the guard. -/
def release (c : Conn) : Conn :=
  match c.inner.state with
  | .writing k _ => c.setState (.writing k .buffering)
  | _ => c

def push (buf : List UInt8) (written : ℕ) (c : Conn) : Conn :=
  { c with
    inner := { c.inner with buffer := (c.inner.buffer.push buf written).2 }
    pushed := c.pushed ++ buf.take (c.inner.buffer.push buf written).1 }

/-- The fields of a `WriteInner` that is gone: with `fut` its place in the queue is given up. -/
def dropFields (c : Conn) : Conn := c.setFut false

/-- `mem::replace(&mut self.state, Poisoned)`. -/
def retire (c : Conn) : Conn :=
  { c with inner := { c.inner with state := .poisoned }, last := some c.inner.state }

def holds (c : Conn) : Bool := c.task.isSome || c.inner.state.guarded

def origin (c : Conn) : Origin :=
  match c.task, c.inner.state with
  | some (o, _), _ => o
  | none, .shutdown (.writing _) => .eof
  | none, _ => .data

def init (socket : SocketAddr) : Conn where
  inner := ⟨false, .writing .noop .buffering, .init socket⟩
  task := none
  opened := false
  pushed := []
  woken := []
  last := none

end Conn

def pollLock : WriteM (Poll Unit) := do
  if (← Proc.get).inner.fut then pollFuture
  else if ← askTryLock then pure (.ready ())
  else
    Proc.modify (Conn.setFut true)
    pollFuture
where
  pollFuture : WriteM (Poll Unit) := do
    if ← askPollFut then
      Proc.modify (Conn.setFut false)
      pure (.ready ())
    else pure .pending

def pollLocked : WriteM (Poll Unit) := do
  match (← Proc.get).inner.state with
  | .writing k .buffering =>
    match ← pollLock with
    | .pending => pure .pending
    | .ready () =>
      Proc.modify (Conn.setState (.writing k (.flushing 0)))
      pure (.ready ())
  | .writing _ (.flushing _) => pure (.ready ())
  | _ => Proc.fault .panic

def flushLoop : ℕ → WriteM (Poll (Except IoError Unit))
  | 0 => Proc.fault .fuel
  | fuel + 1 => do
    let c ← Proc.get
    match c.inner.buffer.bytesFrom? c.inner.state.written with
    | none => Proc.fault .panic
    | some [] =>
      Proc.modify Conn.clear
      pure (.ready (.ok ()))
    | some (b :: bs) =>
      match ← askWrite (b :: bs) with
      | .ready (.ok 0) => pure (.ready (.error ⟨.writeZero, "failed to flush packet buffer"⟩))
      | .ready (.ok (n + 1)) =>
        match c.inner.state.add? (n + 1) with
        | none => Proc.fault .panic
        | some st =>
          Proc.modify (Conn.setState st)
          flushLoop fuel
      | .ready (.error e) => pure (.ready (.error e))
      | .pending => pure .pending

def flushBuf : WriteM (Poll (Except IoError Unit)) := do
  flushLoop ((← Proc.get).inner.buffer.bytes.length + 1)

/-- A panic inside a call poisons the connection. -/
def poisonOnPanic {α : Type} (m : WriteM α) : WriteM α :=
  fun c => (m c).onFault (Conn.setState .poisoned)

/-- The `flush!` of `poll_write`, followed by the rest of the iteration. -/
def flushThen (wrote : ℕ) (rest : WriteM (Poll (Except IoError ℕ))) :
    WriteM (Poll (Except IoError ℕ)) := do
  match ← flushBuf with
  | .ready (.ok ()) =>
    Proc.modify Conn.release
    rest
  | .ready (.error e) =>
    Proc.modify Conn.release
    pure (.ready (.error e))
  | .pending => if wrote ≠ 0 then pure (.ready (.ok wrote)) else pure .pending

/-- The `push!` of `poll_write`: how much of the slice was taken. -/
def pushBuf (buf : List UInt8) (written : ℕ) : WriteM ℕ := do
  let c ← Proc.get
  Proc.modify (Conn.push buf written)
  pure (c.inner.buffer.push buf written).1

def writeLoop : ℕ → List UInt8 → ℕ → WriteM (Poll (Except IoError ℕ))
  | 0, _, _ => Proc.fault .fuel
  | fuel + 1, buf, wrote => do
    if buf = [] then pure (.ready (.ok wrote))
    else
      let c ← Proc.get
      match c.inner.state with
      | .writing _ .buffering =>
        if c.inner.buffer.isFull then
          match ← pollLocked with
          | .pending => pure .pending
          | .ready () =>
            flushThen wrote do
              let n ← pushBuf buf 0
              writeLoop fuel (buf.drop n) (wrote + n)
        else
          let n ← pushBuf buf 0
          writeLoop fuel (buf.drop n) (wrote + n)
      | .writing _ (.flushing written) =>
        if c.inner.buffer.mustFlushFor written then
          flushThen wrote (writeLoop fuel buf wrote)
        else
          let n ← pushBuf buf written
          flushThen (wrote + n) (writeLoop fuel (buf.drop n) (wrote + n))
      | _ => Proc.fault .panic

def pollWrite (cx : Waker) (buf : List UInt8) : WriteM (Poll (Except IoError ℕ)) :=
  poisonOnPanic do
    match (← Proc.get).inner.state with
    | .poisoned => Proc.fault .panic
    | .shutdown _ => pure (.ready (.error (.ofKind .brokenPipe)))
    | .writing _ st =>
      Proc.modify (Conn.setState (.writing cx st))
      writeLoop (2 * buf.length + 2) buf 0

/-- The end of `poll_flush`: the lock is taken once more, if need be, for the socket's flush. -/
def flushSocket : WriteM (Poll (Except IoError Unit)) := do
  match ← pollLocked with
  | .pending => pure .pending
  | .ready () =>
    match ← askFlush with
    | .pending => pure .pending
    | .ready res =>
      Proc.modify Conn.release
      pure (.ready res)

/-- The part of `poll_flush` for a buffer that isn't empty, once the lock is held. -/
def flushFrame : WriteM (Poll (Except IoError Unit)) := do
  match ← flushBuf with
  | .pending => pure .pending
  | .ready (.error e) =>
    Proc.modify Conn.release
    pure (.ready (.error e))
  | .ready (.ok ()) =>
    -- the `debug_assert!` of the source
    if (← Proc.get).inner.buffer.isEmpty then flushSocket else Proc.fault .panic

def pollFlush (cx : Waker) : WriteM (Poll (Except IoError Unit)) :=
  poisonOnPanic do
    match (← Proc.get).inner.state with
    | .poisoned => Proc.fault .panic
    | .shutdown _ => pure (.ready (.error (.ofKind .brokenPipe)))
    | .writing _ st =>
      Proc.modify (Conn.setState (.writing cx st))
      if (← Proc.get).inner.buffer.isEmpty then flushSocket
      else
        match ← pollLocked with
        | .pending => pure .pending
        | .ready () => flushFrame

/-- The `guarded_flush!` of `poll_shutdown`, followed by the rest of the iteration. -/
def guardedFlush (rest : WriteM (Poll (Except IoError Unit))) :
    WriteM (Poll (Except IoError Unit)) := do
  match ← flushBuf with
  | .pending => pure .pending
  | .ready (.error e) =>
    Proc.modify (Conn.setState (.shutdown .error))
    pure (.ready (.error e))
  | .ready (.ok ()) => rest

def shutdownLoop : ℕ → WriteM (Poll (Except IoError Unit))
  | 0 => Proc.fault .fuel
  | fuel + 1 => do
    let c ← Proc.get
    match c.inner.state with
    | .shutdown .waitingLock =>
      match ← pollLock with
      | .pending => pure .pending
      | .ready () =>
        Proc.modify (Conn.setState (.shutdown (.flushing 0)))
        shutdownLoop fuel
    | .shutdown (.flushing _) =>
      if c.inner.buffer.isEmpty then
        Proc.modify (Conn.setState (.shutdown (.writing 0)))
        shutdownLoop fuel
      else
        guardedFlush do
          Proc.modify (Conn.setState (.shutdown (.writing 0)))
          shutdownLoop fuel
    | .shutdown (.writing _) =>
      if c.inner.buffer.isEmpty then
        guardedFlush do
          Proc.modify (Conn.setState (.shutdown .done))
          shutdownLoop fuel
      else Proc.fault .panic
    | .shutdown .done => pure (.ready (.ok ()))
    | .shutdown .error =>
      pure (.ready (.error ⟨.other, "mux connection shutdown previously failed"⟩))
    | _ => Proc.fault .panic

def pollShutdown (_cx : Waker) : WriteM (Poll (Except IoError Unit)) :=
  poisonOnPanic do
    match (← Proc.get).inner.state with
    | .poisoned => Proc.fault .panic
    | .shutdown _ => shutdownLoop 5
    | .writing k .buffering =>
      Proc.modify (Conn.wake k ∘ Conn.setState (.shutdown .waitingLock))
      shutdownLoop 5
    | .writing k (.flushing w) =>
      Proc.modify (Conn.wake k ∘ Conn.setState (.shutdown (.flushing w)))
      shutdownLoop 5

/-- `PollMutex::lock`: the queued future, if there is one, is awaited. -/
def lock : WriteM Unit := do
  let c ← Proc.get
  Proc.modify (Conn.setFut false)
  askAwaitLock c.inner.fut

/-- The loop of `write_all` under the guard of an async body. -/
def writeAllLoop : ℕ → WriteM (Except IoError Unit)
  | 0 => Proc.fault .fuel
  | fuel + 1 => do
    match (← Proc.get).task with
    | none => Proc.fault .panic
    | some (_, []) => pure (.ok ())
    | some (o, b :: bs) =>
      match ← askAwaitWrite (b :: bs) with
      | .error e => pure (.error e)
      | .ok 0 => pure (.error (.ofKind .writeZero))
      | .ok (n + 1) =>
        if n ≤ bs.length then
          Proc.modify (Conn.setTask (some (o, bs.drop n)))
          writeAllLoop fuel
        else Proc.fault .panic

def writeAll (o : Origin) (bytes : List UInt8) : WriteM (Except IoError Unit) := do
  Proc.modify (Conn.setTask (some (o, bytes)))
  writeAllLoop (bytes.length + 1)

def handshake : WriteM (Except IoError Unit) := do
  let c ← Proc.get
  match c.inner.state, c.inner.buffer.isEmpty with
  | .writing _ .buffering, true =>
    lock
    match ← writeAll .handshake c.inner.buffer.bytes with
    | .ok () =>
      Proc.modify (Conn.setOpened ∘ Conn.setTask none)
      pure (.ok ())
    | .error e =>
      Proc.modify (Conn.setTask none)
      pure (.error e)
  | _, _ => Proc.fault .panic

/-- The last lines of the task spawned by `drop`. -/
def sendEof (socket : SocketAddr) : WriteM Unit := do
  let _ ← writeAll .eof (MuxFrameHeader.empty socket).bytes
  Proc.modify (Conn.setTask none)

/-- `Drop for WriteInner` and the task it spawns. -/
def drop : WriteM Unit := do
  let c ← Proc.get
  Proc.modify Conn.retire
  match c.inner.state with
  | .shutdown _ => Proc.modify Conn.dropFields
  | .poisoned => Proc.modify Conn.dropFields
  | .writing _ (.flushing (w + 1)) =>
    match c.inner.buffer.bytesFrom? (w + 1) with
    | none => Proc.fault .panic
    | some rest =>
      Proc.modify Conn.dropFields
      match ← writeAll .data rest with
      | .error _ => Proc.modify (Conn.setTask none)
      | .ok () => sendEof c.addr
  | .writing _ (.flushing 0) =>
    Proc.modify Conn.dropFields
    sendEof c.addr
  | .writing _ .buffering =>
    -- `take_token` has moved the future into the task
    lock
    sendEof c.addr

/-- How the last call on a connection ended. -/
inductive Outcome where
  | new
  | handshake (res : Except IoError Unit)
  | write (res : Poll (Except IoError ℕ))
  | flush (res : Poll (Except IoError Unit))
  | shutdown (res : Poll (Except IoError Unit))
  | dropped

inductive WriteOp where
  | handshake
  | write (cx : Waker) (buf : List UInt8)
  | flush (cx : Waker)
  | shutdown (cx : Waker)
  | drop
  deriving DecidableEq, Repr

def WriteOp.body : WriteOp → WriteM Outcome
  | .handshake => do pure (.handshake (← VtMuxer.handshake))
  | .write cx buf => do pure (.write (← pollWrite cx buf))
  | .flush cx => do pure (.flush (← pollFlush cx))
  | .shutdown cx => do pure (.shutdown (← pollShutdown cx))
  | .drop => do
    VtMuxer.drop
    pure .dropped

/-- A handshake is the first call on a connection, a drop the last. -/
def Outcome.may : Outcome → WriteOp → Prop
  | .dropped, _ => False
  | .new, _ => True
  | _, op => op ≠ .handshake

end VtMuxer
