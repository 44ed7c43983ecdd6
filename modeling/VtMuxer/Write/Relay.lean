import VtMuxer.Write.Turns
import VtMuxer.Write.Shared

/-! Whatever the connections have done, the lock can be passed on until everybody has had it: with
a socket that takes what it is offered every call ends, and a flush or a shutdown gives back the
lock that it has waited for. -/
namespace VtMuxer
open Interaction

/-- The answers of a mutex that grants its lock and of a socket that takes everything. -/
def obliging : (q : WriteQuery) → WriteResp q
  | .tryLock => true
  | .pollFut => true
  | .awaitLock _ => ()
  | .write bytes => .ready (.ok bytes.length)
  | .awaitWrite bytes => .ok bytes.length
  | .flush => .ready (.ok ())

theorem obliging_answers (q : WriteQuery) : Answers true q (obliging q) := by
  cases q with
  | write bytes => exact ⟨le_refl bytes.length, fun _ => trivial⟩
  | awaitWrite bytes => exact ⟨le_refl bytes.length, fun _ => trivial⟩
  | _ => exact ⟨trivial, fun _ => trivial⟩

/-- Answered so, the program ends as `c` with the result `a` and has put `bytes` on the stream. -/
def Gives {α : Type} (p : Prog WriteQuery WriteResp Conn α) (c : Conn) (a : α) (bytes : List UInt8) : Prop :=
  p.follow obliging = some (c, a) ∧ p.said delivered obliging = bytes

namespace Gives
variable {α β : Type} {p : Prog WriteQuery WriteResp Conn α} {c c' : Conn} {a : α} {bytes more : List UInt8}

theorem ret (c : Conn) (a : α) : Gives (.ret c a) c a [] := ⟨rfl, rfl⟩

theorem of_eq (h : Gives p c a bytes) (he : bytes = more) : Gives p c a more := he ▸ h

theorem ask {q : WriteQuery} {k : WriteResp q → Prog WriteQuery WriteResp Conn α} (h : Gives (k (obliging q)) c a []) :
    Gives (.ask c' q k) c a (delivered q (obliging q)) := by
  refine ⟨h.1, ?_⟩
  rw [Prog.said_ask, h.2, List.append_nil]

theorem bind {f : Conn → α → Prog WriteQuery WriteResp Conn β} {b : β} (h : Gives p c a bytes)
    (hf : Gives (f c a) c' b more) : Gives (p.bind f) c' b (bytes ++ more) := by
  refine ⟨?_, ?_⟩
  · rw [Prog.follow_bind, h.1]
    exact hf.1
  · rw [Prog.said_bind h.1, h.2, hf.2]

theorem bind_nil {f : Conn → α → Prog WriteQuery WriteResp Conn β} {b : β} (h : Gives p c a bytes)
    (hf : Gives (f c a) c' b []) : Gives (p.bind f) c' b bytes := (h.bind hf).of_eq (List.append_nil bytes)

theorem onFault {f : Conn → Conn} (h : Gives p c a bytes) : Gives (p.onFault f) c a bytes := by
  simpa [Gives] using h

end Gives

/-- What a flush has to put on the stream. -/
def Conn.rest (c : Conn) : List UInt8 :=
  if c.inner.buffer.isEmpty then [] else c.inner.buffer.bytes.drop c.inner.state.written

/-- What a shutdown has to put on the stream. -/
def Conn.owed (c : Conn) : List UInt8 :=
  match c.inner.state with
  | .poisoned | .shutdown .done | .shutdown .error => []
  | .shutdown (.writing w) => (frame c.addr []).drop w
  | _ => c.rest ++ frame c.addr []

section
variable {c : Conn}

theorem Conn.rest_nil (h : c.inner.buffer.data = []) : c.rest = [] := by
  rw [Conn.rest, if_pos ((PacketBuffer.isEmpty_iff _).mpr h)]

theorem Conn.rest_cons (h : c.inner.buffer.isEmpty = false) :
    c.rest = c.inner.buffer.bytes.drop c.inner.state.written := by
  simp [Conn.rest, h]

theorem Conn.owed_writing {k : Waker} {st : WriteState} (h : c.inner.state = .writing k st) :
    c.owed = c.rest ++ frame c.addr [] := by
  simp [Conn.owed, h]

theorem gives_flushLoop_end (hg : c.inner.state.guarded = true) (fuel : ℕ) :
    Gives (flushLoop (fuel + 1) (c.setWritten c.frameLen)) (c.setWritten c.frameLen).clear (.ready (.ok ())) [] := by
  have hwr : (c.setWritten c.frameLen).inner.state.written = c.frameLen := WritePipeState.written_setWritten hg _
  have hfrom : c.inner.buffer.bytesFrom? c.frameLen = some [] := by
    refine PacketBuffer.bytesFrom?_eq_some.mpr ⟨le_refl c.frameLen, ?_⟩
    rw [List.drop_of_length_le (by rw [c.length_bytes])]
  simp only [flushLoop, Proc.bind_apply, Proc.get_apply, Prog.bind_ret, hwr, Conn.setWritten_buffer, hfrom]
  exact .ret _ _

theorem Trim.gives_flushBuf (h : Trim true c) (hg : c.inner.state.guarded = true) :
    Gives (flushBuf c) (c.setWritten c.frameLen).clear (.ready (.ok ()))
      (c.inner.buffer.bytes.drop c.inner.state.written) := by
  have hlt : c.inner.state.written < c.frameLen := ((h.stays rfl).out hg).2
  have hfrom : c.inner.buffer.bytesFrom? c.inner.state.written =
      some (c.inner.buffer.bytes.drop c.inner.state.written) := PacketBuffer.bytesFrom?_eq_some.mpr ⟨hlt.le, rfl⟩
  have hlen : (c.inner.buffer.bytes.drop c.inner.state.written).length = c.frameLen - c.inner.state.written := by
    rw [List.length_drop, c.length_bytes]
  obtain ⟨b, bs, hbs⟩ := List.exists_cons_of_length_pos
    (by omega : 0 < (c.inner.buffer.bytes.drop c.inner.state.written).length)
  have htotal : c.inner.state.written + (bs.length + 1) = c.frameLen := by
    rw [hbs, List.length_cons] at hlen
    omega
  have hadd : c.inner.state.add? (bs.length + 1) = some (c.inner.state.setWritten c.frameLen) := by
    have hset := WritePipeState.add?_setWritten hg (w := c.inner.state.written) (n := bs.length + 1)
      (by rw [htotal]; exact h.wide hg)
    rw [htotal, ← Conn.setWritten_state, Conn.setWritten_written] at hset
    exact hset
  obtain ⟨fuel, hfuel⟩ : ∃ fuel, c.inner.buffer.bytes.length = fuel + 1 :=
    ⟨c.frameLen - 1, by rw [c.length_bytes]; omega⟩
  simp only [flushBuf, Proc.bind_apply, Proc.get_apply, Prog.bind_ret, hfuel]
  rw [flushLoop]
  simp only [Proc.bind_apply, Proc.get_apply, Prog.bind_ret, hfrom, hbs, Proc.ask_apply, Prog.bind_ask]
  have hend : Gives (flushLoop (fuel + 1) (c.setWritten c.frameLen)) (c.setWritten c.frameLen).clear (.ready (.ok ())) [] :=
    gives_flushLoop_end hg fuel
  have htake : delivered (.write (b :: bs)) (obliging (.write (b :: bs))) = b :: bs := by simp [delivered, obliging]
  refine Gives.of_eq (.ask ?_) htake
  simp only [obliging, List.length_cons, hadd]
  exact hend

theorem gives_pollLock (c : Conn) : Gives (pollLock c) (c.setFut false) (.ready ()) [] := by
  cases hf : c.inner.fut with
  | true => simp [Gives, pollLock, pollLock.pollFuture, hf, obliging, delivered]
  | false =>
    have hc : c.setFut false = c := by rw [← hf]; rfl
    simp [Gives, pollLock, hf, obliging, delivered, hc]

theorem gives_pollLocked {k : Waker} (hs : c.inner.state = .writing k .buffering) :
    Gives (pollLocked c) ((c.setFut false).setState (.writing k (.flushing 0))) (.ready ()) [] := by
  simp only [pollLocked, Proc.bind_apply, Proc.get_apply, Prog.bind_ret, hs]
  exact (gives_pollLock c).bind (.ret _ _)

theorem gives_flushSocket {k : Waker} {w : ℕ} (hs : c.inner.state = .writing k (.flushing w)) :
    Gives (flushSocket c) (c.setState (.writing k .buffering)) (.ready (.ok ())) [] := by
  simp [Gives, flushSocket, pollLocked, hs, obliging, delivered, Conn.release_eq hs]

theorem Trim.gives_flushFrame (h : Trim true c) {k : Waker} {w : ℕ} (hs : c.inner.state = .writing k (.flushing w)) :
    Gives (flushFrame c) (c.clear.setState (.writing k .buffering)) (.ready (.ok ())) (c.inner.buffer.bytes.drop w) := by
  have hst : (c.setWritten c.frameLen).clear.inner.state = .writing k (.flushing c.frameLen) := by
    simp [hs, WritePipeState.setWritten]
  have he : (c.setWritten c.frameLen).clear.inner.buffer.isEmpty = true := (PacketBuffer.isEmpty_iff _).mpr rfl
  have hbuf := h.gives_flushBuf (by rw [hs]; rfl)
  simp only [flushFrame, Proc.bind_apply]
  refine (hbuf.bind_nil ?_).of_eq (by simp [hs, WritePipeState.written])
  simp only [Proc.bind_apply, Proc.get_apply, Prog.bind_ret, he, if_true]
  exact gives_flushSocket hst

/-- A flush puts the rest of the frame on the stream and gives back the lock, with nothing left in the
buffer. -/
theorem Trim.gives_pollFlush (h : Trim true c) {k : Waker} {st : WriteState} (hs : c.inner.state = .writing k st)
    (cx : Waker) : ∃ c', Gives (pollFlush cx c) c' (.ready (.ok ())) c.rest ∧
      c'.inner.state = .writing cx .buffering ∧ c'.inner.fut = false ∧ c'.inner.buffer.data = [] ∧
      c'.pushed = c.pushed ∧ c'.addr = c.addr := by
  have hw := (Trim.pollRule true).waker (g := ()) cx h hs
  simp only [pollFlush, poisonOnPanic, Proc.bind_apply, Proc.get_apply, Prog.bind_ret, hs, Proc.modify_apply]
  cases he : (c.setState (.writing cx st)).inner.buffer.isEmpty with
  | true =>
    have hd : c.inner.buffer.data = [] := (PacketBuffer.isEmpty_iff _).mp he
    rw [Conn.rest_nil hd]
    simp only [if_true]
    cases st with
    | buffering =>
      refine ⟨(c.setFut false).setState (.writing cx .buffering), .onFault ?_, rfl, rfl, hd, rfl, rfl⟩
      have hlock := gives_pollLocked (c := c.setState (.writing cx .buffering)) rfl
      refine hlock.bind_nil ?_
      simp [Gives, obliging, delivered, Conn.release]
      rfl
    | flushing w =>
      refine ⟨c.setState (.writing cx .buffering), .onFault ?_, rfl, h.fut_eq_false (by rw [hs]; rfl), hd, rfl, rfl⟩
      exact gives_flushSocket (c := c.setState (.writing cx (.flushing w))) rfl
  | false =>
    have hne : c.inner.buffer.isEmpty = false := he
    have hd : c.inner.buffer.data ≠ [] := by
      rw [ne_eq, ← PacketBuffer.isEmpty_iff, hne]
      simp
    rw [Conn.rest_cons hne, hs]
    simp only [Bool.false_eq_true, if_false]
    cases st with
    | buffering =>
      have hl := (Trim.pollRule true).locked (g := ()) hw rfl hd
      refine ⟨(c.setFut false).clear.setState (.writing cx .buffering), .onFault ?_, rfl, rfl, rfl, rfl, rfl⟩
      exact (gives_pollLocked (c := c.setState (.writing cx .buffering)) rfl).bind (hl.gives_flushFrame rfl)
    | flushing w =>
      refine ⟨c.clear.setState (.writing cx .buffering), .onFault ?_, rfl, h.fut_eq_false (by rw [hs]; rfl), rfl, rfl, rfl⟩
      simp only [Proc.bind_apply, pollLocked, Proc.get_apply, Prog.bind_ret, Conn.setState_state, Proc.pure_apply]
      exact hw.gives_flushFrame rfl

/-- The shutdown of a connection is done and nothing more is claimed by it. -/
def Conn.finished (c : Conn) : Prop := c.inner.state = .shutdown .done ∧ c.inner.fut = false

theorem Trim.gives_shutdown_writing (h : Trim true c) {w : ℕ} (hs : c.inner.state = .shutdown (.writing w)) (fuel : ℕ) :
    ∃ c', Gives (shutdownLoop (fuel + 2) c) c' (.ready (.ok ())) ((frame c.addr []).drop w) ∧ c'.finished := by
  have hd : c.inner.buffer.data = [] := h.final _ hs
  have he : c.inner.buffer.isEmpty = true := (PacketBuffer.isEmpty_iff _).mpr hd
  have hbytes : c.inner.buffer.bytes.drop c.inner.state.written = (frame c.addr []).drop w := by
    rw [PacketBuffer.bytes_eq_frame, hd, hs]
    rfl
  refine ⟨(c.setWritten c.frameLen).clear.setState (.shutdown .done), ?_, rfl, h.fut_eq_false (by rw [hs]; rfl)⟩
  rw [shutdownLoop]
  simp only [Proc.bind_apply, Proc.get_apply, Prog.bind_ret, hs, he, if_true, guardedFlush]
  refine ((h.gives_flushBuf (by rw [hs]; rfl)).bind_nil ?_).of_eq hbytes
  simp only [Proc.bind_apply, Proc.modify_apply, Prog.bind_ret]
  exact .ret _ _

theorem Trim.gives_shutdown_flushing (h : Trim true c) {w : ℕ} (hs : c.inner.state = .shutdown (.flushing w))
    (fuel : ℕ) : ∃ c', Gives (shutdownLoop (fuel + 3) c) c' (.ready (.ok ())) (c.rest ++ frame c.addr []) ∧ c'.finished := by
  have hrule := Trim.pollRule true
  rw [shutdownLoop]
  simp only [Proc.bind_apply, Proc.get_apply, Prog.bind_ret, hs]
  cases he : c.inner.buffer.isEmpty with
  | true =>
    have hd := (PacketBuffer.isEmpty_iff _).mp he
    have hp := hrule.pass (g := ()) h hs hd
    rw [Conn.rest_nil hd]
    simp only [if_true, Proc.bind_apply, Proc.modify_apply, Prog.bind_ret]
    exact hp.gives_shutdown_writing rfl fuel
  | false =>
    have hfut := h.fut_eq_false (by rw [hs]; rfl)
    have hcl : Cleared (c.setWritten c.frameLen).clear :=
      ⟨h.task, h.live, hfut, by simp [hs, WritePipeState.setWritten, WritePipeState.guarded], rfl⟩
    have hn := hrule.next (g := ()) (w := c.frameLen) hcl (by simp [hs, WritePipeState.setWritten])
    obtain ⟨c', hgives, hfin⟩ := hn.gives_shutdown_writing rfl fuel
    rw [Conn.rest_cons he]
    simp only [Bool.false_eq_true, if_false, guardedFlush]
    refine ⟨c', (h.gives_flushBuf (by rw [hs]; rfl)).bind ?_, hfin⟩
    simp only [Proc.bind_apply, Proc.modify_apply, Prog.bind_ret]
    exact hgives

theorem Trim.gives_shutdown_waiting (h : Trim true c) (hs : c.inner.state = .shutdown .waitingLock) (fuel : ℕ) :
    ∃ c', Gives (shutdownLoop (fuel + 4) c) c' (.ready (.ok ())) (c.rest ++ frame c.addr []) ∧ c'.finished := by
  have hrule := Trim.pollRule true
  have hlock : ∃ c', Gives (shutdownLoop (fuel + 3) ((c.setFut false).setState (.shutdown (.flushing 0)))) c'
      (.ready (.ok ())) (c.rest ++ frame c.addr []) ∧ c'.finished := by
    by_cases hd : c.inner.buffer.data = []
    · have he : ((c.setFut false).setState (.shutdown (.flushing 0))).inner.buffer.isEmpty = true :=
        (PacketBuffer.isEmpty_iff _).mpr hd
      rw [shutdownLoop, Conn.rest_nil hd]
      simp only [Proc.bind_apply, Proc.get_apply, Prog.bind_ret, Conn.setState_state, he, if_true,
        Proc.modify_apply, Conn.setState_setState]
      exact (hrule.stageEmpty (g := ()) h hs hd).gives_shutdown_writing rfl fuel
    · have hrest : ((c.setFut false).setState (.shutdown (.flushing 0))).rest = c.rest := by
        simp only [Conn.rest, hs]
        rfl
      rw [← hrest]
      exact (hrule.stage (g := ()) h hs hd).gives_shutdown_flushing rfl fuel
  obtain ⟨c', hgives, hfin⟩ := hlock
  rw [shutdownLoop]
  simp only [Proc.bind_apply, Proc.get_apply, Prog.bind_ret, hs]
  refine ⟨c', (gives_pollLock c).bind ?_, hfin⟩
  simp only [Proc.bind_apply, Proc.modify_apply, Prog.bind_ret]
  exact hgives

/-- A shutdown that has begun and not failed is done at once. -/
theorem Trim.gives_shutdownLoop (h : Trim true c) {st : ShutDownState} (hs : c.inner.state = .shutdown st)
    (hne : st ≠ .error) : ∃ c', Gives (shutdownLoop 5 c) c' (.ready (.ok ())) c.owed ∧ c'.finished := by
  simp only [Conn.owed, hs]
  cases st with
  | waitingLock => exact h.gives_shutdown_waiting hs 1
  | flushing w => exact h.gives_shutdown_flushing hs 2
  | writing w => exact h.gives_shutdown_writing hs 3
  | done => exact ⟨c, by simp [Gives, shutdownLoop, hs], hs, h.fut_eq_false (by rw [hs]; rfl)⟩
  | error => exact absurd rfl hne

theorem Trim.gives_pollShutdown (h : Trim true c) (hne : c.inner.state ≠ .shutdown .error) (cx : Waker) :
    ∃ c', Gives (pollShutdown cx c) c' (.ready (.ok ())) c.owed ∧ c'.finished := by
  have hrule := Trim.pollRule true
  simp only [pollShutdown, poisonOnPanic, Proc.bind_apply, Proc.get_apply, Prog.bind_ret]
  rcases hs : c.inner.state with _ | st | ⟨k, _ | w⟩
  · exact absurd hs h.sound
  · have hst : st ≠ .error := by
      rintro rfl
      exact hne hs
    obtain ⟨c', hgives, hfin⟩ := h.gives_shutdownLoop hs hst
    exact ⟨c', hgives.onFault, hfin⟩
  · obtain ⟨c', hgives, hfin⟩ := (hrule.shut (g := ()) h hs).gives_shutdownLoop rfl (by simp)
    have howed : ((c.setState (.shutdown .waitingLock)).wake k).owed = c.owed := by
      simp only [Conn.owed, Conn.rest, hs]
      rfl
    exact ⟨c', (hgives.of_eq howed).onFault, hfin⟩
  · obtain ⟨c', hgives, hfin⟩ := (hrule.shutLocked (g := ()) h hs).gives_shutdownLoop rfl (by simp)
    have howed : ((c.setState (.shutdown (.flushing w))).wake k).owed = c.owed := by
      simp only [Conn.owed, Conn.rest, hs]
      rfl
    exact ⟨c', (hgives.of_eq howed).onFault, hfin⟩

/-- What becomes of a connection that was found as `c₀` with `sent₀` on the stream, when it is only made to
give back the lock: what it still has to send is on the stream or left to be sent. -/
structure Survives (c₀ : Conn) (sent₀ : List UInt8) (c : Conn) (sent : List UInt8) (a : Outcome) : Prop where
  live : a ≠ .dropped
  writing : (∃ k st, c₀.inner.state = .writing k st) → (∃ k st, c.inner.state = .writing k st) ∧
    c.pushed = c₀.pushed ∧ sent ++ c.rest = sent₀ ++ c₀.rest
  sound : c₀.inner.state ≠ .shutdown .error →
    c.inner.state ≠ .shutdown .error ∧ sent ++ c.owed = sent₀ ++ c₀.owed

theorem Survives.refl {a : Outcome} (ha : a ≠ .dropped) (sent : List UInt8) : Survives c sent c sent a :=
  ⟨ha, fun h => ⟨h, rfl, rfl⟩, fun h => ⟨h, rfl⟩⟩

theorem Gives.flush {cx : Waker} {c' : Conn} {r : Poll (Except IoError Unit)} {bytes : List UInt8}
    (h : Gives (pollFlush cx c) c' r bytes) : Gives ((WriteOp.flush cx).body c) c' (.flush r) bytes :=
  h.bind_nil (.ret c' (Outcome.flush r))

theorem Gives.shutdown {cx : Waker} {c' : Conn} {r : Poll (Except IoError Unit)} {bytes : List UInt8}
    (h : Gives (pollShutdown cx c) c' r bytes) : Gives ((WriteOp.shutdown cx).body c) c' (.shutdown r) bytes :=
  h.bind_nil (.ret c' (Outcome.shutdown r))

/-- Every call ends, and leaves what the contract says. -/
theorem Turned.follow_body {a : Outcome} {g : Bool} (h : Turned c a g) {op : WriteOp} (hm : a.may op) :
    ∃ c' a' g', (op.body c).follow obliging = some (c', a') ∧ Turned c' a' g' :=
  Prog.follow_of_wp (fun _ q => obliging_answers q) (fun _ _ hf => hf) (h.wp_body hm)

theorem Turned.of_gives {a a' : Outcome} {g : Bool} (h : Turned c a g) {op : WriteOp} (hm : a.may op) {c' : Conn}
    {bytes : List UInt8} (hg : Gives (op.body c) c' a' bytes) : ∃ g', Turned c' a' g' := by
  obtain ⟨c'', a'', g', hf, hturned⟩ := h.follow_body hm
  rw [hg.1, Option.some.injEq, Prod.mk.injEq] at hf
  obtain ⟨rfl, rfl⟩ := hf
  exact ⟨g', hturned⟩

theorem Trim.claims_eq_false (h : Trim true c) (hf : c.inner.fut = false) (hg : c.inner.state.guarded = false) :
    writeLock.claims c = false := by
  simp [writeLock, Conn.holds, h.task, hf, hg]

theorem Outcome.may_of_ne {a : Outcome} (ha : a ≠ .dropped) {op : WriteOp} (hop : op ≠ .handshake) : a.may op := by
  cases a with
  | dropped => exact absurd rfl ha
  | new => trivial
  | _ => exact hop

theorem Survives.flush {c₀ c' : Conn} {sent₀ sent : List UInt8} {a : Outcome} {k cx : Waker} {st : WriteState}
    (h : Survives c₀ sent₀ c sent a) (hs : c.inner.state = .writing k st) (hs' : c'.inner.state = .writing cx .buffering)
    (hd : c'.inner.buffer.data = []) (hp : c'.pushed = c.pushed) (ha : c'.addr = c.addr) :
    Survives c₀ sent₀ c' (sent ++ c.rest) (.flush (.ready (.ok ()))) := by
  refine ⟨by simp, fun hw => ⟨⟨_, _, hs'⟩, hp.trans (h.writing hw).2.1, ?_⟩, fun hne => ⟨by simp [hs'], ?_⟩⟩
  · rw [Conn.rest_nil hd, List.append_nil, (h.writing hw).2.2]
  · rw [Conn.owed_writing hs', Conn.rest_nil hd, ha, List.nil_append, List.append_assoc, ← Conn.owed_writing hs]
    exact (h.sound hne).2

theorem Survives.shutdown {c₀ c' : Conn} {sent₀ sent : List UInt8} {a : Outcome} {st : ShutDownState}
    (h : Survives c₀ sent₀ c sent a) (hs : c.inner.state = .shutdown st) (hfin : c'.finished) :
    Survives c₀ sent₀ c' (sent ++ c.owed) (.shutdown (.ready (.ok ()))) := by
  refine ⟨by simp, fun hw => ?_, fun hne => ⟨by simp [hfin.1], ?_⟩⟩
  · obtain ⟨⟨k, st', hwr⟩, -⟩ := h.writing hw
    rw [hs] at hwr
    cases hwr
  · rw [(h.sound hne).2]
    simp [Conn.owed, hfin.1]

/-- A connection that has a claim between its calls can be made to give it back. -/
theorem Turned.serve {a : Outcome} {g : Bool} (h : Turned c a g) (hclaim : writeLock.claims c = true) :
    ∃ op c' a' bytes, (op = .flush .noop ∨ op = .shutdown .noop) ∧ a.may op ∧ Gives (op.body c) c' a' bytes ∧
      (∃ g', Turned c' a' g') ∧ writeLock.claims c' = false ∧
      ∀ c₀ sent₀ sent, Survives c₀ sent₀ c sent a → Survives c₀ sent₀ c' (sent ++ bytes) a' := by
  have ha : a ≠ .dropped := by
    rintro rfl
    have hbare : Bare c ∧ c.task = none := h.1
    simp [writeLock, hbare.1.fut, hbare.1.not_holds hbare.2] at hclaim
  have ht : Trim true c := h.1.trim ha
  have hmay : ∀ op : WriteOp, op ≠ .handshake → a.may op := fun _ => Outcome.may_of_ne ha
  rcases hs : c.inner.state with _ | st | ⟨k, st⟩
  · exact absurd hs ht.sound
  · have hne : c.inner.state ≠ .shutdown .error := by
      intro he
      rw [ht.claims_eq_false (ht.fut_eq_false (by rw [he]; rfl)) (by rw [he]; rfl)] at hclaim
      cases hclaim
    obtain ⟨c', hgives, hfin⟩ := ht.gives_pollShutdown hne .noop
    obtain ⟨g', hturned⟩ := h.of_gives (hmay (.shutdown .noop) (by simp)) hgives.shutdown
    have ht' : Trim true c' := hturned.1
    exact ⟨_, c', _, _, Or.inr rfl, hmay (.shutdown .noop) (by simp), hgives.shutdown, ⟨g', hturned⟩,
      ht'.claims_eq_false hfin.2 (by rw [hfin.1]; rfl), fun c₀ sent₀ sent hc => hc.shutdown hs hfin⟩
  · obtain ⟨c', hgives, hst, hfut, hdata, hpushed, haddr⟩ := ht.gives_pollFlush hs .noop
    obtain ⟨g', hturned⟩ := h.of_gives (hmay (.flush .noop) (by simp)) hgives.flush
    have ht' : Trim true c' := hturned.1
    exact ⟨_, c', _, _, Or.inl rfl, hmay (.flush .noop) (by simp), hgives.flush, ⟨g', hturned⟩,
      ht'.claims_eq_false hfut (by rw [hst]; rfl), fun c₀ sent₀ sent hc => hc.flush hs hst hdata hpushed haddr⟩

end

/-- The bytes of each connection on the stream that all of them write to. -/
def onWire {ι : Type} [DecidableEq ι] (M : Machine ι WriteQuery WriteResp Conn Outcome WriteOp (List (Mark ι)))
    (h : ∀ w i c q r, M.emit w i c q r = w ++ stamp i c.origin (delivered q r)) : M.Output UInt8 where
  out := delivered
  of := bytesOf
  own w i c q r := by rw [h, bytesOf_append, bytesOf_stamp]
  other w i j c q r hne := by rw [h, bytesOf_append, bytesOf_stamp_ne hne, List.append_nil]

section
variable {ι : Type} [DecidableEq ι] {sockets : ι → SocketAddr} {S : Turns ι} {i : ι}

def Turns.sent (ι : Type) [DecidableEq ι] : (turns ι).Output UInt8 := onWire (turns ι) fun _ _ _ _ _ => rfl

/-- The connections serve the queue, and what survives a service can be followed. -/
theorem turns_serve {Fate : ι → List UInt8 → Conn → Outcome → Prop}
    (hfate : ∀ j sent c a bytes c' a', (∀ c₀ sent₀, Survives c₀ sent₀ c sent a → Survives c₀ sent₀ c' (sent ++ bytes) a') →
      Fate j sent c a → Fate j (sent ++ bytes) c' a') :
    Machine.Serves (Turns.sent ι) writeLock obliging Orderly
      (fun j sent c a => (∃ g, Turned c a g) ∧ Fate j sent c a) where
  allow _ _ q := obliging_answers q
  keeps h hm := h.move hm
  claims h hi hret := by
    rcases h.claimed _ hi with hclaim | ⟨c, b, k, hask⟩
    · simpa [Pool.mems, hret, Prog.mem] using hclaim
    · rw [hret] at hask
      cases hask
  serve := by
    rintro j sent c a ⟨⟨g, hturned⟩, hf⟩ hclaim
    obtain ⟨op, c', a', bytes, -, hmay, ⟨hfollow, rfl⟩, hturned', hnone, hsurv⟩ := hturned.serve hclaim
    exact ⟨op, c', a', hmay, hfollow, ⟨hturned', hfate _ _ _ _ _ _ _ (fun c₀ sent₀ => hsurv c₀ sent₀ sent) hf⟩, hnone⟩

/-- Where every connection is going when mutex and socket oblige. -/
theorem Orderly.bound (h : Orderly S) {Fate : ι → List UInt8 → Conn → Outcome → Prop}
    (hfate : ∀ j c a, (S.pool.threads j).follow obliging = some (c, a) → Fate j ((Turns.sent ι).due obliging S j) c a) :
    Machine.Bound (Turns.sent ι) obliging (fun j sent c a => (∃ g, Turned c a g) ∧ Fate j sent c a) S := by
  intro j
  obtain ⟨g, hwp⟩ := h.wp j
  obtain ⟨c, a, g', hf, hturned⟩ := Prog.follow_of_wp (fun _ q => obliging_answers q) (fun _ _ hf => hf) hwp
  exact ⟨c, a, hf, ⟨g', hturned⟩, hfate j c a hf⟩

/-- A connection that has returned as `c₀` can be brought to a call that has the lock at its
disposal. -/
theorem Orderly.calls (h : Orderly S) (post : Conn → Outcome → List UInt8 → Prop) {c₀ : Conn} {a₀ : Outcome}
    (hi : S.pool.threads i = .ret c₀ a₀) (ha : a₀ ≠ .dropped) {op : WriteOp} (hop : op ≠ .handshake)
    (hcall : ∀ c a sent, Survives c₀ (bytesOf i S.pool.world) c sent a → Trim true c →
      ∃ c' a' bytes, Gives (op.body c) c' a' bytes ∧ post c' a' (sent ++ bytes)) :
    ∃ S' c' a', (turns ι).Plays writeLock (fun _ => True) S S' ∧ S'.pool.threads i = .ret c' a' ∧
      post c' a' (bytesOf i S'.pool.world) := by
  have hserves : Machine.Serves (Turns.sent ι) writeLock obliging Orderly
      (fun j sent c a => (∃ g, Turned c a g) ∧ (j = i → Survives c₀ (bytesOf i S.pool.world) c sent a)) :=
    turns_serve fun j sent c a bytes c' a' hsurv hf hj => hsurv c₀ _ (hf hj)
  have hbound : Machine.Bound (Turns.sent ι) obliging
      (fun j sent c a => (∃ g, Turned c a g) ∧ (j = i → Survives c₀ (bytesOf i S.pool.world) c sent a)) S := by
    apply h.bound
    rintro j c a hf rfl
    rw [hi] at hf
    cases hf
    rw [Machine.Output.due_ret hi]
    exact .refl ha _
  obtain ⟨S₁, c, a, hplay, -, hret, ⟨⟨g, hturned⟩, hsurv⟩, ho⟩ := hserves.ends h hbound i
  obtain ⟨c', a', bytes, ⟨hf, hsaid⟩, hpost⟩ := hcall c a _ (hsurv rfl) (hturned.1.trim (hsurv rfl).live)
  have hmay : a.may op := Outcome.may_of_ne (hsurv rfl).live hop
  have hbody : ((turns ι).body op c).follow obliging = some (c', a') := hf
  obtain ⟨S₂, hplay', -, hdue, hend⟩ := Machine.exists_call (K := writeLock) (Turns.sent ι)
    (fun _ q => obliging_answers q) hret hmay hbody ho
  rcases hend with ⟨hret', -⟩ | ⟨hne, -⟩
  · refine ⟨S₂, c', a', hplay.trans (hplay'.mono fun _ _ => trivial), hret', ?_⟩
    rw [Machine.Output.due_ret hret'] at hdue
    have hsent : bytesOf i S₂.pool.world = bytesOf i S₁.pool.world ++ bytes := hdue.trans (congrArg _ hsaid)
    rw [hsent]
    exact hpost
  · exact absurd rfl hne

/-- From everywhere the connections can go on until nobody claims the lock and until any call is
over; and then a flush can be done, with the rest of what was taken in on the stream, a shutdown that
has not failed can be done, with the final frame on the stream as well, and a drop can have ended its
task. -/
theorem every_claim_served (h : (turns ι).Plays writeLock (fun _ => True) (Turns.init sockets) S) :
    (∃ S', (turns ι).Plays writeLock (fun _ => True) S S' ∧ S'.order = []) ∧
    (∀ i, ∃ S' c a, (turns ι).Plays writeLock (fun _ => True) S S' ∧ S'.pool.threads i = .ret c a) ∧
    ∀ i c a, S.pool.threads i = .ret c a → a ≠ .dropped →
      ((∃ k st, c.inner.state = .writing k st) → ∃ S' c', (turns ι).Plays writeLock (fun _ => True) S S' ∧
        S'.pool.threads i = .ret c' (.flush (.ready (.ok ()))) ∧ c'.inner.buffer.data = [] ∧ c'.pushed = c.pushed ∧
        bytesOf i S'.pool.world = bytesOf i S.pool.world ++ c.rest) ∧
      (c.inner.state ≠ .shutdown .error → ∃ S' c', (turns ι).Plays writeLock (fun _ => True) S S' ∧
        S'.pool.threads i = .ret c' (.shutdown (.ready (.ok ()))) ∧
        bytesOf i S'.pool.world = bytesOf i S.pool.world ++ c.owed) ∧
      ∃ S' c', (turns ι).Plays writeLock (fun _ => True) S S' ∧ S'.pool.threads i = .ret c' .dropped := by
  have hS : Orderly S := (Orderly.init sockets).plays h
  have hserves : Machine.Serves (Turns.sent ι) writeLock obliging Orderly
      (fun _ _ c a => (∃ g, Turned c a g) ∧ True) := turns_serve fun _ _ _ _ _ _ _ _ _ => trivial
  have hbound : Machine.Bound (Turns.sent ι) obliging (fun _ _ c a => (∃ g, Turned c a g) ∧ True) S :=
    hS.bound fun _ _ _ _ => trivial
  refine ⟨?_, fun i => ?_, fun i c a hi ha => ⟨fun hw => ?_, fun hne => ?_, ?_⟩⟩
  · obtain ⟨S', hplay, -, -, ho⟩ := hserves.empties S.order rfl hS hbound
    exact ⟨S', hplay, ho⟩
  · obtain ⟨S', c, a, hplay, -, hret, -⟩ := hserves.ends hS hbound i
    exact ⟨S', c, a, hplay, hret⟩
  · have hcall : ∀ c₁ a₁ sent, Survives c (bytesOf i S.pool.world) c₁ sent a₁ → Trim true c₁ →
        ∃ c' a' bytes, Gives ((WriteOp.flush .noop).body c₁) c' a' bytes ∧
          (a' = .flush (.ready (.ok ())) ∧ c'.inner.buffer.data = [] ∧ c'.pushed = c.pushed ∧
            sent ++ bytes = bytesOf i S.pool.world ++ c.rest) := by
      intro c₁ a₁ sent hsurv ht
      obtain ⟨⟨k, st, hs⟩, hpushed, hsent⟩ := hsurv.writing hw
      obtain ⟨c', hgives, -, -, hdata, hp, -⟩ := ht.gives_pollFlush hs .noop
      exact ⟨c', _, _, hgives.flush, rfl, hdata, hp.trans hpushed, hsent⟩
    obtain ⟨S', c', a', hplay, hret, rfl, hflushed⟩ := hS.calls (fun c' a' sent => a' = .flush (.ready (.ok ())) ∧
      c'.inner.buffer.data = [] ∧ c'.pushed = c.pushed ∧ sent = bytesOf i S.pool.world ++ c.rest) hi ha (by simp) hcall
    exact ⟨S', c', hplay, hret, hflushed⟩
  · have hcall : ∀ c₁ a₁ sent, Survives c (bytesOf i S.pool.world) c₁ sent a₁ → Trim true c₁ →
        ∃ c' a' bytes, Gives ((WriteOp.shutdown .noop).body c₁) c' a' bytes ∧
          (a' = .shutdown (.ready (.ok ())) ∧ sent ++ bytes = bytesOf i S.pool.world ++ c.owed) := by
      intro c₁ a₁ sent hsurv ht
      obtain ⟨hsound, hsent⟩ := hsurv.sound hne
      obtain ⟨c', hgives, -⟩ := ht.gives_pollShutdown hsound .noop
      exact ⟨c', _, _, hgives.shutdown, rfl, hsent⟩
    obtain ⟨S', c', a', hplay, hret, rfl, hsent⟩ := hS.calls (fun _ a' sent => a' = .shutdown (.ready (.ok ())) ∧
      sent = bytesOf i S.pool.world ++ c.owed) hi ha (by simp) hcall
    exact ⟨S', c', hplay, hret, hsent⟩
  · have hcall : ∀ c₁ a₁ sent, Survives c (bytesOf i S.pool.world) c₁ sent a₁ → Trim true c₁ →
        ∃ c' a' bytes, Gives (WriteOp.drop.body c₁) c' a' bytes ∧ a' = .dropped := by
      intro c₁ a₁ _ _ ht
      obtain ⟨c', u, -, hf, -⟩ := Prog.follow_of_wp (fun _ q => obliging_answers q) (fun _ _ hf => hf)
        (ht.turns_drop (g := c₁.holds) id)
      exact ⟨c', .dropped, _, ⟨by simp [WriteOp.body, hf], rfl⟩, rfl⟩
    obtain ⟨S', c', a', hplay, hret, rfl⟩ := hS.calls (fun _ a' _ => a' = .dropped) hi ha (by simp) hcall
    exact ⟨S', c', hplay, hret⟩

end

/-- The handshake of one connection has five bytes out and a flush of another one, which has taken in a
byte, waits for the lock. -/
theorem every_claim_served_flush :
    ∃ (S S' : Turns Bool) (c' : Conn),
      (turns Bool).Plays writeLock (fun _ => True) (Turns.init fun _ => .unspecified) S ∧ S.order = [false, true] ∧
      (turns Bool).Plays writeLock (fun _ => True) S S' ∧ S'.pool.threads true = .ret c' (.flush (.ready (.ok ()))) ∧
      bytesOf true S.pool.world = [] ∧ bytesOf true S'.pool.world = frame .unspecified [7] := by
  have hrun : ∃ S c, (turns Bool).Plays writeLock (fun _ => True) (Turns.init fun _ => .unspecified) S ∧
      S.order = [false, true] ∧ S.pool.threads true = .ret c (.flush .pending) ∧
      c.inner.state = .writing .noop .buffering ∧ bytesOf true S.pool.world = [] ∧
      c.rest = frame .unspecified [7] :=
    ⟨_, _, .call false .handshake trivial rfl trivial <|
      .answer false ⟨.awaitLock false, ()⟩ trivial rfl ⟨trivial, fun _ => trivial⟩ (fun _ => Or.inl rfl) <|
      .answer false ⟨.awaitWrite (frame .unspecified []), .ok 5⟩ trivial rfl
        ⟨Nat.le_of_ble_eq_true rfl, fun _ => trivial⟩ nofun <|
      .call true (.write .noop [7]) trivial rfl trivial <|
      .call true (.flush .noop) trivial rfl nofun <|
      .answer true ⟨.tryLock, false⟩ trivial rfl ⟨trivial, fun _ => trivial⟩ nofun <|
      .answer true ⟨.pollFut, false⟩ trivial rfl ⟨trivial, fun _ => trivial⟩ nofun .refl, rfl, rfl, rfl, by decide +kernel,
      by decide +kernel⟩
  obtain ⟨S, c, hS, ho, hret, hs, hnone, hrest⟩ := hrun
  obtain ⟨S', c', hplay, hdone, -, -, hsent⟩ := ((every_claim_served hS).2.2 true c _ hret (by simp)).1 ⟨_, _, hs⟩
  exact ⟨S, S', c', hS, ho, hplay, hdone, hnone, by rw [hsent, hnone, hrest, List.nil_append]⟩

end VtMuxer
