import VtMuxer.Write.Rules

/-! The poll calls of a connection, for every contract at once: what has to be known of their
single steps, and what follows for whole calls. -/
namespace VtMuxer
open Interaction

def WritePipeState.unlocked : WritePipeState → Bool
  | writing _ .buffering => true
  | shutdown .waitingLock => true
  | _ => false

/-- The results of a poll call that is not over, or that has only buffered. -/
def Outcome.calm : Outcome → Prop
  | .write (.ready (.ok _)) => True
  | .write .pending => True
  | .flush .pending => True
  | .shutdown .pending => True
  | _ => False

theorem WritePipeState.unlocked_of_guarded {st : WritePipeState} (h : st.guarded = true) : st.unlocked = false := by
  unfold guarded at h
  split at h
  · rfl
  · rfl
  · rfl
  · cases h

theorem Conn.not_holds {c : Conn} (ht : c.task = none) (hu : c.inner.state.unlocked = true) : c.holds = false := by
  unfold Conn.holds
  rw [ht, Option.isSome_none, Bool.false_or, Bool.eq_false_iff]
  intro hg
  rw [WritePipeState.unlocked_of_guarded hg] at hu
  cases hu

variable {G : Type}

/-- The rule of `poll_shutdown`. `A` holds between two answers of a call and after it, `H` when
the lock is granted and the guard not yet in the state, `F` when a frame is sent and the buffer
cleared under the guard, and `T` when the socket has failed; `P` is what a call leaves behind. -/
structure ShutdownRule (L : Contract WriteQuery WriteResp Conn G) (A H F T : Conn → G → Prop)
    (P : Conn → Outcome → G → Prop) : Prop where
  lock : ∀ {c g} {post : Conn → Poll Unit → G → Prop}, A c g → c.inner.state.unlocked = true →
    (∀ g', H c g' → post (c.setFut false) (.ready ()) g') →
    (∀ g', A (c.setFut true) g' → post (c.setFut true) .pending g') → (pollLock c).wp L post g
  flush : ∀ {c g} {post : Conn → Poll (Except IoError Unit) → G → Prop}, A c g →
    c.inner.state.guarded = true →
    (∀ w g', A (c.setWritten w) g' → post (c.setWritten w) .pending g') →
    (∀ w e g', T (c.setWritten w) g' → post (c.setWritten w) (.ready (.error e)) g') →
    (∀ g', F (c.setWritten c.frameLen).clear g' → post (c.setWritten c.frameLen).clear (.ready (.ok ())) g') →
    (flushBuf c).wp L post g
  stage : ∀ {c g}, H c g → c.inner.state = .shutdown .waitingLock → c.inner.buffer.data ≠ [] →
    A ((c.setFut false).setState (.shutdown (.flushing 0))) g
  stageEmpty : ∀ {c g}, H c g → c.inner.state = .shutdown .waitingLock → c.inner.buffer.data = [] →
    A ((c.setFut false).setState (.shutdown (.writing 0))) g
  pass : ∀ {c g w}, A c g → c.inner.state = .shutdown (.flushing w) → c.inner.buffer.data = [] →
    A (c.setState (.shutdown (.writing 0))) g
  next : ∀ {c g w}, F c g → c.inner.state = .shutdown (.flushing w) → A (c.setState (.shutdown (.writing 0))) g
  done : ∀ {c g w}, F c g → c.inner.state = .shutdown (.writing w) →
    P (c.setState (.shutdown .done)) (.shutdown (.ready (.ok ()))) g
  final : ∀ {c g w}, A c g → c.inner.state = .shutdown (.writing w) → c.inner.buffer.data = []
  tolerant : ∀ {c e}, L.fault c e → L.fault (c.setState .poisoned) e
  calm : ∀ {c g a}, A c g → a.calm → P c a g
  again : ∀ {c g}, A c g → c.inner.state = .shutdown .done → P c (.shutdown (.ready (.ok ()))) g
  broken : ∀ {c g e}, A c g → c.inner.state = .shutdown .error → P c (.shutdown (.ready (.error e))) g
  failedShut : ∀ {c g e}, T c g → (∃ st, c.inner.state = .shutdown st) →
    P (c.setState (.shutdown .error)) (.shutdown (.ready (.error e))) g

/-- The rule of all poll calls. -/
structure PollRule (L : Contract WriteQuery WriteResp Conn G) (A H F T : Conn → G → Prop)
    (P : Conn → Outcome → G → Prop) : Prop extends ShutdownRule L A H F T P where
  socket : ∀ {c g k w}, F c g → c.inner.state = .writing k (.flushing w) → L.inv c .flush g ∧
    (L.ok c .flush .pending → P c (.flush .pending) (L.upd c .flush .pending g)) ∧
    ∀ res, L.ok c .flush (.ready res) → P c.release (.flush (.ready res)) (L.upd c .flush (.ready res) g)
  waker : ∀ {c g k st} (cx : Waker), A c g → c.inner.state = .writing k st → A (c.setState (.writing cx st)) g
  push : ∀ {c g k st} (buf : List UInt8), A c g → c.inner.state = .writing k st →
    A (c.push buf c.inner.state.written) g
  locked : ∀ {c g k}, H c g → c.inner.state = .writing k .buffering → c.inner.buffer.data ≠ [] →
    A ((c.setFut false).setState (.writing k (.flushing 0))) g
  lockedEmpty : ∀ {c g k}, H c g → c.inner.state = .writing k .buffering → c.inner.buffer.data = [] →
    F ((c.setFut false).setState (.writing k (.flushing 0))) g
  empty : ∀ {c g k w}, A c g → c.inner.state = .writing k (.flushing w) → c.inner.buffer.data = [] → F c g
  release : ∀ {c g k w}, F c g → c.inner.state = .writing k (.flushing w) → A c.release g
  shut : ∀ {c g k}, A c g → c.inner.state = .writing k .buffering →
    A ((c.setState (.shutdown .waitingLock)).wake k) g
  shutLocked : ∀ {c g k w}, A c g → c.inner.state = .writing k (.flushing w) →
    A ((c.setState (.shutdown (.flushing w))).wake k) g
  sound : ∀ {c g}, A c g → c.inner.state ≠ .poisoned
  refused : ∀ {c g st}, A c g → c.inner.state = .shutdown st →
    P c (.write (.ready (.error (.ofKind .brokenPipe)))) g ∧ P c (.flush (.ready (.error (.ofKind .brokenPipe)))) g
  failed : ∀ {c g k w e}, T c g → c.inner.state = .writing k (.flushing w) →
    P c.release (.write (.ready (.error e))) g ∧ P c.release (.flush (.ready (.error e))) g

section
variable {L : Contract WriteQuery WriteResp Conn G} {A H F T : Conn → G → Prop} {P : Conn → Outcome → G → Prop}
  {c : Conn} {g : G}

namespace ShutdownRule

theorem wp_shutdown_writing (R : ShutdownRule L A H F T P) {w : ℕ} (h : A c g)
    (hs : c.inner.state = .shutdown (.writing w)) (fuel : ℕ) :
    (shutdownLoop (fuel + 2) c).wp L (fun c r g => P c (.shutdown r) g) g := by
  have hst : ∀ v, (c.setWritten v).inner.state = .shutdown (.writing v) := by
    simp [hs, WritePipeState.setWritten]
  have he : c.inner.buffer.isEmpty = true := (PacketBuffer.isEmpty_iff _).mpr (R.final h hs)
  rw [shutdownLoop]
  simp only [Proc.bind_apply, Proc.get_apply, Prog.bind_ret, hs, he, if_true, guardedFlush,
    Prog.wp_bind]
  apply R.flush h (by rw [hs]; rfl)
  · intro v g' ha
    exact R.calm ha trivial
  · intro v e g' ht
    exact R.failedShut ht ⟨_, hst v⟩
  · intro g' hf
    exact R.done hf (hst _)

theorem wp_shutdown_flushing (R : ShutdownRule L A H F T P) {w : ℕ} (h : A c g)
    (hs : c.inner.state = .shutdown (.flushing w)) (fuel : ℕ) :
    (shutdownLoop (fuel + 3) c).wp L (fun c r g => P c (.shutdown r) g) g := by
  have hst : ∀ v, (c.setWritten v).inner.state = .shutdown (.flushing v) := by
    simp [hs, WritePipeState.setWritten]
  rw [shutdownLoop]
  simp only [Proc.bind_apply, Proc.get_apply, Prog.bind_ret, hs]
  cases he : c.inner.buffer.isEmpty with
  | true =>
    simp only [if_true, Proc.bind_apply, Proc.modify_apply, Prog.bind_ret]
    exact R.wp_shutdown_writing (R.pass h hs ((PacketBuffer.isEmpty_iff _).mp he)) rfl fuel
  | false =>
    simp only [Bool.false_eq_true, if_false, guardedFlush, Proc.bind_apply, Prog.wp_bind]
    apply R.flush h (by rw [hs]; rfl)
    · intro v g' ha
      exact R.calm ha trivial
    · intro v e g' ht
      exact R.failedShut ht ⟨_, hst v⟩
    · intro g' hf
      exact R.wp_shutdown_writing (R.next hf (hst _)) rfl fuel

theorem wp_shutdown_waiting (R : ShutdownRule L A H F T P) (h : A c g)
    (hs : c.inner.state = .shutdown .waitingLock) (fuel : ℕ) :
    (shutdownLoop (fuel + 4) c).wp L (fun c r g => P c (.shutdown r) g) g := by
  rw [shutdownLoop]
  simp only [Proc.bind_apply, Proc.get_apply, Prog.bind_ret, hs, Prog.wp_bind]
  apply R.lock h (by rw [hs]; rfl)
  · intro g' hg
    simp only [Proc.bind_apply, Proc.modify_apply, Prog.bind_ret]
    by_cases hd : c.inner.buffer.data = []
    · have he : ((c.setFut false).setState (.shutdown (.flushing 0))).inner.buffer.isEmpty = true :=
        (PacketBuffer.isEmpty_iff _).mpr hd
      rw [shutdownLoop]
      simp only [Proc.bind_apply, Proc.get_apply, Prog.bind_ret, Conn.setState_state, he, if_true,
        Proc.modify_apply, Conn.setState_setState]
      exact R.wp_shutdown_writing (R.stageEmpty hg hs hd) rfl fuel
    · exact R.wp_shutdown_flushing (R.stage hg hs hd) rfl fuel
  · intro g' ha
    exact R.calm ha trivial

/-- A shutdown that has begun ends after a few turns, wherever it stands. -/
theorem wp_shutdownLoop (R : ShutdownRule L A H F T P) {st : ShutDownState} (h : A c g)
    (hs : c.inner.state = .shutdown st) : (shutdownLoop 5 c).wp L (fun c r g => P c (.shutdown r) g) g := by
  cases st with
  | waitingLock => exact R.wp_shutdown_waiting h hs 1
  | flushing w => exact R.wp_shutdown_flushing h hs 2
  | writing w => exact R.wp_shutdown_writing h hs 3
  | done => simpa [shutdownLoop, hs] using R.again h hs
  | error => simpa [shutdownLoop, hs] using R.broken h hs

end ShutdownRule

namespace PollRule

/-- What `poll_write` leaves behind: with something to write it does not report that it wrote
nothing. -/
def Wrote (P : Conn → Outcome → G → Prop) (offered : Bool) (c : Conn) (r : Poll (Except IoError ℕ)) (g : G) : Prop :=
  P c (.write r) g ∧ (offered = true → r ≠ .ready (.ok 0))

theorem wp_flushThen (R : PollRule L A H F T P) {k : Waker} {w : ℕ} (h : A c g)
    (hs : c.inner.state = .writing k (.flushing w)) {offered : Bool} (wrote : ℕ)
    {rest : WriteM (Poll (Except IoError ℕ))}
    (hrest : ∀ c' g', A c' g' → c'.inner.state = .writing k .buffering →
      c'.inner.buffer.isFull = false → (rest c').wp L (Wrote P offered) g') :
    (flushThen wrote rest c).wp L (Wrote P offered) g := by
  have hst : ∀ v, (c.setWritten v).inner.state = .writing k (.flushing v) := by
    simp [hs, WritePipeState.setWritten]
  simp only [flushThen, Proc.bind_apply, Prog.wp_bind]
  apply R.flush h (by rw [hs]; rfl)
  · intro v g' ha
    by_cases h0 : wrote = 0
    · simpa [h0] using ⟨R.calm ha trivial, by simp⟩
    · simpa [h0] using ⟨R.calm ha trivial, fun _ => by simpa using h0⟩
  · intro v e g' ht
    exact ⟨(R.failed ht (hst v)).1, by simp⟩
  · intro g' hf
    have hst' : (c.setWritten c.frameLen).clear.inner.state = .writing k (.flushing c.frameLen) := hst _
    refine hrest _ _ (R.release hf hst') (Conn.release_state hst') ?_
    rw [Bool.eq_false_iff, ne_eq, PacketBuffer.isFull_iff]
    simp

/-- The loop of `poll_write` ends: between two turns without the guard it takes a byte. -/
theorem wp_writeLoop (R : PollRule L A H F T P) {offered : Bool} (fuel : ℕ) :
    ∀ (c : Conn) (g : G) (buf : List UInt8) (wrote : ℕ) (k : Waker) (st : WriteState), A c g →
    c.inner.state = .writing k st → (offered = true → 0 < wrote + buf.length) →
    2 * buf.length + (if st = .buffering then 0 else 1) < fuel →
    (writeLoop fuel buf wrote c).wp L (Wrote P offered) g := by
  induction fuel with
  | zero => intro _ _ _ _ _ _ _ _ _ hf; omega
  | succ fuel ih =>
    intro c g buf wrote k st h hs hoff hf
    by_cases hne : buf = []
    · subst hne
      refine ⟨R.calm h trivial, fun ho he => ?_⟩
      obtain rfl : wrote = 0 := by simpa using he
      exact absurd (hoff ho) (by simp)
    have hlen : 0 < buf.length := List.length_pos_iff.mpr hne
    have hpush : ∀ c' g', A c' g' → c'.inner.state = .writing k .buffering → c'.inner.buffer.isFull = false →
        ((do let n ← pushBuf buf 0; writeLoop fuel (buf.drop n) (wrote + n) :
          WriteM (Poll (Except IoError ℕ))) c').wp L (Wrote P offered) g' := by
      intro c' g' ha hs' hroom
      have hp := R.push buf ha hs'
      rw [show c'.inner.state.written = 0 by rw [hs']; rfl] at hp
      have hpos : 0 < (c'.inner.buffer.push buf 0).1 := PacketBuffer.push_fst_pos hne hroom
      refine ih _ _ _ _ k .buffering hp hs' (fun _ => by omega) ?_
      rw [List.length_drop, if_pos rfl]
      omega
    cases st with
    | buffering =>
      cases hfull : c.inner.buffer.isFull with
      | false => simpa [writeLoop, hne, hs, hfull] using hpush c g h hs hfull
      | true =>
        have hd : c.inner.buffer.data ≠ [] := by
          have := (PacketBuffer.isFull_iff _).mp hfull
          exact List.ne_nil_of_length_pos (by omega)
        simp only [writeLoop, hne, if_false, Proc.bind_apply, Proc.get_apply, Prog.bind_ret, hs,
          hfull, if_true, Prog.wp_bind, pollLocked]
        apply R.lock h (by rw [hs]; rfl)
        · intro g' hg
          exact R.wp_flushThen (R.locked hg hs hd) rfl wrote hpush
        · intro g' ha
          exact ⟨R.calm ha trivial, by simp⟩
    | flushing w =>
      simp only [reduceCtorEq, if_false] at hf
      cases hfl : c.inner.buffer.mustFlushFor w with
      | true =>
        simp only [writeLoop, hne, if_false, Proc.bind_apply, Proc.get_apply, Prog.bind_ret, hs,
          hfl, if_true]
        refine R.wp_flushThen h hs wrote fun c' g' ha hs' _ => ih _ _ _ _ k .buffering ha hs' hoff ?_
        rw [if_pos rfl]
        omega
      | false =>
        have hp := R.push buf h hs
        rw [show c.inner.state.written = w by rw [hs]; rfl] at hp
        have hpos := PacketBuffer.push_fst_pos hne hfl
        simp only [writeLoop, hne, if_false, Proc.bind_apply, Proc.get_apply, Prog.bind_ret, hs,
          hfl, Bool.false_eq_true, pushBuf, Proc.modify_apply, Proc.pure_apply]
        refine R.wp_flushThen hp hs _ fun c' g' ha hs' _ => ih _ _ _ _ k .buffering ha hs' (fun _ => by omega) ?_
        rw [if_pos rfl, List.length_drop]
        omega

theorem wp_pollWrite (R : PollRule L A H F T P) (h : A c g) (cx : Waker) (buf : List UInt8) :
    (pollWrite cx buf c).wp L (Wrote P (buf ≠ [])) g := by
  refine Prog.wp_onFault (f := Conn.setState .poisoned) (fun _ _ hf => R.tolerant hf) ?_
  simp only [Proc.bind_apply, Proc.get_apply, Prog.bind_ret]
  cases hs : c.inner.state with
  | poisoned => exact absurd hs (R.sound h)
  | shutdown st => exact ⟨(R.refused h hs).1, by simp⟩
  | writing k st =>
    refine R.wp_writeLoop _ _ _ _ _ cx st (R.waker cx h hs) rfl ?_ ?_
    · intro ho
      have hpos := List.length_pos_of_ne_nil (of_decide_eq_true ho)
      omega
    · split <;> omega

theorem wp_socketFlush (R : PollRule L A H F T P) {k : Waker} {w : ℕ} (h : F c g)
    (hs : c.inner.state = .writing k (.flushing w)) :
    (flushSocket c).wp L (fun c r g => P c (.flush r) g) g := by
  obtain ⟨hinv, hpend, hready⟩ := R.socket h hs
  simp only [flushSocket, pollLocked, Proc.bind_apply, Proc.get_apply, Prog.bind_ret, hs,
    Proc.pure_apply, Proc.ask_apply, Prog.bind_ask, Prog.wp_ask]
  refine ⟨hinv, ?_⟩
  intro r hr
  cases r with
  | pending => exact hpend hr
  | ready res => exact hready res hr

/-- An empty buffer is not sent: the lock is taken for the socket's flush only. -/
theorem wp_flushSocket (R : PollRule L A H F T P) {k : Waker} (h : A c g)
    (hs : c.inner.state = .writing k .buffering) (hd : c.inner.buffer.data = []) :
    (flushSocket c).wp L (fun c r g => P c (.flush r) g) g := by
  simp only [flushSocket, pollLocked, Proc.bind_apply, Proc.get_apply, Prog.bind_ret, hs, Prog.wp_bind]
  apply R.lock h (by rw [hs]; rfl)
  · intro g' hg
    have hwp := R.wp_socketFlush (R.lockedEmpty hg hs hd) rfl
    simpa [flushSocket, pollLocked] using hwp
  · intro g' ha
    exact R.calm ha trivial

theorem wp_flushFrame (R : PollRule L A H F T P) {k : Waker} {w : ℕ} (h : A c g)
    (hs : c.inner.state = .writing k (.flushing w)) :
    (flushFrame c).wp L (fun c r g => P c (.flush r) g) g := by
  have hst : ∀ v, (c.setWritten v).inner.state = .writing k (.flushing v) := by
    simp [hs, WritePipeState.setWritten]
  simp only [flushFrame, Proc.bind_apply, Prog.wp_bind]
  apply R.flush h (by rw [hs]; rfl)
  · intro v g' ha
    exact R.calm ha trivial
  · intro v e g' ht
    exact (R.failed ht (hst v)).2
  · intro g' hf
    have hc : (c.setWritten c.frameLen).clear.inner.buffer.isEmpty = true :=
      (PacketBuffer.isEmpty_iff _).mpr rfl
    simp only [Proc.bind_apply, Proc.get_apply, Prog.bind_ret, hc, if_true]
    exact R.wp_socketFlush hf (hst _)

theorem wp_pollFlush (R : PollRule L A H F T P) (h : A c g) (cx : Waker) :
    (pollFlush cx c).wp L (fun c r g => P c (.flush r) g) g := by
  refine Prog.wp_onFault (f := Conn.setState .poisoned) (fun _ _ hf => R.tolerant hf) ?_
  simp only [Proc.bind_apply, Proc.get_apply, Prog.bind_ret]
  cases hs : c.inner.state with
  | poisoned => exact absurd hs (R.sound h)
  | shutdown st => exact (R.refused h hs).2
  | writing k st =>
    have hw := R.waker cx h hs
    simp only [Proc.bind_apply, Proc.modify_apply, Prog.bind_ret, Proc.get_apply]
    cases he : (c.setState (.writing cx st)).inner.buffer.isEmpty with
    | true =>
      have hd := (PacketBuffer.isEmpty_iff _).mp he
      cases st with
      | buffering => simpa using R.wp_flushSocket hw rfl hd
      | flushing w => simpa using R.wp_socketFlush (R.empty hw rfl hd) rfl
    | false =>
      have hd : c.inner.buffer.data ≠ [] := by
        rw [ne_eq, ← PacketBuffer.isEmpty_iff, Bool.not_eq_true]
        exact he
      cases st with
      | buffering =>
        simp only [Bool.false_eq_true, if_false, Proc.bind_apply, Prog.wp_bind, pollLocked,
          Proc.get_apply, Prog.bind_ret, Conn.setState_state]
        apply R.lock hw rfl
        · intro g' hg
          exact R.wp_flushFrame (R.locked hg rfl hd) rfl
        · intro g' ha
          exact R.calm ha trivial
      | flushing w =>
        simp only [Bool.false_eq_true, if_false, Proc.bind_apply, pollLocked,
          Proc.get_apply, Prog.bind_ret, Conn.setState_state, Proc.pure_apply]
        exact R.wp_flushFrame hw rfl

theorem wp_pollShutdown (R : PollRule L A H F T P) (h : A c g) (cx : Waker) :
    (pollShutdown cx c).wp L (fun c r g => P c (.shutdown r) g) g := by
  refine Prog.wp_onFault (f := Conn.setState .poisoned) (fun _ _ hf => R.tolerant hf) ?_
  simp only [Proc.bind_apply, Proc.get_apply, Prog.bind_ret]
  rcases hs : c.inner.state with _ | st | ⟨k, _ | w⟩
  · exact absurd hs (R.sound h)
  · exact R.wp_shutdownLoop h hs
  · exact R.wp_shutdownLoop (R.shut h hs) rfl
  · exact R.wp_shutdownLoop (R.shutLocked h hs) rfl

end PollRule

end

end VtMuxer
