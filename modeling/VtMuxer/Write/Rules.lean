import VtMuxer.Write.Inner

/-! Reasoning rules for the write half: what each routine of a call does, for any
contract with the environment. -/
namespace VtMuxer
open Interaction

namespace WritePipeState

def setWritten (w : ℕ) : WritePipeState → WritePipeState
  | writing k (.flushing _) => writing k (.flushing w)
  | shutdown (.flushing _) => shutdown (.flushing w)
  | shutdown (.writing _) => shutdown (.writing w)
  | st => st

def counterBits : WritePipeState → ℕ
  | shutdown (.writing _) => 8
  | _ => 32

theorem written_setWritten {st : WritePipeState} (h : st.guarded = true) (w : ℕ) :
    (st.setWritten w).written = w := by
  unfold guarded at h
  split at h <;> first | rfl | cases h

@[simp] theorem setWritten_written (st : WritePipeState) : st.setWritten st.written = st := by
  unfold setWritten written
  split <;> rfl

theorem guarded_setWritten (st : WritePipeState) (w : ℕ) :
    (st.setWritten w).guarded = st.guarded := by
  unfold setWritten
  split <;> rfl

theorem guarded_cases {st : WritePipeState} (h : st.guarded = true) :
    (∃ k w, st = .writing k (.flushing w)) ∨ (∃ w, st = .shutdown (.flushing w)) ∨ ∃ w, st = .shutdown (.writing w) := by
  unfold guarded at h
  split at h
  case h_1 k w => exact Or.inl ⟨k, w, rfl⟩
  case h_2 w => exact Or.inr (Or.inl ⟨w, rfl⟩)
  case h_3 w => exact Or.inr (Or.inr ⟨w, rfl⟩)
  case h_4 => cases h

/-- A counter wide enough for the frame never overflows and is never truncated. -/
theorem add?_setWritten {st : WritePipeState} (h : st.guarded = true) {w n : ℕ}
    (hb : w + n < 2 ^ st.counterBits) :
    (st.setWritten w).add? n = some (st.setWritten (w + n)) := by
  have hadd : ∀ bits, w + n < 2 ^ bits → checkedAdd bits w n = some (w + n) := by
    intro bits hlt
    have hm : n % 2 ^ bits = n := Nat.mod_eq_of_lt (by omega)
    simp [checkedAdd, hm, hlt]
  unfold guarded at h
  split at h
  · simp only [setWritten, add?, hadd 32 hb, Option.map_some]
  · simp only [setWritten, add?, hadd 32 hb, Option.map_some]
  · simp only [setWritten, add?, hadd 8 hb, Option.map_some]
  · cases h

end WritePipeState

namespace Conn

def setWritten (w : ℕ) (c : Conn) : Conn := c.setState (c.inner.state.setWritten w)

@[simp] theorem setState_buffer (st : WritePipeState) (c : Conn) :
    (c.setState st).inner.buffer = c.inner.buffer := rfl
@[simp] theorem setState_state (st : WritePipeState) (c : Conn) :
    (c.setState st).inner.state = st := rfl
@[simp] theorem setState_fut (st : WritePipeState) (c : Conn) :
    (c.setState st).inner.fut = c.inner.fut := rfl
@[simp] theorem setState_task (st : WritePipeState) (c : Conn) : (c.setState st).task = c.task := rfl
@[simp] theorem setState_pushed (st : WritePipeState) (c : Conn) :
    (c.setState st).pushed = c.pushed := rfl
@[simp] theorem setState_setState (st st' : WritePipeState) (c : Conn) :
    (c.setState st).setState st' = c.setState st' := rfl
@[simp] theorem setFut_buffer (b : Bool) (c : Conn) :
    (c.setFut b).inner.buffer = c.inner.buffer := rfl
@[simp] theorem setFut_state (b : Bool) (c : Conn) :
    (c.setFut b).inner.state = c.inner.state := rfl
@[simp] theorem setFut_fut (b : Bool) (c : Conn) : (c.setFut b).inner.fut = b := rfl
@[simp] theorem setFut_task (b : Bool) (c : Conn) : (c.setFut b).task = c.task := rfl
@[simp] theorem setFut_pushed (b : Bool) (c : Conn) : (c.setFut b).pushed = c.pushed := rfl
@[simp] theorem clear_buffer (c : Conn) : c.clear.inner.buffer = c.inner.buffer.clear := rfl
@[simp] theorem clear_state (c : Conn) : c.clear.inner.state = c.inner.state := rfl
@[simp] theorem clear_task (c : Conn) : c.clear.task = c.task := rfl
@[simp] theorem clear_pushed (c : Conn) : c.clear.pushed = c.pushed := rfl
@[simp] theorem setTask_task (t : Option (Origin × List UInt8)) (c : Conn) :
    (c.setTask t).task = t := rfl
@[simp] theorem setTask_inner (t : Option (Origin × List UInt8)) (c : Conn) :
    (c.setTask t).inner = c.inner := rfl
@[simp] theorem setTask_pushed (t : Option (Origin × List UInt8)) (c : Conn) :
    (c.setTask t).pushed = c.pushed := rfl
@[simp] theorem setTask_setTask (t u : Option (Origin × List UInt8)) (c : Conn) :
    (c.setTask t).setTask u = c.setTask u := rfl
@[simp] theorem wake_inner (w : Waker) (c : Conn) : (c.wake w).inner = c.inner := rfl
@[simp] theorem wake_task (w : Waker) (c : Conn) : (c.wake w).task = c.task := rfl
@[simp] theorem wake_pushed (w : Waker) (c : Conn) : (c.wake w).pushed = c.pushed := rfl
@[simp] theorem push_state (buf : List UInt8) (w : ℕ) (c : Conn) :
    (c.push buf w).inner.state = c.inner.state := rfl
@[simp] theorem push_task (buf : List UInt8) (w : ℕ) (c : Conn) : (c.push buf w).task = c.task := rfl
@[simp] theorem push_buffer (buf : List UInt8) (w : ℕ) (c : Conn) :
    (c.push buf w).inner.buffer = (c.inner.buffer.push buf w).2 := rfl
@[simp] theorem push_pushed (buf : List UInt8) (w : ℕ) (c : Conn) :
    (c.push buf w).pushed = c.pushed ++ buf.take (c.inner.buffer.push buf w).1 := rfl
@[simp] theorem setWritten_buffer (w : ℕ) (c : Conn) :
    (c.setWritten w).inner.buffer = c.inner.buffer := rfl
@[simp] theorem setWritten_state (w : ℕ) (c : Conn) :
    (c.setWritten w).inner.state = c.inner.state.setWritten w := rfl
@[simp] theorem setWritten_pushed (w : ℕ) (c : Conn) : (c.setWritten w).pushed = c.pushed := rfl
@[simp] theorem setWritten_task (w : ℕ) (c : Conn) : (c.setWritten w).task = c.task := rfl

@[simp] theorem setWritten_written (c : Conn) : c.setWritten c.inner.state.written = c := by
  simp [setWritten, setState]

@[simp] theorem release_buffer (c : Conn) : c.release.inner.buffer = c.inner.buffer := by
  unfold release
  split <;> rfl
@[simp] theorem release_task (c : Conn) : c.release.task = c.task := by
  unfold release
  split <;> rfl
@[simp] theorem release_pushed (c : Conn) : c.release.pushed = c.pushed := by
  unfold release
  split <;> rfl

@[simp] theorem setState_opened (st : WritePipeState) (c : Conn) :
    (c.setState st).opened = c.opened := rfl
@[simp] theorem setFut_opened (b : Bool) (c : Conn) : (c.setFut b).opened = c.opened := rfl
@[simp] theorem clear_opened (c : Conn) : c.clear.opened = c.opened := rfl
@[simp] theorem setTask_opened (t : Option (Origin × List UInt8)) (c : Conn) :
    (c.setTask t).opened = c.opened := rfl
@[simp] theorem wake_opened (w : Waker) (c : Conn) : (c.wake w).opened = c.opened := rfl
@[simp] theorem push_opened (buf : List UInt8) (w : ℕ) (c : Conn) :
    (c.push buf w).opened = c.opened := rfl
@[simp] theorem setWritten_opened (w : ℕ) (c : Conn) : (c.setWritten w).opened = c.opened := rfl
@[simp] theorem setOpened_opened (c : Conn) : c.setOpened.opened = true := rfl
@[simp] theorem setOpened_inner (c : Conn) : c.setOpened.inner = c.inner := rfl
@[simp] theorem setOpened_task (c : Conn) : c.setOpened.task = c.task := rfl
@[simp] theorem setOpened_pushed (c : Conn) : c.setOpened.pushed = c.pushed := rfl
@[simp] theorem release_opened (c : Conn) : c.release.opened = c.opened := by
  unfold release
  split <;> rfl

@[simp] theorem dropFields_eq (c : Conn) : c.dropFields = c.setFut false := rfl
@[simp] theorem retire_state (c : Conn) : c.retire.inner.state = .poisoned := rfl
@[simp] theorem retire_fut (c : Conn) : c.retire.inner.fut = c.inner.fut := rfl
@[simp] theorem retire_buffer (c : Conn) : c.retire.inner.buffer = c.inner.buffer := rfl
@[simp] theorem retire_task (c : Conn) : c.retire.task = c.task := rfl
@[simp] theorem retire_opened (c : Conn) : c.retire.opened = c.opened := rfl
@[simp] theorem retire_last (c : Conn) : c.retire.last = some c.inner.state := rfl
@[simp] theorem setTask_last (t : Option (Origin × List UInt8)) (c : Conn) :
    (c.setTask t).last = c.last := rfl
@[simp] theorem setFut_last (b : Bool) (c : Conn) : (c.setFut b).last = c.last := rfl

theorem release_eq {c : Conn} {k : Waker} {st : WriteState} (h : c.inner.state = .writing k st) :
    c.release = c.setState (.writing k .buffering) := by
  simp [release, h]

theorem release_state {c : Conn} {k : Waker} {st : WriteState} (h : c.inner.state = .writing k st) :
    c.release.inner.state = .writing k .buffering := by
  rw [release_eq h, setState_state]

theorem holds_setWritten (w : ℕ) (c : Conn) : (c.setWritten w).holds = c.holds := by
  unfold holds
  rw [setWritten_task, setWritten_state, WritePipeState.guarded_setWritten]

theorem origin_setWritten (w : ℕ) (c : Conn) : (c.setWritten w).origin = c.origin := by
  unfold origin
  rw [setWritten_task, setWritten_state]
  cases c.task with
  | some t => rfl
  | none =>
    match c.inner.state with
    | .poisoned => rfl
    | .writing _ .buffering => rfl
    | .writing _ (.flushing _) => rfl
    | .shutdown .waitingLock => rfl
    | .shutdown (.flushing _) => rfl
    | .shutdown (.writing _) => rfl
    | .shutdown .done => rfl
    | .shutdown .error => rfl

end Conn

def Conn.frameLen (c : Conn) : ℕ := 20 + c.inner.buffer.data.length

theorem Conn.length_bytes (c : Conn) : c.inner.buffer.bytes.length = c.frameLen := PacketBuffer.length_bytes _

theorem Conn.zero_lt_frameLen (c : Conn) : 0 < c.frameLen := by
  unfold Conn.frameLen
  omega

theorem Conn.wide {c : Conn} (hg : c.inner.state.guarded = true)
    (hfinal : ∀ w, c.inner.state = .shutdown (.writing w) → c.inner.buffer.data = []) :
    c.frameLen < 2 ^ c.inner.state.counterBits := by
  have hl := c.inner.buffer.length_data
  rcases WritePipeState.guarded_cases hg with ⟨k, w, hs⟩ | ⟨w, hs⟩ | ⟨w, hs⟩
  · simp only [hs, WritePipeState.counterBits, Conn.frameLen]
    omega
  · simp only [hs, WritePipeState.counterBits, Conn.frameLen]
    omega
  · simp [hs, WritePipeState.counterBits, Conn.frameLen, hfinal w hs]

variable {G : Type} {L : Contract WriteQuery WriteResp Conn G}

section Flush
variable {post : Conn → Poll (Except IoError Unit) → G → Prop} {c : Conn} {g : G} {w : ℕ}

theorem wp_flushLoop_over (h : c.frameLen < c.inner.state.written) (fuel : ℕ)
    (hf : L.fault c .panic) : (flushLoop (fuel + 1) c).wp L post g := by
  have hn : c.inner.buffer.bytesFrom? c.inner.state.written = none := by
    unfold PacketBuffer.bytesFrom?
    rw [PacketBuffer.length_bytes, if_neg]
    unfold Conn.frameLen at h
    omega
  simpa [flushLoop, hn] using hf

/-- The rule of `flush_buf`: `J w` holds whenever `w` bytes of the frame are sent, in this
call or before it. -/
structure FlushRule (L : Contract WriteQuery WriteResp Conn G) (J : ℕ → G → Prop) (c : Conn)
    (post : Conn → Poll (Except IoError Unit) → G → Prop) : Prop where
  guarded : c.inner.state.guarded = true
  wide : c.frameLen < 2 ^ c.inner.state.counterBits
  ask : ∀ w g, J w g → w < c.frameLen →
    L.inv (c.setWritten w) (.write (c.inner.buffer.bytes.drop w)) g
  honest : ∀ s bytes n, L.ok s (.write bytes) (.ready (.ok n)) → n ≤ bytes.length
  step : ∀ w g n, J w g → 0 < n → w + n ≤ c.frameLen →
    J (w + n) (L.upd (c.setWritten w) (.write (c.inner.buffer.bytes.drop w)) (.ready (.ok n)) g)
  zero : ∀ w g, J w g → w < c.frameLen →
    L.ok (c.setWritten w) (.write (c.inner.buffer.bytes.drop w)) (.ready (.ok 0)) →
    post (c.setWritten w) (.ready (.error ⟨.writeZero, "failed to flush packet buffer"⟩))
      (L.upd (c.setWritten w) (.write (c.inner.buffer.bytes.drop w)) (.ready (.ok 0)) g)
  error : ∀ w g e, J w g → w < c.frameLen →
    L.ok (c.setWritten w) (.write (c.inner.buffer.bytes.drop w)) (.ready (.error e)) →
    post (c.setWritten w) (.ready (.error e))
      (L.upd (c.setWritten w) (.write (c.inner.buffer.bytes.drop w)) (.ready (.error e)) g)
  pending : ∀ w g, J w g → w < c.frameLen →
    post (c.setWritten w) .pending
      (L.upd (c.setWritten w) (.write (c.inner.buffer.bytes.drop w)) .pending g)
  finish : ∀ g, J c.frameLen g → post (c.setWritten c.frameLen).clear (.ready (.ok ())) g

theorem FlushRule.wp_flushLoop {J : ℕ → G → Prop} (h : FlushRule L J c post) :
    ∀ (fuel w : ℕ) (g : G), J w g → w ≤ c.frameLen → c.frameLen - w < fuel →
      (flushLoop fuel (c.setWritten w)).wp L post g := by
  intro fuel
  induction fuel with
  | zero => intro w g _ _ hf; omega
  | succ fuel ih =>
    intro w g hJ hw hf
    have hwr : (c.setWritten w).inner.state.written = w :=
      WritePipeState.written_setWritten h.guarded w
    have hfrom : c.inner.buffer.bytesFrom? w = some (c.inner.buffer.bytes.drop w) :=
      PacketBuffer.bytesFrom?_eq_some.mpr ⟨hw, rfl⟩
    have hlen : (c.inner.buffer.bytes.drop w).length = c.frameLen - w := by
      simp [Conn.frameLen]
    rcases hw.lt_or_eq with hlt | rfl
    · obtain ⟨b, bs, hbs⟩ := List.exists_cons_of_length_pos (by omega : 0 < (c.inner.buffer.bytes.drop w).length)
      simp only [flushLoop, Proc.bind_apply, Proc.get_apply, Prog.bind_ret, hwr,
        Conn.setWritten_buffer, hfrom]
      rw [hbs]
      simp only [Proc.bind_apply, Proc.ask_apply, Prog.bind_ask, Prog.wp_ask]
      rw [← hbs]
      refine ⟨h.ask w g hJ hlt, ?_⟩
      intro r hr
      rcases r with (e | _ | n) | _
      · exact h.error w g e hJ hlt hr
      · exact h.zero w g hJ hlt hr
      · have hn := h.honest _ _ _ hr
        have hle : w + (n + 1) ≤ c.frameLen := by omega
        have hadd : (c.setWritten w).inner.state.add? (n + 1) =
            some (c.inner.state.setWritten (w + (n + 1))) :=
          WritePipeState.add?_setWritten h.guarded (lt_of_le_of_lt hle h.wide)
        simp only [Prog.bind_ret, hadd, Proc.bind_apply, Proc.modify_apply]
        exact ih _ _ (h.step w g (n + 1) hJ (by omega) hle) hle (by omega)
      · exact h.pending w g hJ hlt
    · have hnil : c.inner.buffer.bytes.drop c.frameLen = [] := by
        rw [← List.length_eq_zero_iff, hlen]
        omega
      simp only [flushLoop, Proc.bind_apply, Proc.get_apply, Prog.bind_ret, hwr,
        Conn.setWritten_buffer, hfrom, hnil]
      exact h.finish g hJ

theorem FlushRule.wp_flushBuf {J : ℕ → G → Prop} (h : FlushRule L J c post)
    (hJ : J c.inner.state.written g) (hw : c.inner.state.written ≤ c.frameLen) :
    (flushBuf c).wp L post g := by
  have := h.wp_flushLoop (c.frameLen + 1) c.inner.state.written g hJ hw (by omega)
  rw [Conn.setWritten_written] at this
  simpa [flushBuf, Conn.frameLen] using this

end Flush

section Lock
variable {c : Conn} {g : G}

/-- The rule of `poll_lock`: `K` holds until the mutex grants the lock. -/
structure LockRule (L : Contract WriteQuery WriteResp Conn G) (K : G → Prop) (c : Conn)
    (post : Conn → Poll Unit → G → Prop) : Prop where
  askTry : ∀ g, K g → L.inv (c.setFut false) .tryLock g
  askPoll : ∀ g, K g → L.inv (c.setFut true) .pollFut g
  refused : ∀ g, K g → K (L.upd (c.setFut false) .tryLock false g)
  tried : ∀ g, K g → L.ok (c.setFut false) .tryLock true →
    post (c.setFut false) (.ready ()) (L.upd (c.setFut false) .tryLock true g)
  polled : ∀ g, K g → L.ok (c.setFut true) .pollFut true →
    post (c.setFut false) (.ready ()) (L.upd (c.setFut true) .pollFut true g)
  pending : ∀ g, K g → post (c.setFut true) .pending (L.upd (c.setFut true) .pollFut false g)

theorem LockRule.wp_pollFuture {K : G → Prop} {post : Conn → Poll Unit → G → Prop}
    (h : LockRule L K c post) (hK : K g) : (pollLock.pollFuture (c.setFut true)).wp L post g := by
  simp only [pollLock.pollFuture, Proc.bind_apply, Proc.ask_apply, Prog.bind_ask, Prog.wp_ask]
  refine ⟨h.askPoll g hK, ?_⟩
  rintro (_ | _) hr
  · exact h.pending g hK
  · exact h.polled g hK hr

theorem LockRule.wp_pollLock {K : G → Prop} {post : Conn → Poll Unit → G → Prop}
    (h : LockRule L K c post) (hK : K g) : (pollLock c).wp L post g := by
  cases hf : c.inner.fut with
  | true =>
    have hc : c.setFut true = c := by rw [← hf]; rfl
    have hp := h.wp_pollFuture hK
    rw [hc] at hp
    simpa [pollLock, hf] using hp
  | false =>
    have hc : c.setFut false = c := by rw [← hf]; rfl
    simp only [pollLock, Proc.bind_apply, Proc.get_apply, Prog.bind_ret, hf, Proc.ask_apply,
      Prog.bind_ask, Bool.false_eq_true, if_false, Prog.wp_ask]
    refine ⟨hc ▸ h.askTry g hK, ?_⟩
    rintro (_ | _) hr
    · have hr' := h.refused g hK
      rw [hc] at hr'
      exact h.wp_pollFuture hr'
    · have ht := h.tried g hK
      rw [hc] at ht
      exact ht hr

theorem LockRule.wp_pollLocked {K : G → Prop} {post : Conn → Poll Unit → G → Prop} {k : Waker}
    (hs : c.inner.state = .writing k .buffering)
    (h : LockRule L K c fun c' r g' =>
      match r with
      | .pending => post c' .pending g'
      | .ready () => post (c'.setState (.writing k (.flushing 0))) (.ready ()) g')
    (hK : K g) : (pollLocked c).wp L post g := by
  simp only [pollLocked, Proc.bind_apply, Proc.get_apply, Prog.bind_ret, hs, Prog.wp_bind]
  refine Prog.wp_mono ?_ (h.wp_pollLock hK)
  rintro c' (_ | _) g' hp
  · exact hp
  · exact hp

end Lock

section WriteAll
variable {post : Conn → Except IoError Unit → G → Prop} {c : Conn} {g : G} {o : Origin} {bytes : List UInt8}

/-- The rule of `write_all` under the guard of an async body: `J w` holds whenever `w` bytes of
the message are taken. -/
structure WriteAllRule (L : Contract WriteQuery WriteResp Conn G) (J : ℕ → G → Prop) (c : Conn) (o : Origin)
    (bytes : List UInt8) (post : Conn → Except IoError Unit → G → Prop) : Prop where
  ask : ∀ w g, J w g → w < bytes.length →
    L.inv (c.setTask (some (o, bytes.drop w))) (.awaitWrite (bytes.drop w)) g
  honest : ∀ s bytes n, L.ok s (.awaitWrite bytes) (.ok n) → n ≤ bytes.length
  step : ∀ w g n, J w g → 0 < n → w + n ≤ bytes.length →
    J (w + n) (L.upd (c.setTask (some (o, bytes.drop w))) (.awaitWrite (bytes.drop w)) (.ok n) g)
  zero : ∀ w g, J w g → L.ok (c.setTask (some (o, bytes.drop w))) (.awaitWrite (bytes.drop w)) (.ok 0) →
    post (c.setTask (some (o, bytes.drop w))) (.error (.ofKind .writeZero))
      (L.upd (c.setTask (some (o, bytes.drop w))) (.awaitWrite (bytes.drop w)) (.ok 0) g)
  error : ∀ w g e, J w g → L.ok (c.setTask (some (o, bytes.drop w))) (.awaitWrite (bytes.drop w)) (.error e) →
    post (c.setTask (some (o, bytes.drop w))) (.error e)
      (L.upd (c.setTask (some (o, bytes.drop w))) (.awaitWrite (bytes.drop w)) (.error e) g)
  finish : ∀ g, J bytes.length g → post (c.setTask (some (o, []))) (.ok ()) g

theorem WriteAllRule.wp_writeAllLoop {J : ℕ → G → Prop} (h : WriteAllRule L J c o bytes post) :
    ∀ (fuel w : ℕ) (g : G), J w g → w ≤ bytes.length → bytes.length - w < fuel →
      (writeAllLoop fuel (c.setTask (some (o, bytes.drop w)))).wp L post g := by
  intro fuel
  induction fuel with
  | zero => intro w g _ _ hf; omega
  | succ fuel ih =>
    intro w g hJ hw hf
    rcases hw.lt_or_eq with hlt | rfl
    · obtain ⟨b, bs, hbs⟩ := List.exists_cons_of_length_pos
        (by rw [List.length_drop]; omega : 0 < (bytes.drop w).length)
      simp only [writeAllLoop, Proc.bind_apply, Proc.get_apply, Prog.bind_ret, Conn.setTask_task]
      rw [hbs]
      simp only [Proc.bind_apply, Proc.ask_apply, Prog.bind_ask, Prog.wp_ask]
      rw [← hbs]
      refine ⟨h.ask w g hJ hlt, ?_⟩
      intro r hr
      rcases r with e | _ | n
      · exact h.error w g e hJ hr
      · exact h.zero w g hJ hr
      · have hn := h.honest _ _ _ hr
        have hle : n ≤ bs.length := by
          rw [hbs, List.length_cons] at hn
          omega
        have hdrop : bs.drop n = bytes.drop (w + (n + 1)) := by
          rw [← List.drop_drop, hbs, List.drop_succ_cons]
        rw [List.length_drop] at hn
        simp only [Prog.bind_ret, hle, if_true, Proc.bind_apply, Proc.modify_apply,
          Conn.setTask_setTask, hdrop]
        exact ih _ _ (h.step w g (n + 1) hJ (by omega) (by omega)) (by omega) (by omega)
    · simp only [writeAllLoop, Proc.bind_apply, Proc.get_apply, Prog.bind_ret, Conn.setTask_task,
        List.drop_length]
      exact h.finish g hJ

theorem WriteAllRule.wp_writeAll {J : ℕ → G → Prop} {w : ℕ} (h : WriteAllRule L J c o bytes post) (hJ : J w g)
    (hw : w ≤ bytes.length) : (writeAll o (bytes.drop w) c).wp L post g := by
  refine h.wp_writeAllLoop _ w g hJ hw ?_
  rw [List.length_drop]
  omega

end WriteAll

section Drop
variable {c : Conn} {k : Waker} {w : ℕ}

/-- The end of a drop that has tried to finish a frame. -/
def afterRest (socket : SocketAddr) : Except IoError Unit → WriteM Unit
  | .error _ => Proc.modify (Conn.setTask none)
  | .ok () => sendEof socket

theorem drop_shutdown {st : ShutDownState} (hs : c.inner.state = .shutdown st) :
    drop c = .ret (c.retire.setFut false) () := by
  simp [drop, hs]

theorem drop_buffering (hs : c.inner.state = .writing k .buffering) :
    drop c = .ask (c.retire.setFut false) (.awaitLock c.inner.fut) fun _ => sendEof c.addr (c.retire.setFut false) := by
  simp [drop, lock, hs]

theorem drop_unbegun (hs : c.inner.state = .writing k (.flushing 0)) :
    drop c = sendEof c.addr (c.retire.setFut false) := by
  simp [drop, hs]

theorem drop_begun (hs : c.inner.state = .writing k (.flushing (w + 1))) {rest : List UInt8}
    (hfrom : c.inner.buffer.bytesFrom? (w + 1) = some rest) :
    drop c = (writeAll .data rest (c.retire.setFut false)).bind fun s r => afterRest c.addr r s := by
  simp only [drop, Proc.bind_apply, Proc.get_apply, Prog.bind_ret, Proc.modify_apply, hs, hfrom]
  rfl

theorem drop_overrun (hs : c.inner.state = .writing k (.flushing (w + 1)))
    (hfrom : c.inner.buffer.bytesFrom? (w + 1) = none) : drop c = .fault c.retire .panic := by
  simp [drop, hs, hfrom]

end Drop

end VtMuxer
