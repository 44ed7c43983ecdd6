import VtMuxer.Write.Turns

/-! What a poll call has heard last. If it returns `Pending`, that is the refusal of the mutex, in whose
queue it now stands, or of the socket, which it keeps for itself; and if a write has failed, it is that
failure, after which the guard is gone and with it the counter. -/
namespace VtMuxer
open Interaction

def Outcome.pends : Outcome → Prop
  | .write .pending => True
  | .flush .pending => True
  | .shutdown .pending => True
  | _ => False

/-- The last of `answers` has registered the waker of the call, and the connection, left as `c`, has
its place in the queue of the mutex or the guard. -/
def Registered (c : Conn) (answers : List (Sigma WriteResp)) : Prop :=
  answers.getLast? = some ⟨.pollFut, false⟩ ∧ c.inner.fut = true ∨
  c.inner.state.guarded = true ∧ ((∃ bytes, answers.getLast? = some ⟨.write bytes, .pending⟩) ∨
    answers.getLast? = some ⟨.flush, .pending⟩)

/-- A write of a poll call that has failed. -/
def Fails : Sigma WriteResp → Prop
  | ⟨.write _, .ready (.ok 0)⟩ => True
  | ⟨.write _, .ready (.error _)⟩ => True
  | _ => False

def Unfailed (answers : List (Sigma WriteResp)) : Prop := ∀ x ∈ answers, ¬ Fails x

/-- The last write has failed, and no other. -/
def Failed (answers : List (Sigma WriteResp)) : Prop := ∃ before x, answers = before ++ [x] ∧ Fails x ∧ Unfailed before

/-- The answers that a call hears, any of which it may hear; after a write that has failed it asks for
none. -/
abbrev heard : Contract WriteQuery WriteResp Conn (List (Sigma WriteResp)) :=
  (tracing Conn fun _ _ => True).under fun _ => Unfailed

/-- How a poll call comes back. -/
def Settles {α : Type} (c : Conn) (r : Poll (Except IoError α)) (g : List (Sigma WriteResp)) : Prop :=
  match r with
  | .pending => Registered c g ∧ Unfailed g
  | .ready (.ok _) => Unfailed g
  | .ready (.error _) => Unfailed g ∨ Failed g ∧ c.inner.state.guarded = false

def Conn.flushing (c : Conn) : Prop := ∃ k w, c.inner.state = .writing k (.flushing w)

/-- How `flush_buf` comes back, which still has the guard after a failure. -/
def SettlesHeld (held : Prop) (c : Conn) (r : Poll (Except IoError Unit)) (g : List (Sigma WriteResp)) : Prop :=
  match r with
  | .ready (.error _) => Failed g ∧ (held → c.flushing)
  | r => Settles c r g

section
variable {c : Conn} {g : List (Sigma WriteResp)} {x : Sigma WriteResp}

theorem Unfailed.nil : Unfailed [] := by
  intro x hx
  cases hx

theorem Unfailed.snoc (h : Unfailed g) (hx : ¬ Fails x) : Unfailed (g ++ [x]) := by
  intro y hy
  rcases List.mem_append.mp hy with hy | hy
  · exact h y hy
  · rwa [List.mem_singleton.mp hy]

theorem Unfailed.failed (h : Unfailed g) (hx : Fails x) : Failed (g ++ [x]) := ⟨g, x, rfl, hx, h⟩

theorem Conn.flushing.guarded (h : c.flushing) : c.inner.state.guarded = true := by
  obtain ⟨k, w, hs⟩ := h
  rw [hs]
  rfl

theorem Conn.flushing.release (h : c.flushing) : c.release.inner.state.guarded = false := by
  obtain ⟨k, w, hs⟩ := h
  rw [Conn.release_state hs]
  rfl

theorem wp_pollFuture_settles (hg : Unfailed g) (hf : c.inner.fut = true) :
    (pollLock.pollFuture c).wp heard (fun c' r g' => Unfailed g' ∧ (r = .pending → Registered c' g')) g := by
  refine ⟨hg, fun r _ => ?_⟩
  cases r with
  | true => exact ⟨hg.snoc (x := ⟨.pollFut, true⟩) id, (fun h => by cases h)⟩
  | false => exact ⟨hg.snoc (x := ⟨.pollFut, false⟩) id, fun _ => Or.inl ⟨List.getLast?_concat, hf⟩⟩

theorem wp_pollLock_settles (hg : Unfailed g) (c : Conn) :
    (pollLock c).wp heard (fun c' r g' => Unfailed g' ∧ (r = .pending → Registered c' g')) g := by
  simp only [pollLock, Proc.bind_apply, Proc.get_apply, Prog.bind_ret]
  cases hf : c.inner.fut with
  | true => exact wp_pollFuture_settles hg hf
  | false =>
    refine ⟨hg, fun r _ => ?_⟩
    cases r with
    | true => exact ⟨hg.snoc (x := ⟨.tryLock, true⟩) id, (fun h => by cases h)⟩
    | false => exact wp_pollFuture_settles (c := c.setFut true) (hg.snoc (x := ⟨.tryLock, false⟩) id) rfl

theorem wp_pollLocked_settles (hg : Unfailed g) (c : Conn) :
    (pollLocked c).wp heard (fun c' r g' => Unfailed g' ∧ (r = .pending → Registered c' g') ∧
      (r = .ready () → c'.flushing)) g := by
  simp only [pollLocked, Proc.bind_apply, Proc.get_apply, Prog.bind_ret]
  rcases hs : c.inner.state with _ | st | ⟨k, _ | w⟩
  · trivial
  · trivial
  · simp only [Proc.bind_apply, Prog.wp_bind]
    refine Prog.wp_mono ?_ (wp_pollLock_settles hg c)
    rintro c' (_ | _) g' ⟨hg', hp⟩
    · exact ⟨hg', (fun h => by cases h), fun _ => ⟨k, 0, rfl⟩⟩
    · exact ⟨hg', hp, (fun h => by cases h)⟩
  · exact ⟨hg, (fun h => by cases h), fun _ => ⟨k, w, hs⟩⟩

theorem add?_kind {n : ℕ} {st st' : WritePipeState} (h : st.add? n = some st') :
    st'.guarded = true ∧ ((∃ k w, st = .writing k (.flushing w)) → ∃ k w, st' = .writing k (.flushing w)) := by
  unfold WritePipeState.add? at h
  split at h
  · obtain ⟨w, -, rfl⟩ := Option.map_eq_some_iff.mp h
    exact ⟨rfl, fun _ => ⟨_, _, rfl⟩⟩
  · obtain ⟨w, -, rfl⟩ := Option.map_eq_some_iff.mp h
    exact ⟨rfl, fun ⟨_, _, hs⟩ => by cases hs⟩
  · obtain ⟨w, -, rfl⟩ := Option.map_eq_some_iff.mp h
    exact ⟨rfl, fun ⟨_, _, hs⟩ => by cases hs⟩
  · cases h

theorem wp_flushLoop_settles (held : Prop) (fuel : ℕ) : ∀ (c : Conn) (g : List (Sigma WriteResp)), Unfailed g →
    c.inner.state.guarded = true → (held → c.flushing) → (flushLoop fuel c).wp heard (SettlesHeld held) g := by
  induction fuel with
  | zero => exact fun _ _ _ _ _ => trivial
  | succ fuel ih =>
    intro c g hu hg hk
    simp only [flushLoop, Proc.bind_apply, Proc.get_apply, Prog.bind_ret]
    cases c.inner.buffer.bytesFrom? c.inner.state.written with
    | none => trivial
    | some bytes =>
      cases bytes with
      | nil => exact hu
      | cons b bs =>
        refine ⟨hu, fun r _ => ?_⟩
        rcases r with (e | _ | n) | _
        · exact ⟨hu.failed (x := ⟨.write (b :: bs), .ready (.error e)⟩) trivial, hk⟩
        · exact ⟨hu.failed (x := ⟨.write (b :: bs), .ready (.ok 0)⟩) trivial, hk⟩
        · simp only [Prog.bind_ret]
          cases hadd : c.inner.state.add? (n + 1) with
          | none => trivial
          | some st =>
            obtain ⟨hst, hkind⟩ := add?_kind hadd
            exact ih _ _ (hu.snoc (x := ⟨.write (b :: bs), .ready (.ok (n + 1))⟩) id) hst fun h => hkind (hk h)
        · exact ⟨Or.inr ⟨hg, Or.inl ⟨_, List.getLast?_concat⟩⟩, hu.snoc (x := ⟨.write (b :: bs), .pending⟩) id⟩

theorem wp_flushBuf_settles (held : Prop) (hu : Unfailed g) (hg : c.inner.state.guarded = true) (hk : held → c.flushing) :
    (flushBuf c).wp heard (SettlesHeld held) g := wp_flushLoop_settles held _ c g hu hg hk

/-- A flush that is suspended after something was taken in is no `Pending` of the call. -/
theorem wp_flushThen_settles (hu : Unfailed g) (hk : c.flushing) (wrote : ℕ) {rest : WriteM (Poll (Except IoError ℕ))}
    (hrest : ∀ c' g', Unfailed g' → (rest c').wp heard Settles g') : (flushThen wrote rest c).wp heard Settles g := by
  simp only [flushThen, Proc.bind_apply, Prog.wp_bind]
  refine Prog.wp_mono ?_ (wp_flushBuf_settles True hu hk.guarded fun _ => hk)
  rintro c' ((e | ⟨⟩) | _) g' hp
  · exact Or.inr ⟨hp.1, (hp.2 trivial).release⟩
  · exact hrest _ _ hp
  · have hpend : Settles c' (.pending : Poll (Except IoError ℕ)) g' := hp
    have hsome : Settles c' (.ready (.ok wrote)) g' := hp.2
    by_cases h0 : wrote = 0
    · simpa [h0] using hpend
    · simpa [h0] using hsome

theorem wp_writeLoop_settles (fuel : ℕ) : ∀ (buf : List UInt8) (wrote : ℕ) (c : Conn) (g : List (Sigma WriteResp)),
    Unfailed g → (writeLoop fuel buf wrote c).wp heard Settles g := by
  induction fuel with
  | zero => exact fun _ _ _ _ _ => trivial
  | succ fuel ih =>
    intro buf wrote c g hu
    have hpush : ∀ c' g', Unfailed g' → ((do let n ← pushBuf buf 0; writeLoop fuel (buf.drop n) (wrote + n) :
        WriteM (Poll (Except IoError ℕ))) c').wp heard Settles g' := fun _ _ hu' => ih _ _ _ _ hu'
    by_cases hne : buf = []
    · have hdone : Settles c (.ready (.ok wrote)) g := hu
      simpa [writeLoop, hne] using hdone
    simp only [writeLoop, hne, if_false, Proc.bind_apply, Proc.get_apply, Prog.bind_ret]
    rcases hs : c.inner.state with _ | st | ⟨k, _ | w⟩
    · trivial
    · trivial
    · cases c.inner.buffer.isFull with
      | false => exact hpush c g hu
      | true =>
        simp only [if_true, Proc.bind_apply, Prog.wp_bind]
        refine Prog.wp_mono ?_ (wp_pollLocked_settles hu c)
        rintro c' (⟨⟩ | _) g' ⟨hu', hp, hk⟩
        · exact wp_flushThen_settles hu' (hk rfl) wrote hpush
        · exact ⟨hp rfl, hu'⟩
    · cases hfl : c.inner.buffer.mustFlushFor w with
      | true =>
        simp only [hfl, if_true]
        exact wp_flushThen_settles hu ⟨k, w, hs⟩ wrote fun _ _ hu' => ih _ _ _ _ hu'
      | false =>
        simp only [hfl, Bool.false_eq_true, if_false]
        exact wp_flushThen_settles (c := c.push buf w) hu ⟨k, w, hs⟩ _ fun _ _ hu' => ih _ _ _ _ hu'

theorem wp_pollWrite_settles (hu : Unfailed g) (cx : Waker) (buf : List UInt8) (c : Conn) :
    (pollWrite cx buf c).wp heard Settles g := by
  refine Prog.wp_onFault (f := Conn.setState .poisoned) (fun _ _ hf => hf) ?_
  simp only [Proc.bind_apply, Proc.get_apply, Prog.bind_ret]
  cases c.inner.state with
  | poisoned => trivial
  | shutdown st => exact Or.inl hu
  | writing k st => exact wp_writeLoop_settles _ _ _ _ _ hu

theorem wp_flushSocket_settles (hu : Unfailed g) (c : Conn) : (flushSocket c).wp heard Settles g := by
  simp only [flushSocket, Proc.bind_apply, Prog.wp_bind]
  refine Prog.wp_mono ?_ (wp_pollLocked_settles hu c)
  rintro c' (⟨⟩ | _) g' ⟨hu', hp, hk⟩
  · refine ⟨hu', fun r _ => ?_⟩
    rcases r with (e | ⟨⟩) | _
    · exact Or.inl (hu'.snoc (x := ⟨.flush, .ready (.error e)⟩) id)
    · exact hu'.snoc (x := ⟨.flush, .ready (.ok ())⟩) id
    · exact ⟨Or.inr ⟨(hk rfl).guarded, Or.inr List.getLast?_concat⟩, hu'.snoc (x := ⟨.flush, .pending⟩) id⟩
  · exact ⟨hp rfl, hu'⟩

theorem wp_flushFrame_settles (hu : Unfailed g) (hk : c.flushing) : (flushFrame c).wp heard Settles g := by
  simp only [flushFrame, Proc.bind_apply, Prog.wp_bind]
  refine Prog.wp_mono ?_ (wp_flushBuf_settles True hu hk.guarded fun _ => hk)
  rintro c' ((e | ⟨⟩) | _) g' hp
  · exact Or.inr ⟨hp.1, (hp.2 trivial).release⟩
  · simp only [Proc.bind_apply, Proc.get_apply, Prog.bind_ret]
    cases c'.inner.buffer.isEmpty with
    | true => exact wp_flushSocket_settles hp c'
    | false => trivial
  · exact hp

theorem wp_pollFlush_settles (hu : Unfailed g) (cx : Waker) (c : Conn) : (pollFlush cx c).wp heard Settles g := by
  refine Prog.wp_onFault (f := Conn.setState .poisoned) (fun _ _ hf => hf) ?_
  simp only [Proc.bind_apply, Proc.get_apply, Prog.bind_ret]
  rcases hs : c.inner.state with _ | st | ⟨k, st⟩
  · trivial
  · exact Or.inl hu
  · simp only [Proc.bind_apply, Proc.modify_apply, Prog.bind_ret, Proc.get_apply]
    cases (c.setState (.writing cx st)).inner.buffer.isEmpty with
    | true => exact wp_flushSocket_settles hu _
    | false =>
      simp only [Bool.false_eq_true, if_false, Proc.bind_apply, Prog.wp_bind]
      refine Prog.wp_mono ?_ (wp_pollLocked_settles hu _)
      rintro c' (⟨⟩ | _) g' ⟨hu', hp, hk⟩
      · exact wp_flushFrame_settles hu' (hk rfl)
      · exact ⟨hp rfl, hu'⟩

theorem wp_guardedFlush_settles (hu : Unfailed g) (hg : c.inner.state.guarded = true)
    {rest : WriteM (Poll (Except IoError Unit))} (hrest : ∀ c' g', Unfailed g' → (rest c').wp heard Settles g') :
    (guardedFlush rest c).wp heard Settles g := by
  simp only [guardedFlush, Proc.bind_apply, Prog.wp_bind]
  refine Prog.wp_mono ?_ (wp_flushBuf_settles False hu hg False.elim)
  rintro c' ((e | ⟨⟩) | _) g' hp
  · exact Or.inr ⟨hp.1, rfl⟩
  · exact hrest _ _ hp
  · exact hp

theorem wp_shutdownLoop_settles (fuel : ℕ) : ∀ (c : Conn) (g : List (Sigma WriteResp)), Unfailed g →
    (shutdownLoop fuel c).wp heard Settles g := by
  induction fuel with
  | zero => exact fun _ _ _ => trivial
  | succ fuel ih =>
    intro c g hu
    simp only [shutdownLoop, Proc.bind_apply, Proc.get_apply, Prog.bind_ret]
    rcases hs : c.inner.state with _ | (_ | w | w | _ | _) | ⟨k, st⟩
    · trivial
    · simp only [Proc.bind_apply, Prog.wp_bind]
      refine Prog.wp_mono ?_ (wp_pollLock_settles hu c)
      rintro c' (⟨⟩ | _) g' ⟨hu', hp⟩
      · exact ih _ _ hu'
      · exact ⟨hp rfl, hu'⟩
    · cases c.inner.buffer.isEmpty with
      | true => exact ih _ _ hu
      | false =>
        exact wp_guardedFlush_settles hu (by simp [hs, WritePipeState.guarded]) fun _ _ hu' => ih _ _ hu'
    · cases c.inner.buffer.isEmpty with
      | true => exact wp_guardedFlush_settles hu (by simp [hs, WritePipeState.guarded]) fun _ _ hu' => ih _ _ hu'
      | false => trivial
    · exact hu
    · exact Or.inl hu
    · trivial

theorem wp_pollShutdown_settles (hu : Unfailed g) (cx : Waker) (c : Conn) :
    (pollShutdown cx c).wp heard Settles g := by
  refine Prog.wp_onFault (f := Conn.setState .poisoned) (fun _ _ hf => hf) ?_
  simp only [Proc.bind_apply, Proc.get_apply, Prog.bind_ret]
  rcases c.inner.state with _ | st | ⟨k, _ | w⟩
  · trivial
  · exact wp_shutdownLoop_settles 5 _ _ hu
  · simp only [Proc.bind_apply, Proc.modify_apply, Prog.bind_ret]
    exact wp_shutdownLoop_settles 5 _ _ hu
  · simp only [Proc.bind_apply, Proc.modify_apply, Prog.bind_ret]
    exact wp_shutdownLoop_settles 5 _ _ hu

theorem wp_writeAll_unfailed (hu : Unfailed g) (o : Origin) (bytes : List UInt8) (c : Conn) :
    (writeAll o bytes c).wp heard (fun _ _ g' => Unfailed g') g := by
  have hloop : ∀ (fuel : ℕ) (c : Conn) (g : List (Sigma WriteResp)), Unfailed g →
      (writeAllLoop fuel c).wp heard (fun _ _ g' => Unfailed g') g := by
    intro fuel
    induction fuel with
    | zero => exact fun _ _ _ => trivial
    | succ fuel ih =>
      intro c g hu
      simp only [writeAllLoop, Proc.bind_apply, Proc.get_apply, Prog.bind_ret]
      rcases c.task with _ | ⟨o, _ | ⟨b, bs⟩⟩
      · trivial
      · exact hu
      · refine ⟨hu, fun r _ => ?_⟩
        have hu' : Unfailed (g ++ [⟨.awaitWrite (b :: bs), r⟩]) := hu.snoc id
        rcases r with e | _ | n
        · exact hu'
        · exact hu'
        · simp only [Prog.bind_ret]
          split_ifs with hn
          · exact ih _ _ hu'
          · trivial
  exact hloop _ _ g hu

/-- The answers that an async body hears are not those of a poll call. -/
theorem wp_handshake_unfailed (hu : Unfailed g) (c : Conn) :
    (VtMuxer.handshake c).wp heard (fun _ _ g' => Unfailed g') g := by
  simp only [VtMuxer.handshake, Proc.bind_apply, Proc.get_apply, Prog.bind_ret]
  rcases c.inner.state with _ | st | ⟨k, _ | w⟩
  · trivial
  · trivial
  · cases c.inner.buffer.isEmpty with
    | false => trivial
    | true =>
      refine ⟨hu, fun r _ => ?_⟩
      simp only [Prog.bind_ret, Proc.bind_apply, Prog.wp_bind]
      refine Prog.wp_mono ?_ (wp_writeAll_unfailed (hu.snoc (x := ⟨.awaitLock c.inner.fut, r⟩) id) .handshake _ _)
      rintro c' (e | ⟨⟩) g' hg'
      · exact hg'
      · exact hg'
  · trivial

theorem wp_sendEof_unfailed (hu : Unfailed g) (a : SocketAddr) (c : Conn) :
    (sendEof a c).wp heard (fun _ _ g' => Unfailed g') g := by
  simp only [sendEof, Proc.bind_apply, Prog.wp_bind]
  exact Prog.wp_mono (fun _ _ _ hg' => hg') (wp_writeAll_unfailed hu .eof _ c)

theorem wp_drop_unfailed (hu : Unfailed g) (c : Conn) : (VtMuxer.drop c).wp heard (fun _ _ g' => Unfailed g') g := by
  rcases hs : c.inner.state with _ | st | ⟨k, _ | _ | w⟩
  · simpa [VtMuxer.drop, hs] using hu
  · rw [drop_shutdown hs]
    exact hu
  · rw [drop_buffering hs]
    exact ⟨hu, fun r _ => wp_sendEof_unfailed (hu.snoc (x := ⟨.awaitLock c.inner.fut, r⟩) id) _ _⟩
  · rw [drop_unbegun hs]
    exact wp_sendEof_unfailed hu _ _
  · cases hfrom : c.inner.buffer.bytesFrom? (w + 1) with
    | none =>
      rw [drop_overrun hs hfrom]
      trivial
    | some rest =>
      rw [drop_begun hs hfrom, Prog.wp_bind]
      refine Prog.wp_mono ?_ (wp_writeAll_unfailed hu .data rest _)
      rintro c' (e | ⟨⟩) g' hg'
      · exact hg'
      · exact wp_sendEof_unfailed hg' _ _

/-- Whatever is asked of a connection, in whatever state: it returns `Pending` only with its waker
registered, and after a write that has failed it returns an error, without the guard. -/
theorem wp_body_settles (op : WriteOp) (c : Conn) :
    (op.body c).wp heard (fun c a g => (a.pends → Registered c g) ∧
      (Unfailed g ∨ Failed g ∧ a.failed ∧ c.inner.state.guarded = false)) [] := by
  simp only [WriteOp.body]
  cases op with
  | handshake =>
    simp only [Proc.bind_apply, Prog.wp_bind]
    exact Prog.wp_mono (fun _ _ _ hg => ⟨fun hp => hp.elim, Or.inl hg⟩) (wp_handshake_unfailed .nil c)
  | write cx buf =>
    simp only [Proc.bind_apply, Prog.wp_bind]
    refine Prog.wp_mono ?_ (wp_pollWrite_settles .nil cx buf c)
    rintro c' ((e | n) | _) g' hp
    · exact ⟨False.elim, hp.imp_right fun hf => ⟨hf.1, trivial, hf.2⟩⟩
    · exact ⟨False.elim, Or.inl hp⟩
    · exact ⟨fun _ => hp.1, Or.inl hp.2⟩
  | flush cx =>
    simp only [Proc.bind_apply, Prog.wp_bind]
    refine Prog.wp_mono ?_ (wp_pollFlush_settles .nil cx c)
    rintro c' ((e | n) | _) g' hp
    · exact ⟨False.elim, hp.imp_right fun hf => ⟨hf.1, trivial, hf.2⟩⟩
    · exact ⟨False.elim, Or.inl hp⟩
    · exact ⟨fun _ => hp.1, Or.inl hp.2⟩
  | shutdown cx =>
    simp only [Proc.bind_apply, Prog.wp_bind]
    refine Prog.wp_mono ?_ (wp_pollShutdown_settles .nil cx c)
    rintro c' ((e | n) | _) g' hp
    · exact ⟨False.elim, hp.imp_right fun hf => ⟨hf.1, trivial, hf.2⟩⟩
    · exact ⟨False.elim, Or.inl hp⟩
    · exact ⟨fun _ => hp.1, Or.inl hp.2⟩
  | drop =>
    simp only [Proc.bind_apply, Prog.wp_bind]
    exact Prog.wp_mono (fun _ _ _ hg => ⟨fun hp => hp.elim, Or.inl hg⟩) (wp_drop_unfailed .nil c)

end

/-- In every run: when a call has returned `Pending`, the last of all the answers that it has heard has
registered its waker, and the connection is in the queue of the mutex or holds the lock. -/
theorem pending_registered {ι : Type} [DecidableEq ι] {sockets : ι → SocketAddr} {S : Turns ι} {i : ι} {c : Conn}
    {a : Outcome} (h : (turns ι).Plays writeLock (fun _ => True) (Turns.init sockets) S)
    (hi : S.pool.threads i = .ret c a) (hp : a.pends) :
    (∃ S₀ op answers, (turns ι).Plays writeLock (fun _ => True) (Turns.init sockets) S₀ ∧
      (turns ι).Calls writeLock i op S₀ answers S) ∧
    (∀ S₀ op answers, (turns ι).Calls writeLock i op S₀ answers S → Registered c answers) ∧
    (c.inner.fut = true ∧ i ∈ S.order ∨ c.holds = true ∧ S.order.head? = some i) := by
  have hS : Orderly S := (Orderly.init sockets).plays h
  have hmem : S.pool.mems i = c := by simp [Pool.mems, hi, Prog.mem]
  have hcalled : ∃ S₀ op answers, (turns ι).Plays writeLock (fun _ => True) (Turns.init sockets) S₀ ∧
      (turns ι).Calls writeLock i op S₀ answers S := by
    refine (h.last_call (i := i) rfl).resolve_left fun hnew => ?_
    rw [hi] at hnew
    cases hnew
    exact hp
  have hreg : ∀ S₀ op answers, (turns ι).Calls writeLock i op S₀ answers S → Registered c answers := by
    intro S₀ op answers hcalls
    obtain ⟨c₀, a₀, -, hcomes⟩ := hcalls.comes
    rw [hi] at hcomes
    exact (hcomes.of_tracing (fun _ _ => trivial) (wp_body_settles op c₀)).1 hp
  refine ⟨hcalled, hreg, ?_⟩
  obtain ⟨S₀, op, answers, -, hcalls⟩ := hcalled
  rcases hreg S₀ op answers hcalls with ⟨-, hf⟩ | ⟨hg, -⟩
  · exact Or.inl ⟨hf, hS.placed i (by simp [writeLock, hmem, hf]) (by simp [Lock.asking, hi])⟩
  · have hh := Conn.holds_of_guarded hg
    exact Or.inr ⟨hh, hS.first i (hmem ▸ hh)⟩

/-- While the handshake of another connection has five bytes out, a flush is refused by the mutex. -/
theorem pending_registered_flush :
    ∃ (S S₀ : Turns Bool) (c : Conn), S.pool.threads true = .ret c (.flush .pending) ∧ S₀.order = [false] ∧
      (turns Bool).Plays writeLock (fun _ => True) (Turns.init fun _ => .unspecified) S₀ ∧
      (turns Bool).Calls writeLock true (.flush .noop) S₀ [⟨.tryLock, false⟩, ⟨.pollFut, false⟩] S ∧
      Registered c [⟨.tryLock, false⟩, ⟨.pollFut, false⟩] := by
  have hrun : ∃ S₀ : Turns Bool, (turns Bool).Plays writeLock (fun _ => True) (Turns.init fun _ => .unspecified) S₀ ∧
      S₀.pool.threads true = .ret (.init .unspecified) .new ∧ S₀.order = [false] :=
    ⟨_, .call false .handshake trivial rfl trivial <|
      .answer false ⟨.awaitLock false, ()⟩ trivial rfl ⟨trivial, fun _ => trivial⟩ (fun _ => Or.inl rfl) <|
      .answer false ⟨.awaitWrite (frame .unspecified []), .ok 5⟩ trivial rfl
        ⟨Nat.le_of_ble_eq_true rfl, fun _ => trivial⟩ nofun .refl, rfl, rfl⟩
  obtain ⟨S₀, hS₀, hnew, ho⟩ := hrun
  have hcall : ∃ S c, S.pool.threads true = .ret c (.flush .pending) ∧
      (turns Bool).Calls writeLock true (.flush .noop) S₀ [⟨.tryLock, false⟩, ⟨.pollFut, false⟩] S := by
    have htry : Answers true .tryLock false := ⟨trivial, fun _ => trivial⟩
    have hpoll : Answers true .pollFut false := ⟨trivial, fun _ => trivial⟩
    have hflush : (turns Bool).Calls writeLock true (.flush .noop) S₀ [] _ := .call hnew trivial
    exact ⟨_, _, rfl, (hflush.answer rfl false htry nofun).answer rfl false hpoll nofun⟩
  obtain ⟨S, c, hret, hcalls⟩ := hcall
  have hreg := (pending_registered (hS₀.trans hcalls.plays) hret trivial).2.1 _ _ _ hcalls
  exact ⟨S, S₀, c, hret, ho, hS₀, hcalls, hreg⟩

end VtMuxer
