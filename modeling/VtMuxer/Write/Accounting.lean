import VtMuxer.Write.Rules

/-! What `poll_write` reports against what it pushed. A slice that outgrows the buffer is
pushed in pieces, and a call that has already pushed something may still leave with
`Pending` (the lock is refused) or with an error (the flush fails): exactly then the bytes
it took are not reported. -/
namespace VtMuxer
open Interaction

def Honest : (q : WriteQuery) → WriteResp q → Prop
  | .write bytes, .ready (.ok n) => n ≤ bytes.length
  | .awaitWrite bytes, .ok n => n ≤ bytes.length
  | _, _ => True

/-- Answers that end the call: the queued lock is not granted, the socket fails. -/
def refused : Sigma WriteResp → Bool
  | ⟨.pollFut, false⟩ => true
  | ⟨.write _, .ready (.ok 0)⟩ => true
  | ⟨.write _, .ready (.error _)⟩ => true
  | _ => false

def taken : Sigma WriteResp → ℕ
  | ⟨.write _, .ready (.ok n)⟩ => n
  | _ => 0

def accepted (answers : List (Sigma WriteResp)) : ℕ := (answers.map taken).sum

/-- The unsent bytes of a frame that cannot grow, which have to go before anything is pushed. -/
def Conn.blocked (c : Conn) : ℕ :=
  match c.inner.state with
  | .writing _ .buffering => if c.inner.buffer.isFull then c.frameLen else 0
  | .writing _ (.flushing w) => if c.inner.buffer.mustFlushFor w then c.frameLen - w else 0
  | _ => 0

theorem Conn.blocked_of_room {c : Conn} {k : Waker} (hs : c.inner.state = .writing k .buffering)
    (hf : c.inner.buffer.isFull = false) : c.blocked = 0 := by
  simp [Conn.blocked, hs, hf]

/-- A call on `buf` that took `c` to `c'` accounts for what it pushed. -/
def Accounts (c c' : Conn) (buf : List UInt8) : Poll (Except IoError ℕ) → Prop
  | .ready (.ok n) => n ≤ buf.length ∧ c'.pushed = c.pushed ++ buf.take n
  | _ => c'.pushed = c.pushed

@[simp] theorem accepted_append (a b : List (Sigma WriteResp)) :
    accepted (a ++ b) = accepted a + accepted b := by simp [accepted]

@[simp] theorem accepted_singleton (x : Sigma WriteResp) : accepted [x] = taken x := by
  simp [accepted]

/-- The answers so far, in a call that began at `c₀` with the slice `buf₀`, when the loop
stands at `c` with `buf` left of it. -/
structure Progress (c₀ : Conn) (buf₀ : List UInt8) (c : Conn) (buf : List UInt8) (wrote : ℕ)
    (g : List (Sigma WriteResp)) : Prop where
  left : buf = buf₀.drop wrote
  le : wrote ≤ buf₀.length
  pushed : c.pushed = c₀.pushed ++ buf₀.take wrote
  clean : g.any refused = false
  idle : wrote = 0 → accepted g + c.blocked = c₀.blocked
  busy : wrote ≠ 0 → c₀.blocked ≤ accepted g

/-- The claim of the call, given the answers it received. -/
def Settled (c₀ : Conn) (buf₀ : List UInt8) (c' : Conn) (res : Poll (Except IoError ℕ))
    (g : List (Sigma WriteResp)) : Prop :=
  Accounts c₀ c' buf₀ res ↔ (g.any refused = true → accepted g < c₀.blocked)

section
variable {c₀ c c' : Conn} {buf₀ buf : List UInt8} {wrote : ℕ} {g g' : List (Sigma WriteResp)}

private theorem Progress.pushed_eq_iff (h : Progress c₀ buf₀ c buf wrote g) :
    c.pushed = c₀.pushed ↔ wrote = 0 := by
  rw [h.pushed, List.append_right_eq_self, List.take_eq_nil_iff]
  constructor
  · rintro (h0 | h0)
    · exact h0
    · have := h.le
      simp_all
  · exact Or.inl

/-- A call that leaves without a refusal reports what it pushed. -/
private theorem Progress.settled_ok (h : Progress c₀ buf₀ c buf wrote g)
    (hp : c'.pushed = c.pushed) (hg : g'.any refused = false) :
    Settled c₀ buf₀ c' (.ready (.ok wrote)) g' := by
  simp [Settled, Accounts, hg, hp, h.le, h.pushed]

private theorem Progress.settled_pending (h : Progress c₀ buf₀ c buf wrote g)
    (hp : c'.pushed = c.pushed) (hg : g'.any refused = false) (hw : wrote = 0) :
    Settled c₀ buf₀ c' .pending g' := by
  simpa [Settled, Accounts, hg, hp] using h.pushed_eq_iff.mpr hw

/-- A call that leaves refused has lost track of its bytes exactly if it pushed any. -/
private theorem Progress.settled_refused (h : Progress c₀ buf₀ c buf wrote g)
    (hp : c'.pushed = c.pushed) (hg : g'.any refused = true) (hle : accepted g ≤ accepted g')
    (hlt : wrote = 0 → accepted g' < c₀.blocked) {res : Poll (Except IoError ℕ)}
    (hres : ∀ n, res ≠ .ready (.ok n)) : Settled c₀ buf₀ c' res g' := by
  have ha : Accounts c₀ c' buf₀ res ↔ wrote = 0 := by
    rw [← h.pushed_eq_iff, ← hp]
    match res, hres with
    | .ready (.ok n), hres => exact absurd rfl (hres n)
    | .ready (.error _), _ => rfl
    | .pending, _ => rfl
  rw [Settled, ha, hg]
  constructor
  · exact fun hw _ => hlt hw
  · intro hc
    by_contra hw
    have := h.busy hw
    have := hc rfl
    omega

private abbrev Traced : Contract WriteQuery WriteResp Conn (List (Sigma WriteResp)) :=
  tracing Conn Honest

/-- A flush either refuses the call, suspends it, or hands an empty buffer to what follows. -/
private theorem Progress.wp_flushThen {k : Waker} {w : ℕ} (h : Progress c₀ buf₀ c buf wrote g)
    (hs : c.inner.state = .writing k (.flushing w))
    (hb : wrote = 0 → c.inner.buffer.mustFlushFor w = true) {rest : WriteM (Poll (Except IoError ℕ))}
    (hrest : ∀ c' g', c'.inner.state = .writing k .buffering → c'.inner.buffer.isFull = false →
      Progress c₀ buf₀ c' buf wrote g' → (rest c').wp Traced (Settled c₀ buf₀) g') :
    (flushThen wrote rest c).wp Traced (Settled c₀ buf₀) g := by
  simp only [flushThen, Proc.bind_apply, Prog.wp_bind]
  have hwr : c.inner.state.written = w := by rw [hs]; rfl
  rcases lt_or_ge c.frameLen w with hover | hw
  · exact wp_flushLoop_over (hwr ▸ hover) _ trivial
  have hblk : wrote = 0 → accepted g + (c.frameLen - w) = c₀.blocked := by
    intro h0
    have hi := h.idle h0
    simpa [Conn.blocked, hs, hb h0] using hi
  refine FlushRule.wp_flushBuf
    (J := fun v g' => g'.any refused = false ∧ w ≤ v ∧ accepted g' = accepted g + (v - w)) ?_
    ⟨h.clean, hwr.ge, by simp [hwr]⟩ (hwr ▸ hw)
  constructor
  case guarded => rw [hs]; rfl
  case wide =>
    have := c.inner.buffer.length_data
    simp only [hs, WritePipeState.counterBits, Conn.frameLen]
    omega
  case ask => exact fun _ _ _ _ => trivial
  case honest => exact fun _ _ _ hn => hn
  case step =>
    rintro v g' n ⟨hc, hv, ha⟩ hn _
    obtain ⟨n, rfl⟩ : ∃ m, n = m + 1 := ⟨n - 1, by omega⟩
    simp only [tracing]
    refine ⟨by simp [hc, refused], by omega, ?_⟩
    rw [accepted_append, accepted_singleton, ha]
    simp only [taken]
    omega
  case zero =>
    rintro v g' ⟨hc, hv, ha⟩ hlt _
    simp only [Proc.bind_apply, Proc.modify_apply, Prog.bind_ret, Proc.pure_apply, Prog.wp_ret, tracing]
    refine h.settled_refused (by simp) (by simp [refused]) (by simp [ha, taken]) ?_ (by simp)
    intro h0
    have := hblk h0
    simp [ha, taken]
    omega
  case error =>
    rintro v g' e ⟨hc, hv, ha⟩ hlt _
    simp only [Proc.bind_apply, Proc.modify_apply, Prog.bind_ret, Proc.pure_apply, Prog.wp_ret, tracing]
    refine h.settled_refused (by simp) (by simp [refused]) (by simp [ha, taken]) ?_ (by simp)
    intro h0
    have := hblk h0
    simp [ha, taken]
    omega
  case pending =>
    rintro v g' ⟨hc, hv, ha⟩ hlt
    simp only [tracing]
    by_cases h0 : wrote = 0
    · simp only [h0, ne_eq, not_true_eq_false, if_false, Proc.pure_apply, Prog.wp_ret]
      exact h.settled_pending rfl (by simp [List.any_append, hc, refused]) h0
    · simp only [h0, ne_eq, not_false_eq_true, if_true, Proc.pure_apply, Prog.wp_ret]
      exact h.settled_ok rfl (by simp [List.any_append, hc, refused])
  case finish =>
    rintro g' ⟨hc, hv, ha⟩
    simp only [Proc.bind_apply, Proc.modify_apply, Prog.bind_ret]
    have hst : (c.setWritten c.frameLen).clear.inner.state = .writing k (.flushing c.frameLen) := by
      simp [hs, WritePipeState.setWritten]
    have hfull : (c.setWritten c.frameLen).clear.release.inner.buffer.isFull = false := by
      rw [Bool.eq_false_iff, ne_eq, PacketBuffer.isFull_iff]
      simp
    refine hrest _ _ (Conn.release_state hst) hfull ⟨h.left, h.le, by simp [h.pushed], hc, ?_, ?_⟩
    · intro h0
      have := hblk h0
      rw [Conn.blocked_of_room (Conn.release_state hst) hfull, ha]
      omega
    · intro h0
      have := h.busy h0
      omega

private theorem Progress.push {w : ℕ} (h : Progress c₀ buf₀ c buf wrote g) (hne : buf ≠ [])
    (hroom : c.inner.buffer.mustFlushFor w = false) (hb : c.blocked = 0) :
    Progress c₀ buf₀ (c.push buf w) (buf.drop (c.inner.buffer.push buf w).1)
      (wrote + (c.inner.buffer.push buf w).1) g := by
  have hpos := PacketBuffer.push_fst_pos hne hroom
  have hle := PacketBuffer.push_fst_le c.inner.buffer buf w
  have hlen : buf.length = buf₀.length - wrote := by rw [h.left, List.length_drop]
  refine ⟨by rw [h.left, List.drop_drop], by have := h.le; omega, ?_, h.clean, by omega, ?_⟩
  · rw [Conn.push_pushed, h.pushed, List.append_assoc, List.take_add, ← h.left]
  · intro _
    by_cases h0 : wrote = 0
    · have := h.idle h0
      omega
    · exact h.busy h0

private theorem Progress.wp_writeLoop (fuel : ℕ) :
    ∀ (c : Conn) (buf : List UInt8) (wrote : ℕ) (g : List (Sigma WriteResp)),
      (∃ k st, c.inner.state = .writing k st) → Progress c₀ buf₀ c buf wrote g →
        (writeLoop fuel buf wrote c).wp Traced (Settled c₀ buf₀) g := by
  induction fuel with
  | zero => exact fun _ _ _ _ _ _ => trivial
  | succ fuel ih =>
    rintro c buf wrote g ⟨k, st, hs⟩ h
    have hpush : ∀ (c : Conn) (g : List (Sigma WriteResp)), c.inner.state = .writing k .buffering →
        c.inner.buffer.isFull = false → buf ≠ [] → Progress c₀ buf₀ c buf wrote g →
        ((do let n ← pushBuf buf 0; writeLoop fuel (buf.drop n) (wrote + n) :
          WriteM (Poll (Except IoError ℕ))) c).wp Traced (Settled c₀ buf₀) g := by
      intro c g hs hf hne h
      exact ih _ _ _ _ ⟨k, _, hs⟩ (h.push hne (by rw [PacketBuffer.mustFlushFor_zero, hf])
        (Conn.blocked_of_room hs hf))
    by_cases hne : buf = []
    · have h0 : buf₀.take wrote = buf₀ := by
        have := h.left
        rw [hne, eq_comm, List.drop_eq_nil_iff] at this
        exact List.take_of_length_le this
      simpa [writeLoop, hne] using h.settled_ok rfl h.clean
    cases st with
    | buffering =>
      cases hf : c.inner.buffer.isFull with
      | false => simpa [writeLoop, hne, hs, hf] using hpush c g hs hf hne h
      | true =>
        have hb : c.blocked = c.frameLen := by simp [Conn.blocked, hs, hf]
        simp only [writeLoop, hne, if_false, Proc.bind_apply, Proc.get_apply, Prog.bind_ret, hs, hf,
          if_true, Prog.wp_bind]
        refine LockRule.wp_pollLocked (K := fun g' => g'.any refused = false ∧ accepted g' = accepted g)
          hs ?_ ⟨h.clean, rfl⟩
        have hgot : ∀ g', g'.any refused = false → accepted g' = accepted g →
            Progress c₀ buf₀ ((c.setFut false).setState (.writing k (.flushing 0))) buf wrote g' := by
          intro g' hc ha
          refine ⟨h.left, h.le, h.pushed, hc, ?_, fun h0 => ha ▸ h.busy h0⟩
          intro h0
          rw [ha, ← h.idle h0, hb]
          simp [Conn.blocked, PacketBuffer.mustFlushFor_zero, hf, Conn.frameLen]
        have hflush : ∀ g', Progress c₀ buf₀ ((c.setFut false).setState (.writing k (.flushing 0)))
            buf wrote g' →
            (flushThen wrote (do let n ← pushBuf buf 0; writeLoop fuel (buf.drop n) (wrote + n))
              ((c.setFut false).setState (.writing k (.flushing 0)))).wp Traced (Settled c₀ buf₀) g' :=
          fun g' hp => hp.wp_flushThen rfl (fun _ => hf) fun c' g'' hs' hf' hp' =>
            hpush c' g'' hs' hf' hne hp'
        constructor
        case askTry => exact fun _ _ => trivial
        case askPoll => exact fun _ _ => trivial
        case refused =>
          rintro g' ⟨hc, ha⟩
          simp [tracing, hc, ha, refused, taken]
        case tried =>
          rintro g' ⟨hc, ha⟩ _
          exact hflush _ (hgot _ (by simp [tracing, hc, refused]) (by simp [tracing, ha, taken]))
        case polled =>
          rintro g' ⟨hc, ha⟩ _
          exact hflush _ (hgot _ (by simp [tracing, hc, refused]) (by simp [tracing, ha, taken]))
        case pending =>
          rintro g' ⟨hc, ha⟩
          show Settled c₀ buf₀ (c.setFut true) .pending (g' ++ [⟨.pollFut, false⟩])
          have ha' : accepted (g' ++ [⟨.pollFut, false⟩]) = accepted g := by simp [ha, taken]
          have hres : ∀ n, (.pending : Poll (Except IoError ℕ)) ≠ .ready (.ok n) := by simp
          refine h.settled_refused rfl (by simp [refused]) ha'.ge ?_ hres
          intro h0
          have := h.idle h0
          unfold Conn.frameLen at hb
          omega
    | flushing w =>
      cases hf : c.inner.buffer.mustFlushFor w with
      | true =>
        simp only [writeLoop, hne, if_false, Proc.bind_apply, Proc.get_apply, Prog.bind_ret, hs, hf,
          if_true]
        exact h.wp_flushThen hs (fun _ => hf) fun c' g' hs' _ hp => ih _ _ _ _ ⟨k, _, hs'⟩ hp
      | false =>
        have hp := h.push hne hf (by simp [Conn.blocked, hs, hf])
        have hpos := PacketBuffer.push_fst_pos hne hf
        simp only [writeLoop, hne, if_false, Proc.bind_apply, Proc.get_apply, Prog.bind_ret, hs, hf,
          Bool.false_eq_true, pushBuf, Proc.modify_apply, Proc.pure_apply]
        exact hp.wp_flushThen hs (by omega) fun c' g' hs' _ hp' => ih _ _ _ _ ⟨k, _, hs'⟩ hp'

end

/-- `poll_write` accounts for what it pushed exactly if no refusal struck it after it had
sent off the frame that blocked its buffer. -/
theorem pollWrite_accounts_iff {c c' : Conn} {cx : Waker} {buf : List UInt8}
    {answers : List (Sigma WriteResp)} {res : Poll (Except IoError ℕ)}
    (hr : (pollWrite cx buf c).Runs answers c' res) (hh : ∀ a ∈ answers, Honest a.1 a.2) :
    Accounts c c' buf res ↔ (answers.any refused = true → accepted answers < c.blocked) := by
  have hwp : (pollWrite cx buf c).wp Traced (Settled c buf) [] := by
    refine Prog.wp_onFault (fun _ _ _ => trivial) ?_
    simp only [Proc.bind_apply, Proc.get_apply, Prog.bind_ret]
    match hs : c.inner.state with
    | .poisoned => trivial
    | .shutdown _ => simp [Settled, Accounts]
    | .writing k st =>
      refine Progress.wp_writeLoop _ _ _ _ _ ⟨cx, st, rfl⟩ ⟨rfl, Nat.zero_le _, by simp, rfl, ?_, ?_⟩
      · intro _
        simp [Conn.blocked, accepted, hs, Conn.frameLen]
        cases st <;> rfl
      · simp
  simpa [Settled] using hr.of_tracing hh hwp

/-- A frame of one byte whose header is sent, to be finished before the next byte is taken. -/
private def halfSent : Conn where
  inner := ⟨false, .writing .noop (.flushing 20), ⟨.unspecified, [7], by simp⟩⟩
  task := none
  opened := true
  pushed := [7]
  woken := []
  last := none

theorem pollWrite_accounts_halfSent :
    ∃ c', (pollWrite .noop [1, 2] halfSent).Runs [⟨.write [7], .ready (.ok 1)⟩] c' (.ready (.ok 2)) ∧
      Accounts halfSent c' [1, 2] (.ready (.ok 2)) := by
  have hr : (pollWrite .noop [1, 2] halfSent).Runs [⟨.write [7], .ready (.ok 1)⟩]
      ⟨⟨false, .writing .noop .buffering, ⟨.unspecified, [1, 2], by simp⟩⟩, none, true, [7, 1, 2], [], none⟩
      (.ready (.ok 2)) := Prog.runs_of_run (by rfl)
  exact ⟨_, hr, (pollWrite_accounts_iff hr (by simp [Honest])).mpr (by simp [refused])⟩

section Overflow
variable {buf : List UInt8}

private theorem push_init_fst (h : 65535 < buf.length) :
    ((Conn.init .unspecified).inner.buffer.push buf 0).1 = 65535 := by
  rw [PacketBuffer.push_fst]
  exact min_eq_right h.le

/-- On a new connection a slice longer than the buffer is pushed as far as it fits before the
lock is asked for; if the lock is refused, the call is pending and has pushed all the same. -/
private theorem runs_refused (h : 65535 < buf.length) :
    (pollWrite .noop buf (.init .unspecified)).Runs [⟨.tryLock, false⟩, ⟨.pollFut, false⟩]
      (((Conn.init .unspecified).push buf 0).setFut true) .pending := by
  have hne : buf ≠ [] := List.ne_nil_of_length_pos (by omega)
  have hleft : buf.drop 65535 ≠ [] := by
    rw [ne_eq, List.drop_eq_nil_iff]
    omega
  have hroom : (Conn.init .unspecified).inner.buffer.isFull = false := by
    rw [Bool.eq_false_iff, ne_eq, PacketBuffer.isFull_iff]
    simp [Conn.init]
  have hfull : ((Conn.init .unspecified).push buf 0).inner.buffer.isFull = true := by
    rw [PacketBuffer.isFull_iff, Conn.push_buffer, PacketBuffer.push_data, push_init_fst h]
    simp [Conn.init, h.le]
  have hs : (Conn.init .unspecified).inner.state = .writing .noop .buffering := rfl
  have hs' : ((Conn.init .unspecified).push buf 0).inner.state = .writing .noop .buffering := rfl
  have hfut : ((Conn.init .unspecified).push buf 0).inner.fut = false := rfl
  have hloop : ∀ fuel, (writeLoop (fuel + 2) buf 0 (.init .unspecified)).Runs
      [⟨.tryLock, false⟩, ⟨.pollFut, false⟩]
      (((Conn.init .unspecified).push buf 0).setFut true) .pending := by
    intro fuel
    rw [writeLoop, if_neg hne]
    simp only [Proc.bind_apply, Proc.get_apply, Prog.bind_ret, hs, hroom, Bool.false_eq_true, if_false,
      pushBuf, Proc.modify_apply, Proc.pure_apply, push_init_fst h]
    rw [writeLoop, if_neg hleft]
    simp only [Proc.bind_apply, Proc.get_apply, Prog.bind_ret, hs', hfull, if_true, pollLocked,
      pollLock, hfut, Bool.false_eq_true, if_false, Proc.ask_apply, Prog.bind_ask]
    apply Prog.Runs.ask
    apply Prog.Runs.ask
    exact .ret _ _
  exact (hloop _).onFault

private theorem not_accounts_refused (h : 65535 < buf.length) :
    ¬ Accounts (.init .unspecified) (((Conn.init .unspecified).push buf 0).setFut true) buf .pending := by
  simp only [Accounts, Conn.setFut_pushed, Conn.push_pushed, push_init_fst h]
  intro hp
  have hl := congrArg List.length hp
  simp only [List.length_append, List.length_take] at hl
  omega

end Overflow

/-- A fresh connection, 65536 bytes to write and another connection holding the lock: 65535
bytes are pushed, `Pending` is returned and the caller will offer them again. -/
theorem pollWrite_loses_count :
    ∃ (answers : List (Sigma WriteResp)) (c' : Conn), (∀ a ∈ answers, Honest a.1 a.2) ∧
      (pollWrite .noop (List.replicate 65536 0) (.init .unspecified)).Runs answers c' .pending ∧
      ¬ Accounts (.init .unspecified) c' (List.replicate 65536 0) .pending := by
  have hl : 65535 < (List.replicate 65536 (0 : UInt8)).length := by
    rw [List.length_replicate]
    omega
  exact ⟨_, _, by simp [Honest], runs_refused hl, not_accounts_refused hl⟩

end VtMuxer
