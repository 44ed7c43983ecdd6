import VtMuxer.Write.Framing

/-! Every call on a connection keeps its frames in order, whatever the socket takes at a
time and however long the lock is withheld. -/
namespace VtMuxer
open Interaction

section
variable {c : Conn} {g : Sent} {drops : Prop}

theorem Alive.start (h : Alive c g) : Alive c ((framing drops).start c g) := by
  obtain ⟨ht, -, hk, closed, ps, hs, hp, hst⟩ := h
  exact ⟨ht, fun hh => hh, hk, closed, ps, hs.congr rfl rfl rfl rfl, hp, hst⟩

theorem Alive.setWaker (h : Alive c g) {k : Waker} {st : WriteState}
    (hs : c.inner.state = .writing k st) (cx : Waker) : Alive (c.setState (.writing cx st)) g := by
  obtain ⟨ht, hh, hk, closed, ps, hse, hp, hst⟩ := h
  rw [hs] at hst
  have ho : (c.setState (.writing cx st)).origin = c.origin := by simp [Conn.origin, ht, hs]
  refine ⟨ht, fun hh' => hh ?_, ho ▸ hk, closed, ps, hse.congr rfl rfl rfl rfl, hp, ?_⟩
  · cases st with
    | buffering => simp [Conn.holds, ht, WritePipeState.guarded] at hh'
    | flushing w => simp [Conn.holds, hs, WritePipeState.guarded]
  · cases st with
    | buffering => exact hst
    | flushing w => exact hst

theorem Alive.not_holds (h : Alive c g) {k : Waker} (hs : c.inner.state = .writing k .buffering) :
    c.holds = false := by
  simp [Conn.holds, h.1, hs, WritePipeState.guarded]

theorem Alive.not_poisoned (h : Alive c g) : c.inner.state ≠ .poisoned := by
  intro hs
  obtain ⟨-, -, -, _, _, -, -, hst⟩ := h
  rw [hs] at hst
  exact hst

theorem Alive.data_ne_nil (h : Alive c g) (hg : c.inner.state.guarded = true) (hf : c.inner.state.final = false) :
    c.inner.buffer.data ≠ [] := by
  obtain ⟨-, -, -, _, _, -, -, hst⟩ := h
  rcases WritePipeState.guarded_cases hg with ⟨k, w, hs⟩ | ⟨w, hs⟩ | ⟨w, hs⟩
  · rw [hs] at hst
    exact hst.2.1
  · rw [hs] at hst
    exact hst.2.1
  · rw [hs] at hf
    cases hf

theorem Spoken.flushed (h : Spoken c g) {k : Waker} {w : ℕ} (hs : c.inner.state = .writing k (.flushing w)) :
    Flushed c g := by
  obtain ⟨ps, hse, hpu⟩ := h.sends
  rw [hs] at hse
  exact ⟨h.task, ⟨k, w, hs⟩, h.held, h.data, h.part, ps, hse, hpu⟩

theorem Alive.lockedEmpty (h : Alive c g) {k : Waker} (hs : c.inner.state = .writing k .buffering)
    (hh : g.held = true) (hd : c.inner.buffer.data = []) :
    Spoken ((c.setFut false).setState (.writing k (.flushing 0))) g := by
  obtain ⟨ht, -, -, closed, ps, hse, hp, hst⟩ := h
  rw [hs] at hst
  obtain ⟨rfl, hpart⟩ := hst
  exact ⟨ht, rfl, hh, hd, hpart, ps, hse.congr rfl rfl rfl rfl, by simpa [hd] using hp⟩

/-- The data of a connection is out and the final frame is next. -/
theorem Sends.last {ps : List (List UInt8)} (hse : Sends c g false ps) (ht : c.task = none)
    (hh : g.held = true) (hd : c.inner.buffer.data = []) (hp : g.part = [])
    (hpu : ps.flatten = c.pushed) : Alive (c.setState (.shutdown (.writing 0))) g := by
  refine ⟨ht, fun _ => hh, fun hne => absurd hp hne, false, ps, hse.congr rfl rfl rfl rfl,
    by simp [hd, hpu], rfl, hd, ?_, by simp [hp]⟩
  simp only [Conn.frameLen]
  omega

/-- A shutdown begins where the lock is to be asked for, or inside a frame. -/
theorem Alive.shut (h : Alive c g) {k : Waker} (hs : c.inner.state = .writing k .buffering) :
    Alive ((c.setState (.shutdown .waitingLock)).wake k) g := by
  obtain ⟨ht, -, -, closed, ps, hse, hpu, hst⟩ := h
  rw [hs] at hst
  refine ⟨ht, fun hh' => ?_, fun hne => absurd hst.2 hne, closed, ps, hse.congr rfl rfl rfl rfl, hpu, hst⟩
  simp [Conn.holds, ht, WritePipeState.guarded] at hh'

theorem Alive.shutLocked (h : Alive c g) {k : Waker} {w : ℕ} (hs : c.inner.state = .writing k (.flushing w)) :
    Alive ((c.setState (.shutdown (.flushing w))).wake k) g := by
  obtain ⟨ht, hh, hk, closed, ps, hse, hpu, hst⟩ := h
  rw [hs] at hst
  have hhe : g.held = true := hh (by simp [Conn.holds, hs, WritePipeState.guarded])
  have ho : ((c.setState (.shutdown (.flushing w))).wake k).origin = c.origin := by
    simp [Conn.origin, ht, hs]
  exact ⟨ht, fun _ => hhe, ho ▸ hk, closed, ps, hse.congr rfl rfl rfl rfl, hpu, hst⟩

theorem Alive.stage (h : Alive c g) (hs : c.inner.state = .shutdown .waitingLock) (hh : g.held = true)
    (hd : c.inner.buffer.data ≠ []) : Alive ((c.setFut false).setState (.shutdown (.flushing 0))) g := by
  obtain ⟨ht, -, -, closed, ps, hse, hpu, hst⟩ := h
  rw [hs] at hst
  obtain ⟨rfl, hp⟩ := hst
  refine ⟨ht, fun _ => hh, fun hne => absurd hp hne, false, ps, hse.congr rfl rfl rfl rfl, hpu, rfl, hd,
    Conn.zero_lt_frameLen _, by simp [hp]⟩

theorem Alive.stageEmpty (h : Alive c g) (hs : c.inner.state = .shutdown .waitingLock) (hh : g.held = true)
    (hd : c.inner.buffer.data = []) : Alive ((c.setFut false).setState (.shutdown (.writing 0))) g := by
  obtain ⟨ht, -, -, closed, ps, hse, hpu, hst⟩ := h
  rw [hs] at hst
  obtain ⟨rfl, hp⟩ := hst
  have hse' : Sends (c.setFut false) g false ps := hse.congr rfl rfl rfl rfl
  exact hse'.last ht hh hd hp (by simpa [hd] using hpu)

theorem Spoken.done (h : Spoken c g) {w : ℕ} (hs : c.inner.state = .shutdown (.writing w)) :
    Alive (c.setState (.shutdown .done)) g := by
  obtain ⟨ps, hse, hpu⟩ := h.sends
  rw [hs] at hse
  exact ⟨h.task, fun _ => h.held, fun hne => absurd h.part hne, true, ps, hse.congr rfl rfl rfl rfl,
    by simp [h.data, hpu], rfl, h.data, h.part⟩

theorem Alive.shutdownRule (drops : Prop) : ShutdownRule (framing drops) Alive (fun c g => Alive c g ∧ g.held = true) Spoken
    (fun _ _ => False) (Idle drops) := by
  constructor
  case lock =>
    intro c g post h hu hgot hpend
    exact h.wp_pollLock (Conn.not_holds h.1 hu) (fun g' ha hh => hgot g' ⟨ha, hh⟩) hpend
  case flush =>
    intro c g post h hg hpend _ hfin
    exact h.wp_flushBuf hg hpend fun g' he => hfin g' (h.spoken hg he)
  case stage => exact fun h hs hd => h.1.stage hs h.2 hd
  case stageEmpty => exact fun h hs hd => h.1.stageEmpty hs h.2 hd
  case pass => exact fun h hs hd => absurd hd (h.data_ne_nil (by rw [hs]; rfl) (by rw [hs]; rfl))
  case next =>
    intro c g w h hs
    obtain ⟨ps, hse, hpu⟩ := h.sends
    rw [hs] at hse
    exact hse.last h.task h.held h.data h.part hpu
  case done => exact fun h hs => ⟨h.done hs, rfl⟩
  case final =>
    intro c g w h hs
    obtain ⟨-, -, -, _, _, -, -, hst⟩ := h
    rw [hs] at hst
    exact hst.2.1
  case tolerant => exact fun hf => hf
  case calm =>
    intro c g a h ha
    unfold Outcome.calm at ha
    split at ha
    · exact h
    · exact h
    · exact h
    · exact h
    · exact ha.elim
  case again => exact fun h hs => ⟨h, hs⟩
  case broken => exact fun h _ => h
  case failedShut => exact fun h _ => h.elim

/-- The poll calls keep a connection in order. -/
theorem Alive.pollRule (drops : Prop) : PollRule (framing drops) Alive (fun c g => Alive c g ∧ g.held = true) Spoken
    (fun _ _ => False) (Idle drops) := by
  constructor
  case toShutdownRule => exact Alive.shutdownRule drops
  case socket =>
    intro c g k w h hs
    have hfl := h.flushed hs
    refine ⟨hfl, ?_, ?_⟩
    · intro hok
      cases hok
    intro res hok
    obtain rfl : res = .ok () := by simpa [framing, Smooth] using hok
    obtain ⟨ht, hst, -, hd, hp, ps, hse, hpu⟩ := hfl
    have hnext : Flushed c ((framing drops).upd c .flush (.ready (.ok ())) g) :=
      ⟨ht, hst, by simp [framing, Sent.answer, Conn.holds, h.guarded], hd, hp, ps, hse.congr rfl rfl rfl rfl, hpu⟩
    exact hnext.release
  case waker => exact fun cx h hs => h.setWaker hs cx
  case push => exact fun buf h hs => h.push hs buf
  case locked => exact fun h hs hd => h.1.locked hs h.2 hd false
  case lockedEmpty => exact fun h hs hd => h.1.lockedEmpty hs h.2 hd
  case empty => exact fun h hs hd => absurd hd (h.data_ne_nil (by rw [hs]; rfl) (by rw [hs]; rfl))
  case release => exact fun h hs => (h.flushed hs).release
  case shut => exact fun h hs => h.shut hs
  case shutLocked => exact fun h hs => h.shutLocked hs
  case sound => exact fun h => h.not_poisoned
  case refused => exact fun h _ => ⟨h, h⟩
  case failed => exact fun h _ => h.elim

section
variable {post : Conn → Except IoError Unit → Sent → Prop} {o : Origin} {bytes : List UInt8}
  {g₀ : Sent}

theorem wp_writeAll {w : ℕ}
    (hask : ∀ w g, g₀.Upto o bytes w g → w < bytes.length →
      (framing drops).inv (c.setTask (some (o, bytes.drop w))) (.awaitWrite (bytes.drop w)) g)
    (hfin : ∀ g, g₀.Ends o bytes g → post (c.setTask (some (o, []))) (.ok ()) g)
    (hu : g₀.Upto o bytes w g) (hw : w ≤ bytes.length) :
    (writeAll o (bytes.drop w) c).wp (framing drops) post g := by
  have hrule : WriteAllRule (framing drops) (g₀.Upto o bytes) c o bytes post := by
    constructor
    case ask => exact hask
    case honest => exact fun _ _ _ hok => hok.2
    case step => exact fun w g n hu _ _ => hu.put (n := n) (by omega)
    case zero => exact fun _ _ _ hok => absurd hok.1 (by decide)
    case error => exact fun _ _ _ _ hok => hok.elim
    case finish => exact fun g hu => hfin g hu.ends
  exact hrule.wp_writeAll hu hw

end

theorem Fresh.wp_handshake (h : Fresh c g) :
    (VtMuxer.handshake c).wp (framing drops) (fun c _ g => Alive c g ∧ c.opened = true) g := by
  obtain ⟨ht, ⟨k, hs⟩, hd, ho, hpu, hso, hdone, hp⟩ := h
  have he : c.inner.buffer.isEmpty = true := (PacketBuffer.isEmpty_iff _).mpr hd
  have hb : c.inner.buffer.bytes = (frame c.addr []).drop 0 := by
    rw [PacketBuffer.bytes_eq_frame, hd]
    rfl
  simp only [VtMuxer.handshake, VtMuxer.lock, Proc.bind_apply, Proc.get_apply, Prog.bind_ret, hs, he,
    Proc.modify_apply, Proc.ask_apply, Prog.bind_ask, Prog.wp_ask]
  refine ⟨Or.inl ⟨ht, ⟨k, hs⟩, hd, ho, hpu, hso, hdone, hp⟩, ?_⟩
  intro _ _
  rw [Prog.wp_bind, hb]
  refine wp_writeAll (c := c.setFut false) ?_ ?_ (Sent.Upto.zero ?_ ?_ (frame_ne_nil _ _)) (Nat.zero_le _)
  · intro w g' hu hw
    refine Or.inl ⟨hu.awaits hw, rfl, ⟨k, hs⟩, hd, ho, hpu, hso.trans hu.2.1.symm, ?_, rfl⟩
    exact (hu.2.2.1 hw).1.trans hdone
  · intro g' he'
    refine ⟨⟨rfl, fun _ => he'.held, fun hne => absurd he'.part hne, false, [],
      ⟨hso.trans he'.socket.symm, ?_, by simp⟩, ?_, ?_⟩, rfl⟩
    · rw [he'.done]
      simp only [framing, Sent.answer, hdone]
      rfl
    · simp [hd, hpu]
    · simpa [hs] using ⟨rfl, he'.part⟩
  · simp [framing, Sent.answer, granted]
  · exact hp

theorem Idle.alive {a : Outcome} {op : WriteOp} (h : Idle drops c a g) (hm : a.may op) :
    Alive c g := by
  unfold Idle at h
  split at h
  · exact h.1
  · exact hm.elim
  · exact h.1
  · exact h.1
  · exact h

/-- What a drop leaves behind: a frame is unfinished only if a shutdown was inside it. -/
def Parts (c : Conn) (g : Sent) : Prop :=
  Gone c g ∧ (g.part ≠ [] → ∃ st, c.last = some (.shutdown st) ∧ (WritePipeState.shutdown st).written ≠ 0)

theorem wp_sendEof (hdr : drops) (hs : c.inner.state = .poisoned) (ho : c.orderly)
    {ps : List (List UInt8)} (hse : Sends c g false ps) (hh : g.held = true) (hp : g.part = []) :
    (sendEof c.addr c).wp (framing drops) (fun c _ g => Parts c g) g := by
  have hb : (MuxFrameHeader.empty c.addr).bytes = (frame c.addr []).drop 0 := (frame_nil _).symm
  simp only [sendEof, Proc.bind_apply, Prog.wp_bind]
  rw [hb]
  refine wp_writeAll ?_ ?_ (Sent.Upto.zero hh hp (frame_ne_nil _ _)) (Nat.zero_le _)
  · intro w g' hu hw
    exact Or.inr ⟨hdr, hs, ho, ⟨ps, hse.congr rfl rfl hu.2.1 (hu.2.2.1 hw).1⟩, Or.inr (hu.awaits hw)⟩
  · intro g' he
    exact ⟨⟨rfl, hs, true, ps, (hse.close he).congr rfl rfl rfl rfl, fun _ => ⟨rfl, he.part⟩,
      fun hn => absurd ho hn⟩, fun hne => absurd he.part hne⟩

/-- A drop in the middle of a shutdown leaves everything as it is. -/
theorem Alive.parts (h : Alive c g) {st : ShutDownState} (hs : c.inner.state = .shutdown st) :
    Parts (c.retire.setFut false) g := by
  have hpart : g.part ≠ [] → c.inner.state.written ≠ 0 := by
    intro hne h0
    rcases h.between_or_inside with ⟨-, hp, -⟩ | ⟨-, ⟨-, hp⟩, -⟩
    · exact hne hp
    · rw [h0] at hp
      exact hne hp
  obtain ⟨ht, -, -, closed, ps, hse, -, hst⟩ := h
  rw [hs] at hst hpart
  refine ⟨⟨ht, rfl, closed, ps, hse.congr rfl rfl rfl rfl, ?_, ?_⟩, fun hne => ⟨st, by simp [Conn.retire, hs], hpart hne⟩⟩
  · rintro (⟨k, st', hl⟩ | hl)
    · simp [hs] at hl
    · obtain rfl : st = .done := by simpa [hs] using hl
      exact ⟨hst.1, hst.2.2⟩
  · intro hn
    have hl : c.inner.buffer.data.length ≤ 65535 := c.inner.buffer.length_data
    match st with
    | .waitingLock => exact ⟨hst.1, [], 0, by simp, by simp, by simp [hst.2]⟩
    | .flushing w => exact ⟨hst.1, c.inner.buffer.data, w, hl, hst.2.2.1, hst.2.2.2⟩
    | .writing w => exact ⟨hst.1, c.inner.buffer.data, w, hl, hst.2.2.1, hst.2.2.2⟩
    | .done => exact absurd (Or.inr (by simp [hs])) hn
    | .error => exact hst.elim

theorem Alive.wp_drop (hdr : drops) (h : Alive c g) :
    (VtMuxer.drop c).wp (framing drops) (fun c _ g => Parts c g) g := by
  have hal := h
  obtain ⟨ht, hh, hk, closed, ps, hse, -, hst⟩ := hal
  have hret : ∀ k st, c.inner.state = .writing k st → c.retire.orderly :=
    fun k st hs => Or.inl ⟨k, st, by simp [hs]⟩
  rcases hs : c.inner.state with _ | st | ⟨k, _ | _ | w⟩
  · exact absurd hs h.not_poisoned
  · rw [drop_shutdown hs]
    exact h.parts hs
  · rw [hs] at hst
    obtain ⟨rfl, hp⟩ := hst
    have hse' : Sends (c.retire.setFut false) g false ps := hse.congr rfl rfl rfl rfl
    rw [drop_buffering hs]
    refine ⟨Or.inr ⟨hdr, ht, rfl, hret k _ hs, hp, ps, hse'⟩, ?_⟩
    intro _ _
    refine wp_sendEof (c := c.retire.setFut false) hdr rfl (hret k _ hs) (hse'.congr rfl rfl rfl rfl) ?_ hp
    simp [framing, Sent.answer, granted]
  · rw [hs] at hst
    obtain ⟨rfl, -, -, hp⟩ := hst
    have hheld : g.held = true := hh (by simp [Conn.holds, hs, WritePipeState.guarded])
    rw [drop_unbegun hs]
    exact wp_sendEof (c := c.retire.setFut false) hdr rfl (hret k _ hs) (hse.congr rfl rfl rfl rfl) hheld
      (by simpa using hp)
  · obtain ⟨hu, hw⟩ := h.sending (by rw [hs]; rfl)
    rw [show c.inner.state.written = w + 1 by rw [hs]; rfl] at hu hw
    rw [show c.origin = .data by simp [Conn.origin, ht, hs], PacketBuffer.bytes_eq_frame] at hu
    rw [hs] at hst
    obtain ⟨rfl, hne, -⟩ := hst
    have hfrom : c.inner.buffer.bytesFrom? (w + 1) = some ((frame c.addr c.inner.buffer.data).drop (w + 1)) :=
      PacketBuffer.bytesFrom?_eq_some.mpr ⟨hw.le, rfl⟩
    rw [drop_begun hs hfrom, Prog.wp_bind]
    refine wp_writeAll (c := c.retire.setFut false) ?_ ?_ hu (by rw [length_frame]; exact hw.le)
    · intro v g' hu' hv
      refine Or.inr ⟨hdr, rfl, hret k _ hs, ⟨ps, hse.congr rfl rfl hu'.2.1 (hu'.2.2.1 hv).1⟩,
        Or.inl ?_⟩
      exact ⟨_, hne, c.inner.buffer.length_data, hu'.awaits hv⟩
    · intro g' he
      have hse' : Sends ((c.retire.setFut false).setTask (some (.data, []))) g' false (ps ++ [c.inner.buffer.data]) :=
        (hse.snoc hne c.inner.buffer.length_data he).congr rfl rfl rfl rfl
      exact wp_sendEof (c := (c.retire.setFut false).setTask (some (.data, []))) hdr rfl (hret k _ hs) hse' he.held
        he.part

/-- What is left behind by a call, also of a frame that was begun. -/
def Leaves (drops : Prop) (c : Conn) (a : Outcome) (g : Sent) : Prop := Idle drops c a g ∧ (a = .dropped → Parts c g)

/-- Every call that may be made on a connection keeps the contract. -/
theorem Idle.wp_body {a : Outcome} (h : Idle drops c a g) {op : WriteOp} (hm : a.may op)
    (hd : op = .drop → drops) :
    (op.body c).wp (framing drops) (Leaves drops) ((framing drops).start c g) := by
  have hal : Alive c ((framing drops).start c g) := (h.alive hm).start
  simp only [WriteOp.body]
  cases op with
  | handshake =>
    obtain ⟨-, hf⟩ : Alive c g ∧ Fresh c g := by
      cases a with
      | new => exact h
      | dropped => exact hm.elim
      | _ => exact absurd rfl hm
    have hwp : (VtMuxer.handshake c).wp (framing drops) (fun c _ g => Alive c g ∧ c.opened = true)
      ((framing drops).start c g) := Fresh.wp_handshake hf
    simp only [Proc.bind_apply, Prog.wp_bind, Proc.pure_apply, Prog.wp_ret]
    exact Prog.wp_mono (fun c' _ g' ha => ⟨ha, by simp⟩) hwp
  | write cx buf =>
    simp only [Proc.bind_apply, Prog.wp_bind, Proc.pure_apply, Prog.wp_ret]
    exact Prog.wp_mono (fun c' _ g' ha => ⟨ha.1, by simp⟩) ((Alive.pollRule drops).wp_pollWrite hal cx buf)
  | flush cx =>
    simp only [Proc.bind_apply, Prog.wp_bind, Proc.pure_apply, Prog.wp_ret]
    exact Prog.wp_mono (fun c' _ g' ha => ⟨ha, by simp⟩) ((Alive.pollRule drops).wp_pollFlush hal cx)
  | shutdown cx =>
    simp only [Proc.bind_apply, Prog.wp_bind, Proc.pure_apply, Prog.wp_ret]
    exact Prog.wp_mono (fun c' _ g' ha => ⟨ha, by simp⟩) ((Alive.pollRule drops).wp_pollShutdown hal cx)
  | drop =>
    simp only [Proc.bind_apply, Prog.wp_bind, Proc.pure_apply, Prog.wp_ret]
    exact Prog.wp_mono (fun c' _ g' hg => ⟨⟨hd rfl, hg.1⟩, fun _ => hg⟩) (hal.wp_drop (hd rfl))

end

end VtMuxer
