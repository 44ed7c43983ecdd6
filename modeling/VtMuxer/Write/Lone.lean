import VtMuxer.Write.Failing
import VtMuxer.Write.Polls

/-! A connection by itself: its calls in any order, with any answers of the mutex and any
answers of a socket that takes no more than it is offered. -/
namespace VtMuxer
open Interaction

/-- The socket's flush does not suspend, as that of a TCP stream. -/
def Flushes : (q : WriteQuery) → WriteResp q → Prop
  | .flush, .pending => False
  | _, _ => True

/-- What a connection may hear; with `prompt` the socket's flush never suspends. -/
def Answers (prompt : Bool) (q : WriteQuery) (r : WriteResp q) : Prop :=
  Honest q r ∧ (prompt = true → Flushes q r)

def lone (prompt : Bool) : Machine Unit WriteQuery WriteResp Conn Outcome WriteOp Unit where
  body := WriteOp.body
  may := Outcome.may
  allow _ _ q r := Answers prompt q r
  emit _ _ _ _ _ := ()

abbrev Lone := Pool Unit WriteQuery WriteResp Conn Outcome Unit

def Lone.init (socket : SocketAddr) : Lone := ⟨fun _ => .ret (.init socket) .new, ()⟩

/-- A connection between two answers of a poll call, or after one. -/
structure Trim (prompt : Bool) (c : Conn) : Prop where
  task : c.task = none
  live : c.last = none
  sound : c.inner.state ≠ .poisoned
  queued : c.inner.fut = true → c.inner.state.unlocked = true
  final : ∀ w, c.inner.state = .shutdown (.writing w) → c.inner.buffer.data = []
  stays : prompt = true → Stays c c.inner.state.written c.inner.state

/-- The frame is sent and the guard still held; the counter is not read again. -/
structure Cleared (c : Conn) : Prop where
  task : c.task = none
  live : c.last = none
  fut : c.inner.fut = false
  guarded : c.inner.state.guarded = true
  data : c.inner.buffer.data = []

/-- A connection in an async body, whose only claim on the lock is that of the body. -/
structure Bare (c : Conn) : Prop where
  fut : c.inner.fut = false
  guarded : c.inner.state.guarded = false
  sound : c.last = none → c.inner.state ≠ .poisoned

def governed (prompt : Bool) : Contract WriteQuery WriteResp Conn Unit where
  ok _ q r := Answers prompt q r
  upd _ _ _ g := g
  start _ g := g
  inv c q _ :=
    match q with
    | .tryLock => Trim prompt c ∧ c.inner.state.unlocked = true ∧ c.inner.fut = false
    | .pollFut => Trim prompt c ∧ c.inner.state.unlocked = true
    | .write bytes => Trim prompt c ∧ c.inner.state.guarded = true ∧ c.inner.state.written < c.frameLen ∧
        bytes = c.inner.buffer.bytes.drop c.inner.state.written
    | .flush => Cleared c
    | .awaitLock _ => Bare c ∧ c.task = none
    | .awaitWrite _ => Bare c ∧ c.task ≠ none
  fault c e := prompt = false ∧ e = .panic ∧ c.inner.fut = false ∧ c.task = none

def Remains (prompt : Bool) (c : Conn) (a : Outcome) : Prop :=
  match a with
  | .new => Trim prompt c ∧ (∃ k, c.inner.state = .writing k .buffering) ∧ c.inner.buffer.data = []
  | .dropped => Bare c ∧ c.task = none
  | _ => Trim prompt c

section
variable {c : Conn} {prompt : Bool}

theorem Trim.fut_eq_false (h : Trim prompt c) (hu : c.inner.state.unlocked = false) : c.inner.fut = false := by
  by_contra hf
  have hq := h.queued (by simpa using hf)
  rw [hu] at hq
  cases hq

theorem Trim.wide (h : Trim prompt c) (hg : c.inner.state.guarded = true) :
    c.frameLen < 2 ^ c.inner.state.counterBits := Conn.wide hg h.final

theorem Trim.setWritten {w : ℕ} (h : Trim prompt c) (hg : c.inner.state.guarded = true) (hw : w < c.frameLen) :
    Trim prompt (c.setWritten w) where
  task := h.task
  live := h.live
  sound := by
    intro hs
    have hg' : (c.setWritten w).inner.state.guarded = true := by
      rw [Conn.setWritten_state, WritePipeState.guarded_setWritten, hg]
    rw [hs] at hg'
    cases hg'
  queued hf := by
    have hn := h.fut_eq_false (WritePipeState.unlocked_of_guarded hg)
    exact absurd hf (by simp [Conn.setWritten, hn])
  final v hs := by
    unfold WritePipeState.guarded at hg
    split at hg
    case h_1 hst => simp [hst, WritePipeState.setWritten] at hs
    case h_2 hst => simp [hst, WritePipeState.setWritten] at hs
    case h_3 hst => exact h.final _ hst
    case h_4 => cases hg
  stays hp := by
    rw [Conn.setWritten_state, WritePipeState.written_setWritten hg]
    exact (h.stays hp).setWritten hg hw

theorem Trim.move (h : Trim prompt c) (st : WritePipeState) (hn : st ≠ .poisoned)
    (hq : c.inner.fut = true → st.unlocked = true)
    (hfin : ∀ w, st = .shutdown (.writing w) → c.inner.buffer.data = [])
    (hst : prompt = true → Stays (c.setState st) st.written st) : Trim prompt (c.setState st) where
  task := h.task
  live := h.live
  sound := hn
  queued := hq
  final := hfin
  stays := hst

theorem Trim.setFut (h : Trim prompt c) (b : Bool) (hb : b = true → c.inner.state.unlocked = true) :
    Trim prompt (c.setFut b) where
  task := h.task
  live := h.live
  sound := h.sound
  queued := hb
  final := h.final
  stays := h.stays

theorem Trim.locked (h : Trim prompt c) (st : WritePipeState) (hn : st ≠ .poisoned) (h0 : st.written = 0)
    (hfin : ∀ w, st = .shutdown (.writing w) → c.inner.buffer.data = [])
    (hst : prompt = true → Stays ((c.setFut false).setState st) 0 st) :
    Trim prompt ((c.setFut false).setState st) := by
  have hf : Trim prompt (c.setFut false) := h.setFut false (by simp)
  apply hf.move st hn (by simp) hfin
  rw [h0]
  exact hst

theorem Cleared.trim (h : Cleared c) (st : WritePipeState) (hn : st ≠ .poisoned) (h0 : st.written = 0)
    (hst : Stays (c.setState st) 0 st) : Trim prompt (c.setState st) where
  task := h.task
  live := h.live
  sound := hn
  queued hf := absurd hf (by simp [h.fut])
  final _ _ := h.data
  stays _ := by
    rw [Conn.setState_state, h0]
    exact hst

theorem Trim.wp_flushBuf {post : Conn → Poll (Except IoError Unit) → Unit → Prop} {g : Unit}
    (h : Trim prompt c) (hg : c.inner.state.guarded = true)
    (hpend : ∀ w g', Trim prompt (c.setWritten w) → post (c.setWritten w) .pending g')
    (hfail : ∀ w e g', Trim prompt (c.setWritten w) ∧ (c.setWritten w).inner.state.guarded = true →
      post (c.setWritten w) (.ready (.error e)) g')
    (hfin : ∀ g', Cleared (c.setWritten c.frameLen).clear →
      post (c.setWritten c.frameLen).clear (.ready (.ok ())) g') :
    (flushBuf c).wp (governed prompt) post g := by
  have hfut : c.inner.fut = false := h.fut_eq_false (WritePipeState.unlocked_of_guarded hg)
  have hguard : ∀ w, (c.setWritten w).inner.state.guarded = true := by
    intro w
    rw [Conn.setWritten_state, WritePipeState.guarded_setWritten, hg]
  rcases lt_or_ge c.frameLen c.inner.state.written with hover | hle
  · apply wp_flushLoop_over hover
    refine ⟨?_, rfl, hfut, h.task⟩
    by_contra hp
    have hlt := ((h.stays (by simpa using hp)).out hg).2
    omega
  refine FlushRule.wp_flushBuf (J := fun _ _ => True) ?_ trivial hle
  constructor
  case guarded => exact hg
  case wide => exact h.wide hg
  case ask =>
    intro w _ _ hw
    have hwr : (c.setWritten w).inner.state.written = w := WritePipeState.written_setWritten hg w
    refine ⟨h.setWritten hg hw, hguard w, ?_, ?_⟩
    · rw [hwr]
      exact hw
    · rw [hwr]
      rfl
  case honest => exact fun _ _ _ hok => hok.1
  case step => exact fun _ _ _ _ _ _ => trivial
  case zero => exact fun w _ _ hw _ => hfail w _ _ ⟨h.setWritten hg hw, hguard w⟩
  case error => exact fun w _ _ _ hw _ => hfail w _ _ ⟨h.setWritten hg hw, hguard w⟩
  case pending => exact fun w _ _ hw => hpend w _ (h.setWritten hg hw)
  case finish => exact fun _ _ => hfin _ ⟨h.task, h.live, hfut, hguard _, rfl⟩

theorem Trim.wp_pollLock {post : Conn → Poll Unit → Unit → Prop} {g : Unit} (h : Trim prompt c)
    (hu : c.inner.state.unlocked = true)
    (hgot : ∀ g', Trim prompt c → post (c.setFut false) (.ready ()) g')
    (hpend : ∀ g', Trim prompt (c.setFut true) → post (c.setFut true) .pending g') :
    (pollLock c).wp (governed prompt) post g := by
  refine LockRule.wp_pollLock (K := fun _ => True) ?_ trivial
  constructor
  case askTry => exact fun _ _ => ⟨h.setFut false (by simp), hu, rfl⟩
  case askPoll => exact fun _ _ => ⟨h.setFut true fun _ => hu, hu⟩
  case refused => exact fun _ _ => trivial
  case tried => exact fun _ _ _ => hgot _ h
  case polled => exact fun _ _ _ => hgot _ h
  case pending => exact fun _ _ => hpend _ (h.setFut true fun _ => hu)

theorem Trim.push (h : Trim prompt c) {k : Waker} {st : WriteState} (hs : c.inner.state = .writing k st)
    (buf : List UInt8) : Trim prompt (c.push buf c.inner.state.written) where
  task := h.task
  live := h.live
  sound := h.sound
  queued := h.queued
  final w hw := by
    rw [Conn.push_state, hs] at hw
    cases hw
  stays hp := (h.stays hp).push hs buf _

theorem Trim.wake (h : Trim prompt c) (k : Waker) : Trim prompt (c.wake k) where
  task := h.task
  live := h.live
  sound := h.sound
  queued := h.queued
  final := h.final
  stays := h.stays

theorem Trim.shutdownRule (prompt : Bool) : ShutdownRule (governed prompt) (fun c _ => Trim prompt c)
    (fun c _ => Trim prompt c) (fun c _ => Cleared c) (fun c _ => Trim prompt c ∧ c.inner.state.guarded = true)
    (fun c a _ => Remains prompt c a) := by
  constructor
  case lock => exact fun h hu hgot hpend => h.wp_pollLock hu hgot hpend
  case flush => exact fun h hg hpend hfail hfin => h.wp_flushBuf hg hpend hfail hfin
  case stage =>
    intro c g h hs hd
    exact h.locked _ (by simp) rfl (by simp) fun _ => ⟨rfl, Conn.zero_lt_frameLen _, hd⟩
  case stageEmpty =>
    intro c g h hs hd
    exact h.locked _ (by simp) rfl (fun _ _ => hd) fun _ => ⟨rfl, Conn.zero_lt_frameLen _, hd⟩
  case pass =>
    intro c g w h hs hd
    have hfut := h.fut_eq_false (by rw [hs]; rfl)
    exact h.move _ (by simp) (by simp [hfut]) (fun _ _ => hd) fun _ => ⟨rfl, Conn.zero_lt_frameLen _, hd⟩
  case next =>
    intro c g w h hs
    exact h.trim _ (by simp) rfl ⟨rfl, Conn.zero_lt_frameLen _, h.data⟩
  case done =>
    intro c g w h hs
    exact h.trim _ (by simp) rfl rfl
  case final => exact fun h hs => h.final _ hs
  case tolerant => exact fun hf => hf
  case calm =>
    intro c g a h ha
    unfold Outcome.calm at ha
    split at ha
    · exact h
    · exact h
    · exact h
    · exact h
    · exact ha.elim
  case again => exact fun h _ => h
  case broken => exact fun h _ => h
  case failedShut =>
    intro c g e h _
    have hfut := h.1.fut_eq_false (WritePipeState.unlocked_of_guarded h.2)
    exact h.1.move (.shutdown .error) (by simp) (by simp [hfut]) (by simp) fun _ => rfl

/-- The poll calls of a connection by itself. -/
theorem Trim.pollRule (prompt : Bool) : PollRule (governed prompt) (fun c _ => Trim prompt c)
    (fun c _ => Trim prompt c) (fun c _ => Cleared c) (fun c _ => Trim prompt c ∧ c.inner.state.guarded = true)
    (fun c a _ => Remains prompt c a) := by
  constructor
  case toShutdownRule => exact Trim.shutdownRule prompt
  case socket =>
    intro c g k w h hs
    refine ⟨h, ?_, ?_⟩
    · rintro ⟨-, hfl⟩
      refine ⟨h.task, h.live, by simp [hs], fun hf => absurd hf (by simp [h.fut]), by simp [hs], fun hp => ?_⟩
      exact (hfl hp).elim
    · intro res _
      rw [Conn.release_eq hs]
      exact h.trim _ (by simp) rfl rfl
  case waker =>
    intro c g k st cx h hs
    apply h.move _ (by simp)
    · intro hf
      have hu := h.queued hf
      rw [hs] at hu
      cases st with
      | buffering => rfl
      | flushing w => cases hu
    · simp
    · intro hp
      have hst := (h.stays hp).setWaker hs cx
      rw [hs] at hst
      cases st with
      | buffering => exact hst
      | flushing w => exact hst
  case push => exact fun buf h hs => h.push hs buf
  case locked =>
    intro c g k h hs hd
    exact h.locked _ (by simp) rfl (by simp) fun _ => ⟨rfl, Conn.zero_lt_frameLen _, hd⟩
  case lockedEmpty =>
    intro c g k h hs hd
    exact ⟨h.task, h.live, rfl, rfl, hd⟩
  case empty =>
    intro c g k w h hs hd
    exact ⟨h.task, h.live, h.fut_eq_false (by rw [hs]; rfl), by rw [hs]; rfl, hd⟩
  case release =>
    intro c g k w h hs
    rw [Conn.release_eq hs]
    exact h.trim _ (by simp) rfl rfl
  case shut =>
    intro c g k h hs
    exact (h.move (.shutdown .waitingLock) (by simp) (fun _ => rfl) (by simp) fun _ => rfl).wake k
  case shutLocked =>
    intro c g k w h hs
    have hfut := h.fut_eq_false (by rw [hs]; rfl)
    refine (h.move (.shutdown (.flushing w)) (by simp) (by simp [hfut]) (by simp) fun hp => ?_).wake k
    have hst := h.stays hp
    rw [hs] at hst
    exact hst
  case sound => exact fun h => h.sound
  case refused => exact fun h _ => ⟨h, h⟩
  case failed =>
    intro c g k w e h hs
    have hrel : Trim prompt c.release := by
      rw [Conn.release_eq hs]
      exact h.1.move _ (by simp) (fun _ => rfl) (by simp) fun _ => rfl
    exact ⟨hrel, hrel⟩

theorem Bare.wp_writeAll {post : Conn → Except IoError Unit → Unit → Prop} {o : Origin} {g : Unit} (h : Bare c)
    (hok : ∀ g', post (c.setTask (some (o, []))) (.ok ()) g')
    (herr : ∀ rest e g', post (c.setTask (some (o, rest))) (.error e) g') (bytes : List UInt8) :
    (writeAll o bytes c).wp (governed prompt) post g := by
  have hrule : WriteAllRule (governed prompt) (fun _ _ => True) c o bytes post := by
    constructor
    case ask => exact fun w _ _ _ => ⟨⟨h.fut, h.guarded, h.sound⟩, by simp⟩
    case honest => exact fun _ _ _ hok => hok.1
    case step => exact fun _ _ _ _ _ _ => trivial
    case zero => exact fun w _ _ _ => herr _ _ _
    case error => exact fun w _ _ _ _ => herr _ _ _
    case finish => exact fun _ _ => hok _
  simpa using hrule.wp_writeAll (w := 0) (g := g) trivial (Nat.zero_le _)

theorem Trim.wp_handshake (h : Trim prompt c) {k : Waker} (hs : c.inner.state = .writing k .buffering)
    (hd : c.inner.buffer.data = []) {g : Unit} :
    (VtMuxer.handshake c).wp (governed prompt) (fun c _ _ => Trim prompt c) g := by
  have he : c.inner.buffer.isEmpty = true := (PacketBuffer.isEmpty_iff _).mpr hd
  have hbare : Bare (c.setFut false) := ⟨rfl, by simp [hs, WritePipeState.guarded], fun _ => h.sound⟩
  have hend : Trim prompt (c.setFut false) := h.setFut false (by simp)
  have hnone : ∀ t, Trim prompt (((c.setFut false).setTask t).setTask none) :=
    fun _ => ⟨rfl, hend.live, hend.sound, hend.queued, hend.final, hend.stays⟩
  simp only [VtMuxer.handshake, VtMuxer.lock, Proc.bind_apply, Proc.get_apply, Prog.bind_ret, hs, he,
    Proc.modify_apply, Proc.ask_apply, Prog.bind_ask, Prog.wp_ask]
  refine ⟨⟨hbare, h.task⟩, ?_⟩
  intro _ _
  rw [Prog.wp_bind]
  apply hbare.wp_writeAll
  · intro g'
    have ho := hnone (some (.handshake, []))
    exact ⟨rfl, ho.live, ho.sound, ho.queued, ho.final, ho.stays⟩
  · exact fun rest e g' => hnone _

theorem Bare.setTask (h : Bare c) (t : Option (Origin × List UInt8)) : Bare (c.setTask t) :=
  ⟨h.fut, h.guarded, h.sound⟩

theorem Bare.wp_sendEof (h : Bare c) (a : SocketAddr) {g : Unit} :
    (sendEof a c).wp (governed prompt) (fun c _ _ => Bare c ∧ c.task = none) g := by
  simp only [sendEof, Proc.bind_apply, Prog.wp_bind]
  apply h.wp_writeAll
  · exact fun g' => ⟨h.setTask none, rfl⟩
  · exact fun rest e g' => ⟨h.setTask none, rfl⟩

theorem Trim.wp_drop (h : Trim prompt c) {g : Unit} :
    (VtMuxer.drop c).wp (governed prompt) (fun c _ _ => Bare c ∧ c.task = none) g := by
  have hbare : Bare (c.retire.setFut false) := ⟨rfl, rfl, fun hl => by simp at hl⟩
  rcases hs : c.inner.state with _ | st | ⟨k, _ | _ | w⟩
  · exact absurd hs h.sound
  · rw [drop_shutdown hs]
    exact ⟨hbare, h.task⟩
  · rw [drop_buffering hs]
    exact ⟨⟨hbare, h.task⟩, fun _ _ => hbare.wp_sendEof c.addr⟩
  · rw [drop_unbegun hs]
    exact hbare.wp_sendEof c.addr
  · cases hfrom : c.inner.buffer.bytesFrom? (w + 1) with
    | none =>
      rw [drop_overrun hs hfrom]
      refine ⟨?_, rfl, h.fut_eq_false (by rw [hs]; rfl), h.task⟩
      by_contra hp
      have hst := h.stays (by simpa using hp)
      rw [hs] at hst
      have hsome : c.inner.buffer.bytesFrom? (w + 1) = some (c.inner.buffer.bytes.drop (w + 1)) :=
        PacketBuffer.bytesFrom?_eq_some.mpr ⟨hst.2.1.le, rfl⟩
      rw [hsome] at hfrom
      cases hfrom
    | some rest =>
      rw [drop_begun hs hfrom, Prog.wp_bind]
      apply hbare.wp_writeAll
      · exact fun g' => (hbare.setTask _).wp_sendEof c.addr
      · exact fun rest e g' => ⟨hbare.setTask none, rfl⟩

theorem Remains.trim {a : Outcome} (h : Remains prompt c a) (ha : a ≠ .dropped) : Trim prompt c := by
  unfold Remains at h
  split at h
  · exact h.1
  · exact absurd rfl ha
  · exact h

/-- Every call that may be made on a connection keeps the contract. -/
theorem Remains.wp_body {a : Outcome} (h : Remains prompt c a) {op : WriteOp} (hm : a.may op) {g : Unit} :
    (op.body c).wp (governed prompt) (fun c a _ => Remains prompt c a) g := by
  have hnot : a ≠ .dropped := by
    rintro rfl
    exact hm
  have ht := h.trim hnot
  have hrule := Trim.pollRule prompt
  simp only [WriteOp.body]
  cases op with
  | handshake =>
    obtain ⟨-, ⟨k, hs⟩, hd⟩ : Remains prompt c .new := by
      cases a with
      | new => exact h
      | dropped => exact absurd rfl hnot
      | _ => exact absurd rfl hm
    simp only [Proc.bind_apply, Prog.wp_bind, Proc.pure_apply, Prog.wp_ret]
    exact ht.wp_handshake hs hd
  | write cx buf =>
    simp only [Proc.bind_apply, Prog.wp_bind, Proc.pure_apply, Prog.wp_ret]
    exact Prog.wp_mono (fun _ _ _ hw => hw.1) (hrule.wp_pollWrite ht cx buf)
  | flush cx =>
    simp only [Proc.bind_apply, Prog.wp_bind, Proc.pure_apply, Prog.wp_ret]
    exact hrule.wp_pollFlush ht cx
  | shutdown cx =>
    simp only [Proc.bind_apply, Prog.wp_bind, Proc.pure_apply, Prog.wp_ret]
    exact hrule.wp_pollShutdown ht cx
  | drop =>
    simp only [Proc.bind_apply, Prog.wp_bind, Proc.pure_apply, Prog.wp_ret]
    exact ht.wp_drop

theorem sound_lone (prompt : Bool) :
    (lone prompt).Sound (governed prompt) (fun c a _ => Remains prompt c a) (fun _ _ _ => True) where
  call _ _ _ _ _ h hm := Remains.wp_body h hm
  ok _ _ _ _ ha := ha
  globCall _ _ _ _ _ _ _ _ := trivial
  globAnswer _ _ _ _ _ _ _ _ _ _ _ := trivial

/-- Wherever a run stands, the rest of the call keeps the contract. -/
theorem wp_of_reaches {socket : SocketAddr} {P : Lone} (h : (lone prompt).Reaches (Lone.init socket) P) :
    (P.threads ()).wp (governed prompt) (fun c a _ => Remains prompt c a) () := by
  have hinit : Machine.Holds (governed prompt) (fun c a _ => Remains prompt c a) (fun _ _ _ => True)
      (Lone.init socket) := by
    refine ⟨fun _ => (), fun _ => ?_, trivial⟩
    refine ⟨⟨rfl, rfl, by simp [Conn.init], by simp [Conn.init], by simp [Conn.init], fun _ => rfl⟩, ⟨_, rfl⟩, rfl⟩
  obtain ⟨g, hwp, -⟩ := (sound_lone prompt).reaches hinit h
  exact hwp ()

/-- Wherever a connection stands, it is in a poll call or after one, in an async body, at the
socket's flush or at a panic. -/
theorem stands_of_wp {p : Prog WriteQuery WriteResp Conn Outcome} {g : Unit}
    (h : p.wp (governed prompt) (fun c a _ => Remains prompt c a) g) :
    Trim prompt p.mem ∨ Bare p.mem ∨ (∃ c k, p = .ask c .flush k ∧ Cleared c) ∨
      ∃ c e, p = .fault c e ∧ (governed prompt).fault c e := by
  cases p with
  | ret c a =>
    by_cases ha : a = .dropped
    · subst ha
      exact Or.inr (Or.inl h.1)
    · exact Or.inl (Remains.trim h ha)
  | ask c q k =>
    obtain ⟨hinv, -⟩ := h
    cases q with
    | tryLock => exact Or.inl hinv.1
    | pollFut => exact Or.inl hinv.1
    | write bytes => exact Or.inl hinv.1
    | flush => exact Or.inr (Or.inr (Or.inl ⟨c, k, rfl, hinv⟩))
    | awaitLock queued => exact Or.inr (Or.inl hinv.1)
    | awaitWrite bytes => exact Or.inr (Or.inl hinv.1)
  | fault c e => exact Or.inr (Or.inr (Or.inr ⟨c, e, rfl, h⟩))

theorem WritePipeState.written_of_not_guarded {st : WritePipeState} (h : st.guarded = false) : st.written = 0 := by
  unfold written
  split
  · cases h
  · cases h
  · cases h
  · rfl

theorem Bare.written_le (h : Bare c) : c.inner.state.written ≤ c.inner.buffer.bytes.length := by
  rw [WritePipeState.written_of_not_guarded h.guarded]
  exact Nat.zero_le _

theorem Trim.written_le (h : Trim true c) : c.inner.state.written ≤ c.inner.buffer.bytes.length := by
  cases hg : c.inner.state.guarded with
  | false =>
    rw [WritePipeState.written_of_not_guarded hg]
    exact Nat.zero_le _
  | true =>
    rw [Conn.length_bytes]
    exact ((h.stays rfl).out hg).2.le

theorem Cleared.not_poisoned (h : Cleared c) : c.inner.state ≠ .poisoned := by
  intro hs
  have hg := h.guarded
  rw [hs] at hg
  cases hg

end

/-- Over a socket whose flush never suspends the writer does not panic. Its counter stays
within the frame, except while the socket is flushed: the buffer is cleared by then, and the
counter is given up without being read again. It never overflows and never truncates what the
socket took. -/
theorem Lone.no_panic {socket : SocketAddr} {P : Lone} (h : (lone true).Reaches (Lone.init socket) P) :
    (∀ c e, P.threads () ≠ .fault c e) ∧
    ((P.mems ()).last = none → (P.mems ()).inner.state ≠ .poisoned) ∧
    ((∀ c k, P.threads () ≠ .ask c .flush k) →
      (P.mems ()).inner.state.written ≤ (P.mems ()).inner.buffer.bytes.length) ∧
    ∀ c bytes k, P.threads () = .ask c (.write bytes) k →
      bytes = c.inner.buffer.bytes.drop c.inner.state.written ∧ ∀ n ≤ bytes.length,
        c.inner.state.written + n ≤ c.inner.buffer.bytes.length ∧
        c.inner.state.add? n = some (c.inner.state.setWritten (c.inner.state.written + n)) := by
  have hwp := wp_of_reaches h
  refine ⟨?_, ?_, ?_, ?_⟩
  · intro c e hp
    rw [hp] at hwp
    exact absurd hwp.1 (by simp)
  · intro hl
    rcases stands_of_wp hwp with ht | hb | ⟨c, k, hp, hc⟩ | ⟨c, e, -, hf⟩
    · exact ht.sound
    · exact hb.sound hl
    · simpa [Pool.mems, hp, Prog.mem] using hc.not_poisoned
    · exact absurd hf.1 (by simp)
  · intro hn
    rcases stands_of_wp hwp with ht | hb | ⟨c, k, hp, -⟩ | ⟨c, e, -, hf⟩
    · exact ht.written_le
    · exact hb.written_le
    · exact absurd hp (hn c k)
    · exact absurd hf.1 (by simp)
  · intro c bytes k hp
    rw [hp] at hwp
    obtain ⟨ht, hg, hlt, hb⟩ := hwp.1
    refine ⟨hb, ?_⟩
    intro n hn
    have hle : c.inner.state.written + n ≤ c.frameLen := by
      rw [hb, List.length_drop, Conn.length_bytes] at hn
      omega
    have hadd := WritePipeState.add?_setWritten (n := n) hg (lt_of_le_of_lt hle (ht.wide hg))
    rw [WritePipeState.setWritten_written] at hadd
    exact ⟨c.length_bytes ▸ hle, hadd⟩

/-- After five bytes of a frame of twenty-one. -/
theorem Lone.no_panic_midway :
    ∃ (P : Lone) (c : Conn) (k : WriteResp (.write ((frame .unspecified [1]).drop 5)) → _),
      (lone true).Reaches (Lone.init .unspecified) P ∧ P.threads () = .ask c (.write ((frame .unspecified [1]).drop 5)) k ∧
      c.inner.state.written = 5 ∧ c.inner.state.add? 16 = some (c.inner.state.setWritten 21) := by
  have hrun : ∃ (P : Lone) (c : Conn) (k : WriteResp (.write ((frame .unspecified [1]).drop 5)) → _),
      (lone true).Reaches (Lone.init .unspecified) P ∧
      P.threads () = .ask c (.write ((frame .unspecified [1]).drop 5)) k ∧ c.inner.state.written = 5 := by
    refine ⟨_, _, _, .call () .handshake rfl trivial <|
      .answer () ⟨.awaitLock false, ()⟩ rfl ⟨trivial, fun _ => trivial⟩ <|
      .answer () ⟨.awaitWrite (frame .unspecified []), .ok 20⟩ rfl ⟨?_, fun _ => trivial⟩ <|
      .call () (.write .noop [1]) rfl (by simp [lone, Outcome.may]) <|
      .call () (.flush .noop) rfl (by simp [lone, Outcome.may]) <|
      .answer () ⟨.tryLock, true⟩ rfl ⟨trivial, fun _ => trivial⟩ <|
      .answer () ⟨.write (frame .unspecified [1]), .ready (.ok 5)⟩ rfl ⟨?_, fun _ => trivial⟩ .refl, rfl, rfl⟩
    · exact (by decide : 20 ≤ 20)
    · exact (by decide : 5 ≤ 21)
  obtain ⟨P, c, k, hP, hp, hw⟩ := hrun
  have hadd := ((Lone.no_panic hP).2.2.2 c _ k hp).2 16 (by decide)
  rw [hw] at hadd
  exact ⟨P, c, k, hP, hp, hw, hadd.2⟩

/-- While the socket is flushed after a frame of one byte, the counter stands at 21 and the
cleared buffer at 20 bytes. -/
theorem Lone.counter_outlives_frame :
    ∃ (P : Lone) (c : Conn) (k : WriteResp .flush → _), (lone true).Reaches (Lone.init .unspecified) P ∧
      P.threads () = .ask c .flush k ∧ c.inner.state.written = 21 ∧ c.inner.buffer.bytes.length = 20 ∧
      ¬ c.inner.state.written ≤ c.inner.buffer.bytes.length := by
  refine ⟨_, _, _, .call () .handshake rfl trivial <|
    .answer () ⟨.awaitLock false, ()⟩ rfl ⟨trivial, fun _ => trivial⟩ <|
    .answer () ⟨.awaitWrite (frame .unspecified []), .ok 20⟩ rfl ⟨?_, fun _ => trivial⟩ <|
    .call () (.write .noop [1]) rfl (by simp [lone, Outcome.may]) <|
    .call () (.flush .noop) rfl (by simp [lone, Outcome.may]) <|
    .answer () ⟨.tryLock, true⟩ rfl ⟨trivial, fun _ => trivial⟩ <|
    .answer () ⟨.write (frame .unspecified [1]), .ready (.ok 21)⟩ rfl ⟨?_, fun _ => trivial⟩ .refl, rfl, rfl, rfl, ?_⟩
  · exact (by decide : 20 ≤ 20)
  · exact (by decide : 21 ≤ 21)
  · exact (by decide : ¬ 21 ≤ 20)

/-- Each call of `poll_write`, `poll_flush` and `poll_shutdown` comes to an end, whatever the mutex
and the socket answer: the loops never use up the turns that they are given. It ends with a panic
only if the socket's flush may suspend, and `poll_write` never reports that it wrote nothing of a
slice that has something in it. -/
theorem Lone.polls_end {prompt : Bool} {socket : SocketAddr} {P : Lone} {c : Conn} {a : Outcome}
    (h : (lone prompt).Reaches (Lone.init socket) P) (hp : P.threads () = .ret c a) (ha : a ≠ .dropped)
    (cx : Waker) :
    (∀ buf, (pollWrite cx buf c).Ends (Answers prompt) (prompt = false) fun r => buf ≠ [] → r ≠ .ready (.ok 0)) ∧
    ((pollFlush cx c).Ends (Answers prompt) (prompt = false) fun _ => True) ∧
    (pollShutdown cx c).Ends (Answers prompt) (prompt = false) fun _ => True := by
  have hwp := wp_of_reaches h
  rw [hp] at hwp
  have ht : Trim prompt c := Remains.trim hwp ha
  have hrule := Trim.pollRule prompt
  have hf : ∀ s e, (governed prompt).fault s e → prompt = false ∧ e = .panic := fun _ _ hf => ⟨hf.1, hf.2.1⟩
  refine ⟨?_, ?_, ?_⟩
  · intro buf
    refine Prog.ends_of_wp (fun _ _ _ hr => hr) hf ?_ (hrule.wp_pollWrite (g := ()) ht cx buf)
    exact fun _ _ _ hw hne => hw.2 (by simpa using hne)
  · exact Prog.ends_of_wp (fun _ _ _ hr => hr) hf (fun _ _ _ _ => trivial) (hrule.wp_pollFlush (g := ()) ht cx)
  · exact Prog.ends_of_wp (fun _ _ _ hr => hr) hf (fun _ _ _ _ => trivial) (hrule.wp_pollShutdown (g := ()) ht cx)

/-- A flush was suspended after five bytes of its frame. -/
theorem Lone.polls_end_midway :
    ∃ (P : Lone) (c : Conn), (lone false).Reaches (Lone.init .unspecified) P ∧
      P.threads () = .ret c (.flush .pending) ∧ c.inner.state = .writing .noop (.flushing 5) ∧
      (pollWrite .noop [2] c).Ends (Answers false) True fun r => r ≠ .ready (.ok 0) := by
  have hrun : ∃ (P : Lone) (c : Conn), (lone false).Reaches (Lone.init .unspecified) P ∧
      P.threads () = .ret c (.flush .pending) ∧ c.inner.state = .writing .noop (.flushing 5) := by
    refine ⟨_, _, .call () (.write .noop [1]) rfl trivial <|
      .call () (.flush .noop) rfl (by simp [lone, Outcome.may]) <|
      .answer () ⟨.tryLock, true⟩ rfl ⟨trivial, by simp⟩ <|
      .answer () ⟨.write (frame .unspecified [1]), .ready (.ok 5)⟩ rfl ⟨?_, by simp⟩ <|
      .answer () ⟨.write ((frame .unspecified [1]).drop 5), .pending⟩ rfl ⟨trivial, by simp⟩ .refl, rfl, rfl⟩
    exact (by decide : 5 ≤ 21)
  obtain ⟨P, c, hP, hp, hs⟩ := hrun
  refine ⟨P, c, hP, hp, hs, ?_⟩
  simpa using (Lone.polls_end hP hp (by simp) .noop).1 [2]

end VtMuxer
