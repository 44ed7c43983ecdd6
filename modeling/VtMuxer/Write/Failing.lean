import VtMuxer.Write.Accounting
import VtMuxer.Write.Wire

/-! Connections over a socket that may fail. A poll call that fails gives back the lock and
loses its counter, whatever of its frame is out already, so the stream stays in frames only
while writes fail between frames. -/
namespace VtMuxer
open Interaction

/-- Answers of a socket that may refuse any write; its flush does nothing. -/
def Fallible : (q : WriteQuery) → WriteResp q → Prop
  | .flush, r => r = .ready (.ok ())
  | q, r => Honest q r

/-- A write of a poll call fails only while nothing of its frame is out. -/
def Harmless (c : Conn) : (q : WriteQuery) → WriteResp q → Prop
  | .write _, .ready (.ok 0) => c.inner.state.written = 0
  | .write _, .ready (.error _) => c.inner.state.written = 0
  | _, _ => True

/-- How much is out of the message begun, if `n` bytes were out before the answer. -/
def outAfter (n : ℕ) : (q : WriteQuery) → WriteResp q → ℕ
  | .write bytes, .ready (.ok k) => if k < bytes.length then n + k else 0
  | .awaitWrite bytes, .ok k => if k < bytes.length then n + k else 0
  | _, _ => n

/-- The stream, and how much is out of the message that each connection has begun. -/
structure Line (ι : Type) where
  wire : List (ι × UInt8)
  out : ι → ℕ

def tag {ι : Type} (i : ι) (bytes : List UInt8) : List (ι × UInt8) := bytes.map fun b => (i, b)

/-- Connections over a socket that may fail as far as `ok` says. After a failed handshake
nothing can be done with a connection but to drop it. -/
def faulty (ι : Type) [DecidableEq ι] (ok : Conn → (q : WriteQuery) → WriteResp q → Prop) :
    Machine ι WriteQuery WriteResp Conn Outcome WriteOp (Line ι) where
  body := WriteOp.body
  may a op := a.may op ∧ ∀ e, a = .handshake (.error e) → op = .drop
  allow m i q r := Fallible q r ∧ ok (m i) q r ∧ (granted ⟨q, r⟩ = true → ∀ j, (m j).holds = false)
  emit w i _ q r := ⟨w.wire ++ tag i (delivered q r), Function.update w.out i (outAfter (w.out i) q r)⟩

abbrev Faulty (ι : Type) := Pool ι WriteQuery WriteResp Conn Outcome (Line ι)

def Faulty.init {ι : Type} (sockets : ι → SocketAddr) : Faulty ι :=
  ⟨fun i => .ret (.init (sockets i)) .new, [], fun _ => 0⟩

def Outcome.failed : Outcome → Prop
  | .write (.ready (.error _)) => True
  | .flush (.ready (.error _)) => True
  | .shutdown (.ready (.error _)) => True
  | _ => False

/-- What is recorded of one connection: how much of a message is out, whether it may hold the
lock, and the memory at the last answer or call. -/
structure Trail where
  out : ℕ
  held : Bool
  prev : Conn

def Conn.shut (c : Conn) : Prop := ∃ st, c.inner.state = .shutdown st

def Stays (c : Conn) (n : ℕ) : WritePipeState → Prop
  | .writing _ .buffering => n = 0
  | .writing _ (.flushing w) => n = w ∧ w < c.frameLen ∧ c.inner.buffer.data ≠ []
  | .shutdown .waitingLock => n = 0
  | .shutdown (.flushing w) => n = w ∧ w < c.frameLen ∧ c.inner.buffer.data ≠ []
  | .shutdown (.writing w) => n = w ∧ w < c.frameLen ∧ c.inner.buffer.data = []
  | .shutdown .done => n = 0
  | .shutdown .error => n = 0
  | .poisoned => False

/-- A connection between two answers of a poll call, or after one. A shutdown goes on with the
frame that it has begun. -/
structure Steady (c : Conn) (g : Trail) : Prop where
  task : c.task = none
  held : c.holds = true → g.held = true
  before : g.prev.last = none
  live : c.last = none
  stays : Stays c g.out c.inner.state
  follows : g.prev.shut → g.out ≠ 0 → c.shut ∧ c.inner.buffer = g.prev.inner.buffer

/-- The frame is sent and the guard still held, for the socket's flush. -/
structure Emptied (c : Conn) (g : Trail) : Prop where
  task : c.task = none
  state : ∃ k w, c.inner.state = .writing k (.flushing w)
  held : g.held = true
  before : g.prev.last = none
  live : c.last = none
  out : g.out = 0
  data : c.inner.buffer.data = []

structure Greeting (c : Conn) (g : Trail) : Prop where
  state : ∃ k, c.inner.state = .writing k .buffering
  held : c.holds = true → g.held = true
  before : g.prev.last = none
  live : c.last = none
  fresh : ¬ g.prev.shut

/-- A connection that is dropped keeps the state that `drop` found. -/
structure Parting (c : Conn) (g : Trail) : Prop where
  state : c.inner.state = .poisoned
  held : c.holds = true → g.held = true
  found : g.prev.last = none → c.last = some g.prev.inner.state
  keeps : g.prev.last ≠ none → c.last = g.prev.last

def failing : Contract WriteQuery WriteResp Conn Trail where
  ok c q r := Fallible q r ∧ Harmless c q r
  upd c q r g := ⟨outAfter g.out q r, c.holds || granted ⟨q, r⟩, c⟩
  start c g := ⟨g.out, c.holds, c⟩
  inv c q g :=
    match q with
    | .tryLock => Steady c g ∧ c.holds = false
    | .pollFut => Steady c g ∧ c.holds = false
    | .write bytes => Steady c g ∧ c.holds = true ∧ bytes = c.inner.buffer.bytes.drop g.out
    | .flush => Emptied c g
    | .awaitLock _ => (Greeting c g ∨ Parting c g) ∧ c.task = none
    | .awaitWrite _ => (Greeting c g ∨ Parting c g) ∧ c.task ≠ none
  fault _ _ := False

def Rests (c : Conn) (a : Outcome) (g : Trail) : Prop :=
  match a with
  | .new => Steady c g ∧ (∃ k, c.inner.state = .writing k .buffering) ∧ c.inner.buffer.data = []
  | .dropped => Parting c g ∧ c.task = none
  | .handshake (.error _) => Greeting c g ∧ c.task = none
  | .handshake (.ok ()) => Steady c g
  | a => Steady c g ∧ (a.failed → ∀ k st, c.inner.state = .writing k st → st = .buffering)

section
variable {c : Conn} {g g' : Trail}

/-- What the ghost state keeps while `w` bytes of the frame in the buffer are out. -/
structure Running (c : Conn) (w : ℕ) (g : Trail) : Prop where
  held : g.held = true
  before : g.prev.last = none
  part : w < c.frameLen → g.out = w
  whole : w = c.frameLen → g.out = 0
  follows : g.prev.shut → g.out ≠ 0 → c.shut ∧ c.inner.buffer = g.prev.inner.buffer

theorem Conn.shut_setWritten {w : ℕ} (h : c.shut) : (c.setWritten w).shut := by
  obtain ⟨st, hs⟩ := h
  cases st <;> exact ⟨_, by simp [hs, WritePipeState.setWritten]; rfl⟩

theorem Conn.shut_of_setWritten {w : ℕ} (h : (c.setWritten w).shut) : c.shut := by
  obtain ⟨st, hs⟩ := h
  match hc : c.inner.state with
  | .shutdown st' => exact ⟨st', hc⟩
  | .poisoned => simp [hc, WritePipeState.setWritten] at hs
  | .writing _ .buffering => simp [hc, WritePipeState.setWritten] at hs
  | .writing _ (.flushing _) => simp [hc, WritePipeState.setWritten] at hs

theorem Stays.setWritten {n w : ℕ} (h : Stays c n c.inner.state) (hg : c.inner.state.guarded = true)
    (hw : w < c.frameLen) : Stays (c.setWritten w) w (c.inner.state.setWritten w) := by
  unfold WritePipeState.guarded at hg
  split at hg
  case h_1 hs =>
    rw [hs] at h ⊢
    exact ⟨rfl, hw, h.2.2⟩
  case h_2 hs =>
    rw [hs] at h ⊢
    exact ⟨rfl, hw, h.2.2⟩
  case h_3 hs =>
    rw [hs] at h ⊢
    exact ⟨rfl, hw, h.2.2⟩
  case h_4 => cases hg

/-- While the guard is held its counter is what is out. -/
theorem Stays.out {n : ℕ} (h : Stays c n c.inner.state) (hg : c.inner.state.guarded = true) :
    n = c.inner.state.written ∧ c.inner.state.written < c.frameLen := by
  unfold WritePipeState.guarded at hg
  split at hg
  case h_1 hs =>
    rw [hs] at h ⊢
    exact ⟨h.1, h.2.1⟩
  case h_2 hs =>
    rw [hs] at h ⊢
    exact ⟨h.1, h.2.1⟩
  case h_3 hs =>
    rw [hs] at h ⊢
    exact ⟨h.1, h.2.1⟩
  case h_4 => cases hg

theorem Stays.wide {n : ℕ} (h : Stays c n c.inner.state) (hg : c.inner.state.guarded = true) :
    c.frameLen < 2 ^ c.inner.state.counterBits := by
  apply Conn.wide hg
  intro w hs
  rw [hs] at h
  exact h.2.2

theorem Stays.push {n : ℕ} {k : Waker} {st : WriteState} (h : Stays c n c.inner.state)
    (hs : c.inner.state = .writing k st) (buf : List UInt8) (w : ℕ) : Stays (c.push buf w) n c.inner.state := by
  rw [hs] at h ⊢
  cases st with
  | buffering => exact h
  | flushing v =>
    obtain ⟨hout, hlt, hne⟩ := h
    refine ⟨hout, ?_, by simp [hne]⟩
    simp only [Conn.frameLen, Conn.push_buffer, PacketBuffer.push_data, List.length_append] at hlt ⊢
    omega

theorem Stays.setWaker {n : ℕ} {k : Waker} {st : WriteState} (h : Stays c n c.inner.state)
    (hs : c.inner.state = .writing k st) (cx : Waker) :
    Stays (c.setState (.writing cx st)) n (.writing cx st) := by
  rw [hs] at h
  cases st with
  | buffering => exact h
  | flushing v => exact h

theorem Steady.running (h : Steady c g) (hg : c.inner.state.guarded = true) :
    Running c c.inner.state.written g := by
  obtain ⟨hout, hlt⟩ := h.stays.out hg
  exact ⟨h.held (by simp [Conn.holds, hg]), h.before, fun _ => hout, fun heq => absurd heq hlt.ne, h.follows⟩

theorem Steady.stopped {w : ℕ} (h : Steady c g) (hg : c.inner.state.guarded = true)
    (hr : Running c w g') (hw : w < c.frameLen) : Steady (c.setWritten w) g' where
  task := h.task
  held := fun _ => hr.held
  before := hr.before
  live := h.live
  stays := by
    rw [hr.part hw]
    exact h.stays.setWritten hg hw
  follows hp h0 := by
    obtain ⟨hs, hb⟩ := hr.follows hp h0
    exact ⟨Conn.shut_setWritten hs, hb⟩

theorem Running.put {w n : ℕ} (h : Running c w g) (hlive : c.last = none) (hg : c.inner.state.guarded = true)
    (hn : 0 < n) (hw : w + n ≤ c.frameLen) :
    Running c (w + n)
      (failing.upd (c.setWritten w) (.write (c.inner.buffer.bytes.drop w)) (.ready (.ok n)) g) := by
  have hlen : (c.inner.buffer.bytes.drop w).length = c.frameLen - w := by
    simp [Conn.frameLen]
  have hout := h.part (by omega)
  constructor
  case held =>
    have hold : (c.setWritten w).holds = true := by
      rw [Conn.holds_setWritten]
      simp [Conn.holds, hg]
    simp [failing, hold]
  case before => exact hlive
  case part =>
    intro hlt
    simp only [failing, outAfter, hlen]
    rw [if_pos (by omega), hout]
  case whole =>
    intro heq
    simp only [failing, outAfter, hlen]
    rw [if_neg (by omega)]
  case follows => exact fun hp _ => ⟨Conn.shut_of_setWritten hp, rfl⟩

theorem Steady.wp_flushBuf {post : Conn → Poll (Except IoError Unit) → Trail → Prop}
    (h : Steady c g) (hg : c.inner.state.guarded = true)
    (hpend : ∀ w g', Steady (c.setWritten w) g' → post (c.setWritten w) .pending g')
    (hfail : ∀ e g', Steady (c.setWritten 0) g' → post (c.setWritten 0) (.ready (.error e)) g')
    (hfin : ∀ g', Running c c.frameLen g' → post (c.setWritten c.frameLen).clear (.ready (.ok ())) g') :
    (flushBuf c).wp failing post g := by
  have hlen : c.inner.buffer.bytes.length = c.frameLen := PacketBuffer.length_bytes _
  have hholds : ∀ w, (c.setWritten w).holds = true := by
    intro w
    rw [Conn.holds_setWritten]
    simp [Conn.holds, hg]
  have hsame : ∀ (w : ℕ) (g' : Trail) (r : WriteResp (.write (c.inner.buffer.bytes.drop w))), Running c w g' →
      w < c.frameLen → outAfter g'.out (.write (c.inner.buffer.bytes.drop w)) r = w →
      Running c w (failing.upd (c.setWritten w) (.write (c.inner.buffer.bytes.drop w)) r g') := by
    intro w g' r hr hw hout
    constructor
    case held => simp [failing, hholds]
    case before => exact h.live
    case part => exact fun _ => hout
    case whole => exact fun heq => absurd heq hw.ne
    case follows => exact fun hp _ => ⟨Conn.shut_of_setWritten hp, rfl⟩
  refine FlushRule.wp_flushBuf (J := Running c) ?_ (h.running hg) (h.stays.out hg).2.le
  constructor
  case guarded => exact hg
  case wide => exact h.stays.wide hg
  case ask =>
    intro w g' hr hw
    refine ⟨h.stopped hg hr hw, hholds w, ?_⟩
    rw [hr.part hw]
    rfl
  case honest => exact fun _ _ _ hok => hok.1
  case step => exact fun w g' n hr hn hw => hr.put h.live hg hn hw
  case zero =>
    intro w g' hr hw hok
    have h0 : (c.setWritten w).inner.state.written = 0 := hok.2
    rw [Conn.setWritten_state, WritePipeState.written_setWritten hg] at h0
    subst h0
    refine hfail _ _ (h.stopped hg (hsame 0 g' _ hr hw ?_) hw)
    have hpos : 0 < (c.inner.buffer.bytes.drop 0).length := by
      rw [List.drop_zero, hlen]
      exact hw
    simp only [outAfter]
    rw [if_pos hpos, hr.part hw]
  case error =>
    intro w g' e hr hw hok
    have h0 : (c.setWritten w).inner.state.written = 0 := hok.2
    rw [Conn.setWritten_state, WritePipeState.written_setWritten hg] at h0
    subst h0
    exact hfail _ _ (h.stopped hg (hsame 0 g' _ hr hw (hr.part hw)) hw)
  case pending =>
    intro w g' hr hw
    exact hpend w _ (h.stopped hg (hsame w g' _ hr hw (hr.part hw)) hw)
  case finish => exact hfin

theorem Steady.waits (h : Steady c g) (hn : c.holds = false) (held : Bool) {p : Conn} (hp : p.last = none)
    (hs : p.shut → c.shut ∧ c.inner.buffer = p.inner.buffer) : Steady c ⟨g.out, held, p⟩ where
  task := h.task
  held hh := by
    rw [hn] at hh
    cases hh
  before := hp
  live := h.live
  stays := h.stays
  follows hsh _ := hs hsh

theorem Steady.setFut (h : Steady c g) (b : Bool) : Steady (c.setFut b) g where
  task := h.task
  held := h.held
  before := h.before
  live := h.live
  stays := h.stays
  follows := h.follows

theorem Steady.wp_pollLock {post : Conn → Poll Unit → Trail → Prop} (h : Steady c g)
    (hn : c.holds = false)
    (hgot : ∀ g', Steady c g' → g'.held = true → post (c.setFut false) (.ready ()) g')
    (hpend : ∀ g', Steady (c.setFut true) g' → post (c.setFut true) .pending g') :
    (pollLock c).wp failing post g := by
  have hf : ∀ b, (c.setFut b).holds = false := fun _ => hn
  have hmove : ∀ (b : Bool) (q : WriteQuery) (r : WriteResp q) (g' : Trail), Steady c g' →
      outAfter g'.out q r = g'.out → Steady c (failing.upd (c.setFut b) q r g') := by
    intro b q r g' hs hout
    have hw := hs.waits hn ((c.setFut b).holds || granted ⟨q, r⟩) (p := c.setFut b) h.live fun hsh => ⟨hsh, rfl⟩
    simpa [failing, hout] using hw
  refine LockRule.wp_pollLock (K := Steady c) ?_ h
  constructor
  case askTry => exact fun g' hs => ⟨hs.setFut false, hn⟩
  case askPoll => exact fun g' hs => ⟨hs.setFut true, hn⟩
  case refused => exact fun g' hs => hmove _ _ _ _ hs rfl
  case tried => exact fun g' hs _ => hgot _ (hmove _ _ _ _ hs rfl) (by simp [failing, granted])
  case polled => exact fun g' hs _ => hgot _ (hmove _ _ _ _ hs rfl) (by simp [failing, granted])
  case pending => exact fun g' hs => hpend _ ((hmove _ _ _ _ hs rfl).setFut true)

theorem Steady.out_eq_zero (h : Steady c g) {k : Waker} (hs : c.inner.state = .writing k .buffering) :
    g.out = 0 := by
  have hst := h.stays
  rw [hs] at hst
  exact hst

theorem Steady.stage (c : Conn) (st : WritePipeState) (ht : c.task = none) (hl : c.last = none)
    (hb : g.prev.last = none) (hh : g.held = true) (h0 : g.out = 0) (hst : Stays (c.setState st) 0 st) :
    Steady (c.setState st) g where
  task := ht
  held _ := hh
  before := hb
  live := hl
  stays := by
    rw [h0]
    exact hst
  follows _ hne := absurd h0 hne

/-- The frame in the buffer is sent, the buffer cleared and the guard still held. -/
structure Voided (c : Conn) (g : Trail) : Prop where
  task : c.task = none
  guarded : c.inner.state.guarded = true
  held : g.held = true
  before : g.prev.last = none
  live : c.last = none
  out : g.out = 0
  data : c.inner.buffer.data = []

theorem Running.voided (h : Running c c.frameLen g) (ht : c.task = none) (hl : c.last = none)
    (hg : c.inner.state.guarded = true) : Voided (c.setWritten c.frameLen).clear g where
  task := ht
  guarded := by
    rw [Conn.clear_state, Conn.setWritten_state, WritePipeState.guarded_setWritten, hg]
  held := h.held
  before := h.before
  live := hl
  out := h.whole rfl
  data := rfl

theorem Voided.stage (h : Voided c g) (st : WritePipeState) (hst : Stays (c.setState st) 0 st) :
    Steady (c.setState st) g :=
  Steady.stage c st h.task h.live h.before h.held h.out hst

theorem Voided.emptied (h : Voided c g) {k : Waker} {w : ℕ} (hs : c.inner.state = .writing k (.flushing w)) :
    Emptied c g :=
  ⟨h.task, ⟨k, w, hs⟩, h.held, h.before, h.live, h.out, h.data⟩

theorem Steady.push (h : Steady c g) {k : Waker} {st : WriteState} (hs : c.inner.state = .writing k st)
    (buf : List UInt8) : Steady (c.push buf c.inner.state.written) g where
  task := h.task
  held := h.held
  before := h.before
  live := h.live
  stays := h.stays.push hs buf _
  follows hp h0 := by
    obtain ⟨⟨st', hsh⟩, -⟩ := h.follows hp h0
    rw [hs] at hsh
    cases hsh

theorem Steady.setWaker (h : Steady c g) {k : Waker} {st : WriteState}
    (hs : c.inner.state = .writing k st) (cx : Waker) : Steady (c.setState (.writing cx st)) g where
  task := h.task
  held hh := by
    refine h.held ?_
    cases st with
    | buffering => simp [Conn.holds, h.task, WritePipeState.guarded] at hh
    | flushing w => simp [Conn.holds, hs, WritePipeState.guarded]
  before := h.before
  live := h.live
  stays := h.stays.setWaker hs cx
  follows hp h0 := by
    obtain ⟨⟨st', hsh⟩, -⟩ := h.follows hp h0
    rw [hs] at hsh
    cases hsh

theorem Steady.not_poisoned (h : Steady c g) : c.inner.state ≠ .poisoned := by
  intro hs
  have hst := h.stays
  rw [hs] at hst
  exact hst

theorem Steady.rests_shut (h : Steady c g) {st : ShutDownState} (hs : c.inner.state = .shutdown st) :
    Steady c g ∧ ∀ k st, c.inner.state = .writing k st → st = .buffering := by
  refine ⟨h, fun k st' hk => ?_⟩
  rw [hs] at hk
  cases hk

/-- A write is refused before its frame is begun. -/
structure Unbegun (c : Conn) (g : Trail) : Prop where
  steady : Steady c g
  guarded : c.inner.state.guarded = true
  written : c.inner.state.written = 0

theorem Unbegun.stage (h : Unbegun c g) (st : WritePipeState) (hst : Stays (c.setState st) 0 st) :
    Steady (c.setState st) g := by
  have hheld : g.held = true := h.steady.held (by simp [Conn.holds, h.guarded])
  have hout : g.out = 0 := (h.steady.stays.out h.guarded).1.trans h.written
  exact Steady.stage c st h.steady.task h.steady.live h.steady.before hheld hout hst

theorem Steady.data_ne_nil (h : Steady c g) (hg : c.inner.state.guarded = true)
    (hf : ∀ w, c.inner.state ≠ .shutdown (.writing w)) : c.inner.buffer.data ≠ [] := by
  have hst := h.stays
  rcases WritePipeState.guarded_cases hg with ⟨k, w, hs⟩ | ⟨w, hs⟩ | ⟨w, hs⟩
  · rw [hs] at hst
    exact hst.2.2
  · rw [hs] at hst
    exact hst.2.2
  · exact absurd hs (hf w)

theorem Steady.shut (h : Steady c g) {k : Waker} (hs : c.inner.state = .writing k .buffering) :
    Steady ((c.setState (.shutdown .waitingLock)).wake k) g := by
  have hst := h.out_eq_zero hs
  refine ⟨h.task, fun hh => ?_, h.before, h.live, hst, fun _ hne => absurd hst hne⟩
  simp [Conn.holds, h.task, WritePipeState.guarded] at hh

theorem Steady.shutLocked (h : Steady c g) {k : Waker} {w : ℕ} (hs : c.inner.state = .writing k (.flushing w)) :
    Steady ((c.setState (.shutdown (.flushing w))).wake k) g := by
  have hst := h.stays
  rw [hs] at hst
  have hheld : g.held = true := h.held (by simp [Conn.holds, hs, WritePipeState.guarded])
  refine ⟨h.task, fun _ => hheld, h.before, h.live, hst, fun hp h0 => ?_⟩
  obtain ⟨⟨st', hsh⟩, -⟩ := h.follows hp h0
  rw [hs] at hsh
  cases hsh

theorem Steady.shutdownRule : ShutdownRule failing Steady (fun c g => Steady c g ∧ g.held = true) Voided Unbegun Rests := by
  constructor
  case lock =>
    intro c g post h hu hgot hpend
    exact h.wp_pollLock (Conn.not_holds h.task hu) (fun g' ha hh => hgot g' ⟨ha, hh⟩) hpend
  case flush =>
    intro c g post h hg hpend hfail hfin
    apply h.wp_flushBuf hg hpend
    · intro e g' ha
      refine hfail 0 e g' ⟨ha, ?_, WritePipeState.written_setWritten hg 0⟩
      rw [Conn.setWritten_state, WritePipeState.guarded_setWritten, hg]
    · exact fun g' hr => hfin g' (hr.voided h.task h.live hg)
  case stage =>
    intro c g h hs hd
    have hout := h.1.stays
    rw [hs] at hout
    exact Steady.stage (c.setFut false) _ h.1.task h.1.live h.1.before h.2 hout ⟨rfl, Conn.zero_lt_frameLen _, hd⟩
  case stageEmpty =>
    intro c g h hs hd
    have hout := h.1.stays
    rw [hs] at hout
    exact Steady.stage (c.setFut false) _ h.1.task h.1.live h.1.before h.2 hout ⟨rfl, Conn.zero_lt_frameLen _, hd⟩
  case pass => exact fun h hs hd => absurd hd (h.data_ne_nil (by rw [hs]; rfl) (by simp [hs]))
  case next => exact fun h _ => h.stage _ ⟨rfl, Conn.zero_lt_frameLen _, h.data⟩
  case done => exact fun h _ => ⟨h.stage _ rfl, fun hf => hf.elim⟩
  case final =>
    intro c g w h hs
    have hst := h.stays
    rw [hs] at hst
    exact hst.2.2
  case tolerant => exact fun hf => hf
  case calm =>
    intro c g a h ha
    unfold Outcome.calm at ha
    split at ha
    · exact ⟨h, fun hf => hf.elim⟩
    · exact ⟨h, fun hf => hf.elim⟩
    · exact ⟨h, fun hf => hf.elim⟩
    · exact ⟨h, fun hf => hf.elim⟩
    · exact ha.elim
  case again => exact fun h _ => ⟨h, fun hf => hf.elim⟩
  case broken => exact fun h hs => ⟨h, fun _ => (h.rests_shut hs).2⟩
  case failedShut =>
    intro c g e h _
    have hst : Steady (c.setState (.shutdown .error)) g := h.stage _ rfl
    exact ⟨hst, fun _ => (hst.rests_shut rfl).2⟩

/-- The poll calls lose nothing that is begun. -/
theorem Steady.pollRule : PollRule failing Steady (fun c g => Steady c g ∧ g.held = true) Voided Unbegun Rests := by
  constructor
  case toShutdownRule => exact Steady.shutdownRule
  case socket =>
    intro c g k w h hs
    refine ⟨h.emptied hs, ?_, ?_⟩
    · rintro ⟨hok, -⟩
      cases hok
    · rintro res ⟨hok, -⟩
      obtain rfl : res = .ok () := by simpa [Fallible] using hok
      have hnext : Voided c (failing.upd c .flush (.ready (.ok ())) g) :=
        ⟨h.task, h.guarded, by simp [failing, Conn.holds, h.guarded], h.live, h.live, h.out, h.data⟩
      rw [Conn.release_eq hs]
      exact ⟨hnext.stage _ rfl, fun hf => hf.elim⟩
  case waker => exact fun cx h hs => h.setWaker hs cx
  case push => exact fun buf h hs => h.push hs buf
  case locked =>
    intro c g k h hs hd
    exact Steady.stage (c.setFut false) _ h.1.task h.1.live h.1.before h.2 (h.1.out_eq_zero hs)
      ⟨rfl, Conn.zero_lt_frameLen _, hd⟩
  case lockedEmpty =>
    intro c g k h hs hd
    exact ⟨h.1.task, rfl, h.2, h.1.before, h.1.live, h.1.out_eq_zero hs, hd⟩
  case empty => exact fun h hs hd => absurd hd (h.data_ne_nil (by rw [hs]; rfl) (by simp [hs]))
  case release =>
    intro c g k w h hs
    rw [Conn.release_eq hs]
    exact h.stage _ rfl
  case shut => exact fun h hs => h.shut hs
  case shutLocked => exact fun h hs => h.shutLocked hs
  case sound => exact fun h => h.not_poisoned
  case refused => exact fun h hs => ⟨⟨h, fun _ => (h.rests_shut hs).2⟩, ⟨h, fun _ => (h.rests_shut hs).2⟩⟩
  case failed =>
    intro c g k w e h hs
    have hrel : Steady c.release g ∧ ∀ k' st, c.release.inner.state = .writing k' st → st = .buffering := by
      rw [Conn.release_eq hs]
      refine ⟨h.stage _ rfl, fun k' st hk => ?_⟩
      cases hk
      rfl
    exact ⟨⟨hrel.1, fun _ => hrel.2⟩, ⟨hrel.1, fun _ => hrel.2⟩⟩

def Busy (c : Conn) (g : Trail) : Prop := Greeting c g ∨ Parting c g

theorem Busy.next (h : Busy c g) (c' : Conn) (hs : c'.inner.state = c.inner.state) (hl : c'.last = c.last)
    {n : ℕ} {held : Bool} (hh : c'.holds = true → held = true) : Busy c' ⟨n, held, c⟩ := by
  rcases h with ⟨⟨k, hst⟩, -, -, hlive, -⟩ | ⟨hst, -, hfound, hkeeps⟩
  · left
    refine ⟨⟨k, hs.trans hst⟩, hh, hlive, hl.trans hlive, ?_⟩
    rintro ⟨st, hsh⟩
    rw [hst] at hsh
    cases hsh
  · right
    have hsome : c.last ≠ none := by
      by_cases hp : g.prev.last = none
      · rw [hfound hp]
        simp
      · rw [hkeeps hp]
        exact hp
    exact ⟨hs.trans hst, hh, fun hn => absurd hn hsome, fun _ => hl⟩

section
variable {post : Conn → Except IoError Unit → Trail → Prop} {o : Origin}

theorem Busy.wp_writeAll {bytes : List UInt8}
    (hok : ∀ g, Busy (c.setTask (some (o, []))) g → g.out = 0 → post (c.setTask (some (o, []))) (.ok ()) g)
    (herr : ∀ rest e g, Busy (c.setTask (some (o, rest))) g → post (c.setTask (some (o, rest))) (.error e) g)
    (h : Busy (c.setTask (some (o, bytes))) g) (hne : bytes ≠ []) :
    (writeAll o bytes c).wp failing post g := by
  have hnext : ∀ (w v : ℕ) (q : WriteQuery) (r : WriteResp q) (g : Trail), Busy (c.setTask (some (o, bytes.drop w))) g →
      Busy (c.setTask (some (o, bytes.drop v))) (failing.upd (c.setTask (some (o, bytes.drop w))) q r g) := by
    intro w v q r g hb
    refine hb.next (c.setTask (some (o, bytes.drop v))) rfl rfl fun _ => ?_
    simp [Conn.holds]
  have hrule : WriteAllRule failing
      (fun w g => Busy (c.setTask (some (o, bytes.drop w))) g ∧ (w = bytes.length → g.out = 0)) c o bytes post := by
    constructor
    case ask => exact fun w g hJ _ => ⟨hJ.1, by simp⟩
    case honest => exact fun _ _ _ hok => hok.1
    case step =>
      intro w g n hJ _ hw
      refine ⟨hnext _ _ _ _ _ hJ.1, fun heq => ?_⟩
      simp only [failing, outAfter, List.length_drop]
      rw [if_neg (by omega)]
    case zero => exact fun w g hJ _ => herr _ _ _ (hnext w w _ _ _ hJ.1)
    case error => exact fun w g e hJ _ => herr _ _ _ (hnext w w _ _ _ hJ.1)
    case finish =>
      intro g hJ
      rw [List.drop_length] at hJ
      exact hok g hJ.1 (hJ.2 rfl)
  have hwp := hrule.wp_writeAll (w := 0) (g := g) ⟨h, fun h0 => ?_⟩ (Nat.zero_le _)
  · simpa using hwp
  · exact absurd (List.length_eq_zero_iff.mp h0.symm) hne

end

theorem Busy.setTask_none {t : Option (Origin × List UInt8)} (h : Busy (c.setTask t) g) : Busy (c.setTask none) g := by
  rcases h with ⟨⟨k, hst⟩, -, hb, hl, hf⟩ | ⟨hst, -, hfound, hkeeps⟩
  · refine Or.inl ⟨⟨k, hst⟩, fun hh => ?_, hb, hl, hf⟩
    have hs : c.inner.state = .writing k .buffering := hst
    simp [Conn.holds, hs, WritePipeState.guarded] at hh
  · refine Or.inr ⟨hst, fun hh => ?_, hfound, hkeeps⟩
    have hs : c.inner.state = .poisoned := hst
    simp [Conn.holds, hs, WritePipeState.guarded] at hh

theorem Greeting.steady (h : Greeting c g) (ht : c.task = none) (h0 : g.out = 0) : Steady c g where
  task := ht
  held := h.held
  before := h.before
  live := h.live
  stays := by
    obtain ⟨k, hs⟩ := h.state
    rw [hs]
    exact h0
  follows hp := absurd hp h.fresh

theorem Steady.wp_handshake (h : Steady c g) {k : Waker} (hs : c.inner.state = .writing k .buffering)
    (hd : c.inner.buffer.data = []) (hp : g.prev = c) :
    (VtMuxer.handshake c).wp failing (fun c r g => Rests c (.handshake r) g) g := by
  have he : c.inner.buffer.isEmpty = true := (PacketBuffer.isEmpty_iff _).mpr hd
  have hfresh : ¬ g.prev.shut := by
    rw [hp]
    rintro ⟨st, hsh⟩
    rw [hs] at hsh
    cases hsh
  have hstart : Busy (c.setFut false) g := Or.inl ⟨⟨k, hs⟩, h.held, h.before, h.live, hfresh⟩
  have hgreet : ∀ {c' : Conn} {g' : Trail}, c'.inner.state = .writing k .buffering → Busy c' g' → Greeting c' g' := by
    intro c' g' hs' hb
    refine hb.resolve_right fun hpart => ?_
    have hst := hpart.state
    rw [hs'] at hst
    cases hst
  simp only [VtMuxer.handshake, VtMuxer.lock, Proc.bind_apply, Proc.get_apply, Prog.bind_ret, hs, he,
    Proc.modify_apply, Proc.ask_apply, Prog.bind_ask, Prog.wp_ask]
  refine ⟨⟨hstart, h.task⟩, ?_⟩
  intro _ _
  rw [Prog.wp_bind]
  refine Busy.wp_writeAll (c := c.setFut false) ?_ ?_
    (hstart.next ((c.setFut false).setTask (some (.handshake, c.inner.buffer.bytes))) rfl rfl fun _ => ?_) ?_
  · intro g' hb h0
    have hgr : Greeting ((c.setFut false).setTask none) g' := hgreet hs hb.setTask_none
    have hopen : Greeting ((c.setFut false).setTask none).setOpened g' :=
      ⟨hgr.state, hgr.held, hgr.before, hgr.live, hgr.fresh⟩
    exact hopen.steady rfl h0
  · intro rest e g' hb
    exact ⟨hgreet hs hb.setTask_none, rfl⟩
  · simp [granted]
  · intro hnil
    have hlen := congrArg List.length hnil
    simp at hlen

theorem Busy.wp_sendEof (a : SocketAddr) (h : Busy c g) (hs : c.inner.state = .poisoned)
    (hh : g.held = true) : (sendEof a c).wp failing (fun c _ g => Parting c g ∧ c.task = none) g := by
  have hpart : ∀ {c' : Conn} {g' : Trail}, c'.inner.state = .poisoned → Busy c' g' → Parting c' g' := by
    intro c' g' hs' hb
    refine hb.resolve_left fun hgr => ?_
    obtain ⟨k, hst⟩ := hgr.state
    rw [hs'] at hst
    cases hst
  have hbusy : Busy (c.setTask (some (.eof, (MuxFrameHeader.empty a).bytes))) g := by
    obtain ⟨-, -, hfound, hkeeps⟩ := hpart hs h
    exact Or.inr ⟨hs, fun _ => hh, hfound, hkeeps⟩
  have hne : (MuxFrameHeader.empty a).bytes ≠ [] := by
    rw [← frame_nil]
    exact frame_ne_nil _ _
  simp only [sendEof, Proc.bind_apply, Prog.wp_bind]
  refine Busy.wp_writeAll ?_ ?_ hbusy hne
  · exact fun g' hb _ => ⟨hpart hs hb.setTask_none, rfl⟩
  · exact fun rest e g' hb => ⟨hpart hs hb.setTask_none, rfl⟩

theorem wp_drop_failing (ht : c.task = none) (hl : c.last = none) (hp : g.prev = c) (hh : c.holds = true → g.held = true)
    (hn : c.inner.state ≠ .poisoned) (hw : ∀ k w, c.inner.state = .writing k (.flushing w) → w < c.frameLen) :
    (VtMuxer.drop c).wp failing (fun c _ g => Parting c g ∧ c.task = none) g := by
  have hpart : Parting (c.retire.setFut false) g := by
    refine ⟨rfl, fun hh' => ?_, fun _ => by rw [hp]; rfl, fun hne => absurd (by rw [hp, hl]) hne⟩
    simp [Conn.holds, ht, WritePipeState.guarded] at hh'
  have hbusy : Busy (c.retire.setFut false) g := Or.inr hpart
  have hheld : c.inner.state.guarded = true → g.held = true := fun hg => hh (by simp [Conn.holds, hg])
  rcases hs : c.inner.state with _ | st | ⟨k, _ | _ | w⟩
  · exact absurd hs hn
  · rw [drop_shutdown hs]
    exact ⟨hpart, ht⟩
  · rw [drop_buffering hs]
    refine ⟨⟨hbusy, ht⟩, ?_⟩
    intro _ _
    refine Busy.wp_sendEof c.addr (hbusy.next _ rfl rfl fun hh' => ?_) rfl ?_
    · simp [granted]
    · simp [failing, granted]
  · rw [drop_unbegun hs]
    exact Busy.wp_sendEof c.addr hbusy rfl (hheld (by rw [hs]; rfl))
  · have hlt := hw k (w + 1) hs
    have hfrom : c.inner.buffer.bytesFrom? (w + 1) = some (c.inner.buffer.bytes.drop (w + 1)) :=
      PacketBuffer.bytesFrom?_eq_some.mpr ⟨hlt.le, rfl⟩
    have hne : c.inner.buffer.bytes.drop (w + 1) ≠ [] := by
      rw [ne_eq, List.drop_eq_nil_iff, Conn.length_bytes]
      omega
    have hrest : Busy ((c.retire.setFut false).setTask (some (.data, c.inner.buffer.bytes.drop (w + 1)))) g :=
      Or.inr ⟨rfl, fun _ => hheld (by rw [hs]; rfl), hpart.found, hpart.keeps⟩
    rw [drop_begun hs hfrom, Prog.wp_bind]
    refine Busy.wp_writeAll (c := c.retire.setFut false) ?_ ?_ hrest hne
    · intro g' hb _
      have hheld' : g'.held = true := by
        rcases hb with hgr | hpr
        · exact hgr.held (by simp [Conn.holds])
        · exact hpr.held (by simp [Conn.holds])
      exact Busy.wp_sendEof c.addr hb rfl hheld'
    · intro rest e g' hb
      refine ⟨hb.setTask_none.resolve_left fun hgr => ?_, rfl⟩
      obtain ⟨k', hst⟩ := hgr.state
      cases hst

theorem Steady.start (h : Steady c g) : Steady c (failing.start c g) where
  task := h.task
  held hh := hh
  before := h.live
  live := h.live
  stays := h.stays
  follows hp _ := ⟨hp, rfl⟩

/-- Whatever is called next, a connection that is not gone can be dropped. -/
theorem Rests.wp_drop {a : Outcome} (h : Rests c a g) (hm : a.may .drop) :
    (VtMuxer.drop c).wp failing (fun c _ g => Parting c g ∧ c.task = none) (failing.start c g) := by
  have hsteady : Steady c g → (VtMuxer.drop c).wp failing (fun c _ g => Parting c g ∧ c.task = none)
      (failing.start c g) := by
    intro hs
    refine wp_drop_failing hs.task hs.live rfl (fun hh => hh) hs.not_poisoned fun k w hst => ?_
    have hstays := hs.stays
    rw [hst] at hstays
    exact hstays.2.1
  unfold Rests at h
  split at h
  · exact hsteady h.1
  · exact hm.elim
  · obtain ⟨⟨⟨k, hs⟩, -, -, hl, -⟩, ht⟩ := h
    refine wp_drop_failing ht hl rfl (fun hh => hh) (by simp [hs]) fun k' w hst => ?_
    rw [hs] at hst
    cases hst
  · exact hsteady h
  · exact hsteady h.1

theorem Rests.steady {a : Outcome} (h : Rests c a g) (hd : a ≠ .dropped) (he : ∀ e, a ≠ .handshake (.error e)) :
    Steady c g := by
  unfold Rests at h
  split at h
  · exact h.1
  · exact absurd rfl hd
  · exact absurd rfl (he _)
  · exact h
  · exact h.1

/-- Every call that may be made on a connection keeps the contract. -/
theorem Rests.wp_body {a : Outcome} (h : Rests c a g) {op : WriteOp} (hm : a.may op)
    (hd : ∀ e, a = .handshake (.error e) → op = .drop) : (op.body c).wp failing Rests (failing.start c g) := by
  have hnot : a ≠ .dropped := by
    rintro rfl
    exact hm
  have hsteady : op ≠ .drop → Steady c (failing.start c g) := by
    intro hop
    exact (h.steady hnot fun e he => hop (hd e he)).start
  simp only [WriteOp.body]
  cases op with
  | handshake =>
    obtain ⟨hs, ⟨k, hst⟩, hdata⟩ : Rests c .new g := by
      cases a with
      | new => exact h
      | dropped => exact absurd rfl hnot
      | _ => exact absurd rfl hm
    simp only [Proc.bind_apply, Prog.wp_bind, Proc.pure_apply, Prog.wp_ret]
    exact hs.start.wp_handshake hst hdata rfl
  | write cx buf =>
    simp only [Proc.bind_apply, Prog.wp_bind, Proc.pure_apply, Prog.wp_ret]
    exact Prog.wp_mono (fun _ _ _ hw => hw.1) (Steady.pollRule.wp_pollWrite (hsteady (by simp)) cx buf)
  | flush cx =>
    simp only [Proc.bind_apply, Prog.wp_bind, Proc.pure_apply, Prog.wp_ret]
    exact Steady.pollRule.wp_pollFlush (hsteady (by simp)) cx
  | shutdown cx =>
    simp only [Proc.bind_apply, Prog.wp_bind, Proc.pure_apply, Prog.wp_ret]
    exact Steady.pollRule.wp_pollShutdown (hsteady (by simp)) cx
  | drop =>
    simp only [Proc.bind_apply, Prog.wp_bind, Proc.pure_apply, Prog.wp_ret]
    exact h.wp_drop hm

/-- Wherever a connection stands, it is in a poll call or after one, or in an async body. -/
theorem at_failing (h : Machine.At failing Rests c g) : Steady c g ∨ Emptied c g ∨ Busy c g := by
  rcases h with ⟨a, h⟩ | ⟨q, h⟩ | ⟨e, h⟩
  · unfold Rests at h
    split at h
    · exact Or.inl h.1
    · exact Or.inr (Or.inr (Or.inr h.1))
    · exact Or.inr (Or.inr (Or.inl h.1))
    · exact Or.inl h
    · exact Or.inl h.1
  · cases q with
    | tryLock => exact Or.inl h.1
    | pollFut => exact Or.inl h.1
    | write bytes => exact Or.inl h.1
    | flush => exact Or.inr (Or.inl h)
    | awaitLock queued => exact Or.inr (Or.inr h.1)
    | awaitWrite bytes => exact Or.inr (Or.inr h.1)
  · exact h.elim

theorem held_of_at (h : Machine.At failing Rests c g) (hh : c.holds = true) : g.held = true := by
  rcases at_failing h with h | h | h | h
  · exact h.held hh
  · exact h.held
  · exact h.held hh
  · exact h.held hh

/-- A shutdown that has begun a frame goes on with it, unless the connection was dropped. -/
theorem follows_of_at (h : Machine.At failing Rests c g) (hl : g.prev.last = none) (hp : g.prev.shut)
    (h0 : g.out ≠ 0) : Steady c g ∨ c.last = some g.prev.inner.state := by
  rcases at_failing h with h | h | h | h
  · exact Or.inl h
  · exact absurd h.out h0
  · exact absurd hp h.fresh
  · exact Or.inr (h.found hl)

theorem last_of_at (h : Machine.At failing Rests c g) (hl : g.prev.last ≠ none) : c.last = g.prev.last := by
  rcases at_failing h with h | h | h | h
  · exact absurd h.before hl
  · exact absurd h.before hl
  · exact absurd h.before hl
  · exact h.keeps hl

end

end VtMuxer
