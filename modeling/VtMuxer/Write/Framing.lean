import VtMuxer.Write.Polls

/-! What a connection has put on the wire, as its own code sees it: complete messages and
the first bytes of the next one. The contract of this module is kept by every call as long
as the socket does not fail. -/
namespace VtMuxer
open Interaction

/-- A message is what is sent between two moments at which all bytes offered are taken.
`part` is the message begun, of kind `kind`, and `held` bounds who may hold the lock. -/
structure Sent where
  socket : SocketAddr
  done : List (Origin × List UInt8)
  part : List UInt8
  kind : Origin
  held : Bool

def Sent.put (g : Sent) (o : Origin) (bytes : List UInt8) (n : ℕ) : Sent :=
  if n < bytes.length then { g with part := g.part ++ bytes.take n, kind := o }
  else { g with done := g.done ++ [(o, g.part ++ bytes)], part := [] }

@[simp] theorem Sent.socket_put (g : Sent) (o : Origin) (bytes : List UInt8) (n : ℕ) :
    (g.put o bytes n).socket = g.socket := by
  unfold Sent.put
  split <;> rfl

def granted : Sigma WriteResp → Bool
  | ⟨.tryLock, b⟩ => b
  | ⟨.pollFut, b⟩ => b
  | ⟨.awaitLock _, _⟩ => true
  | _ => false

/-- Answers of a socket that does not fail; its flush does nothing. -/
def Smooth : (q : WriteQuery) → WriteResp q → Prop
  | .write bytes, .ready (.ok n) => 1 ≤ n ∧ n ≤ bytes.length
  | .write _, .ready (.error _) => False
  | .awaitWrite bytes, .ok n => 1 ≤ n ∧ n ≤ bytes.length
  | .awaitWrite _, .error _ => False
  | .flush, r => r = .ready (.ok ())
  | _, _ => True

def Sent.answer (c : Conn) (q : WriteQuery) (r : WriteResp q) (g : Sent) : Sent :=
  let g' : Sent := { g with held := c.holds || granted ⟨q, r⟩ }
  match q, r with
  | .write bytes, .ready (.ok n) => g'.put c.origin bytes n
  | .awaitWrite bytes, .ok n => g'.put c.origin bytes n
  | _, _ => g'

/-- The messages of a connection: its handshake, its data frames, its final frame. -/
def history (a : SocketAddr) (opened closed : Bool) (ps : List (List UInt8)) :
    List (Origin × List UInt8) :=
  (if opened then [(.handshake, frame a [])] else []) ++ ps.map (fun p => (.data, frame a p)) ++
    if closed then [(.eof, frame a [])] else []

/-- The connection completed exactly the data frames `ps`. -/
structure Sends (c : Conn) (g : Sent) (closed : Bool) (ps : List (List UInt8)) : Prop where
  socket : c.addr = g.socket
  done : g.done = history c.addr c.opened closed ps
  sizes : ∀ p ∈ ps, p ≠ [] ∧ p.length ≤ 65535

def Midway (c : Conn) (g : Sent) (w : ℕ) : Prop :=
  w < c.frameLen ∧ g.part = c.inner.buffer.bytes.take w

/-- Where a connection in the given state stands on the wire. -/
def Stands (c : Conn) (g : Sent) (closed : Bool) : WritePipeState → Prop
  | .writing _ .buffering => closed = false ∧ g.part = []
  | .writing _ (.flushing w) => closed = false ∧ c.inner.buffer.data ≠ [] ∧ Midway c g w
  | .shutdown .waitingLock => closed = false ∧ g.part = []
  | .shutdown (.flushing w) => closed = false ∧ c.inner.buffer.data ≠ [] ∧ Midway c g w
  | .shutdown (.writing w) => closed = false ∧ c.inner.buffer.data = [] ∧ Midway c g w
  | .shutdown .done => closed = true ∧ c.inner.buffer.data = [] ∧ g.part = []
  | .shutdown .error => False
  | .poisoned => False

/-- A connection before its drop, wherever a poll call waits or has returned. -/
def Alive (c : Conn) (g : Sent) : Prop :=
  c.task = none ∧ (c.holds = true → g.held = true) ∧ (g.part ≠ [] → g.kind = c.origin) ∧
    ∃ closed ps, Sends c g closed ps ∧ ps.flatten ++ c.inner.buffer.data = c.pushed ∧
      Stands c g closed c.inner.state

/-- The frame is sent and the guard still held, for the socket's flush. -/
def Flushed (c : Conn) (g : Sent) : Prop :=
  c.task = none ∧ (∃ k w, c.inner.state = .writing k (.flushing w)) ∧ g.held = true ∧
    c.inner.buffer.data = [] ∧ g.part = [] ∧ ∃ ps, Sends c g false ps ∧ ps.flatten = c.pushed

def WritePipeState.final : WritePipeState → Bool
  | shutdown (.writing _) => true
  | _ => false

/-- The frame in the buffer is sent, the buffer cleared and the guard still held. -/
structure Spoken (c : Conn) (g : Sent) : Prop where
  task : c.task = none
  guarded : c.inner.state.guarded = true
  held : g.held = true
  data : c.inner.buffer.data = []
  part : g.part = []
  sends : ∃ ps, Sends c g c.inner.state.final ps ∧ ps.flatten = c.pushed

def Fresh (c : Conn) (g : Sent) : Prop :=
  c.task = none ∧ (∃ k, c.inner.state = .writing k .buffering) ∧ c.inner.buffer.data = [] ∧
    c.opened = false ∧ c.pushed = [] ∧ c.addr = g.socket ∧ g.done = [] ∧ g.part = []

/-- An async body holds the lock and is to write `rest`, the end of the message `bytes`. -/
def Awaits (c : Conn) (g : Sent) (o : Origin) (bytes : List UInt8) : Prop :=
  ∃ rest, c.task = some (o, rest) ∧ rest ≠ [] ∧ g.part ++ rest = bytes ∧ g.held = true ∧
    (g.part ≠ [] → g.kind = o)

def Opening (c : Conn) (g : Sent) : Prop :=
  Awaits c g .handshake (frame c.addr []) ∧ Fresh (c.setTask none) { g with part := [] }

/-- `drop` found the connection where the source lets it send the final frame, or where that
is sent already. -/
def Conn.orderly (c : Conn) : Prop :=
  (∃ k st, c.last = some (.writing k st)) ∨ c.last = some (.shutdown .done)

def Orphaned (c : Conn) (g : Sent) : Prop :=
  c.task = none ∧ c.inner.state = .poisoned ∧ c.orderly ∧ g.part = [] ∧ ∃ ps, Sends c g false ps

/-- The task spawned by `drop` holds the lock: it finishes the frame that was begun and
then sends the final one. -/
def Finishing (c : Conn) (g : Sent) : Prop :=
  c.inner.state = .poisoned ∧ c.orderly ∧ (∃ ps, Sends c g false ps) ∧
    ((∃ p, p ≠ [] ∧ p.length ≤ 65535 ∧ Awaits c g .data (frame c.addr p)) ∨
      Awaits c g .eof (frame c.addr []))

/-- Nothing more will come from the connection, which may have left a frame unfinished. -/
def Gone (c : Conn) (g : Sent) : Prop :=
  c.task = none ∧ c.inner.state = .poisoned ∧ ∃ closed ps, Sends c g closed ps ∧
    (c.orderly → closed = true ∧ g.part = []) ∧
    (¬ c.orderly → closed = false ∧ ∃ p w, p.length ≤ 65535 ∧ w < 20 + p.length ∧
      g.part = (frame c.addr p).take w)

/-- The contract of a connection whose socket does not fail; `drops` says whether it may
be dropped. -/
def framing (drops : Prop) : Contract WriteQuery WriteResp Conn Sent where
  ok _ q r := Smooth q r
  upd := Sent.answer
  start c g := { g with held := c.holds }
  inv c q g :=
    match q with
    | .tryLock => Alive c g
    | .pollFut => Alive c g
    | .write _ => Alive c g ∧ c.holds = true
    | .flush => Flushed c g
    | .awaitLock _ => Fresh c g ∨ drops ∧ Orphaned c g
    | .awaitWrite _ => Opening c g ∨ drops ∧ Finishing c g
  fault _ _ := False

def Idle (drops : Prop) (c : Conn) (a : Outcome) (g : Sent) : Prop :=
  match a with
  | .new => Alive c g ∧ Fresh c g
  | .dropped => drops ∧ Gone c g
  | .handshake _ => Alive c g ∧ c.opened = true
  | .shutdown (.ready (.ok ())) => Alive c g ∧ c.inner.state = .shutdown .done
  | _ => Alive c g

theorem history_snoc (a : SocketAddr) (opened : Bool) (ps : List (List UInt8)) (p : List UInt8) :
    history a opened false ps ++ [(.data, frame a p)] = history a opened false (ps ++ [p]) := by
  simp [history]

theorem history_close (a : SocketAddr) (opened : Bool) (ps : List (List UInt8)) :
    history a opened false ps ++ [(.eof, frame a [])] = history a opened true ps := by
  simp [history]

/-- The ghost state `g` when `w` bytes of the message `bytes` are taken since `g₀`. -/
def Sent.Upto (g₀ : Sent) (o : Origin) (bytes : List UInt8) (w : ℕ) (g : Sent) : Prop :=
  g.held = true ∧ g.socket = g₀.socket ∧ (w < bytes.length →
    g.done = g₀.done ∧ g.part = bytes.take w ∧ (g.part ≠ [] → g.kind = o)) ∧
  (w = bytes.length → g.done = g₀.done ++ [(o, bytes)] ∧ g.part = [])

/-- One more message is complete since `g₀`, and the lock is still held. -/
structure Sent.Ends (g₀ : Sent) (o : Origin) (bytes : List UInt8) (g : Sent) : Prop where
  held : g.held = true
  socket : g.socket = g₀.socket
  done : g.done = g₀.done ++ [(o, bytes)]
  part : g.part = []

section
variable {c : Conn} {g g' : Sent}

theorem Sends.congr {closed : Bool} {ps : List (List UInt8)} (h : Sends c g closed ps) {c' : Conn}
    (hc : c'.addr = c.addr) (ho : c'.opened = c.opened) (hs : g'.socket = g.socket)
    (hd : g'.done = g.done) : Sends c' g' closed ps :=
  ⟨by rw [hc, hs, h.socket], by rw [hd, h.done, hc, ho], h.sizes⟩

theorem Sends.snoc {ps : List (List UInt8)} (h : Sends c g false ps) {p : List UInt8}
    (hne : p ≠ []) (hl : p.length ≤ 65535) (he : g.Ends .data (frame c.addr p) g') :
    Sends c g' false (ps ++ [p]) := by
  refine ⟨by rw [he.socket, h.socket], by rw [he.done, h.done, history_snoc], ?_⟩
  intro q hq
  rcases List.mem_append.mp hq with hq | hq
  · exact h.sizes q hq
  · rw [List.mem_singleton.mp hq]
    exact ⟨hne, hl⟩

theorem Sends.close {ps : List (List UInt8)} (h : Sends c g false ps)
    (he : g.Ends .eof (frame c.addr []) g') : Sends c g' true ps :=
  ⟨by rw [he.socket, h.socket], by rw [he.done, h.done, history_close], h.sizes⟩

variable {g₀ : Sent} {o : Origin} {bytes : List UInt8} {w : ℕ}

theorem Sent.Upto.put {n : ℕ} (h : g₀.Upto o bytes w g) (hw : w < bytes.length) :
    g₀.Upto o bytes (w + n) ({ g with held := true }.put o (bytes.drop w) n) := by
  obtain ⟨-, hs, hu, -⟩ := h
  obtain ⟨hd, hp, -⟩ := hu hw
  unfold Sent.put
  rw [List.length_drop]
  refine ⟨by split <;> rfl, by split <;> exact hs, ?_, ?_⟩
  · intro hlt
    rw [if_pos (by omega)]
    exact ⟨hd, by simp only [hp, List.take_add], fun _ => rfl⟩
  · intro heq
    rw [if_neg (by omega)]
    exact ⟨by simp only [hd, hp, List.take_append_drop], rfl⟩

theorem Sent.Upto.ends (h : g₀.Upto o bytes bytes.length g) : g₀.Ends o bytes g :=
  ⟨h.1, h.2.1, (h.2.2.2 rfl).1, (h.2.2.2 rfl).2⟩

theorem Sent.Upto.zero (hh : g.held = true) (hp : g.part = []) (hne : bytes ≠ []) :
    g.Upto o bytes 0 g := by
  refine ⟨hh, rfl, fun _ => ⟨rfl, by simp [hp], fun hn => absurd hp hn⟩, fun h0 => ?_⟩
  exact absurd (List.length_eq_zero_iff.mp h0.symm) hne

theorem Sent.Upto.awaits (h : g₀.Upto o bytes w g) (hw : w < bytes.length) :
    Awaits (c.setTask (some (o, bytes.drop w))) g o bytes := by
  obtain ⟨-, hp, hk⟩ := h.2.2.1 hw
  refine ⟨bytes.drop w, rfl, ?_, ?_, h.1, hk⟩
  · rw [ne_eq, List.drop_eq_nil_iff]
    omega
  · rw [hp, List.take_append_drop]

end

section
variable {c : Conn} {g : Sent} {drops : Prop}

theorem Stands.setWritten {w : ℕ} {g' : Sent} {closed : Bool}
    (h : Stands c g closed c.inner.state) (hg : c.inner.state.guarded = true)
    (hm : Midway c g' w) :
    closed = false ∧ Stands (c.setWritten w) g' false (c.inner.state.setWritten w) := by
  unfold WritePipeState.guarded at hg
  split at hg <;> rename_i hs <;> try cases hg
  all_goals
    rw [hs] at h ⊢
    exact ⟨h.1, rfl, h.2.1, hm⟩

/-- A live connection is between two frames or inside one. -/
theorem Alive.between_or_inside (h : Alive c g) :
    c.holds = false ∧ g.part = [] ∧ c.inner.state.written = 0 ∨
      c.holds = true ∧ Midway c g c.inner.state.written ∧
        (c.inner.buffer.data = [] ↔ c.origin ≠ .data) := by
  obtain ⟨ht, -, -, closed, ps, -, -, hst⟩ := h
  match hs : c.inner.state with
  | .poisoned => rw [hs] at hst; exact hst.elim
  | .shutdown .error => rw [hs] at hst; exact hst.elim
  | .writing k .buffering =>
    rw [hs] at hst
    exact Or.inl ⟨by simp [Conn.holds, ht, hs, WritePipeState.guarded], hst.2, rfl⟩
  | .shutdown .waitingLock =>
    rw [hs] at hst
    exact Or.inl ⟨by simp [Conn.holds, ht, hs, WritePipeState.guarded], hst.2, rfl⟩
  | .shutdown .done =>
    rw [hs] at hst
    exact Or.inl ⟨by simp [Conn.holds, ht, hs, WritePipeState.guarded], hst.2.2, rfl⟩
  | .writing k (.flushing w) =>
    rw [hs] at hst
    exact Or.inr ⟨by simp [Conn.holds, hs, WritePipeState.guarded], hst.2.2,
      by simp [Conn.origin, ht, hs, hst.2.1]⟩
  | .shutdown (.flushing w) =>
    rw [hs] at hst
    exact Or.inr ⟨by simp [Conn.holds, hs, WritePipeState.guarded], hst.2.2,
      by simp [Conn.origin, ht, hs, hst.2.1]⟩
  | .shutdown (.writing w) =>
    rw [hs] at hst
    exact Or.inr ⟨by simp [Conn.holds, hs, WritePipeState.guarded], hst.2.2,
      by simp [Conn.origin, ht, hs, hst.2.1]⟩

theorem Alive.wide (h : Alive c g) (hg : c.inner.state.guarded = true) :
    c.frameLen < 2 ^ c.inner.state.counterBits := by
  obtain ⟨-, -, -, closed, ps, -, -, hst⟩ := h
  apply Conn.wide hg
  intro w hs
  rw [hs] at hst
  exact hst.2.1

theorem Alive.sending (h : Alive c g) (hg : c.inner.state.guarded = true) :
    g.Upto c.origin c.inner.buffer.bytes c.inner.state.written g ∧
      c.inner.state.written < c.frameLen := by
  obtain ⟨-, hh, hk, closed, ps, -, -, hst⟩ := h
  have hheld : g.held = true := hh (by simp [Conn.holds, hg])
  have hmid : Midway c g c.inner.state.written := by
    unfold WritePipeState.guarded at hg
    split at hg <;> rename_i hs <;> try cases hg
    all_goals
      rw [hs] at hst ⊢
      exact hst.2.2
  have hlen : c.inner.buffer.bytes.length = c.frameLen := PacketBuffer.length_bytes _
  refine ⟨⟨hheld, rfl, fun _ => ⟨rfl, hmid.2, hk⟩, ?_⟩, hmid.1⟩
  intro he
  have := hmid.1
  omega

theorem Alive.stopped (h : Alive c g) (hg : c.inner.state.guarded = true) {w : ℕ} {g' : Sent}
    (hu : g.Upto c.origin c.inner.buffer.bytes w g') (hw : w < c.frameLen) :
    Alive (c.setWritten w) g' := by
  obtain ⟨ht, -, -, closed, ps, hs, hp, hst⟩ := h
  obtain ⟨hd, hpart, hk⟩ := hu.2.2.1 (by simpa [Conn.frameLen] using hw)
  have hm : Midway c g' w := ⟨hw, hpart⟩
  obtain ⟨rfl, hst'⟩ := hst.setWritten hg hm
  refine ⟨ht, fun _ => hu.1, ?_, false, ps, hs.congr rfl rfl hu.2.1 hd, hp, hst'⟩
  rwa [Conn.origin_setWritten]

theorem Alive.wp_flushBuf {post : Conn → Poll (Except IoError Unit) → Sent → Prop}
    (h : Alive c g) (hg : c.inner.state.guarded = true)
    (hpend : ∀ w g', Alive (c.setWritten w) g' → post (c.setWritten w) .pending g')
    (hfin : ∀ g', g.Ends c.origin c.inner.buffer.bytes g' →
      post (c.setWritten c.frameLen).clear (.ready (.ok ())) g') :
    (flushBuf c).wp (framing drops) post g := by
  obtain ⟨hu, hw⟩ := h.sending hg
  have hlen : c.inner.buffer.bytes.length = c.frameLen := PacketBuffer.length_bytes _
  have hholds : ∀ w, (c.setWritten w).holds = true := by
    intro w
    rw [Conn.holds_setWritten]
    simp [Conn.holds, hg]
  refine FlushRule.wp_flushBuf
    (J := fun w g' => g.Upto c.origin c.inner.buffer.bytes w g') ?_ hu hw.le
  constructor
  case guarded => exact hg
  case wide => exact h.wide hg
  case ask => exact fun w g' hu' hw' => ⟨h.stopped hg hu' hw', hholds w⟩
  case honest => exact fun _ _ _ hn => hn.2
  case step =>
    intro w g' n hu' hn hw'
    have hput := hu'.put (n := n) (by omega)
    simpa [framing, Sent.answer, hholds, Conn.origin_setWritten] using hput
  case zero => exact fun _ _ _ _ hok => absurd hok.1 (by decide)
  case error => exact fun _ _ _ _ _ hok => hok.elim
  case pending =>
    intro w g' hu' hw'
    refine hpend w _ (h.stopped hg ?_ hw')
    simpa [framing, Sent.answer, hholds, Sent.Upto] using hu'.2
  case finish =>
    intro g' hu'
    rw [← hlen] at hu'
    exact hfin g' hu'.ends

theorem Alive.rehold (h : Alive c g) (hn : c.holds = false) (held : Bool) :
    Alive c { g with held := held } := by
  obtain ⟨ht, -, hk, closed, ps, hs, hp, hst⟩ := h
  refine ⟨ht, fun hh => ?_, hk, closed, ps, hs.congr rfl rfl rfl rfl, hp, hst⟩
  rw [hn] at hh
  cases hh

theorem Alive.setFut (h : Alive c g) (b : Bool) : Alive (c.setFut b) g := by
  obtain ⟨ht, hh, hk, closed, ps, hs, hp, hst⟩ := h
  exact ⟨ht, hh, hk, closed, ps, hs.congr rfl rfl rfl rfl, hp, hst⟩

theorem Alive.wp_pollLock {post : Conn → Poll Unit → Sent → Prop} (h : Alive c g)
    (hn : c.holds = false)
    (hgot : ∀ g', Alive c g' → g'.held = true → post (c.setFut false) (.ready ()) g')
    (hpend : ∀ g', Alive (c.setFut true) g' → post (c.setFut true) .pending g') :
    (pollLock c).wp (framing drops) post g := by
  have hf : ∀ b, (c.setFut b).holds = false := fun _ => hn
  refine LockRule.wp_pollLock (K := Alive c) ?_ h
  constructor
  case askTry => exact fun g' ha => ha.setFut false
  case askPoll => exact fun g' ha => ha.setFut true
  case refused => exact fun g' ha => ha.rehold hn _
  case tried => exact fun g' ha _ => hgot _ (ha.rehold hn _) (by simp [framing, Sent.answer, granted])
  case polled => exact fun g' ha _ => hgot _ (ha.rehold hn _) (by simp [framing, Sent.answer, granted])
  case pending => exact fun g' ha => hpend _ ((ha.rehold hn _).setFut true)

theorem Alive.locked (h : Alive c g) {k : Waker} (hs : c.inner.state = .writing k .buffering)
    (hh : g.held = true) (hd : c.inner.buffer.data ≠ []) (b : Bool) :
    Alive ((c.setFut b).setState (.writing k (.flushing 0))) g := by
  obtain ⟨ht, -, hk, closed, ps, hse, hp, hst⟩ := h
  rw [hs] at hst
  refine ⟨ht, fun _ => hh, fun hne => absurd hst.2 hne, closed, ps, hse.congr rfl rfl rfl rfl, hp, hst.1, hd,
    ?_, ?_⟩
  · simp only [Conn.frameLen]
    omega
  · simp [hst.2]

theorem Alive.spoken (h : Alive c g) (hg : c.inner.state.guarded = true) {g' : Sent}
    (he : g.Ends c.origin c.inner.buffer.bytes g') : Spoken (c.setWritten c.frameLen).clear g' := by
  obtain ⟨ht, -, -, closed, ps, hse, hpu, hst⟩ := h
  have hguard : (c.setWritten c.frameLen).clear.inner.state.guarded = true := by
    rw [Conn.clear_state, Conn.setWritten_state, WritePipeState.guarded_setWritten, hg]
  have hdata : closed = false → c.inner.buffer.data ≠ [] → c.origin = .data →
      ∃ ps, Sends (c.setWritten c.frameLen).clear g' false ps ∧ ps.flatten = c.pushed := by
    rintro rfl hne ho
    rw [ho, PacketBuffer.bytes_eq_frame] at he
    exact ⟨_, (hse.snoc hne c.inner.buffer.length_data he).congr rfl rfl rfl rfl, by simpa using hpu⟩
  refine ⟨ht, hguard, he.held, rfl, he.part, ?_⟩
  rw [Conn.clear_state, Conn.setWritten_state]
  unfold WritePipeState.guarded at hg
  split at hg
  case h_1 hs =>
    rw [hs] at hst ⊢
    exact hdata hst.1 hst.2.1 (by simp [Conn.origin, ht, hs])
  case h_2 hs =>
    rw [hs] at hst ⊢
    exact hdata hst.1 hst.2.1 (by simp [Conn.origin, ht, hs])
  case h_3 hs =>
    rw [hs] at hst ⊢
    obtain ⟨rfl, hd, -⟩ := hst
    rw [show c.origin = .eof by simp [Conn.origin, ht, hs], PacketBuffer.bytes_eq_frame, hd] at he
    exact ⟨ps, (hse.close he).congr rfl rfl rfl rfl, by simpa [hd] using hpu⟩
  case h_4 => cases hg

theorem Flushed.release (h : Flushed c g) : Alive c.release g := by
  obtain ⟨ht, ⟨k, w, hs⟩, hh, hd, hp, ps, hse, hpu⟩ := h
  have hs' := Conn.release_state hs
  refine ⟨by simpa using ht, fun _ => hh, fun hne => absurd hp hne, false, ps,
    hse.congr (by simp [Conn.addr]) (by simp) rfl rfl, by simp [hd, hpu], ?_⟩
  rw [hs']
  exact ⟨rfl, hp⟩

/-- What is pushed is sent later, and agrees with what is sent already. -/
theorem Alive.push (h : Alive c g) {k : Waker} {st : WriteState} (hs : c.inner.state = .writing k st)
    (buf : List UInt8) : Alive (c.push buf c.inner.state.written) g := by
  obtain ⟨ht, hh, hk, closed, ps, hse, hp, hst⟩ := h
  have ha : (c.push buf c.inner.state.written).addr = c.addr := by simp [Conn.addr]
  refine ⟨ht, hh, hk, closed, ps, hse.congr ha rfl rfl rfl, ?_, ?_⟩
  · rw [Conn.push_buffer, PacketBuffer.push_data, Conn.push_pushed, ← hp, List.append_assoc]
  · rw [Conn.push_state]
    rw [hs] at hst ⊢
    cases st with
    | buffering => exact hst
    | flushing w =>
      obtain ⟨hc, hne, hlt, hpart⟩ := hst
      refine ⟨hc, ?_, ?_, ?_⟩
      · simp [hne]
      · simp only [Conn.frameLen, Conn.push_buffer, PacketBuffer.push_data,
          List.length_append] at hlt ⊢
        omega
      · rw [hpart]
        exact (PacketBuffer.take_bytes_push _ _ _).symm

end

end VtMuxer
