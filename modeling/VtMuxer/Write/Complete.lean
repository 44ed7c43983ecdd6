import VtMuxer.Write.Dropped

/-! What a finished flush and a finished shutdown have put on the stream, and that nothing
follows a shutdown. -/
namespace VtMuxer
open Interaction

/-- The contract that only looks at results. -/
def loose : Contract WriteQuery WriteResp Conn Unit where
  ok _ _ _ := True
  upd _ _ _ _ := ()
  start _ _ := ()
  inv _ _ _ := True
  fault _ _ := True

/-- A flush that is done leaves an empty buffer and no lock. -/
def Drained (c : Conn) : Prop := c.inner.buffer.data = [] ∧ ∃ k, c.inner.state = .writing k .buffering

section
variable {c : Conn}

/-- Whatever happens inside, the result of `poll_locked` is that the guard is held. -/
theorem wp_pollLocked_loose {post : Conn → Poll Unit → Unit → Prop}
    (hp : ∀ c', post c' .pending ())
    (hr : ∀ c' k w, c'.inner.buffer = c.inner.buffer → c'.inner.state = .writing k (.flushing w) →
      post c' (.ready ()) ()) : (pollLocked c).wp loose post () := by
  match hs : c.inner.state with
  | .writing k .buffering =>
    refine LockRule.wp_pollLocked (K := fun _ => True) hs ?_ trivial
    constructor
    case askTry => exact fun _ _ => trivial
    case askPoll => exact fun _ _ => trivial
    case refused => exact fun _ _ => trivial
    case tried => exact fun _ _ _ => hr _ k 0 rfl rfl
    case polled => exact fun _ _ _ => hr _ k 0 rfl rfl
    case pending => exact fun _ _ => hp _
  | .writing k (.flushing w) =>
    simpa [pollLocked, hs] using hr c k w rfl hs
  | .poisoned => simp [pollLocked, hs, loose]
  | .shutdown st => simp [pollLocked, hs, loose]

theorem wp_flushSocket_loose (hd : c.inner.buffer.data = []) :
    (flushSocket c).wp loose (fun c' r _ => r = .ready (.ok ()) → Drained c') () := by
  simp only [flushSocket, Proc.bind_apply, Prog.wp_bind]
  refine wp_pollLocked_loose (fun _ => by simp) ?_
  intro c' k w hb hs
  simp only [Proc.bind_apply, Proc.ask_apply, Prog.bind_ask, Prog.wp_ask]
  refine ⟨trivial, fun r _ => ?_⟩
  match r with
  | .pending => simp
  | .ready res =>
    have hdr : Drained c'.release := ⟨by simp [hb, hd], k, Conn.release_state hs⟩
    simpa using fun _ => hdr

theorem wp_flushLoop_loose (fuel : ℕ) : ∀ c : Conn,
    (flushLoop fuel c).wp loose (fun c' r _ => r = .ready (.ok ()) → c'.inner.buffer.data = []) () := by
  induction fuel with
  | zero => exact fun _ => trivial
  | succ fuel ih =>
    intro c
    rw [flushLoop]
    simp only [Proc.bind_apply, Proc.get_apply, Prog.bind_ret]
    rcases c.inner.buffer.bytesFrom? c.inner.state.written with _ | _ | ⟨b, bs⟩
    · exact trivial
    · exact fun _ => rfl
    · simp only [Proc.bind_apply, Proc.ask_apply, Prog.bind_ask, Prog.wp_ask]
      refine ⟨trivial, fun r _ => ?_⟩
      rcases r with (e | n) | _
      · simp
      · cases n with
        | zero => simp
        | succ n =>
          simp only [Prog.bind_ret]
          cases c.inner.state.add? (n + 1) with
          | none => exact trivial
          | some st => exact ih _
      · simp

theorem wp_pollFlush_loose (cx : Waker) :
    (pollFlush cx c).wp loose (fun c' r _ => r = .ready (.ok ()) → Drained c') () := by
  refine Prog.wp_onFault (f := Conn.setState .poisoned) (fun _ _ hf => hf) ?_
  simp only [Proc.bind_apply, Proc.get_apply, Prog.bind_ret]
  cases hs : c.inner.state with
  | poisoned => exact trivial
  | shutdown st => simp
  | writing k st =>
    simp only [Proc.bind_apply, Proc.modify_apply, Prog.bind_ret, Proc.get_apply]
    cases he : (c.setState (.writing cx st)).inner.buffer.isEmpty with
    | true => simpa using wp_flushSocket_loose ((PacketBuffer.isEmpty_iff _).mp he)
    | false =>
      simp only [Bool.false_eq_true, if_false, Proc.bind_apply, Prog.wp_bind]
      refine wp_pollLocked_loose (fun _ => by simp) fun c' k' w _ _ => ?_
      simp only [flushFrame, Proc.bind_apply, Prog.wp_bind]
      refine Prog.wp_mono ?_ (wp_flushLoop_loose _ c')
      intro c'' r _ hr
      rcases r with (e | _) | _
      · simp
      · have hd := hr rfl
        have hem : c''.inner.buffer.isEmpty = true := (PacketBuffer.isEmpty_iff _).mpr hd
        simp only [Proc.bind_apply, Proc.get_apply, Prog.bind_ret, hem, if_true]
        exact wp_flushSocket_loose hd
      · simp

/-- None of the answers puts anything on the stream. -/
def Mute (answers : List (Sigma WriteResp)) : Prop := ∀ x ∈ answers, delivered x.1 x.2 = []

theorem Mute.snoc {g : List (Sigma WriteResp)} (h : Mute g) {x : Sigma WriteResp} (hx : delivered x.1 x.2 = []) :
    Mute (g ++ [x]) := by
  intro y hy
  rcases List.mem_append.mp hy with hy | hy
  · exact h y hy
  · rwa [List.mem_singleton.mp hy]

theorem wp_pollLocked_mute {post : Conn → Poll Unit → List (Sigma WriteResp) → Prop} {g : List (Sigma WriteResp)}
    (hg : Mute g) (hpost : ∀ c' r g', Mute g' → post c' r g') :
    (pollLocked c).wp (tracing Conn fun _ _ => True) post g := by
  match hs : c.inner.state with
  | .writing k .buffering =>
    refine LockRule.wp_pollLocked (K := Mute) hs ?_ hg
    constructor
    case askTry => exact fun _ _ => trivial
    case askPoll => exact fun _ _ => trivial
    case refused => exact fun _ hm => hm.snoc rfl
    case tried => exact fun _ hm _ => hpost _ _ _ (hm.snoc rfl)
    case polled => exact fun _ hm _ => hpost _ _ _ (hm.snoc rfl)
    case pending => exact fun _ hm => hpost _ _ _ (hm.snoc rfl)
  | .writing k (.flushing w) => simpa [pollLocked, hs] using hpost c _ g hg
  | .poisoned => simp [pollLocked, hs, tracing]
  | .shutdown st => simp [pollLocked, hs, tracing]

theorem wp_flushSocket_mute {g : List (Sigma WriteResp)} (hg : Mute g) :
    (flushSocket c).wp (tracing Conn fun _ _ => True) (fun _ _ g' => Mute g') g := by
  simp only [flushSocket, Proc.bind_apply, Prog.wp_bind]
  refine wp_pollLocked_mute hg fun c' r g' hg' => ?_
  cases r with
  | pending => exact hg'
  | ready =>
    simp only [Proc.bind_apply, Proc.ask_apply, Prog.bind_ask, Prog.wp_ask]
    refine ⟨trivial, fun res _ => ?_⟩
    cases res with
    | pending => exact hg'.snoc rfl
    | ready res => exact hg'.snoc rfl

theorem pollFlush_empty {cx : Waker} (hd : c.inner.buffer.data = []) {answers : List (Sigma WriteResp)} {c' : Conn}
    {r : Poll (Except IoError Unit)} (h : (pollFlush cx c).Runs answers c' r) : Mute answers := by
  have hnil : Mute [] := by
    intro x hx
    cases hx
  have hwp : (pollFlush cx c).wp (tracing Conn fun _ _ => True) (fun _ _ g => Mute g) [] := by
    refine Prog.wp_onFault (f := Conn.setState .poisoned) (fun _ _ hf => hf) ?_
    simp only [Proc.bind_apply, Proc.get_apply, Prog.bind_ret]
    match hs : c.inner.state with
    | .poisoned => exact trivial
    | .shutdown st => exact hnil
    | .writing k st =>
      have he : (c.setState (.writing cx st)).inner.buffer.isEmpty = true := (PacketBuffer.isEmpty_iff _).mpr hd
      simp only [Proc.bind_apply, Proc.modify_apply, Prog.bind_ret, Proc.get_apply, he, if_true]
      exact wp_flushSocket_mute hnil
  simpa using h.of_tracing (fun _ _ => trivial) hwp

end

section
variable {ι : Type} [DecidableEq ι] {sockets : ι → SocketAddr} {P : Writers ι} {ops : WriteOp → Prop} {i : ι}
  {c : Conn}

theorem drained_sound (ops : WriteOp → Prop) : (writers ι ops).Sound loose
    (fun c a _ => a = .flush (.ready (.ok ())) → Drained c) fun _ _ _ => True where
  call m i op a g _ _ := by
    have hloose : ∀ {α : Type} {post : Conn → α → Unit → Prop} (p : Prog WriteQuery WriteResp Conn α),
        (∀ c a u, post c a u) → p.wp loose post () := by
      intro α post p hall
      induction p with
      | ret s a => exact hall s a ()
      | ask s q k ih => exact ⟨trivial, fun r _ => ih r⟩
      | fault s e => exact trivial
    show (op.body (m i)).wp loose _ ()
    unfold WriteOp.body
    cases op with
    | flush cx =>
      simp only [Proc.bind_apply, Prog.wp_bind]
      refine Prog.wp_mono ?_ (wp_pollFlush_loose cx)
      intro c' r _ hr hout
      exact hr (Outcome.flush.inj hout)
    | handshake =>
      simp only [Proc.bind_apply, Prog.wp_bind]
      exact hloose _ fun _ _ _ => by simp
    | write cx buf =>
      simp only [Proc.bind_apply, Prog.wp_bind]
      exact hloose _ fun _ _ _ => by simp
    | shutdown cx =>
      simp only [Proc.bind_apply, Prog.wp_bind]
      exact hloose _ fun _ _ _ => by simp
    | drop =>
      simp only [Proc.bind_apply, Prog.wp_bind]
      exact hloose _ fun _ _ _ => by simp
  ok _ _ _ _ _ := trivial
  globCall _ _ _ _ _ _ _ _ := trivial
  globAnswer _ _ _ _ _ _ _ _ _ _ _ := trivial

theorem drained_of_flush (h : (writers ι ops).Reaches (Writers.init sockets) P)
    (hi : P.threads i = .ret c (.flush (.ready (.ok ())))) : Drained c := by
  have hinit : Machine.Holds loose (fun c a _ => a = .flush (.ready (.ok ())) → Drained c) (fun _ _ _ => True)
      (Writers.init sockets) := ⟨fun _ => (), fun _ => by simp [Writers.init], trivial⟩
  obtain ⟨_, hwp, -⟩ := (drained_sound ops).reaches hinit h
  have hidle := hwp i
  rw [hi] at hidle
  exact hidle rfl

/-- A flush that is done has put everything pushed on the stream, in complete frames. -/
theorem flush_complete (h : (writers ι ops).Reaches (Writers.init sockets) P)
    (hi : P.threads i = .ret c (.flush (.ready (.ok ())))) :
    c.inner.buffer.data = [] ∧ c.holds = false ∧ ∃ ps : List (List UInt8),
      (∀ p ∈ ps, p ≠ [] ∧ p.length ≤ 65535) ∧ ps.flatten = c.pushed ∧
      Intact i ((history (sockets i) c.opened false ps).map Prod.snd) P.world := by
  obtain ⟨hd, k, hs⟩ := drained_of_flush h hi
  obtain ⟨g, hwp, segs, tail, hl⟩ := writers_hold h
  have hmem : P.mems i = c := by simp [Pool.mems, hi, Prog.mem]
  have hal : Alive c (g i) := by
    have hidle := hwp i
    rw [hi] at hidle
    exact hidle.1
  have hfree := hal.not_holds hs
  have haddr : c.addr = sockets i := hal.socket.trans (hl.socket i)
  obtain ⟨-, -, -, closed, ps, hse, hpu, hst⟩ := hal
  rw [hs] at hst
  obtain ⟨rfl, hpart⟩ := hst
  refine ⟨hd, hfree, ps, hse.sizes, by simpa [hd] using hpu, ?_⟩
  have hint := (Intact.stamps i segs).others (hl.tail_other (by rw [hmem]; exact hfree))
  rwa [hl.shown i, hmem, shown, if_pos (Or.inr hpart), hse.done, haddr, ← hl.wire] at hint

end

/-- What a connection has put on the stream since it was first told to shut down. -/
abbrev Put := List (Origin × UInt8)

def marked (o : Origin) (bytes : List UInt8) : Put := bytes.map fun b => (o, b)

/-- What is due before the final frame: the rest of the frame begun, or the frame in the
buffer. -/
def Conn.due (c : Conn) : List UInt8 :=
  if c.inner.buffer.data = [] then [] else c.inner.buffer.bytes.drop c.inner.state.written

/-- Where the shutdown of a connection stands that it found as `c₀`. -/
def Closing (c₀ c : Conn) (out : Put) : Prop :=
  c.task = none ∧ c.addr = c₀.addr ∧
    match c.inner.state with
    | .shutdown .waitingLock => c₀.holds = false ∧ c₀.inner.state.written = 0 ∧ out = [] ∧
      c.inner.buffer.data = c₀.inner.buffer.data
    | .shutdown (.flushing w) => c.inner.buffer.data = c₀.inner.buffer.data ∧ c₀.inner.buffer.data ≠ [] ∧
      c₀.inner.state.written ≤ w ∧ w < c.frameLen ∧
      out = marked .data ((c.inner.buffer.bytes.take w).drop c₀.inner.state.written)
    | .shutdown (.writing w) => c.inner.buffer.data = [] ∧ w < 20 ∧
      out = marked .data c₀.due ++ marked .eof ((frame c₀.addr []).take w)
    | .shutdown .done => out = marked .data c₀.due ++ marked .eof (frame c₀.addr [])
    | _ => False

def closing (c₀ : Conn) : Contract WriteQuery WriteResp Conn Put where
  ok _ q r := Smooth q r
  upd c q r out := out ++ marked c.origin (delivered q r)
  start _ out := out
  inv c q out :=
    match q with
    | .tryLock => Closing c₀ c out
    | .pollFut => Closing c₀ c out
    | .write _ => Closing c₀ c out ∧ c.holds = true
    | _ => False
  fault _ _ := False

def Closes (c₀ c : Conn) (a : Outcome) (out : Put) : Prop :=
  a ≠ .new ∧ (a = .dropped ∧ c.inner.state = .poisoned ∨
    Closing c₀ c out ∧ (a = .shutdown (.ready (.ok ())) → c.inner.state = .shutdown .done))

section
variable {c₀ c : Conn} {out : Put}

theorem marked_append (o : Origin) (a b : List UInt8) : marked o (a ++ b) = marked o a ++ marked o b :=
  List.map_append

theorem piece_append (bytes : List UInt8) {u v : ℕ} (huv : u ≤ v) (n : ℕ) :
    (bytes.take v).drop u ++ (bytes.drop v).take n = (bytes.take (v + n)).drop u := by
  rw [List.take_add, List.drop_append]
  rcases le_or_gt v bytes.length with hv | hv
  · have hz : u - (bytes.take v).length = 0 := by
      rw [List.length_take]
      omega
    rw [hz, List.drop_zero]
  · have hnil : bytes.drop v = [] := List.drop_of_length_le hv.le
    simp [hnil]

theorem wp_flushBuf_closing {post : Conn → Poll (Except IoError Unit) → Put → Prop}
    (hg : c.inner.state.guarded = true) (hw : c.inner.state.written < c.frameLen)
    (hwide : c.frameLen < 2 ^ c.inner.state.counterBits)
    (hstop : ∀ v, c.inner.state.written ≤ v → v < c.frameLen → Closing c₀ (c.setWritten v)
      (out ++ marked c.origin ((c.inner.buffer.bytes.take v).drop c.inner.state.written)))
    (hpend : ∀ v, c.inner.state.written ≤ v → v < c.frameLen → post (c.setWritten v) .pending
      (out ++ marked c.origin ((c.inner.buffer.bytes.take v).drop c.inner.state.written)))
    (hfin : post (c.setWritten c.frameLen).clear (.ready (.ok ()))
      (out ++ marked c.origin (c.inner.buffer.bytes.drop c.inner.state.written))) :
    (flushBuf c).wp (closing c₀) post out := by
  have hlen : c.inner.buffer.bytes.length = c.frameLen := PacketBuffer.length_bytes _
  have hholds : ∀ v, (c.setWritten v).holds = true := by
    intro v
    rw [Conn.holds_setWritten]
    simp [Conn.holds, hg]
  refine FlushRule.wp_flushBuf (J := fun v out' => c.inner.state.written ≤ v ∧
    out' = out ++ marked c.origin ((c.inner.buffer.bytes.take v).drop c.inner.state.written)) ?_ ?_ hw.le
  · constructor
    case guarded => exact hg
    case wide => exact hwide
    case ask =>
      rintro v out' ⟨hv, rfl⟩ hlt
      exact ⟨hstop v hv hlt, hholds v⟩
    case honest => exact fun _ _ _ hn => hn.2
    case step =>
      rintro v out' n ⟨hv, rfl⟩ hn hle
      refine ⟨by omega, ?_⟩
      show out ++ marked c.origin _ ++ marked (c.setWritten v).origin ((c.inner.buffer.bytes.drop v).take n) = _
      rw [Conn.origin_setWritten, List.append_assoc, ← marked_append, piece_append _ hv]
    case zero => exact fun _ _ _ _ hok => absurd hok.1 (by decide)
    case error => exact fun _ _ _ _ _ hok => hok.elim
    case pending =>
      rintro v out' ⟨hv, rfl⟩ hlt
      show post _ _ (_ ++ marked _ [])
      simpa [marked] using hpend v hv hlt
    case finish =>
      rintro out' ⟨-, rfl⟩
      rw [← hlen, List.take_length]
      rw [hlen]
      exact hfin
  · exact ⟨le_rfl, by simp [marked]⟩

theorem Closing.bytes (h : c.addr = c₀.addr) (hd : c.inner.buffer.data = c₀.inner.buffer.data) :
    c.inner.buffer.bytes = c₀.inner.buffer.bytes := by
  rw [PacketBuffer.bytes_eq_frame, PacketBuffer.bytes_eq_frame, hd]
  exact congrArg (frame · _) h

/-- The frame in the buffer is sent: the data that was due, or the final header after it. -/
structure Closed (c₀ c : Conn) (out : Put) : Prop where
  task : c.task = none
  addr : c.addr = c₀.addr
  data : c.inner.buffer.data = []
  flushed : ∀ w, c.inner.state = .shutdown (.flushing w) → out = marked .data c₀.due
  written : ∀ w, c.inner.state = .shutdown (.writing w) →
    out = marked .data c₀.due ++ marked .eof (frame c₀.addr [])

theorem Closing.shutdown (h : Closing c₀ c out) : ∃ st, c.inner.state = .shutdown st := by
  have hst := h.2.2
  cases hs : c.inner.state with
  | poisoned =>
    rw [hs] at hst
    exact hst.elim
  | writing k st =>
    rw [hs] at hst
    exact hst.elim
  | shutdown st => exact ⟨st, rfl⟩

theorem Closing.waiting (h : Closing c₀ c out) (hs : c.inner.state = .shutdown .waitingLock) :
    c₀.holds = false ∧ c₀.inner.state.written = 0 ∧ out = [] ∧ c.inner.buffer.data = c₀.inner.buffer.data := by
  have hst := h.2.2
  rw [hs] at hst
  exact hst

theorem Closing.wp_header (h : Closing c₀ c out) {w : ℕ} (hs : c.inner.state = .shutdown (.writing w))
    {post : Conn → Poll (Except IoError Unit) → Put → Prop}
    (hpend : ∀ v out', Closing c₀ (c.setWritten v) out' → post (c.setWritten v) .pending out')
    (hfin : ∀ out', Closed c₀ (c.setWritten c.frameLen).clear out' →
      post (c.setWritten c.frameLen).clear (.ready (.ok ())) out') : (flushBuf c).wp (closing c₀) post out := by
  obtain ⟨ht, ha, hst⟩ := h
  rw [hs] at hst
  obtain ⟨hd, hw, hout⟩ := hst
  have hwr : c.inner.state.written = w := by rw [hs]; rfl
  have hlen : c.frameLen = 20 := by simp [Conn.frameLen, hd]
  have hbytes : c.inner.buffer.bytes = frame c₀.addr [] := by
    rw [PacketBuffer.bytes_eq_frame, hd]
    exact congrArg (frame · _) ha
  have ho : c.origin = .eof := by simp [Conn.origin, ht, hs]
  have hpiece : ∀ v, w ≤ v → out ++ marked c.origin ((c.inner.buffer.bytes.take v).drop c.inner.state.written) =
      marked .data c₀.due ++ marked .eof ((frame c₀.addr []).take v) := by
    intro v hv
    have hcut : (frame c₀.addr []).take w = ((frame c₀.addr []).take v).take w := by
      rw [List.take_take, min_eq_left hv]
    rw [ho, hwr, hout, hbytes, List.append_assoc, ← marked_append, hcut, List.take_append_drop]
  have hstop : ∀ v, c.inner.state.written ≤ v → v < c.frameLen → Closing c₀ (c.setWritten v)
      (out ++ marked c.origin ((c.inner.buffer.bytes.take v).drop c.inner.state.written)) := by
    intro v hv hlt
    rw [hpiece v (by omega)]
    refine ⟨ht, ha, ?_⟩
    rw [Conn.setWritten_state, hs]
    exact ⟨hd, by omega, rfl⟩
  refine wp_flushBuf_closing (by rw [hs]; rfl) (by omega) ?_ hstop (fun v hv hlt => hpend v _ (hstop v hv hlt)) ?_
  · simp [hs, WritePipeState.counterBits, hlen]
  · have hall : out ++ marked c.origin (c.inner.buffer.bytes.drop c.inner.state.written) =
        marked .data c₀.due ++ marked .eof (frame c₀.addr []) := by
      rw [ho, hwr, hout, hbytes, List.append_assoc, ← marked_append, List.take_append_drop]
    rw [hall]
    refine hfin _ ⟨ht, ha, rfl, fun v hv => ?_, fun _ _ => rfl⟩
    simp [hs, WritePipeState.setWritten] at hv

theorem Closing.wp_rest (h : Closing c₀ c out) {w : ℕ} (hs : c.inner.state = .shutdown (.flushing w))
    {post : Conn → Poll (Except IoError Unit) → Put → Prop}
    (hpend : ∀ v out', Closing c₀ (c.setWritten v) out' → post (c.setWritten v) .pending out')
    (hfin : ∀ out', Closed c₀ (c.setWritten c.frameLen).clear out' →
      post (c.setWritten c.frameLen).clear (.ready (.ok ())) out') : (flushBuf c).wp (closing c₀) post out := by
  obtain ⟨ht, ha, hst⟩ := h
  rw [hs] at hst
  obtain ⟨hd, hne, hle, hw, hout⟩ := hst
  have hwr : c.inner.state.written = w := by rw [hs]; rfl
  have ho : c.origin = .data := by simp [Conn.origin, ht, hs]
  have hl := c.inner.buffer.length_data
  have hpiece : ∀ v, w ≤ v → out ++ marked c.origin ((c.inner.buffer.bytes.take v).drop c.inner.state.written) =
      marked .data ((c.inner.buffer.bytes.take v).drop c₀.inner.state.written) := by
    intro v hv
    rw [ho, hwr, hout, ← marked_append, List.drop_take (i := w), piece_append _ hle, Nat.add_sub_cancel' hv]
  have hstop : ∀ v, c.inner.state.written ≤ v → v < c.frameLen → Closing c₀ (c.setWritten v)
      (out ++ marked c.origin ((c.inner.buffer.bytes.take v).drop c.inner.state.written)) := by
    intro v hv hlt
    rw [hpiece v (by omega)]
    refine ⟨ht, ha, ?_⟩
    rw [Conn.setWritten_state, hs]
    exact ⟨hd, hne, by omega, hlt, rfl⟩
  refine wp_flushBuf_closing (by rw [hs]; rfl) (by omega) ?_ hstop (fun v hv hlt => hpend v _ (hstop v hv hlt)) ?_
  · simp only [hs, WritePipeState.counterBits, Conn.frameLen]
    omega
  · have hall : out ++ marked c.origin (c.inner.buffer.bytes.drop c.inner.state.written) = marked .data c₀.due := by
      have hcut := hpiece c.inner.buffer.bytes.length (by rw [Conn.length_bytes]; omega)
      rw [List.take_length] at hcut
      rw [hcut, Conn.due, if_neg hne, Closing.bytes ha hd]
    rw [hall]
    refine hfin _ ⟨ht, ha, rfl, fun _ _ => rfl, fun v hv => ?_⟩
    simp [hs, WritePipeState.setWritten] at hv

theorem Closing.wp_pollLock (h : Closing c₀ c out) (hs : c.inner.state = .shutdown .waitingLock)
    {post : Conn → Poll Unit → Put → Prop}
    (hgot : ∀ out', Closing c₀ c out' → post (c.setFut false) (.ready ()) out')
    (hpend : ∀ out', Closing c₀ (c.setFut true) out' → post (c.setFut true) .pending out') :
    (pollLock c).wp (closing c₀) post out := by
  obtain ⟨-, -, rfl, -⟩ := h.waiting hs
  have hfut : ∀ b, Closing c₀ (c.setFut b) [] := fun b => h
  have hnone : ∀ o, ([] : Put) ++ marked o [] = [] := fun _ => rfl
  refine LockRule.wp_pollLock (K := fun out => out = []) ?_ rfl
  constructor
  case askTry => rintro _ rfl; exact hfut false
  case askPoll => rintro _ rfl; exact hfut true
  case refused => rintro _ rfl; exact hnone _
  case tried => rintro _ rfl _; exact hgot _ h
  case polled => rintro _ rfl _; exact hgot _ h
  case pending => rintro _ rfl; exact hpend _ (hfut true)

/-- A shutdown puts on the stream what is due and then its final header. -/
theorem Closing.shutdownRule (c₀ : Conn) : ShutdownRule (closing c₀) (Closing c₀) (Closing c₀) (Closed c₀)
    (fun _ _ => False) (Closes c₀) := by
  constructor
  case lock =>
    intro c out post h hu hgot hpend
    obtain ⟨st, hs⟩ := h.shutdown
    rw [hs] at hu
    cases st with
    | waitingLock => exact h.wp_pollLock hs hgot hpend
    | _ => cases hu
  case flush =>
    intro c out post h hg hpend _ hfin
    rcases WritePipeState.guarded_cases hg with ⟨k, w, hs⟩ | ⟨w, hs⟩ | ⟨w, hs⟩
    · obtain ⟨st, hst⟩ := h.shutdown
      rw [hs] at hst
      cases hst
    · exact h.wp_rest hs hpend hfin
    · exact h.wp_header hs hpend hfin
  case stage =>
    intro c out h hs hne
    obtain ⟨-, hw, rfl, hd⟩ := h.waiting hs
    rw [hd] at hne
    exact ⟨h.1, h.2.1, hd, hne, hw.le, Conn.zero_lt_frameLen _, by simp [marked]⟩
  case stageEmpty =>
    intro c out h hs hnil
    obtain ⟨-, -, rfl, hd⟩ := h.waiting hs
    have hnil' : c₀.inner.buffer.data = [] := hd.symm.trans hnil
    exact ⟨h.1, h.2.1, hnil, by omega, by simp [Conn.due, hnil', marked]⟩
  case pass =>
    intro c out w h hs hnil
    obtain ⟨-, -, hst⟩ := h
    rw [hs] at hst
    exact absurd (hst.1.symm.trans hnil) hst.2.1
  case next =>
    intro c out w h hs
    obtain rfl := h.flushed w hs
    exact ⟨h.task, h.addr, h.data, by omega, by simp [marked]⟩
  case done =>
    intro c out w h hs
    obtain rfl := h.written w hs
    exact ⟨by simp, Or.inr ⟨⟨h.task, h.addr, rfl⟩, fun _ => rfl⟩⟩
  case final =>
    intro c out w h hs
    obtain ⟨-, -, hst⟩ := h
    rw [hs] at hst
    exact hst.1
  case tolerant => exact fun hf => hf
  case calm =>
    intro c out a h ha
    refine ⟨?_, Or.inr ⟨h, ?_⟩⟩
    · rintro rfl
      exact ha
    · rintro rfl
      exact ha.elim
  case again => exact fun h hs => ⟨by simp, Or.inr ⟨h, fun _ => hs⟩⟩
  case broken =>
    intro c out e h hs
    obtain ⟨-, -, hst⟩ := h
    rw [hs] at hst
    exact hst.elim
  case failedShut => exact fun h _ => h.elim

theorem Alive.wp_first_shutdown {g : Sent} (h : Alive c g) {k : Waker} {st : WriteState}
    (hs : c.inner.state = .writing k st) (cx : Waker) :
    (pollShutdown cx c).wp (closing c) (fun c' r out => Closes c c' (.shutdown r) out) [] := by
  obtain ⟨ht, hh, -, closed, ps, -, -, hst⟩ := h
  rw [hs] at hst
  refine Prog.wp_onFault (f := Conn.setState .poisoned) (fun _ _ hf => hf) ?_
  simp only [Proc.bind_apply, Proc.get_apply, Prog.bind_ret, hs]
  cases st with
  | buffering =>
    have hfree : c.holds = false := by simp [Conn.holds, ht, hs, WritePipeState.guarded]
    have hcl : Closing c ((c.setState (.shutdown .waitingLock)).wake k) [] :=
      ⟨ht, rfl, hfree, by rw [hs]; rfl, rfl, rfl⟩
    exact (Closing.shutdownRule c).wp_shutdownLoop hcl rfl
  | flushing w =>
    obtain ⟨-, hne, hlt, -⟩ := hst
    have hwr : c.inner.state.written = w := by rw [hs]; rfl
    have hnil : (c.inner.buffer.bytes.take w).drop w = [] := by simp
    have hcl : Closing c ((c.setState (.shutdown (.flushing w))).wake k) [] := by
      refine ⟨ht, rfl, rfl, hne, hwr.le, hlt, ?_⟩
      rw [hwr]
      exact (congrArg (marked .data) hnil).symm
    exact (Closing.shutdownRule c).wp_shutdownLoop hcl rfl

/-- A shutdown that is called again goes on where it was. -/
theorem Closing.wp_pollShutdown (h : Closing c₀ c out) (cx : Waker) :
    (pollShutdown cx c).wp (closing c₀) (fun c r out => Closes c₀ c (.shutdown r) out) out := by
  obtain ⟨st, hs⟩ := h.shutdown
  refine Prog.wp_onFault (f := Conn.setState .poisoned) (fun _ _ hf => hf) ?_
  simp only [Proc.bind_apply, Proc.get_apply, Prog.bind_ret, hs]
  exact (Closing.shutdownRule c₀).wp_shutdownLoop h hs

/-- After the first call of `poll_shutdown` the others change nothing. -/
theorem pollWrite_shutdown {st : ShutDownState} (hs : c.inner.state = .shutdown st) (cx : Waker) (buf : List UInt8) :
    pollWrite cx buf c = .ret c (.ready (.error (.ofKind .brokenPipe))) := by
  simp [pollWrite, poisonOnPanic, hs, Prog.onFault]

theorem pollFlush_shutdown {st : ShutDownState} (hs : c.inner.state = .shutdown st) (cx : Waker) :
    pollFlush cx c = .ret c (.ready (.error (.ofKind .brokenPipe))) := by
  simp [pollFlush, poisonOnPanic, hs, Prog.onFault]

theorem pollShutdown_done (hs : c.inner.state = .shutdown .done) (cx : Waker) :
    pollShutdown cx c = .ret c (.ready (.ok ())) := by
  simp [pollShutdown, poisonOnPanic, hs, Prog.onFault, shutdownLoop]

theorem Closes.wp_body {a : Outcome} {op : WriteOp} (h : Closes c₀ c a out) (hm : a.may op) :
    (op.body c).wp (closing c₀) (Closes c₀) out := by
  obtain ⟨hnew, ⟨rfl, -⟩ | ⟨hcl, -⟩⟩ := h
  · exact hm.elim
  obtain ⟨st, hs⟩ := hcl.shutdown
  unfold WriteOp.body
  cases op with
  | handshake =>
    cases a with
    | new => exact absurd rfl hnew
    | dropped => exact hm.elim
    | _ => exact absurd rfl hm
  | write cx buf =>
    simp only [Proc.bind_apply, pollWrite_shutdown hs, Prog.bind_ret]
    exact ⟨nofun, Or.inr ⟨hcl, nofun⟩⟩
  | flush cx =>
    simp only [Proc.bind_apply, pollFlush_shutdown hs, Prog.bind_ret]
    exact ⟨nofun, Or.inr ⟨hcl, nofun⟩⟩
  | shutdown cx =>
    simp only [Proc.bind_apply, Prog.wp_bind]
    exact hcl.wp_pollShutdown cx
  | drop =>
    simp only [Proc.bind_apply, drop_shutdown hs, Prog.bind_ret]
    exact ⟨nofun, Or.inl ⟨rfl, rfl⟩⟩

theorem Closing.length_lt (h : Closing c₀ c out) (hs : c.inner.state ≠ .shutdown .done) :
    out.length < c₀.due.length + 20 := by
  obtain ⟨-, ha, hst⟩ := h
  match heq : c.inner.state with
  | .poisoned =>
    rw [heq] at hst
    exact hst.elim
  | .writing k st =>
    rw [heq] at hst
    exact hst.elim
  | .shutdown .error =>
    rw [heq] at hst
    exact hst.elim
  | .shutdown .done => exact absurd heq hs
  | .shutdown .waitingLock =>
    rw [heq] at hst
    simp [hst.2.2.1]
  | .shutdown (.flushing w) =>
    rw [heq] at hst
    obtain ⟨hd, hne, -, -, rfl⟩ := hst
    rw [Conn.due, if_neg hne, Closing.bytes ha hd]
    simp only [marked, List.length_map, List.length_drop, List.length_take]
    omega
  | .shutdown (.writing w) =>
    rw [heq] at hst
    obtain ⟨-, hw, rfl⟩ := hst
    simp only [marked, List.length_append, List.length_map, List.length_take]
    omega

/-- Between the lock and the final frame the connection holds the lock. -/
theorem Closing.cases (h : Closing c₀ c out) :
    c.holds = true ∨ c₀.holds = false ∧ out = [] ∨ c.inner.state = .shutdown .done := by
  obtain ⟨-, -, hst⟩ := h
  match heq : c.inner.state with
  | .poisoned =>
    rw [heq] at hst
    exact hst.elim
  | .writing k st =>
    rw [heq] at hst
    exact hst.elim
  | .shutdown .error =>
    rw [heq] at hst
    exact hst.elim
  | .shutdown .done => exact Or.inr (Or.inr rfl)
  | .shutdown .waitingLock =>
    rw [heq] at hst
    exact Or.inr (Or.inl ⟨hst.1, hst.2.2.1⟩)
  | .shutdown (.flushing w) => exact Or.inl (by simp [Conn.holds, heq, WritePipeState.guarded])
  | .shutdown (.writing w) => exact Or.inl (by simp [Conn.holds, heq, WritePipeState.guarded])

theorem closing_inv {q : WriteQuery} (h : (closing c₀).inv c q out) : Closing c₀ c out := by
  cases q with
  | tryLock => exact h
  | pollFut => exact h
  | write bytes => exact h.1
  | awaitLock queued => exact h.elim
  | awaitWrite bytes => exact h.elim
  | flush => exact h.elim

theorem closing_at (h : Machine.At (closing c₀) (Closes c₀) c out) :
    c.inner.state = .poisoned ∨ Closing c₀ c out := by
  rcases h with ⟨a, -, ⟨-, hp⟩ | ⟨hcl, -⟩⟩ | ⟨q, h⟩ | ⟨e, h⟩
  · exact Or.inl hp
  · exact Or.inr hcl
  · exact Or.inr (closing_inv h)
  · exact h.elim

theorem Closing.not_poisoned (h : Closing c₀ c out) : c.inner.state ≠ .poisoned := by
  obtain ⟨st, hs⟩ := h.shutdown
  rw [hs]
  simp

end

section
variable {ι : Type} [DecidableEq ι] {sockets : ι → SocketAddr} {P P' : Writers ι} {ops : WriteOp → Prop} {i j : ι}
  {c c₀ : Conn} {w₀ : List (Mark ι)}

theorem holds_unique (h : (writers ι ops).Reaches (Writers.init sockets) P) (hi : (P.mems i).holds = true)
    (hj : (P.mems j).holds = true) : i = j := by
  obtain ⟨g, -, segs, tail, hl⟩ := writers_hold h
  exact hl.excl i j hi hj

/-- Bytes are put on the stream under the lock. -/
theorem holds_of_delivered (h : (writers ι ops).Reaches (Writers.init sockets) P) {q : WriteQuery} {r : WriteResp q}
    {k : WriteResp q → Prog WriteQuery WriteResp Conn Outcome} (hj : P.threads j = .ask c q k)
    (hd : delivered q r ≠ []) : c.holds = true := by
  obtain ⟨g, hwp, -⟩ := writers_hold h
  have hinv := hwp j
  rw [hj, Prog.wp_ask] at hinv
  have hq : ∃ bytes, q = .write bytes ∨ q = .awaitWrite bytes := by
    cases q with
    | write bytes => exact ⟨bytes, Or.inl rfl⟩
    | awaitWrite bytes => exact ⟨bytes, Or.inr rfl⟩
    | tryLock => exact absurd rfl hd
    | pollFut => exact absurd rfl hd
    | awaitLock queued => exact absurd rfl hd
    | flush => exact absurd rfl hd
  obtain ⟨bytes, hq⟩ := hq
  exact (offers hq hinv.1).1

/-- What is on the stream since connection `i`, found as `c₀`, was first told to shut down:
what others put there before it, what it has put there itself, in one piece, and what others
put there after that. -/
structure Shutting (i : ι) (c₀ : Conn) (w₀ : List (Mark ι)) (P : Writers ι) (out : Put)
    (before after : List (Mark ι)) : Prop where
  wp : (P.threads i).wp (closing c₀) (Closes c₀) out
  world : P.world = w₀ ++ before ++ out.map (fun x => (i, x)) ++ after
  others : ∀ b ∈ before ++ after, b.1 ≠ i
  apart : (P.mems i).inner.state ≠ .poisoned → out.length < c₀.due.length + 20 → after = []
  first : c₀.holds = true → before = []

section
variable {out : Put} {before after : List (Mark ι)}

omit [DecidableEq ι] in
theorem Shutting.stage (h : Shutting i c₀ w₀ P out before after) :
    (P.mems i).inner.state = .poisoned ∨ Closing c₀ (P.mems i) out :=
  closing_at (Machine.at_of_wp h.wp)

theorem Shutting.still (h : Shutting i c₀ w₀ P out before after) (hcl : Closing c₀ (P.mems i) out)
    {p : Prog WriteQuery WriteResp Conn Outcome} (hp : p.wp (closing c₀) (Closes c₀) out) :
    Shutting i c₀ w₀ ⟨Function.update P.threads i p, P.world⟩ out before after where
  wp := by simpa using hp
  world := h.world
  others := h.others
  apart _ hlt := h.apart hcl.not_poisoned hlt
  first := h.first

theorem Shutting.put (h : Shutting i c₀ w₀ P out before after) (hcl : Closing c₀ (P.mems i) out)
    (hh : c.holds = true) (hc : P.mems i = c) {bytes : List UInt8} {p : Prog WriteQuery WriteResp Conn Outcome}
    (hp : p.wp (closing c₀) (Closes c₀) (out ++ marked c.origin bytes)) :
    Shutting i c₀ w₀ ⟨Function.update P.threads i p, P.world ++ stamp i c.origin bytes⟩
      (out ++ marked c.origin bytes) before [] := by
  have hdone : (P.mems i).inner.state ≠ .shutdown .done := by
    intro hs
    rw [← hc] at hh
    simp [Conn.holds, hcl.1, hs, WritePipeState.guarded] at hh
  have hafter := h.apart hcl.not_poisoned (hcl.length_lt hdone)
  constructor
  case wp => simpa using hp
  case world => simp [h.world, hafter, stamp, marked, Function.comp_def]
  case others => exact fun b hb => h.others b (List.mem_append_left _ (by simpa using hb))
  case apart => exact fun _ _ => rfl
  case first => exact h.first

theorem Shutting.other (h : Shutting i c₀ w₀ P out before after) (hne : j ≠ i)
    (p : Prog WriteQuery WriteResp Conn Outcome) (o : Origin) (bytes : List UInt8)
    (hfree : bytes ≠ [] → (P.mems i).holds = false) :
    ∃ before' after',
      Shutting i c₀ w₀ ⟨Function.update P.threads j p, P.world ++ stamp j o bytes⟩ out before' after' := by
  have hthread : Function.update P.threads j p i = P.threads i := Function.update_of_ne hne.symm _ _
  have hmem : Pool.mems ⟨Function.update P.threads j p, P.world ++ stamp j o bytes⟩ i = P.mems i := by
    simp [Pool.mems, hthread]
  have hwp : (Function.update P.threads j p i).wp (closing c₀) (Closes c₀) out := by
    rw [hthread]
    exact h.wp
  have hnot : ∀ b ∈ stamp j o bytes, b.1 ≠ i := fun b hb => by rw [mem_stamp hb]; exact hne
  have hlate : (P.mems i).inner.state = .poisoned ∨ ¬ out.length < c₀.due.length + 20 ∨ bytes = [] →
      Shutting i c₀ w₀ ⟨Function.update P.threads j p, P.world ++ stamp j o bytes⟩ out before
        (after ++ stamp j o bytes) := by
    intro hcase
    refine ⟨hwp, by simp [h.world], ?_, ?_, h.first⟩
    · intro b hb
      rw [← List.append_assoc] at hb
      rcases List.mem_append.mp hb with hb | hb
      · exact h.others b hb
      · exact hnot b hb
    · intro hpo hlt
      rw [hmem] at hpo
      rcases hcase with hc | hc | rfl
      · exact absurd hc hpo
      · exact absurd hlt hc
      · simp [h.apart hpo hlt]
  by_cases hnil : bytes = []
  · exact ⟨before, _, hlate (Or.inr (Or.inr hnil))⟩
  rcases h.stage with hpo | hcl
  · exact ⟨before, _, hlate (Or.inl hpo)⟩
  rcases hcl.cases with hh | ⟨hfirst, hout⟩ | hdone
  · rw [hfree hnil] at hh
    cases hh
  · have hafter := h.apart hcl.not_poisoned (by simp [hout])
    refine ⟨before ++ stamp j o bytes, [], hwp, ?_, ?_, fun _ _ => rfl, ?_⟩
    · simp [h.world, hout, hafter]
    · intro b hb
      rw [List.append_nil] at hb
      rcases List.mem_append.mp hb with hb | hb
      · exact h.others b (List.mem_append_left _ hb)
      · exact hnot b hb
    · intro hheld
      rw [hfirst] at hheld
      cases hheld
  · have hlen : ¬ out.length < c₀.due.length + 20 := by
      have hst := hcl.2.2
      rw [hdone] at hst
      rw [hst]
      simp [marked]
    exact ⟨before, _, hlate (Or.inr (Or.inl hlen))⟩

theorem Shutting.step (hr : (writers ι ops).Reaches (Writers.init sockets) P)
    (h : Shutting i c₀ w₀ P out before after) (hs : (writers ι ops).Step P P') :
    ∃ out' before' after', Shutting i c₀ w₀ P' out' before' after' := by
  cases hs with
  | @call j op s a hj hm =>
    rcases eq_or_ne j i with rfl | hne
    · have hidle := h.wp
      rw [hj] at hidle
      have hcl : Closing c₀ (P.mems j) out := by
        have hmem : P.mems j = s := by simp [Pool.mems, hj, Prog.mem]
        rcases hidle.2 with ⟨rfl, -⟩ | ⟨hcl, -⟩
        · exact hm.1.elim
        · rw [hmem]
          exact hcl
      exact ⟨out, before, after, h.still hcl (Closes.wp_body hidle hm.1)⟩
    · have hother := h.other hne (op.body s) .data [] (fun hn => absurd rfl hn)
      rw [stamp_nil, List.append_nil] at hother
      exact ⟨out, hother⟩
  | @answer j s q k hj r ha =>
    have hmem : P.mems j = s := by simp [Pool.mems, hj, Prog.mem]
    rcases eq_or_ne j i with rfl | hne
    · have hask := h.wp
      rw [hj, Prog.wp_ask] at hask
      have hcl : Closing c₀ (P.mems j) out := by
        rw [hmem]
        exact closing_inv hask.1
      by_cases hnil : delivered q r = []
      · have hk : (k r).wp (closing c₀) (Closes c₀) (out ++ marked s.origin (delivered q r)) := hask.2 r ha.1
        rw [hnil, marked, List.map_nil, List.append_nil] at hk
        have hstill := h.still hcl hk
        refine ⟨out, before, after, ?_⟩
        simpa [writers, hnil] using hstill
      · exact ⟨_, before, [], h.put hcl (holds_of_delivered hr hj hnil) hmem (hask.2 r ha.1)⟩
    · obtain ⟨before', after', hother⟩ := h.other hne (k r) s.origin (delivered q r) (fun hn => by
        have hheld := holds_of_delivered hr hj hn
        rw [Bool.eq_false_iff]
        exact fun hi => hne (holds_unique hr (by rw [hmem]; exact hheld) hi))
      exact ⟨out, before', after', hother⟩

theorem Shutting.reaches (hr : (writers ι ops).Reaches (Writers.init sockets) P)
    (h : Shutting i c₀ w₀ P out before after) (hrun : (writers ι ops).Reaches P P') :
    ∃ out' before' after', Shutting i c₀ w₀ P' out' before' after' := by
  induction hrun with
  | refl => exact ⟨out, before, after, h⟩
  | tail hpre hs ih =>
    obtain ⟨out', before', after', h'⟩ := ih
    exact h'.step (Relation.ReflTransGen.trans hr hpre) hs

end

/-- A connection that is shut down stays as it is until it is dropped. -/
theorem done_stays {a : Outcome} (hs : c.inner.state = .shutdown .done) (hi : P.threads i = .ret c a) (ha : a ≠ .new)
    (hrun : (writers ι ops).Reaches P P') :
    (∃ a', a' ≠ .new ∧ P'.threads i = .ret c a') ∨ ∃ c', P'.threads i = .ret c' .dropped := by
  induction hrun with
  | refl => exact Or.inl ⟨a, ha, hi⟩
  | @tail Q Q' _ hstep ih =>
    cases hstep with
    | @call j op s b hj hm =>
      rcases eq_or_ne i j with rfl | hne
      · rcases ih with ⟨a', ha', hi'⟩ | ⟨c', hi'⟩
        · obtain ⟨rfl, rfl⟩ : c = s ∧ a' = b := by
            rw [hi'] at hj
            exact ⟨(Prog.ret.inj hj).1, (Prog.ret.inj hj).2⟩
          have hbody : (∃ a'', a'' ≠ .new ∧ op.body c = .ret c a'') ∨ op.body c = .ret (c.retire.setFut false) .dropped := by
            unfold WriteOp.body
            cases op with
            | handshake =>
              cases a' with
              | new => exact absurd rfl ha'
              | dropped => exact hm.1.elim
              | _ => exact absurd rfl hm.1
            | write cx buf =>
              exact Or.inl ⟨.write (.ready (.error (.ofKind .brokenPipe))), nofun, by simp [pollWrite_shutdown hs]⟩
            | flush cx =>
              exact Or.inl ⟨.flush (.ready (.error (.ofKind .brokenPipe))), nofun, by simp [pollFlush_shutdown hs]⟩
            | shutdown cx =>
              exact Or.inl ⟨.shutdown (.ready (.ok ())), nofun, by simp [pollShutdown_done hs]⟩
            | drop => exact Or.inr (by simp [drop_shutdown hs])
          rcases hbody with ⟨a'', hn, hb⟩ | hb
          · exact Or.inl ⟨a'', hn, by simpa [writers] using hb⟩
          · exact Or.inr ⟨c.retire.setFut false, by simpa [writers] using hb⟩
        · rw [hi'] at hj
          obtain ⟨-, rfl⟩ := Prog.ret.inj hj
          exact hm.1.elim
      · simpa [hne] using ih
    | @answer j s q k hj r hr =>
      rcases eq_or_ne i j with rfl | hne
      · rcases ih with ⟨a', -, hi'⟩ | ⟨c', hi'⟩
        · rw [hi'] at hj
          cases hj
        · rw [hi'] at hj
          cases hj
      · simpa [hne] using ih

/-- What is true of connection `i` at a point `P` after it was first told to shut down, when
it was as `c₀` and the stream as `w₀`: writes and flushes are refused and change nothing; when
a shutdown has returned `Ok`, the connection has put on the stream what was due and exactly
one frame without payload after it, nothing between them, and holds no lock; and from then on
it stays as it is and a shutdown returns `Ok` again. -/
structure Ended (ops : WriteOp → Prop) (sockets : ι → SocketAddr) (i : ι) (c₀ : Conn) (w₀ : List (Mark ι))
    (P : Writers ι) : Prop where
  refused : ∀ c a, P.threads i = .ret c a → a ≠ .dropped → ∀ cx buf,
    pollWrite cx buf c = .ret c (.ready (.error (.ofKind .brokenPipe))) ∧
      pollFlush cx c = .ret c (.ready (.error (.ofKind .brokenPipe)))
  complete : ∀ c, P.threads i = .ret c (.shutdown (.ready (.ok ()))) → c.holds = false ∧
    ∃ before after, P.world = w₀ ++ before ++ stamp i .data c₀.due ++ stamp i .eof (frame (sockets i) []) ++ after ∧
      (∀ b ∈ before ++ after, b.1 ≠ i) ∧ (c₀.holds = true → before = [])
  final : ∀ c, P.threads i = .ret c (.shutdown (.ready (.ok ()))) → ∀ P' c' a', (writers ι ops).Reaches P P' →
    P'.threads i = .ret c' a' → a' ≠ .dropped → c' = c ∧ ∀ cx, pollShutdown cx c' = .ret c' (.ready (.ok ()))

theorem shutdown_ends (h : (writers ι ops).Reaches (Writers.init sockets) P) (hops : ∀ cx, ops (.shutdown cx))
    {a : Outcome} {k : Waker} {st : WriteState} {cx : Waker} (hi : P.threads i = .ret c a) (ha : a ≠ .dropped)
    (hs : c.inner.state = .writing k st)
    (hrun : (writers ι ops).Reaches
      ⟨Function.update P.threads i ((WriteOp.shutdown cx).body c), P.world⟩ P') :
    Ended ops sockets i c P.world P' := by
  have hmay : a.may (.shutdown cx) := by
    cases a with
    | new => exact trivial
    | dropped => exact absurd rfl ha
    | _ => simp [Outcome.may]
  obtain ⟨g, hwp, segs, tail, hl⟩ := writers_hold h
  have hal : Alive c (g i) := by
    have hidle := hwp i
    rw [hi] at hidle
    exact Idle.alive hidle.1 hmay
  have haddr : c.addr = sockets i := hal.socket.trans (hl.socket i)
  have hcalled : (writers ι ops).Reaches (Writers.init sockets)
      ⟨Function.update P.threads i ((WriteOp.shutdown cx).body c), P.world⟩ :=
    .tail h (Machine.Step.call P i (WriteOp.shutdown cx) hi ⟨hmay, hops cx⟩)
  have hstart : Shutting i c P.world
      ⟨Function.update P.threads i ((WriteOp.shutdown cx).body c), P.world⟩ [] [] [] := by
    refine ⟨?_, by simp, by simp, fun _ _ => rfl, fun _ => rfl⟩
    simp only [Function.update_self, WriteOp.body, Proc.bind_apply, Prog.wp_bind]
    exact hal.wp_first_shutdown hs cx
  obtain ⟨out, before, after, hsh⟩ := hstart.reaches hcalled hrun
  have hidle : ∀ c' a', P'.threads i = .ret c' a' → Closes c c' a' out := by
    intro c' a' hi'
    have hw := hsh.wp
    rw [hi'] at hw
    exact hw
  have hclosing : ∀ c' a', P'.threads i = .ret c' a' → a' ≠ .dropped → Closing c c' out := by
    intro c' a' hi' ha'
    rcases (hidle c' a' hi').2 with ⟨hd, -⟩ | ⟨hcl, -⟩
    · exact absurd hd ha'
    · exact hcl
  have hdone : ∀ c', P'.threads i = .ret c' (.shutdown (.ready (.ok ()))) → c'.inner.state = .shutdown .done := by
    intro c' hi'
    rcases (hidle c' _ hi').2 with ⟨hd, -⟩ | ⟨-, hok⟩
    · cases hd
    · exact hok rfl
  constructor
  case refused =>
    intro c' a' hi' ha' cx buf
    obtain ⟨st', hs'⟩ := (hclosing c' a' hi' ha').shutdown
    exact ⟨pollWrite_shutdown hs' cx buf, pollFlush_shutdown hs' cx⟩
  case complete =>
    intro c' hi'
    have hd := hdone c' hi'
    obtain ⟨ht, -, hst⟩ := hclosing c' _ hi' (by simp)
    rw [hd] at hst
    refine ⟨by simp [Conn.holds, ht, hd, WritePipeState.guarded], before, after, ?_, hsh.others, hsh.first⟩
    rw [hsh.world, hst, haddr]
    simp [marked, stamp, Function.comp_def]
  case final =>
    intro c' hi' P'' c'' a'' hrun' hi'' ha''
    have hd := hdone c' hi'
    rcases done_stays hd hi' (by simp) hrun' with ⟨b, -, hb⟩ | ⟨d, hb⟩
    · rw [hi''] at hb
      obtain ⟨rfl, -⟩ := Prog.ret.inj hb
      exact ⟨rfl, pollShutdown_done hd⟩
    · rw [hi''] at hb
      exact absurd (Prog.ret.inj hb).2 ha''

/-- In every interleaving over a socket that does not fail: a flush that is done has left an
empty buffer and no lock, with everything pushed on the stream in complete frames; flushing
an empty buffer writes nothing; and a shutdown is complete and final. -/
theorem flush_shutdown_complete (h : (writers ι fun _ => True).Reaches (Writers.init sockets) P) :
    (∀ i c, P.threads i = .ret c (.flush (.ready (.ok ()))) →
      c.inner.buffer.data = [] ∧ c.holds = false ∧ ∃ ps : List (List UInt8),
        (∀ p ∈ ps, p ≠ [] ∧ p.length ≤ 65535) ∧ ps.flatten = c.pushed ∧
        Intact i ((history (sockets i) c.opened false ps).map Prod.snd) P.world) ∧
    (∀ cx c answers c' r, c.inner.buffer.data = [] → (pollFlush cx c).Runs answers c' r →
      ∀ x ∈ answers, delivered x.1 x.2 = []) ∧
    (∀ i c a k st cx P', P.threads i = .ret c a → a ≠ .dropped → c.inner.state = .writing k st →
      (writers ι fun _ => True).Reaches
        ⟨Function.update P.threads i ((WriteOp.shutdown cx).body c), P.world⟩ P' →
      Ended (fun _ => True) sockets i c P.world P') := by
  refine ⟨fun i c hi => flush_complete h hi, fun cx c answers c' r hd hr => pollFlush_empty hd hr, ?_⟩
  intro i c a k st cx P' hi ha hs hrun
  exact shutdown_ends h (fun _ => trivial) hi ha hs hrun

end

/-- A byte is written and flushed, and the connection shut down. -/
theorem flush_shutdown_complete_byte :
    ∃ (P P' : Writers Unit) (c c' : Conn), P.threads () = .ret c (.flush (.ready (.ok ()))) ∧ c.pushed = [7] ∧
      c.inner.buffer.data = [] ∧ P'.threads () = .ret c' (.shutdown (.ready (.ok ()))) ∧
      Ended (fun _ => True) (fun _ => .unspecified) () c P.world P' := by
  have hruns : ∃ (P P' : Writers Unit) (c c' : Conn),
      (writers Unit fun _ => True).Reaches (Writers.init fun _ => .unspecified) P ∧
      P.threads () = .ret c (.flush (.ready (.ok ()))) ∧
      (writers Unit fun _ => True).Reaches
        ⟨Function.update P.threads () ((WriteOp.shutdown .noop).body c), P.world⟩ P' ∧
      P'.threads () = .ret c' (.shutdown (.ready (.ok ()))) ∧ c.pushed = [7] ∧
      c.inner.state = .writing .noop .buffering := by
    refine ⟨_, _, _, _, .call () .handshake rfl ⟨trivial, trivial⟩ <|
      .answer () ⟨.awaitLock false, ()⟩ rfl ⟨trivial, fun _ _ => rfl⟩ <|
      .answer () ⟨.awaitWrite (frame .unspecified []), .ok 20⟩ rfl ⟨⟨by decide, by decide⟩, nofun⟩ <|
      .call () (.write .noop [7]) rfl ⟨nofun, trivial⟩ <|
      .call () (.flush .noop) rfl ⟨nofun, trivial⟩ <|
      .answer () ⟨.tryLock, true⟩ rfl ⟨trivial, fun _ _ => rfl⟩ <|
      .answer () ⟨.write (frame .unspecified [7]), .ready (.ok 21)⟩ rfl ⟨⟨by decide, by decide⟩, nofun⟩ <|
      .answer () ⟨.flush, .ready (.ok ())⟩ rfl ⟨rfl, nofun⟩ .refl, rfl,
      .answer () ⟨.tryLock, true⟩ rfl ⟨trivial, fun _ _ => rfl⟩ <|
      .answer () ⟨.write (frame .unspecified []), .ready (.ok 20)⟩ rfl ⟨⟨by decide, by decide⟩, nofun⟩ .refl,
      rfl, rfl, rfl⟩
  obtain ⟨P, P', c, c', hP, hi, hP', hi', hpushed, hs⟩ := hruns
  obtain ⟨hfl, -, hsh⟩ := flush_shutdown_complete hP
  exact ⟨P, P', c, c', hi, hpushed, (hfl () c hi).1, hi', hsh () c _ _ _ .noop P' hi nofun hs hP'⟩

end VtMuxer
