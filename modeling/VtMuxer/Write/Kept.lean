import VtMuxer.Write.Framing

/-! What calls on a connection leave alone: whether its handshake has completed, and the state in
which `drop` has found it. -/
namespace VtMuxer
open Interaction

/-- The contract of a socket that does not fail, under which `I` holds wherever a call waits. -/
def keeping (I : Conn → Prop) : Contract WriteQuery WriteResp Conn Unit where
  ok _ q r := Smooth q r
  upd _ _ _ _ := ()
  start _ _ := ()
  inv c _ _ := I c
  fault _ _ := True

/-- The computation keeps `I` from every memory that has it. -/
def Spares {α : Type} (I : Conn → Prop) (m : WriteM α) : Prop :=
  ∀ c, I c → (m c).wp (keeping I) (fun c' _ _ => I c') ()

/-- A fact about what calls leave alone. -/
def Marked (P : Bool → Option WritePipeState → Prop) (c : Conn) : Prop := P c.opened c.last

section
variable {α β : Type} {I : Conn → Prop}

theorem Spares.pure (a : α) : Spares I (Pure.pure a) := fun _ h => h

theorem Spares.get : Spares I Proc.get := fun _ h => h

theorem Spares.fault (e : Fault) : Spares I (Proc.fault e : WriteM α) := fun _ _ => trivial

theorem Spares.ask (q : WriteQuery) : Spares I (Proc.ask q : WriteM (WriteResp q)) := fun _ h => ⟨h, fun _ _ => h⟩

theorem Spares.modify {f : Conn → Conn} (hf : ∀ c, I c → I (f c)) : Spares I (Proc.modify f) := hf

theorem Spares.bind {m : WriteM α} {f : α → WriteM β} (hm : Spares I m) (hf : ∀ a, Spares I (f a)) :
    Spares I (m >>= f) := by
  intro c h
  rw [Proc.bind_apply, Prog.wp_bind]
  exact Prog.wp_mono (fun c' a _ h' => hf a c' h') (hm c h)

theorem Spares.poisonOnPanic {m : WriteM α} (hm : Spares I m) : Spares I (poisonOnPanic m) :=
  fun c h => Prog.wp_onFault (fun _ _ _ => trivial) (hm c h)

theorem wp_keeping_mono {J : Conn → Prop} (hJ : ∀ c, I c → J c) {post : Conn → α → Unit → Prop}
    {p : Prog WriteQuery WriteResp Conn α} {g : Unit} (h : p.wp (keeping I) post g) : p.wp (keeping J) post g := by
  induction p generalizing g with
  | ret c a => exact h
  | ask c q k ih => exact ⟨hJ c h.1, fun r hr => ih r (h.2 r hr)⟩
  | fault c e => trivial

end

section
variable {P : Bool → Option WritePipeState → Prop}

theorem spares_pollLock : Spares (Marked P) pollLock := by
  have hfut : Spares (Marked P) pollLock.pollFuture := by
    refine .bind (.ask _) fun b => ?_
    split
    · exact .bind (.modify fun _ h => h) fun _ => .pure _
    · exact .pure _
  refine .bind .get fun c => ?_
  split
  · exact hfut
  · refine .bind (.ask _) fun b => ?_
    split
    · exact .pure _
    · exact .bind (.modify fun _ h => h) fun _ => hfut

theorem spares_pollLocked : Spares (Marked P) pollLocked := by
  refine .bind .get fun c => ?_
  split
  · refine .bind spares_pollLock fun r => ?_
    split
    · exact .pure _
    · exact .bind (.modify fun _ h => h) fun _ => .pure _
  · exact .pure _
  · exact .fault _

theorem spares_flushLoop (fuel : ℕ) : Spares (Marked P) (flushLoop fuel) := by
  induction fuel with
  | zero => exact .fault _
  | succ fuel ih =>
    refine .bind .get fun c => ?_
    split
    · exact .fault _
    · exact .bind (.modify fun _ h => h) fun _ => .pure _
    · refine .bind (.ask _) fun r => ?_
      split
      · exact .pure _
      · split
        · exact .fault _
        · exact .bind (.modify fun _ h => h) fun _ => ih
      · exact .pure _
      · exact .pure _

theorem spares_flushBuf : Spares (Marked P) flushBuf := .bind .get fun _ => spares_flushLoop _

theorem spares_release : Spares (Marked P) (Proc.modify Conn.release) := by
  refine .modify fun c h => ?_
  have hlast : c.release.last = c.last := by
    unfold Conn.release
    split <;> rfl
  show P c.release.opened c.release.last
  rw [Conn.release_opened, hlast]
  exact h

theorem spares_flushThen {wrote : ℕ} {rest : WriteM (Poll (Except IoError ℕ))} (h : Spares (Marked P) rest) :
    Spares (Marked P) (flushThen wrote rest) := by
  refine .bind spares_flushBuf fun r => ?_
  split
  · exact .bind spares_release fun _ => h
  · exact .bind spares_release fun _ => .pure _
  · split
    · exact .pure _
    · exact .pure _

theorem spares_pushBuf (buf : List UInt8) (written : ℕ) : Spares (Marked P) (pushBuf buf written) :=
  .bind .get fun _ => .bind (.modify fun _ h => h) fun _ => .pure _

theorem spares_writeLoop (fuel : ℕ) : ∀ buf wrote, Spares (Marked P) (writeLoop fuel buf wrote) := by
  induction fuel with
  | zero => exact fun _ _ => .fault _
  | succ fuel ih =>
    intro buf wrote
    unfold writeLoop
    split
    · exact .pure _
    · refine .bind .get fun c => ?_
      split
      · split
        · refine .bind spares_pollLocked fun r => ?_
          split
          · exact .pure _
          · exact spares_flushThen (.bind (spares_pushBuf _ _) fun n => ih _ _)
        · exact .bind (spares_pushBuf _ _) fun n => ih _ _
      · split
        · exact spares_flushThen (ih _ _)
        · exact .bind (spares_pushBuf _ _) fun n => spares_flushThen (ih _ _)
      · exact .fault _

theorem spares_pollWrite (cx : Waker) (buf : List UInt8) : Spares (Marked P) (pollWrite cx buf) := by
  refine .poisonOnPanic (.bind .get fun c => ?_)
  split
  · exact .fault _
  · exact .pure _
  · exact .bind (.modify fun _ h => h) fun _ => spares_writeLoop _ _ _

theorem spares_flushSocket : Spares (Marked P) flushSocket := by
  refine .bind spares_pollLocked fun r => ?_
  split
  · exact .pure _
  · refine .bind (.ask _) fun r => ?_
    split
    · exact .pure _
    · exact .bind spares_release fun _ => .pure _

theorem spares_pollFlush (cx : Waker) : Spares (Marked P) (pollFlush cx) := by
  have hframe : Spares (Marked P) flushFrame := by
    refine .bind spares_flushBuf fun r => ?_
    split
    · exact .pure _
    · exact .bind spares_release fun _ => .pure _
    · refine .bind .get fun c => ?_
      split
      · exact spares_flushSocket
      · exact .fault _
  refine .poisonOnPanic (.bind .get fun c => ?_)
  split
  · exact .fault _
  · exact .pure _
  · refine .bind (.modify fun _ h => h) fun _ => .bind .get fun c => ?_
    split
    · exact spares_flushSocket
    · refine .bind spares_pollLocked fun r => ?_
      split
      · exact .pure _
      · exact hframe

theorem spares_guardedFlush {rest : WriteM (Poll (Except IoError Unit))} (h : Spares (Marked P) rest) :
    Spares (Marked P) (guardedFlush rest) := by
  refine .bind spares_flushBuf fun r => ?_
  split
  · exact .pure _
  · exact .bind (.modify fun _ h => h) fun _ => .pure _
  · exact h

theorem spares_shutdownLoop (fuel : ℕ) : Spares (Marked P) (shutdownLoop fuel) := by
  induction fuel with
  | zero => exact .fault _
  | succ fuel ih =>
    refine .bind .get fun c => ?_
    split
    · refine .bind spares_pollLock fun r => ?_
      split
      · exact .pure _
      · exact .bind (.modify fun _ h => h) fun _ => ih
    · split
      · exact .bind (.modify fun _ h => h) fun _ => ih
      · exact spares_guardedFlush (.bind (.modify fun _ h => h) fun _ => ih)
    · split
      · exact spares_guardedFlush (.bind (.modify fun _ h => h) fun _ => ih)
      · exact .fault _
    · exact .pure _
    · exact .pure _
    · exact .fault _

theorem spares_pollShutdown (cx : Waker) : Spares (Marked P) (pollShutdown cx) := by
  refine .poisonOnPanic (.bind .get fun c => ?_)
  split
  · exact .fault _
  · exact spares_shutdownLoop _
  · exact .bind (.modify fun _ h => h) fun _ => spares_shutdownLoop _
  · exact .bind (.modify fun _ h => h) fun _ => spares_shutdownLoop _

end

/-- What an async body does not touch. -/
structure Aside (I : Conn → Prop) : Prop where
  setFut : ∀ b c, I c → I (c.setFut b)
  setTask : ∀ t c, I c → I (c.setTask t)

section
variable {I : Conn → Prop}

theorem Aside.lock (hI : Aside I) : Spares I lock :=
  .bind .get fun _ => .bind (.modify (hI.setFut false)) fun _ => .ask _

theorem Aside.wp_writeAll (hI : Aside I) (o : Origin) (bytes : List UInt8) {c : Conn} (h : I c) :
    (writeAll o bytes c).wp (keeping I) (fun c r _ => I c ∧ r = .ok ()) () := by
  have hrule : WriteAllRule (keeping I) (fun _ _ => True) c o bytes (fun c r _ => I c ∧ r = .ok ()) := by
    constructor
    case ask => exact fun _ _ _ _ => hI.setTask _ c h
    case honest => exact fun _ _ _ hok => hok.2
    case step => exact fun _ _ _ _ _ _ => trivial
    case zero => exact fun _ _ _ hok => absurd hok.1 (by decide)
    case error => exact fun _ _ _ _ hok => hok.elim
    case finish => exact fun _ _ => ⟨hI.setTask _ c h, rfl⟩
  simpa using hrule.wp_writeAll (w := 0) trivial (Nat.zero_le _)

theorem Aside.writeAll (hI : Aside I) (o : Origin) (bytes : List UInt8) : Spares I (writeAll o bytes) :=
  fun _ h => Prog.wp_mono (fun _ _ _ hp => hp.1) (hI.wp_writeAll o bytes h)

end

/-- `drop` has not found a shutdown inside a frame. -/
def Untorn (last : Option WritePipeState) : Prop :=
  ∀ st, last = some (.shutdown st) → (WritePipeState.shutdown st).written = 0

/-- Between two calls: the handshake has completed exactly if it was made. -/
def Tame (dialed : Bool) (opened : Bool) (last : Option WritePipeState) : Prop := opened = dialed ∧ Untorn last

/-- Inside a call: a connection that was added has not begun its shutdown before the handshake
has completed. -/
def Tamed (dialed : Bool) (c : Conn) : Prop :=
  Marked (Tame dialed) c ∨ dialed = true ∧ c.inner.state ≠ .shutdown .done ∧ c.last = none

def Behaves (dialed : Bool) (p : Prog WriteQuery WriteResp Conn Outcome) : Prop :=
  p.wp (keeping (Tamed dialed)) (fun c _ _ => Marked (Tame dialed) c) ()

section
variable {dialed : Bool} {c : Conn}

theorem Spares.behaves {m : WriteM Outcome} (hm : Spares (Marked (Tame dialed)) m) (h : Marked (Tame dialed) c) :
    Behaves dialed (m c) :=
  wp_keeping_mono (fun _ hc => Or.inl hc) (hm c h)

theorem Tamed.untorn (h : Tamed dialed c) : Untorn c.last := by
  rcases h with ⟨-, hu⟩ | ⟨-, -, hnone⟩
  · exact hu
  · intro st hst
    rw [hnone] at hst
    cases hst

theorem Behaves.tamed {p : Prog WriteQuery WriteResp Conn Outcome} (h : Behaves dialed p)
    (hp : ∀ c e, p ≠ .fault c e) : Tamed dialed p.mem := by
  cases p with
  | ret c r => exact Or.inl h
  | ask c q k => exact h.1
  | fault c e => exact absurd rfl (hp c e)

theorem Behaves.accepted (a : SocketAddr) : Behaves false (.ret (.init a) .new) := ⟨rfl, nofun⟩

theorem Behaves.handshake (a : SocketAddr) : Behaves true (WriteOp.handshake.body (.init a)) := by
  let I : Conn → Prop := fun c => c.inner.state ≠ .shutdown .done ∧ c.last = none
  have hI : Aside I := ⟨fun _ _ h => h, fun _ _ h => h⟩
  have h0 : I ((Conn.init a).setFut false) := ⟨nofun, rfl⟩
  have he : (Conn.init a).inner.buffer.isEmpty = true := (PacketBuffer.isEmpty_iff _).mpr rfl
  have hs : (Conn.init a).inner.state = .writing .noop .buffering := rfl
  simp only [WriteOp.body, VtMuxer.handshake, lock, Proc.bind_apply, Proc.get_apply, Prog.bind_ret, hs, he,
    Proc.modify_apply, Proc.ask_apply, Prog.bind_ask]
  refine ⟨Or.inr ⟨rfl, h0⟩, fun _ _ => ?_⟩
  rw [Prog.wp_bind, Prog.wp_bind]
  have hwrite := hI.wp_writeAll .handshake (Conn.init a).inner.buffer.bytes h0
  refine Prog.wp_mono ?_ (wp_keeping_mono (fun c hc => Or.inr ⟨rfl, hc⟩) hwrite)
  rintro c r - ⟨hc, rfl⟩
  refine ⟨rfl, fun st hst => ?_⟩
  have hnone : some (WritePipeState.shutdown st) = none := hst.symm.trans hc.2
  cases hnone

theorem Behaves.drop (h : Marked (Tame dialed) c) (hu : Untorn (some c.inner.state)) :
    Behaves dialed (WriteOp.drop.body c) := by
  have hI : Aside (Marked (Tame dialed)) := ⟨fun _ _ h => h, fun _ _ h => h⟩
  have heof : ∀ socket, Spares (Marked (Tame dialed)) (sendEof socket) := fun socket =>
    .bind (hI.writeAll _ _) fun _ => .modify fun _ h => h
  have hfields : Spares (Marked (Tame dialed)) (Proc.modify Conn.dropFields : WriteM Unit) := .modify fun _ h => h
  have hret : Marked (Tame dialed) c.retire := ⟨h.1, hu⟩
  have htask : ∀ m : WriteM Unit, Spares (Marked (Tame dialed)) m →
      Behaves dialed ((m c.retire).bind fun c' _ => .ret c' .dropped) :=
    fun m hm => (hm.bind fun _ => .pure Outcome.dropped).behaves hret
  simp only [WriteOp.body, VtMuxer.drop, Proc.bind_apply, Proc.get_apply, Prog.bind_ret, Proc.modify_apply,
    Proc.pure_apply]
  rcases hs : c.inner.state with _ | st | ⟨k, _ | _ | w⟩
  · exact htask _ hfields
  · exact htask _ hfields
  · exact htask (lock >>= fun _ => sendEof c.addr) (.bind hI.lock fun _ => heof _)
  · exact htask _ (.bind hfields fun _ => heof _)
  · cases hb : c.inner.buffer.bytesFrom? (w + 1) with
    | none =>
      simp only [hb]
      exact htask _ (.fault _)
    | some rest =>
      simp only [hb]
      refine htask _ (.bind hfields fun _ => .bind (hI.writeAll _ _) fun r => ?_)
      split
      · exact .modify fun _ h => h
      · exact heof _

theorem Behaves.call {r : Outcome} {op : WriteOp} (h : Behaves dialed (.ret c r)) (hop : op ≠ .handshake)
    (hd : op = .drop → Untorn (some c.inner.state)) : Behaves dialed (op.body c) := by
  have hc : Marked (Tame dialed) c := h
  cases op with
  | handshake => exact absurd rfl hop
  | write cx buf => exact (Spares.bind (spares_pollWrite cx buf) fun _ => .pure _).behaves hc
  | flush cx => exact (Spares.bind (spares_pollFlush cx) fun _ => .pure _).behaves hc
  | shutdown cx => exact (Spares.bind (spares_pollShutdown cx) fun _ => .pure _).behaves hc
  | drop => exact .drop hc (hd rfl)

theorem Behaves.answer {q : WriteQuery} {k : WriteResp q → Prog WriteQuery WriteResp Conn Outcome}
    (h : Behaves dialed (.ask c q k)) {r : WriteResp q} (hr : Smooth q r) : Behaves dialed (k r) := h.2 r hr

end

end VtMuxer
