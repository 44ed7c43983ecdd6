import VtMuxer.Write.Relay
import VtMuxer.Write.Kept
import VtMuxer.Write.Shared

/-! Connections that are opened by their handshake and shut down in the end, over a socket that does
not fail. Wherever they stand, all of them can be brought to the end of their shutdown with
everything that they have taken in. -/
namespace VtMuxer
open Interaction

/-- A preorder that sees only what was pushed. -/
structure Gentle (T : Conn → Conn → Prop) : Prop where
  still : ∀ {c c' : Conn}, c'.pushed = c.pushed → T c c'
  trans : ∀ a b c : Conn, T a b → T b c → T a c

/-- The computation moves the memory only as `T` says. -/
def Stirs {α : Type} (T : Conn → Conn → Prop) (m : WriteM α) : Prop := ∀ c, (m c).Along T c

section
variable {α β : Type} {T : Conn → Conn → Prop}

theorem Stirs.pure (hT : Gentle T) (a : α) : Stirs T (Pure.pure a) := fun _ => hT.still rfl

theorem Stirs.get (hT : Gentle T) : Stirs T Proc.get := fun _ => hT.still rfl

theorem Stirs.fault (hT : Gentle T) (e : Fault) : Stirs T (Proc.fault e : WriteM α) := fun _ => hT.still rfl

theorem Stirs.ask (hT : Gentle T) (q : WriteQuery) : Stirs T (Proc.ask q : WriteM (WriteResp q)) :=
  fun _ => ⟨hT.still rfl, fun _ => hT.still rfl⟩

theorem Stirs.modify {f : Conn → Conn} (hf : ∀ c, T c (f c)) : Stirs T (Proc.modify f) := hf

theorem Stirs.bind (hT : Gentle T) {m : WriteM α} {f : α → WriteM β} (hm : Stirs T m) (hf : ∀ a, Stirs T (f a)) :
    Stirs T (m >>= f) := fun c => (hm c).bind hT.trans fun s a => hf a s

theorem Stirs.poisonOnPanic (hT : Gentle T) {m : WriteM α} (hm : Stirs T m) : Stirs T (poisonOnPanic m) :=
  fun c => (hm c).onFault hT.trans (f := Conn.setState .poisoned) fun _ => hT.still rfl

end

namespace Gentle
variable {T : Conn → Conn → Prop}

theorem modify (hT : Gentle T) {f : Conn → Conn} (hf : ∀ c, (f c).pushed = c.pushed) : Stirs T (Proc.modify f) :=
  .modify fun c => hT.still (hf c)

theorem pollLock (hT : Gentle T) : Stirs T VtMuxer.pollLock := by
  have hfut : Stirs T pollLock.pollFuture := by
    refine .bind hT (.ask hT _) fun b => ?_
    split
    · exact .bind hT (hT.modify fun _ => rfl) fun _ => .pure hT _
    · exact .pure hT _
  refine .bind hT (.get hT) fun c => ?_
  split
  · exact hfut
  · refine .bind hT (.ask hT _) fun b => ?_
    split
    · exact .pure hT _
    · exact .bind hT (hT.modify fun _ => rfl) fun _ => hfut

theorem pollLocked (hT : Gentle T) : Stirs T VtMuxer.pollLocked := by
  refine .bind hT (.get hT) fun c => ?_
  split
  · refine .bind hT hT.pollLock fun r => ?_
    split
    · exact .pure hT _
    · exact .bind hT (hT.modify fun _ => rfl) fun _ => .pure hT _
  · exact .pure hT _
  · exact .fault hT _

theorem flushLoop (hT : Gentle T) (fuel : ℕ) : Stirs T (VtMuxer.flushLoop fuel) := by
  induction fuel with
  | zero => exact .fault hT _
  | succ fuel ih =>
    refine .bind hT (.get hT) fun c => ?_
    split
    · exact .fault hT _
    · exact .bind hT (hT.modify fun _ => rfl) fun _ => .pure hT _
    · refine .bind hT (.ask hT _) fun r => ?_
      split
      · exact .pure hT _
      · split
        · exact .fault hT _
        · exact .bind hT (hT.modify fun _ => rfl) fun _ => ih
      · exact .pure hT _
      · exact .pure hT _

theorem flushBuf (hT : Gentle T) : Stirs T VtMuxer.flushBuf := .bind hT (.get hT) fun _ => hT.flushLoop _

theorem release (hT : Gentle T) : Stirs T (Proc.modify Conn.release) := hT.modify Conn.release_pushed

theorem flushSocket (hT : Gentle T) : Stirs T VtMuxer.flushSocket := by
  refine .bind hT hT.pollLocked fun r => ?_
  split
  · exact .pure hT _
  · refine .bind hT (.ask hT _) fun r => ?_
    split
    · exact .pure hT _
    · exact .bind hT hT.release fun _ => .pure hT _

theorem pollFlush (hT : Gentle T) (cx : Waker) : Stirs T (VtMuxer.pollFlush cx) := by
  have hframe : Stirs T flushFrame := by
    refine .bind hT hT.flushBuf fun r => ?_
    split
    · exact .pure hT _
    · exact .bind hT hT.release fun _ => .pure hT _
    · refine .bind hT (.get hT) fun c => ?_
      split
      · exact hT.flushSocket
      · exact .fault hT _
  refine .poisonOnPanic hT (.bind hT (.get hT) fun c => ?_)
  split
  · exact .fault hT _
  · exact .pure hT _
  · refine .bind hT (hT.modify fun _ => rfl) fun _ => .bind hT (.get hT) fun c => ?_
    split
    · exact hT.flushSocket
    · refine .bind hT hT.pollLocked fun r => ?_
      split
      · exact .pure hT _
      · exact hframe

theorem guardedFlush (hT : Gentle T) {rest : WriteM (Poll (Except IoError Unit))} (h : Stirs T rest) :
    Stirs T (VtMuxer.guardedFlush rest) := by
  refine .bind hT hT.flushBuf fun r => ?_
  split
  · exact .pure hT _
  · exact .bind hT (hT.modify fun _ => rfl) fun _ => .pure hT _
  · exact h

theorem shutdownLoop (hT : Gentle T) (fuel : ℕ) : Stirs T (VtMuxer.shutdownLoop fuel) := by
  induction fuel with
  | zero => exact .fault hT _
  | succ fuel ih =>
    refine .bind hT (.get hT) fun c => ?_
    split
    · refine .bind hT hT.pollLock fun r => ?_
      split
      · exact .pure hT _
      · exact .bind hT (hT.modify fun _ => rfl) fun _ => ih
    · split
      · exact .bind hT (hT.modify fun _ => rfl) fun _ => ih
      · exact hT.guardedFlush (.bind hT (hT.modify fun _ => rfl) fun _ => ih)
    · split
      · exact hT.guardedFlush (.bind hT (hT.modify fun _ => rfl) fun _ => ih)
      · exact .fault hT _
    · exact .pure hT _
    · exact .pure hT _
    · exact .fault hT _

theorem pollShutdown (hT : Gentle T) (cx : Waker) : Stirs T (VtMuxer.pollShutdown cx) := by
  refine .poisonOnPanic hT (.bind hT (.get hT) fun c => ?_)
  split
  · exact .fault hT _
  · exact hT.shutdownLoop _
  · exact .bind hT (hT.modify fun _ => rfl) fun _ => hT.shutdownLoop _
  · exact .bind hT (hT.modify fun _ => rfl) fun _ => hT.shutdownLoop _

theorem lock (hT : Gentle T) : Stirs T VtMuxer.lock :=
  .bind hT (.get hT) fun _ => .bind hT (hT.modify fun _ => rfl) fun _ => .ask hT _

theorem writeAllLoop (hT : Gentle T) (fuel : ℕ) : Stirs T (VtMuxer.writeAllLoop fuel) := by
  induction fuel with
  | zero => exact .fault hT _
  | succ fuel ih =>
    refine .bind hT (.get hT) fun c => ?_
    split
    · exact .fault hT _
    · exact .pure hT _
    · refine .bind hT (.ask hT _) fun r => ?_
      split
      · exact .pure hT _
      · exact .pure hT _
      · split
        · exact .bind hT (hT.modify fun _ => rfl) fun _ => ih
        · exact .fault hT _

theorem writeAll (hT : Gentle T) (o : Origin) (bytes : List UInt8) : Stirs T (VtMuxer.writeAll o bytes) :=
  .bind hT (hT.modify fun _ => rfl) fun _ => hT.writeAllLoop _

theorem handshake (hT : Gentle T) : Stirs T VtMuxer.handshake := by
  refine .bind hT (.get hT) fun c => ?_
  split
  · refine .bind hT hT.lock fun _ => .bind hT (hT.writeAll _ _) fun r => ?_
    split
    · exact .bind hT (hT.modify fun _ => rfl) fun _ => .pure hT _
    · exact .bind hT (hT.modify fun _ => rfl) fun _ => .pure hT _
  · exact .fault hT _

theorem flushThen (hT : Gentle T) {wrote : ℕ} {rest : WriteM (Poll (Except IoError ℕ))} (h : Stirs T rest) :
    Stirs T (VtMuxer.flushThen wrote rest) := by
  refine .bind hT hT.flushBuf fun r => ?_
  split
  · exact .bind hT hT.release fun _ => h
  · exact .bind hT hT.release fun _ => .pure hT _
  · split
    · exact .pure hT _
    · exact .pure hT _

theorem pushBuf (hT : Gentle T) (hpush : ∀ buf w c, T c (c.push buf w)) (buf : List UInt8) (written : ℕ) :
    Stirs T (VtMuxer.pushBuf buf written) :=
  .bind hT (.get hT) fun _ => .bind hT (.modify fun c => hpush buf written c) fun _ => .pure hT _

theorem writeLoop (hT : Gentle T) (hpush : ∀ buf w c, T c (c.push buf w)) (fuel : ℕ) :
    ∀ buf wrote, Stirs T (VtMuxer.writeLoop fuel buf wrote) := by
  induction fuel with
  | zero => exact fun _ _ => .fault hT _
  | succ fuel ih =>
    intro buf wrote
    unfold VtMuxer.writeLoop
    split
    · exact .pure hT _
    · refine .bind hT (.get hT) fun c => ?_
      split
      · split
        · refine .bind hT hT.pollLocked fun r => ?_
          split
          · exact .pure hT _
          · exact hT.flushThen (.bind hT (hT.pushBuf hpush _ _) fun n => ih _ _)
        · exact .bind hT (hT.pushBuf hpush _ _) fun n => ih _ _
      · split
        · exact hT.flushThen (ih _ _)
        · exact .bind hT (hT.pushBuf hpush _ _) fun n => hT.flushThen (ih _ _)
      · exact .fault hT _

theorem pollWrite (hT : Gentle T) (hpush : ∀ buf w c, T c (c.push buf w)) (cx : Waker) (buf : List UInt8) :
    Stirs T (VtMuxer.pollWrite cx buf) := by
  refine .poisonOnPanic hT (.bind hT (.get hT) fun c => ?_)
  split
  · exact .fault hT _
  · exact .pure hT _
  · exact .bind hT (hT.modify fun _ => rfl) fun _ => hT.writeLoop hpush _ _ _

/-- Every call but a drop, and but a write where `push` is not allowed for. -/
theorem body (hT : Gentle T) {op : WriteOp} (hd : op ≠ .drop)
    (hw : (∀ cx buf, op ≠ .write cx buf) ∨ ∀ buf w c, T c (c.push buf w)) : Stirs T op.body := by
  cases op with
  | handshake => exact .bind hT hT.handshake fun _ => .pure hT _
  | write cx buf =>
    rcases hw with hne | hpush
    · exact absurd rfl (hne cx buf)
    · exact .bind hT (hT.pollWrite hpush cx buf) fun _ => .pure hT _
  | flush cx => exact .bind hT (hT.pollFlush cx) fun _ => .pure hT _
  | shutdown cx => exact .bind hT (hT.pollShutdown cx) fun _ => .pure hT _
  | drop => exact absurd rfl hd

end Gentle

def Adds (c c' : Conn) : Prop := c.pushed <+: c'.pushed

theorem Adds.gentle : Gentle Adds where
  still h := by
    unfold Adds
    rw [h]
  trans _ _ _ := List.IsPrefix.trans

theorem Adds.body {op : WriteOp} (hd : op ≠ .drop) : Stirs Adds op.body :=
  Adds.gentle.body hd (Or.inr fun _ _ c => List.prefix_append c.pushed _)

/-- The socket is asked to write something, if it is asked to write. -/
def WriteQuery.offers : WriteQuery → Prop
  | .write bytes => bytes ≠ []
  | .awaitWrite bytes => bytes ≠ []
  | _ => True

theorem Pertinent.offers {c : Conn} {q : WriteQuery} (h : Pertinent c q) : q.offers := by
  cases q with
  | write bytes => exact h
  | awaitWrite bytes => exact h
  | _ => trivial

theorem Outcome.eq_new_of_may {a : Outcome} (h : a.may .handshake) : a = .new := by
  cases a with
  | new => rfl
  | dropped => exact h.elim
  | _ => exact absurd rfl h

/-- Connections that begin with their handshake and are not dropped, over a socket that does not fail. -/
def dialers (ι : Type) : Machine ι WriteQuery WriteResp Conn Outcome WriteOp (List (Mark ι)) where
  body := WriteOp.body
  may a op := a.may op ∧ op ≠ .drop ∧ (a = .new → op = .handshake)
  allow _ _ q r := Answers true q r ∧ (q.offers → Smooth q r)
  emit w i c q r := w ++ stamp i c.origin (delivered q r)

theorem obliging_smooth (q : WriteQuery) : Answers true q (obliging q) ∧ (q.offers → Smooth q (obliging q)) := by
  refine ⟨obliging_answers q, fun hq => ?_⟩
  cases q with
  | write bytes => exact ⟨List.length_pos_of_ne_nil hq, le_refl bytes.length⟩
  | awaitWrite bytes => exact ⟨List.length_pos_of_ne_nil hq, le_refl bytes.length⟩
  | flush => rfl
  | _ => trivial

section
variable {c : Conn}

theorem follow_writeAll (c : Conn) (o : Origin) {bytes : List UInt8} (hne : bytes ≠ []) :
    (writeAll o bytes c).follow obliging = some (c.setTask (some (o, [])), .ok ()) := by
  obtain ⟨b, bs, rfl⟩ := List.exists_cons_of_ne_nil hne
  simp [writeAll, writeAllLoop, obliging, Conn.setTask]

theorem follow_handshake {k : Waker} (hs : c.inner.state = .writing k .buffering) (hd : c.inner.buffer.data = []) :
    (WriteOp.handshake.body c).follow obliging =
      some ((((c.setFut false).setTask (some (.handshake, []))).setTask none).setOpened, .handshake (.ok ())) := by
  have he : c.inner.buffer.isEmpty = true := (PacketBuffer.isEmpty_iff _).mpr hd
  have hne : c.inner.buffer.bytes ≠ [] := by
    refine List.ne_nil_of_length_pos ?_
    rw [c.length_bytes]
    simp [Conn.frameLen]
  simp [WriteOp.body, VtMuxer.handshake, VtMuxer.lock, hs, he, follow_writeAll _ _ hne]

/-- Of the calls of a connection only a write changes what was pushed. -/
theorem follow_pushed {op : WriteOp} (hd : op ≠ .drop) (hw : ∀ cx buf, op ≠ .write cx buf) {c' : Conn} {a : Outcome}
    (hf : (op.body c).follow obliging = some (c', a)) : c'.pushed = c.pushed := by
  have hT : Gentle fun c c' : Conn => c'.pushed = c.pushed := ⟨id, fun _ _ _ h h' => h'.trans h⟩
  exact (hT.body hd (Or.inl hw) c).follow hT.trans hf

end

section
variable {ι : Type} [DecidableEq ι] {sockets : ι → SocketAddr} {S S' : Turns ι} {i : ι}

def Dialers.sent (ι : Type) [DecidableEq ι] : (dialers ι).Output UInt8 := onWire (dialers ι) fun _ _ _ _ _ => rfl

theorem moves_turns (h : (dialers ι).Moves writeLock i S S') : (turns ι).Moves writeLock i S S' := by
  cases h with
  | call op h hm => exact Machine.Moves.call (M := turns ι) S op h hm.1
  | wait h hq hi => exact .wait S h hq hi
  | answer h r ha hfirst => exact Machine.Moves.answer (M := turns ι) S h r ha.1 hfirst

/-- A mutex that keeps a queue grants nothing that is held. -/
theorem Orderly.writes (h : Orderly S) (hm : (dialers ι).Moves writeLock i S S') :
    S'.pool = S.pool ∨ (writers ι (· ≠ .drop)).Step S.pool S'.pool := by
  cases hm with
  | call op hi hm => exact Or.inr (Machine.Step.call (M := writers ι (· ≠ .drop)) S.pool i op hi ⟨hm.1, hm.2.1⟩)
  | wait => exact Or.inl rfl
  | @answer s q k hi r ha hfirst =>
    obtain ⟨g, hwp⟩ := h.wp i
    rw [hi] at hwp
    obtain ⟨⟨hgov, -, hpert⟩, -⟩ := hwp
    refine Or.inr (Machine.Step.answer (M := writers ι (· ≠ .drop)) S.pool i hi r ⟨ha.2 hpert.offers, ?_⟩)
    intro hgrant j
    by_contra hj
    have hheld := h.first j (by simpa using hj)
    rcases hfirst hgrant with hnil | hhead
    · rw [hnil] at hheld
      cases hheld
    · rw [hhead] at hheld
      obtain rfl := Option.some.inj hheld
      have hmem : S.pool.mems i = s := by simp [Pool.mems, hi, Prog.mem]
      rw [hmem] at hj
      exact hj ((holds_of_governed hgov).2.1 r hgrant)

/-- Where such connections stand. -/
structure Dialing (sockets : ι → SocketAddr) (S : Turns ι) : Prop where
  orderly : Orderly S
  written : (writers ι (· ≠ .drop)).Reaches (Writers.init sockets) S.pool
  dialed : ∀ i, S.pool.threads i = .ret (.init (sockets i)) .new ∨ Behaves true (S.pool.threads i)
  adds : ∀ i, (S.pool.threads i).Along Adds (S.pool.mems i)

theorem Dialing.init (sockets : ι → SocketAddr) : Dialing sockets (Turns.init sockets) where
  orderly := .init sockets
  written := .refl
  dialed _ := Or.inl rfl
  adds _ := Adds.gentle.still rfl

theorem Dialing.idle (h : Dialing sockets S) {c : Conn} {a : Outcome} (hi : S.pool.threads i = .ret c a) :
    ∃ g, Idle (WriteOp.drop ≠ .drop) c a g := by
  obtain ⟨g, hwp, -⟩ := writers_hold h.written
  have hleaves := hwp i
  rw [hi] at hleaves
  exact ⟨g i, hleaves.1⟩

/-- A call that has returned has opened the connection, unless there was none. -/
theorem Dialing.returned (h : Dialing sockets S) {c : Conn} {a : Outcome} (hi : S.pool.threads i = .ret c a) :
    a ≠ .dropped ∧ c.inner.state ≠ .shutdown .error ∧
      (a = .new ∧ c = .init (sockets i) ∨ a ≠ .new ∧ c.opened = true) := by
  obtain ⟨g, hidle⟩ := h.idle hi
  have hdrop : a ≠ .dropped := by
    rintro rfl
    exact hidle.1 rfl
  refine ⟨hdrop, ?_, ?_⟩
  · have hmay : a.may (.flush .noop) := Outcome.may_of_ne hdrop (by simp)
    obtain ⟨-, -, -, closed, ps, -, -, hstands⟩ : Alive c g := hidle.alive hmay
    intro hs
    rw [hs] at hstands
    exact hstands
  · rcases h.dialed i with hnew | hbeh
    · rw [hi] at hnew
      cases hnew
      exact Or.inl ⟨rfl, rfl⟩
    · rw [hi] at hbeh
      have hopen : c.opened = true := hbeh.1
      refine Or.inr ⟨?_, hopen⟩
      rintro rfl
      have hfresh : Fresh c g := hidle.2
      rw [hfresh.2.2.2.1] at hopen
      cases hopen

theorem Dialing.move (h : Dialing sockets S) (hm : (dialers ι).Moves writeLock i S S') : Dialing sockets S' := by
  have hwritten : (writers ι (· ≠ .drop)).Reaches (Writers.init sockets) S'.pool := by
    rcases h.orderly.writes hm with heq | hstep
    · rw [heq]
      exact h.written
    · exact h.written.tail hstep
  have hother : ∀ j ≠ i, S'.pool.mems j = S.pool.mems j ∧ S'.pool.threads j = S.pool.threads j := by
    intro j hne
    have hthread := hm.thread_ne hne
    exact ⟨congrArg Prog.mem hthread, hthread⟩
  refine ⟨h.orderly.move (moves_turns hm), hwritten, fun j => ?_, fun j => ?_⟩
  · rcases eq_or_ne j i with rfl | hne
    swap
    · rw [(hother j hne).2]
      exact h.dialed j
    cases hm with
    | @call op c a hi hm =>
      right
      simp only [Function.update_self]
      rcases h.dialed j with hnew | hbeh
      · rw [hi] at hnew
        cases hnew
        rw [hm.2.2 rfl]
        exact .handshake _
      · rw [hi] at hbeh
        refine hbeh.call ?_ fun hd => absurd hd hm.2.1
        rintro rfl
        rcases (h.returned hi).2.2 with ⟨-, rfl⟩ | ⟨hne, -⟩
        · cases hbeh.1
        · exact hne (Outcome.eq_new_of_may hm.1)
    | wait hi hq hno => exact h.dialed j
    | @answer s q k hi r ha hfirst =>
      right
      rcases h.dialed j with hnew | hbeh
      · rw [hi] at hnew
        cases hnew
      · rw [hi] at hbeh
        obtain ⟨g, hwp⟩ := h.orderly.wp j
        rw [hi] at hwp
        simpa using hbeh.answer (ha.2 hwp.1.2.2.offers)
  · rcases eq_or_ne j i with rfl | hne
    swap
    · rw [(hother j hne).1, (hother j hne).2]
      exact h.adds j
    have hrefl : ∀ c, Adds c c := fun c => Adds.gentle.still rfl
    cases hm with
    | @call op c a hi hm =>
      simp only [Pool.mems, Function.update_self]
      exact (Adds.body hm.2.1 c).here hrefl
    | wait hi hq hno => exact h.adds j
    | @answer s q k hi r ha hfirst =>
      have hadds := h.adds j
      rw [hi] at hadds
      simpa [Pool.mems] using (hadds.2 r).here hrefl

theorem Dialing.plays {who : ι → Prop} (h : Dialing sockets S) (hr : (dialers ι).Plays writeLock who S S') :
    Dialing sockets S' := by
  induction hr with
  | refl => exact h
  | tail _ hstep ih =>
    obtain ⟨i, -, hmove⟩ := hstep
    exact ih.move hmove

/-- A connection is new only where nothing was called. -/
theorem Dialing.new (h : Dialing sockets S) {c : Conn} (hf : (S.pool.threads i).follow obliging = some (c, .new)) :
    c = .init (sockets i) := by
  have hbody : ∀ (op : WriteOp) (c₀ : Conn), (op.body c₀).wp (tracing Conn fun _ _ => True) (fun _ a _ => a ≠ .new) [] := by
    intro op c₀
    simp only [WriteOp.body]
    cases op <;> simp only [Proc.bind_apply, Prog.wp_bind] <;>
      exact Prog.wp_mono (fun _ _ _ _ => by simp) Prog.wp_tracing
  rcases Machine.Reaches.called (i := i) rfl h.written with hnew | ⟨c₀, op, answers, hcomes⟩
  · rw [hnew] at hf
    cases hf
    rfl
  · obtain ⟨more, hruns⟩ := hcomes.follow hf
    exact absurd rfl (hruns.of_tracing (fun _ _ => trivial) (hbody op c₀))

theorem Dialing.trim (h : Dialing sockets S) {c : Conn} {a : Outcome} (hi : S.pool.threads i = .ret c a) : Trim true c := by
  obtain ⟨g, hwp⟩ := h.orderly.wp i
  rw [hi] at hwp
  have hturned : Turned c a g := hwp
  exact hturned.1.trim (h.returned hi).1

/-- With the lock at its disposal an opened connection can be shut down. -/
theorem Dialing.shuts (h : Dialing sockets S) (ho : Foremost i [] S.order) {c : Conn} {a : Outcome}
    (hi : S.pool.threads i = .ret c a) (ha : a ≠ .new) :
    ∃ S' c', (dialers ι).Plays writeLock (· = i) S S' ∧ S'.order = [] ∧
      S'.pool.threads i = .ret c' (.shutdown (.ready (.ok ()))) ∧ c'.pushed = c.pushed := by
  obtain ⟨hdrop, herr, -⟩ := h.returned hi
  obtain ⟨c', hgives, hfin⟩ := (h.trim hi).gives_pollShutdown herr .noop
  have hbody : ((dialers ι).body (.shutdown .noop) c).follow obliging = some (c', .shutdown (.ready (.ok ()))) :=
    hgives.shutdown.1
  have hmay : (dialers ι).may a (.shutdown .noop) :=
    ⟨Outcome.may_of_ne hdrop (by simp), by simp, fun hnew => absurd hnew ha⟩
  obtain ⟨S', hplay, -, -, hend⟩ := Machine.exists_call (K := writeLock) (Dialers.sent ι) (fun _ q => obliging_smooth q)
    hi hmay hbody ho
  rcases hend with ⟨hret, hfirst⟩ | ⟨hne, -⟩
  swap
  · exact absurd rfl hne
  have hS' := h.plays hplay
  refine ⟨S', c', hplay, ?_, hret, follow_pushed (by simp) (by simp) hgives.shutdown.1⟩
  rcases hfirst with hone | ⟨hnil, -⟩
  · have hnone := (hS'.trim hret).claims_eq_false hfin.2 (by rw [hfin.1]; rfl)
    rcases hS'.orderly.claimed i (by simp [hone]) with hclaim | ⟨c₁, b, k, hask⟩
    · simp [Pool.mems, hret, Prog.mem, hnone] at hclaim
    · rw [hret] at hask
      cases hask
  · exact hnil

/-- While nobody claims the lock, a connection can go on to the end of its shutdown. -/
theorem Dialing.finish (h : Dialing sockets S) (ho : S.order = []) {c : Conn} {a : Outcome}
    (hf : (S.pool.threads i).follow obliging = some (c, a)) :
    ∃ S' c', (dialers ι).Plays writeLock (· = i) S S' ∧ S'.order = [] ∧
      S'.pool.threads i = .ret c' (.shutdown (.ready (.ok ()))) ∧ c'.pushed = c.pushed := by
  obtain ⟨S₁, hplay, -, -, hend⟩ := Machine.exists_follow (K := writeLock) (Dialers.sent ι) (fun _ q => obliging_smooth q)
    hf rfl (Or.inr ⟨ho, rfl⟩)
  rcases hend with ⟨hret, hfirst⟩ | ⟨hne, -⟩
  swap
  · exact absurd rfl hne
  have hS₁ := h.plays hplay
  by_cases ha : a = .new
  · subst ha
    obtain rfl := h.new hf
    have hbody : ((dialers ι).body .handshake (.init (sockets i))).follow obliging = _ := follow_handshake rfl rfl
    have hmay : (dialers ι).may .new .handshake := ⟨trivial, by simp, fun _ => rfl⟩
    obtain ⟨S₂, hplay₂, -, -, hend₂⟩ := Machine.exists_call (K := writeLock) (Dialers.sent ι)
      (fun _ q => obliging_smooth q) hret hmay hbody hfirst
    rcases hend₂ with ⟨hret₂, hfirst₂⟩ | ⟨hne, -⟩
    swap
    · exact absurd rfl hne
    obtain ⟨S', c', hplay', ho', hret', hpushed⟩ := (hS₁.plays hplay₂).shuts hfirst₂ hret₂ (by simp)
    exact ⟨S', c', (hplay.trans hplay₂).trans hplay', ho', hret', hpushed⟩
  · obtain ⟨S', c', hplay', ho', hret', hpushed⟩ := hS₁.shuts hfirst hret ha
    exact ⟨S', c', hplay.trans hplay', ho', hret', hpushed⟩

theorem Dialing.finish_all {words : ι → List UInt8} (l : List ι) : ∀ {S : Turns ι}, Dialing sockets S → S.order = [] →
    Machine.Bound (Dialers.sent ι) obliging (fun i _ c _ => c.pushed = words i) S →
    ∃ S', (dialers ι).Plays writeLock (fun _ => True) S S' ∧
      Machine.Bound (Dialers.sent ι) obliging (fun i _ c _ => c.pushed = words i) S' ∧
      ∀ i, (i ∈ l → ∃ c, S'.pool.threads i = .ret c (.shutdown (.ready (.ok ()))))  ∧
        ∀ c, S.pool.threads i = .ret c (.shutdown (.ready (.ok ()))) →
          ∃ c', S'.pool.threads i = .ret c' (.shutdown (.ready (.ok ()))) := by
  induction l with
  | nil => exact fun h ho hb => ⟨_, .refl, hb, fun i => ⟨by simp, fun c hc => ⟨c, hc⟩⟩⟩
  | cons j l ih =>
    intro S h ho hb
    obtain ⟨c, a, hf, hpushed⟩ := hb j
    obtain ⟨S₁, c', hplay, ho₁, hret, hp⟩ := h.finish ho hf
    have hb₁ := hb.plays hplay (by rw [hret]; rfl) (hp.trans hpushed)
    obtain ⟨S', hplay', hb', hrest⟩ := ih (h.plays hplay) ho₁ hb₁
    refine ⟨S', (hplay.mono fun _ _ => trivial).trans hplay', hb', fun i => ⟨fun hi => ?_, fun c₀ hc => ?_⟩⟩
    · rcases List.mem_cons.mp hi with rfl | hi
      · exact (hrest i).2 c' hret
      · exact (hrest i).1 hi
    · rcases eq_or_ne i j with rfl | hne
      · exact (hrest i).2 c' hret
      · refine (hrest i).2 c₀ ?_
        rw [hplay.thread_ne hne]
        exact hc

/-- The queue can be emptied by flushes and shutdowns. -/
theorem dialers_serve (sockets : ι → SocketAddr) (words : ι → List UInt8) :
    Machine.Serves (Dialers.sent ι) writeLock obliging (Dialing sockets)
      (fun i _ c a => ((∃ g, Turned c a g) ∧ (a = .new → writeLock.claims c = false)) ∧ c.pushed = words i) where
  allow _ _ q := obliging_smooth q
  keeps h hm := h.move hm
  claims h hi hret := by
    rcases h.orderly.claimed _ hi with hclaim | ⟨c, b, k, hask⟩
    · simpa [Pool.mems, hret, Prog.mem] using hclaim
    · rw [hret] at hask
      cases hask
  serve := by
    rintro i sent c a ⟨⟨⟨g, hturned⟩, hnew⟩, hwords⟩ hclaim
    obtain ⟨op, c', a', bytes, hop, hmay, ⟨hfollow, -⟩, hturned', hnone, -⟩ := hturned.serve hclaim
    have hd : op ≠ .drop := by
      rintro rfl
      simp at hop
    have hw : ∀ cx buf, op ≠ .write cx buf := by
      rintro cx buf rfl
      simp at hop
    refine ⟨op, c', a', ⟨hmay, hd, fun ha => ?_⟩, hfollow, ⟨⟨hturned', fun _ => hnone⟩, ?_⟩, hnone⟩
    · rw [hnew ha] at hclaim
      cases hclaim
    · exact (follow_pushed hd hw hfollow).trans hwords

/-- From everywhere all the connections can be brought to the end of their shutdown. By then they have
taken in what they had taken in before, and what a call that was under way takes in. -/
theorem Dialing.finishes [Fintype ι] (h : Dialing sockets S) :
    ∃ S', (dialers ι).Plays writeLock (fun _ => True) S S' ∧
      ∀ i, ∃ c', S'.pool.threads i = .ret c' (.shutdown (.ready (.ok ()))) ∧ c'.opened = true ∧
        (S.pool.mems i).pushed <+: c'.pushed ∧ ∀ c a, S.pool.threads i = .ret c a → c'.pushed = c.pushed := by
  have hends : ∀ i, ∃ c a g, (S.pool.threads i).follow obliging = some (c, a) ∧ Turned c a g := by
    intro i
    obtain ⟨g, hwp⟩ := h.orderly.wp i
    exact Prog.follow_of_wp (fun _ q => obliging_answers q) (fun _ _ hf => hf) hwp
  choose c a g hf hturned using hends
  have hbound : Machine.Bound (Dialers.sent ι) obliging (fun i _ c₁ a₁ => ((∃ g, Turned c₁ a₁ g) ∧
      (a₁ = .new → writeLock.claims c₁ = false)) ∧ c₁.pushed = (c i).pushed) S := by
    intro i
    refine ⟨c i, a i, hf i, ⟨⟨g i, hturned i⟩, fun hnew => ?_⟩, rfl⟩
    have hfi := hf i
    rw [hnew] at hfi
    rw [h.new hfi]
    rfl
  obtain ⟨S₁, hplay₁, hS₁, hb₁, ho₁⟩ := (dialers_serve sockets fun i => (c i).pushed).empties S.order rfl h hbound
  have hb₁' : Machine.Bound (Dialers.sent ι) obliging (fun i _ c₁ _ => c₁.pushed = (c i).pushed) S₁ := by
    intro i
    obtain ⟨c₁, a₁, hf₁, -, hp⟩ := hb₁ i
    exact ⟨c₁, a₁, hf₁, hp⟩
  obtain ⟨S', hplay', hb', hend⟩ := hS₁.finish_all Finset.univ.toList ho₁ hb₁'
  have hS' := hS₁.plays hplay'
  refine ⟨S', hplay₁.trans hplay', fun i => ?_⟩
  obtain ⟨c', hret⟩ := (hend i).1 (by simp)
  have hpushed : c'.pushed = (c i).pushed := by
    obtain ⟨c₁, a₁, hf₁, hp⟩ := hb' i
    rw [hret] at hf₁
    cases hf₁
    exact hp
  have hopen : c'.opened = true := by
    rcases (hS'.returned hret).2.2 with ⟨hnew, -⟩ | ⟨-, hopen⟩
    · cases hnew
    · exact hopen
  refine ⟨c', hret, hopen, ?_, fun c₀ a₀ hret₀ => ?_⟩
  · rw [hpushed]
    exact (h.adds i).follow Adds.gentle.trans (hf i)
  · have hfi := hf i
    rw [hret₀] at hfi
    cases hfi
    exact hpushed

end

end VtMuxer
