import VtMuxer.Interaction.Queue
import VtMuxer.Write.Claims

/-! The mutex of the writers grants its lock in the order in which it is asked for. The future of
`lock_owned` has its place in the queue from its first poll, and keeps it in the connection when a
poll call returns; a future that is granted the lock has it, whether it is polled or not. -/
namespace VtMuxer
open Interaction

/-- The mutex of the writers. -/
def writeLock : Lock WriteQuery WriteResp Conn where
  asks
    | .pollFut => true
    | .awaitLock _ => true
    | _ => false
  awaits
    | .awaitLock _ => true
    | _ => false
  grants q r := granted ⟨q, r⟩
  claims c := c.inner.fut || c.holds

/-- Connections over a TCP stream, which takes no more than it is offered and may fail. -/
def turns (ι : Type) : Machine ι WriteQuery WriteResp Conn Outcome WriteOp (List (Mark ι)) where
  body := WriteOp.body
  may := Outcome.may
  allow _ _ q r := Answers true q r
  emit w i c q r := w ++ stamp i c.origin (delivered q r)

abbrev Turns (ι : Type) := Queued ι WriteQuery WriteResp Conn Outcome (List (Mark ι))

def Turns.init {ι : Type} (sockets : ι → SocketAddr) : Turns ι := ⟨Writers.init sockets, []⟩

/-- A future is polled that is kept, and something is offered to the socket. -/
def Pertinent (c : Conn) : WriteQuery → Prop
  | .pollFut => c.inner.fut = true
  | .write bytes => bytes ≠ []
  | .awaitWrite bytes => bytes ≠ []
  | _ => True

/-- The contract of a connection that holds the lock only if it did so before the last answer or
was granted it by that answer. -/
def turning : Contract WriteQuery WriteResp Conn Bool where
  ok _ q r := Answers true q r
  upd c q r _ := c.holds || granted ⟨q, r⟩
  start c _ := c.holds
  inv c q g := (governed true).inv c q () ∧ (c.holds = true → g = true) ∧ Pertinent c q
  fault _ _ := False

def Turned (c : Conn) (a : Outcome) (g : Bool) : Prop := Remains true c a ∧ (c.holds = true → g = true)

section
variable {c : Conn} {g : Bool}

theorem Conn.holds_of_guarded (h : c.inner.state.guarded = true) : c.holds = true := by
  simp [Conn.holds, h]

theorem Trim.turns_pollLock {post : Conn → Poll Unit → Bool → Prop} (h : Trim true c)
    (hu : c.inner.state.unlocked = true)
    (hgot : post (c.setFut false) (.ready ()) true)
    (hpend : ∀ g', post (c.setFut true) .pending g') : (pollLock c).wp turning post g := by
  have hno : c.holds = false := Conn.not_holds h.task hu
  refine LockRule.wp_pollLock (K := fun _ => True) ?_ trivial
  constructor
  case askTry =>
    intro g' _
    exact ⟨⟨h.setFut false (by simp), hu, rfl⟩, fun hh => absurd (hno.symm.trans hh) (by simp), trivial⟩
  case askPoll =>
    intro g' _
    exact ⟨⟨h.setFut true fun _ => hu, hu⟩, fun hh => absurd (hno.symm.trans hh) (by simp), rfl⟩
  case refused => exact fun _ _ => trivial
  case tried =>
    intro g' _ _
    simpa [turning, granted] using hgot
  case polled =>
    intro g' _ _
    simpa [turning, granted] using hgot
  case pending => exact fun _ _ => hpend _

theorem Trim.turns_flushBuf {post : Conn → Poll (Except IoError Unit) → Bool → Prop} (h : Trim true c)
    (hg : c.inner.state.guarded = true) (hheld : g = true)
    (hpend : ∀ w, Trim true (c.setWritten w) → post (c.setWritten w) .pending true)
    (hfail : ∀ w e, Trim true (c.setWritten w) ∧ (c.setWritten w).inner.state.guarded = true →
      post (c.setWritten w) (.ready (.error e)) true)
    (hfin : Cleared (c.setWritten c.frameLen).clear → post (c.setWritten c.frameLen).clear (.ready (.ok ())) true) :
    (flushBuf c).wp turning post g := by
  have hfut : c.inner.fut = false := h.fut_eq_false (WritePipeState.unlocked_of_guarded hg)
  have hguard : ∀ w, (c.setWritten w).inner.state.guarded = true := by
    intro w
    rw [Conn.setWritten_state, WritePipeState.guarded_setWritten, hg]
  have hupd : ∀ w (q : WriteQuery) (r : WriteResp q) g', turning.upd (c.setWritten w) q r g' = true := by
    intro w q r g'
    simp [turning, Conn.holds_of_guarded (hguard w)]
  refine FlushRule.wp_flushBuf (J := fun _ g => g = true) ?_ hheld ((h.stays rfl).out hg).2.le
  constructor
  case guarded => exact hg
  case wide => exact h.wide hg
  case ask =>
    intro w g' hJ hw
    have hwr : (c.setWritten w).inner.state.written = w := WritePipeState.written_setWritten hg w
    refine ⟨⟨h.setWritten hg hw, hguard w, ?_, ?_⟩, fun _ => hJ, ?_⟩
    · rw [hwr]
      exact hw
    · rw [hwr]
      rfl
    · refine List.ne_nil_of_length_pos ?_
      rw [List.length_drop, c.length_bytes]
      omega
  case honest => exact fun _ _ _ hok => hok.1
  case step => exact fun w g' n _ _ _ => hupd w _ _ g'
  case zero =>
    intro w g' _ hw _
    rw [hupd]
    exact hfail w _ ⟨h.setWritten hg hw, hguard w⟩
  case error =>
    intro w g' e _ hw _
    rw [hupd]
    exact hfail w _ ⟨h.setWritten hg hw, hguard w⟩
  case pending =>
    intro w g' _ hw
    rw [hupd]
    exact hpend w (h.setWritten hg hw)
  case finish =>
    intro g' hJ
    rw [hJ]
    exact hfin ⟨h.task, h.live, hfut, hguard _, rfl⟩

theorem Trim.turnsRule : PollRule turning (fun c g => Trim true c ∧ (c.holds = true → g = true))
    (fun c g => Trim true c ∧ g = true) (fun c g => Cleared c ∧ g = true)
    (fun c g => (Trim true c ∧ c.inner.state.guarded = true) ∧ g = true) Turned := by
  have hrule := Trim.pollRule true
  constructor
  case toShutdownRule =>
    constructor
    case lock =>
      intro c g post h hu hgot hpend
      refine h.1.turns_pollLock hu (hgot true ⟨h.1, rfl⟩) fun g' => hpend g' ⟨h.1.setFut true fun _ => hu, fun hh => ?_⟩
      rw [Conn.not_holds (c := c.setFut true) h.1.task hu] at hh
      cases hh
    case flush =>
      intro c g post h hg hpend hfail hfin
      exact h.1.turns_flushBuf hg (h.2 (Conn.holds_of_guarded hg)) (fun w ht => hpend w true ⟨ht, fun _ => rfl⟩)
        (fun w e ht => hfail w e true ⟨ht, rfl⟩) fun hc => hfin true ⟨hc, rfl⟩
    case stage => exact fun h hs hd => ⟨hrule.stage (g := ()) h.1 hs hd, fun _ => h.2⟩
    case stageEmpty => exact fun h hs hd => ⟨hrule.stageEmpty (g := ()) h.1 hs hd, fun _ => h.2⟩
    case pass => exact fun h hs hd => ⟨hrule.pass (g := ()) h.1 hs hd, fun _ => h.2 (Conn.holds_of_guarded (by rw [hs]; rfl))⟩
    case next => exact fun h hs => ⟨hrule.next (g := ()) h.1 hs, fun _ => h.2⟩
    case done => exact fun h hs => ⟨hrule.done (g := ()) h.1 hs, fun _ => h.2⟩
    case final => exact fun h hs => h.1.final _ hs
    case tolerant => exact fun hf => hf
    case calm => exact fun h ha => ⟨hrule.calm (g := ()) h.1 ha, h.2⟩
    case again => exact fun h hs => ⟨h.1, h.2⟩
    case broken => exact fun h hs => ⟨h.1, h.2⟩
    case failedShut => exact fun h hs => ⟨hrule.failedShut (g := ()) h.1 hs, fun _ => h.2⟩
  case socket =>
    intro c g k w h hs
    obtain ⟨hinv, hpend, hready⟩ := hrule.socket (g := ()) h.1 hs
    have hheld : ∀ r, turning.upd c .flush r g = true := by
      intro r
      simp [turning, Conn.holds_of_guarded h.1.guarded]
    refine ⟨⟨hinv, fun _ => h.2, trivial⟩, fun hok => ⟨hpend hok, fun _ => hheld _⟩, fun res hok => ?_⟩
    exact ⟨hready res hok, fun _ => hheld _⟩
  case waker =>
    intro c g k st cx h hs
    refine ⟨hrule.waker (g := ()) cx h.1 hs, fun hh => h.2 ?_⟩
    cases st with
    | buffering => exact absurd hh (by simp [Conn.holds, WritePipeState.guarded, h.1.task])
    | flushing w => exact Conn.holds_of_guarded (by rw [hs]; rfl)
  case push => exact fun buf h hs => ⟨h.1.push hs buf, h.2⟩
  case locked => exact fun h hs hd => ⟨hrule.locked (g := ()) h.1 hs hd, fun _ => h.2⟩
  case lockedEmpty => exact fun h hs hd => ⟨hrule.lockedEmpty (g := ()) h.1 hs hd, h.2⟩
  case empty => exact fun h hs hd => ⟨hrule.empty (g := ()) h.1 hs hd, h.2 (Conn.holds_of_guarded (by rw [hs]; rfl))⟩
  case release => exact fun h hs => ⟨hrule.release (g := ()) h.1 hs, fun _ => h.2⟩
  case shut =>
    intro c g k h hs
    refine ⟨hrule.shut (g := ()) h.1 hs, fun hh => ?_⟩
    rw [Conn.not_holds (c := (c.setState (.shutdown .waitingLock)).wake k) h.1.task rfl] at hh
    cases hh
  case shutLocked =>
    exact fun h hs => ⟨hrule.shutLocked (g := ()) h.1 hs, fun _ => h.2 (Conn.holds_of_guarded (by rw [hs]; rfl))⟩
  case sound => exact fun h => h.1.sound
  case refused => exact fun h _ => ⟨⟨h.1, h.2⟩, ⟨h.1, h.2⟩⟩
  case failed =>
    intro c g k w e h hs
    obtain ⟨hw, hf⟩ := hrule.failed (g := ()) (e := e) h.1 hs
    exact ⟨⟨hw, fun _ => h.2⟩, ⟨hf, fun _ => h.2⟩⟩

theorem Bare.turns_writeAll {post : Conn → Except IoError Unit → Bool → Prop} {o : Origin} (h : Bare c)
    (hheld : g = true) (hok : post (c.setTask (some (o, []))) (.ok ()) true)
    (herr : ∀ rest e, post (c.setTask (some (o, rest))) (.error e) true) (bytes : List UInt8) :
    (writeAll o bytes c).wp turning post g := by
  have hupd : ∀ rest (q : WriteQuery) (r : WriteResp q) g',
      turning.upd (c.setTask (some (o, rest))) q r g' = true := by
    intro rest q r g'
    simp [turning, Conn.holds]
  have hrule : WriteAllRule turning (fun _ g => g = true) c o bytes post := by
    constructor
    case ask =>
      intro w g' hJ hw
      refine ⟨⟨⟨h.fut, h.guarded, h.sound⟩, by simp⟩, fun _ => hJ, List.ne_nil_of_length_pos ?_⟩
      rw [List.length_drop]
      omega
    case honest => exact fun _ _ _ hok => hok.1
    case step => exact fun _ _ _ _ _ _ => hupd _ _ _ _
    case zero =>
      intro w g' _ _
      rw [hupd]
      exact herr _ _
    case error =>
      intro w g' e _ _
      rw [hupd]
      exact herr _ _
    case finish =>
      intro g' hJ
      rw [hJ]
      exact hok
  simpa using hrule.wp_writeAll (w := 0) (g := g) hheld (Nat.zero_le _)

theorem Bare.turns_sendEof (h : Bare c) (a : SocketAddr) (hheld : g = true) :
    (sendEof a c).wp turning (fun c _ _ => Bare c ∧ c.task = none) g := by
  simp only [sendEof, Proc.bind_apply, Prog.wp_bind]
  apply h.turns_writeAll hheld
  · exact ⟨h.setTask none, rfl⟩
  · exact fun rest e => ⟨h.setTask none, rfl⟩

theorem Bare.not_holds (h : Bare c) (ht : c.task = none) : c.holds = false := by
  simp [Conn.holds, ht, h.guarded]

theorem Trim.turns_handshake (h : Trim true c) {k : Waker} (hs : c.inner.state = .writing k .buffering)
    (hd : c.inner.buffer.data = []) :
    (VtMuxer.handshake c).wp turning (fun c _ g => Trim true c ∧ (c.holds = true → g = true)) g := by
  have he : c.inner.buffer.isEmpty = true := (PacketBuffer.isEmpty_iff _).mpr hd
  have hbare : Bare (c.setFut false) := ⟨rfl, by simp [hs, WritePipeState.guarded], fun _ => h.sound⟩
  have hend : Trim true (c.setFut false) := h.setFut false (by simp)
  have hnone : ∀ t, Trim true (((c.setFut false).setTask t).setTask none) :=
    fun _ => ⟨rfl, hend.live, hend.sound, hend.queued, hend.final, hend.stays⟩
  simp only [VtMuxer.handshake, VtMuxer.lock, Proc.bind_apply, Proc.get_apply, Prog.bind_ret, hs, he,
    Proc.modify_apply, Proc.ask_apply, Prog.bind_ask, Prog.wp_ask]
  refine ⟨⟨⟨hbare, h.task⟩, fun hh => ?_, trivial⟩, ?_⟩
  · rw [hbare.not_holds h.task] at hh
    cases hh
  · intro _ _
    rw [Prog.wp_bind]
    apply hbare.turns_writeAll (by simp [turning, granted])
    · have ho := hnone (some (.handshake, []))
      exact ⟨⟨rfl, ho.live, ho.sound, ho.queued, ho.final, ho.stays⟩, fun _ => rfl⟩
    · exact fun rest e => ⟨hnone _, fun _ => rfl⟩

theorem Trim.turns_drop (h : Trim true c) (hheld : c.holds = true → g = true) :
    (VtMuxer.drop c).wp turning (fun c _ _ => Bare c ∧ c.task = none) g := by
  have hbare : Bare (c.retire.setFut false) := ⟨rfl, rfl, fun hl => by simp at hl⟩
  rcases hs : c.inner.state with _ | st | ⟨k, _ | _ | w⟩
  · exact absurd hs h.sound
  · rw [drop_shutdown hs]
    exact ⟨hbare, h.task⟩
  · rw [drop_buffering hs]
    refine ⟨⟨⟨hbare, h.task⟩, fun hh => ?_, trivial⟩, fun _ _ => ?_⟩
    swap
    · exact hbare.turns_sendEof c.addr (by simp [turning, granted])
    rw [hbare.not_holds h.task] at hh
    cases hh
  · rw [drop_unbegun hs]
    exact hbare.turns_sendEof c.addr (hheld (Conn.holds_of_guarded (by rw [hs]; rfl)))
  · have hst := h.stays rfl
    rw [hs] at hst
    have hsome : c.inner.buffer.bytesFrom? (w + 1) = some (c.inner.buffer.bytes.drop (w + 1)) :=
      PacketBuffer.bytesFrom?_eq_some.mpr ⟨hst.2.1.le, rfl⟩
    rw [drop_begun hs hsome, Prog.wp_bind]
    apply hbare.turns_writeAll (hheld (Conn.holds_of_guarded (by rw [hs]; rfl)))
    · exact (hbare.setTask _).turns_sendEof c.addr rfl
    · exact fun rest e => ⟨hbare.setTask none, rfl⟩

/-- Every call that may be made on a connection keeps the contract. -/
theorem Turned.wp_body {a : Outcome} (h : Turned c a g) {op : WriteOp} (hm : a.may op) :
    (op.body c).wp turning Turned (turning.start c g) := by
  have hnot : a ≠ .dropped := by
    rintro rfl
    exact hm
  have ht := h.1.trim hnot
  have hstart : Trim true c ∧ (c.holds = true → turning.start c g = true) := ⟨ht, id⟩
  simp only [WriteOp.body]
  cases op with
  | handshake =>
    obtain ⟨-, ⟨k, hs⟩, hd⟩ : Remains true c .new := by
      cases a with
      | new => exact h.1
      | dropped => exact absurd rfl hnot
      | _ => exact absurd rfl hm
    simp only [Proc.bind_apply, Prog.wp_bind, Proc.pure_apply, Prog.wp_ret]
    exact ht.turns_handshake hs hd
  | write cx buf =>
    simp only [Proc.bind_apply, Prog.wp_bind, Proc.pure_apply, Prog.wp_ret]
    exact Prog.wp_mono (fun _ _ _ hw => hw.1) (Trim.turnsRule.wp_pollWrite hstart cx buf)
  | flush cx =>
    simp only [Proc.bind_apply, Prog.wp_bind, Proc.pure_apply, Prog.wp_ret]
    exact Trim.turnsRule.wp_pollFlush hstart cx
  | shutdown cx =>
    simp only [Proc.bind_apply, Prog.wp_bind, Proc.pure_apply, Prog.wp_ret]
    exact Trim.turnsRule.wp_pollShutdown hstart cx
  | drop =>
    simp only [Proc.bind_apply, Prog.wp_bind, Proc.pure_apply, Prog.wp_ret]
    refine Prog.wp_mono (fun c' _ g' hb => ⟨hb, fun hh => ?_⟩) (ht.turns_drop id)
    rw [hb.1.not_holds hb.2] at hh
    cases hh

/-- Who asks for the lock does not hold it, and who writes does. -/
theorem holds_of_governed {q : WriteQuery} (h : (governed true).inv c q ()) :
    (writeLock.asks q = true → c.holds = false) ∧ ((r : WriteResp q) → granted ⟨q, r⟩ = true → c.holds = false) ∧
      ((r : WriteResp q) → delivered q r ≠ [] → c.holds = true) := by
  cases q with
  | tryLock => exact ⟨nofun, fun _ _ => Conn.not_holds h.1.task h.2.1, fun _ hd => absurd rfl hd⟩
  | pollFut => exact ⟨fun _ => Conn.not_holds h.1.task h.2, fun _ _ => Conn.not_holds h.1.task h.2, fun _ hd => absurd rfl hd⟩
  | awaitLock b => exact ⟨fun _ => h.1.not_holds h.2, fun _ _ => h.1.not_holds h.2, fun _ hd => absurd rfl hd⟩
  | write bytes => exact ⟨nofun, nofun, fun _ _ => Conn.holds_of_guarded h.2.1⟩
  | flush => exact ⟨nofun, nofun, fun _ _ => Conn.holds_of_guarded h.guarded⟩
  | awaitWrite bytes =>
    refine ⟨nofun, nofun, fun _ _ => ?_⟩
    simp [Conn.holds, Option.isSome_iff_ne_none.mpr h.2]

theorem turning_stands {p : Prog WriteQuery WriteResp Conn Outcome} (h : p.wp turning Turned g) :
    (p.mem.holds = true → g = true) ∧ (writeLock.asking p = true → p.mem.holds = false ∧
      (writeLock.claims p.mem = true ∨ ∃ c b k, p = .ask c (.awaitLock b) k)) := by
  cases p with
  | ret c a => exact ⟨h.2, nofun⟩
  | ask c q k =>
    refine ⟨h.1.2.1, fun hask => ⟨(holds_of_governed h.1.1).1 hask, ?_⟩⟩
    cases q with
    | pollFut => exact Or.inl (by simp [writeLock, Prog.mem, show c.inner.fut = true from h.1.2.2])
    | awaitLock b => exact Or.inr ⟨c, b, k, rfl⟩
    | _ => cases hask
  | fault c e => exact h.elim

end

section
variable {ι : Type} [DecidableEq ι] {sockets : ι → SocketAddr} {S S' : Turns ι} {i j : ι}

/-- Only the first in the queue holds the lock, who has a claim has its place, and who has a place
has a claim. -/
structure Orderly (S : Turns ι) : Prop where
  wp : ∀ i, ∃ g, (S.pool.threads i).wp turning Turned g
  nodup : S.order.Nodup
  first : ∀ i, (S.pool.mems i).holds = true → S.order.head? = some i
  placed : ∀ i, writeLock.claims (S.pool.mems i) = true → writeLock.asking (S.pool.threads i) = false → i ∈ S.order
  claimed : ∀ i ∈ S.order, writeLock.claims (S.pool.mems i) = true ∨ ∃ c b k, S.pool.threads i = .ask c (.awaitLock b) k

omit [DecidableEq ι] in
theorem Orderly.init (sockets : ι → SocketAddr) : Orderly (Turns.init sockets) where
  wp i := ⟨false, ⟨⟨⟨rfl, rfl, by simp [Conn.init], by simp [Conn.init], by simp [Conn.init], fun _ => rfl⟩,
    ⟨_, rfl⟩, rfl⟩, nofun⟩⟩
  nodup := List.nodup_nil
  first _ hi := by cases hi
  placed _ hi _ := by cases hi
  claimed _ hi := by cases hi

/-- Connection `i` goes on as `p`, which it may do with the lock only if it had it or was first. -/
theorem Orderly.moved (h : Orderly S) {p : Prog WriteQuery WriteResp Conn Outcome} {g : Bool} (hp : p.wp turning Turned g)
    (hg : g = true → S.order = [] ∨ S.order.head? = some i) (world : List (Mark ι)) :
    Orderly ⟨⟨Function.update S.pool.threads i p, world⟩, writeLock.settle i p S.order⟩ := by
  have hself : Pool.mems ⟨Function.update S.pool.threads i p, world⟩ i = p.mem := by simp [Pool.mems]
  have hother : ∀ j, j ≠ i → Pool.mems ⟨Function.update S.pool.threads i p, world⟩ j = S.pool.mems j := by
    intro j hj
    simp [Pool.mems, hj]
  obtain ⟨hheld, hasking⟩ := turning_stands hp
  constructor
  case wp =>
    intro j
    rcases eq_or_ne j i with rfl | hne
    · exact ⟨g, by simpa using hp⟩
    · simpa [hne] using h.wp j
  case nodup => exact Lock.nodup_settle h.nodup
  case first =>
    intro j hj
    rcases eq_or_ne j i with rfl | hne
    · rw [hself] at hj
      have hclaim : writeLock.claims p.mem = true := by simp [writeLock, hj]
      rcases hg (hheld hj) with hnil | hhead
      · have hask : writeLock.asking p = false := by
          by_contra hask
          rw [(hasking (by simpa using hask)).1] at hj
          cases hj
        simp [Lock.settle, hask, hclaim, hnil]
      · rwa [Lock.settle_of_mem hclaim (List.mem_of_mem_head? hhead)]
    · rw [hother j hne] at hj
      exact Lock.head_settle hne (h.first j hj)
  case placed =>
    intro j hj hask
    rcases eq_or_ne j i with rfl | hne
    · rw [hself] at hj
      exact Lock.mem_settle (by simpa using hask) hj
    · rw [hother j hne] at hj
      exact (Lock.mem_settle_of_ne hne).mpr (h.placed j hj (by simpa [hne] using hask))
  case claimed =>
    intro j hj
    rcases eq_or_ne j i with rfl | hne
    · simp only [hself, Function.update_self]
      by_contra hno
      rw [not_or] at hno
      have hclaim : writeLock.claims p.mem = false := by simpa using hno.1
      cases hask : writeLock.asking p with
      | true => exact (hasking hask).2.elim hno.1 hno.2
      | false =>
        rw [Lock.settle, hask, hclaim] at hj
        exact h.nodup.not_mem_erase hj
    · rw [hother j hne]
      simpa [hne] using h.claimed j ((Lock.mem_settle_of_ne hne).mp hj)

theorem Orderly.move (h : Orderly S) (hm : (turns ι).Moves writeLock i S S') : Orderly S' := by
  cases hm with
  | call op hi hmay =>
    rename_i c a
    obtain ⟨g, hwp⟩ := h.wp i
    rw [hi] at hwp
    have hmem : S.pool.mems i = c := by simp [Pool.mems, hi, Prog.mem]
    refine h.moved (Turned.wp_body hwp hmay) (fun hheld => Or.inr (h.first i ?_)) _
    rw [hmem]
    exact hheld
  | wait hi hq hnot =>
    rename_i c q k
    obtain ⟨b, rfl⟩ : ∃ b, q = .awaitLock b := by
      cases q with
      | awaitLock b => exact ⟨b, rfl⟩
      | _ => cases hq
    constructor
    case wp => exact h.wp
    case nodup =>
      rw [List.nodup_append_comm]
      exact List.nodup_cons.mpr ⟨hnot, h.nodup⟩
    case first =>
      intro j hj
      obtain ⟨rest, hrest⟩ := List.head?_eq_some_iff.mp (h.first j hj)
      simp [hrest]
    case placed => exact fun j hj hask => List.mem_append_left _ (h.placed j hj hask)
    case claimed =>
      intro j hj
      rcases List.mem_append.mp hj with hj | hj
      · exact h.claimed j hj
      · obtain rfl := List.mem_singleton.mp hj
        exact Or.inr ⟨c, b, k, hi⟩
  | answer hi r ha hfirst =>
    rename_i c q k
    obtain ⟨g, hwp⟩ := h.wp i
    rw [hi] at hwp
    have hmem : S.pool.mems i = c := by simp [Pool.mems, hi, Prog.mem]
    refine h.moved (hwp.2 r ha) (fun hheld => ?_) _
    rcases Bool.or_eq_true_iff.mp hheld with hc | hgrant
    · exact Or.inr (h.first i (hmem ▸ hc))
    · exact hfirst hgrant

theorem Orderly.plays {who : ι → Prop} (h : Orderly S) (hr : (turns ι).Plays writeLock who S S') : Orderly S' := by
  induction hr with
  | refl => exact h
  | tail _ hstep ih =>
    obtain ⟨i, -, hmove⟩ := hstep
    exact ih.move hmove

/-- A move of connection `i` puts on the stream what it has, and nothing unless it is the first in
the queue. -/
theorem Orderly.wire (h : Orderly S) (hm : (turns ι).Moves writeLock i S S') :
    ∃ o bytes, S'.pool.world = S.pool.world ++ stamp i o bytes ∧ (bytes ≠ [] → S.order.head? = some i) := by
  cases hm with
  | call op hi hmay => exact ⟨.data, [], by simp, fun hne => absurd rfl hne⟩
  | wait hi hq hnot => exact ⟨.data, [], by simp, fun hne => absurd rfl hne⟩
  | answer hi r ha hfirst =>
    rename_i c q k
    refine ⟨c.origin, delivered q r, rfl, fun hne => h.first i ?_⟩
    obtain ⟨g, hwp⟩ := h.wp i
    rw [hi] at hwp
    simpa [Pool.mems, hi, Prog.mem] using (holds_of_governed hwp.1.1).2.2 r hne

/-- Every run in which connection `i` never gives up its place. -/
def Keeping (i : ι) : Turns ι → Turns ι → Prop :=
  Relation.ReflTransGen fun S S' => (∃ j, (turns ι).Moves writeLock j S S') ∧ i ∈ S'.order

/-- What has become, in a run from `S` to `S'`, of the claims of those who were before connection
`i`: nobody else has come to stand before it, and what is new on the stream comes from them and
from it, from one after the other in the order of their claims. -/
structure Served (before : List ι) (i : ι) (S S' : Turns ι) (left behind : List ι) (new : List (Mark ι)) : Prop where
  order : S'.order = left ++ i :: behind
  kept : left.Sublist before
  world : S'.pool.world = S.pool.world ++ new
  source : ∀ m ∈ new, m.1 ∈ before ++ [i]
  sorted : (new.map fun m => (before ++ [i]).idxOf m.1).Pairwise (· ≤ ·)
  next : ∀ m ∈ new, ∀ j ∈ left ++ [i], (before ++ [i]).idxOf m.1 ≤ (before ++ [i]).idxOf j

theorem Served.move {before left behind : List ι} {new : List (Mark ι)} {S₀ : Turns ι}
    (h : Served before i S₀ S left behind new) (hS : Orderly S) (hn : (before ++ [i]).Nodup)
    (hm : (turns ι).Moves writeLock j S S') (hi : i ∈ S'.order) :
    ∃ left' behind' new', Served before i S₀ S' left' behind' new' := by
  obtain ⟨left', behind', horder, hsub⟩ := hm.ahead hS.nodup h.order hi
  obtain ⟨o, bytes, hworld, hfirst⟩ := hS.wire hm
  have hleft : (left ++ [i]).Sublist (before ++ [i]) := h.kept.append (.refl _)
  have hstill : ∀ k ∈ left' ++ [i], k ∈ left ++ [i] := (hsub.append (.refl _)).subset
  have hown : ∀ m ∈ stamp j o bytes, m.1 = j ∧ ∃ rest, left ++ [i] = j :: rest := by
    intro m hm
    obtain ⟨x, hx, rfl⟩ := List.mem_map.mp hm
    have hhead := hfirst (List.ne_nil_of_mem hx)
    rw [h.order] at hhead
    refine ⟨rfl, ?_⟩
    cases left with
    | nil => exact ⟨[], by simpa using hhead⟩
    | cons k rest => exact ⟨rest ++ [i], by simpa using hhead⟩
  have hplace : ∀ m ∈ stamp j o bytes, ∀ k ∈ left ++ [i], (before ++ [i]).idxOf m.1 ≤ (before ++ [i]).idxOf k := by
    intro m hm k hk
    obtain ⟨hmj, rest, hrest⟩ := hown m hm
    rw [hrest] at hleft hk
    rw [hmj]
    exact idxOf_le_of_sublist hn hleft hk
  refine ⟨left', behind', new ++ stamp j o bytes, horder, hsub.trans h.kept, ?_, ?_, ?_, ?_⟩
  · rw [hworld, h.world, List.append_assoc]
  · intro m hm
    rcases List.mem_append.mp hm with hm | hm
    · exact h.source m hm
    · obtain ⟨hmj, rest, hrest⟩ := hown m hm
      rw [hmj]
      exact hleft.subset (hrest ▸ List.mem_cons_self)
  · rw [List.map_append, List.pairwise_append]
    refine ⟨h.sorted, ?_, ?_⟩
    · rw [List.pairwise_map]
      refine List.Pairwise.imp_of_mem (fun {m m'} hm hm' _ => ?_) (List.pairwise_of_forall fun _ _ => trivial)
      rw [(hown m hm).1, (hown m' hm').1]
    · intro x hx y hy
      obtain ⟨m, hm, rfl⟩ := List.mem_map.mp hx
      obtain ⟨m', hm', rfl⟩ := List.mem_map.mp hy
      obtain ⟨hmj, rest, hrest⟩ := hown m' hm'
      rw [hmj]
      exact h.next m hm j (hrest ▸ List.mem_cons_self)
  · intro m hm k hk
    rcases List.mem_append.mp hm with hm | hm
    · exact h.next m hm k (hstill k hk)
    · exact hplace m hm k (hstill k hk)

/-- The lock goes from one connection to the next in the order in which they have asked for it. As
long as a connection keeps its place, the stream has only what those before it write, each in
one turn, and then what it writes itself; and as long as the first in the queue does not move, the
stream has nothing and nobody else gets the lock. -/
theorem served_in_order (h : (turns ι).Plays writeLock (fun _ => True) (Turns.init sockets) S)
    {before behind : List ι} (ho : S.order = before ++ i :: behind) :
    (∀ S', Keeping i S S' → ∃ left behind' new, Served before i S S' left behind' new) ∧
    (before = [] → ∀ S', (turns ι).Plays writeLock (· ≠ i) S S' → Keeping i S S' ∧ S'.pool.world = S.pool.world ∧
      ∀ j, (S'.pool.mems j).holds = true → j = i) := by
  have hS : Orderly S := (Orderly.init sockets).plays h
  have hn : (before ++ [i]).Nodup := by
    have hnodup := hS.nodup
    rw [ho] at hnodup
    exact hnodup.sublist ((List.Sublist.refl before).append (List.singleton_sublist.mpr List.mem_cons_self))
  constructor
  · intro S' hr
    have hboth : Orderly S' ∧ ∃ left behind' new, Served before i S S' left behind' new := by
      induction hr with
      | refl => exact ⟨hS, before, behind, [], ho, .refl _, by simp, nofun, .nil, nofun⟩
      | tail _ hstep ih =>
        obtain ⟨hT, left, behind', new, hserved⟩ := ih
        obtain ⟨⟨j, hmove⟩, hi⟩ := hstep
        exact ⟨hT.move hmove, hserved.move hT hn hmove hi⟩
    exact hboth.2
  · rintro rfl S' hr
    have hall : Orderly S' ∧ S'.order.head? = some i ∧ Keeping i S S' ∧ S'.pool.world = S.pool.world := by
      induction hr with
      | refl => exact ⟨hS, by simp [ho], .refl, rfl⟩
      | tail _ hstep ih =>
        obtain ⟨hT, hhead, hkeep, hworld⟩ := ih
        obtain ⟨j, hne, hmove⟩ := hstep
        obtain ⟨o, bytes, hnew, hfirst⟩ := hT.wire hmove
        have hhead' := hmove.head hne.symm hhead
        refine ⟨hT.move hmove, hhead', hkeep.tail ⟨⟨j, hmove⟩, List.mem_of_mem_head? hhead'⟩, ?_⟩
        obtain rfl : bytes = [] := by
          by_contra hbytes
          rw [hfirst hbytes, Option.some.injEq] at hhead
          exact hne hhead
        rw [hnew, hworld, stamp_nil, List.append_nil]
    obtain ⟨hT, hhead, hkeep, hworld⟩ := hall
    refine ⟨hkeep, hworld, fun j hj => ?_⟩
    have hjhead := hT.first j hj
    rw [hhead, Option.some.injEq] at hjhead
    exact hjhead.symm

end

/-- A handshake has five bytes out when the flush of another connection asks for the lock, and
then it has the rest out. -/
theorem served_in_order_handshake :
    ∃ (S S' : Turns Bool) (left behind : List Bool) (new : List (Mark Bool)),
      (turns Bool).Plays writeLock (fun _ => True) (Turns.init fun _ => .unspecified) S ∧
      S.order = [false] ++ true :: [] ∧ Keeping true S S' ∧ new.length = 15 ∧
      Served [false] true S S' left behind new := by
  have hrun : ∃ S S' : Turns Bool, (turns Bool).Plays writeLock (fun _ => True) (Turns.init fun _ => .unspecified) S ∧
      S.order = [false] ++ true :: [] ∧ Keeping true S S' ∧ S.pool.world.length = 5 ∧ S'.pool.world.length = 20 := by
    refine ⟨_, _, .call false .handshake trivial rfl trivial <|
      .answer false ⟨.awaitLock false, ()⟩ trivial rfl ⟨trivial, fun _ => trivial⟩ (fun _ => Or.inl rfl) <|
      .answer false ⟨.awaitWrite (frame .unspecified []), .ok 5⟩ trivial rfl
        ⟨Nat.le_of_ble_eq_true rfl, fun _ => trivial⟩ nofun <|
      .call true (.flush .noop) trivial rfl trivial <|
      .answer true ⟨.tryLock, false⟩ trivial rfl ⟨trivial, fun _ => trivial⟩ nofun <|
      .answer true ⟨.pollFut, false⟩ trivial rfl ⟨trivial, fun _ => trivial⟩ nofun .refl, rfl,
      .single ⟨⟨false, .answer (q := .awaitWrite ((frame .unspecified []).drop 5)) _ rfl (.ok 15) ?_ nofun⟩, ?_⟩,
      rfl, rfl⟩
    · exact ⟨Nat.le_of_ble_eq_true rfl, fun _ => trivial⟩
    · decide +kernel
  obtain ⟨S, S', hS, ho, hk, hlen, hlen'⟩ := hrun
  obtain ⟨left, behind, new, hserved⟩ := (served_in_order hS ho).1 S' hk
  refine ⟨S, S', left, behind, new, hS, ho, hk, ?_, hserved⟩
  have hworld := congrArg List.length hserved.world
  rw [List.length_append, hlen, hlen'] at hworld
  omega

end VtMuxer
