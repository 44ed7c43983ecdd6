import VtMuxer.Write.Lone

/-! The claims of a connection on the shared lock. A claim is a place in the queue of the mutex,
the guard in the connection's state, or what an async body waits for or holds. -/
namespace VtMuxer
open Interaction

/-- The claims in the memory of a connection. -/
def Conn.claims (c : Conn) : ℕ := c.inner.fut.toNat + c.inner.state.guarded.toNat + c.task.isSome.toNat

/-- The claims of a connection where its program stands; an awaited future is one more. -/
def claims {α : Type} : Prog WriteQuery WriteResp Conn α → ℕ
  | .ask c (.awaitLock _) _ => c.claims + 1
  | p => p.mem.claims

/-- The contract of a task that has the lock: it asks for it no more, and gives it back. -/
def carrying : Contract WriteQuery WriteResp Conn Unit where
  ok _ q r := Honest q r
  upd _ _ _ g := g
  start _ g := g
  inv c q _ := (∃ bytes, q = .awaitWrite bytes) ∧ c.task ≠ none ∧ c.claims = 1
  fault _ _ := False

def Carries (p : Prog WriteQuery WriteResp Conn Unit) : Prop := p.wp carrying (fun c _ _ => c.claims = 0) ()

/-- What `drop` does with the claim that it finds. A queued future, or a new one, is awaited by
the task, which has no other claim; a guard goes to the task, unless the counter is past the end
of the frame and `drop` panics; a shutdown leaves no task. -/
def HandsOver (c : Conn) : Prop :=
  match c.inner.state with
  | .writing _ .buffering => ∃ c' k, VtMuxer.drop c = .ask c' (.awaitLock c.inner.fut) k ∧ c'.claims = 0 ∧
      ∀ r, Carries (k r)
  | .writing _ (.flushing w) =>
      (∃ c' bytes k, VtMuxer.drop c = .ask c' (.awaitWrite bytes) k ∧ Carries (VtMuxer.drop c)) ∨
      c.frameLen < w ∧ ∃ c', VtMuxer.drop c = .fault c' .panic ∧ c'.claims = 0
  | _ => ∃ c', VtMuxer.drop c = .ret c' () ∧ c'.claims = 0

section
variable {c : Conn} {prompt : Bool}

theorem Trim.claims_eq (h : Trim prompt c) : c.claims = c.inner.fut.toNat + c.inner.state.guarded.toNat := by
  simp [Conn.claims, h.task]

theorem Trim.claims_le (h : Trim prompt c) : c.claims ≤ 1 := by
  rw [h.claims_eq]
  cases hg : c.inner.state.guarded with
  | false => exact Bool.toNat_le _
  | true =>
    rw [h.fut_eq_false (WritePipeState.unlocked_of_guarded hg)]
    exact le_rfl

theorem Bare.claims_eq (h : Bare c) : c.claims = c.task.isSome.toNat := by
  simp [Conn.claims, h.fut, h.guarded]

theorem claims_le_of_wp {p : Prog WriteQuery WriteResp Conn Outcome} {g : Unit}
    (h : p.wp (governed prompt) (fun c a _ => Remains prompt c a) g) : claims p ≤ 1 := by
  cases p with
  | ret c a =>
    by_cases ha : a = .dropped
    · subst ha
      have hc := h.1.claims_eq
      rw [h.2] at hc
      exact hc.le.trans (by decide)
    · exact (Remains.trim h ha).claims_le
  | ask c q k =>
    obtain ⟨hinv, -⟩ := h
    cases q with
    | tryLock => exact hinv.1.claims_le
    | pollFut => exact hinv.1.claims_le
    | write bytes => exact hinv.1.claims_le
    | flush =>
      have hc : c.claims = 1 := by simp [Conn.claims, hinv.fut, hinv.guarded, hinv.task]
      exact hc.le
    | awaitLock queued =>
      have hc := hinv.1.claims_eq
      rw [hinv.2] at hc
      exact Nat.succ_le_succ hc.le
    | awaitWrite bytes => exact hinv.1.claims_eq.le.trans (Bool.toNat_le _)
  | fault c e =>
    have hc : c.claims = c.inner.state.guarded.toNat := by simp [Conn.claims, h.2.2.1, h.2.2.2]
    exact hc.le.trans (Bool.toNat_le _)

theorem Bare.carries_writeAll {post : Conn → Except IoError Unit → Unit → Prop} {o : Origin} {g : Unit} (h : Bare c)
    (hok : ∀ g', post (c.setTask (some (o, []))) (.ok ()) g')
    (herr : ∀ rest e g', post (c.setTask (some (o, rest))) (.error e) g') (bytes : List UInt8) :
    (writeAll o bytes c).wp carrying post g := by
  have hrule : WriteAllRule carrying (fun _ _ => True) c o bytes post := by
    constructor
    case ask => exact fun w _ _ _ => ⟨⟨_, rfl⟩, by simp, (h.setTask _).claims_eq⟩
    case honest => exact fun _ _ _ hok => hok
    case step => exact fun _ _ _ _ _ _ => trivial
    case zero => exact fun w _ _ _ => herr _ _ _
    case error => exact fun w _ _ _ _ => herr _ _ _
    case finish => exact fun _ _ => hok _
  simpa using hrule.wp_writeAll (w := 0) (g := g) trivial (Nat.zero_le _)

theorem Bare.carries_sendEof (h : Bare c) (a : SocketAddr) : Carries (sendEof a c) := by
  simp only [Carries, sendEof, Proc.bind_apply, Prog.wp_bind]
  apply h.carries_writeAll
  · exact fun g' => (h.setTask none).claims_eq
  · exact fun rest e g' => (h.setTask none).claims_eq

theorem asks_writeAll (o : Origin) {bytes : List UInt8} (hne : bytes ≠ []) (c : Conn) :
    ∃ c' k, writeAll o bytes c = .ask c' (.awaitWrite bytes) k := by
  obtain ⟨b, bs, rfl⟩ := List.exists_cons_of_ne_nil hne
  exact ⟨_, _, rfl⟩

theorem asks_sendEof (a : SocketAddr) (c : Conn) : ∃ c' bytes k, sendEof a c = .ask c' (.awaitWrite bytes) k := by
  have hne : (MuxFrameHeader.empty a).bytes ≠ [] := by
    rw [← frame_nil]
    exact frame_ne_nil _ _
  obtain ⟨c', k, hw⟩ := asks_writeAll .eof hne c
  simp only [sendEof, Proc.bind_apply, hw, Prog.bind_ask]
  exact ⟨_, _, _, rfl⟩

theorem Bare.carries_afterRest (h : Bare c) (a : SocketAddr) (rest : List UInt8) :
    Carries ((writeAll .data rest c).bind fun s r => afterRest a r s) := by
  unfold Carries
  rw [Prog.wp_bind]
  apply h.carries_writeAll
  · exact fun g' => (h.setTask _).carries_sendEof a
  · exact fun rest e g' => (h.setTask none).claims_eq

theorem asks_afterRest (a : SocketAddr) (rest : List UInt8) (c : Conn) :
    ∃ c' bytes k, ((writeAll .data rest c).bind fun s r => afterRest a r s) = .ask c' (.awaitWrite bytes) k := by
  by_cases hne : rest = []
  · subst hne
    exact asks_sendEof a (c.setTask (some (.data, [])))
  · obtain ⟨c', k, hw⟩ := asks_writeAll .data hne c
    rw [hw]
    exact ⟨_, _, _, rfl⟩

/-- A drop hands over the claim that it finds, or gives it up. -/
theorem Trim.handsOver (h : Trim prompt c) : HandsOver c := by
  have hbare : Bare (c.retire.setFut false) := ⟨rfl, rfl, fun hl => by simp at hl⟩
  have hnone : (c.retire.setFut false).claims = 0 := by simp [hbare.claims_eq, h.task]
  unfold HandsOver
  rcases hs : c.inner.state with _ | st | ⟨k, _ | _ | w⟩
  · exact absurd hs h.sound
  · exact ⟨_, drop_shutdown hs, hnone⟩
  · exact ⟨_, _, drop_buffering hs, hnone, fun _ => hbare.carries_sendEof c.addr⟩
  · left
    rw [drop_unbegun hs]
    obtain ⟨c', bytes, k', hask⟩ := asks_sendEof c.addr (c.retire.setFut false)
    exact ⟨c', bytes, k', hask, hbare.carries_sendEof c.addr⟩
  · have hfut : c.inner.fut = false := h.fut_eq_false (by rw [hs]; rfl)
    cases hfrom : c.inner.buffer.bytesFrom? (w + 1) with
    | none =>
      right
      refine ⟨?_, _, drop_overrun hs hfrom, ?_⟩
      · by_contra hle
        have hsome := PacketBuffer.bytesFrom?_eq_some.mpr ⟨not_lt.mp hle, rfl⟩
        rw [hsome] at hfrom
        cases hfrom
      · simp [Conn.claims, hfut, h.task, WritePipeState.guarded]
    | some rest =>
      left
      rw [drop_begun hs hfrom]
      obtain ⟨c', bytes, k', hask⟩ := asks_afterRest c.addr rest (c.retire.setFut false)
      exact ⟨c', bytes, k', hask, hbare.carries_afterRest c.addr rest⟩

theorem Trim.unlocked (h : Trim prompt c) (hf : c.inner.fut = true) :
    (∃ k, c.inner.state = .writing k .buffering) ∨ c.inner.state = .shutdown .waitingLock := by
  have hu := h.queued hf
  unfold WritePipeState.unlocked at hu
  split at hu
  case h_1 k hs => exact Or.inl ⟨k, hs⟩
  case h_2 hs => exact Or.inr hs
  case h_3 => cases hu

end

/-- A connection never has more than one claim on the lock. Between calls a queued future belongs to
a connection that is buffering or waits for the lock to shut down, and a guard to one that is flushing
or shutting down; they are never together, and a shutdown that is over has neither. A drop hands the
claim that it finds to its task, which makes no other, or gives it up. -/
theorem Lone.one_claim {prompt : Bool} {socket : SocketAddr} {P : Lone}
    (h : (lone prompt).Reaches (Lone.init socket) P) :
    claims (P.threads ()) ≤ 1 ∧ ∀ c a, P.threads () = .ret c a →
      (c.inner.fut = true →
        (∃ k, c.inner.state = .writing k .buffering) ∨ c.inner.state = .shutdown .waitingLock) ∧
      (c.holds = true → (∃ k w, c.inner.state = .writing k (.flushing w)) ∨
        (∃ w, c.inner.state = .shutdown (.flushing w)) ∨ ∃ w, c.inner.state = .shutdown (.writing w)) ∧
      ¬ (c.inner.fut = true ∧ c.holds = true) ∧
      (c.inner.state = .shutdown .done ∨ c.inner.state = .shutdown .error →
        c.inner.fut = false ∧ c.holds = false) ∧
      (a = .dropped → c.claims = 0) ∧ (a ≠ .dropped → HandsOver c) := by
  have hwp := wp_of_reaches h
  refine ⟨claims_le_of_wp hwp, ?_⟩
  intro c a hp
  rw [hp] at hwp
  by_cases ha : a = .dropped
  · subst ha
    obtain ⟨hb, ht⟩ := hwp
    have hn : c.holds = false := by simp [Conn.holds, ht, hb.guarded]
    have hc : c.claims = 0 := by simp [hb.claims_eq, ht]
    simp [hb.fut, hn, hc]
  · have ht : Trim prompt c := Remains.trim hwp ha
    have hh : c.holds = c.inner.state.guarded := by simp [Conn.holds, ht.task]
    rw [hh]
    refine ⟨ht.unlocked, WritePipeState.guarded_cases, ?_, ?_, fun hd => absurd hd ha, fun _ => ht.handsOver⟩
    · rintro ⟨hf, hg⟩
      rw [ht.fut_eq_false (WritePipeState.unlocked_of_guarded hg)] at hf
      cases hf
    · rintro (hs | hs)
      · exact ⟨ht.fut_eq_false (by rw [hs]; rfl), by rw [hs]; rfl⟩
      · exact ⟨ht.fut_eq_false (by rw [hs]; rfl), by rw [hs]; rfl⟩

/-- A flush is refused the lock and stays in the queue. -/
theorem Lone.one_claim_queued :
    ∃ (P : Lone) (c : Conn), (lone false).Reaches (Lone.init .unspecified) P ∧
      P.threads () = .ret c (.flush .pending) ∧ c.inner.fut = true ∧ c.claims = 1 ∧
      claims (P.threads ()) ≤ 1 ∧ HandsOver c := by
  have hrun : ∃ (P : Lone) (c : Conn), (lone false).Reaches (Lone.init .unspecified) P ∧
      P.threads () = .ret c (.flush .pending) ∧ c.inner.fut = true ∧ c.claims = 1 := by
    refine ⟨_, _, .call () (.write .noop [1]) rfl trivial <|
      .call () (.flush .noop) rfl (by simp [lone, Outcome.may]) <|
      .answer () ⟨.tryLock, false⟩ rfl ⟨trivial, by simp⟩ <|
      .answer () ⟨.pollFut, false⟩ rfl ⟨trivial, by simp⟩ .refl, rfl, rfl, rfl⟩
  obtain ⟨P, c, hP, hp, hf, hc⟩ := hrun
  obtain ⟨hle, hret⟩ := Lone.one_claim hP
  exact ⟨P, c, hP, hp, hf, hc, hle, (hret c _ hp).2.2.2.2.2 (by simp)⟩

end VtMuxer
