import VtMuxer.Read.Asking

/-! The stream breaks for all connections at once, but only the task that finds out and the
reader of the payload that was cut learn of it. -/
namespace VtMuxer

namespace SharedReader

/-- A turn with these answers moves the shared reader to its error state. -/
def Fatal (s : SharedReader) (t : Tick) : Prop :=
  match s.state, t.read with
  | .read owner left, .ready (.ok bs) =>
    match s.upgrade owner with
    | none => Cut bs.length left
    | some id =>
      (s.entries id).buffer.room ≠ 0 ∧ Cut (bs.take (s.entries id).buffer.room).length left
  | .nextPacket header, .ready (.ok bs) => bs = [] ∨ 20 < filledBy header bs
  | _, _ => False

def payloadWaker (s : SharedReader) : Option Waker :=
  match s.state with
  | .read owner _ => (s.upgrade owner).map fun id => (s.entries id).readerPipeWaker
  | _ => none

section
variable {cx : Waker} {t : Tick} {s s' : SharedReader}

theorem payloadLeft_ne_error (owner : SocketAddr) (n : ℕ) : payloadLeft owner n ≠ .error := by
  unfold payloadLeft
  split <;> simp

theorem ne_error_of_reads (h : s.Reads) : s.state ≠ .error := by
  intro he
  simp [Reads, he] at h

theorem Turn.state_ne_error {r : Poll (Except IoError Unit)} (h : Turn cx t s r s')
    (hr : ∀ e, r ≠ .ready (.error e)) : s'.state ≠ .error := by
  have hleft : ∀ owner n (s₁ : SharedReader), (s₁.setState (payloadLeft owner n)).state ≠ .error :=
    fun owner n _ => payloadLeft_ne_error owner n
  have hne : ∀ (s₁ : SharedReader) (st : SharedReaderState), st ≠ .error → (s₁.setState st).state ≠ .error :=
    fun _ _ hst => hst
  cases h with
  | parked hreads => exact ne_error_of_reads hreads
  | full hs =>
    intro he
    cases hs.symm.trans he
  | short => exact hne _ _ (by simp)
  | sending => simp [emit, setState]
  | failed _ => exact absurd rfl (hr _)
  | broken _ => exact absurd rfl (hr _)
  | discardCut => exact absurd rfl (hr _)
  | fillCut => exact absurd rfl (hr _)
  | headerCut => exact absurd rfl (hr _)
  | noMemory => exact absurd rfl (hr _)
  | discard => exact hleft _ _ _
  | fill => exact hleft _ _ _
  | payload => exact hne _ _ (by simp)
  | close => exact hne _ _ (by simp)
  | ignore => exact hne _ _ (by simp)
  | opening => simp [emit, setState]
  | sent => exact hne _ _ (by simp)
  | unsent => exact hne _ _ (by simp)

theorem Turn.fatal {e : IoError} (h : Turn cx t s (.ready (.error e)) s') (he : s'.state = .error) :
    s.state = .error ∨ s.Fatal t := by
  cases h with
  | failed => exact Or.inl he
  | broken => exact Or.inl he
  | discardCut hs hu hr hb => exact Or.inr (by simpa only [Fatal, hs, hr, hu] using hb)
  | fillCut hs hu hroom hr hb => exact Or.inr (by simpa only [Fatal, hs, hr, hu] using ⟨hroom, hb⟩)
  | headerCut hs hr hb => exact Or.inr (by simpa only [Fatal, hs, hr] using hb)
  | noMemory => exact Or.inl he

theorem finishRead_of_cut {owner : SocketAddr} {left n : ℕ} (h : Cut n left) :
    ∃ e, s.finishRead owner left n = (.ready (.error e), s.setState .error) := by
  obtain ⟨-, h⟩ | ⟨h0, hle, heq⟩ := s.finishRead_eq owner left n
  · exact h
  · have hbig : ¬ n < 65536 := fun hlt => h.elim h0 fun hno => hno ⟨hlt, hle⟩
    unfold finishRead
    rw [if_neg h0, if_neg fun hfit => hbig hfit.1]
    exact ⟨_, rfl⟩

theorem Fatal.cases (h : s.Fatal t) : ∃ bs, t.read = .ready (.ok bs) ∧
    ((∃ owner left, s.state = .read owner left ∧ s.upgrade owner = none ∧ Cut bs.length left) ∨
      (∃ owner left id, s.state = .read owner left ∧ s.upgrade owner = some id ∧
        (s.entries id).buffer.room ≠ 0 ∧ Cut (bs.take (s.entries id).buffer.room).length left) ∨
      ∃ header, s.state = .nextPacket header ∧ (bs = [] ∨ 20 < filledBy header bs)) := by
  unfold Fatal at h
  split at h
  · rename_i owner left bs hs hr
    refine ⟨bs, hr, ?_⟩
    split at h
    · rename_i hu
      exact Or.inl ⟨owner, left, hs, hu, h⟩
    · rename_i id hu
      exact Or.inr (Or.inl ⟨owner, left, id, hs, hu, h⟩)
  · rename_i header bs hs hr
    exact ⟨bs, hr, Or.inr (Or.inr ⟨header, hs, h⟩)⟩
  · exact h.elim

/-- The turn that breaks the reader wakes the reader of the payload, and nobody else. -/
theorem Fatal.poll (h : s.Fatal t) (cx : Waker) :
    ∃ e s', s.pollOnce cx t = (.ready (.error e), s') ∧ s'.state = .error ∧
      (∀ w, .wake w ∈ s.news s' ↔ s.payloadWaker = some w) ∧ ∀ k, s'.handsOn k true = s.handsOn k true := by
  obtain ⟨bs, hr, ⟨owner, left, hs, hu, hcut⟩ | ⟨owner, left, id, hs, hu, hroom, hcut⟩ | ⟨header, hs, hcut⟩⟩ := h.cases
  · obtain ⟨e, he⟩ : ∃ e, (s.consume bs).finishRead owner left bs.length = (.ready (.error e), _) :=
      finishRead_of_cut hcut
    have hp : s.pollOnce cx t = (s.consume bs).finishRead owner left bs.length := by
      simp [pollOnce, hs, pollRead, hu, hr]
    refine ⟨e, _, hp.trans he, rfl, fun w => ?_, fun _ => rfl⟩
    simp [payloadWaker, hs, hu, news, setState, consume]
  · obtain ⟨e, he⟩ : ∃ e, (s.fill id bs).finishRead owner left (bs.take (s.entries id).buffer.room).length =
      (.ready (.error e), _) := finishRead_of_cut hcut
    have hfill : (s.entries id).buffer.fillBuffer t.read =
        (.ready (.ok (some (bs.take (s.entries id).buffer.room).length)), (s.entries id).buffer.fill bs) := by
      simp [ReadBuffer.fillBuffer, hroom, hr]
    have hp : s.pollOnce cx t =
        (s.fill id bs).finishRead owner left (bs.take (s.entries id).buffer.room).length := by
      simp only [pollOnce, hs, pollRead, hu, hfill]
      rw [hr]
      rfl
    refine ⟨e, _, hp.trans he, rfl, fun w => ?_, fun _ => rfl⟩
    simp [payloadWaker, hs, hu, news, setState, SharedReader.fill, wake, emit, deliver, setEntry, consume, eq_comm]
  · obtain ⟨e, he⟩ : ∃ e, s.pollNextPacket cx t header = (.ready (.error e), (s.consume bs).setState .error) := by
      unfold pollNextPacket
      rw [hr]
      dsimp only
      rcases hcut with rfl | hgt
      · exact ⟨_, rfl⟩
      by_cases h0 : bs.length = 0
      · rw [if_pos h0]
        exact ⟨_, rfl⟩
      · have hgt' : MuxFrameHeader.size < (header.length + bs.length % 256) % 256 := hgt
        rw [if_neg h0, compare_gt_iff_gt.mpr hgt']
        exact ⟨_, rfl⟩
    have hp : s.pollOnce cx t = s.pollNextPacket cx t header := by simp only [pollOnce, hs]
    refine ⟨e, _, hp.trans he, rfl, fun w => ?_, fun _ => rfl⟩
    simp [payloadWaker, hs, news, setState, consume]

end

end SharedReader

namespace Runtime

/-- Who is told when the reader breaks: the reader of the payload that is cut, and whoever is next in
line when an accept fails that was woken for a socket. -/
def Tells (S : Runtime) (u : ℕ) : Prop :=
  S.shared.payloadWaker = some (.task u) ∨ ∃ k, S.active = some (.accept k) ∧ .task u ∈ S.shared.handsOn k true

/-- Nobody else sleeps when the reader breaks. -/
def Alone (S : Runtime) : Act → Prop
  | .once t => S.shared.Fatal t → ∀ u, S.Parked u → S.Tells u
  | _ => True

/-- Nobody sleeps on a broken reader. -/
def Informed (S : Runtime) : Prop := S.shared.state = .error → ∀ u, ¬ S.Parked u

section
variable {S : Runtime} {a : Act}

theorem mem_news_finish {s s' : SharedReader} {w : Waker} (hlog : ∃ new, s'.log = s.log ++ new) (x : Target) :
    .wake w ∈ s.news (s'.finish x) ↔ .wake w ∈ s.news s' ∨ ∃ k, x = .accept k ∧ w ∈ s'.handsOn k true := by
  obtain ⟨new, hnew⟩ := hlog
  obtain ⟨new', hnew', -⟩ := finish_log x s'
  rw [← SharedReader.finish_news, news_eq hnew, news_eq hnew', news_eq (by rw [hnew', hnew, List.append_assoc]),
    List.mem_append]

/-- A turn that breaks the reader wakes whom it tells. -/
theorem once_fatal {t : ℕ} {x : Target} {tick : Tick} (hx : S.active = some x) (ho : S.ops x = some ⟨t, .running⟩)
    (hf : S.shared.Fatal tick) : (S.once t x tick).shared.state = .error ∧
      ∀ y u, (S.once t x tick).ops y = some ⟨u, .waiting⟩ ↔ S.ops y = some ⟨u, .waiting⟩ ∧ ¬ S.Tells u := by
  obtain ⟨e, s', hp, hst, hwake, hhands⟩ := hf.poll (.task t)
  have hturn := S.shared.pollOnce_turn (.task t) tick
  rw [hp] at hturn
  have honce : S.once t x tick = S.turn t x none (s'.finish x) := by
    unfold Runtime.once
    rw [hp]
  rw [honce]
  refine ⟨(s'.finish_state x).trans hst, fun y u => ?_⟩
  have htells : .wake (.task u) ∈ S.shared.news (s'.finish x) ↔ S.Tells u := by
    obtain ⟨new, hnew, -⟩ := hturn.log_error
    rw [mem_news_finish ⟨new, hnew⟩, hwake]
    simp [Tells, hx, hhands]
  have hops : (S.turn t x none (s'.finish x)).ops y =
      Function.update (alert (S.shared.news (s'.finish x)) S.ops) x none y := rfl
  rw [hops, ← htells]
  rcases eq_or_ne y x with rfl | hne
  · simp [ho]
  · rw [Function.update_of_ne hne, alert_waiting]

theorem Informed.once {t : ℕ} {x : Target} {tick : Tick} (hi : S.Informed) (hx : S.active = some x)
    (ho : S.ops x = some ⟨t, .running⟩) (ha : S.Alone (.once tick)) : (S.once t x tick).Informed := by
  have hturn := S.shared.pollOnce_turn (.task t) tick
  rcases hp : S.shared.pollOnce (.task t) tick with ⟨r, s'⟩
  rw [hp] at hturn
  have hstate : (S.once t x tick).shared.state = s'.state := by rw [once_state, hp]
  intro he
  rw [hstate] at he
  have hbroken : S.shared.state = .error ∨ S.shared.Fatal tick := by
    cases r with
    | pending => exact absurd he (hturn.state_ne_error (by simp))
    | ready res =>
      cases res with
      | ok v => exact absurd he (hturn.state_ne_error (by simp))
      | error err => exact hturn.fatal he
  rintro u ⟨y, hy⟩
  rcases hbroken with hbefore | hf
  · have honce : S.once t x tick = S.turn t x none (S.shared.finish x) := by
      unfold Runtime.once
      simp [SharedReader.pollOnce, hbefore]
    rw [honce] at hy
    rcases eq_or_ne y x with rfl | hne
    · simp [Runtime.turn] at hy
    · have hold : alert (S.shared.news (S.shared.finish x)) S.ops y = some ⟨u, .waiting⟩ := by
        simpa [Runtime.turn, hne] using hy
      exact hi hbefore u ⟨y, (alert_waiting.mp hold).1⟩
  · obtain ⟨hold, hno⟩ := ((once_fatal hx ho hf).2 y u).mp hy
    exact hno (ha hf u ⟨y, hold⟩)

theorem Informed.act (hi : S.Informed) (hen : S.Enabled a) (ha : S.Alone a) : (S.act a).Informed := by
  have hother : ∀ s' : SharedReader, s'.state = S.shared.state → (S.other s').Informed := by
    rintro s' hst he u ⟨y, hy⟩
    exact hi (hst.symm.trans he) u ⟨y, (alert_waiting.mp hy).1⟩
  cases a with
  | read t id n =>
    rintro he u ⟨y, hy⟩
    obtain ⟨-, -, hold, -⟩ := enter_waiting.mp hy
    exact hi ((S.shared.readEntry_state (.task t) id n).symm.trans he) u ⟨y, hold⟩
  | accept t k =>
    rintro he u ⟨y, hy⟩
    obtain ⟨-, -, hold, -⟩ := enter_waiting.mp hy
    exact hi ((S.shared.recvEntry_rest k _ (.task t)).2.2.symm.trans he) u ⟨y, hold⟩
  | lock x => exact hi
  | once tick =>
    obtain ⟨x, t, hx, ho⟩ := hen
    have hact : S.act (.once tick) = S.once t x tick := by simp [Runtime.act, hx, ho]
    rw [hact]
    exact hi.once hx ho ha
  | arrive =>
    unfold Runtime.act
    dsimp only
    split
    · exact hi
    · exact hother _ rfl
  | room =>
    unfold Runtime.act
    dsimp only
    split
    · exact hi
    · exact hother _ rfl
  | cancel x =>
    rintro he u ⟨y, hy⟩
    have hst : S.shared.state = .error := (S.shared.finish_state x).symm.trans he
    rcases eq_or_ne y x with rfl | hne
    · simp [Runtime.act] at hy
    · have hold : (S.other (S.shared.finish x)).ops y = some ⟨u, .waiting⟩ := by simpa [Runtime.act, hne] using hy
      exact hi hst u ⟨y, (alert_waiting.mp hold).1⟩
  | dropReader id => exact hother _ rfl
  | add addr alloc => exact hother _ (S.shared.insert_state addr .noop .held alloc)
  | disconnect => exact hother _ rfl

end

end Runtime

end VtMuxer
