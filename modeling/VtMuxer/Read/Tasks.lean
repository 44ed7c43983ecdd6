import VtMuxer.Read.Coherent

/-! Tasks that read from connections of one shared reader or accept on its listener. A task
runs an operation until it is finished or has to wait; then it is idle until its waker is
invoked. -/
namespace VtMuxer

/-- What a future is about: a read on an entry, or the receive of an `accept`. -/
inductive Target where
  | read (id : ℕ)
  | accept (k : ℕ)
  deriving DecidableEq, Repr

/-- An operation is being polled, or its last poll returned `Pending`; then the task sleeps
or has been woken since. -/
inductive Status where
  | running
  | waiting
  | woken
  deriving DecidableEq, Repr

/-- An unfinished operation and the task it belongs to. -/
structure Op where
  task : ℕ
  status : Status
  deriving DecidableEq, Repr

/-- `busy` are the tasks inside a poll and `active` is the operation that holds the lock of
the shared reader; `last` is how the last turn of the poll loop ended and `poller` the task
that made it. -/
structure Runtime where
  shared : SharedReader
  ops : Target → Option Op
  busy : List ℕ
  active : Option Target
  last : Option Event
  poller : Option ℕ

inductive Act where
  /-- `ReaderInner::poll_read` into a slice of `n` bytes, up to the shared lock. -/
  | read (task id n : ℕ)
  /-- A poll of `accept`, up to the shared lock. -/
  | accept (task k : ℕ)
  | lock (x : Target)
  /-- One turn of the poll loop. -/
  | once (t : Tick)
  /-- The stream is ready and wakes whom it knows. -/
  | arrive
  /-- The channel to the listener has room and wakes whom it knows. -/
  | room
  /-- The future of an operation is dropped. -/
  | cancel (x : Target)
  | dropReader (id : ℕ)
  | add (addr : SocketAddr) (alloc : Bool)
  | disconnect
  deriving DecidableEq, Repr

def Event.sending : Event → Option Waker
  | sendPending w => some w
  | _ => none

def Op.wake (o : Op) : Op := if o.status = .waiting then { o with status := .woken } else o

def SharedReader.news (s s' : SharedReader) : List Event := s'.log.drop s.log.length

/-- The waker that a send future keeps while it waits. -/
def SharedReader.sender (s : SharedReader) : Option Waker :=
  match s.state with
  | .sendSocket _ _ true => (s.log.filterMap Event.sending).getLast?
  | _ => none

def SharedReader.finish (x : Target) (s : SharedReader) : SharedReader :=
  match x with
  | .read _ => s
  | .accept k => s.dropReceiver k true

namespace SharedReader

theorem readEntry_news (cx w : Waker) (id n : ℕ) (s : SharedReader) :
    .wake w ∈ s.news (s.readEntry cx id n).2 ↔
      n ≠ 0 ∧ (s.entries id).buffer.bytes ≠ [] ∧ w = (s.entries id).waitingWaker := by
  unfold readEntry
  dsimp only
  rw [ReadBuffer.read_fst]
  by_cases hn : n = 0
  · simp [hn, news]
  by_cases hb : (s.entries id).buffer.bytes = []
  · by_cases hw : (s.entries id).weak = 0
    · simp [hn, hb, hw, news, emit]
    · simp [hn, hb, hw, news, setEntry]
  · simp [hn, hb, news, wake, emit, setEntry]

theorem readEntry_state (cx : Waker) (id n : ℕ) (s : SharedReader) :
    (s.readEntry cx id n).2.state = s.state := (s.readEntry_rest cx id n).2.2

theorem finish_state (x : Target) (s : SharedReader) : (s.finish x).state = s.state := by
  unfold finish
  split
  · rfl
  · exact (s.dropReceiver_rest _ true).2.2

theorem insert_state (addr : SocketAddr) (cx : Waker) (handle : Handle) (alloc : Bool) (s : SharedReader) :
    (s.insert addr cx handle alloc).2.state = s.state := by
  unfold insert
  split
  · rfl
  · split <;> rfl

end SharedReader

namespace Runtime

/-- The tasks that the events wake. -/
def alert (new : List Event) (ops : Target → Option Op) (x : Target) : Option Op :=
  (ops x).map fun o => if .wake (.task o.task) ∈ new then o.wake else o

def rouse (t : ℕ) (ops : Target → Option Op) (x : Target) : Option Op :=
  (ops x).map fun o => if o.task = t then o.wake else o

/-- The task `t` polls `x`: with a result it is finished, without one it goes on to the
shared reader. -/
def enter (t : ℕ) (x : Target) (done : Bool) (s : SharedReader) (S : Runtime) : Runtime :=
  { S with
    shared := s
    ops := Function.update (alert (S.shared.news s) (rouse t S.ops)) x
      (if done then none else some ⟨t, .running⟩)
    busy := if done then S.busy else t :: S.busy }

/-- The turn of `x` ends with the shared reader at `s`; `op` is what becomes of `x`. -/
def turn (t : ℕ) (x : Target) (op : Option Op) (s : SharedReader) (S : Runtime) : Runtime where
  shared := s
  ops := Function.update (alert (S.shared.news s) S.ops) x op
  busy := if op = some ⟨t, .running⟩ then S.busy else S.busy.erase t
  active := if op = some ⟨t, .running⟩ then some x else none
  last := (S.shared.news s).getLast?
  poller := some t

def once (t : ℕ) (x : Target) (tick : Tick) (S : Runtime) : Runtime :=
  match S.shared.pollOnce (.task t) tick with
  | (.pending, s) => S.turn t x (some ⟨t, .waiting⟩) s
  | (.ready (.error _), s) => S.turn t x none (s.finish x)
  | (.ready (.ok ()), s) =>
    match tick.coop with
    | .pending => S.turn t x (some ⟨t, .woken⟩) (s.emit (.coopPending (.task t)))
    | .ready () => S.turn t x (some ⟨t, .running⟩) s

def other (s : SharedReader) (S : Runtime) : Runtime :=
  { S with shared := s, ops := alert (S.shared.news s) S.ops }

def act (S : Runtime) : Act → Runtime
  | .read t id n =>
    S.enter t (.read id) (S.shared.readEntry (.task t) id n).1.isSome (S.shared.readEntry (.task t) id n).2
  | .accept t k =>
    let hooked := (S.ops (.accept k)).isSome
    S.enter t (.accept k) (S.shared.recvEntry k hooked (.task t)).1.isSome
      (S.shared.recvEntry k hooked (.task t)).2
  | .lock x => { S with active := some x }
  | .once tick =>
    match S.active with
    | none => S
    | some x =>
      match S.ops x with
      | none => S
      | some o => S.once o.task x tick
  | .arrive =>
    match S.shared.tcp with
    | none => S
    | some w => S.other (S.shared.wake w)
  | .room =>
    match S.shared.sender with
    | none => S
    | some w => S.other (S.shared.wake w)
  | .cancel x =>
    let S' := S.other (S.shared.finish x)
    { S' with ops := Function.update S'.ops x none }
  | .dropReader id => S.other (S.shared.release id)
  | .add addr alloc => S.other (S.shared.insert addr .noop .held alloc).2
  | .disconnect => S.other S.shared.disconnect

/-- A task polls one thing at a time, and an operation belongs to one task. -/
def MayPoll (S : Runtime) (t : ℕ) (x : Target) : Prop :=
  t ∉ S.busy ∧ ∀ o, S.ops x = some o → o.task = t

/-- What can be done: a reader is held while it is read, a future is dropped between two
polls, and a reader or listener that futures borrow is not dropped. -/
def Enabled (S : Runtime) : Act → Prop
  | .read t id _ => (S.shared.entries id).handle = .held ∧ S.MayPoll t (.read id)
  | .accept t k => S.shared.connected = true ∧ S.MayPoll t (.accept k)
  | .lock x => S.active = none ∧ ∃ t, S.ops x = some ⟨t, .running⟩
  | .once _ => ∃ x t, S.active = some x ∧ S.ops x = some ⟨t, .running⟩
  | .arrive => True
  | .room => True
  | .cancel x => ∃ o, S.ops x = some o ∧ o.status ≠ .running
  | .dropReader id => (S.shared.entries id).handle = .held ∧ S.ops (.read id) = none
  | .add _ _ => S.active = none
  | .disconnect => ∀ k, S.ops (.accept k) = none

def Step (ok : Runtime → Act → Prop) (S S' : Runtime) : Prop := ∃ a, S.Enabled a ∧ ok S a ∧ S' = S.act a

def Runs (ok : Runtime → Act → Prop) : Runtime → Runtime → Prop := Relation.ReflTransGen (Step ok)

theorem Runs.act {ok : Runtime → Act → Prop} {S₀ S : Runtime} (h : Runs ok S₀ S) (a : Act) (he : S.Enabled a)
    (hok : ok S a) : Runs ok S₀ (S.act a) :=
  h.tail ⟨a, he, hok, rfl⟩

def init (connected : Bool) : Runtime where
  shared := .init connected
  ops _ := none
  busy := []
  active := none
  last := none
  poller := none

/-- The task sleeps: its last poll returned `Pending` and its waker was not invoked since. -/
def Parked (S : Runtime) (t : ℕ) : Prop := ∃ x, S.ops x = some ⟨t, .waiting⟩

def Unfinished (S : Runtime) (t : ℕ) : Prop := ∃ x o, S.ops x = some o ∧ o.task = t

section
variable {new : List Event} {ops : Target → Option Op} {x : Target} {t u : ℕ}

theorem wake_task (o : Op) : o.wake.task = o.task := by
  unfold Op.wake
  split <;> rfl

theorem wake_ne_waiting (o : Op) : o.wake.status ≠ .waiting := by
  unfold Op.wake
  split
  · simp
  · assumption

theorem alert_task : (∃ o, alert new ops x = some o ∧ o.task = t) ↔ ∃ o, ops x = some o ∧ o.task = t := by
  unfold alert
  cases h : ops x with
  | none => simp
  | some o =>
    by_cases hw : Event.wake (.task o.task) ∈ new
    · simp [hw, wake_task]
    · simp [hw]

theorem rouse_task : (∃ o, rouse u ops x = some o ∧ o.task = t) ↔ ∃ o, ops x = some o ∧ o.task = t := by
  unfold rouse
  cases h : ops x with
  | none => simp
  | some o =>
    by_cases hu : o.task = u
    · simp [hu, wake_task]
    · simp [hu]

/-- Who still sleeps slept before and was not woken. -/
theorem alert_waiting :
    alert new ops x = some ⟨u, .waiting⟩ ↔ ops x = some ⟨u, .waiting⟩ ∧ .wake (.task u) ∉ new := by
  constructor
  · intro h
    unfold alert at h
    obtain ⟨o, ho, heq⟩ := Option.map_eq_some_iff.mp h
    by_cases hw : Event.wake (.task o.task) ∈ new
    · rw [if_pos hw] at heq
      exact absurd (congrArg Op.status heq) (wake_ne_waiting o)
    · rw [if_neg hw] at heq
      subst heq
      exact ⟨ho, hw⟩
  · rintro ⟨h, hw⟩
    unfold alert
    rw [h, Option.map_some, if_neg hw]

theorem rouse_waiting : rouse t ops x = some ⟨u, .waiting⟩ ↔ ops x = some ⟨u, .waiting⟩ ∧ u ≠ t := by
  constructor
  · intro h
    unfold rouse at h
    obtain ⟨o, ho, heq⟩ := Option.map_eq_some_iff.mp h
    by_cases ht : o.task = t
    · rw [if_pos ht] at heq
      exact absurd (congrArg Op.status heq) (wake_ne_waiting o)
    · rw [if_neg ht] at heq
      subst heq
      exact ⟨ho, ht⟩
  · rintro ⟨h, ht⟩
    unfold rouse
    rw [h, Option.map_some, if_neg ht]

end

section
variable {S : Runtime} {s : SharedReader} {t u : ℕ} {x y : Target} {new : List Event}

theorem news_eq {s s' : SharedReader} (h : s'.log = s.log ++ new) : s.news s' = new := by
  rw [SharedReader.news, h, List.drop_left]

theorem enter_waiting {done : Bool} : (S.enter t x done s).ops y = some ⟨u, .waiting⟩ ↔
    y ≠ x ∧ u ≠ t ∧ S.ops y = some ⟨u, .waiting⟩ ∧ .wake (.task u) ∉ S.shared.news s := by
  unfold enter
  dsimp only
  rcases eq_or_ne y x with rfl | hne
  · rw [Function.update_self]
    cases done <;> simp
  · rw [Function.update_of_ne hne, alert_waiting, rouse_waiting]
    constructor
    · rintro ⟨⟨ho, hu⟩, hw⟩
      exact ⟨hne, hu, ho, hw⟩
    · rintro ⟨-, hu, ho, hw⟩
      exact ⟨⟨ho, hu⟩, hw⟩

theorem enter_task {done : Bool} (hne : y ≠ x) :
    (∃ o, (S.enter t x done s).ops y = some o ∧ o.task = u) ↔ ∃ o, S.ops y = some o ∧ o.task = u := by
  have hops : (S.enter t x done s).ops y = alert (S.shared.news s) (rouse t S.ops) y := by simp [enter, hne]
  rw [hops, alert_task, rouse_task]

theorem dropReceiver_log (k : ℕ) (hooked : Bool) (s : SharedReader) :
    ∃ new, (s.dropReceiver k hooked).log = s.log ++ new ∧ ∀ e ∈ new, e.isWait = false := by
  unfold SharedReader.dropReceiver
  split
  · exact ⟨[], by simp, by simp⟩
  split
  · unfold SharedReader.wakeReceiver
    split
    · exact ⟨[], by simp, by simp⟩
    · exact ⟨[.wake _], rfl, by simp [Event.isWait]⟩
  · exact ⟨[], by simp, by simp⟩

theorem finish_log (x : Target) (s : SharedReader) :
    ∃ new, (s.finish x).log = s.log ++ new ∧ ∀ e ∈ new, e.isWait = false := by
  unfold SharedReader.finish
  split
  · exact ⟨[], by simp, by simp⟩
  · exact dropReceiver_log _ true s

theorem once_state (t : ℕ) (x : Target) (tick : Tick) (S : Runtime) :
    (S.once t x tick).shared.state = (S.shared.pollOnce (.task t) tick).2.state := by
  unfold once
  split
  · rename_i hp
    rw [hp]
    rfl
  · rename_i s' hp
    rw [hp]
    exact s'.finish_state x
  · rename_i hp
    rw [hp]
    split <;> rfl

/-- If a turn ends with somebody told to wait, it is its own task, whose waker was handed
over and whose operation goes on. -/
theorem once_waits {tick : Tick} {e : Event} (h : (S.once t x tick).last = some e) (he : e.isWait = true) :
    e.Hands (.task t) (S.once t x tick).shared ∧ ∃ st, (S.once t x tick).ops x = some ⟨t, st⟩ := by
  have hquiet : ∀ {s' : SharedReader} {op : Option Op},
      (∃ new, s'.log = S.shared.log ++ new ∧ ∀ e ∈ new, e.isWait = false) →
      (S.turn t x op s').last ≠ some e := by
    rintro s' op ⟨new, hnew, hq⟩ hlast
    have hl : new.getLast? = some e := by
      rw [← news_eq hnew]
      exact hlast
    have hmem : e ∈ new := List.mem_of_getLast? hl
    rw [hq e hmem] at he
    cases he
  have hturn := S.shared.pollOnce_turn (.task t) tick
  unfold once at h ⊢
  rcases hp : S.shared.pollOnce (.task t) tick with ⟨r, s'⟩
  rw [hp] at hturn h
  cases r with
  | pending =>
    dsimp only at h hturn ⊢
    refine ⟨?_, .waiting, by simp [turn]⟩
    rcases hturn.log_pending with ⟨-, new, e', hlog, hhands⟩ | ⟨header, bs, -, -, -, -, rfl⟩
    · have hnews : S.shared.news s' = new ++ [e'] := news_eq (by rw [hlog, List.append_assoc])
      have hl : (new ++ [e']).getLast? = some e := by
        rw [← hnews]
        exact h
      rw [List.getLast?_concat] at hl
      cases hl
      exact hhands
    · exact absurd h (hquiet ⟨[], by simp [SharedReader.setState, SharedReader.consume], by simp⟩)
  | ready res =>
    cases res with
    | error err =>
      dsimp only at h hturn
      obtain ⟨new, hnew, hq⟩ := hturn.log_error
      obtain ⟨new', hnew', hq'⟩ := finish_log x s'
      refine absurd h (hquiet ⟨new ++ new', by rw [hnew', hnew, List.append_assoc], ?_⟩)
      intro e he
      rcases List.mem_append.mp he with he | he
      · exact hq e he
      · exact hq' e he
    | ok u =>
      dsimp only at h hturn ⊢
      obtain ⟨new, hnew, hq⟩ := hturn.log_ok
      cases hc : tick.coop with
      | pending =>
        rw [hc] at h
        have hnews : S.shared.news (s'.emit (.coopPending (.task t))) = new ++ [.coopPending (.task t)] := by
          refine news_eq ?_
          rw [← List.append_assoc, ← hnew]
          rfl
        have hl : (new ++ [Event.coopPending (.task t)]).getLast? = some e := by
          rw [← hnews]
          exact h
        rw [List.getLast?_concat] at hl
        cases hl
        exact ⟨rfl, .woken, by simp [turn]⟩
      | ready u =>
        rw [hc] at h
        exact absurd h (hquiet ⟨new, hnew, hq⟩)

end

end Runtime

end VtMuxer
