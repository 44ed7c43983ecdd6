import VtMuxer.Read.Asking

/-! Only the task that polled last is known to the stream. When it goes away while others
sleep, nobody is left whom new bytes would wake. -/
namespace VtMuxer

namespace Runtime

/-- The shared reader waits for the stream: nobody polls it, and it would ask for bytes. -/
def AwaitsTcp (S : Runtime) : Prop := S.active = none ∧ S.shared.Reads

/-- Every header arrives in one read. -/
def WholeHeaders (S : Runtime) : Act → Prop
  | .once t => ∀ header bs, S.shared.state = .nextPacket header → t.read = .ready (.ok bs) → bs = [] ∨ bs.length = 20
  | _ => True

/-- The step finishes this operation of the task, or gives it up. -/
inductive Ends (S : Runtime) : Act → ℕ → Target → Prop where
  | read {t id n : ℕ}
      (h : n = 0 ∨ (S.shared.entries id).buffer.bytes ≠ [] ∨ (S.shared.entries id).weak = 0) :
      Ends S (.read t id n) t (.read id)
  | accept {t k : ℕ} (h : S.shared.chan ≠ []) : Ends S (.accept t k) t (.accept k)
  | once {t : ℕ} {x : Target} {tick : Tick} (hx : S.active = some x) (ho : S.ops x = some ⟨t, .running⟩)
      (hf : S.shared.Errs tick) : Ends S (.once tick) t x
  | cancel {x : Target} {o : Op} (ho : S.ops x = some o) : Ends S (.cancel x) o.task x

/-- The step is a poll by the task, or invokes its waker. -/
inductive Wakes (S : Runtime) : Act → ℕ → Prop where
  | read {t id n : ℕ} : Wakes S (.read t id n) t
  | accept {t k : ℕ} : Wakes S (.accept t k) t
  | taken {t id n u : ℕ} (hn : n ≠ 0) (hb : (S.shared.entries id).buffer.bytes ≠ [])
      (hw : (S.shared.entries id).waitingWaker = .task u) : Wakes S (.read t id n) u
  | handed {t k u : ℕ}
      (h : .task u ∈ SharedReader.handsOn k (S.ops (.accept k)).isSome { S.shared with chan := S.shared.chan.tail }) :
      Wakes S (.accept t k) u
  | turn {tick : Tick} {u : ℕ} (hf : ¬ S.shared.Errs tick) (h : .task u ∈ S.shared.rings tick) :
      Wakes S (.once tick) u
  | failed {tick : Tick} {k u : ℕ} (hx : S.active = some (.accept k)) (hf : S.shared.Errs tick)
      (h : .task u ∈ S.shared.handsOn k true) : Wakes S (.once tick) u
  | arrive {u : ℕ} (h : S.shared.tcp = some (.task u)) : Wakes S .arrive u
  | room {u : ℕ} (h : S.shared.sender = some (.task u)) : Wakes S .room u
  | cancel {k u : ℕ} (h : .task u ∈ S.shared.handsOn k true) : Wakes S (.cancel (.accept k)) u

/-- The step takes a reader on to the stream that waited for something else: the full buffer is
emptied or its reader dropped, or a turn ends for want of budget or in an error. -/
def Resumes (S : Runtime) : Act → Prop
  | .read _ id n => S.active = none ∧ S.shared.Blocked id ∧ (S.shared.entries id).buffer.bytes.length ≤ n
  | .dropReader id => S.active = none ∧ S.shared.Blocked id
  | .once t => t.coop = .pending ∧ S.shared.Onward t ∨ S.shared.Errs t
  | _ => False

/-- With the step the stream comes to be waited for, or the task that it knows is done; after it
that task has nothing left to do, if there is one, and another one goes on sleeping. -/
structure Strands (S : Runtime) (a : Act) : Prop where
  turning : S.Resumes a ∨ S.AwaitsTcp ∧ ∃ t x, S.shared.tcp = some (.task t) ∧ S.Ends a t x
  deserted : ∀ t, S.shared.tcp = some (.task t) → ∀ x o, S.ops x = some o → o.task = t → S.Ends a t x
  asleep : ∃ u x, S.ops x = some ⟨u, .waiting⟩ ∧ ¬ S.Ends a u x ∧ ¬ S.Wakes a u

/-- Whenever the stream is waited for and somebody sleeps, the stream knows a task that has
something to do. -/
def Attended (S : Runtime) : Prop :=
  ∀ u, S.Parked u → S.AwaitsTcp → ∃ t, S.shared.tcp = some (.task t) ∧ S.Unfinished t

structure Guarded (S : Runtime) : Prop where
  whole : ∀ header, S.shared.state = .nextPacket header → header = []
  attended : S.Attended

/-- A step that registers nobody with the stream. -/
structure Passes (S : Runtime) (a : Act) : Prop where
  tcp : (S.act a).shared.tcp = S.shared.tcp
  sleeps : ∀ x u, (S.act a).ops x = some ⟨u, .waiting⟩ ↔
    S.ops x = some ⟨u, .waiting⟩ ∧ ¬ S.Ends a u x ∧ ¬ S.Wakes a u
  survives : ∀ x t, (∃ o, S.ops x = some o ∧ o.task = t) → ¬ S.Ends a t x → ∃ o, (S.act a).ops x = some o ∧ o.task = t
  kept : S.Resumes a ∨ (∃ t x, S.Ends a t x) → ∀ x t, (∃ o, (S.act a).ops x = some o ∧ o.task = t) →
    (∃ o, S.ops x = some o ∧ o.task = t) ∧ ¬ S.Ends a t x

section
variable {S : Runtime} {a : Act}

theorem Passes.other {s' : SharedReader} (h : S.act a = S.other s') (ht : s'.tcp = S.shared.tcp)
    (hends : ∀ t x, ¬ S.Ends a t x) (hwakes : ∀ u, S.Wakes a u ↔ .wake (.task u) ∈ S.shared.news s') : S.Passes a := by
  have hops : (S.act a).ops = alert (S.shared.news s') S.ops := by
    rw [h]
    rfl
  constructor
  case tcp => rw [h]; exact ht
  case sleeps =>
    intro x u
    rw [hops, alert_waiting, ← hwakes]
    simp [hends]
  case survives =>
    intro x t hx _
    rw [hops]
    exact alert_task.mpr hx
  case kept =>
    intro _ x t hx
    rw [hops] at hx
    exact ⟨alert_task.mp hx, hends t x⟩

/-- The task `t` polls `x`, up to the shared lock. -/
theorem Passes.polled {t : ℕ} {x : Target} {done : Bool} {s' : SharedReader} (h : S.act a = S.enter t x done s')
    (ht : s'.tcp = S.shared.tcp) (hown : ∀ o, S.ops x = some o → o.task = t)
    (hends : ∀ u y, S.Ends a u y ↔ done = true ∧ u = t ∧ y = x)
    (hwakes : ∀ u, S.Wakes a u ↔ u = t ∨ .wake (.task u) ∈ S.shared.news s')
    (hres : S.Resumes a → done = true) : S.Passes a := by
  constructor
  case tcp => rw [h]; exact ht
  case sleeps =>
    intro y u
    rw [h, enter_waiting]
    constructor
    · rintro ⟨hne, hut, hold, hnot⟩
      exact ⟨hold, fun hend => hne ((hends u y).mp hend).2.2, fun hw => ((hwakes u).mp hw).elim hut hnot⟩
    · rintro ⟨hold, -, hw⟩
      have hut : u ≠ t := fun he => hw ((hwakes u).mpr (Or.inl he))
      refine ⟨?_, hut, hold, fun hmem => hw ((hwakes u).mpr (Or.inr hmem))⟩
      rintro rfl
      exact hut (hown _ hold)
  case survives =>
    intro y u hy hend
    rw [h]
    rcases eq_or_ne y x with rfl | hne
    · obtain ⟨o, ho, rfl⟩ := hy
      have hto := hown o ho
      cases done with
      | true => exact absurd ((hends _ _).mpr ⟨rfl, hto, rfl⟩) hend
      | false => exact ⟨⟨t, .running⟩, by simp [enter], hto.symm⟩
    · exact (enter_task hne).mpr hy
  case kept =>
    intro hcause y u hy
    have hdone : done = true := by
      rcases hcause with hr | ⟨v, z, hz⟩
      · exact hres hr
      · exact ((hends v z).mp hz).1
    have hne : y ≠ x := by
      rintro rfl
      obtain ⟨o, ho, -⟩ := hy
      rw [h] at ho
      simp [enter, hdone] at ho
    rw [h] at hy
    exact ⟨(enter_task hne).mp hy, fun hend => hne ((hends u y).mp hend).2.2⟩

theorem Passes.read (t id n : ℕ) (he : S.Enabled (.read t id n)) : S.Passes (.read t id n) := by
  refine .polled rfl (S.shared.readEntry_tcp (.task t) id n) he.2.2 (fun u y => ?_) (fun u => ?_) ?_
  · rw [SharedReader.readEntry_isSome]
    constructor
    · intro h
      cases h with
      | read h => exact ⟨h, rfl, rfl⟩
    · rintro ⟨h, rfl, rfl⟩
      exact .read h
  · rw [SharedReader.readEntry_news]
    constructor
    · intro h
      cases h with
      | read => exact Or.inl rfl
      | taken hn hb hw => exact Or.inr ⟨hn, hb, hw.symm⟩
    · rintro (rfl | ⟨hn, hb, hw⟩)
      · exact .read
      · exact .taken hn hb hw.symm
  · rintro ⟨-, hb, -⟩
    obtain ⟨owner, left, hb⟩ := hb
    have hne := ReadBuffer.bytes_ne_nil_of_full hb.full
    exact (SharedReader.readEntry_isSome _ id n S.shared).mpr (Or.inr (Or.inl hne))

theorem Passes.accept (t k : ℕ) (he : S.Enabled (.accept t k)) : S.Passes (.accept t k) := by
  refine .polled rfl (S.shared.recvEntry_tcp k _ (.task t)) he.2.2 (fun u y => ?_) (fun u => ?_) (fun h => h.elim)
  · rw [SharedReader.recvEntry_isSome]
    constructor
    · intro h
      cases h with
      | accept h => exact ⟨h, rfl, rfl⟩
    · rintro ⟨h, rfl, rfl⟩
      exact .accept h
  · rw [SharedReader.recvEntry_news]
    constructor
    · intro h
      cases h with
      | accept => exact Or.inl rfl
      | handed h => exact Or.inr h
    · rintro (rfl | h)
      · exact .accept
      · exact .handed h

/-- The operation `x` ends, or its task is awake. -/
theorem Passes.updated {x : Target} {o : Op} {p : Option Op} {r : SharedReader}
    (hops : (S.act a).ops = Function.update (alert (S.shared.news r) S.ops) x p)
    (htcp : (S.act a).shared.tcp = S.shared.tcp) (ho : S.ops x = some o)
    (hop : p = none ∨ o.status ≠ .waiting ∧ p = some ⟨o.task, .woken⟩)
    (hends : ∀ u y, S.Ends a u y ↔ p = none ∧ u = o.task ∧ y = x)
    (hwakes : ∀ u, S.Wakes a u ↔ .wake (.task u) ∈ S.shared.news r) : S.Passes a := by
  constructor
  case tcp => exact htcp
  case sleeps =>
    intro y u
    rw [hops, hends, hwakes]
    rcases eq_or_ne y x with rfl | hne
    · rw [Function.update_self, ho]
      rcases hop with rfl | ⟨hst, rfl⟩
      · simp
        rintro rfl
        simp
      · simp
        rintro rfl
        exact absurd rfl hst
    · rw [Function.update_of_ne hne, alert_waiting]
      simp [hne]
  case survives =>
    intro y u hy hend
    rw [hops]
    rcases eq_or_ne y x with rfl | hne
    · obtain ⟨o', ho', rfl⟩ := hy
      obtain rfl := Option.some.inj (ho.symm.trans ho')
      rcases hop with rfl | ⟨-, rfl⟩
      · exact absurd ((hends _ _).mpr ⟨rfl, rfl, rfl⟩) hend
      · exact ⟨_, Function.update_self .., rfl⟩
    · rw [Function.update_of_ne hne]
      exact alert_task.mpr hy
  case kept =>
    intro _ y u hy
    rw [hops] at hy
    rw [hends]
    rcases eq_or_ne y x with rfl | hne
    · rw [Function.update_self] at hy
      rcases hop with rfl | ⟨-, rfl⟩
      · simp at hy
      · obtain rfl : o.task = u := by simpa using hy
        exact ⟨⟨o, ho, rfl⟩, by simp⟩
    · rw [Function.update_of_ne hne] at hy
      exact ⟨alert_task.mp hy, fun h => hne h.2.2⟩

theorem Passes.cancel (x : Target) (he : S.Enabled (.cancel x)) : S.Passes (.cancel x) := by
  obtain ⟨o, ho, -⟩ := he
  refine .updated (r := S.shared.finish x) (p := none) rfl (S.shared.finish_tcp x) ho (Or.inl rfl)
    (fun u y => ?_) fun u => ?_
  · constructor
    · intro h
      cases h with
      | cancel ho' =>
        obtain rfl := Option.some.inj (ho.symm.trans ho')
        exact ⟨rfl, rfl, rfl⟩
    · rintro ⟨-, rfl, rfl⟩
      exact .cancel ho
  · rw [SharedReader.finish_news]
    constructor
    · intro h
      cases h with
      | cancel h => exact ⟨_, rfl, h⟩
    · rintro ⟨k, rfl, h⟩
      exact .cancel h

/-- Somebody outside invokes a waker, if there is one. -/
theorem Passes.alarm {w : Option Waker}
    (h : S.act a = match w with | none => S | some w => S.other (S.shared.wake w))
    (hends : ∀ t x, ¬ S.Ends a t x) (hwakes : ∀ u, S.Wakes a u ↔ w = some (.task u)) : S.Passes a := by
  cases w with
  | none =>
    have hact : S.act a = S := h
    have hno : ∀ u, ¬ S.Wakes a u := fun u hw => by cases (hwakes u).mp hw
    refine ⟨by rw [hact], fun x u => ?_, fun x t hx _ => by rwa [hact], fun _ x t hx => ⟨by rwa [hact] at hx, hends t x⟩⟩
    rw [hact]
    simp [hends, hno]
  | some w =>
    refine .other h rfl hends fun u => ?_
    have hnews : S.shared.news (S.shared.wake w) = [.wake w] := news_eq rfl
    rw [hwakes, hnews]
    simp [eq_comm]

theorem Passes.of_ne_once (he : S.Enabled a) (ha : ∀ t, a ≠ .once t) : S.Passes a := by
  cases a with
  | read t id n => exact .read t id n he
  | accept t k => exact .accept t k he
  | lock x =>
    have hends : ∀ t y, ¬ S.Ends (.lock x) t y := fun t y h => by cases h
    have hwakes : ∀ u, ¬ S.Wakes (.lock x) u := fun u h => by cases h
    refine ⟨rfl, fun y u => ?_, fun y t hy _ => hy, fun _ y t hy => ⟨hy, hends t y⟩⟩
    simp [hends, hwakes, act]
  | once t => exact absurd rfl (ha t)
  | arrive =>
    refine .alarm (w := S.shared.tcp) rfl (fun t x hend => by cases hend) fun u => ⟨fun hw => ?_, .arrive⟩
    cases hw with
    | arrive h => exact h
  | room =>
    refine .alarm (w := S.shared.sender) rfl (fun t x hend => by cases hend) fun u => ⟨fun hw => ?_, .room⟩
    cases hw with
    | room h => exact h
  | cancel x => exact .cancel x he
  | dropReader id =>
    refine .other rfl rfl (fun t x hend => by cases hend) fun u => ⟨fun hw => (by cases hw), fun h => ?_⟩
    simp [SharedReader.news, SharedReader.release, SharedReader.setEntry] at h
  | add addr alloc =>
    refine .other rfl (S.shared.insert_tcp addr .noop .held alloc) (fun t x hend => by cases hend) fun u =>
      ⟨fun hw => (by cases hw), fun h => ?_⟩
    have hlog : (S.shared.insert addr .noop .held alloc).2.log = S.shared.log := by
      unfold SharedReader.insert
      split
      · rfl
      · split <;> rfl
    simp [SharedReader.news, hlog] at h
  | disconnect =>
    refine .other rfl rfl (fun t x hend => by cases hend) fun u => ⟨fun hw => (by cases hw), fun h => ?_⟩
    simp [SharedReader.news, SharedReader.disconnect] at h

theorem awaits_of_alarm {w : Option Waker}
    (h : (match w with | none => S | some w => S.other (S.shared.wake w)).AwaitsTcp) : S.AwaitsTcp := by
  cases w with
  | none => exact h
  | some w => exact ⟨h.1, (SharedReader.reads_congr rfl rfl (fun _ => .rfl) fun _ => rfl).mp h.2⟩

/-- The reader waits for the stream after such a step if it did before, or the step takes it there. -/
theorem awaits_or_resumes (ha : ∀ t, a ≠ .once t) (h : (S.act a).AwaitsTcp) : S.AwaitsTcp ∨ S.Resumes a := by
  cases a with
  | read t id n =>
    rcases SharedReader.readEntry_reads.mp h.2 with hr | ⟨hb, hn⟩
    · exact Or.inl ⟨h.1, hr⟩
    · exact Or.inr ⟨h.1, hb, hn⟩
  | accept t k => exact Or.inl ⟨h.1, SharedReader.recvEntry_reads.mp h.2⟩
  | lock x => cases h.1
  | once t => exact absurd rfl (ha t)
  | arrive => exact Or.inl (awaits_of_alarm (w := S.shared.tcp) h)
  | room => exact Or.inl (awaits_of_alarm (w := S.shared.sender) h)
  | cancel x => exact Or.inl ⟨h.1, SharedReader.finish_reads.mp h.2⟩
  | dropReader id =>
    rcases SharedReader.reads_of_perform (m := .release id) rfl h.2 with hr | ⟨j, hb, rfl⟩
    · exact Or.inl ⟨h.1, hr⟩
    · exact Or.inr ⟨h.1, hb⟩
  | add addr alloc =>
    have hst := S.shared.insert_state addr .noop .held alloc
    rcases SharedReader.reads_of_perform (m := .add addr alloc) hst h.2 with hr | ⟨j, -, hc⟩
    · exact Or.inl ⟨h.1, hr⟩
    · exact hc.elim
  | disconnect => exact Or.inl ⟨h.1, (SharedReader.reads_congr rfl rfl (fun _ => .rfl) fun _ => rfl).mp h.2⟩

theorem act_state (ha : ∀ t, a ≠ .once t) : (S.act a).shared.state = S.shared.state := by
  cases a with
  | read t id n => exact S.shared.readEntry_state (.task t) id n
  | accept t k => exact (S.shared.recvEntry_rest k _ (.task t)).2.2
  | lock x => rfl
  | once t => exact absurd rfl (ha t)
  | arrive =>
    unfold act
    dsimp only
    split <;> rfl
  | room =>
    unfold act
    dsimp only
    split <;> rfl
  | cancel x => exact S.shared.finish_state x
  | dropReader id => rfl
  | add addr alloc => exact S.shared.insert_state addr .noop .held alloc
  | disconnect => rfl

theorem ends_once {t u : ℕ} {x y : Target} {tick : Tick} (hx : S.active = some x) (ho : S.ops x = some ⟨t, .running⟩) :
    S.Ends (.once tick) u y ↔ S.shared.Errs tick ∧ u = t ∧ y = x := by
  constructor
  · intro hend
    cases hend with
    | once hx' ho' hf =>
      obtain rfl := Option.some.inj (hx.symm.trans hx')
      obtain rfl := congrArg Op.task (Option.some.inj (ho.symm.trans ho'))
      exact ⟨hf, rfl, rfl⟩
  · rintro ⟨hf, rfl, rfl⟩
    exact .once hx ho hf

/-- The budget is used up, and the task of `x` is awake. -/
theorem Passes.spent {t : ℕ} {x : Target} {tick : Tick} (hx : S.active = some x) (ho : S.ops x = some ⟨t, .running⟩)
    (hcoop : tick.coop = .pending) (hon : S.shared.Onward tick) :
    S.Passes (.once tick) ∧ (S.act (.once tick)).AwaitsTcp := by
  obtain ⟨s', hp, hreads⟩ := (SharedReader.pollOnce_onward (.task t) tick S.shared).mpr hon
  have hact : S.act (.once tick) = S.turn t x (some ⟨t, .woken⟩) (s'.emit (.coopPending (.task t))) := by
    simp [act, hx, ho, Runtime.once, hp, hcoop]
  have hturn := S.shared.pollOnce_turn (.task t) tick
  rw [hp] at hturn
  have hok : ¬ S.shared.Errs tick := by
    intro hf
    obtain ⟨e, s'', he, -⟩ := hf.poll (.task t)
    rw [hp] at he
    cases he
  have hmem : ∀ u, .wake (.task u) ∈ S.shared.news (s'.emit (.coopPending (.task t))) ↔ .task u ∈ S.shared.rings tick := by
    intro u
    obtain ⟨new, hnew, -⟩ := hturn.log_ok
    have hnews : S.shared.news (s'.emit (.coopPending (.task t))) = S.shared.news s' ++ [.coopPending (.task t)] := by
      rw [news_eq hnew]
      exact news_eq (by rw [← List.append_assoc, ← hnew]; rfl)
    rw [hnews, ← hturn.rings]
    simp
  constructor
  · refine .updated (p := some ⟨t, .woken⟩) (by rw [hact]; rfl) ?_ ho (Or.inr ⟨by simp, rfl⟩) (fun u y => ?_) fun u => ?_
    · rw [hact]
      exact hturn.tcp
    · rw [ends_once hx ho]
      simp [hok]
    · rw [hmem]
      constructor
      · intro hw
        cases hw with
        | turn _ h => exact h
        | failed _ hf => exact absurd hf hok
      · exact .turn hok
  · rw [hact]
    exact ⟨by simp [Runtime.turn], (SharedReader.reads_congr rfl rfl (fun _ => .rfl) fun _ => rfl).mpr hreads⟩

theorem Passes.errs {t : ℕ} {x : Target} {tick : Tick} (hx : S.active = some x) (ho : S.ops x = some ⟨t, .running⟩)
    (herr : S.shared.Errs tick) : S.Passes (.once tick) ∧ (S.act (.once tick)).AwaitsTcp := by
  obtain ⟨e, s', hp, hsame, hreads⟩ := herr.poll (.task t)
  have hact : S.act (.once tick) = S.turn t x none (s'.finish x) := by
    simp [act, hx, ho, Runtime.once, hp]
  have hquiet : s'.log = S.shared.log ∧ s'.tcp = S.shared.tcp ∧ ∀ k, s'.handsOn k true = S.shared.handsOn k true := by
    rcases hsame with rfl | ⟨bs, rfl⟩ <;> exact ⟨rfl, rfl, fun _ => rfl⟩
  constructor
  · refine .updated (p := none) (by rw [hact]; rfl) ?_ ho (Or.inl rfl) (fun u y => ?_) fun u => ?_
    · rw [hact]
      exact (s'.finish_tcp x).trans hquiet.2.1
    · rw [ends_once hx ho]
      simp [herr]
    · have hnews : S.shared.news (s'.finish x) = s'.news (s'.finish x) := by
        unfold SharedReader.news
        rw [hquiet.1]
      rw [hnews, SharedReader.finish_news]
      constructor
      · intro hw
        cases hw with
        | turn hf _ => exact absurd herr hf
        | @failed _ k _ hx' _ h => exact ⟨k, Option.some.inj (hx.symm.trans hx'), by rwa [hquiet.2.2 k]⟩
      · rintro ⟨k, rfl, h⟩
        exact .failed hx herr (by rwa [← hquiet.2.2 k])
  · rw [hact]
    exact ⟨by simp [Runtime.turn], SharedReader.finish_reads.mpr hreads⟩

/-- A turn of `x` that ends early registers nobody, and leaves the stream waited for. -/
theorem Passes.once {t : ℕ} {x : Target} {tick : Tick} (hx : S.active = some x) (ho : S.ops x = some ⟨t, .running⟩)
    (h : S.Resumes (.once tick)) : S.Passes (.once tick) ∧ (S.act (.once tick)).AwaitsTcp := by
  rcases h with ⟨hcoop, hon⟩ | herr
  · exact Passes.spent hx ho hcoop hon
  · exact Passes.errs hx ho herr

/-- A turn of `x` after which the stream is waited for registers its task, or it ends early. -/
theorem once_awaits {t : ℕ} {x : Target} {tick : Tick} (hg : S.Guarded) (hw : S.WholeHeaders (.once tick))
    (hx : S.active = some x) (ho : S.ops x = some ⟨t, .running⟩) (h : (S.act (.once tick)).AwaitsTcp) :
    ((S.act (.once tick)).shared.tcp = some (.task t) ∧ ∃ st, (S.act (.once tick)).ops x = some ⟨t, st⟩) ∨
      S.Resumes (.once tick) := by
  have hact : S.act (.once tick) = S.once t x tick := by simp [act, hx, ho]
  have hturn := S.shared.pollOnce_turn (.task t) tick
  obtain ⟨hactive, hreads⟩ := h
  unfold Runtime.once at hact
  rcases hp : S.shared.pollOnce (.task t) tick with ⟨r, s'⟩
  rw [hp] at hturn hact
  cases r with
  | pending =>
    dsimp only at hact hturn
    rw [hact] at hreads ⊢
    cases hturn with
    | parked => exact Or.inl ⟨rfl, .waiting, by simp [Runtime.turn]⟩
    | full hs hu hroom =>
      obtain ⟨hm, hl⟩ := Option.filter_eq_some_iff.mp hu
      have hst : S.shared.Stalled _ _ _ := ⟨hs, hm, by simpa using hl, hroom⟩
      exact absurd hreads (hst.refuse (.task t)).1.not_reads
    | @short header bs hs hr h0 hlt =>
      obtain rfl := hg.whole header hs
      have hlen := (hw [] bs hs hr).resolve_left h0
      simp [SharedReader.filledBy, hlen] at hlt
    | sending => simp [Runtime.turn, SharedReader.Reads, SharedReader.emit, SharedReader.setState] at hreads
  | ready res =>
    right
    cases res with
    | error err =>
      dsimp only at hact hturn
      rw [hact] at hreads
      have hs' : s'.Reads := SharedReader.finish_reads.mp hreads
      right
      cases hturn with
      | failed hr h => exact Or.inl ⟨hr, _, h⟩
      | broken hs => exact absurd hs' (SharedReader.not_reads_of_error hs)
      | discardCut => exact absurd hs' (SharedReader.not_reads_of_error rfl)
      | fillCut => exact absurd hs' (SharedReader.not_reads_of_error rfl)
      | headerCut => exact absurd hs' (SharedReader.not_reads_of_error rfl)
      | noMemory hs hr h0 h20 hl hm hc ha => exact Or.inr ⟨ha, hc, _, _, hs, hr, h0, h20, hl, hm⟩
    | ok v =>
      dsimp only at hact hturn
      cases hc : tick.coop with
      | ready v =>
        rw [hc] at hact
        rw [hact] at hactive
        simp [Runtime.turn] at hactive
      | pending =>
        rw [hc] at hact
        rw [hact] at hreads
        have hs' : s'.Reads := (SharedReader.reads_congr rfl rfl (fun _ => .rfl) fun _ => rfl).mp hreads
        exact Or.inl ⟨hc, (SharedReader.pollOnce_onward (.task t) tick S.shared).mp ⟨s', hp, hs'⟩⟩

theorem Passes.attended (hp : S.Passes a) (hok : ¬ S.Strands a) {u : ℕ} (hu : (S.act a).Parked u)
    (hturn : S.Resumes a ∨ S.AwaitsTcp ∧ ∃ t, S.shared.tcp = some (.task t) ∧ S.Unfinished t) :
    ∃ t, (S.act a).shared.tcp = some (.task t) ∧ (S.act a).Unfinished t := by
  obtain ⟨y, hy⟩ := hu
  by_contra hno
  have hdeserted : ∀ t, S.shared.tcp = some (.task t) → ∀ x o, S.ops x = some o → o.task = t → S.Ends a t x := by
    intro t htcp x o hx ht
    by_contra hend
    exact hno ⟨t, hp.tcp.trans htcp, x, hp.survives x t ⟨o, hx, ht⟩ hend⟩
  refine hok ⟨?_, hdeserted, u, y, (hp.sleeps y u).mp hy⟩
  rcases hturn with hres | ⟨hawait, t, htcp, x, o, hx, ht⟩
  · exact Or.inl hres
  · exact Or.inr ⟨hawait, t, x, htcp, hdeserted t htcp x o hx ht⟩

theorem Guarded.step (hg : S.Guarded) (he : S.Enabled a) (hw : S.WholeHeaders a) (hok : ¬ S.Strands a) :
    (S.act a).Guarded := by
  by_cases ha : ∃ tick, a = .once tick
  · obtain ⟨tick, rfl⟩ := ha
    obtain ⟨x, t, hx, ho⟩ := he
    have hact : S.act (.once tick) = S.once t x tick := by simp [act, hx, ho]
    constructor
    case whole =>
      intro header hs
      rw [hact, once_state] at hs
      exact (S.shared.pollOnce_turn (.task t) tick).whole hg.whole hw hs
    case attended =>
      intro u hu hawait
      rcases once_awaits hg hw hx ho hawait with ⟨htcp, st, hst⟩ | hres
      · exact ⟨t, htcp, x, _, hst, rfl⟩
      · exact (Passes.once hx ho hres).1.attended hok hu (Or.inl hres)
  · have ha' : ∀ tick, a ≠ .once tick := fun tick h => ha ⟨tick, h⟩
    have hpass : S.Passes a := .of_ne_once he ha'
    constructor
    case whole =>
      intro header hs
      rw [act_state ha'] at hs
      exact hg.whole header hs
    case attended =>
      intro u hu hawait
      refine hpass.attended hok hu ?_
      rcases awaits_or_resumes ha' hawait with hbefore | hres
      · obtain ⟨y, hy⟩ := hu
        exact Or.inr ⟨hbefore, hg.attended u ⟨y, ((hpass.sleeps y u).mp hy).1⟩ hbefore⟩
      · exact Or.inl hres

end

end Runtime

end VtMuxer
