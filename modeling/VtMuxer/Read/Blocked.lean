import VtMuxer.Read.Tasks

/-! A full buffer stops all connections until its reader takes something out of it. The task
that was refused is woken then, but not when the reader goes away. -/
namespace VtMuxer

namespace SharedReader

/-- Nobody else is put in the place of the task that waits for room. -/
structure KeepsWaiting (s s' : SharedReader) : Prop where
  next : s.next ≤ s'.next
  waiting : ∀ id < s.next, (s'.entries id).waitingWaker = (s.entries id).waitingWaker

section
variable {s s' : SharedReader}

theorem KeepsWaiting.refl (s : SharedReader) : KeepsWaiting s s := ⟨le_rfl, fun _ _ => rfl⟩

theorem KeepsWaiting.setEntry {id : ℕ} {e : ReaderEntry}
    (h : e.waitingWaker = (s.entries id).waitingWaker) : KeepsWaiting s (s.setEntry id e) where
  next := le_rfl
  waiting j _ := by
    rcases eq_or_ne j id with rfl | hne
    · simpa [SharedReader.setEntry] using h
    · simp [SharedReader.setEntry, hne]

theorem keepsWaiting_readEntry (cx : Waker) (id n : ℕ) (s : SharedReader) :
    KeepsWaiting s (s.readEntry cx id n).2 := by
  unfold readEntry
  dsimp only
  split
  · exact .refl s
  split
  · have hset : KeepsWaiting s (s.setEntry id
        { s.entries id with
          buffer := ((s.entries id).buffer.read n).2
          taken := (s.entries id).taken ++ ((s.entries id).buffer.read n).1 }) := .setEntry rfl
    exact ⟨hset.next, hset.waiting⟩
  split
  · exact ⟨le_rfl, fun _ _ => rfl⟩
  · exact .setEntry rfl

theorem keepsWaiting_dropReceiver (k : ℕ) (hooked : Bool) (s : SharedReader) :
    KeepsWaiting s (s.dropReceiver k hooked) := by
  unfold dropReceiver
  split
  · exact ⟨le_rfl, fun _ _ => rfl⟩
  split
  · exact ⟨by simp, by simp⟩
  · exact .refl s

theorem keepsWaiting_recvEntry (k : ℕ) (hooked : Bool) (cx : Waker) (s : SharedReader) :
    KeepsWaiting s (s.recvEntry k hooked cx).2 := by
  unfold recvEntry
  split
  · unfold awaitItem
    split <;> exact ⟨le_rfl, fun _ _ => rfl⟩
  · rename_i item rest _
    let s₁ : SharedReader := SharedReader.setEntry item.2
      { s.entries item.2 with handle := (s.entries item.2).handle.accept } { s with chan := rest }
    have h₁ : KeepsWaiting s s₁ := by
      have hset : KeepsWaiting { s with chan := rest } s₁ := .setEntry rfl
      exact ⟨hset.next, hset.waiting⟩
    have h₂ := keepsWaiting_dropReceiver k hooked s₁
    exact ⟨h₁.next.trans h₂.next, fun j hj => (h₂.waiting j (hj.trans_le h₁.next)).trans (h₁.waiting j hj)⟩

theorem keepsWaiting_finish (x : Target) (s : SharedReader) : KeepsWaiting s (s.finish x) := by
  unfold finish
  split
  · exact .refl s
  · exact keepsWaiting_dropReceiver _ true s

theorem keepsWaiting_insert (addr : SocketAddr) (cx : Waker) (handle : Handle) (alloc : Bool)
    (s : SharedReader) : KeepsWaiting s (s.insert addr cx handle alloc).2 := by
  unfold insert
  split
  · exact .refl s
  · split
    · refine ⟨Nat.le_succ _, fun j hj => ?_⟩
      have hne : j ≠ s.next := by omega
      simp [SharedReader.add, hne]
    · exact .refl s

end

end SharedReader

namespace Runtime

/-- The last turn was refused because the buffer of the entry was full, and it still is. -/
def BlockedOn (S : Runtime) (id : ℕ) : Prop :=
  (∃ w, S.last = some (.full id w)) ∧ (S.shared.entries id).buffer.room = 0

/-- The reader of a buffer that blocks the others is not dropped. -/
def Keeps (S : Runtime) : Act → Prop
  | .dropReader id => ¬ S.BlockedOn id
  | _ => True

/-- Steps after which there may be room again, or no need for it. -/
def Frees (id : ℕ) : Act → Prop
  | .read _ j n => j = id ∧ n ≠ 0
  | .dropReader j => j = id
  | _ => False

/-- The refused task is the one that the entry will wake. -/
def Refused (S : Runtime) : Prop :=
  ∀ id w, S.last = some (.full id w) → id < S.shared.next ∧ (S.shared.entries id).waitingWaker = w ∧
    ∃ t, S.poller = some t ∧ w = .task t

section
variable {S : Runtime} {a : Act}

theorem once_poller (t : ℕ) (x : Target) (tick : Tick) (S : Runtime) : (S.once t x tick).poller = some t := by
  unfold once
  split
  · rfl
  · rfl
  · split <;> rfl

/-- A step outside the poll loop changes neither the refusal nor the waker. -/
theorem Refused.other {S' : Runtime} (h : S.Refused) (hl : S'.last = S.last) (hp : S'.poller = S.poller)
    (hk : S.shared.KeepsWaiting S'.shared) : S'.Refused := by
  intro id w hlast
  rw [hl] at hlast
  obtain ⟨hid, hw, hpoller⟩ := h id w hlast
  rw [hp]
  exact ⟨hid.trans_le hk.next, (hk.waiting id hid).trans hw, hpoller⟩

theorem Refused.step (h : S.Refused) (he : S.Enabled a) : (S.act a).Refused := by
  cases a with
  | read t id n => exact h.other rfl rfl (S.shared.keepsWaiting_readEntry (.task t) id n)
  | accept t k => exact h.other rfl rfl (S.shared.keepsWaiting_recvEntry k _ (.task t))
  | lock x => exact h.other rfl rfl (.refl _)
  | once tick =>
    obtain ⟨x, t, hactive, hop⟩ := he
    have hact : S.act (.once tick) = S.once t x tick := by simp [act, hactive, hop]
    rw [hact]
    intro id w hlast
    obtain ⟨⟨hw, hid, hwait⟩, -⟩ := once_waits hlast rfl
    exact ⟨hid, hwait.trans hw.symm, t, once_poller t x tick S, hw⟩
  | arrive =>
    unfold act
    dsimp only
    split
    · exact h
    · exact h.other rfl rfl ⟨le_rfl, fun _ _ => rfl⟩
  | room =>
    unfold act
    dsimp only
    split
    · exact h
    · exact h.other rfl rfl ⟨le_rfl, fun _ _ => rfl⟩
  | cancel x => exact h.other rfl rfl (S.shared.keepsWaiting_finish x)
  | dropReader id => exact h.other rfl rfl (.setEntry rfl)
  | add addr alloc => exact h.other rfl rfl (S.shared.keepsWaiting_insert addr .noop .held alloc)
  | disconnect => exact h.other rfl rfl ⟨le_rfl, fun _ _ => rfl⟩

/-- While nobody drops the reader of a buffer that blocks the others, that buffer has
something to read, the task refused last is the one to be woken, and every step that makes
room wakes it. -/
theorem full_buffer_wakes {connected : Bool} (h : Runs Keeps (init connected) S) {id : ℕ}
    (hb : S.BlockedOn id) :
    (S.shared.entries id).buffer.bytes ≠ [] ∧
      ∃ t, S.poller = some t ∧ (S.shared.entries id).waitingWaker = .task t ∧
        ∀ a, S.Enabled a → S.Keeps a → Frees id a → .wake (.task t) ∈ S.shared.news (S.act a).shared := by
  have hinv : S.Refused := by
    clear hb
    induction h with
    | refl =>
      intro id w hlast
      cases hlast
    | tail _ hstep ih =>
      obtain ⟨a, he, -, rfl⟩ := hstep
      exact ih.step he
  obtain ⟨⟨w, hlast⟩, hroom⟩ := hb
  obtain ⟨-, hw, t, hp, rfl⟩ := hinv id w hlast
  have hbytes := ReadBuffer.bytes_ne_nil_of_full hroom
  refine ⟨hbytes, t, hp, hw, ?_⟩
  intro a _ hk hf
  cases a with
  | read t' j n =>
    obtain ⟨rfl, hn⟩ := hf
    rw [← hw]
    exact (SharedReader.readEntry_news (.task t') _ _ _ _).mpr ⟨hn, hbytes, rfl⟩
  | dropReader j =>
    obtain rfl : j = id := hf
    exact absurd ⟨⟨_, hlast⟩, hroom⟩ hk
  | accept t' k => exact False.elim hf
  | lock x => exact False.elim hf
  | once tick => exact False.elim hf
  | arrive => exact False.elim hf
  | room => exact False.elim hf
  | cancel x => exact False.elim hf
  | add addr alloc => exact False.elim hf
  | disconnect => exact False.elim hf

end

section
variable {S : Runtime} {n len : ℕ}

/-- Two connections: the second one is read by a task that holds the shared lock, and the
buffer of the first one has `n` bytes. -/
structure Filling (n : ℕ) (st : SharedReaderState) (S : Runtime) : Prop where
  run : Runs Keeps (init true) S
  active : S.active = some (.read 1)
  reading : S.ops (.read 1) = some ⟨1, .running⟩
  idle : S.ops (.read 0) = none
  known : S.shared.socketMap .unspecified = some 0
  held : (S.shared.entries 0).handle = .held
  capacity : (S.shared.entries 0).buffer.capacity = 131070
  filled : (S.shared.entries 0).buffer.filled = n
  state : S.shared.state = st

theorem Filling.once {st : SharedReaderState} (h : Filling n st S) (tick : Tick) :
    S.Enabled (.once tick) ∧ S.act (.once tick) = S.once 1 (.read 1) tick :=
  ⟨⟨.read 1, 1, h.active, h.reading⟩, by simp [act, h.active, h.reading]⟩

theorem Filling.turn {st st' : SharedReaderState} {m : ℕ} {tick : Tick} {s' : SharedReader}
    (h : Filling n st S) (hc : tick.coop = .ready ())
    (hp : S.shared.pollOnce (.task 1) tick = (.ready (.ok ()), s')) (hm : s'.socketMap = S.shared.socketMap)
    (hh : (s'.entries 0).handle = (S.shared.entries 0).handle)
    (hcap : (s'.entries 0).buffer.capacity = (S.shared.entries 0).buffer.capacity)
    (hf : (s'.entries 0).buffer.filled = m) (hs : s'.state = st') : Filling m st' (S.act (.once tick)) := by
  obtain ⟨hen, hact⟩ := h.once tick
  have hrun := h.run.act (.once tick) hen trivial
  have hturn : S.act (.once tick) = S.turn 1 (.read 1) (some ⟨1, .running⟩) s' := by
    rw [hact, Runtime.once, hp]
    simp only [hc]
  constructor
  case run => exact hrun
  case active => rw [hturn]; simp [Runtime.turn]
  case reading => rw [hturn]; simp [Runtime.turn]
  case idle => rw [hturn]; simp [Runtime.turn, alert, h.idle]
  case known => rw [hturn]; exact (congrFun hm _).trans h.known
  case held => rw [hturn]; exact hh.trans h.held
  case capacity => rw [hturn]; exact hcap.trans h.capacity
  case filled => rw [hturn]; exact hf
  case state => rw [hturn]; exact hs

def header (len : ℕ) : List UInt8 := (MuxFrameHeader.mk .unspecified (.new len)).bytes

theorem Filling.header (h : Filling n (.nextPacket []) S) (h0 : 0 < len) (hl : len < 65536) :
    Filling n (.read .unspecified len) (S.act (.once (.bytes (header len)))) := by
  have hlen : (Runtime.header len).length = 20 := MuxFrameHeader.length_bytes _
  have hinit : MuxFrameHeader.assumeInit (([] ++ Runtime.header len).take 20) =
      ⟨.unspecified, .new len⟩ := by
    rw [List.nil_append, List.take_of_length_le hlen.le, MuxFrameHeader.assumeInit, dif_pos hlen]
    exact MuxFrameHeader.ofBytes_bytes _
  have hget : (MuxFrameHeader.mk .unspecified (.new len)).len = len := NetworkOrderU16.get_new hl
  have hp : S.shared.pollOnce (.task 1) (.bytes (Runtime.header len)) =
      (.ready (.ok ()), (S.shared.consume (Runtime.header len)).setState (.read .unspecified len)) := by
    simp only [SharedReader.pollOnce, h.state, SharedReader.pollNextPacket, Tick.bytes, hlen, hinit]
    simp [SharedReader.takeHeader, hget, h0.ne', MuxFrameHeader.size, MuxFrameHeader.addr]
  exact h.turn rfl hp rfl rfl rfl h.filled rfl

theorem Filling.payload (h : Filling n (.read .unspecified len) S) (h0 : 0 < len) (hl : len < 65536)
    (hfit : n + len ≤ 131070) :
    Filling (n + len) (.nextPacket []) (S.act (.once (.bytes (List.replicate len 0)))) := by
  have hu : S.shared.upgrade .unspecified = some 0 := by
    simp [SharedReader.upgrade, h.known, h.held, Option.filter]
  have hroom : (S.shared.entries 0).buffer.room = 131070 - n := by
    rw [ReadBuffer.room, h.capacity, h.filled]
  have htake : (List.replicate len (0 : UInt8)).take (S.shared.entries 0).buffer.room = List.replicate len 0 :=
    List.take_of_length_le (by rw [List.length_replicate, hroom]; omega)
  have hfill : (S.shared.entries 0).buffer.fillBuffer (.ready (.ok (List.replicate len 0))) =
      (.ready (.ok (some len)), (S.shared.entries 0).buffer.fill (List.replicate len 0)) := by
    have hne : (S.shared.entries 0).buffer.room ≠ 0 := by omega
    simp only [ReadBuffer.fillBuffer, if_neg hne, htake, List.length_replicate]
  have hp : S.shared.pollOnce (.task 1) (.bytes (List.replicate len 0)) =
      (.ready (.ok ()), (S.shared.fill 0 (List.replicate len 0)).setState (.nextPacket [])) := by
    simp only [SharedReader.pollOnce, h.state, SharedReader.pollRead, hu, Tick.bytes, hfill,
      SharedReader.finishRead]
    simp [h0.ne', hl, SharedReader.fill, SharedReader.got]
  refine h.turn rfl hp rfl ?_ ?_ ?_ rfl
  · simp [SharedReader.setState, SharedReader.fill, SharedReader.wake, SharedReader.emit,
      SharedReader.deliver, SharedReader.setEntry]
  · simp [SharedReader.setState, SharedReader.fill, SharedReader.wake, SharedReader.emit,
      SharedReader.deliver, SharedReader.setEntry, ReadBuffer.fill]
  · have hf := h.filled
    simp only [ReadBuffer.filled] at hf
    simp [SharedReader.setState, SharedReader.fill, SharedReader.wake, SharedReader.emit,
      SharedReader.deliver, SharedReader.setEntry, ReadBuffer.fill, ReadBuffer.filled, htake, hf]

theorem Filling.full (h : Filling 131070 (.read .unspecified len) S) :
    Runs Keeps (init true) (S.act (.once .idle)) ∧ (S.act (.once .idle)).BlockedOn 0 ∧
      (S.act (.once .idle)).Enabled (.dropReader 0) := by
  obtain ⟨hen, hact⟩ := h.once .idle
  have hu : S.shared.upgrade .unspecified = some 0 := by
    simp [SharedReader.upgrade, h.known, h.held, Option.filter]
  have hroom : (S.shared.entries 0).buffer.room = 0 := by
    rw [ReadBuffer.room, h.capacity, h.filled]
  have hp : S.shared.pollOnce (.task 1) .idle = (.pending, S.shared.refuse 0 (.task 1)) := by
    simp only [SharedReader.pollOnce, h.state, SharedReader.pollRead, hu, ReadBuffer.fillBuffer, hroom, if_true]
    rfl
  have hturn : S.act (.once .idle) =
      S.turn 1 (.read 1) (some ⟨1, .waiting⟩) (S.shared.refuse 0 (.task 1)) := by
    rw [hact, Runtime.once, hp]
  have hentry : (S.shared.refuse 0 (.task 1)).entries 0 =
      { S.shared.entries 0 with waitingWaker := .task 1 } := by
    simp [SharedReader.refuse, SharedReader.emit, SharedReader.setEntry]
  have hlast : (S.shared.news (S.shared.refuse 0 (.task 1))).getLast? = some (.full 0 (.task 1)) := by
    simp [SharedReader.news, SharedReader.refuse, SharedReader.emit, SharedReader.setEntry, SharedReader.wake]
  refine ⟨h.run.act _ hen trivial, ⟨⟨.task 1, ?_⟩, ?_⟩, ?_, ?_⟩
  · rw [hturn]
    exact hlast
  · rw [hturn]
    show ((S.shared.refuse 0 (.task 1)).entries 0).buffer.room = 0
    rw [hentry]
    exact hroom
  · rw [hturn]
    show ((S.shared.refuse 0 (.task 1)).entries 0).handle = .held
    rw [hentry]
    exact h.held
  · rw [hturn]
    simp [Runtime.turn, alert, h.idle]

/-- The buffer of the first connection is full, and the task that reads the second one is
refused. -/
theorem exists_blocked :
    ∃ S, Runs Keeps (init true) S ∧ S.BlockedOn 0 ∧ S.Enabled (.dropReader 0) := by
  have h₀ : Runs Keeps (init true) (init true) := .refl
  have h₁ := h₀.act (.add .unspecified true) rfl trivial
  have h₂ := h₁.act (.add ⟨SocketAddr.unspecified.ip, .new 1⟩ true) rfl trivial
  have h₃ := h₂.act (.read 1 1 1) ⟨rfl, by decide, by rintro o ⟨⟩⟩ trivial
  have h₄ := h₃.act (.lock (.read 1)) ⟨rfl, 1, rfl⟩ trivial
  have hstart : Filling 0 (.nextPacket []) _ := ⟨h₄, rfl, rfl, rfl, rfl, rfl, rfl, rfl, rfl⟩
  have hone : Filling 0 (.read .unspecified 65535) _ := hstart.header (by omega) (by omega)
  have hhalf := hone.payload (by omega) (by omega) (by omega)
  have htwo : Filling _ (.read .unspecified 65535) _ := hhalf.header (by omega) (by omega)
  have hfull := htwo.payload (by omega) (by omega) (by omega)
  have hmore : Filling _ (.read .unspecified 1) _ := hfull.header (by omega) (by omega)
  exact ⟨_, hmore.full⟩

/-- A read from the full buffer wakes the refused task. -/
theorem full_buffer_wakes_refused :
    ∃ S, Runs Keeps (init true) S ∧ S.BlockedOn 0 ∧ (S.shared.entries 0).buffer.bytes ≠ [] ∧
      ∃ t, S.poller = some t ∧ (S.shared.entries 0).waitingWaker = .task t ∧
        ∀ a, S.Enabled a → S.Keeps a → Frees 0 a → .wake (.task t) ∈ S.shared.news (S.act a).shared := by
  obtain ⟨S, hrun, hb, -⟩ := exists_blocked
  exact ⟨S, hrun, hb, full_buffer_wakes hrun hb⟩

theorem Runs.mono {ok ok' : Runtime → Act → Prop} (hmono : ∀ S a, ok S a → ok' S a) {S₀ S : Runtime}
    (h : Runs ok S₀ S) : Runs ok' S₀ S := by
  induction h with
  | refl => exact .refl
  | tail _ hstep ih =>
    obtain ⟨a, he, hok, rfl⟩ := hstep
    exact ih.act a he (hmono _ a hok)

/-- Dropping the reader of the full buffer lets the payload go, and wakes nobody. -/
theorem full_buffer_dropped_unnoticed :
    ∃ S, Runs (fun _ _ => True) (init true) S ∧ S.BlockedOn 0 ∧ S.Enabled (.dropReader 0) ∧
      Frees 0 (.dropReader 0) ∧ ∀ w, .wake w ∉ S.shared.news (S.act (.dropReader 0)).shared := by
  obtain ⟨S, hrun, hb, hen⟩ := exists_blocked
  refine ⟨S, hrun.mono fun _ _ _ => trivial, hb, hen, rfl, ?_⟩
  intro w
  simp [act, other, SharedReader.news, SharedReader.release, SharedReader.setEntry]

end

end Runtime

end VtMuxer
