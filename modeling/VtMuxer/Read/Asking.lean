import VtMuxer.Read.Stalled

/-! When the shared reader asks the stream for bytes, what takes it there from outside the poll
loop, and whose wakers are invoked when a turn or an operation ends. -/
namespace VtMuxer

namespace SharedReader

/-- Whom the end of a receive future wakes in its place. -/
def handsOn (k : ℕ) (hooked : Bool) (s : SharedReader) : List Waker :=
  if k ∈ s.receivers.map Prod.fst then []
  else if hooked ∧ s.chan ≠ [] then (s.receivers.head?.map Prod.snd).toList
  else []

theorem handsOn_news {k : ℕ} {hooked : Bool} {s : SharedReader} {w : Waker} :
    .wake w ∈ s.news (s.dropReceiver k hooked) ↔ w ∈ s.handsOn k hooked := by
  unfold handsOn dropReceiver
  split
  · simp [news]
  split
  · unfold wakeReceiver
    cases hr : s.receivers with
    | nil => simp [news]
    | cons r rest => simp [news, wake, emit]
  · simp [news]

theorem finish_news {x : Target} {s : SharedReader} {w : Waker} :
    .wake w ∈ s.news (s.finish x) ↔ ∃ k, x = .accept k ∧ w ∈ s.handsOn k true := by
  cases x with
  | read id => simp [finish, news]
  | accept k => simpa [finish] using handsOn_news

theorem readEntry_isSome (cx : Waker) (id n : ℕ) (s : SharedReader) :
    (s.readEntry cx id n).1.isSome = true ↔
      n = 0 ∨ (s.entries id).buffer.bytes ≠ [] ∨ (s.entries id).weak = 0 := by
  unfold readEntry
  dsimp only
  rw [ReadBuffer.read_fst]
  by_cases hn : n = 0
  · simp [hn]
  by_cases hb : (s.entries id).buffer.bytes = []
  · by_cases hw : (s.entries id).weak = 0
    · simp [hn, hb, hw]
    · simp [hn, hb, hw]
  · simp [hn, hb]

theorem readEntry_tcp (cx : Waker) (id n : ℕ) (s : SharedReader) : (s.readEntry cx id n).2.tcp = s.tcp := by
  unfold readEntry
  dsimp only
  split
  · rfl
  split
  · rfl
  split <;> rfl

theorem dropReceiver_tcp (k : ℕ) (hooked : Bool) (s : SharedReader) :
    (s.dropReceiver k hooked).tcp = s.tcp := by
  unfold dropReceiver
  split
  · rfl
  split
  · simp
  · rfl

theorem recvEntry_tcp (k : ℕ) (hooked : Bool) (cx : Waker) (s : SharedReader) :
    (s.recvEntry k hooked cx).2.tcp = s.tcp := by
  unfold recvEntry
  split
  · unfold awaitItem
    split <;> rfl
  · exact dropReceiver_tcp k hooked _

theorem finish_tcp (x : Target) (s : SharedReader) : (s.finish x).tcp = s.tcp := by
  unfold finish
  split
  · rfl
  · exact dropReceiver_tcp _ true s

theorem insert_tcp (addr : SocketAddr) (cx : Waker) (handle : Handle) (alloc : Bool) (s : SharedReader) :
    (s.insert addr cx handle alloc).2.tcp = s.tcp := by
  unfold insert
  split
  · rfl
  · split <;> rfl

theorem recvEntry_isSome (k : ℕ) (hooked : Bool) (cx : Waker) (s : SharedReader) :
    (s.recvEntry k hooked cx).1.isSome = true ↔ s.chan ≠ [] := by
  unfold recvEntry
  cases hc : s.chan with
  | nil => simp
  | cons item rest => simp

theorem recvEntry_news (cx w : Waker) (k : ℕ) (hooked : Bool) (s : SharedReader) :
    .wake w ∈ s.news (s.recvEntry k hooked cx).2 ↔
      w ∈ SharedReader.handsOn k hooked { s with chan := s.chan.tail } := by
  unfold recvEntry
  cases hc : s.chan with
  | nil =>
    have hlog : (s.awaitItem k cx).log = s.log := by
      unfold awaitItem
      split <;> rfl
    unfold handsOn news
    simp [hlog]
  | cons item rest =>
    exact handsOn_news (s := setEntry item.2
      { s.entries item.2 with handle := (s.entries item.2).handle.accept } { s with chan := rest })

/-- The wakers that a turn invokes which goes well. -/
def rings (s : SharedReader) (t : Tick) : List Waker :=
  let reader (owner : SocketAddr) := (s.upgrade owner).toList.map fun id => (s.entries id).readerPipeWaker
  match s.state, t.read with
  | .read owner _, .ready (.ok _) => reader owner
  | .nextPacket header, .ready (.ok bs) =>
    if (headerBy header bs).len = 0 then reader (headerBy header bs).addr else []
  | .sendSocket _ _ false, _ => if s.connected then (s.receivers.head?.map Prod.snd).toList else []
  | _, _ => []

/-- A turn with these answers ends in an error and leaves the reader where it is. -/
def Errs (s : SharedReader) (t : Tick) : Prop :=
  (s.Reads ∧ ∃ e, t.read = .ready (.error e)) ∨
    t.alloc = false ∧ s.connected = true ∧ ∃ header bs, s.state = .nextPacket header ∧ t.read = .ready (.ok bs) ∧
      bs ≠ [] ∧ filledBy header bs = 20 ∧ (headerBy header bs).len = 0 ∧ s.socketMap (headerBy header bs).addr = none

/-- A turn with these answers goes well, and the next one asks the stream for bytes. -/
def Onward (s : SharedReader) (t : Tick) : Prop :=
  match s.state, t.read with
  | .read owner left, .ready (.ok bs) =>
    match s.upgrade owner with
    | none => ¬ Cut bs.length left
    | some id =>
      let n := (bs.take (s.entries id).buffer.room).length
      (s.entries id).buffer.room ≠ 0 ∧ ¬ Cut n left ∧ (n = left ∨ n ≠ (s.entries id).buffer.room)
  | .nextPacket header, .ready (.ok bs) =>
    bs ≠ [] ∧ filledBy header bs = 20 ∧
      if (headerBy header bs).len = 0 then (s.socketMap (headerBy header bs).addr).isSome ∨ s.connected = false
      else ∀ id, s.upgrade (headerBy header bs).addr = some id → (s.entries id).buffer.room ≠ 0
  | .sendSocket _ _ _, _ => s.connected = false ∨ t.send = .ready ()
  | _, _ => False

/-- The payload that comes next belongs into a buffer without room. -/
def Blocked (id : ℕ) (s : SharedReader) : Prop := ∃ owner left, s.Stalled owner left id

section
variable {s s' : SharedReader} {id : ℕ}

theorem upgrade_congr (hm : s'.socketMap = s.socketMap)
    (hh : ∀ j, (s'.entries j).handle = .dropped ↔ (s.entries j).handle = .dropped) (a : SocketAddr) :
    s'.upgrade a = s.upgrade a := by
  have hp : (fun j => decide ((s'.entries j).handle ≠ .dropped)) = fun j => decide ((s.entries j).handle ≠ .dropped) := by
    funext j
    simp only [ne_eq, hh j]
  unfold upgrade
  rw [hm, hp]

theorem reads_congr (hst : s'.state = s.state) (hm : s'.socketMap = s.socketMap)
    (hh : ∀ j, (s'.entries j).handle = .dropped ↔ (s.entries j).handle = .dropped)
    (hb : ∀ j, (s'.entries j).buffer = (s.entries j).buffer) : s'.Reads ↔ s.Reads := by
  unfold Reads
  simp only [hst, hb, upgrade_congr hm hh]

theorem blocked_of_not_reads (hr : s.Reads) (hst : s'.state = s.state) (h : ¬ s'.Reads) : ∃ j, s'.Blocked j := by
  unfold Reads at hr h
  rw [hst] at h
  cases hs : s.state with
  | read owner left =>
    rw [hs] at h
    push Not at h
    obtain ⟨j, hu, hfull⟩ := h
    obtain ⟨hm, hl⟩ := Option.filter_eq_some_iff.mp hu
    exact ⟨j, owner, left, hst.trans hs, hm, by simpa using hl, hfull⟩
  | nextPacket header =>
    rw [hs] at h
    exact absurd trivial h
  | sendSocket addr j polled =>
    rw [hs] at hr
    exact hr.elim
  | error =>
    rw [hs] at hr
    exact hr.elim

/-- Outside the poll loop a reader comes to ask for bytes only if the full buffer is cleared that it
was refused by. -/
theorem reads_of_perform {m : Move} (hst : (s.perform m).state = s.state) (h : (s.perform m).Reads) :
    s.Reads ∨ ∃ id, s.Blocked id ∧ s.Clears id m := by
  by_cases hr : s.Reads
  · exact Or.inl hr
  obtain ⟨id, owner, left, hb⟩ := blocked_of_not_reads h hst.symm hr
  by_cases hc : s.Clears id m
  · exact Or.inr ⟨id, ⟨owner, left, hb⟩, hc⟩
  · exact absurd h (hb.perform hc).1.not_reads

/-- A read makes room only if it takes everything out of the buffer. -/
theorem readEntry_reads {cx : Waker} {n : ℕ} :
    (s.readEntry cx id n).2.Reads ↔ s.Reads ∨ s.Blocked id ∧ (s.entries id).buffer.bytes.length ≤ n := by
  have hst := s.readEntry_state cx id n
  constructor
  · intro h
    rcases reads_of_perform (m := .read cx id n) hst h with hr | ⟨j, hb, rfl, hle⟩
    · exact Or.inl hr
    · exact Or.inr ⟨hb, hle⟩
  · rintro (hr | ⟨⟨owner, left, hb⟩, hle⟩)
    · by_contra hno
      obtain ⟨j, owner, left, hb⟩ := blocked_of_not_reads hr hst hno
      have hfull : (s.entries j).buffer.room = 0 := by
        rcases s.readEntry_buffer cx id n j with heq | ⟨-, -, heq⟩
        · exact heq ▸ hb.full
        · have hroom := hb.full
          rw [heq] at hroom
          by_cases hlen : (s.entries j).buffer.bytes.length ≤ n
          · rw [ReadBuffer.room_read_of_le hlen] at hroom
            exact absurd hroom (s.entries j).buffer.capacity_pos.ne'
          · rwa [ReadBuffer.room_read (not_le.mp hlen)] at hroom
      have hbefore : s.Stalled owner left j :=
        ⟨hst.symm.trans hb.state, (congrFun (Calm.readEntry s cx id n).socketMap owner).symm.trans hb.known,
          fun hd => hb.held ((s.readEntry_handle cx id n j).trans hd), hfull⟩
      exact hbefore.not_reads hr
    · exact hb.clears (m := .read cx id n) ⟨rfl, hle⟩

theorem recvEntry_reads {k : ℕ} {hooked : Bool} {cx : Waker} : (s.recvEntry k hooked cx).2.Reads ↔ s.Reads :=
  reads_congr (Calm.recvEntry s k hooked cx).state (Calm.recvEntry s k hooked cx).socketMap
    (s.recvEntry_dropped k hooked cx) fun j => s.recvEntry_buffer k hooked cx j

theorem finish_reads {x : Target} : (s.finish x).Reads ↔ s.Reads := by
  unfold finish
  split
  · rfl
  · rename_i k
    have hentries := s.dropReceiver_entries k true
    exact reads_congr (Calm.dropReceiver s k true).state (Calm.dropReceiver s k true).socketMap
      (fun j => by rw [hentries]) fun j => by rw [hentries]

theorem not_reads_of_error (h : s.state = .error) : ¬ s.Reads := by
  simp [Reads, h]

theorem Errs.poll {t : Tick} (h : s.Errs t) (cx : Waker) :
    ∃ e s', s.pollOnce cx t = (.ready (.error e), s') ∧ (s' = s ∨ ∃ bs, s' = s.consume bs) ∧ s'.Reads := by
  unfold pollOnce
  rcases h with ⟨hreads, e, hr⟩ | ⟨ha, hc, header, bs, hs, hr, h0, h20, hl, hm⟩
  · refine ⟨e, s, ?_, Or.inl rfl, hreads⟩
    unfold Reads at hreads
    split at hreads
    · rename_i owner left hs
      rw [hs]
      unfold pollRead
      cases hu : s.upgrade owner with
      | none => simp [hu, hr]
      | some id => simp [hu, ReadBuffer.fillBuffer, hreads id hu, hr]
    · rename_i header hs
      rw [hs]
      simp [pollNextPacket, hr]
    · exact hreads.elim
  · have hinit : MuxFrameHeader.assumeInit ((header ++ bs).take 20) = headerBy header bs := rfl
    have hlen : (header.length + bs.length % 256) % 256 = MuxFrameHeader.size := h20
    have hm' : (s.consume bs).socketMap (headerBy header bs).addr = none := hm
    have hc' : (s.consume bs).connected = true := hc
    obtain ⟨e, he⟩ : ∃ e, s.pollNextPacket cx t header = (.ready (.error e), s.consume bs) := by
      simp [pollNextPacket, hr, h0, hlen, hinit, takeHeader, hl, hm', hc', insert, ha]
    have hs' : (s.consume bs).state = .nextPacket header := hs
    rw [hs]
    exact ⟨e, _, he, Or.inr ⟨bs, rfl⟩, by simp [Reads, hs']⟩

theorem finishRead_onward {owner : SocketAddr} {left n : ℕ} :
    (∃ s', s.finishRead owner left n = (.ready (.ok ()), s') ∧ s'.Reads) ↔
      ¬ Cut n left ∧ (n = left ∨ ∀ id, s.upgrade owner = some id → (s.entries id).buffer.room ≠ 0) := by
  unfold finishRead Cut
  by_cases h0 : n = 0
  · simp [h0, SharedReader.error]
  by_cases hfit : n < 65536 ∧ n ≤ left
  · rw [if_neg h0, if_pos hfit]
    by_cases hl : left - n = 0
    · have heq : n = left := by omega
      simp [heq, Reads, setState]
      omega
    · have hne : n ≠ left := by omega
      simp [hl, h0, hfit, hne, Reads, setState, upgrade]
  · simp [h0, hfit, SharedReader.error]

theorem pollRead_onward (cx : Waker) {t : Tick} {owner : SocketAddr} {left : ℕ} (hs : s.state = .read owner left) :
    (∃ s', s.pollRead cx t owner left = (.ready (.ok ()), s') ∧ s'.Reads) ↔ s.Onward t := by
  unfold pollRead Onward
  rw [hs]
  cases hu : s.upgrade owner with
  | none =>
    cases hr : t.read with
    | pending => simp
    | ready res =>
      cases res with
      | error e => simp
      | ok bs =>
        have hu' : (s.consume bs).upgrade owner = none := hu
        dsimp only
        rw [finishRead_onward, hu', hu]
        simp
  | some id =>
    dsimp only
    by_cases hroom : (s.entries id).buffer.room = 0
    · cases hr : t.read with
      | pending => simp [ReadBuffer.fillBuffer, hroom]
      | ready res => cases res <;> simp [ReadBuffer.fillBuffer, hroom, hu]
    · cases hr : t.read with
      | pending => simp [ReadBuffer.fillBuffer, hroom]
      | ready res =>
        cases res with
        | error e => simp [ReadBuffer.fillBuffer, hroom]
        | ok bs =>
          have hfill : (s.entries id).buffer.fillBuffer (.ready (.ok bs)) =
              (.ready (.ok (some (bs.take (s.entries id).buffer.room).length)), (s.entries id).buffer.fill bs) := by
            simp [ReadBuffer.fillBuffer, hroom]
          have hstep : (s.deliver id ((s.entries id).buffer.fill bs)
              (got (s.entries id).buffer (.ready (.ok bs)))).wake (s.entries id).readerPipeWaker = s.fill id bs := rfl
          have hu' : (s.fill id bs).upgrade owner = some id := by
            rw [upgrade_congr (s := s) (by rfl) (fun j => ?_), hu]
            rcases eq_or_ne j id with rfl | hne
            · simp [SharedReader.fill, deliver, setEntry, wake, emit]
            · simp [SharedReader.fill, deliver, setEntry, wake, emit, consume, hne]
          have hroom' : ((s.fill id bs).entries id).buffer.room =
              (s.entries id).buffer.room - (bs.take (s.entries id).buffer.room).length := by
            simp [SharedReader.fill, deliver, setEntry, wake, emit, ReadBuffer.room, ReadBuffer.fill, ReadBuffer.filled,
              Nat.sub_sub]
          have hle : (bs.take (s.entries id).buffer.room).length ≤ (s.entries id).buffer.room := List.length_take_le _ _
          dsimp only
          rw [hfill, hu]
          dsimp only
          rw [hstep, finishRead_onward, hu']
          simp only [Option.some.injEq, forall_eq', hroom']
          generalize (bs.take (s.entries id).buffer.room).length = n at *
          constructor
          · rintro ⟨hcut, hor⟩
            exact ⟨hroom, hcut, hor.imp_right (by omega)⟩
          · rintro ⟨-, hcut, hor⟩
            exact ⟨hcut, hor.imp_right (by omega)⟩

theorem takeHeader_onward (cx : Waker) (t : Tick) (header : MuxFrameHeader) :
    (∃ s', s.takeHeader cx t header = (.ready (.ok ()), s') ∧ s'.Reads) ↔
      if header.len = 0 then (s.socketMap header.addr).isSome ∨ s.connected = false
      else ∀ id, s.upgrade header.addr = some id → (s.entries id).buffer.room ≠ 0 := by
  unfold takeHeader
  by_cases hl : header.len = 0
  · rw [if_neg (not_not.mpr hl), if_pos hl]
    cases hm : s.socketMap header.addr with
    | some id => simp [Reads, setState]
    | none =>
      by_cases hc : s.connected = true
      · cases ha : t.alloc with
        | true => simp [hc, insert, hm, Reads, setState, emit]
        | false => simp [hc, insert, hm]
      · simp [hc, Reads, setState]
  · rw [if_pos hl, if_neg hl]
    simp [Reads, setState, upgrade]

theorem pollOnce_onward (cx : Waker) (t : Tick) (s : SharedReader) :
    (∃ s', s.pollOnce cx t = (.ready (.ok ()), s') ∧ s'.Reads) ↔ s.Onward t := by
  unfold pollOnce
  cases hs : s.state with
  | read owner left => exact pollRead_onward cx hs
  | nextPacket header =>
    unfold pollNextPacket Onward
    rw [hs]
    cases hr : t.read with
    | pending => simp
    | ready res =>
      cases res with
      | error e => simp
      | ok bs =>
        dsimp only
        by_cases h0 : bs = []
        · simp [h0, SharedReader.error]
        rw [if_neg (by simpa using h0)]
        have hdef : (header.length + bs.length % 256) % 256 = filledBy header bs := rfl
        rw [hdef]
        rcases lt_trichotomy (filledBy header bs) MuxFrameHeader.size with hlt | heq | hgt
        · rw [compare_lt_iff_lt.mpr hlt]
          have hne : filledBy header bs ≠ 20 := hlt.ne
          simp [hne]
        · rw [compare_eq_iff_eq.mpr heq]
          have h20 : filledBy header bs = 20 := heq
          dsimp only
          rw [takeHeader_onward]
          simp only [h0, h20, ne_eq, not_false_eq_true, true_and]
          rfl
        · rw [compare_gt_iff_gt.mpr hgt]
          have hne : filledBy header bs ≠ 20 := hgt.ne'
          simp [hne, SharedReader.error]
  | sendSocket addr id polled =>
    unfold pollSend Onward
    rw [hs]
    by_cases hc : s.connected = true
    · cases hsend : t.send with
      | pending => simp [hc]
      | ready v => simp [hc, Reads, setState]
    · simp [hc, Reads, setState]
  | error => simp [Onward, hs]

theorem remove_tcp (addr : SocketAddr) (s : SharedReader) : (s.remove addr).tcp = s.tcp := by
  unfold remove
  split
  · rfl
  · dsimp only
    split <;> rfl

theorem Turn.whole {cx : Waker} {t : Tick} {r : Poll (Except IoError Unit)} (h : Turn cx t s r s')
    (hnone : ∀ header, s.state = .nextPacket header → header = [])
    (hw : ∀ header bs, s.state = .nextPacket header → t.read = .ready (.ok bs) → bs = [] ∨ bs.length = 20)
    {header : List UInt8} (hs : s'.state = .nextPacket header) : header = [] := by
  have hleft : ∀ owner n, payloadLeft owner n = .nextPacket header → header = [] := by
    intro owner n he
    unfold payloadLeft at he
    split at he <;> simpa using he.symm
  have hnext : ∀ s₁ : SharedReader, (s₁.setState (.nextPacket [])).state = .nextPacket header → header = [] := by
    intro s₁ he
    exact (SharedReaderState.nextPacket.inj he).symm
  cases h with
  | parked => exact hnone header hs
  | full => exact hnone header hs
  | @short filled bs hs' hr h0 hlt =>
    obtain rfl := hnone filled hs'
    have hlen := (hw [] bs hs' hr).resolve_left h0
    simp [filledBy, hlen] at hlt
  | sending => cases hs
  | failed => exact hnone header hs
  | broken => exact hnone header hs
  | discardCut => cases hs
  | fillCut => cases hs
  | headerCut => cases hs
  | noMemory => exact hnone header hs
  | discard => exact hleft _ _ hs
  | fill => exact hleft _ _ hs
  | payload => cases hs
  | close => exact hnext _ hs
  | ignore => exact hnext _ hs
  | opening => cases hs
  | sent => exact hnext _ hs
  | unsent => exact hnext _ hs

theorem Turn.tcp {cx : Waker} {t : Tick} {v : Except IoError Unit} (h : Turn cx t s (.ready v) s') :
    s'.tcp = s.tcp := by
  cases h with
  | failed => rfl
  | broken => rfl
  | discardCut => rfl
  | fillCut => rfl
  | headerCut => rfl
  | noMemory => rfl
  | discard => rfl
  | fill => rfl
  | payload => rfl
  | @close header bs => exact remove_tcp (headerBy header bs).addr (s.consume bs)
  | ignore => rfl
  | opening => rfl
  | @sent addr id polled => cases polled <;> simp [setState, offer]
  | unsent =>
    split <;> rfl

theorem Turn.rings {cx w : Waker} {t : Tick} (h : Turn cx t s (.ready (.ok ())) s') :
    .wake w ∈ s.news s' ↔ w ∈ s.rings t := by
  cases h with
  | discard hs hu hr => simp [SharedReader.rings, hs, hr, hu, news, setState, consume]
  | fill hs hu hr =>
    simp [SharedReader.rings, hs, hr, hu, news, setState, SharedReader.fill, wake, emit, deliver, setEntry, consume]
  | payload hs hr _ _ hl => simp [SharedReader.rings, hs, hr, hl, news, setState, consume]
  | @close header bs j hs hr _ _ hl hm =>
    have hm' : (s.consume bs).socketMap (headerBy header bs).addr = some j := hm
    unfold remove
    rw [hm']
    by_cases hd : (s.entries j).handle = .dropped
    · simp [SharedReader.rings, hs, hr, hl, upgrade, hm, Option.filter, hd, news, setState, unlink, consume]
    · simp [SharedReader.rings, hs, hr, hl, upgrade, hm, Option.filter, hd, news, setState, unlink, consume, wake, emit]
  | ignore hs hr _ _ hl hm => simp [SharedReader.rings, hs, hr, hl, upgrade, hm, news, setState, consume]
  | opening hs hr _ _ hl hm =>
    simp [SharedReader.rings, hs, hr, hl, upgrade, hm, news, setState, consume, add, emit]
  | @sent addr j polled hs hc =>
    cases polled with
    | true => simp [SharedReader.rings, hs, news, setState]
    | false =>
      cases hrec : s.receivers with
      | nil => simp [SharedReader.rings, hs, hc, hrec, news, setState, offer, wakeReceiver]
      | cons r rest => simp [SharedReader.rings, hs, hc, hrec, news, setState, offer, wakeReceiver, wake, emit]
  | @unsent addr j polled hs hc =>
    have hlog : ((if (s.entries j).handle = .queued then
        s.setEntry j { s.entries j with handle := .dropped } else s).setState (.nextPacket [])).log = s.log := by
      split <;> rfl
    cases polled <;> simp [SharedReader.rings, hs, hc, news, hlog]

end

end SharedReader

end VtMuxer
