import VtMuxer.Read.Blocked
import VtMuxer.Read.Moves

/-! How long a full buffer stops everybody. Reading some of it does not help: a buffer is rewound
when all of it has been read, so that there is room again only then. -/
namespace VtMuxer
namespace SharedReader

/-- The stream stands in a payload for an entry whose buffer has no room. -/
structure Stalled (s : SharedReader) (owner : SocketAddr) (left id : ℕ) : Prop where
  state : s.state = .read owner left
  known : s.socketMap owner = some id
  held : (s.entries id).handle ≠ .dropped
  full : (s.entries id).buffer.room = 0

/-- The reader of the entry takes all that is in its buffer, or is dropped. -/
def Clears (s : SharedReader) (id : ℕ) : Move → Prop
  | .read _ j n => j = id ∧ (s.entries id).buffer.bytes.length ≤ n
  | .release j => j = id
  | _ => False

/-- Nothing comes from the stream, to nobody. -/
structure Still (s s' : SharedReader) : Prop where
  next : s.next ≤ s'.next
  consumed : s'.consumed = s.consumed
  traffic : s'.traffic = s.traffic
  appended : ∀ j < s.next, (s'.entries j).appended = (s.entries j).appended

section
variable {s s' s'' : SharedReader} {owner : SocketAddr} {left id : ℕ} {m : Move}

theorem Still.refl (s : SharedReader) : Still s s := ⟨le_rfl, rfl, rfl, fun _ _ => rfl⟩

theorem Still.trans (h : Still s s') (h' : Still s' s'') : Still s s'' where
  next := h.next.trans h'.next
  consumed := h'.consumed.trans h.consumed
  traffic := h'.traffic.trans h.traffic
  appended j hj := (h'.appended j (hj.trans_le h.next)).trans (h.appended j hj)

theorem Calm.still (h : Calm s s') : Still s s' := ⟨h.next.ge, h.consumed, h.traffic, fun j _ => h.appended j⟩

theorem Stalled.upgrade (h : s.Stalled owner left id) : s.upgrade owner = some id := by
  simp [SharedReader.upgrade, h.known, h.held, Option.filter]

theorem Stalled.pollOnce (h : s.Stalled owner left id) (cx : Waker) (t : Tick) :
    s.pollOnce cx t = (.pending, s.refuse id cx) := by
  simp only [SharedReader.pollOnce, h.state, SharedReader.pollRead, h.upgrade, ReadBuffer.fillBuffer, h.full, if_true]
  rfl

theorem Stalled.not_reads (h : s.Stalled owner left id) : ¬ s.Reads := by
  intro hr
  unfold Reads at hr
  rw [h.state] at hr
  exact hr id h.upgrade h.full

theorem readEntry_buffer (cx : Waker) (id n j : ℕ) (s : SharedReader) :
    ((s.readEntry cx id n).2.entries j).buffer = (s.entries j).buffer ∨
      j = id ∧ n ≠ 0 ∧ ((s.readEntry cx id n).2.entries j).buffer = ((s.entries j).buffer.read n).2 := by
  unfold SharedReader.readEntry
  dsimp only
  split
  · exact Or.inl rfl
  split
  · rename_i hn hbs
    rcases eq_or_ne j id with rfl | hne
    · refine Or.inr ⟨rfl, hn, ?_⟩
      simp [SharedReader.wake, SharedReader.emit, SharedReader.setEntry]
    · simp [SharedReader.wake, SharedReader.emit, SharedReader.setEntry, hne]
  split
  · exact Or.inl rfl
  · rcases eq_or_ne j id with rfl | hne
    · simp [SharedReader.setEntry]
    · simp [SharedReader.setEntry, hne]

/-- A read returns what is in the buffer, as much as it can, or there is nothing and the caller
waits. -/
theorem readEntry_cases (s : SharedReader) (cx : Waker) (id n : ℕ) :
    ((s.readEntry cx id n).1 = none ∧ (s.entries id).buffer.bytes = [] ∧
      ((s.readEntry cx id n).2.entries id).buffer.bytes = []) ∨
    ((s.readEntry cx id n).1 = some ((s.entries id).buffer.bytes.take n) ∧
      ((s.readEntry cx id n).2.entries id).buffer.bytes = (s.entries id).buffer.bytes.drop n ∧
      ((s.entries id).buffer.bytes = [] → n ≠ 0 → (s.entries id).weak = 0)) := by
  unfold SharedReader.readEntry
  dsimp only
  split
  · rename_i hn
    right
    simp [hn]
  split
  · rename_i hn hbs
    right
    rw [ReadBuffer.read_fst] at hbs
    refine ⟨rfl, ?_, fun hnil => absurd (by simp [hnil]) hbs⟩
    simp [SharedReader.wake, SharedReader.emit, SharedReader.setEntry, ReadBuffer.bytes_read]
  · rename_i hn hbs
    rw [ReadBuffer.read_fst, not_not, List.take_eq_nil_iff] at hbs
    have hnil : (s.entries id).buffer.bytes = [] := hbs.resolve_left hn
    split
    · rename_i hw
      right
      simp [SharedReader.emit, hnil, hw]
    · left
      simp [SharedReader.setEntry, hnil]

theorem recvEntry_buffer (k : ℕ) (hooked : Bool) (cx : Waker) (j : ℕ) (s : SharedReader) :
    ((s.recvEntry k hooked cx).2.entries j).buffer = (s.entries j).buffer := by
  unfold SharedReader.recvEntry
  split
  · unfold awaitItem
    split <;> rfl
  · rename_i item rest _
    dsimp only
    rw [dropReceiver_entries]
    rcases eq_or_ne j item.2 with rfl | hne
    · simp [SharedReader.setEntry]
    · simp [SharedReader.setEntry, hne]

theorem Stalled.congr (h : s.Stalled owner left id) (hs : s'.state = s.state) (hm : s'.socketMap owner = s.socketMap owner)
    (hd : (s'.entries id).handle = .dropped → (s.entries id).handle = .dropped)
    (hr : (s'.entries id).buffer.room = (s.entries id).buffer.room) : s'.Stalled owner left id where
  state := hs.trans h.state
  known := hm.trans h.known
  held hdrop := h.held (hd hdrop)
  full := hr.trans h.full

theorem Stalled.refuse (h : s.Stalled owner left id) (cx : Waker) :
    (s.refuse id cx).Stalled owner left id ∧ Still s (s.refuse id cx) := by
  constructor
  · refine h.congr rfl rfl ?_ ?_
    · simp [SharedReader.refuse, SharedReader.emit, SharedReader.setEntry]
    · simp [SharedReader.refuse, SharedReader.emit, SharedReader.setEntry]
  · refine ⟨le_rfl, rfl, ?_, fun j hj => ?_⟩
    · simp [SharedReader.refuse, SharedReader.traffic, SharedReader.emit, SharedReader.setEntry, SharedReader.wake,
        Event.isTraffic]
    · rcases eq_or_ne j id with rfl | hne
      · simp [SharedReader.refuse, SharedReader.emit, SharedReader.setEntry]
      · simp [SharedReader.refuse, SharedReader.emit, SharedReader.setEntry, SharedReader.wake, hne]

theorem Stalled.add (h : s.Stalled owner left id) {addr : SocketAddr} (hm : s.socketMap addr = none) (cx : Waker)
    (hd : Handle) : (s.add addr cx hd).Stalled owner left id ∧ Still s (s.add addr cx hd) := by
  have hid := s.allocated owner id h.known
  have hne : owner ≠ addr := by
    rintro rfl
    rw [h.known] at hm
    cases hm
  constructor
  · refine h.congr rfl ?_ ?_ ?_
    · simp [SharedReader.add, hne]
    · simp [SharedReader.add, hid.ne]
    · simp [SharedReader.add, hid.ne]
  · refine ⟨Nat.le_succ _, rfl, rfl, fun j hj => ?_⟩
    simp [SharedReader.add, hj.ne]

/-- Whatever else is done, everybody goes on waiting. -/
theorem Stalled.perform (h : s.Stalled owner left id) (hm : ¬ s.Clears id m) :
    (s.perform m).Stalled owner left id ∧ Still s (s.perform m) := by
  cases m with
  | once cx t =>
    show (s.pollOnce cx t).2.Stalled owner left id ∧ Still s (s.pollOnce cx t).2
    rw [h.pollOnce]
    exact h.refuse cx
  | yield cx => exact ⟨h.congr rfl rfl (fun hd => hd) rfl, ⟨le_rfl, rfl, emit_traffic rfl s, fun _ _ => rfl⟩⟩
  | read cx j n =>
    have hcalm := Calm.readEntry s cx j n
    refine ⟨h.congr hcalm.state (congrFun hcalm.socketMap owner) ?_ ?_, hcalm.still⟩
    · intro hd
      exact (s.readEntry_handle cx j n id).symm.trans hd
    · rcases s.readEntry_buffer cx j n id with hsame | ⟨rfl, -, hread⟩
      · exact congrArg ReadBuffer.room hsame
      · have hlt : n < (s.entries id).buffer.bytes.length := by
          by_contra hge
          exact hm ⟨rfl, by omega⟩
        exact (congrArg ReadBuffer.room hread).trans (ReadBuffer.room_read hlt)
  | accept k hooked cx =>
    have hcalm := Calm.recvEntry s k hooked cx
    refine ⟨h.congr hcalm.state (congrFun hcalm.socketMap owner) (s.recvEntry_dropped k hooked cx id).mp ?_, hcalm.still⟩
    exact congrArg ReadBuffer.room (s.recvEntry_buffer k hooked cx id)
  | leave k hooked =>
    have hcalm := Calm.dropReceiver s k hooked
    have hentries := s.dropReceiver_entries k hooked
    refine ⟨h.congr hcalm.state (congrFun hcalm.socketMap owner) (fun hd => ?_) ?_, hcalm.still⟩
    · rwa [show s.perform (.leave k hooked) = s.dropReceiver k hooked from rfl, hentries] at hd
    · rw [show s.perform (.leave k hooked) = s.dropReceiver k hooked from rfl, hentries]
  | add addr alloc =>
    rcases s.perform_add addr alloc with heq | ⟨hfree, heq⟩
    · rw [heq]
      exact ⟨h, .refl s⟩
    · rw [heq]
      exact h.add hfree .noop .held
  | release j =>
    have hne : id ≠ j := fun heq => hm heq.symm
    have hcalm : Calm s (s.release j) := .setEntry s rfl
    refine ⟨h.congr rfl rfl ?_ ?_, hcalm.still⟩
    · simp [SharedReader.perform, SharedReader.release, SharedReader.setEntry, hne]
    · simp [SharedReader.perform, SharedReader.release, SharedReader.setEntry, hne]
  | disconnect => exact ⟨h.congr rfl rfl (fun hd => hd) rfl, ⟨le_rfl, rfl, rfl, fun _ _ => rfl⟩⟩

/-- When the buffer is empty or its reader is gone, the stream goes on. -/
theorem Stalled.clears (h : s.Stalled owner left id) (hm : s.Clears id m) : (s.perform m).Reads := by
  cases m with
  | read cx j n =>
    obtain ⟨rfl, hle⟩ := hm
    have hcalm := Calm.readEntry s cx j n
    have hbytes := ReadBuffer.bytes_ne_nil_of_full h.full
    have hn : n ≠ 0 := by
      rintro rfl
      exact hbytes (List.length_eq_zero_iff.mp (by omega))
    have hbuf : ((s.readEntry cx j n).2.entries j).buffer = ((s.entries j).buffer.read n).2 := by
      have htake : (s.entries j).buffer.bytes.take n ≠ [] := by
        rw [List.take_of_length_le hle]
        exact hbytes
      simp [SharedReader.readEntry, hn, ReadBuffer.read_fst, htake, SharedReader.wake, SharedReader.emit,
        SharedReader.setEntry]
    unfold Reads
    rw [show (s.perform (.read cx j n)).state = s.state from hcalm.state, h.state]
    intro i hi
    obtain ⟨hmap, -⟩ := Option.filter_eq_some_iff.mp hi
    rw [show (s.perform (.read cx j n)).socketMap = s.socketMap from hcalm.socketMap, h.known] at hmap
    obtain rfl := Option.some.inj hmap
    show ((s.readEntry cx j n).2.entries j).buffer.room ≠ 0
    rw [hbuf, ReadBuffer.room_read_of_le hle]
    exact (s.entries j).buffer.capacity_pos.ne'
  | release j =>
    obtain rfl : j = id := hm
    unfold Reads
    rw [show (s.perform (.release j)).state = s.state from rfl, h.state]
    intro i hi
    obtain ⟨hmap, hlive⟩ := Option.filter_eq_some_iff.mp hi
    rw [show (s.perform (.release j)).socketMap = s.socketMap from rfl, h.known] at hmap
    obtain rfl := Option.some.inj hmap
    simp [SharedReader.perform, SharedReader.release, SharedReader.setEntry] at hlive
  | _ => exact hm.elim

/-- From the moment that the stream stands before a full buffer, whatever is done and in any order,
nothing is taken from the stream, nobody gets a byte and no connection is opened or closed until
the reader of that buffer takes the last of it or is dropped; and then the stream goes on. -/
theorem stalled_until_cleared (h : s.Stalled owner left id) (hr : Plays (fun s m => ¬ s.Clears id m) s s') :
    s'.Stalled owner left id ∧ Still s s' ∧ (∀ cx t, (s'.pollOnce cx t).1 = .pending) ∧
      ∀ m, (s'.perform m).Reads ↔ s'.Clears id m := by
  have hstay : s'.Stalled owner left id ∧ Still s s' := by
    induction hr with
    | refl => exact ⟨h, .refl s⟩
    | tail _ hstep ih =>
      obtain ⟨m, -, hm, rfl⟩ := hstep
      obtain ⟨hst, hstill⟩ := ih.1.perform hm
      exact ⟨hst, ih.2.trans hstill⟩
  refine ⟨hstay.1, hstay.2, fun cx t => by rw [hstay.1.pollOnce], fun m => ⟨fun hreads => ?_, hstay.1.clears⟩⟩
  by_contra hno
  exact (hstay.1.perform hno).1.not_reads hreads

end

/-- Two frames of the greatest length fill a buffer, and a third one is for it as well. -/
theorem exists_stalled :
    ∃ S, Runtime.Runs Runtime.Keeps (Runtime.init true) S ∧ S.shared.Stalled .unspecified 1 0 := by
  have h₀ : Runtime.Runs Runtime.Keeps (Runtime.init true) (Runtime.init true) := .refl
  have h₁ := h₀.act (.add .unspecified true) rfl trivial
  have h₂ := h₁.act (.add ⟨SocketAddr.unspecified.ip, .new 1⟩ true) rfl trivial
  have h₃ := h₂.act (.read 1 1 1) ⟨rfl, by decide, by rintro o ⟨⟩⟩ trivial
  have h₄ := h₃.act (.lock (.read 1)) ⟨rfl, 1, rfl⟩ trivial
  have hstart : Runtime.Filling 0 (.nextPacket []) _ := ⟨h₄, rfl, rfl, rfl, rfl, rfl, rfl, rfl, rfl⟩
  have hone : Runtime.Filling 0 (.read .unspecified 65535) _ := hstart.header (by omega) (by omega)
  have hhalf := hone.payload (by omega) (by omega) (by omega)
  have htwo : Runtime.Filling _ (.read .unspecified 65535) _ := hhalf.header (by omega) (by omega)
  have hfull := htwo.payload (by omega) (by omega) (by omega)
  have hmore : Runtime.Filling _ (.read .unspecified 1) _ := hfull.header (by omega) (by omega)
  refine ⟨_, hmore.run, hmore.state, hmore.known, ?_, ?_⟩
  · rw [hmore.held]
    decide
  · rw [ReadBuffer.room, hmore.capacity, hmore.filled]

/-- All of a full buffer is read but the last byte. -/
theorem stalled_until_cleared_but_one :
    ∃ s s', s.Stalled .unspecified 1 0 ∧ s' = s.perform (.read .noop 0 ((s.entries 0).buffer.bytes.length - 1)) ∧
      Plays (fun s m => ¬ s.Clears 0 m) s s' ∧ s'.Stalled .unspecified 1 0 ∧ Still s s' ∧
      (∀ cx t, (s'.pollOnce cx t).1 = .pending) ∧ ∀ m, (s'.perform m).Reads ↔ s'.Clears 0 m := by
  obtain ⟨S, -, hst⟩ := exists_stalled
  have hsome : 0 < (S.shared.entries 0).buffer.bytes.length :=
    List.length_pos_of_ne_nil (ReadBuffer.bytes_ne_nil_of_full hst.full)
  have hpart : ¬ S.shared.Clears 0 (.read .noop 0 ((S.shared.entries 0).buffer.bytes.length - 1)) := by
    rintro ⟨-, hle⟩
    omega
  have hplay : Plays (fun s m => ¬ s.Clears 0 m) S.shared
      (S.shared.perform (.read .noop 0 ((S.shared.entries 0).buffer.bytes.length - 1))) :=
    .single ⟨.read .noop 0 ((S.shared.entries 0).buffer.bytes.length - 1), trivial, hpart, rfl⟩
  exact ⟨S.shared, _, hst, rfl, hplay, stalled_until_cleared hst hplay⟩

end SharedReader

end VtMuxer
