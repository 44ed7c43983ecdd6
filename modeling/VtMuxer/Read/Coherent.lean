import VtMuxer.Read.Polls

/-! What holds of the entries in every run: the weak count says whether the map knows an
entry, and the reader is at a place of the stream where bytes are missing. -/
namespace VtMuxer

namespace SharedReader

/-- Everything that can happen to a shared reader. -/
inductive Acts (s : SharedReader) : SharedReader → Prop where
  | once (cx : Waker) (t : Tick) (hw : s.Within t) : Acts s (s.pollOnce cx t).2
  | yield (cx : Waker) : Acts s (s.emit (.coopPending cx))
  | read (cx : Waker) (id n : ℕ) : Acts s (s.readEntry cx id n).2
  | accept (a : ℕ) (hooked : Bool) (cx : Waker) : Acts s (s.recvEntry a hooked cx).2
  | leave (a : ℕ) (hooked : Bool) : Acts s (s.dropReceiver a hooked)
  | add (addr : SocketAddr) (alloc : Bool) : Acts s (s.insert addr .noop .held alloc).2
  | release (id : ℕ) : Acts s (s.release id)
  | disconnect : Acts s s.disconnect

def Reachable (s : SharedReader) : Prop := ∃ connected, Relation.ReflTransGen Acts (init connected) s

structure Coherent (s : SharedReader) : Prop where
  linked : ∀ id < s.next, ((s.entries id).weak = 1 ∧ ∃ a, s.socketMap a = some id) ∨
    ((s.entries id).weak = 0 ∧ ∀ a, s.socketMap a ≠ some id)
  fresh : ∀ id, s.next ≤ id → (s.entries id).handle = .dropped
  valid : ∀ p, s.position = some p → p.Valid

section
variable {s s' : SharedReader}

theorem Coherent.congr (h : s.Coherent) (hm : s'.socketMap = s.socketMap) (hn : s'.next = s.next)
    (hw : ∀ id, (s'.entries id).weak = (s.entries id).weak)
    (hh : ∀ id, (s.entries id).handle = .dropped → (s'.entries id).handle = .dropped)
    (hv : ∀ p, s'.position = some p → p.Valid) : s'.Coherent where
  linked id hid := by
    rw [hw, hm]
    exact h.linked id (hn ▸ hid)
  fresh id hid := hh id (h.fresh id (hn ▸ hid))
  valid := hv

theorem Coherent.rest (h : s.Coherent) (hm : s'.socketMap = s.socketMap) (hn : s'.next = s.next)
    (he : s'.entries = s.entries) (hv : ∀ p, s'.position = some p → p.Valid) : s'.Coherent := by
  exact h.congr hm hn (fun id => by rw [he]) (fun id hd => by rw [he, hd]) hv

theorem Coherent.setEntry (h : s.Coherent) {id : ℕ} {e : ReaderEntry} (hw : e.weak = (s.entries id).weak)
    (hh : (s.entries id).handle = .dropped → e.handle = .dropped) : (s.setEntry id e).Coherent := by
  have hent : ∀ j, (s.setEntry id e).entries j = if j = id then e else s.entries j := by
    intro j
    rcases eq_or_ne j id with rfl | hne
    · simp [SharedReader.setEntry]
    · simp [SharedReader.setEntry, hne]
  refine h.congr rfl rfl ?_ ?_ h.valid
  · intro j
    rw [hent]
    split
    · rename_i hj
      rw [hj, hw]
    · rfl
  · intro j hd
    rw [hent]
    split
    · rename_i hj
      exact hh (hj ▸ hd)
    · exact hd

theorem Coherent.emit (h : s.Coherent) (e : Event) : (s.emit e).Coherent := h.rest rfl rfl rfl h.valid

theorem Coherent.wake (h : s.Coherent) (w : Waker) : (s.wake w).Coherent := h.emit _

theorem Coherent.consume (h : s.Coherent) (bs : List UInt8) : (s.consume bs).Coherent :=
  h.rest rfl rfl rfl h.valid

theorem Coherent.setState (h : s.Coherent) {st : SharedReaderState}
    (hv : ∀ p, (s.setState st).position = some p → p.Valid) : (s.setState st).Coherent :=
  h.rest rfl rfl rfl hv

theorem Coherent.wakeReceiver (h : s.Coherent) : s.wakeReceiver.Coherent := by
  refine h.rest (by simp) (by simp) (by simp) ?_
  have hp : s.wakeReceiver.position = s.position := by simp [position]
  rw [hp]
  exact h.valid

theorem Coherent.offer (h : s.Coherent) (addr : SocketAddr) (id : ℕ) : (s.offer addr id).Coherent := by
  have hc : Coherent { s with chan := s.chan ++ [(addr, id)] } := h.rest rfl rfl rfl h.valid
  exact hc.wakeReceiver

theorem Coherent.fill (h : s.Coherent) (id : ℕ) (bs : List UInt8) : (s.fill id bs).Coherent := by
  have hc := h.consume (bs.take (s.entries id).buffer.room)
  have hset : (s.deliver id ((s.entries id).buffer.fill bs) (bs.take (s.entries id).buffer.room)).Coherent :=
    Coherent.setEntry hc rfl fun hd => hd
  exact hset.wake _

/-- The map forgets an entry, and its weak count falls to zero. -/
theorem Coherent.unlink (h : s.Coherent) {addr : SocketAddr} {id : ℕ} (hm : s.socketMap addr = some id) :
    (s.unlink addr id).Coherent where
  linked j hj := by
    rcases eq_or_ne j id with rfl | hne
    · have hweak : (s.entries j).weak = 1 := by
        rcases h.linked j hj with ⟨hw, -⟩ | ⟨-, hno⟩
        · exact hw
        · exact absurd hm (hno addr)
      right
      constructor
      · simp [SharedReader.unlink, hweak]
      · intro b hb
        have hb' : Function.update s.socketMap addr none b = some j := hb
        rcases eq_or_ne b addr with rfl | hba
        · simp at hb'
        · rw [Function.update_of_ne hba] at hb'
          exact hba (s.distinct b addr j hb' hm)
    · have hw : ((s.unlink addr id).entries j).weak = (s.entries j).weak := by
        simp [SharedReader.unlink, hne]
      rw [hw]
      rcases h.linked j hj with ⟨hw1, b, hb⟩ | ⟨hw0, hno⟩
      · refine Or.inl ⟨hw1, b, ?_⟩
        have hba : b ≠ addr := by
          rintro rfl
          rw [hm] at hb
          exact hne (Option.some.inj hb).symm
        show Function.update s.socketMap addr none b = some j
        rw [Function.update_of_ne hba, hb]
      · exact Or.inr ⟨hw0, fun b hb => hno b (of_update_none hb)⟩
  fresh j hj := by
    have hd := h.fresh j hj
    rcases eq_or_ne j id with rfl | hne
    · simpa [SharedReader.unlink] using hd
    · simpa [SharedReader.unlink, hne] using hd
  valid := h.valid

theorem Coherent.remove (h : s.Coherent) (addr : SocketAddr) : (s.remove addr).Coherent := by
  unfold SharedReader.remove
  split
  · exact h
  · rename_i id hm
    dsimp only
    split
    · exact h.unlink hm
    · exact (h.unlink hm).wake _

theorem Coherent.add (h : s.Coherent) {addr : SocketAddr} (hm : s.socketMap addr = none) (cx : Waker)
    (handle : Handle) : (s.add addr cx handle).Coherent where
  linked j hj := by
    have hj' : j < s.next + 1 := hj
    rcases eq_or_ne j s.next with rfl | hne
    · refine Or.inl ⟨by simp [SharedReader.add, ReaderEntry.new], addr, by simp [SharedReader.add]⟩
    · have hw : ((s.add addr cx handle).entries j).weak = (s.entries j).weak := by
        simp [SharedReader.add, hne]
      rw [hw]
      rcases h.linked j (by omega) with ⟨hw1, b, hb⟩ | ⟨hw0, hno⟩
      · refine Or.inl ⟨hw1, b, ?_⟩
        have hba : b ≠ addr := by
          rintro rfl
          simp [hm] at hb
        simp [SharedReader.add, hba, hb]
      · refine Or.inr ⟨hw0, ?_⟩
        intro b hb
        rcases eq_or_ne b addr with rfl | hba
        · have : s.next = j := by simpa [SharedReader.add] using hb
          exact hne this.symm
        · exact hno b (by simpa [SharedReader.add, hba] using hb)
  fresh j hj := by
    have hj' : s.next + 1 ≤ j := hj
    have hne : j ≠ s.next := by omega
    have hd := h.fresh j (by omega)
    simpa [SharedReader.add, hne] using hd
  valid := h.valid

theorem Turn.position_ok {cx : Waker} {t : Tick} (h : Turn cx t s (.ready (.ok ())) s') :
    ∃ p, s.position = some p := by
  refine exists_position fun he => ?_
  cases h with
  | discard hs => cases hs.symm.trans he
  | fill hs => cases hs.symm.trans he
  | payload hs => cases hs.symm.trans he
  | close hs => cases hs.symm.trans he
  | ignore hs => cases hs.symm.trans he
  | opening hs => cases hs.symm.trans he
  | sent hs => cases hs.symm.trans he
  | unsent hs => cases hs.symm.trans he

/-- A turn leaves the reader at a place where bytes are missing. -/
theorem Turn.valid {cx : Waker} {t : Tick} {r : Poll (Except IoError Unit)} (h : Turn cx t s r s')
    (hw : s.Within t) (hv : ∀ p, s.position = some p → p.Valid) : ∀ p, s'.position = some p → p.Valid := by
  have hok : r = .ready (.ok ()) → ∀ p, s'.position = some p → p.Valid := by
    rintro rfl p hp
    obtain ⟨q, hq⟩ := h.position_ok
    obtain ⟨bs, signals, hh, -⟩ := h.heard hw hq (hv q hq)
    rw [hh.position] at hp
    exact Option.some.inj hp ▸ hh.valid
  have herr : ∀ s₁ : SharedReader, ∀ p, (s₁.setState .error).position = some p → p.Valid := by
    intro s₁ p hp
    cases hp
  cases h with
  | parked => exact hv
  | full => exact hv
  | @short header bs hs hr h0 hlt =>
    intro p hp
    obtain rfl : p = .header ((header ++ bs).take (filledBy header bs)) := (Option.some.inj hp).symm
    show ((header ++ bs).take (filledBy header bs)).length < 20
    rw [List.length_take]
    omega
  | sending =>
    intro p hp
    obtain rfl : p = .header [] := (Option.some.inj hp).symm
    simp [Position.Valid]
  | failed => exact hv
  | broken => exact hv
  | discardCut => exact herr _
  | fillCut => exact herr _
  | headerCut => exact herr _
  | noMemory => exact hv
  | discard => exact hok rfl
  | fill => exact hok rfl
  | payload => exact hok rfl
  | close => exact hok rfl
  | ignore => exact hok rfl
  | opening => exact hok rfl
  | sent => exact hok rfl
  | unsent => exact hok rfl

/-- No turn breaks the invariant. -/
theorem Coherent.turn {cx : Waker} {t : Tick} {r : Poll (Except IoError Unit)} (hc : s.Coherent)
    (h : Turn cx t s r s') (hw : s.Within t) : s'.Coherent := by
  have hv := h.valid hw hc.valid
  have hqueued : ∀ addr id (polled : Bool), (if polled then s else s.offer addr id).Coherent := by
    intro addr id polled
    cases polled
    · exact hc.offer addr id
    · exact hc
  cases h with
  | parked => exact hc.rest rfl rfl rfl hv
  | @full owner left id =>
    have hw' := hc.wake (s.entries id).readerPipeWaker
    have hset : ((s.wake (s.entries id).readerPipeWaker).setEntry id
        { s.entries id with waitingWaker := cx }).Coherent :=
      Coherent.setEntry hw' rfl fun hd => hd
    exact hset.emit _
  | short => exact (hc.consume _).setState hv
  | @sending addr id polled => exact (hqueued addr id polled).rest rfl rfl rfl hv
  | failed => exact hc
  | broken => exact hc
  | discardCut => exact (hc.consume _).setState hv
  | fillCut => exact (hc.fill _ _).setState hv
  | headerCut => exact (hc.consume _).setState hv
  | noMemory => exact hc.consume _
  | discard => exact (hc.consume _).setState hv
  | fill => exact (hc.fill _ _).setState hv
  | payload => exact (hc.consume _).setState hv
  | close => exact ((hc.consume _).remove _).setState hv
  | ignore => exact (hc.consume _).setState hv
  | @opening header bs hs hr h0 h20 hl hm =>
    have hadd : ((s.consume bs).add (headerBy header bs).addr cx .queued).Coherent :=
      (hc.consume bs).add hm cx .queued
    exact hadd.rest rfl rfl rfl hv
  | sent => exact (hqueued _ _ _).setState hv
  | @unsent addr id =>
    refine Coherent.setState ?_ hv
    split
    · exact hc.setEntry rfl fun _ => rfl
    · exact hc

theorem Coherent.readEntry (hc : s.Coherent) (cx : Waker) (id n : ℕ) : (s.readEntry cx id n).2.Coherent := by
  unfold SharedReader.readEntry
  dsimp only
  split
  · exact hc
  split
  · have hset : (s.setEntry id
        { s.entries id with
          buffer := ((s.entries id).buffer.read n).2
          taken := (s.entries id).taken ++ ((s.entries id).buffer.read n).1 }).Coherent :=
      hc.setEntry rfl fun hd => hd
    exact hset.wake _
  split
  · exact hc.emit _
  · exact hc.setEntry rfl fun hd => hd

theorem Coherent.dropReceiver (hc : s.Coherent) (a : ℕ) (hooked : Bool) :
    (s.dropReceiver a hooked).Coherent := by
  unfold SharedReader.dropReceiver
  split
  · exact hc.rest rfl rfl rfl hc.valid
  split
  · exact hc.wakeReceiver
  · exact hc

theorem Coherent.recvEntry (hc : s.Coherent) (a : ℕ) (hooked : Bool) (cx : Waker) :
    (s.recvEntry a hooked cx).2.Coherent := by
  unfold SharedReader.recvEntry
  split
  · unfold awaitItem
    split
    · exact hc.rest rfl rfl rfl hc.valid
    · exact hc.rest rfl rfl rfl hc.valid
  · rename_i item rest _
    have hrest : Coherent { s with chan := rest } := hc.rest rfl rfl rfl hc.valid
    have hset : (SharedReader.setEntry item.2
        { s.entries item.2 with handle := (s.entries item.2).handle.accept } { s with chan := rest }).Coherent :=
      hrest.setEntry rfl fun hd => (Handle.accept_eq_dropped _).mpr hd
    exact hset.dropReceiver a hooked

theorem Coherent.insert (hc : s.Coherent) (addr : SocketAddr) (cx : Waker) (handle : Handle) (alloc : Bool) :
    (s.insert addr cx handle alloc).2.Coherent := by
  unfold SharedReader.insert
  split
  · exact hc
  · rename_i hm
    split
    · exact hc.add hm cx handle
    · exact hc

theorem Coherent.acts (hc : s.Coherent) (h : s.Acts s') : s'.Coherent := by
  cases h with
  | once cx t hw => exact hc.turn (s.pollOnce_turn cx t) hw
  | yield cx => exact hc.emit _
  | read cx id n => exact hc.readEntry cx id n
  | accept a hooked cx => exact hc.recvEntry a hooked cx
  | leave a hooked => exact hc.dropReceiver a hooked
  | add addr alloc => exact hc.insert addr .noop .held alloc
  | release id => exact hc.setEntry rfl fun _ => rfl
  | disconnect => exact hc.rest rfl rfl rfl hc.valid

theorem Coherent.init (connected : Bool) : (init connected).Coherent where
  linked id hid := absurd hid (Nat.not_lt_zero id)
  fresh _ _ := rfl
  valid := init_valid

theorem Reachable.coherent (h : s.Reachable) : s.Coherent := by
  obtain ⟨connected, hrun⟩ := h
  induction hrun with
  | refl => exact .init connected
  | tail _ hstep ih => exact ih.acts hstep

end

end SharedReader

end VtMuxer
