import VtMuxer.Read.Coherent

/-! Calls that end with an error: when a reader still had something to deliver, and when
the listener had a new connection. -/
namespace VtMuxer

namespace SharedReader

/-- A read gives no more than it was asked for, and memory can be allocated. -/
def Ample (s : SharedReader) (t : Tick) : Prop := s.Within t ∧ t.alloc = true

/-- The entry is open under its address, held by a reader and empty. -/
structure Waiting (a : SocketAddr) (id : ℕ) (s : SharedReader) : Prop where
  known : s.socketMap a = some id
  held : (s.entries id).handle = .held
  empty : (s.entries id).buffer.bytes = []

/-- The entry has bytes, or it has been closed. -/
structure Touched (a : SocketAddr) (id : ℕ) (s : SharedReader) : Prop where
  old : id < s.next
  due : (s.entries id).buffer.bytes ≠ [] ∨ s.socketMap a ≠ some id

section
variable {a : SocketAddr} {id : ℕ} {cx : Waker} {s s' : SharedReader} {signals : List Signal}

theorem Waiting.upgrade (h : Waiting a id s) : s.upgrade a = some id := by
  simp [SharedReader.upgrade, h.known, h.held, Option.filter]

theorem Waiting.congr (h : Waiting a id s) (hm : s'.socketMap a = s.socketMap a)
    (he : s'.entries id = s.entries id) : Waiting a id s' where
  known := hm.trans h.known
  held := by rw [he, h.held]
  empty := by rw [he, h.empty]

/-- A turn that says nothing of the address leaves its entry alone; one that does gives it
bytes or closes it. -/
theorem Effect.own (h : Effect cx s signals s') (ho : Waiting a id s) :
    ((∀ g ∈ signals, g.addr ≠ a) ∧ Waiting a id s') ∨ ((∃ g ∈ signals, g.addr = a) ∧ Touched a id s') := by
  have hold : id < s.next := s.allocated a id ho.known
  cases h with
  | @discard owner left n bs hs hu h0 =>
    have hne : owner ≠ a := by
      rintro rfl
      rw [ho.upgrade] at hu
      cases hu
    refine Or.inl ⟨?_, ho.congr rfl rfl⟩
    simp [Signal.addr, hne]
  | @fill owner left n j bs hs hu h0 hroom =>
    by_cases hoa : owner = a
    · subst hoa
      obtain rfl : j = id := by
        rw [ho.upgrade] at hu
        exact (Option.some.inj hu).symm
      obtain ⟨b, hb⟩ := List.exists_mem_of_ne_nil bs h0
      refine Or.inr ⟨⟨.data owner b, List.mem_map_of_mem hb, rfl⟩, hold, Or.inl ?_⟩
      have hbytes : ((s.fill j bs).entries j).buffer.bytes = bs := by
        simp [SharedReader.fill, SharedReader.wake, SharedReader.emit, deliver, SharedReader.setEntry,
          ReadBuffer.bytes_fill, ho.empty, hroom]
      show ((s.fill j bs).entries j).buffer.bytes ≠ []
      rw [hbytes]
      exact h0
    · have hj : id ≠ j := by
        rintro rfl
        have hmo : s.socketMap owner = some id := (Option.filter_eq_some_iff.mp hu).1
        exact hoa (s.distinct owner a id hmo ho.known)
      refine Or.inl ⟨by simp [Signal.addr, hoa], ho.congr rfl ?_⟩
      simp [SharedReader.fill, SharedReader.setState, SharedReader.wake, SharedReader.emit, deliver,
        SharedReader.setEntry, SharedReader.consume, hj]
  | payload => exact Or.inl ⟨by simp, ho.congr rfl rfl⟩
  | @close header bs addr j hs hm =>
    have hmap := (s.consume bs).remove_socketMap addr
    obtain ⟨hbuf, hhan⟩ := (s.consume bs).remove_buffer addr id
    by_cases haa : addr = a
    · refine Or.inr ⟨⟨_, List.mem_singleton_self _, haa⟩, ?_, Or.inr ?_⟩
      · simpa [SharedReader.setState, SharedReader.consume] using hold
      · have : ((s.consume bs).remove addr).socketMap a = none := by
          rw [hmap, haa, Function.update_self]
        show ((s.consume bs).remove addr).socketMap a ≠ some id
        rw [this]
        simp
    · refine Or.inl ⟨by simp [Signal.addr, haa], ?_, ?_, ?_⟩
      · show ((s.consume bs).remove addr).socketMap a = some id
        rw [hmap, Function.update_of_ne (Ne.symm haa)]
        exact ho.known
      · exact hhan.trans ho.held
      · exact (congrArg ReadBuffer.bytes hbuf).trans ho.empty
  | @ignore header bs addr hs hm hc =>
    have haa : addr ≠ a := by
      rintro rfl
      rw [ho.known] at hm
      cases hm
    exact Or.inl ⟨by simp [Signal.addr, haa], ho.congr rfl rfl⟩
  | @opening header bs addr hs hm hc =>
    have haa : addr ≠ a := by
      rintro rfl
      rw [ho.known] at hm
      cases hm
    have hj : id ≠ s.next := by omega
    refine Or.inl ⟨by simp [Signal.addr, haa], ho.congr ?_ ?_⟩
    · simp [SharedReader.emit, SharedReader.setState, SharedReader.add, SharedReader.consume, haa.symm]
    · simp [SharedReader.emit, SharedReader.setState, SharedReader.add, SharedReader.consume, hj]
  | @sent addr j polled hs hc =>
    refine Or.inl ⟨by simp, ?_⟩
    cases polled
    · exact ho.congr (by simp [SharedReader.setState, SharedReader.offer])
        (by simp [SharedReader.setState, SharedReader.offer])
    · exact ho.congr rfl rfl
  | @unsent addr j polled hs hc =>
    refine Or.inl ⟨by simp, ?_⟩
    split
    · rename_i hq
      have hj : id ≠ j := by
        rintro rfl
        rw [ho.held] at hq
        cases hq
      exact ho.congr rfl (by simp [SharedReader.setState, SharedReader.setEntry, hj])
    · exact ho.congr rfl rfl

theorem Touched.mono (h : Touched a id s) (hn : s.next ≤ s'.next)
    (hb : (s.entries id).buffer.bytes ≠ [] → (s'.entries id).buffer.bytes ≠ [])
    (hm : s'.socketMap a = some id → s.socketMap a = some id) : Touched a id s' where
  old := h.old.trans_le hn
  due := h.due.imp hb fun hne he => hne (hm he)

theorem Effect.touched (h : Effect cx s signals s') (ht : Touched a id s) : Touched a id s' := by
  cases h with
  | discard => exact ht.mono le_rfl (fun hb => hb) (fun hm => hm)
  | @fill owner left n j bs =>
    refine ht.mono le_rfl (fun hb => ?_) (fun hm => hm)
    rcases eq_or_ne id j with rfl | hne
    · simp [SharedReader.setState, SharedReader.fill, SharedReader.wake, SharedReader.emit, deliver,
        SharedReader.setEntry, ReadBuffer.bytes_fill, hb]
    · simpa [SharedReader.setState, SharedReader.fill, SharedReader.wake, SharedReader.emit, deliver,
        SharedReader.setEntry, SharedReader.consume, hne] using hb
  | payload => exact ht.mono le_rfl (fun hb => hb) (fun hm => hm)
  | @close header bs addr j =>
    have hmap := (s.consume bs).remove_socketMap addr
    have hbuf := ((s.consume bs).remove_buffer addr id).1
    refine ht.mono (by simp [SharedReader.setState, SharedReader.consume]) (fun hb => ?_) (fun hm => ?_)
    · show (((s.consume bs).remove addr).entries id).buffer.bytes ≠ []
      rw [hbuf]
      exact hb
    · have hm' : ((s.consume bs).remove addr).socketMap a = some id := hm
      rw [hmap] at hm'
      exact of_update_none hm'
  | ignore => exact ht.mono le_rfl (fun hb => hb) (fun hm => hm)
  | @opening header bs addr =>
    have hold := ht.old
    have hj : id ≠ s.next := by omega
    refine ht.mono (Nat.le_succ _) (fun hb => ?_) (fun hm => ?_)
    · simpa [SharedReader.emit, SharedReader.setState, SharedReader.add, SharedReader.consume, hj] using hb
    · have hm' : Function.update s.socketMap addr (some s.next) a = some id := hm
      by_cases haa : a = addr
      · rw [haa, Function.update_self] at hm'
        exact absurd (Option.some.inj hm').symm hj
      · rwa [Function.update_of_ne haa] at hm'
  | @sent addr j polled =>
    cases polled
    · exact ht.mono (by simp [SharedReader.setState, SharedReader.offer])
        (by simp [SharedReader.setState, SharedReader.offer])
        (by simp [SharedReader.setState, SharedReader.offer])
    · exact ht.mono le_rfl (fun hb => hb) (fun hm => hm)
  | @unsent addr j =>
    split
    · refine ht.mono le_rfl (fun hb => ?_) (fun hm => hm)
      rcases eq_or_ne id j with rfl | hne
      · simpa [SharedReader.setState, SharedReader.setEntry] using hb
      · simpa [SharedReader.setState, SharedReader.setEntry, hne] using hb
    · exact ht.mono le_rfl (fun hb => hb) (fun hm => hm)

theorem Loops.own {p : Position} (h : Loops Ample cx s s') (hp : s.position = some p) (hv : p.Valid)
    (ho : Waiting a id s) :
    ∃ bytes, Looped s s' p bytes ∧
      (((∀ g ∈ (p.scan bytes).2, g.addr ≠ a) ∧ Waiting a id s') ∨
        ((∃ g ∈ (p.scan bytes).2, g.addr = a) ∧ Touched a id s')) := by
  induction h with
  | refl => exact ⟨[], .refl hp hv, Or.inl ⟨by simp, ho⟩⟩
  | tail _ hstep ih =>
    obtain ⟨xs, hx, hcase⟩ := ih
    obtain ⟨t, ht, hturn⟩ := hstep
    obtain ⟨ys, signals, hh, heff⟩ := hturn.heard ht.1 hx.position hx.valid
    have hsig : (p.scan (xs ++ ys)).2 = (p.scan xs).2 ++ signals := by
      rw [Position.scan_append, hh.signals]
    refine ⟨xs ++ ys, hx.turn hturn hh, ?_⟩
    rw [hsig]
    rcases hcase with ⟨hno, hw⟩ | ⟨⟨g, hg, hga⟩, htouch⟩
    · rcases heff.own hw with ⟨hno', hw'⟩ | ⟨⟨g, hg, hga⟩, htouch⟩
      · refine Or.inl ⟨?_, hw'⟩
        intro g hg
        rcases List.mem_append.mp hg with hg | hg
        · exact hno g hg
        · exact hno' g hg
      · exact Or.inr ⟨⟨g, List.mem_append_right _ hg, hga⟩, htouch⟩
    · exact Or.inr ⟨⟨g, List.mem_append_left _ hg, hga⟩, heff.touched htouch⟩

end

/-- A new socket whose send future was not polled yet. -/
def Unsent (s : SharedReader) : Prop := ∃ addr id, s.state = .sendSocket addr id false

/-- The addresses that a frame without payload would close. -/
def knows (s : SharedReader) (a : SocketAddr) : Bool := (s.socketMap a).isSome

/-- The signals open a connection: of the frames without payload, one has an address that
is not known when it comes. -/
def opens (known : SocketAddr → Bool) : List Signal → Bool
  | [] => false
  | .data _ _ :: rest => opens known rest
  | .zero a :: rest => if known a then opens (Function.update known a false) rest else true

/-- A new socket is in the channel or will be with the next turn. -/
def Loud (s : SharedReader) : Prop := s.chan ≠ [] ∨ s.Unsent

section
variable {cx : Waker} {s s' : SharedReader} {signals : List Signal}

theorem opens_data (known : SocketAddr → Bool) (owner : SocketAddr) (bs : List UInt8) (rest : List Signal) :
    opens known (bs.map (.data owner) ++ rest) = opens known rest := by
  induction bs with
  | nil => rfl
  | cons b bs ih => exact ih

theorem opens_append {known : SocketAddr → Bool} {xs : List Signal} (h : opens known xs = true)
    (ys : List Signal) : opens known (xs ++ ys) = true := by
  induction xs generalizing known with
  | nil => cases h
  | cons x xs ih =>
    cases x with
    | data owner b => exact ih h
    | zero a =>
      simp only [List.cons_append, opens] at h ⊢
      split
      · rename_i hk
        rw [if_pos hk] at h
        exact ih h
      · rfl

/-- What a turn does for the listener. -/
inductive Rings (s s' : SharedReader) (signals : List Signal) : Prop where
  | quiet (hno : opens s.knows signals = false) (hq : ¬ s'.Loud)
      (hrest : ∀ rest, opens s.knows (signals ++ rest) = opens s'.knows rest)
  | loud (hyes : opens s.knows signals = true) (hl : s'.Loud)

theorem payloadLeft_ne (owner addr : SocketAddr) (n id : ℕ) (polled : Bool) :
    payloadLeft owner n ≠ .sendSocket addr id polled := by
  unfold payloadLeft
  split <;> simp

/-- Without a new socket before, there is one afterwards if the signals open a connection. -/
theorem Effect.rings (h : Effect cx s signals s') (hc : s.connected = true) (hq : ¬ s.Loud) :
    Rings s s' signals := by
  have hchan : s.chan = [] := by
    by_contra hne
    exact hq (Or.inl hne)
  have hquiet : ∀ s₁ : SharedReader, s₁.chan = s.chan →
      (∀ addr id, s₁.state ≠ .sendSocket addr id false) → ¬ s₁.Loud := by
    rintro s₁ he hs₁ (hne | ⟨addr, id, hst⟩)
    · exact hne (he.trans hchan)
    · exact hs₁ addr id hst
  cases h with
  | @discard owner left n bs =>
    refine .quiet ?_ (hquiet _ rfl fun addr id => payloadLeft_ne owner addr n id false) fun rest => ?_
    · simpa [opens] using opens_data s.knows owner bs []
    · exact opens_data s.knows owner bs rest
  | @fill owner left n id bs =>
    refine .quiet ?_ (hquiet _ rfl fun addr id => payloadLeft_ne owner addr n id false) fun rest => ?_
    · simpa [opens] using opens_data s.knows owner bs []
    · exact opens_data s.knows owner bs rest
  | payload => exact .quiet rfl (hquiet _ rfl (by simp [SharedReader.setState])) fun rest => rfl
  | @close header bs addr id hs hm =>
    have hk : s.knows addr = true := by simp [knows, hm]
    have hk' : (((s.consume bs).remove addr).setState (.nextPacket [])).knows =
        Function.update s.knows addr false := by
      funext b
      show (((s.consume bs).remove addr).socketMap b).isSome = _
      rw [remove_socketMap]
      by_cases hb : b = addr
      · simp [hb]
      · simp [hb, SharedReader.consume, knows]
    refine .quiet (by simp [opens, hk]) (hquiet _ ?_ (by simp [SharedReader.setState])) fun rest => ?_
    · exact remove_chan addr _
    · rw [hk']
      simp [opens, hk]
  | ignore hs hm hc' =>
    rw [hc] at hc'
    cases hc'
  | @opening header bs addr hs hm =>
    have hk : s.knows addr = false := by simp [knows, hm]
    exact .loud (by simp [opens, hk]) (Or.inr ⟨addr, s.next, rfl⟩)
  | @sent addr id polled hs =>
    cases polled
    · exact absurd (Or.inr ⟨addr, id, hs⟩) hq
    · exact .quiet rfl (hquiet _ rfl (by simp [SharedReader.setState])) fun rest => rfl
  | unsent hs hc' =>
    rw [hc] at hc'
    cases hc'

theorem Effect.loud (h : Effect cx s signals s') (hc : s.connected = true) (hl : s.Loud) : s'.Loud := by
  have hun : ∀ {st}, s.state = st → (∀ addr id, st ≠ .sendSocket addr id false) → s.chan ≠ [] := by
    rintro st hs hne
    rcases hl with hl | ⟨addr, id, hst⟩
    · exact hl
    · exact absurd (hs.symm.trans hst) (hne addr id)
  cases h with
  | discard hs => exact Or.inl (hun hs (by simp))
  | fill hs => exact Or.inl (hun hs (by simp))
  | payload hs => exact Or.inl (hun hs (by simp))
  | @close header bs addr id hs =>
    left
    show ((s.consume bs).remove addr).chan ≠ []
    rw [remove_chan]
    exact hun hs (by simp)
  | ignore hs => exact Or.inl (hun hs (by simp))
  | opening hs => exact Or.inl (hun hs (by simp))
  | @sent addr id polled hs =>
    left
    cases polled
    · simp [SharedReader.setState, SharedReader.offer]
    · exact hun hs (by simp)
  | unsent hs hc' =>
    rw [hc] at hc'
    cases hc'

theorem Effect.connected (h : Effect cx s signals s') : s'.connected = s.connected := by
  cases h with
  | discard => rfl
  | fill => rfl
  | payload => rfl
  | close => simp [SharedReader.setState, SharedReader.consume]
  | ignore => rfl
  | opening => rfl
  | @sent addr id polled => cases polled <;> simp [SharedReader.setState, SharedReader.offer]
  | unsent => split <;> rfl

theorem Loops.rings {p : Position} (h : Loops Ample cx s s') (hp : s.position = some p) (hv : p.Valid)
    (hc : s.connected = true) (hq : ¬ s.Loud) :
    ∃ bytes, Looped s s' p bytes ∧ s'.connected = true ∧ Rings s s' (p.scan bytes).2 := by
  induction h with
  | refl => exact ⟨[], .refl hp hv, hc, .quiet rfl hq fun rest => rfl⟩
  | tail _ hstep ih =>
    obtain ⟨xs, hx, hc', hrings⟩ := ih
    obtain ⟨t, ht, hturn⟩ := hstep
    obtain ⟨ys, signals, hh, heff⟩ := hturn.heard ht.1 hx.position hx.valid
    have hsig : (p.scan (xs ++ ys)).2 = (p.scan xs).2 ++ signals := by
      rw [Position.scan_append, hh.signals]
    refine ⟨xs ++ ys, hx.turn hturn hh, heff.connected.trans hc', ?_⟩
    rw [hsig]
    cases hrings with
    | quiet hno hq' hrest =>
      cases heff.rings hc' hq' with
      | quiet hno₁ hq₁ hrest₁ =>
        refine .quiet ?_ hq₁ fun rest => ?_
        · rw [hrest, hno₁]
        · rw [List.append_assoc, hrest, hrest₁]
      | loud hyes hl =>
        refine .loud ?_ hl
        rw [hrest, hyes]
    | loud hyes hl => exact .loud (opens_append hyes signals) (heff.loud hc' hl)

theorem Loops.loud {p : Position} (h : Loops Ample cx s s') (hp : s.position = some p) (hv : p.Valid)
    (hc : s.connected = true) (hl : s.Loud) :
    ∃ bytes, Looped s s' p bytes ∧ s'.connected = true ∧ s'.Loud := by
  induction h with
  | refl => exact ⟨[], .refl hp hv, hc, hl⟩
  | tail _ hstep ih =>
    obtain ⟨xs, hx, hc', hl'⟩ := ih
    obtain ⟨t, ht, hturn⟩ := hstep
    obtain ⟨ys, signals, hh, heff⟩ := hturn.heard ht.1 hx.position hx.valid
    exact ⟨xs ++ ys, hx.turn hturn hh, heff.connected.trans hc', heff.loud hc' hl'⟩

/-- The turn in which the stream ends or fails touches nothing else. -/
structure Fails (s s' : SharedReader) : Prop where
  consumed : s'.consumed = s.consumed
  next : s'.next = s.next
  socketMap : s'.socketMap = s.socketMap
  chan : s'.chan = s.chan
  bytes : ∀ id, (s'.entries id).buffer.bytes = (s.entries id).buffer.bytes
  sent : ¬ s.Unsent

/-- Within what was asked for, only the end of the stream cuts a payload. -/
theorem Cut.nil {bs : List UInt8} {left : ℕ} (h : Cut bs.length left) (hle : bs.length ≤ left)
    (hlt : left < 65536) : bs = [] := by
  rcases h with h | h
  · exact List.length_eq_zero_iff.mp h
  · exact absurd ⟨by omega, hle⟩ h

def signalled (s : SharedReader) (bytes : List UInt8) : List Signal :=
  match s.position with
  | some p => (p.scan bytes).2
  | none => []

theorem readEntry_none {id n : ℕ} (h : (s.readEntry cx id n).1 = none) :
    n ≠ 0 ∧ (s.entries id).buffer.bytes = [] ∧ (s.entries id).weak ≠ 0 ∧
      (s.readEntry cx id n).2 = s.setEntry id { s.entries id with readerPipeWaker := cx } := by
  unfold readEntry at h ⊢
  dsimp only at h ⊢
  by_cases hn : n = 0
  · rw [if_pos hn] at h
    cases h
  rw [if_neg hn] at h ⊢
  by_cases hb : ((s.entries id).buffer.read n).1 ≠ []
  · rw [if_pos hb] at h
    cases h
  rw [if_neg hb] at h ⊢
  by_cases hw : (s.entries id).weak = 0
  · rw [if_pos hw] at h
    cases h
  rw [if_neg hw]
  refine ⟨hn, ?_, hw, rfl⟩
  rw [not_not, ReadBuffer.read_fst, List.take_eq_nil_iff] at hb
  exact hb.resolve_left hn

def opened : SharedReader := (init true).add .unspecified .noop .held

end

end SharedReader

end VtMuxer
