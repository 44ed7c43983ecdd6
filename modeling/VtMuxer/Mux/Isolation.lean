import VtMuxer.Mux.Streams
import VtMuxer.Read.Moves

/-! Connections do not disturb each other: what a shared reader does with one address depends
on the frames of that address only, whatever else the stream holds and however it is cut. -/
namespace VtMuxer

inductive Change where
  | opened
  | closed
  deriving DecidableEq, Repr

namespace Event

def change (a : SocketAddr) : Event → Option Change
  | opened b _ => if b = a then some .opened else none
  | closed b _ => if b = a then some .closed else none
  | _ => none

def entry (a : SocketAddr) : Event → Option ℕ
  | opened b id => if b = a then some id else none
  | _ => none

end Event

/-- What the frames of one address come to: the openings and closings, the bytes of the
entries that are closed, and those of the one that is open. -/
structure Thread where
  changes : List Change
  past : List (List UInt8)
  now : Option (List UInt8)

namespace Thread

def hear (connected : Bool) (th : Thread) : Signal → Thread
  | .data _ b => { th with now := th.now.map (· ++ [b]) }
  | .zero _ =>
    match th.now with
    | some bs => ⟨th.changes ++ [.closed], th.past ++ [bs], none⟩
    | none => if connected then ⟨th.changes ++ [.opened], th.past, some []⟩ else th

def hears (connected : Bool) (a : SocketAddr) (th : Thread) (l : List Signal) : Thread :=
  (l.filter fun g => g.addr = a).foldl (hear connected) th

section
variable {connected : Bool} {a : SocketAddr} {th : Thread}

theorem hears_append (xs ys : List Signal) :
    th.hears connected a (xs ++ ys) = (th.hears connected a xs).hears connected a ys := by
  simp [hears, List.filter_append, List.foldl_append]

theorem hears_other {l : List Signal} (h : ∀ g ∈ l, g.addr ≠ a) : th.hears connected a l = th := by
  have hnil : l.filter (fun g => g.addr = a) = [] := by
    rw [List.filter_eq_nil_iff]
    intro g hg
    simpa using h g hg
  simp [hears, hnil]

theorem hears_data (bs : List UInt8) :
    th.hears connected a (bs.map (.data a)) = { th with now := th.now.map (· ++ bs) } := by
  have hall : (bs.map (Signal.data a)).filter (fun g => g.addr = a) = bs.map (.data a) := by
    rw [List.filter_eq_self]
    intro g hg
    obtain ⟨b, -, rfl⟩ := List.mem_map.mp hg
    simp [Signal.addr]
  rw [hears, hall]
  clear hall
  induction bs generalizing th with
  | nil => simp
  | cons b bs ih =>
    rw [List.map_cons, List.foldl_cons, ih]
    simp [hear, Function.comp_def]

theorem hears_zero : th.hears connected a [.zero a] = th.hear connected (.zero a) := by
  simp [hears, Signal.addr]

end

end Thread

namespace SharedReader

def since (s₀ s : SharedReader) : List Event := s.traffic.drop s₀.traffic.length

/-- How the address was opened and closed since `s₀`. -/
def changes (a : SocketAddr) (s₀ s : SharedReader) : List Change := (since s₀ s).filterMap (Event.change a)

def entriesOf (a : SocketAddr) (s₀ s : SharedReader) : List ℕ :=
  (s₀.socketMap a).toList ++ (since s₀ s).filterMap (Event.entry a)

def gained (s₀ s : SharedReader) (id : ℕ) : List UInt8 :=
  (s.entries id).appended.drop (if id < s₀.next then (s₀.entries id).appended.length else 0)

/-- What a run only adds to. -/
structure Grown (s₀ s : SharedReader) : Prop where
  next : s₀.next ≤ s.next
  traffic : s₀.traffic <+: s.traffic
  appended : ∀ id < s₀.next, (s₀.entries id).appended <+: (s.entries id).appended

/-- What the reader has of an address, seen from `s₀`. -/
structure Shows (a : SocketAddr) (s₀ s : SharedReader) (th : Thread) : Prop where
  grown : Grown s₀ s
  changes : SharedReader.changes a s₀ s = th.changes
  past : ∃ old, entriesOf a s₀ s = old ++ (s.socketMap a).toList ∧ old.map (gained s₀ s) = th.past ∧
    ∀ id ∈ old, id < s.next ∧ ∀ b, s.socketMap b ≠ some id
  now : (s.socketMap a).map (gained s₀ s) = th.now
  alive : ∀ id, s.socketMap a = some id → (s.entries id).handle ≠ .dropped

section
variable {a : SocketAddr} {s₀ s s' : SharedReader} {th : Thread} {connected : Bool}

theorem Grown.since_append (h : Grown s₀ s) {new : List Event} (ht : s'.traffic = s.traffic ++ new) :
    since s₀ s' = since s₀ s ++ new := by
  unfold since
  rw [ht, List.drop_append_of_le_length h.traffic.length_le]

theorem gained_congr {id : ℕ} (h : (s'.entries id).appended = (s.entries id).appended) :
    gained s₀ s' id = gained s₀ s id := by
  unfold gained
  rw [h]

theorem Grown.gained_append (h : Grown s₀ s) {id : ℕ} {bs : List UInt8}
    (happ : (s'.entries id).appended = (s.entries id).appended ++ bs) :
    gained s₀ s' id = gained s₀ s id ++ bs := by
  unfold gained
  rw [happ]
  refine List.drop_append_of_le_length ?_
  split
  · rename_i hid
    exact (h.appended id hid).length_le
  · exact Nat.zero_le _

theorem Grown.step (h : Grown s₀ s) {new : List Event} (hn : s.next ≤ s'.next) (ht : s'.traffic = s.traffic ++ new)
    (happ : ∀ id < s.next, (s.entries id).appended <+: (s'.entries id).appended) : Grown s₀ s' where
  next := h.next.trans hn
  traffic := h.traffic.trans (ht ▸ List.prefix_append _ _)
  appended id hid := (h.appended id hid).trans (happ id (hid.trans_le h.next))

theorem Shows.stays (h : Shows a s₀ s th) {new : List Event} (hn : s.next ≤ s'.next)
    (hm : s'.socketMap a = s.socketMap a)
    (hfree : ∀ id < s.next, (∀ b, s.socketMap b ≠ some id) → ∀ b, s'.socketMap b ≠ some id)
    (ht : s'.traffic = s.traffic ++ new) (hnew : ∀ e ∈ new, e.change a = none ∧ e.entry a = none)
    (happ : ∀ id < s.next, (s'.entries id).appended = (s.entries id).appended ∨
      ∃ b bs, b ≠ a ∧ s.socketMap b = some id ∧ (s'.entries id).appended = (s.entries id).appended ++ bs)
    (halive : ∀ id, s.socketMap a = some id → (s'.entries id).handle = .dropped → (s.entries id).handle = .dropped) :
    Shows a s₀ s' th := by
  have hsince := h.grown.since_append ht
  have hc : new.filterMap (Event.change a) = [] := by
    rw [List.filterMap_eq_nil_iff]
    exact fun e he => (hnew e he).1
  have he : new.filterMap (Event.entry a) = [] := by
    rw [List.filterMap_eq_nil_iff]
    exact fun e he => (hnew e he).2
  have hpref : ∀ id < s.next, (s.entries id).appended <+: (s'.entries id).appended := by
    intro id hid
    rcases happ id hid with heq | ⟨b, bs, -, -, heq⟩
    · rw [heq]
    · rw [heq]
      exact List.prefix_append _ _
  have hown : ∀ id, s.socketMap a = some id → gained s₀ s' id = gained s₀ s id := by
    intro id hid
    rcases happ id (s.allocated a id hid) with heq | ⟨b, bs, hba, hb, -⟩
    · exact gained_congr heq
    · exact absurd (s.distinct b a id hb hid) hba
  obtain ⟨old, hids, hpast, hgone⟩ := h.past
  have hold : ∀ id ∈ old, gained s₀ s' id = gained s₀ s id := by
    intro id hid
    obtain ⟨hlt, hno⟩ := hgone id hid
    rcases happ id hlt with heq | ⟨b, bs, -, hb, -⟩
    · exact gained_congr heq
    · exact absurd hb (hno b)
  constructor
  case grown => exact h.grown.step hn ht hpref
  case changes =>
    rw [← h.changes, SharedReader.changes, SharedReader.changes, hsince, List.filterMap_append, hc, List.append_nil]
  case past =>
    refine ⟨old, ?_, ?_, ?_⟩
    · rw [hm, ← hids, entriesOf, entriesOf, hsince, List.filterMap_append, he, List.append_nil]
    · rw [← hpast]
      exact List.map_congr_left hold
    · intro id hid
      obtain ⟨hlt, hno⟩ := hgone id hid
      exact ⟨hlt.trans_le hn, hfree id hlt hno⟩
  case now =>
    rw [hm, ← h.now]
    cases hs : s.socketMap a with
    | none => rfl
    | some id => simp [hown id hs]
  case alive =>
    intro id hid hd
    rw [hm] at hid
    exact h.alive id hid (halive id hid hd)

theorem Shows.same (h : Shows a s₀ s th) (hn : s'.next = s.next) (hm : s'.socketMap = s.socketMap)
    (ht : s'.traffic = s.traffic) (happ : ∀ id, (s'.entries id).appended = (s.entries id).appended)
    (hh : ∀ id, s.socketMap a = some id → (s'.entries id).handle = .dropped → (s.entries id).handle = .dropped) :
    Shows a s₀ s' th := by
  have ht' : s'.traffic = s.traffic ++ [] := by rw [ht, List.append_nil]
  refine h.stays hn.ge (by rw [hm]) ?_ ht' (by simp) (fun id _ => Or.inl (happ id)) hh
  intro id _ hno b
  rw [hm]
  exact hno b

theorem Shows.data (h : Shows a s₀ s th) {id : ℕ} {bs : List UInt8} (hid : s.socketMap a = some id)
    (hn : s'.next = s.next) (hm : s'.socketMap = s.socketMap) (ht : s'.traffic = s.traffic)
    (happ : (s'.entries id).appended = (s.entries id).appended ++ bs)
    (hrest : ∀ j, j ≠ id → (s'.entries j).appended = (s.entries j).appended)
    (halive : (s'.entries id).handle = (s.entries id).handle) :
    Shows a s₀ s' { th with now := th.now.map (· ++ bs) } := by
  have ht' : s'.traffic = s.traffic ++ [] := by rw [ht, List.append_nil]
  have hsince : since s₀ s' = since s₀ s := by rw [h.grown.since_append ht', List.append_nil]
  obtain ⟨old, hids, hpast, hgone⟩ := h.past
  constructor
  case grown =>
    refine h.grown.step hn.ge ht' fun j _ => ?_
    rcases eq_or_ne j id with rfl | hne
    · rw [happ]
      exact List.prefix_append _ _
    · rw [hrest j hne]
  case changes => rw [SharedReader.changes, hsince]; exact h.changes
  case past =>
    refine ⟨old, ?_, ?_, ?_⟩
    · rw [entriesOf, hsince, hm]
      exact hids
    · rw [← hpast]
      refine List.map_congr_left fun j hj => gained_congr (hrest j ?_)
      rintro rfl
      exact (hgone j hj).2 a hid
    · rw [hn, hm]
      exact hgone
  case now =>
    rw [hm, ← h.now, hid]
    simp [h.grown.gained_append happ]
  case alive =>
    intro j hj
    rw [hm, hid] at hj
    obtain rfl := Option.some.inj hj
    rw [halive]
    exact h.alive id hid

theorem Shows.close (h : Shows a s₀ s th) {id : ℕ} (hid : s.socketMap a = some id) (hn : s'.next = s.next)
    (hm : s'.socketMap = Function.update s.socketMap a none) (ht : s'.traffic = s.traffic ++ [.closed a id])
    (happ : ∀ j, (s'.entries j).appended = (s.entries j).appended) :
    Shows a s₀ s' (th.hear connected (.zero a)) := by
  have hnow : th.now = some (gained s₀ s id) := by rw [← h.now, hid]; rfl
  have hhear : th.hear connected (.zero a) = ⟨th.changes ++ [.closed], th.past ++ [gained s₀ s id], none⟩ := by
    simp [Thread.hear, hnow]
  have hsince := h.grown.since_append ht
  have hgained : gained s₀ s' = gained s₀ s := funext fun j => gained_congr (happ j)
  have hgone' : s'.socketMap a = none := by rw [hm, Function.update_self]
  obtain ⟨old, hids, hpast, hgone⟩ := h.past
  rw [hhear]
  constructor
  case grown => exact h.grown.step hn.ge ht fun j _ => by rw [happ]
  case changes =>
    rw [SharedReader.changes, hsince, List.filterMap_append]
    simp [← h.changes, SharedReader.changes, Event.change]
  case past =>
    refine ⟨old ++ [id], ?_, ?_, ?_⟩
    · rw [hid] at hids
      have hnil : [Event.closed a id].filterMap (Event.entry a) = [] := rfl
      rw [entriesOf, hsince, List.filterMap_append, hnil, List.append_nil, hgone', Option.toList_none, List.append_nil]
      exact hids
    · rw [hgained, List.map_append, hpast]
      rfl
    · intro j hj
      rw [hn, hm]
      rcases List.mem_append.mp hj with hj | hj
      · obtain ⟨hlt, hno⟩ := hgone j hj
        exact ⟨hlt, fun b hb => hno b (of_update_none hb)⟩
      · obtain rfl := List.mem_singleton.mp hj
        refine ⟨s.allocated a j hid, fun b hb => ?_⟩
        obtain rfl := s.distinct b a j (of_update_none hb) hid
        simp at hb
  case now => rw [hgone']; rfl
  case alive =>
    intro j hj
    rw [hgone'] at hj
    cases hj

theorem Shows.opens (h : Shows a s₀ s th) (hnone : s.socketMap a = none) (hn : s'.next = s.next + 1)
    (hm : s'.socketMap = Function.update s.socketMap a (some s.next))
    (ht : s'.traffic = s.traffic ++ [.opened a s.next])
    (hnew : (s'.entries s.next).appended = [] ∧ (s'.entries s.next).handle ≠ .dropped)
    (happ : ∀ j, j ≠ s.next → (s'.entries j).appended = (s.entries j).appended) :
    Shows a s₀ s' (th.hear true (.zero a)) := by
  have hnow : th.now = none := by rw [← h.now, hnone]; rfl
  have hhear : th.hear true (.zero a) = ⟨th.changes ++ [.opened], th.past, some []⟩ := by
    simp [Thread.hear, hnow]
  have hsince := h.grown.since_append ht
  have hown : s'.socketMap a = some s.next := by rw [hm, Function.update_self]
  obtain ⟨old, hids, hpast, hgone⟩ := h.past
  rw [hnone, Option.toList_none, List.append_nil] at hids
  rw [hhear]
  constructor
  case grown =>
    refine h.grown.step (by omega) ht fun j hj => ?_
    rw [happ j (by omega)]
  case changes =>
    rw [SharedReader.changes, hsince, List.filterMap_append]
    simp [← h.changes, SharedReader.changes, Event.change]
  case past =>
    refine ⟨old, ?_, ?_, ?_⟩
    · rw [entriesOf, hsince, List.filterMap_append, hown, ← hids]
      simp [entriesOf, Event.entry]
    · rw [← hpast]
      refine List.map_congr_left fun j hj => gained_congr (happ j ?_)
      have hlt := (hgone j hj).1
      omega
    · intro j hj
      obtain ⟨hlt, hno⟩ := hgone j hj
      refine ⟨by omega, fun b hb => ?_⟩
      rw [hm] at hb
      rcases eq_or_ne b a with rfl | hba
      · rw [Function.update_self] at hb
        have heq : s.next = j := Option.some.inj hb
        omega
      · rw [Function.update_of_ne hba] at hb
        exact hno b hb
  case now =>
    have hge : ¬ s.next < s₀.next := by
      have hle := h.grown.next
      omega
    rw [hown]
    simp [gained, hge, hnew.1]
  case alive =>
    intro j hj
    rw [hown] at hj
    obtain rfl := Option.some.inj hj
    exact hnew.2

/-- Payload that nobody takes, which is not for an address that is open. -/
theorem Shows.discard (h : Shows a s₀ s th) {owner : SocketAddr} {n : ℕ} {bs : List UInt8}
    (hu : s.upgrade owner = none) :
    Shows a s₀ ((s.consume bs).setState (payloadLeft owner n)) (th.hears connected a (bs.map (.data owner))) := by
  have hth : th.hears connected a (bs.map (.data owner)) = th := by
    by_cases hoa : owner = a
    · subst hoa
      have hnone : s.socketMap owner = none := by
        cases hm : s.socketMap owner with
        | none => rfl
        | some id =>
          have hh := h.alive id hm
          simp [SharedReader.upgrade, hm, Option.filter, hh] at hu
      have hnow : th.now = none := by rw [← h.now, hnone]; rfl
      rw [Thread.hears_data, hnow]
      cases th
      simp_all
    · exact Thread.hears_other (by simp [Signal.addr, hoa])
  rw [hth]
  exact h.same rfl rfl rfl (fun _ => rfl) fun _ _ hd => hd

theorem Shows.fill (h : Shows a s₀ s th) {owner : SocketAddr} {n id : ℕ} {bs : List UInt8}
    (hm : s.socketMap owner = some id) (hroom : bs.take (s.entries id).buffer.room = bs) :
    Shows a s₀ ((s.fill id bs).setState (payloadLeft owner n)) (th.hears connected a (bs.map (.data owner))) := by
  have hid : (((s.fill id bs).setState (payloadLeft owner n)).entries id).appended =
      (s.entries id).appended ++ bs ∧
      (((s.fill id bs).setState (payloadLeft owner n)).entries id).handle = (s.entries id).handle := by
    simp [SharedReader.setState, SharedReader.fill, SharedReader.wake, SharedReader.emit, deliver,
      SharedReader.setEntry, hroom]
  have hrest : ∀ j, j ≠ id → ((s.fill id bs).setState (payloadLeft owner n)).entries j = s.entries j := by
    intro j hj
    simp [SharedReader.setState, SharedReader.fill, SharedReader.wake, SharedReader.emit, deliver,
      SharedReader.setEntry, SharedReader.consume, hj]
  have ht : ((s.fill id bs).setState (payloadLeft owner n)).traffic = s.traffic := wake_traffic _ _
  by_cases hoa : owner = a
  · subst hoa
    rw [Thread.hears_data]
    exact h.data hm rfl rfl ht hid.1 (fun j hj => by rw [hrest j hj]) hid.2
  · rw [Thread.hears_other (by simp [Signal.addr, hoa])]
    have ht' : ((s.fill id bs).setState (payloadLeft owner n)).traffic = s.traffic ++ [] := by
      rw [ht, List.append_nil]
    refine h.stays le_rfl rfl (fun _ _ hno => hno) ht' (by simp) (fun j _ => ?_) fun j hj hd => ?_
    · rcases eq_or_ne j id with rfl | hne
      · exact Or.inr ⟨owner, bs, hoa, hm, hid.1⟩
      · exact Or.inl (by rw [hrest j hne])
    · have hne : j ≠ id := by
        rintro rfl
        exact hoa (s.distinct owner a j hm hj)
      rwa [hrest j hne] at hd

theorem Shows.remove (h : Shows a s₀ s th) {addr : SocketAddr} {id : ℕ} (hm : s.socketMap addr = some id)
    (bs : List UInt8) :
    Shows a s₀ (((s.consume bs).remove addr).setState (.nextPacket [])) (th.hears connected a [.zero addr]) := by
  have hn : (((s.consume bs).remove addr).setState (.nextPacket [])).next = s.next := remove_next addr _
  have hmap : (((s.consume bs).remove addr).setState (.nextPacket [])).socketMap =
      Function.update s.socketMap addr none := remove_socketMap addr _
  have happ : ∀ j, ((((s.consume bs).remove addr).setState (.nextPacket [])).entries j).appended =
      (s.entries j).appended := remove_appended addr _
  have ht : (((s.consume bs).remove addr).setState (.nextPacket [])).traffic =
      s.traffic ++ [.closed addr id] := remove_traffic (s := s.consume bs) hm
  by_cases haa : addr = a
  · subst haa
    rw [Thread.hears_zero]
    exact h.close hm hn hmap ht happ
  · rw [Thread.hears_other (by simp [Signal.addr, haa])]
    refine h.stays hn.ge ?_ ?_ ht ?_ (fun j _ => Or.inl (happ j)) fun j _ hd => ?_
    · rw [hmap, Function.update_of_ne (Ne.symm haa)]
    · intro j _ hno b hb
      rw [hmap] at hb
      exact hno b (of_update_none hb)
    · simp [Event.change, Event.entry, haa]
    · exact (remove_buffer addr (s.consume bs) j).2.symm.trans hd

theorem Shows.ignore (h : Shows a s₀ s th) {addr : SocketAddr} (hm : s.socketMap addr = none) (bs : List UInt8) :
    Shows a s₀ ((s.consume bs).setState (.nextPacket [])) (th.hears false a [.zero addr]) := by
  have hth : th.hears false a [.zero addr] = th := by
    by_cases haa : addr = a
    · subst haa
      have hnow : th.now = none := by rw [← h.now, hm]; rfl
      rw [Thread.hears_zero]
      simp [Thread.hear, hnow]
    · exact Thread.hears_other (by simp [Signal.addr, haa])
  rw [hth]
  exact h.same rfl rfl rfl (fun _ => rfl) fun _ _ hd => hd

theorem Shows.add (h : Shows a s₀ s th) {addr : SocketAddr} (hm : s.socketMap addr = none) (cx : Waker)
    (bs : List UInt8) :
    Shows a s₀ ((((s.consume bs).add addr cx .queued).setState (.sendSocket addr s.next false)).emit
      (.opened addr s.next)) (th.hears true a [.zero addr]) := by
  have ht : ((((s.consume bs).add addr cx .queued).setState (.sendSocket addr s.next false)).emit
      (.opened addr s.next)).traffic = s.traffic ++ [.opened addr s.next] := by
    simp [SharedReader.traffic, SharedReader.emit, SharedReader.setState, SharedReader.add,
      SharedReader.consume, Event.isTraffic]
  have hrest : ∀ j, j ≠ s.next → ((((s.consume bs).add addr cx .queued).setState
      (.sendSocket addr s.next false)).emit (.opened addr s.next)).entries j = s.entries j := by
    intro j hj
    simp [SharedReader.emit, SharedReader.setState, SharedReader.add, SharedReader.consume, hj]
  by_cases haa : addr = a
  · subst haa
    rw [Thread.hears_zero]
    refine h.opens hm rfl rfl ht ?_ fun j hj => by rw [hrest j hj]
    simp [SharedReader.emit, SharedReader.setState, SharedReader.add, SharedReader.consume, ReaderEntry.new]
  · rw [Thread.hears_other (by simp [Signal.addr, haa])]
    refine h.stays (Nat.le_succ _) (Function.update_of_ne (Ne.symm haa) _ _) ?_ ht ?_ (fun j hj => ?_) fun j hj hd => ?_
    · intro j hj hno b hb
      have hb' : Function.update s.socketMap addr (some s.next) b = some j := hb
      rcases eq_or_ne b addr with rfl | hba
      · rw [Function.update_self] at hb'
        have heq : s.next = j := Option.some.inj hb'
        omega
      · rw [Function.update_of_ne hba] at hb'
        exact hno b hb'
    · simp [Event.change, Event.entry, haa]
    · exact Or.inl (by rw [hrest j hj.ne])
    · rwa [hrest j (s.allocated a j hj).ne] at hd

/-- A turn does to an address what the stream says of it. -/
theorem Shows.effect {cx : Waker} {signals : List Signal} (h : Shows a s₀ s th) (he : Effect cx s signals s')
    (hsend : ∀ b id polled, s.state = .sendSocket b id polled → s.connected = true) :
    Shows a s₀ s' (th.hears s.connected a signals) := by
  cases he with
  | discard hs hu h0 => exact h.discard hu
  | fill hs hu h0 hroom => exact h.fill (Option.filter_eq_some_iff.mp hu).1 hroom
  | payload =>
    rw [Thread.hears_other (by simp)]
    exact h.same rfl rfl rfl (fun _ => rfl) fun _ _ hd => hd
  | close hs hm => exact h.remove hm _
  | ignore hs hm hc =>
    rw [hc]
    exact h.ignore hm _
  | opening hs hm hc =>
    rw [hc]
    exact h.add hm _ _
  | @sent addr id polled hs hc =>
    rw [Thread.hears_other (by simp)]
    cases polled
    · exact h.same (by simp [SharedReader.setState, SharedReader.offer])
        (by simp [SharedReader.setState, SharedReader.offer]) (wakeReceiver_traffic _)
        (by simp [SharedReader.setState, SharedReader.offer]) (by simp [SharedReader.setState, SharedReader.offer])
    · exact h.same rfl rfl rfl (fun _ => rfl) fun _ _ hd => hd
  | unsent hs hc =>
    rw [hsend _ _ _ hs] at hc
    cases hc

/-- Moves that leave the listener as it is, keep the reader of the address and add no other
one under it. Memory can be allocated. -/
def Spares (a : SocketAddr) (s : SharedReader) : Move → Prop
  | .once _ t => t.alloc = true
  | .add addr _ => addr ≠ a
  | .release id => s.socketMap a ≠ some id
  | .disconnect => False
  | _ => True

/-- A new socket is only sent while there is a listener. -/
def Heeds (s : SharedReader) : Prop := ∀ b id polled, s.state = .sendSocket b id polled → s.connected = true

theorem Turn.heeds {cx : Waker} {t : Tick} {r : Poll (Except IoError Unit)} (h : Turn cx t s r s')
    (hs : s.Heeds) : s'.Heeds := by
  have hno : ∀ {s₁ : SharedReader}, (∀ b id polled, s₁.state ≠ .sendSocket b id polled) → s₁.Heeds :=
    fun hne b id polled he => absurd he (hne b id polled)
  have hleft : ∀ (s₁ : SharedReader) owner n, (s₁.setState (payloadLeft owner n)).Heeds := by
    intro s₁ owner n
    refine hno fun b id polled => ?_
    unfold payloadLeft
    split <;> simp [SharedReader.setState]
  cases h with
  | parked => exact hs
  | full => exact hs
  | short => exact hno (by simp [SharedReader.setState])
  | @sending addr id polled _ hc =>
    intro b j polled' he
    cases polled
    · simpa [SharedReader.emit, SharedReader.setState, SharedReader.offer] using hc
    · exact hc
  | failed => exact hs
  | broken => exact hs
  | discardCut => exact hno (by simp [SharedReader.setState])
  | fillCut => exact hno (by simp [SharedReader.setState])
  | headerCut => exact hno (by simp [SharedReader.setState])
  | noMemory => exact hs
  | discard => exact hleft _ _ _
  | fill => exact hleft _ _ _
  | payload => exact hno (by simp [SharedReader.setState])
  | close => exact hno (by simp [SharedReader.setState])
  | ignore => exact hno (by simp [SharedReader.setState])
  | opening _ _ _ _ _ _ hc => exact fun _ _ _ _ => hc
  | sent => exact hno (by simp [SharedReader.setState])
  | unsent => exact hno (by simp [SharedReader.setState])

/-- A run from `s₀` that has read these bytes. -/
structure Follows (a : SocketAddr) (s₀ s : SharedReader) (bs : List UInt8) : Prop where
  consumed : s.consumed = s₀.consumed ++ bs
  coherent : s.Coherent
  connected : s.connected = s₀.connected
  heeds : s.Heeds
  position : s.state = .error ∨ s.position = some ((Position.header []).scan bs).1
  shows : Shows a s₀ s
    (Thread.hears s₀.connected a ⟨[], [], (s₀.socketMap a).map fun _ => []⟩ ((Position.header []).scan bs).2)

theorem Follows.once {bs : List UInt8} (h : Follows a s₀ s bs) (cx : Waker) {t : Tick} (hw : s.Within t)
    (ha : t.alloc = true) : ∃ bs', Follows a s₀ (s.pollOnce cx t).2 bs' := by
  have hturn := s.pollOnce_turn cx t
  have hcoh := h.coherent.turn hturn hw
  have hheeds := hturn.heeds h.heeds
  rcases h.position with he | hp
  · have hsame : (s.pollOnce cx t).2 = s := by simp [SharedReader.pollOnce, he]
    rw [hsame]
    exact ⟨bs, h⟩
  rcases hturn.outcome hw hp (h.coherent.valid _ hp) with ⟨new, signals, hh, heff⟩ | ⟨new, hh⟩ | ⟨header, new, hs⟩
  · have hshows := h.shows.effect heff h.heeds
    rw [h.connected, ← Thread.hears_append, ← hh.signals] at hshows
    refine ⟨bs ++ new, ?_, hcoh, heff.connected.trans h.connected, hheeds, Or.inr ?_, ?_⟩
    · rw [hh.consumed, h.consumed, List.append_assoc]
    · rw [hh.position, Position.scan_append]
    · rw [Position.scan_append]
      exact hshows
  · refine ⟨bs ++ new, ?_, hcoh, hh.connected.trans h.connected, hheeds, hh.position.imp_right fun hpos => ?_, ?_⟩
    · rw [hh.consumed, h.consumed, List.append_assoc]
    · rw [hpos, Position.scan_append]
    · rw [Position.scan_append, hh.signals, List.append_nil]
      refine h.shows.same hh.next hh.socketMap hh.traffic hh.appended fun id _ hd => ?_
      rwa [hh.handle] at hd
  · rw [hs.alloc] at ha
    cases ha

theorem Follows.calm {bs : List UInt8} {m : Move} (h : Follows a s₀ s bs) (hs : s.Sane m) (hc : Calm s (s.perform m))
    (hconn : (s.perform m).connected = s.connected)
    (hh : ∀ id, s.socketMap a = some id → ((s.perform m).entries id).handle = .dropped →
      (s.entries id).handle = .dropped) : Follows a s₀ (s.perform m) bs where
  consumed := hc.consumed.trans h.consumed
  coherent := h.coherent.acts (acts_perform hs)
  connected := hconn.trans h.connected
  heeds b id polled he := by
    rw [hconn]
    exact h.heeds b id polled (hc.state.symm.trans he)
  position := by
    have hpos : (s.perform m).position = s.position := by simp only [SharedReader.position, hc.state]
    rw [hc.state, hpos]
    exact h.position
  shows := h.shows.same hc.next hc.socketMap hc.traffic hc.appended hh

theorem Follows.add {bs : List UInt8} {addr : SocketAddr} {alloc : Bool} (h : Follows a s₀ s bs) (hne : addr ≠ a) :
    Follows a s₀ (s.perform (.add addr alloc)) bs := by
  have hcoh := h.coherent.acts (acts_perform (m := .add addr alloc) trivial)
  rcases s.perform_add addr alloc with heq | ⟨hnone, heq⟩
  · rw [heq]
    exact h
  rw [heq] at hcoh ⊢
  have ht : (s.add addr .noop .held).traffic = s.traffic ++ [] := by
    rw [List.append_nil]
    rfl
  have hrest : ∀ j, j ≠ s.next → (s.add addr .noop .held).entries j = s.entries j := by
    intro j hj
    simp [SharedReader.add, hj]
  refine ⟨h.consumed, hcoh, h.connected, h.heeds, h.position, ?_⟩
  refine h.shows.stays (Nat.le_succ _) (Function.update_of_ne (Ne.symm hne) _ _) ?_ ht (by simp)
    (fun j hj => Or.inl (by rw [hrest j hj.ne])) fun j hj hd => ?_
  · intro j hj hno b hb
    have hb' : Function.update s.socketMap addr (some s.next) b = some j := hb
    rcases eq_or_ne b addr with rfl | hba
    · rw [Function.update_self] at hb'
      have heq : s.next = j := Option.some.inj hb'
      omega
    · rw [Function.update_of_ne hba] at hb'
      exact hno b hb'
  · rwa [hrest j (s.allocated a j hj).ne] at hd

theorem Follows.perform {bs : List UInt8} {m : Move} (h : Follows a s₀ s bs) (hs : s.Sane m) (hm : s.Spares a m) :
    ∃ bs', Follows a s₀ (s.perform m) bs' := by
  have hcalm := s.perform_calm m
  cases m with
  | once cx t => exact h.once cx hs hm
  | add addr alloc => exact ⟨bs, h.add hm⟩
  | yield cx => exact ⟨bs, h.calm hs (by simpa using hcalm) rfl fun _ _ hd => hd⟩
  | read cx id n =>
    refine ⟨bs, h.calm hs (by simpa using hcalm) (s.readEntry_rest cx id n).2.1 fun j _ hd => ?_⟩
    exact (s.readEntry_handle cx id n j).symm.trans hd
  | accept k hooked cx =>
    exact ⟨bs, h.calm hs (by simpa using hcalm) (s.recvEntry_rest k hooked cx).2.1
      fun j _ hd => (s.recvEntry_dropped k hooked cx j).mp hd⟩
  | leave k hooked =>
    refine ⟨bs, h.calm hs (by simpa using hcalm) (s.dropReceiver_rest k hooked).2.1 fun j _ hd => ?_⟩
    have hd' : ((s.dropReceiver k hooked).entries j).handle = .dropped := hd
    rwa [dropReceiver_entries] at hd'
  | release id =>
    refine ⟨bs, h.calm hs (by simpa using hcalm) rfl fun j hj hd => ?_⟩
    have hne : j ≠ id := by
      rintro rfl
      exact hm hj
    simpa [SharedReader.perform, SharedReader.release, SharedReader.setEntry, hne] using hd
  | disconnect => exact hm.elim

theorem Follows.refl (hc : s₀.Coherent) (hst : s₀.state = .nextPacket [])
    (halive : ∀ id, s₀.socketMap a = some id → (s₀.entries id).handle ≠ .dropped) : Follows a s₀ s₀ [] := by
  have hnil : since s₀ s₀ = [] := List.drop_length
  constructor
  case consumed => exact (List.append_nil _).symm
  case coherent => exact hc
  case connected => rfl
  case heeds =>
    intro b id polled he
    rw [hst] at he
    cases he
  case position => exact Or.inr (by simp [SharedReader.position, hst])
  case shows =>
    constructor
    case grown => exact ⟨le_rfl, List.prefix_rfl, fun _ _ => List.prefix_rfl⟩
    case changes => simp [SharedReader.changes, hnil, Thread.hears]
    case past => exact ⟨[], by simp [entriesOf, hnil], rfl, by simp⟩
    case now =>
      cases hm : s₀.socketMap a with
      | none => rfl
      | some id =>
        have hlt := s₀.allocated a id hm
        simp [gained, hlt, Thread.hears]
    case alive => exact halive

theorem Follows.plays (h : Plays (Spares a) s₀ s) (hc : s₀.Coherent) (hst : s₀.state = .nextPacket [])
    (halive : ∀ id, s₀.socketMap a = some id → (s₀.entries id).handle ≠ .dropped) :
    ∃ bs, Follows a s₀ s bs := by
  induction h with
  | refl => exact ⟨[], .refl hc hst halive⟩
  | tail _ hs ih =>
    obtain ⟨m, hsane, hok, rfl⟩ := hs
    obtain ⟨bs, hf⟩ := ih
    exact hf.perform hsane hok

/-- What an observer of the address sees is what its thread says. -/
theorem Shows.entries (h : Shows a s₀ s th) :
    (entriesOf a s₀ s).map (gained s₀ s) = th.past ++ th.now.toList := by
  obtain ⟨old, hids, hpast, -⟩ := h.past
  rw [hids, List.map_append, hpast, ← h.now]
  cases s.socketMap a <;> rfl

end

def wireOf (fs : List (SocketAddr × List UInt8)) : List UInt8 := fs.flatMap fun f => frame f.1 f.2

theorem scan_wireOf {fs : List (SocketAddr × List UInt8)} (h : ∀ f ∈ fs, f.2.length ≤ 65535) :
    (Position.header []).scan (wireOf fs) = (.header [], fs.flatMap fun f => spoken f.1 f.2) := by
  induction fs with
  | nil => rfl
  | cons f fs ih =>
    have hf := h f List.mem_cons_self
    have hrest := ih fun g hg => h g (List.mem_cons_of_mem _ hg)
    unfold wireOf at hrest ⊢
    rw [List.flatMap_cons, List.flatMap_cons, Position.scan_append, scan_frame f.1 hf]
    simp only [hrest]

/-- The frames of other addresses say nothing of this one. -/
theorem hears_wireOf {connected : Bool} {th : Thread} {a : SocketAddr} (fs : List (SocketAddr × List UInt8)) :
    th.hears connected a (fs.flatMap fun f => spoken f.1 f.2) =
      th.hears connected a ((fs.filter fun f => f.1 = a).flatMap fun f => spoken f.1 f.2) := by
  induction fs generalizing th with
  | nil => rfl
  | cons f fs ih =>
    rw [List.flatMap_cons, Thread.hears_append, ih, List.filter_cons]
    by_cases hfa : f.1 = a
    · simp only [hfa, decide_true, if_true, List.flatMap_cons, Thread.hears_append]
    · have hth : th.hears connected a (spoken f.1 f.2) = th :=
        Thread.hears_other fun g hg => addr_of_mem_spoken hg ▸ hfa
      simp [hth, hfa]

/-- Two readers that begin with the same map and listener and read streams of whole frames
that agree in the frames of one address: whatever the other frames are, however the streams
are cut and whoever reads, the address is opened and closed in the same way, it is in both
maps or in none, and its entries get the same bytes. -/
theorem isolated {a : SocketAddr} {s₁ s₁' s₂ s₂' : SharedReader} {fs₁ fs₂ : List (SocketAddr × List UInt8)}
    (hr₁ : s₁.Reachable) (hr₂ : s₂.Reachable) (hst₁ : s₁.state = .nextPacket []) (hst₂ : s₂.state = .nextPacket [])
    (hmap : s₁.socketMap = s₂.socketMap) (hconn : s₁.connected = s₂.connected)
    (halive₁ : ∀ id, s₁.socketMap a = some id → (s₁.entries id).handle ≠ .dropped)
    (halive₂ : ∀ id, s₂.socketMap a = some id → (s₂.entries id).handle ≠ .dropped)
    (hrun₁ : Plays (Spares a) s₁ s₁') (hrun₂ : Plays (Spares a) s₂ s₂')
    (hfit₁ : ∀ f ∈ fs₁, f.2.length ≤ 65535) (hfit₂ : ∀ f ∈ fs₂, f.2.length ≤ 65535)
    (hread₁ : s₁'.consumed = s₁.consumed ++ wireOf fs₁) (hread₂ : s₂'.consumed = s₂.consumed ++ wireOf fs₂)
    (hsame : (fs₁.filter fun f => f.1 = a) = fs₂.filter fun f => f.1 = a) :
    changes a s₁ s₁' = changes a s₂ s₂' ∧ (s₁'.socketMap a).isSome = (s₂'.socketMap a).isSome ∧
      (entriesOf a s₁ s₁').map (gained s₁ s₁') = (entriesOf a s₂ s₂').map (gained s₂ s₂') := by
  obtain ⟨bs₁, h₁⟩ := Follows.plays hrun₁ hr₁.coherent hst₁ halive₁
  obtain ⟨bs₂, h₂⟩ := Follows.plays hrun₂ hr₂.coherent hst₂ halive₂
  obtain rfl : bs₁ = wireOf fs₁ := List.append_cancel_left (h₁.consumed.symm.trans hread₁)
  obtain rfl : bs₂ = wireOf fs₂ := List.append_cancel_left (h₂.consumed.symm.trans hread₂)
  have hs₁ := h₁.shows
  have hs₂ := h₂.shows
  rw [scan_wireOf hfit₁, hears_wireOf, hsame, hmap, hconn] at hs₁
  rw [scan_wireOf hfit₂, hears_wireOf] at hs₂
  have hin : ∀ {s₀ s : SharedReader} {th : Thread}, Shows a s₀ s th → (s.socketMap a).isSome = th.now.isSome := by
    intro s₀ s th h
    rw [← h.now, Option.isSome_map]
  refine ⟨hs₁.changes.trans hs₂.changes.symm, ?_, hs₁.entries.trans hs₂.entries.symm⟩
  rw [hin hs₁, hin hs₂]

theorem Plays.bytes {a : SocketAddr} {s₀ s : SharedReader} (h : Plays (Spares a) s₀ s) (bs : List UInt8)
    (hw : s.Within (.bytes bs)) : Plays (Spares a) s₀ (s.pollOnce .noop (.bytes bs)).2 :=
  .tail h ⟨.once .noop (.bytes bs), hw, rfl, rfl⟩

/-- A stream that opens an address and has a byte for it, and one that opens another address first
and is cut elsewhere. -/
theorem isolated_opening :
    ∃ s₁ s₂ b, s₁.consumed = wireOf [(.unspecified, []), (.unspecified, [7])] ∧
      s₂.consumed = wireOf [(b, []), (.unspecified, []), (.unspecified, [7])] ∧
      (entriesOf .unspecified (init true) s₁).map (gained (init true) s₁) = [[7]] ∧
      changes .unspecified (init true) s₁ = changes .unspecified (init true) s₂ ∧
      (s₁.socketMap .unspecified).isSome = (s₂.socketMap .unspecified).isSome ∧
      (entriesOf .unspecified (init true) s₁).map (gained (init true) s₁) =
        (entriesOf .unspecified (init true) s₂).map (gained (init true) s₂) := by
  let b : SocketAddr := ⟨SocketAddr.unspecified.ip, .new 1⟩
  let s₁ := ((init true).pollOnce .noop (.bytes (frame .unspecified []))).2
  let s₂ := (s₁.pollOnce .noop (.bytes [])).2
  let s₃ := (s₂.pollOnce .noop (.bytes ((frame .unspecified [7]).take 20))).2
  let s₄ := (s₃.pollOnce .noop (.bytes [7])).2
  let t₁ := ((init true).pollOnce .noop (.bytes (frame b []))).2
  let t₂ := (t₁.pollOnce .noop (.bytes [])).2
  let t₃ := (t₂.pollOnce .noop (.bytes (frame .unspecified []))).2
  let t₄ := (t₃.pollOnce .noop (.bytes [])).2
  let t₅ := (t₄.pollOnce .noop (.bytes ((frame .unspecified [7]).take 9))).2
  let t₆ := (t₅.pollOnce .noop (.bytes (((frame .unspecified [7]).take 20).drop 9))).2
  let t₇ := (t₆.pollOnce .noop (.bytes [7])).2
  have hr : (init true).Reachable := ⟨true, .refl⟩
  have hstart : Plays (Spares .unspecified) (init true) (init true) := .refl
  have hs₂ : Plays (Spares .unspecified) (init true) s₂ :=
    (hstart.bytes _ (.bytes (n := 20) rfl (by decide))).bytes [] (.silent (by decide +kernel))
  have hs₄ : Plays (Spares .unspecified) (init true) s₄ :=
    (hs₂.bytes _ (.bytes (n := 20) (by decide +kernel) (by decide))).bytes [7]
      (.bytes (n := 1) (by decide +kernel) (by decide))
  have ht₂ : Plays (Spares .unspecified) (init true) t₂ :=
    (hstart.bytes _ (.bytes (n := 20) rfl (by decide))).bytes [] (.silent (by decide +kernel))
  have ht₄ : Plays (Spares .unspecified) (init true) t₄ :=
    (ht₂.bytes _ (.bytes (n := 20) (by decide +kernel) (by decide))).bytes [] (.silent (by decide +kernel))
  have ht₆ : Plays (Spares .unspecified) (init true) t₆ :=
    (ht₄.bytes _ (.bytes (n := 20) (by decide +kernel) (by decide))).bytes _
      (.bytes (n := 11) (by decide +kernel) (by decide))
  have ht₇ : Plays (Spares .unspecified) (init true) t₇ :=
    ht₆.bytes [7] (.bytes (n := 1) (by decide +kernel) (by decide))
  have hread₁ : s₄.consumed = (init true).consumed ++ wireOf [(.unspecified, []), (.unspecified, [7])] := by
    decide +kernel
  have hread₂ : t₇.consumed = (init true).consumed ++ wireOf [(b, []), (.unspecified, []), (.unspecified, [7])] := by
    decide +kernel
  have hsame : ([(.unspecified, []), (.unspecified, [7])] : List (SocketAddr × List UInt8)).filter (fun f => f.1 = .unspecified) =
      ([(b, []), (.unspecified, []), (.unspecified, [7])] : List (SocketAddr × List UInt8)).filter
        fun f => f.1 = .unspecified := by decide
  exact ⟨s₄, t₇, b, hread₁, hread₂, by decide +kernel,
    isolated hr hr rfl rfl rfl rfl nofun nofun hs₄ ht₇ (by simp) (by simp) hread₁ hread₂ hsame⟩

end SharedReader

end VtMuxer
