import VtMuxer.Interaction.Simulation
import VtMuxer.Mux.Hearing
import VtMuxer.Read.Stalled

/-! What a pipe is to those who use it: a switch that takes the stream byte by byte into inboxes
without limit and hands connections out in the order in which they were opened. The shared reader
does nothing that this switch does not. -/
namespace VtMuxer
open Interaction

/-- The connections of a pipe: their addresses, those that nobody has accepted yet, who has their
readers, and what has come for them. -/
structure Table where
  map : SocketAddr → Option ℕ
  next : ℕ
  listening : Bool
  waiting : List (SocketAddr × ℕ)
  holder : ℕ → Handle
  inbox : ℕ → List UInt8

namespace Table

def init (listening : Bool) : Table := ⟨fun _ => none, 0, listening, [], fun _ => .dropped, fun _ => []⟩

def enroll (a : SocketAddr) (h : Handle) (T : Table) : Table :=
  { T with
    map := Function.update T.map a (some T.next)
    next := T.next + 1
    holder := Function.update T.holder T.next h
    inbox := Function.update T.inbox T.next [] }

def deliver (a : SocketAddr) (bs : List UInt8) (T : Table) : Table :=
  match T.map a with
  | some id =>
    if T.holder id = .dropped then T else { T with inbox := Function.update T.inbox id (T.inbox id ++ bs) }
  | none => T

/-- A frame without payload closes what is open and opens what is not. -/
def toggle (a : SocketAddr) (T : Table) : Table :=
  match T.map a with
  | some _ => { T with map := Function.update T.map a none }
  | none => if T.listening then { T.enroll a .queued with waiting := T.waiting ++ [(a, T.next)] } else T

def obey (T : Table) : Signal → Table
  | .data a v => T.deliver a [v]
  | .zero a => T.toggle a

def Ended (T : Table) (id : ℕ) : Prop := ∀ a, T.map a ≠ some id

end Table

/-- What can be seen of a pipe from outside. -/
inductive Seen where
  /-- A byte is taken from the stream. -/
  | byte (b : UInt8)
  | accepted (addr : SocketAddr) (id : ℕ)
  | added (addr : SocketAddr) (id : ℕ)
  | addrInUse (addr : SocketAddr)
  /-- A read into `n` bytes returns these. -/
  | read (id n : ℕ) (bs : List UInt8)
  | released (id : ℕ)
  | disconnected
  deriving DecidableEq, Repr

/-- Where the stream stands, unless it has failed, and the connections. -/
structure Switch where
  place : Option Position
  table : Table

namespace Switch

def init (listening : Bool) : Switch := ⟨some (.header []), .init listening⟩

inductive Step : Switch → List Seen → Switch → Prop where
  | byte (p : Position) (T : Table) (b : UInt8) :
      Step ⟨some p, T⟩ [.byte b] ⟨some (p.next b).1, (p.next b).2.foldl Table.obey T⟩
  | fail (p : Option Position) (T : Table) : Step ⟨p, T⟩ [] ⟨none, T⟩
  | accept (p : Option Position) {T : Table} {a : SocketAddr} {id : ℕ} {rest : List (SocketAddr × ℕ)}
      (hl : T.listening = true) (h : T.waiting = (a, id) :: rest) :
      Step ⟨p, T⟩ [.accepted a id]
        ⟨p, { T with waiting := rest, holder := Function.update T.holder id (T.holder id).accept }⟩
  | add (p : Option Position) {T : Table} {a : SocketAddr} (h : T.map a = none) :
      Step ⟨p, T⟩ [.added a T.next] ⟨p, T.enroll a .held⟩
  | refuse (p : Option Position) {T : Table} {a : SocketAddr} (h : T.map a ≠ none) :
      Step ⟨p, T⟩ [.addrInUse a] ⟨p, T⟩
  /-- A read returns what there is, as much as it can. It returns nothing only at the end, or if it
  asks for nothing. -/
  | read (p : Option Position) {T : Table} {id : ℕ} (n : ℕ) (h : T.inbox id = [] → n ≠ 0 → T.Ended id) :
      Step ⟨p, T⟩ [.read id n ((T.inbox id).take n)]
        ⟨p, { T with inbox := Function.update T.inbox id ((T.inbox id).drop n) }⟩
  | release (p : Option Position) (T : Table) (id : ℕ) :
      Step ⟨p, T⟩ [.released id] ⟨p, { T with holder := Function.update T.holder id .dropped }⟩
  | disconnect (p : Option Position) (T : Table) : Step ⟨p, T⟩ [.disconnected] ⟨p, { T with listening := false }⟩
  /-- A connection that nobody can accept any more is given up. -/
  | forget (p : Option Position) {T : Table} {id : ℕ} (hl : T.listening = false) (h : T.holder id = .queued) :
      Step ⟨p, T⟩ [] ⟨p, { T with holder := Function.update T.holder id .dropped }⟩

def system : System Switch Seen := Step

theorem runs_bytes (bs : List UInt8) : ∀ (p : Position) (T : Table),
    system.Runs ⟨some p, T⟩ (bs.map .byte) ⟨some (p.scan bs).1, (p.scan bs).2.foldl Table.obey T⟩ := by
  induction bs with
  | nil => exact fun p T => .refl
  | cons b bs ih =>
    intro p T
    have hrest := ih (p.next b).1 ((p.next b).2.foldl Table.obey T)
    rw [← List.foldl_append] at hrest
    exact (System.Runs.single (Step.byte p T b)).trans hrest

end Switch

namespace SharedReader

def seen (s : SharedReader) : Move → List Seen
  | .once cx t => ((s.pollOnce cx t).2.consumed.drop s.consumed.length).map .byte
  | .yield _ => []
  | .read cx id n => (s.readEntry cx id n).1.toList.map (.read id n)
  | .accept k hooked cx => (s.recvEntry k hooked cx).1.toList.map fun x => .accepted x.1 x.2
  | .leave _ _ => []
  | .add addr alloc =>
    match (s.insert addr .noop .held alloc).1 with
    | .ok id => [.added addr id]
    | .error _ => [.addrInUse addr]
  | .release id => [.released id]
  | .disconnect => [.disconnected]

/-- The shared reader as a system: whatever is done with it while there is memory, by those who
have a reader or a listener. -/
def system : System SharedReader Seen := fun s l s' =>
  ∃ m, s.Permits m ∧ m.Fed ∧ (∀ cx id n, m = .read cx id n → id < s.next) ∧ l = s.seen m ∧ s' = s.perform m

end SharedReader

section
variable {s : SharedReader}

theorem SharedReader.unsent_of_read {owner : SocketAddr} {left : ℕ} (h : s.state = .read owner left) : s.unsent = [] := by
  simp [unsent, h]

theorem SharedReader.unsent_of_nextPacket {header : List UInt8} (h : s.state = .nextPacket header) : s.unsent = [] := by
  simp [unsent, h]

theorem SharedReader.unsent_payloadLeft (owner : SocketAddr) (n : ℕ) :
    (s.setState (payloadLeft owner n)).unsent = [] := by
  unfold payloadLeft
  split <;> rfl

end

theorem SharedReader.Calm.position {s s' : SharedReader} (h : Calm s s') : s'.position = s.position := by
  simp only [SharedReader.position, h.state]

theorem SharedReader.Calm.unsent {s s' : SharedReader} (h : Calm s s') : s'.unsent = s.unsent := by
  simp only [SharedReader.unsent, h.state]

theorem SharedReader.recvEntry_entries (s : SharedReader) (k : ℕ) (hooked : Bool) (cx : Waker) :
    (s.recvEntry k hooked cx).2.entries =
      match (s.recvEntry k hooked cx).1 with
      | none => s.entries
      | some x => Function.update s.entries x.2 { s.entries x.2 with handle := (s.entries x.2).handle.accept } := by
  unfold SharedReader.recvEntry
  split
  · unfold awaitItem
    dsimp only
    split <;> rfl
  · dsimp only
    rw [dropReceiver_entries]
    rfl

/-- The shared reader has what the table has. -/
structure Mirrors (s : SharedReader) (T : Table) : Prop where
  map : s.socketMap = T.map
  next : s.next = T.next
  listening : s.connected = T.listening
  waiting : s.connected = true → s.chan ++ s.unsent = T.waiting
  holder : ∀ id < s.next, (s.entries id).handle = T.holder id
  inbox : ∀ id < s.next, (s.entries id).buffer.bytes = T.inbox id

section
variable {s s' : SharedReader} {T : Table} {cx : Waker} {signals : List Signal} {a : SocketAddr} {id : ℕ}

namespace Table

theorem deliver_nil (a : SocketAddr) (T : Table) : T.deliver a [] = T := by
  unfold deliver
  split
  · split
    · rfl
    · simp
  · rfl

theorem deliver_append (a : SocketAddr) (xs ys : List UInt8) (T : Table) :
    T.deliver a (xs ++ ys) = (T.deliver a xs).deliver a ys := by
  unfold deliver
  cases hm : T.map a with
  | none => simp [hm]
  | some id =>
    by_cases hd : T.holder id = .dropped
    · simp [hm, hd]
    · simp [hm, hd]

theorem obey_data (a : SocketAddr) (bs : List UInt8) : ∀ T : Table,
    (bs.map (Signal.data a)).foldl obey T = T.deliver a bs := by
  induction bs with
  | nil => exact fun T => (T.deliver_nil a).symm
  | cons b bs ih =>
    intro T
    rw [List.map_cons, List.foldl_cons, ih]
    exact (T.deliver_append a [b] bs).symm

end Table

theorem Mirrors.congr (h : Mirrors s T) (hm : s'.socketMap = s.socketMap) (hn : s'.next = s.next)
    (hc : s'.connected = s.connected) (hq : s.connected = true → s'.chan ++ s'.unsent = s.chan ++ s.unsent)
    (hh : ∀ id < s.next, (s'.entries id).handle = (s.entries id).handle)
    (hb : ∀ id < s.next, (s'.entries id).buffer.bytes = (s.entries id).buffer.bytes) : Mirrors s' T where
  map := hm.trans h.map
  next := hn.trans h.next
  listening := hc.trans h.listening
  waiting hl := by
    rw [hc] at hl
    exact (hq hl).trans (h.waiting hl)
  holder id hid := by
    rw [hn] at hid
    exact (hh id hid).trans (h.holder id hid)
  inbox id hid := by
    rw [hn] at hid
    exact (hb id hid).trans (h.inbox id hid)

theorem Mirrors.upgrade (h : Mirrors s T) (a : SocketAddr) :
    s.upgrade a = (T.map a).filter fun id => T.holder id ≠ .dropped := by
  unfold SharedReader.upgrade
  rw [h.map]
  cases hm : T.map a with
  | none => rfl
  | some id =>
    have hid : id < s.next := s.allocated a id (by rw [h.map, hm])
    simp [Option.filter, h.holder id hid]

theorem Mirrors.discard (h : Mirrors s T) (hu : s.upgrade a = none) (bs : List UInt8) : T.deliver a bs = T := by
  rw [h.upgrade] at hu
  unfold Table.deliver
  cases hm : T.map a with
  | none => rfl
  | some id =>
    have hd : T.holder id = .dropped := by simpa [hm, Option.filter] using hu
    simp [hd]

theorem Mirrors.fill (h : Mirrors s T) (hu : s.upgrade a = some id) {bs : List UInt8}
    (hroom : bs.take (s.entries id).buffer.room = bs) {st : SharedReaderState}
    (hst : ((s.fill id bs).setState st).unsent = s.unsent) : Mirrors ((s.fill id bs).setState st) (T.deliver a bs) := by
  obtain ⟨hm, hlive⟩ := Option.filter_eq_some_iff.mp hu
  have hid := s.allocated a id hm
  have hdel : T.deliver a bs = { T with inbox := Function.update T.inbox id (T.inbox id ++ bs) } := by
    rw [h.map] at hm
    rw [decide_eq_true_eq, h.holder id hid] at hlive
    simp [Table.deliver, hm, hlive]
  rw [hdel]
  refine ⟨h.map, h.next, h.listening, fun hl => ?_, fun j hj => ?_, fun j hj => ?_⟩
  · rw [hst]
    exact h.waiting hl
  · rw [← h.holder j hj]
    rcases eq_or_ne j id with rfl | hne
    · simp [SharedReader.setState, SharedReader.fill, SharedReader.wake, SharedReader.emit, SharedReader.deliver,
        SharedReader.setEntry]
    · simp [SharedReader.setState, SharedReader.fill, SharedReader.wake, SharedReader.emit, SharedReader.deliver,
        SharedReader.setEntry, SharedReader.consume, hne]
  · rcases eq_or_ne j id with rfl | hne
    · simp [SharedReader.setState, SharedReader.fill, SharedReader.wake, SharedReader.emit, SharedReader.deliver,
        SharedReader.setEntry, hroom, h.inbox j hj]
    · simp [SharedReader.setState, SharedReader.fill, SharedReader.wake, SharedReader.emit, SharedReader.deliver,
        SharedReader.setEntry, SharedReader.consume, hne, h.inbox j hj]

theorem Mirrors.add (h : Mirrors s T) (a : SocketAddr) (cx : Waker) (hd : Handle)
    (hs : s.connected = true → (s.add a cx hd).chan ++ (s.add a cx hd).unsent = s.chan ++ s.unsent) :
    Mirrors (s.add a cx hd) (T.enroll a hd) where
  map := by simp [SharedReader.add, Table.enroll, h.map, h.next]
  next := by simp [SharedReader.add, Table.enroll, h.next]
  listening := h.listening
  waiting hl := (hs hl).trans (h.waiting hl)
  holder id hid := by
    rcases eq_or_ne id s.next with rfl | hne
    · simp [SharedReader.add, Table.enroll, ← h.next, ReaderEntry.new]
    · have hlt : id < s.next := by
        have hid' : id < s.next + 1 := hid
        omega
      simp [SharedReader.add, Table.enroll, ← h.next, hne, h.holder id hlt]
  inbox id hid := by
    rcases eq_or_ne id s.next with rfl | hne
    · simp [SharedReader.add, Table.enroll, ← h.next, ReaderEntry.new]
    · have hlt : id < s.next := by
        have hid' : id < s.next + 1 := hid
        omega
      simp [SharedReader.add, Table.enroll, ← h.next, hne, h.inbox id hlt]

/-- A turn in which the stream says something, or nothing is taken from it. -/
theorem Mirrors.effect (h : Mirrors s T) (hc : s.Coherent) (he : SharedReader.Effect cx s signals s') :
    Mirrors s' (signals.foldl Table.obey T) ∨
      ∃ id, signals = [] ∧ T.listening = false ∧ T.holder id = .queued ∧
        Mirrors s' { T with holder := Function.update T.holder id .dropped } := by
  cases he with
  | @discard owner left n bs hs hu h0 =>
    left
    rw [Table.obey_data, h.discard hu]
    refine h.congr rfl rfl rfl (fun _ => ?_) (fun _ _ => rfl) fun _ _ => rfl
    show s.chan ++ _ = _
    rw [SharedReader.unsent_payloadLeft, SharedReader.unsent_of_read hs]
  | @fill owner left n id bs hs hu h0 hroom =>
    left
    rw [Table.obey_data]
    refine h.fill hu hroom ?_
    rw [SharedReader.unsent_payloadLeft, SharedReader.unsent_of_read hs]
  | payload hs =>
    refine Or.inl (h.congr rfl rfl rfl (fun _ => ?_) (fun _ _ => rfl) fun _ _ => rfl)
    rw [SharedReader.unsent_of_nextPacket hs]
    rfl
  | @close header bs addr id hs hm =>
    left
    have hmap := hm
    rw [h.map] at hmap
    have htoggle : [Signal.zero addr].foldl Table.obey T = { T with map := Function.update T.map addr none } := by
      simp [Table.obey, Table.toggle, hmap]
    rw [htoggle]
    have hnext : ((s.consume bs).remove addr).next = s.next := SharedReader.remove_next addr (s.consume bs)
    refine ⟨?_, hnext.trans h.next, ?_, fun hl => ?_, fun j hj => ?_, fun j hj => ?_⟩
    · show ((s.consume bs).remove addr).socketMap = _
      rw [SharedReader.remove_socketMap]
      show Function.update s.socketMap addr none = _
      rw [h.map]
    · exact (SharedReader.remove_connected addr (s.consume bs)).trans h.listening
    · have hl' : s.connected = true := (SharedReader.remove_connected addr (s.consume bs)).symm.trans hl
      rw [← h.waiting hl', SharedReader.unsent_of_nextPacket hs]
      exact congrArg (· ++ []) (SharedReader.remove_chan addr (s.consume bs))
    · have hj' : j < s.next := lt_of_lt_of_eq hj hnext
      exact (SharedReader.remove_buffer addr (s.consume bs) j).2.trans (h.holder j hj')
    · have hj' : j < s.next := lt_of_lt_of_eq hj hnext
      have hbuf := (SharedReader.remove_buffer addr (s.consume bs) j).1
      exact (congrArg ReadBuffer.bytes hbuf).trans (h.inbox j hj')
  | @ignore header bs addr hs hm hoff =>
    left
    have hmap := hm
    rw [h.map] at hmap
    have htoggle : [Signal.zero addr].foldl Table.obey T = T := by
      simp [Table.obey, Table.toggle, hmap, ← h.listening, hoff]
    rw [htoggle]
    refine h.congr rfl rfl rfl (fun _ => ?_) (fun _ _ => rfl) fun _ _ => rfl
    rw [SharedReader.unsent_of_nextPacket hs]
    rfl
  | @opening header bs addr hs hm hon =>
    left
    have hmap := hm
    rw [h.map] at hmap
    have htoggle : [Signal.zero addr].foldl Table.obey T =
        { T.enroll addr .queued with waiting := T.waiting ++ [(addr, T.next)] } := by
      simp [Table.obey, Table.toggle, hmap, ← h.listening, hon]
    rw [htoggle]
    have hcons : Mirrors (s.consume bs) T := h.congr rfl rfl rfl (fun _ => rfl) (fun _ _ => rfl) fun _ _ => rfl
    have hadd := hcons.add addr cx .queued fun _ => rfl
    refine ⟨hadd.map, hadd.next, hadd.listening, fun hl => ?_, hadd.holder, hadd.inbox⟩
    have hold := h.waiting hon
    rw [SharedReader.unsent_of_nextPacket hs, List.append_nil] at hold
    show s.chan ++ [(addr, s.next)] = T.waiting ++ [(addr, T.next)]
    rw [hold, h.next]
  | @sent addr id polled hs hon =>
    left
    cases polled with
    | true =>
      refine h.congr rfl rfl rfl (fun _ => ?_) (fun _ _ => rfl) fun _ _ => rfl
      simp [SharedReader.setState, SharedReader.unsent, hs]
    | false =>
      refine h.congr ?_ ?_ ?_ (fun _ => ?_) (fun _ _ => ?_) fun _ _ => ?_
      all_goals simp [SharedReader.setState, SharedReader.unsent, SharedReader.offer, hs]
  | @unsent addr id polled hs hoff =>
    by_cases hq : (s.entries id).handle = .queued
    · have hid : id < s.next := by
        by_contra hge
        rw [hc.fresh id (by omega)] at hq
        cases hq
      right
      refine ⟨id, rfl, h.listening.symm.trans hoff, (h.holder id hid).symm.trans hq, ?_⟩
      rw [if_pos hq]
      refine ⟨h.map, h.next, h.listening, fun hl => absurd (hoff.symm.trans hl) (by simp), fun j hj => ?_, fun j hj => ?_⟩
      · rcases eq_or_ne j id with rfl | hne
        · simp [SharedReader.setState, SharedReader.setEntry]
        · simpa [SharedReader.setState, SharedReader.setEntry, hne] using h.holder j hj
      · rcases eq_or_ne j id with rfl | hne
        · simpa [SharedReader.setState, SharedReader.setEntry] using h.inbox j hj
        · simpa [SharedReader.setState, SharedReader.setEntry, hne] using h.inbox j hj
    · rw [if_neg hq]
      exact Or.inl (h.congr rfl rfl rfl (fun hl => absurd (hoff.symm.trans hl) (by simp)) (fun _ _ => rfl) fun _ _ => rfl)

theorem SharedReader.Turn.taken {t : Tick} {r : Poll (Except IoError Unit)} (h : SharedReader.Turn cx t s r s')
    (hid : id < s.next) : (s'.entries id).taken = (s.entries id).taken := by
  cases h.alters with
  | none hn he => rw [he]
  | one j e hn he ht =>
    rw [he]
    rcases eq_or_ne id j with rfl | hne
    · rw [Function.update_self, ht]
    · rw [Function.update_of_ne hne]
  | new e hn he =>
    rw [he, Function.update_of_ne hid.ne]

theorem Mirrors.hushed {t : Tick} {r : Poll (Except IoError Unit)} {p : Position} {bs : List UInt8} (h : Mirrors s T)
    (ht : SharedReader.Turn cx t s r s') (hh : SharedReader.Hushed s s' p bs) : Mirrors s' T := by
  refine h.congr hh.socketMap hh.next hh.connected (fun hl => ?_) (fun id _ => hh.handle id) fun id hid => ?_
  · obtain ⟨new, -, hq, hnew⟩ := ht.opens hl
    rcases hnew with rfl | ⟨a, -, hn, -⟩
    · rwa [List.append_nil] at hq
    · have := hh.next
      omega
  · have hsame := hh.appended id
    unfold ReaderEntry.appended at hsame
    rw [ht.taken hid] at hsame
    exact List.append_cancel_left hsame

/-- The shared reader is where the switch is. -/
structure Follows (s : SharedReader) (t : Switch) : Prop where
  coherent : s.Coherent
  place : s.position = t.place
  mirrors : Mirrors s t.table

theorem Follows.once {x : Switch} {t : Tick} (h : Follows s x) (hs : s.Within t) (hfed : t.alloc = true) :
    ∃ x', Switch.system.Runs x (s.seen (.once cx t)) x' ∧ Follows (s.pollOnce cx t).2 x' := by
  obtain ⟨place, T⟩ := x
  have hturn := s.pollOnce_turn cx t
  have hcoh : (s.pollOnce cx t).2.Coherent := h.coherent.turn hturn hs
  have hseen : ∀ bs, (s.pollOnce cx t).2.consumed = s.consumed ++ bs → s.seen (.once cx t) = bs.map .byte := by
    intro bs hbs
    simp [SharedReader.seen, hbs]
  by_cases he : s.state = .error
  · have heq : (s.pollOnce cx t).2 = s := by simp [SharedReader.pollOnce, he]
    rw [hseen [] (by rw [heq, List.append_nil]), heq]
    exact ⟨_, .refl, h⟩
  obtain ⟨p, hp⟩ := SharedReader.exists_position he
  obtain rfl : place = some p := h.place.symm.trans hp
  rcases hturn.outcome hs hp (h.coherent.valid p hp) with ⟨bs, signals, hh, heff⟩ | ⟨bs, hh⟩ | ⟨header, bs, hst⟩
  · have hrun := Switch.runs_bytes bs p T
    rw [hh.signals] at hrun
    rw [hseen bs hh.consumed]
    rcases h.mirrors.effect h.coherent heff with hm | ⟨id, rfl, hl, hq, hm⟩
    · exact ⟨_, hrun, hcoh, hh.position, hm⟩
    · have hforget := hrun.tail (Switch.Step.forget _ hl hq)
      rw [List.append_nil] at hforget
      exact ⟨_, hforget, hcoh, hh.position, hm⟩
  · have hrun := Switch.runs_bytes bs p T
    rw [hh.signals] at hrun
    rw [hseen bs hh.consumed]
    have hm := h.mirrors.hushed hturn hh
    rcases hh.position with herr | hpos
    · have hfail := hrun.tail (Switch.Step.fail _ _)
      rw [List.append_nil] at hfail
      exact ⟨_, hfail, hcoh, by simp [SharedReader.position, herr], hm⟩
    · exact ⟨_, hrun, hcoh, hpos, hm⟩
  · have hno := hst.alloc
    rw [hfed] at hno
    cases hno

theorem Mirrors.ended (h : Mirrors s T) (hc : s.Coherent) (hid : id < s.next) (hw : (s.entries id).weak = 0) :
    T.Ended id := by
  intro a ha
  rw [← h.map] at ha
  rcases hc.linked id hid with ⟨hone, -⟩ | ⟨-, hno⟩
  · omega
  · exact hno a ha

theorem Follows.read {x : Switch} {n : ℕ} (h : Follows s x) (hid : id < s.next) :
    ∃ x', Switch.system.Runs x (s.seen (.read cx id n)) x' ∧ Follows (s.readEntry cx id n).2 x' := by
  obtain ⟨place, T⟩ := x
  have hcoh := h.coherent.readEntry cx id n
  have hcalm := SharedReader.Calm.readEntry s cx id n
  have hframe := s.readEntry_frame cx id n
  have hplace : (s.readEntry cx id n).2.position = place := hcalm.position.trans h.place
  have hconn : (s.readEntry cx id n).2.connected = s.connected := SharedReader.connected_perform (m := .read cx id n) nofun
  have hqueue : s.connected = true → (s.readEntry cx id n).2.chan ++ (s.readEntry cx id n).2.unsent = s.chan ++ s.unsent := by
    intro _
    rw [hframe.2.2.1, hcalm.unsent]
  have hread := s.readEntry_cases cx id n
  rcases hread with ⟨hnone, hempty, hbytes⟩ | ⟨hres, hbytes, hwhy⟩
  · refine ⟨⟨place, T⟩, ?_, hcoh, hplace, ?_⟩
    · simp only [SharedReader.seen, hnone]
      exact .refl
    · refine h.mirrors.congr hcalm.socketMap hcalm.next hconn hqueue (fun j _ => s.readEntry_handle cx id n j) fun j _ => ?_
      rcases eq_or_ne j id with rfl | hne
      · exact hbytes.trans hempty.symm
      · rw [hframe.2.2.2.2 j hne]
  · have hin := h.mirrors.inbox id hid
    refine ⟨⟨place, { T with inbox := Function.update T.inbox id ((T.inbox id).drop n) }⟩, ?_, hcoh, hplace, ?_⟩
    · simp only [SharedReader.seen, hres]
      rw [hin]
      refine .single (Switch.Step.read place n fun hempty hn => ?_)
      exact h.mirrors.ended h.coherent hid (hwhy (hin.trans hempty) hn)
    · refine ⟨hcalm.socketMap.trans h.mirrors.map, hcalm.next.trans h.mirrors.next, hconn.trans h.mirrors.listening,
        fun hl => (hqueue (hconn.symm.trans hl)).trans (h.mirrors.waiting (hconn.symm.trans hl)), fun j hj => ?_,
        fun j hj => ?_⟩
      · rw [hcalm.next] at hj
        exact (s.readEntry_handle cx id n j).trans (h.mirrors.holder j hj)
      · rw [hcalm.next] at hj
        rcases eq_or_ne j id with rfl | hne
        · simp [hbytes, hin]
        · simpa [hframe.2.2.2.2 j hne, hne] using h.mirrors.inbox j hj

theorem Follows.accept {x : Switch} {k : ℕ} {hooked : Bool} (h : Follows s x)
    (hon : (s.recvEntry k hooked cx).1 ≠ none → s.connected = true) :
    ∃ x', Switch.system.Runs x (s.seen (.accept k hooked cx)) x' ∧ Follows (s.recvEntry k hooked cx).2 x' := by
  obtain ⟨place, T⟩ := x
  have hcoh := h.coherent.recvEntry k hooked cx
  have hcalm := SharedReader.Calm.recvEntry s k hooked cx
  have hplace : (s.recvEntry k hooked cx).2.position = place := hcalm.position.trans h.place
  have hconn : (s.recvEntry k hooked cx).2.connected = s.connected :=
    SharedReader.connected_perform (m := .accept k hooked cx) nofun
  obtain ⟨-, -, hchan, -, -⟩ := s.recvEntry_frame k hooked cx
  have hentries := s.recvEntry_entries k hooked cx
  cases hres : (s.recvEntry k hooked cx).1 with
  | none =>
    rw [hres] at hchan hentries
    refine ⟨⟨place, T⟩, ?_, hcoh, hplace, ?_⟩
    · simp only [SharedReader.seen, hres]
      exact .refl
    · refine h.mirrors.congr hcalm.socketMap hcalm.next hconn (fun _ => ?_) (fun j _ => ?_) fun j _ => ?_
      · rw [hcalm.unsent, ← hchan]
        rfl
      · rw [hentries]
      · rw [hentries]
  | some y =>
    obtain ⟨a, id⟩ := y
    rw [hres] at hchan hentries
    have hl := hon (by simp [hres])
    have hwait : T.waiting = (a, id) :: ((s.recvEntry k hooked cx).2.chan ++ s.unsent) := by
      rw [← h.mirrors.waiting hl, ← hchan]
      rfl
    refine ⟨⟨place, { T with
        waiting := (s.recvEntry k hooked cx).2.chan ++ s.unsent
        holder := Function.update T.holder id (T.holder id).accept }⟩, ?_, hcoh, hplace, ?_⟩
    · simp only [SharedReader.seen, hres]
      exact .single (Switch.Step.accept place (h.mirrors.listening.symm.trans hl) hwait)
    · refine ⟨hcalm.socketMap.trans h.mirrors.map, hcalm.next.trans h.mirrors.next, hconn.trans h.mirrors.listening,
        fun _ => by rw [hcalm.unsent], fun j hj => ?_, fun j hj => ?_⟩
      · rw [hcalm.next] at hj
        rw [hentries]
        rcases eq_or_ne j id with rfl | hne
        · simp [h.mirrors.holder j hj]
        · simpa [hne] using h.mirrors.holder j hj
      · rw [hcalm.next] at hj
        rw [hentries]
        rcases eq_or_ne j id with rfl | hne
        · simpa using h.mirrors.inbox j hj
        · simpa [hne] using h.mirrors.inbox j hj

theorem Follows.add {x : Switch} {alloc : Bool} (h : Follows s x) (ha : alloc = true) :
    ∃ x', Switch.system.Runs x (s.seen (.add a alloc)) x' ∧ Follows (s.insert a .noop .held alloc).2 x' := by
  obtain ⟨place, T⟩ := x
  have hcoh := h.coherent.insert a .noop .held alloc
  subst ha
  cases hm : s.socketMap a with
  | some id =>
    have hres : s.insert a .noop .held true = (.error ⟨.addrInUse, "duplicate socket entry"⟩, s) := by
      simp [SharedReader.insert, hm]
    refine ⟨⟨place, T⟩, ?_, hcoh, ?_, ?_⟩
    · simp only [SharedReader.seen, hres]
      refine .single (Switch.Step.refuse place ?_)
      rw [← h.mirrors.map, hm]
      simp
    · rw [hres]
      exact h.place
    · rw [hres]
      exact h.mirrors
  | none =>
    have hres : s.insert a .noop .held true = (.ok s.next, s.add a .noop .held) := by
      simp [SharedReader.insert, hm]
    refine ⟨⟨place, T.enroll a .held⟩, ?_, hcoh, ?_, ?_⟩
    · simp only [SharedReader.seen, hres]
      rw [h.mirrors.next]
      refine .single (Switch.Step.add place ?_)
      rw [← h.mirrors.map, hm]
    · rw [hres]
      exact h.place
    · rw [hres]
      exact h.mirrors.add a .noop .held fun _ => rfl

/-- Whatever is done with the shared reader, the switch can do. -/
theorem simulates_switch : SharedReader.system.Simulates Switch.system Follows := by
  rintro s l s' ⟨place, T⟩ h ⟨m, ⟨hsane, hon⟩, hfed, hread, rfl, rfl⟩
  cases m with
  | once cx t => exact h.once hsane hfed
  | yield cx =>
    refine ⟨_, .refl, h.coherent.emit _, h.place, ?_⟩
    exact h.mirrors.congr rfl rfl rfl (fun _ => rfl) (fun _ _ => rfl) fun _ _ => rfl
  | read cx id n => exact h.read (hread cx id n rfl)
  | accept k hooked cx => exact h.accept hon
  | leave k hooked =>
    have hcalm := SharedReader.Calm.dropReceiver s k hooked
    refine ⟨_, .refl, h.coherent.dropReceiver k hooked, hcalm.position.trans h.place, ?_⟩
    refine h.mirrors.congr hcalm.socketMap hcalm.next (SharedReader.dropReceiver_connected k hooked) (fun _ => ?_)
      (fun j _ => ?_) fun j _ => ?_
    · show (s.dropReceiver k hooked).chan ++ (s.dropReceiver k hooked).unsent = _
      rw [hcalm.unsent, (s.dropReceiver_frame k hooked).2.2.1]
    · show ((s.dropReceiver k hooked).entries j).handle = _
      rw [s.dropReceiver_entries]
    · show ((s.dropReceiver k hooked).entries j).buffer.bytes = _
      rw [s.dropReceiver_entries]
  | add addr alloc => exact h.add hfed
  | release id =>
    refine ⟨_, .single (Switch.Step.release place T id), h.coherent.acts (.release id), h.place, ?_⟩
    refine ⟨h.mirrors.map, h.mirrors.next, h.mirrors.listening, h.mirrors.waiting, fun j hj => ?_, fun j hj => ?_⟩
    · rcases eq_or_ne j id with rfl | hne
      · simp [SharedReader.perform, SharedReader.release, SharedReader.setEntry]
      · simpa [SharedReader.perform, SharedReader.release, SharedReader.setEntry, hne] using h.mirrors.holder j hj
    · rcases eq_or_ne j id with rfl | hne
      · simpa [SharedReader.perform, SharedReader.release, SharedReader.setEntry] using h.mirrors.inbox j hj
      · simpa [SharedReader.perform, SharedReader.release, SharedReader.setEntry, hne] using h.mirrors.inbox j hj
  | disconnect =>
    refine ⟨_, .single (Switch.Step.disconnect place T), h.coherent.acts .disconnect, h.place, ?_⟩
    have hdeaf : (s.perform .disconnect).connected ≠ true := Bool.false_ne_true
    exact ⟨h.mirrors.map, h.mirrors.next, rfl, (absurd · hdeaf), h.mirrors.holder, h.mirrors.inbox⟩

theorem Follows.init (connected : Bool) : Follows (.init connected) (.init connected) where
  coherent := .init connected
  place := rfl
  mirrors := ⟨rfl, rfl, rfl, fun _ => rfl, fun _ _ => rfl, fun _ _ => rfl⟩

end

/-- Whatever can be seen of a shared reader in a run can be seen of the switch. -/
theorem runs_of_switch {connected : Bool} {seen : List Seen} {s : SharedReader}
    (h : SharedReader.system.Runs (.init connected) seen s) :
    ∃ t, Switch.system.Runs (.init connected) seen t ∧ Follows s t :=
  simulates_switch.runs (.init connected) h

theorem SharedReader.runs_move {s s' : SharedReader} {seen : List Seen} (m : Move) (hm : s.Permits m) (hfed : m.Fed)
    (hid : ∀ cx id n, m = .read cx id n → id < s.next) (h : system.Runs (s.perform m) seen s') :
    system.Runs s (s.seen m ++ seen) s' :=
  (System.Runs.single (M := system) ⟨m, hm, hfed, hid, rfl, rfl⟩).trans h

/-- A connection is opened, accepted and read, closed and read to its end. -/
theorem runs_of_switch_byte :
    ∃ seen s t, SharedReader.system.Runs (.init true) seen s ∧ Switch.system.Runs (.init true) seen t ∧ Follows s t ∧
      seen = (frame .unspecified []).map .byte ++ [.accepted .unspecified 0] ++ (frame .unspecified [7]).map .byte ++
        [.read 0 4 [7]] ++ (frame .unspecified []).map .byte ++ [.read 0 4 []] := by
  have hread : ∀ s : SharedReader, 0 < s.next → ∀ cx id n, Move.read .noop 0 4 = .read cx id n → id < s.next := by
    rintro s hs cx id n h
    obtain ⟨-, rfl, -⟩ := Move.read.inj h
    exact hs
  have hrun : ∃ seen s, SharedReader.system.Runs (.init true) seen s ∧
      seen = (frame .unspecified []).map .byte ++ [.accepted .unspecified 0] ++ (frame .unspecified [7]).map .byte ++
        [.read 0 4 [7]] ++ (frame .unspecified []).map .byte ++ [.read 0 4 []] := by
    refine ⟨_, _,
      SharedReader.runs_move (.once .noop (.bytes (frame .unspecified [])))
        ⟨SharedReader.Within.bytes (n := 20) rfl (by decide), nofun⟩ rfl nofun <|
      SharedReader.runs_move (.once .noop (.bytes [])) ⟨nofun, nofun⟩ rfl nofun <|
      SharedReader.runs_move (.accept 0 false .noop) ⟨trivial, fun _ => rfl⟩ trivial nofun <|
      SharedReader.runs_move (.once .noop (.bytes ((frame .unspecified [7]).take 20)))
        ⟨SharedReader.Within.bytes (n := 20) rfl (by decide), nofun⟩ rfl nofun <|
      SharedReader.runs_move (.once .noop (.bytes [7]))
        ⟨SharedReader.Within.bytes (n := 1) rfl (by decide), nofun⟩ rfl nofun <|
      SharedReader.runs_move (.read .noop 0 4) ⟨trivial, nofun⟩ trivial (hread _ (by decide)) <|
      SharedReader.runs_move (.once .noop (.bytes (frame .unspecified [])))
        ⟨SharedReader.Within.bytes (n := 20) rfl (by decide), nofun⟩ rfl nofun <|
      SharedReader.runs_move (.read .noop 0 4) ⟨trivial, nofun⟩ trivial (hread _ (by decide)) .refl, ?_⟩
    decide +kernel
  obtain ⟨seen, s, hs, hseen⟩ := hrun
  obtain ⟨t, ht, hf⟩ := runs_of_switch hs
  exact ⟨seen, s, t, hs, ht, hf, hseen⟩

end VtMuxer
