import VtMuxer.Read.Scan

/-! A whole call of the shared reader: successful turns and one that ends it. What the caller
waits for when it is told to wait. -/
namespace VtMuxer

def Event.isWait : Event → Bool
  | tcpPending _ => true
  | sendPending _ => true
  | full _ _ => true
  | coopPending _ => true
  | _ => false

def Event.Hands (cx : Waker) (s : SharedReader) : Event → Prop
  | tcpPending w => w = cx ∧ s.tcp = some cx
  | sendPending w => w = cx
  | full id w => w = cx ∧ id < s.next ∧ (s.entries id).waitingWaker = cx
  | coopPending w => w = cx
  | _ => False

theorem Event.Hands.isWait {cx : Waker} {s : SharedReader} {e : Event} (h : e.Hands cx s) : e.isWait = true := by
  cases e <;> first | rfl | exact absurd h id

namespace SharedReader

/-- The last thing that happened since `s` was that the caller's waker was handed over. -/
def Registered (cx : Waker) (s s' : SharedReader) : Prop :=
  ∃ new e, s'.log = s.log ++ new ++ [e] ∧ e.Hands cx s'

/-- What a successful turn does, by what the stream said in it. -/
inductive Effect (cx : Waker) (s : SharedReader) : List Signal → SharedReader → Prop where
  | discard {owner : SocketAddr} {left n : ℕ} {bs : List UInt8} (hs : s.state = .read owner left)
      (hu : s.upgrade owner = none) (h0 : bs ≠ []) :
      Effect cx s (bs.map (.data owner)) ((s.consume bs).setState (payloadLeft owner n))
  | fill {owner : SocketAddr} {left n id : ℕ} {bs : List UInt8} (hs : s.state = .read owner left)
      (hu : s.upgrade owner = some id) (h0 : bs ≠ []) (hroom : bs.take (s.entries id).buffer.room = bs) :
      Effect cx s (bs.map (.data owner)) ((s.fill id bs).setState (payloadLeft owner n))
  | payload {header bs : List UInt8} {owner : SocketAddr} {left : ℕ} (hs : s.state = .nextPacket header) :
      Effect cx s [] ((s.consume bs).setState (.read owner left))
  | close {header bs : List UInt8} {addr : SocketAddr} {id : ℕ} (hs : s.state = .nextPacket header)
      (hm : s.socketMap addr = some id) :
      Effect cx s [.zero addr] (((s.consume bs).remove addr).setState (.nextPacket []))
  | ignore {header bs : List UInt8} {addr : SocketAddr} (hs : s.state = .nextPacket header)
      (hm : s.socketMap addr = none) (hc : s.connected = false) :
      Effect cx s [.zero addr] ((s.consume bs).setState (.nextPacket []))
  | opening {header bs : List UInt8} {addr : SocketAddr} (hs : s.state = .nextPacket header)
      (hm : s.socketMap addr = none) (hc : s.connected = true) :
      Effect cx s [.zero addr]
        ((((s.consume bs).add addr cx .queued).setState (.sendSocket addr s.next false)).emit
          (.opened addr s.next))
  | sent {addr : SocketAddr} {id : ℕ} {polled : Bool} (hs : s.state = .sendSocket addr id polled)
      (hc : s.connected = true) :
      Effect cx s [] ((if polled then s else s.offer addr id).setState (.nextPacket []))
  | unsent {addr : SocketAddr} {id : ℕ} {polled : Bool} (hs : s.state = .sendSocket addr id polled)
      (hc : s.connected = false) :
      Effect cx s []
        ((if (s.entries id).handle = .queued then
            s.setEntry id { s.entries id with handle := .dropped } else s).setState (.nextPacket []))

section
variable {cx : Waker} {t : Tick} {s s' : SharedReader} {p : Position}

theorem offer_log (addr : SocketAddr) (id : ℕ) (s : SharedReader) :
    ∃ new, (s.offer addr id).log = s.log ++ new ∧ ∀ e ∈ new, e.isWait = false := by
  unfold offer wakeReceiver
  split
  · exact ⟨[], by simp, by simp⟩
  · rename_i w rest _
    refine ⟨[.wake w], rfl, ?_⟩
    simp [Event.isWait]

@[simp] theorem offer_consumed (addr : SocketAddr) (id : ℕ) (s : SharedReader) :
    (s.offer addr id).consumed = s.consumed := by
  simp [offer]

theorem sendQueued_log (addr : SocketAddr) (id : ℕ) (polled : Bool) (s : SharedReader) :
    ∃ new, (if polled then s else s.offer addr id).log = s.log ++ new ∧ ∀ e ∈ new, e.isWait = false := by
  cases polled with
  | true => exact ⟨[], by simp, by simp⟩
  | false => exact s.offer_log addr id

theorem remove_log (addr : SocketAddr) (s : SharedReader) :
    ∃ new, (s.remove addr).log = s.log ++ new ∧ ∀ e ∈ new, e.isWait = false := by
  unfold remove
  split
  · exact ⟨[], by simp, by simp⟩
  · rename_i id _
    dsimp only
    split
    · refine ⟨[.closed addr id], rfl, ?_⟩
      simp [Event.isWait]
    · refine ⟨[.closed addr id, .wake (s.entries id).readerPipeWaker], by simp [wake, emit, unlink], ?_⟩
      simp [Event.isWait]

theorem Turn.log_ok (h : Turn cx t s (.ready (.ok ())) s') :
    ∃ new, s'.log = s.log ++ new ∧ ∀ e ∈ new, e.isWait = false := by
  cases h with
  | discard => exact ⟨[], (List.append_nil _).symm, by simp⟩
  | fill => exact ⟨[.wake _], rfl, by simp [Event.isWait]⟩
  | payload => exact ⟨[], (List.append_nil _).symm, by simp⟩
  | @close header bs => exact (s.consume bs).remove_log (headerBy header bs).addr
  | ignore => exact ⟨[], (List.append_nil _).symm, by simp⟩
  | opening => exact ⟨[.opened _ _], rfl, by simp [Event.isWait]⟩
  | @sent addr id polled => exact s.sendQueued_log addr id polled
  | unsent =>
    refine ⟨[], ?_, by simp⟩
    split <;> exact (List.append_nil _).symm

/-- A turn that ends in waiting hands over the waker, unless a header was cut short. -/
theorem Turn.log_pending (h : Turn cx t s .pending s') :
    (s'.consumed = s.consumed ∧ Registered cx s s') ∨
      ∃ header bs, s.state = .nextPacket header ∧ t.read = .ready (.ok bs) ∧ bs ≠ [] ∧
        filledBy header bs < 20 ∧
        s' = (s.consume bs).setState (.nextPacket ((header ++ bs).take (filledBy header bs))) := by
  cases h with
  | parked => exact Or.inl ⟨rfl, [], .tcpPending cx, by simp [park], rfl, rfl⟩
  | @full owner left id hs hu =>
    have hm : s.socketMap owner = some id := (Option.filter_eq_some_iff.mp hu).1
    refine Or.inl ⟨rfl, [.wake (s.entries id).readerPipeWaker], .full id cx, rfl, rfl, s.allocated owner id hm, ?_⟩
    simp [refuse, emit, setEntry]
  | short hs hr h0 hlt => exact Or.inr ⟨_, _, hs, hr, h0, hlt, rfl⟩
  | @sending addr id polled =>
    obtain ⟨new, hnew, -⟩ := s.sendQueued_log addr id polled
    have hc : (if polled then s else s.offer addr id).consumed = s.consumed := by
      cases polled <;> simp
    refine Or.inl ⟨hc, new, .sendPending cx, ?_, rfl⟩
    rw [← hnew]
    rfl

theorem Turn.log_error {e : IoError} (h : Turn cx t s (.ready (.error e)) s') :
    ∃ new, s'.log = s.log ++ new ∧ ∀ e ∈ new, e.isWait = false := by
  cases h with
  | failed => exact ⟨[], (List.append_nil _).symm, by simp⟩
  | broken => exact ⟨[], (List.append_nil _).symm, by simp⟩
  | discardCut => exact ⟨[], (List.append_nil _).symm, by simp⟩
  | fillCut => exact ⟨[.wake _], rfl, by simp [Event.isWait]⟩
  | headerCut => exact ⟨[], (List.append_nil _).symm, by simp⟩
  | noMemory => exact ⟨[], (List.append_nil _).symm, by simp⟩

theorem Turn.no_header (h : Turn cx t s (.ready (.ok ())) s') {filled : List UInt8}
    (hp : s'.position = some (.header filled)) : filled = [] := by
  have hleft : ∀ (owner : SocketAddr) (n : ℕ) (s₁ : SharedReader),
      (s₁.setState (payloadLeft owner n)).position = some (.header filled) → filled = [] := by
    intro owner n s₁ he
    rw [position_payloadLeft] at he
    split at he
    · simpa using he.symm
    · simp at he
  have hnext : ∀ s₁ : SharedReader, (s₁.setState (.nextPacket [])).position = some (.header filled) →
      filled = [] := by
    intro s₁ he
    simpa [position, setState] using he.symm
  cases h with
  | discard => exact hleft _ _ _ hp
  | fill => exact hleft _ _ _ hp
  | payload => simp [position, setState] at hp
  | close => exact hnext _ hp
  | ignore => exact hnext _ hp
  | opening => simpa [position, setState, emit] using hp.symm
  | sent => exact hnext _ hp
  | unsent => exact hnext _ hp

/-- A successful turn goes where its bytes lead and does what they say. -/
theorem Turn.heard (h : Turn cx t s (.ready (.ok ())) s') (hw : s.Within t) (hp : s.position = some p)
    (hv : p.Valid) : ∃ bs signals, Heard s s' p bs signals ∧ Effect cx s signals s' := by
  have hhead : ∀ header, s.state = .nextPacket header → p = .header header ∧ header.length < 20 := by
    intro header hs
    obtain rfl : p = .header header := by simpa [position, hs, eq_comm] using hp
    exact ⟨rfl, hv⟩
  have hpay : ∀ owner left, s.state = .read owner left → p = .payload owner left := by
    intro owner left hs
    simpa [position, hs, eq_comm] using hp
  have hsend : ∀ addr id polled, s.state = .sendSocket addr id polled → p = .header [] := by
    intro addr id polled hs
    simpa [position, hs, eq_comm] using hp
  cases h with
  | discard hs hu hr h0 hle =>
    obtain rfl := hpay _ _ hs
    exact ⟨_, _, Heard.data hv hle rfl, .discard hs hu h0⟩
  | @fill owner left id bs hs hu hr h0 hle =>
    obtain rfl := hpay _ _ hs
    have hroom := room_ne_zero_of_take h0
    obtain ⟨htake, -⟩ := hw.fill hs hu hroom hr
    rw [htake] at h0 hle ⊢
    have hc : (s.fill id bs).consumed = s.consumed ++ bs := by
      show s.consumed ++ bs.take _ = _
      rw [htake]
    exact ⟨_, _, Heard.data hv hle hc, .fill hs hu h0 htake⟩
  | payload hs hr h0 h20 hl =>
    obtain ⟨rfl, hlt⟩ := hhead _ hs
    exact ⟨_, _, Heard.payload hw hs hlt hr h0 h20 hl, .payload hs⟩
  | close hs hr h0 h20 hl hm =>
    obtain ⟨rfl, hlt⟩ := hhead _ hs
    exact ⟨_, _, Heard.zero hw hs hlt hr h0 h20 hl (by simp [setState, consume]) rfl, .close hs hm⟩
  | ignore hs hr h0 h20 hl hm hc =>
    obtain ⟨rfl, hlt⟩ := hhead _ hs
    exact ⟨_, _, Heard.zero hw hs hlt hr h0 h20 hl rfl rfl, .ignore hs hm hc⟩
  | opening hs hr h0 h20 hl hm hc =>
    obtain ⟨rfl, hlt⟩ := hhead _ hs
    exact ⟨_, _, Heard.zero hw hs hlt hr h0 h20 hl rfl rfl, .opening hs hm hc⟩
  | @sent addr id polled hs hc =>
    obtain rfl := hsend _ _ _ hs
    have hcons : (if polled then s else s.offer addr id).consumed = s.consumed := by
      cases polled <;> simp
    exact ⟨_, _, Heard.silent hcons rfl, .sent hs hc⟩
  | @unsent addr id polled hs hc =>
    obtain rfl := hsend _ _ _ hs
    refine ⟨_, _, Heard.silent ?_ rfl, .unsent hs hc⟩
    split <;> rfl

end

/-- Every answer of a call is as `ok` says in the state that gets it. -/
def Served (ok : SharedReader → Tick → Prop) (cx : Waker) : List Tick → SharedReader → Prop
  | [], _ => True
  | t :: ts, s => ok s t ∧ Served ok cx ts (s.pollOnce cx t).2

def Loops (ok : SharedReader → Tick → Prop) (cx : Waker) : SharedReader → SharedReader → Prop :=
  Relation.ReflTransGen fun s s' => ∃ t, ok s t ∧ Turn cx t s (.ready (.ok ())) s'

inductive Ends (cx : Waker) (t : Tick) (s : SharedReader) :
    Poll (Except IoError Empty) → SharedReader → Prop where
  | pending {s' : SharedReader} (h : Turn cx t s .pending s') : Ends cx t s .pending s'
  | error {e : IoError} {s' : SharedReader} (h : Turn cx t s (.ready (.error e)) s') :
      Ends cx t s (.ready (.error e)) s'
  /-- The budget of the task is used up. -/
  | coop {s' : SharedReader} (h : Turn cx t s (.ready (.ok ())) s') :
      Ends cx t s .pending (s'.emit (.coopPending cx))

/-- A call is a run of successful turns and the one that ends it. -/
theorem poll_ends {ok : SharedReader → Tick → Prop} {cx : Waker} {ts : List Tick} {s s' : SharedReader}
    {r : Poll (Except IoError Empty)} (hs : Served ok cx ts s) (h : s.poll cx ts = some (r, s')) :
    ∃ s₁ t, Loops ok cx s s₁ ∧ ok s₁ t ∧ Ends cx t s₁ r s' := by
  induction ts generalizing s with
  | nil => simp [poll] at h
  | cons t ts ih =>
    obtain ⟨hok, hrest⟩ := hs
    have hturn := s.pollOnce_turn cx t
    unfold poll at h
    rcases hp : s.pollOnce cx t with ⟨res, s₂⟩
    rw [hp] at h hturn hrest
    cases res with
    | pending =>
      dsimp only at h
      split at h
      · obtain ⟨rfl, rfl⟩ : Poll.pending = r ∧ s₂ = s' := by simpa using h
        exact ⟨s, t, .refl, hok, .pending hturn⟩
      · cases h
    | ready res =>
      cases res with
      | error e =>
        dsimp only at h
        split at h
        · obtain ⟨rfl, rfl⟩ : Poll.ready (Except.error e) = r ∧ s₂ = s' := by simpa using h
          exact ⟨s, t, .refl, hok, .error hturn⟩
        · cases h
      | ok u =>
        dsimp only at h
        cases hc : t.coop with
        | pending =>
          rw [hc] at h
          dsimp only at h
          split at h
          · obtain ⟨rfl, rfl⟩ : Poll.pending = r ∧ s₂.emit (.coopPending cx) = s' := by simpa using h
            exact ⟨s, t, .refl, hok, .coop hturn⟩
          · cases h
        | ready u =>
          rw [hc] at h
          obtain ⟨s₁, t₁, hl, hok₁, he⟩ := ih hrest h
          exact ⟨s₁, t₁, .head ⟨t, hok, hturn⟩ hl, hok₁, he⟩

section
variable {ok : SharedReader → Tick → Prop} {cx : Waker} {s s' : SharedReader} {p : Position}

def MidHeader (p : Position) (bytes : List UInt8) : Prop :=
  bytes ≠ [] ∧ ∃ filled, (p.scan bytes).1 = .header filled ∧ filled ≠ []

/-- What successful turns have taken from the stream, and where that leads. -/
structure Looped (s s' : SharedReader) (p : Position) (bytes : List UInt8) : Prop where
  consumed : s'.consumed = s.consumed ++ bytes
  position : s'.position = some (p.scan bytes).1
  valid : (p.scan bytes).1.Valid
  quiet : ∃ new, s'.log = s.log ++ new ∧ ∀ e ∈ new, e.isWait = false
  between : ¬ MidHeader p bytes

theorem Looped.turn {s₁ : SharedReader} {xs ys : List UInt8} {signals : List Signal} {t : Tick}
    (h : Looped s s₁ p xs) (ht : Turn cx t s₁ (.ready (.ok ())) s')
    (hh : Heard s₁ s' (p.scan xs).1 ys signals) : Looped s s' p (xs ++ ys) := by
  have hscan : (p.scan (xs ++ ys)).1 = ((p.scan xs).1.scan ys).1 := by rw [Position.scan_append]
  obtain ⟨new, hnew, hq⟩ := h.quiet
  obtain ⟨new', hnew', hq'⟩ := ht.log_ok
  constructor
  case consumed => rw [hh.consumed, h.consumed, List.append_assoc]
  case position => rw [hscan, hh.position]
  case valid => rw [hscan]; exact hh.valid
  case quiet =>
    refine ⟨new ++ new', by rw [hnew', hnew, List.append_assoc], ?_⟩
    intro e he
    rcases List.mem_append.mp he with he | he
    · exact hq e he
    · exact hq' e he
  case between =>
    rintro ⟨-, filled, hfilled, hne⟩
    have hpos : s'.position = some (.header filled) := by rw [hh.position, ← hscan, hfilled]
    exact hne (ht.no_header hpos)

theorem Looped.refl (hp : s.position = some p) (hv : p.Valid) : Looped s s p [] where
  consumed := (List.append_nil _).symm
  position := hp
  valid := hv
  quiet := ⟨[], (List.append_nil _).symm, by simp⟩
  between h := h.1 rfl

theorem Loops.looped (hok : ∀ s t, ok s t → s.Within t) (hp : s.position = some p) (hv : p.Valid)
    (h : Loops ok cx s s') : ∃ bytes, Looped s s' p bytes := by
  induction h with
  | refl => exact ⟨[], .refl hp hv⟩
  | tail _ hstep ih =>
    obtain ⟨xs, hx⟩ := ih
    obtain ⟨t, ht, hturn⟩ := hstep
    obtain ⟨ys, signals, hh, -⟩ := hturn.heard (hok _ _ ht) hx.position hx.valid
    exact ⟨xs ++ ys, hx.turn hturn hh⟩

theorem Registered.of_loops {s₁ : SharedReader} {bytes : List UInt8} (hl : Looped s s₁ p bytes)
    (h : Registered cx s₁ s') : Registered cx s s' := by
  obtain ⟨new, hnew, -⟩ := hl.quiet
  obtain ⟨new', e, hlog, he⟩ := h
  exact ⟨new ++ new', e, by rw [hlog, hnew, List.append_assoc s.log], he⟩

/-- Bytes that leave a header unfinished: no waker was handed over. -/
theorem Looped.short {s₁ : SharedReader} {xs header bs : List UInt8} {st : SharedReaderState}
    (hl : Looped s s₁ p xs) (hst : s₁.state = .nextPacket header) (h0 : bs ≠ [])
    (hlt : header.length + bs.length < 20) :
    MidHeader p (xs ++ bs) ∧ ¬ Registered cx s ((s₁.consume bs).setState st) := by
  have hpos : (p.scan xs).1 = .header header := by
    have hp := hl.position
    simp only [SharedReader.position, hst, Option.some.injEq] at hp
    exact hp.symm
  have hscan : (p.scan (xs ++ bs)).1 = .header (header ++ bs) := by
    rw [Position.scan_append, hpos, Position.scan_short hlt]
  constructor
  · have hne : header ++ bs ≠ [] := by simp [h0]
    have hne' : xs ++ bs ≠ [] := by simp [h0]
    exact ⟨hne', _, hscan, hne⟩
  · rintro ⟨new', e, hlog, he⟩
    obtain ⟨new, hnew, hq⟩ := hl.quiet
    have hlog₁ : s₁.log = s.log ++ new' ++ [e] := hlog
    rw [hnew, List.append_assoc, List.append_cancel_left_eq] at hlog₁
    have hmem : e ∈ new := by simp [hlog₁]
    have hwait := he.isWait
    rw [hq e hmem] at hwait
    cases hwait

theorem exists_position (h : s.state ≠ .error) : ∃ p, s.position = some p := by
  unfold SharedReader.position
  cases hst : s.state with
  | read owner left => exact ⟨_, rfl⟩
  | nextPacket header => exact ⟨_, rfl⟩
  | sendSocket addr id polled => exact ⟨_, rfl⟩
  | error => exact absurd hst h

theorem state_ne_error_of_pending {ts : List Tick} (h : s.poll cx ts = some (.pending, s')) :
    s.state ≠ .error := by
  intro he
  cases ts with
  | nil => simp [poll] at h
  | cons t ts => simp [poll, pollOnce, he] at h

/-- A call that tells its caller to wait has handed over the waker, exactly if the bytes
that the stream gave it do not stop inside a header. -/
theorem poll_pending_registered_iff {ts : List Tick} (hv : ∀ p, s.position = some p → p.Valid)
    (hs : Served Within cx ts s) (h : s.poll cx ts = some (.pending, s')) :
    ∃ p bytes, s.position = some p ∧ s'.consumed = s.consumed ++ bytes ∧
      (Registered cx s s' ↔ ¬ MidHeader p bytes) := by
  obtain ⟨p, hp⟩ := exists_position (state_ne_error_of_pending h)
  obtain ⟨s₁, t, hl, hw, hend⟩ := poll_ends hs h
  obtain ⟨xs, hx⟩ := hl.looped (fun _ _ h => h) hp (hv p hp)
  refine ⟨p, ?_⟩
  cases hend with
  | @coop s₂ hturn =>
    obtain ⟨ys, signals, hh, -⟩ := hturn.heard hw hx.position hx.valid
    have hy := hx.turn hturn hh
    obtain ⟨new, hnew, -⟩ := hy.quiet
    have hreg : Registered cx s (s₂.emit (.coopPending cx)) := by
      refine ⟨new, .coopPending cx, ?_, rfl⟩
      rw [← hnew]
      rfl
    exact ⟨xs ++ ys, hp, hy.consumed, iff_of_true hreg hy.between⟩
  | pending hturn =>
    rcases hturn.log_pending with ⟨hc, hreg⟩ | ⟨header, bs, hst, hr, h0, hlt, rfl⟩
    · exact ⟨xs, hp, hc.trans hx.consumed, iff_of_true (.of_loops hx hreg) hx.between⟩
    · have hlen : header.length < 20 := by
        have hval := hx.valid
        have hpos := hx.position
        simp only [position, hst, Option.some.injEq] at hpos
        rw [← hpos] at hval
        exact hval
      rw [filledBy_eq hlen (hw.header hst hr)] at hlt
      obtain ⟨hmid, hnot⟩ : MidHeader p (xs ++ bs) ∧ ¬ Registered cx s ((s₁.consume bs).setState
          (.nextPacket ((header ++ bs).take (filledBy header bs)))) := hx.short hst h0 hlt
      have hcons : ((s₁.consume bs).setState (.nextPacket ((header ++ bs).take (filledBy header bs)))).consumed =
          s.consumed ++ (xs ++ bs) := by
        rw [← List.append_assoc, ← hx.consumed]
        rfl
      exact ⟨xs ++ bs, hp, hcons, iff_of_false hnot (not_not.mpr hmid)⟩

theorem init_valid {connected : Bool} : ∀ p, (init connected).position = some p → p.Valid := by
  intro p hp
  obtain rfl : p = .header [] := (Option.some.inj hp).symm
  simp [Position.Valid]

/-- A reader that has seen a whole frame waits for the stream. -/
theorem poll_pending_registered_idle :
    ∃ s', (init true).poll (.task 0) [.bytes ((frame .unspecified [7]).take 20), .bytes [7], .idle] =
        some (.pending, s') ∧
      s'.consumed = frame .unspecified [7] ∧
      ∃ p bytes, (init true).position = some p ∧ s'.consumed = (init true).consumed ++ bytes ∧
        (Registered (.task 0) (init true) s' ↔ ¬ MidHeader p bytes) := by
  have hidle : ∀ s : SharedReader, s.Within .idle := by
    intro s n bs _ hr
    cases hr
  have hs : Served Within (.task 0) [.bytes ((frame .unspecified [7]).take 20), .bytes [7], .idle] (init true) :=
    ⟨.bytes (n := 20) rfl (by decide), .bytes (n := 1) rfl (by decide), hidle _, trivial⟩
  exact ⟨_, rfl, rfl, poll_pending_registered_iff init_valid hs rfl⟩

/-- A read of five bytes of a header makes the caller wait for nothing. -/
theorem poll_pending_unregistered :
    ∃ s', (init true).poll (.task 0) [.bytes [0, 0, 0, 0, 0]] = some (.pending, s') ∧
      Served Within (.task 0) [.bytes [0, 0, 0, 0, 0]] (init true) ∧
      ¬ Registered (.task 0) (init true) s' := by
  refine ⟨_, rfl, ⟨.bytes rfl (by decide), trivial⟩, ?_⟩
  rintro ⟨new, e, hlog, -⟩
  have hnil : ([] : List Event) = [] ++ new ++ [e] := hlog
  simp at hnil

end

end SharedReader

end VtMuxer
