import VtMuxer.Read.Moves

/-! The end of a stream is the weak count: it falls to zero with the first frame without
payload for the address, and a reader whose buffer is empty is told so. -/
namespace VtMuxer

namespace SharedReader

def said (s : SharedReader) (m : Move) : List Signal :=
  s.signalled ((s.perform m).consumed.drop s.consumed.length)

/-- The address under which a move inserts an entry, if it does. -/
def subject (s : SharedReader) : Move → Option SocketAddr
  | .add addr _ => some addr
  | m => (s.said m).head?.map Signal.addr

section
variable {s s' : SharedReader} {id n : ℕ}

theorem readEntry_nil_iff (cx : Waker) (hn : n ≠ 0) :
    (s.readEntry cx id n).1 = some [] ↔ (s.entries id).buffer.bytes = [] ∧ (s.entries id).weak = 0 := by
  have hempty : ((s.entries id).buffer.read n).1 = [] ↔ (s.entries id).buffer.bytes = [] := by
    rw [ReadBuffer.read_fst, List.take_eq_nil_iff]
    exact or_iff_right hn
  unfold readEntry
  dsimp only
  rw [if_neg hn]
  by_cases hb : ((s.entries id).buffer.read n).1 = []
  · rw [if_neg (not_not.mpr hb)]
    by_cases hw : (s.entries id).weak = 0
    · simp [hw, hempty.mp hb]
    · simp [hw]
  · rw [if_pos hb]
    have hne := mt hempty.mpr hb
    simp [hb, hne]

theorem readerPollRead_of_nil {cx : Waker} (h : (s.readEntry cx id n).1 = some []) :
    ∃ s', s.readerPollRead cx id n [] = some (.ready (.ok []), s') := by
  unfold readerPollRead
  rcases hr : s.readEntry cx id n with ⟨res, s₀⟩
  rw [hr] at h
  obtain rfl : res = some [] := h
  exact ⟨s₀, rfl⟩

/-- Polling the shared reader never ends a read with no bytes. -/
theorem readerPollRead_nil_iff {cx : Waker} {ts : List Tick} {res : Poll (Except IoError (List UInt8))}
    (h : s.readerPollRead cx id n ts = some (res, s')) :
    res = .ready (.ok []) ↔ (s.readEntry cx id n).1 = some [] := by
  unfold readerPollRead at h
  rcases hr : s.readEntry cx id n with ⟨_ | bs, s₀⟩
  · rw [hr] at h
    dsimp only at h
    rcases hp : s₀.poll cx ts with _ | ⟨(e | x) | _, s₁⟩
    · simp [hp] at h
    · rw [hp] at h
      obtain ⟨rfl, -⟩ := Prod.mk.inj (Option.some.inj h)
      simp
    · exact x.elim
    · rw [hp] at h
      obtain ⟨rfl, -⟩ := Prod.mk.inj (Option.some.inj h)
      simp
  · rw [hr] at h
    dsimp only at h
    split at h
    · obtain ⟨rfl, -⟩ := Prod.mk.inj (Option.some.inj h)
      simp
    · cases h

theorem said_eq {cx : Waker} {t : Tick} {p : Position} {bs : List UInt8} (hp : s.position = some p)
    (hc : (s.pollOnce cx t).2.consumed = s.consumed ++ bs) : s.said (.once cx t) = (p.scan bs).2 := by
  simp [said, perform, hc, signalled, hp]

theorem said_still {m : Move} (h : (s.perform m).consumed = s.consumed) : s.said m = [] := by
  unfold said signalled
  rw [h, List.drop_length]
  split <;> rfl

/-- What a move does to the map, and which frame without payload makes it do so. -/
inductive Account (s : SharedReader) (m : Move) : Prop where
  | silent (hn : (s.perform m).next = s.next) (hm : (s.perform m).socketMap = s.socketMap)
      (hz : ∀ a, Signal.zero a ∉ s.said m) (ht : (s.perform m).traffic = s.traffic)
  | closed {addr : SocketAddr} {id : ℕ} (hsaid : s.said m = [.zero addr]) (hk : s.socketMap addr = some id)
      (hn : (s.perform m).next = s.next) (hm : (s.perform m).socketMap = Function.update s.socketMap addr none)
      (ht : (s.perform m).traffic = s.traffic ++ [.closed addr id])
  /-- The listener is gone, or there is no memory for the connection. -/
  | unheard {addr : SocketAddr} (hsaid : s.said m = [.zero addr]) (hk : s.socketMap addr = none)
      (hn : (s.perform m).next = s.next) (hm : (s.perform m).socketMap = s.socketMap)
      (hwhy : s.connected = false ∨ ∃ cx t, m = .once cx t ∧ t.alloc = false)
  | opened {addr : SocketAddr} (hsaid : s.said m = [.zero addr]) (hsub : s.subject m = some addr)
      (hk : s.socketMap addr = none) (hn : (s.perform m).next = s.next + 1)
      (hm : (s.perform m).socketMap = Function.update s.socketMap addr (some s.next))
      (ht : (s.perform m).traffic = s.traffic ++ [.opened addr s.next])
  | added {addr : SocketAddr} {alloc : Bool} (hadd : m = .add addr alloc) (hsaid : s.said m = [])
      (hk : s.socketMap addr = none) (hn : (s.perform m).next = s.next + 1)
      (hm : (s.perform m).socketMap = Function.update s.socketMap addr (some s.next))
      (ht : (s.perform m).traffic = s.traffic)

theorem Coherent.account_once (h : s.Coherent) (cx : Waker) {t : Tick} (hw : s.Within t) :
    s.Account (.once cx t) := by
  have hturn := s.pollOnce_turn cx t
  by_cases he : s.state = .error
  · have hsame : s.perform (.once cx t) = s := by
      simp [perform, pollOnce, he]
    refine .silent (by rw [hsame]) (by rw [hsame]) ?_ (by rw [hsame])
    simp [said_still (m := .once cx t) (congrArg consumed hsame)]
  obtain ⟨p, hp⟩ := exists_position he
  rcases hturn.outcome hw hp (h.valid p hp) with ⟨bs, signals, hh, heff⟩ | ⟨bs, hh⟩ | ⟨header, bs, hs⟩
  · have hsaid : s.said (.once cx t) = signals := (said_eq hp hh.consumed).trans hh.signals
    have hperf : s.perform (.once cx t) = (s.pollOnce cx t).2 := rfl
    generalize (s.pollOnce cx t).2 = s' at hperf heff
    cases heff with
    | discard => exact .silent (by rw [hperf]; rfl) (by rw [hperf]; rfl) (by simp [hsaid]) (by rw [hperf]; rfl)
    | fill =>
      refine .silent (by rw [hperf]; rfl) (by rw [hperf]; rfl) (by simp [hsaid]) ?_
      rw [hperf]
      exact wake_traffic _ _
    | payload => exact .silent (by rw [hperf]; rfl) (by rw [hperf]; rfl) (by simp [hsaid]) (by rw [hperf]; rfl)
    | @close header bs addr id _ hk =>
      refine .closed hsaid hk ?_ ?_ ?_
      · rw [hperf]
        exact remove_next addr _
      · rw [hperf]
        exact remove_socketMap addr _
      · rw [hperf]
        exact remove_traffic (s := s.consume bs) hk
    | @ignore header bs addr _ hnone hc =>
      exact .unheard hsaid hnone (by rw [hperf]; rfl) (by rw [hperf]; rfl) (Or.inl hc)
    | @opening header bs addr _ hnone =>
      refine .opened hsaid ?_ hnone (by rw [hperf]; rfl) (by rw [hperf]; rfl) ?_
      · simp [subject, hsaid, Signal.addr]
      · rw [hperf]
        simp [SharedReader.traffic, SharedReader.emit, SharedReader.setState, SharedReader.add,
          SharedReader.consume, Event.isTraffic]
    | @sent addr id polled =>
      refine .silent ?_ ?_ (by simp [hsaid]) ?_
      · rw [hperf]
        cases polled <;> simp [SharedReader.setState, SharedReader.offer]
      · rw [hperf]
        cases polled <;> simp [SharedReader.setState, SharedReader.offer]
      · rw [hperf]
        cases polled with
        | true => rfl
        | false => exact wakeReceiver_traffic _
    | unsent =>
      refine .silent ?_ ?_ (by simp [hsaid]) ?_
      · rw [hperf]
        split <;> rfl
      · rw [hperf]
        split <;> rfl
      · rw [hperf]
        split <;> rfl
  · refine .silent hh.next hh.socketMap ?_ hh.traffic
    simp [said_eq hp hh.consumed, hh.signals]
  · obtain rfl : p = .header header := by simpa [position, hs.state, eq_comm] using hp
    have hcons : (s.pollOnce cx t).2.consumed = s.consumed ++ bs := by
      rw [hs.result]
      rfl
    have hperf : s.perform (.once cx t) = s.consume bs := hs.result
    have hsaid : s.said (.once cx t) = [.zero (headerBy header bs).addr] := by
      rw [said_eq hp hcons, hs.scan]
    exact .unheard hsaid hs.unknown (by rw [hperf]; rfl) (by rw [hperf]; rfl) (Or.inr ⟨cx, t, rfl, hs.alloc⟩)

theorem Coherent.account (h : s.Coherent) {m : Move} (hs : s.Sane m) : s.Account m := by
  rcases s.perform_calm m with ⟨cx, t, rfl⟩ | ⟨addr, alloc, rfl⟩ | hcalm
  · exact h.account_once cx hs
  · rcases s.perform_add addr alloc with heq | ⟨hnone, heq⟩
    · have hsaid := said_still (m := .add addr alloc) (congrArg consumed heq)
      exact .silent (by rw [heq]) (by rw [heq]) (by simp [hsaid]) (by rw [heq])
    · have hcons : (s.perform (.add addr alloc)).consumed = s.consumed := by
        rw [heq]
        rfl
      exact .added rfl (said_still hcons) hnone (by rw [heq]; rfl) (by rw [heq]; rfl) (by rw [heq]; rfl)
  · refine .silent hcalm.next hcalm.socketMap ?_ hcalm.traffic
    simp [said_still hcalm.consumed]

end

end SharedReader

/-- A shared reader and, for each entry, the address it was inserted under and whether a frame
without payload for that address has been processed since. -/
structure Watched where
  shared : SharedReader
  since : ℕ → Option (SocketAddr × Bool)

namespace Watched

def init (connected : Bool) : Watched := ⟨.init connected, fun _ => none⟩

def after (W : Watched) (m : Move) : Watched where
  shared := W.shared.perform m
  since id :=
    if id = W.shared.next ∧ (W.shared.perform m).next ≠ W.shared.next then
      (W.shared.subject m).map fun a => (a, false)
    else (W.since id).map fun x => (x.1, x.2 || decide (Signal.zero x.1 ∈ W.shared.said m))

/-- Every run, with addresses used again at will. -/
def Runs (connected : Bool) : Watched → Prop :=
  Relation.ReflTransGen (fun W W' => ∃ m, W.shared.Sane m ∧ W.after m = W') (init connected)

/-- An entry is in the map, under its address, until a frame without payload comes for that. -/
structure Exact (W : Watched) : Prop where
  coherent : W.shared.Coherent
  known : ∀ id a closed, W.since id = some (a, closed) → id < W.shared.next ∧
    (closed = false → W.shared.socketMap a = some id) ∧ (closed = true → ∀ b, W.shared.socketMap b ≠ some id)
  recorded : ∀ id < W.shared.next, W.since id ≠ none

section
variable {W : Watched} {m : Move}

theorem since_of_next (h : (W.shared.perform m).next = W.shared.next) (id : ℕ) :
    (W.after m).since id =
      (W.since id).map fun x => (x.1, x.2 || decide (Signal.zero x.1 ∈ W.shared.said m)) := by
  simp [after, h]

theorem Exact.recorded_after (h : W.Exact) {id : ℕ} (hid : id < W.shared.next) : (W.after m).since id ≠ none := by
  have hold := h.recorded id hid
  simp [after, hid.ne, hold]

theorem Exact.silent (h : W.Exact) (hs : W.shared.Sane m) (hn : (W.shared.perform m).next = W.shared.next)
    (hm : (W.shared.perform m).socketMap = W.shared.socketMap) (hz : ∀ a, Signal.zero a ∉ W.shared.said m) :
    (W.after m).Exact where
  coherent := h.coherent.acts (SharedReader.acts_perform hs)
  known id a closed hid := by
    rw [since_of_next hn] at hid
    obtain ⟨⟨b, c⟩, hb, hx⟩ := Option.map_eq_some_iff.mp hid
    obtain ⟨rfl, rfl⟩ : b = a ∧ c = closed := by simpa [hz] using hx
    have hold := h.known id b c hb
    show id < (W.shared.perform m).next ∧ (c = false → (W.shared.perform m).socketMap b = some id) ∧
      (c = true → ∀ b, (W.shared.perform m).socketMap b ≠ some id)
    rw [hn, hm]
    exact hold
  recorded id hid := h.recorded_after (hn ▸ hid)

/-- A frame without payload closes the entry of its address, if that has one. -/
theorem Exact.zero (h : W.Exact) (hs : W.shared.Sane m) {addr : SocketAddr}
    (hsaid : W.shared.said m = [.zero addr]) (hn : (W.shared.perform m).next = W.shared.next)
    (hm : (W.shared.perform m).socketMap = Function.update W.shared.socketMap addr none) :
    (W.after m).Exact where
  coherent := h.coherent.acts (SharedReader.acts_perform hs)
  known id a closed hid := by
    rw [since_of_next hn] at hid
    obtain ⟨⟨b, c⟩, hb, hx⟩ := Option.map_eq_some_iff.mp hid
    have hflag : b = a ∧ (c || decide (b = addr)) = closed := by simpa [hsaid] using hx
    obtain ⟨rfl, rfl⟩ := hflag
    obtain ⟨hlt, hopen, hclosed⟩ := h.known id b c hb
    show id < (W.shared.perform m).next ∧
      ((c || decide (b = addr)) = false → (W.shared.perform m).socketMap b = some id) ∧
      ((c || decide (b = addr)) = true → ∀ d, (W.shared.perform m).socketMap d ≠ some id)
    rw [hn, hm]
    refine ⟨hlt, ?_, ?_⟩
    · intro hf
      obtain ⟨hc, hne⟩ : c = false ∧ b ≠ addr := by simpa using hf
      rw [Function.update_of_ne hne]
      exact hopen hc
    · intro ht d hd
      have hd' := SharedReader.of_update_none hd
      cases c with
      | true => exact hclosed rfl d hd'
      | false =>
        obtain rfl : b = addr := by simpa using ht
        obtain rfl := W.shared.distinct d b id hd' (hopen rfl)
        simp at hd
  recorded id hid := h.recorded_after (hn ▸ hid)

theorem Exact.insert (h : W.Exact) (hs : W.shared.Sane m) {addr : SocketAddr}
    (hsub : W.shared.subject m = some addr) (hnone : W.shared.socketMap addr = none)
    (hsaid : ∀ a, Signal.zero a ∈ W.shared.said m → a = addr)
    (hn : (W.shared.perform m).next = W.shared.next + 1)
    (hm : (W.shared.perform m).socketMap = Function.update W.shared.socketMap addr (some W.shared.next)) :
    (W.after m).Exact where
  coherent := h.coherent.acts (SharedReader.acts_perform hs)
  known id a closed hid := by
    show id < (W.shared.perform m).next ∧ (closed = false → (W.shared.perform m).socketMap a = some id) ∧
      (closed = true → ∀ b, (W.shared.perform m).socketMap b ≠ some id)
    rw [hn, hm]
    rcases eq_or_ne id W.shared.next with rfl | hne
    · have hnew : (W.after m).since W.shared.next = some (addr, false) := by simp [after, hn, hsub]
      rw [hnew] at hid
      obtain ⟨rfl, rfl⟩ := Prod.mk.inj (Option.some.inj hid)
      exact ⟨Nat.lt_succ_self _, fun _ => Function.update_self _ _ _, fun h => by cases h⟩
    · have hold : (W.after m).since id =
          (W.since id).map fun x => (x.1, x.2 || decide (Signal.zero x.1 ∈ W.shared.said m)) := by
        simp [after, hne]
      rw [hold] at hid
      obtain ⟨⟨b, c⟩, hb, hx⟩ := Option.map_eq_some_iff.mp hid
      obtain ⟨rfl, hc⟩ : b = a ∧ (c || decide (Signal.zero b ∈ W.shared.said m)) = closed := by simpa using hx
      obtain ⟨hlt, hopen, hclosed⟩ := h.known id b c hb
      have hfree : ∀ d, Function.update W.shared.socketMap addr (some W.shared.next) d = some id →
          W.shared.socketMap d = some id := by
        intro d hd
        rcases eq_or_ne d addr with rfl | hda
        · rw [Function.update_self] at hd
          exact absurd (Option.some.inj hd).symm hne
        · rwa [Function.update_of_ne hda] at hd
      refine ⟨by omega, ?_, ?_⟩
      · intro hf
        rw [hf] at hc
        have hcf : c = false := by
          cases c
          · rfl
          · simp at hc
        have hba : b ≠ addr := by
          rintro rfl
          rw [hopen hcf] at hnone
          cases hnone
        rw [Function.update_of_ne hba]
        exact hopen hcf
      · intro ht d hd
        have hd' := hfree d hd
        cases c with
        | true => exact hclosed rfl d hd'
        | false =>
          rw [ht] at hc
          have hz : Signal.zero b ∈ W.shared.said m := by simpa using hc
          obtain rfl := hsaid b hz
          rw [hopen rfl] at hnone
          cases hnone
  recorded id hid := by
    have hid' : id < W.shared.next + 1 := hn ▸ hid
    rcases eq_or_ne id W.shared.next with rfl | hne
    · simp [after, hn, hsub]
    · exact h.recorded_after (by omega)

/-- Every move keeps the account. -/
theorem Exact.after (h : W.Exact) (hs : W.shared.Sane m) : (W.after m).Exact := by
  cases h.coherent.account hs with
  | silent hn hm hz => exact h.silent hs hn hm hz
  | closed hsaid _ hn hm => exact h.zero hs hsaid hn hm
  | unheard hsaid hk hn hm =>
    refine h.zero hs hsaid hn (hm.trans ?_)
    exact (Function.update_eq_self_iff.mpr hk.symm).symm
  | opened hsaid hsub hk hn hm => exact h.insert hs hsub hk (by simp [hsaid]) hn hm
  | @added addr alloc hadd hsaid hk hn hm =>
    refine h.insert hs ?_ hk (by simp [hsaid]) hn hm
    rw [hadd]
    rfl

theorem Exact.init (connected : Bool) : (Watched.init connected).Exact where
  coherent := .init connected
  known _ _ _ h := by cases h
  recorded id hid := absurd hid (Nat.not_lt_zero id)

theorem Runs.exact {connected : Bool} (h : Runs connected W) : W.Exact := by
  induction h with
  | refl => exact .init connected
  | tail _ hs ih =>
    obtain ⟨m, hsane, rfl⟩ := hs
    exact ih.after hsane

/-- Payload is put into the entry that the map has under its address, and into no other. -/
theorem Exact.appends (h : W.Exact) (hs : W.shared.Sane m) {id : ℕ} (hid : id < W.shared.next) :
    ((W.shared.perform m).entries id).appended = (W.shared.entries id).appended ∨
      ∃ owner left bs, W.shared.state = .read owner left ∧ W.shared.socketMap owner = some id ∧
        W.shared.said m = bs.map (.data owner) ∧
        ((W.shared.perform m).entries id).appended = (W.shared.entries id).appended ++ bs := by
  rcases W.shared.perform_calm m with ⟨cx, t, rfl⟩ | ⟨addr, alloc, rfl⟩ | hcalm
  · have hturn := W.shared.pollOnce_turn cx t
    by_cases he : W.shared.state = .error
    · left
      simp [SharedReader.perform, SharedReader.pollOnce, he]
    obtain ⟨p, hp⟩ := SharedReader.exists_position he
    rcases hturn.outcome hs hp (h.coherent.valid p hp) with ⟨bs, signals, hh, heff⟩ | ⟨bs, hh⟩ | ⟨header, bs, hst⟩
    · have hsaid : W.shared.said (.once cx t) = signals := (SharedReader.said_eq hp hh.consumed).trans hh.signals
      rcases heff.appended hid with hsame | ⟨owner, left, bs, hst, hm, rfl, happ⟩
      · exact Or.inl hsame
      · exact Or.inr ⟨owner, left, bs, hst, hm, hsaid, happ⟩
    · exact Or.inl (hh.appended id)
    · left
      show ((W.shared.pollOnce cx t).2.entries id).appended = _
      rw [hst.result]
      rfl
  · left
    rcases W.shared.perform_add addr alloc with heq | ⟨-, heq⟩
    · rw [heq]
    · rw [heq]
      simp [SharedReader.add, hid.ne]
  · exact Or.inl (hcalm.appended id)

/-- The weak count of an entry says whether the map has it under its address. -/
theorem Exact.weak {id : ℕ} {a : SocketAddr} {closed : Bool} (h : W.Exact) (hid : W.since id = some (a, closed)) :
    (W.shared.entries id).weak = (if W.shared.socketMap a = some id then 1 else 0) ∧
      ((W.shared.entries id).weak = 0 ↔ closed = true) := by
  obtain ⟨hlt, hopen, hclosed⟩ := h.known id a closed hid
  have hlink := h.coherent.linked id hlt
  cases closed with
  | false =>
    have hm := hopen rfl
    obtain ⟨hone, -⟩ := hlink.resolve_right fun hz => hz.2 a hm
    rw [if_pos hm, hone]
    simp
  | true =>
    have hno := hclosed rfl
    obtain ⟨hzero, -⟩ := hlink.resolve_left fun hone => by
      obtain ⟨-, b, hb⟩ := hone
      exact hno b hb
    rw [if_neg (hno a), hzero]
    simp

end

/-- In every run, the weak count of a reader's entry is one while the map has the entry under
the reader's address and zero afterwards, the assertion in `remove` holds, payload goes to the
entry in the map, and a read returns no bytes exactly if the buffer is empty and a frame
without payload has been processed since the reader was made. -/
theorem eof_is_weak_count {connected : Bool} {W : Watched} (h : Runs connected W) :
    (∀ id, (W.shared.entries id).handle ≠ .dropped → ∃ a closed, W.since id = some (a, closed) ∧
      (W.shared.entries id).weak = (if W.shared.socketMap a = some id then 1 else 0) ∧
      (∀ cx n ts res s', n ≠ 0 → W.shared.readerPollRead cx id n ts = some (res, s') →
        (res = .ready (.ok []) ↔ (W.shared.entries id).buffer.bytes = [] ∧ closed = true)) ∧
      ((W.shared.entries id).buffer.bytes = [] → closed = true → ∀ cx n, n ≠ 0 →
        ∃ s', W.shared.readerPollRead cx id n [] = some (.ready (.ok []), s'))) ∧
    (∀ a id, W.shared.socketMap a = some id → ((W.shared.unlink a id).entries id).weak = 0) ∧
    (∀ m, W.shared.Sane m → ∀ id < W.shared.next,
      ((W.shared.perform m).entries id).appended = (W.shared.entries id).appended ∨
        ∃ owner left bs, W.shared.state = .read owner left ∧ W.shared.socketMap owner = some id ∧
          W.shared.said m = bs.map (.data owner) ∧
          ((W.shared.perform m).entries id).appended = (W.shared.entries id).appended ++ bs) := by
  have hx := h.exact
  refine ⟨?_, ?_, fun m hs id hid => hx.appends hs hid⟩
  · intro id hlive
    have hlt : id < W.shared.next := by
      by_contra hge
      exact hlive (hx.coherent.fresh id (by omega))
    obtain ⟨⟨a, closed⟩, hsince⟩ := Option.ne_none_iff_exists'.mp (hx.recorded id hlt)
    obtain ⟨hweak, hclosed⟩ := hx.weak hsince
    refine ⟨a, closed, hsince, hweak, ?_, ?_⟩
    · intro cx n ts res s' hn hread
      rw [← hclosed, ← SharedReader.readEntry_nil_iff cx hn]
      exact SharedReader.readerPollRead_nil_iff hread
    · intro hempty hc cx n hn
      have hnil := (SharedReader.readEntry_nil_iff cx hn).mpr ⟨hempty, hclosed.mpr hc⟩
      exact SharedReader.readerPollRead_of_nil hnil
  · intro a id hm
    have hunlinked := (hx.coherent.unlink hm).linked id (W.shared.allocated a id hm)
    rcases hunlinked with ⟨-, b, hb⟩ | ⟨hzero, -⟩
    · have hb' : Function.update W.shared.socketMap a none b = some id := hb
      obtain rfl := W.shared.distinct b a id (SharedReader.of_update_none hb') hm
      simp at hb'
    · exact hzero

def ended : Watched :=
  ((init true).after (.add .unspecified true)).after (.once .noop (.bytes (frame .unspecified [])))

theorem runs_ended : Runs true ended := by
  have hadd : Runs true ((init true).after (.add .unspecified true)) :=
    .single ⟨.add .unspecified true, trivial, rfl⟩
  have hw : ((init true).after (.add .unspecified true)).shared.Within (.bytes (frame .unspecified [])) :=
    .bytes rfl (by decide)
  exact .tail hadd ⟨.once .noop (.bytes (frame .unspecified [])), hw, rfl⟩

theorem eof_is_weak_count_ended :
    (ended.shared.entries 0).handle ≠ .dropped ∧ ∃ a closed, ended.since 0 = some (a, closed) ∧
      (ended.shared.entries 0).weak = (if ended.shared.socketMap a = some 0 then 1 else 0) ∧
      ((ended.shared.entries 0).buffer.bytes = [] → closed = true → ∀ cx n, n ≠ 0 →
        ∃ s', ended.shared.readerPollRead cx 0 n [] = some (.ready (.ok []), s')) := by
  have hlive : (ended.shared.entries 0).handle ≠ .dropped := by decide
  obtain ⟨a, closed, hsince, hweak, -, hread⟩ := (eof_is_weak_count runs_ended).1 0 hlive
  exact ⟨hlive, a, closed, hsince, hweak, hread⟩

end Watched

end VtMuxer
