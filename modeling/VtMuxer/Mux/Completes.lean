import VtMuxer.Mux.Receiver
import VtMuxer.Read.EndOfStream
import VtMuxer.Read.Stalled

/-! The receiving end is never stuck for good. Whatever has been done so far, and however little the
channel to the listener holds, the connections can be accepted and read until everything that the
stream brings has been returned. -/
namespace VtMuxer

namespace SharedReader

/-- A channel that holds `cap` sockets takes the one that is being sent. A socket whose sender
waits is counted in `chan` already, and one for which a receiver waits is always taken. -/
def HasRoom (cap : ℕ) (polled : Bool) (s : SharedReader) : Prop :=
  if polled then s.chan.length ≤ cap else s.receivers ≠ [] ∨ s.chan.length < cap

instance (cap : ℕ) (polled : Bool) (s : SharedReader) : Decidable (s.HasRoom cap polled) := by
  unfold HasRoom
  infer_instance

/-- The send future is ready as soon as there is room, and not before. -/
def Channel (cap : ℕ) (s : SharedReader) (t : Tick) : Prop :=
  ∀ addr id polled, s.state = .sendSocket addr id polled → (t.send = .ready () ↔ s.HasRoom cap polled)

section
variable {s : SharedReader} {cx : Waker} {n : ℕ} {bs : List UInt8}

theorem consumed_bytes (hn : s.requested = some n) (hle : bs.length ≤ n) :
    (s.pollOnce cx (.bytes bs)).2.consumed = s.consumed ++ bs := by
  have hturn := s.pollOnce_turn cx (.bytes bs)
  generalize (s.pollOnce cx (.bytes bs)).1 = r, (s.pollOnce cx (.bytes bs)).2 = s' at hturn
  have hread : ∀ {b : List UInt8}, (Tick.bytes bs).read = .ready (.ok b) → b = bs := by
    intro b hb
    simpa [Tick.bytes] using hb.symm
  have hroom : ∀ {owner left id}, s.state = .read owner left → s.upgrade owner = some id →
      bs.take (s.entries id).buffer.room = bs := by
    intro owner left id hs hu
    simp only [requested, hs, hu] at hn
    split at hn
    · cases hn
    · obtain rfl := Option.some.inj hn
      exact List.take_of_length_le (hle.trans (min_le_left _ _))
  cases hturn with
  | parked _ hr => cases hr
  | @full owner left id hs hu hfull => simp [requested, hs, hu, hfull] at hn
  | short hs hr => rw [hread hr]; rfl
  | sending hs => simp [requested, hs] at hn
  | failed _ hr => cases hr
  | broken hs => simp [requested, hs] at hn
  | discardCut _ _ hr => rw [hread hr]; rfl
  | @fillCut owner left id b hs hu _ hr =>
    rw [hread hr]
    show s.consumed ++ bs.take _ = _
    rw [hroom hs hu]
  | headerCut _ hr => rw [hread hr]; rfl
  | noMemory _ hr => rw [hread hr]; rfl
  | discard _ _ hr => rw [hread hr]; rfl
  | @fill owner left id b hs hu hr =>
    rw [hread hr]
    show s.consumed ++ bs.take _ = _
    rw [hroom hs hu]
  | payload _ hr => rw [hread hr]; rfl
  | @close header b id _ hr =>
    rw [hread hr]
    exact remove_consumed _ (s.consume bs)
  | ignore _ hr => rw [hread hr]; rfl
  | opening _ hr => rw [hread hr]; rfl
  | sent hs => simp [requested, hs] at hn
  | unsent hs => simp [requested, hs] at hn

/-- A reader whose buffers are empty asks the stream for bytes, unless it has a socket to send. -/
theorem exists_requested {p : Position} (hp : s.position = some p) (hv : p.Valid)
    (hsend : ∀ a id polled, s.state ≠ .sendSocket a id polled)
    (hempty : ∀ a id, s.socketMap a = some id → (s.entries id).buffer.bytes = []) : ∃ n, s.requested = some n ∧ 1 ≤ n := by
  unfold position at hp
  unfold requested
  cases hs : s.state with
  | nextPacket header =>
    rw [hs] at hp
    obtain rfl := Option.some.inj hp
    have hlt : header.length < 20 := hv
    exact ⟨20 - header.length, rfl, by omega⟩
  | read owner left =>
    rw [hs] at hp
    obtain rfl := Option.some.inj hp
    have hpos : 0 < left := hv.1
    cases hu : s.upgrade owner with
    | none =>
      refine ⟨left, ?_, hpos⟩
      simp [hu]
    | some id =>
      have hroom : (s.entries id).buffer.room ≠ 0 := fun hfull =>
        ReadBuffer.bytes_ne_nil_of_full hfull (hempty owner id (Option.filter_eq_some_iff.mp hu).1)
      refine ⟨min (s.entries id).buffer.room left, by simp [hu, hroom], ?_⟩
      exact Nat.le_min.mpr ⟨Nat.pos_of_ne_zero hroom, hpos⟩
  | sendSocket a id polled => exact absurd hs (hsend a id polled)
  | error =>
    rw [hs] at hp
    cases hp

end

end SharedReader

namespace Receiver

/-- A step of a receiving end whose listener has a channel for `cap` sockets. -/
inductive BoundedStep (cap : ℕ) (wire : List UInt8) (r : Receiver) : Receiver → Prop where
  | once (cx : Waker) (t : Tick) (hf : r.shared.Fair t) (hc : r.shared.Channel cap t)
      (hw : (r.shared.pollOnce cx t).2.consumed <+: wire) :
      BoundedStep cap wire r { r with shared := (r.shared.pollOnce cx t).2 }
  | yield (cx : Waker) : BoundedStep cap wire r { r with shared := r.shared.emit (.coopPending cx) }
  | read (cx : Waker) (a : SocketAddr) (id n : ℕ) (ha : (a, id) ∈ r.accepted) :
      BoundedStep cap wire r (r.read cx id n)
  | accept (k : ℕ) (hooked : Bool) (cx : Waker) : BoundedStep cap wire r (r.accept k hooked cx)
  | leave (k : ℕ) (hooked : Bool) : BoundedStep cap wire r { r with shared := r.shared.dropReceiver k hooked }

def Reaches (cap : ℕ) (wire : List UInt8) : Receiver → Receiver → Prop :=
  Relation.ReflTransGen (BoundedStep cap wire)

section
variable {cap : ℕ} {wire : List UInt8} {r r' : Receiver}

theorem BoundedStep.step (h : BoundedStep cap wire r r') : Step wire r r' := by
  cases h with
  | once cx t hf _ hw => exact .once cx t hf hw
  | yield cx => exact .yield cx
  | read cx a id n ha => exact .read cx a id n ha
  | accept k hooked cx => exact .accept k hooked cx
  | leave k hooked => exact .leave k hooked

theorem Runs.reaches (h : Runs wire r) (hr : Reaches cap wire r r') : Runs wire r' := by
  induction hr with
  | refl => exact h
  | tail _ hs ih => exact ih.step hs.step

theorem Runs.opened (h : Runs wire r) : ∀ id < r.shared.next, ∃ a, (a, id) ∈ r.shared.openings := by
  induction h with
  | refl => exact fun id hid => absurd hid (Nat.not_lt_zero id)
  | @tail r r' hr hs ih =>
    have hsame : r'.shared.next = r.shared.next → r'.shared.openings = r.shared.openings →
        ∀ id < r'.shared.next, ∃ a, (a, id) ∈ r'.shared.openings := by
      intro hn ho id hid
      rw [hn] at hid
      rw [ho]
      exact ih id hid
    cases hs with
    | once cx t hf hw =>
      show ∀ id < (r.shared.pollOnce cx t).2.next, ∃ a, (a, id) ∈ (r.shared.pollOnce cx t).2.openings
      rw [SharedReader.openings_eq_traffic]
      rw [SharedReader.openings_eq_traffic] at ih
      have hgrow : ∀ new : List Event, (r.shared.perform (.once cx t)).traffic = r.shared.traffic ++ new →
          (r.shared.perform (.once cx t)).next = r.shared.next →
          ∀ id < (r.shared.perform (.once cx t)).next,
            ∃ a, (a, id) ∈ (r.shared.perform (.once cx t)).traffic.filterMap Event.opening := by
        intro new ht hn id hid
        rw [hn] at hid
        obtain ⟨a, ha⟩ := ih id hid
        refine ⟨a, ?_⟩
        rw [ht, List.filterMap_append]
        exact List.mem_append_left _ ha
      cases (Runs.keeps hr).coherent.account (m := .once cx t) hf.within with
      | silent hn hm hz ht => exact hgrow [] (by rw [ht, List.append_nil]) hn
      | closed hsaid hk hn hm ht => exact hgrow _ ht hn
      | unheard hsaid hk hn hm hwhy =>
        rcases hwhy with hoff | ⟨cx', t', heq, hno⟩
        · rw [(Runs.keeps hr).connected] at hoff
          cases hoff
        · obtain ⟨-, rfl⟩ := Move.once.inj heq
          rw [hf.1] at hno
          cases hno
      | @opened addr hsaid hsub hk hn hm ht =>
        intro id hid
        have hid' : id < r.shared.next + 1 := lt_of_lt_of_eq hid hn
        have htr : (r.shared.pollOnce cx t).2.traffic = r.shared.traffic ++ [.opened addr r.shared.next] := ht
        rw [htr, List.filterMap_append]
        rcases Nat.lt_succ_iff_lt_or_eq.mp hid' with hlt | rfl
        · obtain ⟨a, ha⟩ := ih id hlt
          exact ⟨a, List.mem_append_left _ ha⟩
        · exact ⟨addr, List.mem_append_right _ (by simp [Event.opening])⟩
      | added hadd => cases hadd
    | yield cx => exact hsame rfl (SharedReader.openings_emit rfl _)
    | read cx a id n ha =>
      have hf := r.shared.readEntry_frame cx id n
      exact hsame hf.1 hf.2.2.2.1
    | accept k hooked cx =>
      have hf := r.shared.recvEntry_frame k hooked cx
      exact hsame hf.1 hf.2.2.2.1
    | leave k hooked =>
      have hf := r.shared.dropReceiver_frame k hooked
      exact hsame hf.1 hf.2.2.2.1

theorem accepts_all (cap : ℕ) (wire : List UInt8) : ∀ (n : ℕ) (r : Receiver), r.shared.chan.length = n →
    ∃ r', Reaches cap wire r r' ∧ r'.shared.chan = [] ∧ r'.shared.state = r.shared.state ∧
      r'.shared.consumed = r.shared.consumed := by
  intro n
  induction n with
  | zero => exact fun r hr => ⟨r, .refl, List.length_eq_zero_iff.mp hr, rfl, rfl⟩
  | succ n ih =>
    intro r hr
    have hcalm := SharedReader.Calm.recvEntry r.shared 0 false .noop
    have hchan := (r.shared.recvEntry_frame 0 false .noop).2.2.1
    have hlen : (r.accept 0 false .noop).shared.chan.length = n := by
      cases hc : r.shared.chan with
      | nil => simp [hc] at hr
      | cons x rest =>
        have hsome : (r.shared.recvEntry 0 false .noop).1 = some x := by simp [SharedReader.recvEntry, hc]
        rw [hsome, hc] at hchan
        have hrest : (r.accept 0 false .noop).shared.chan = rest := List.cons.inj hchan |>.2
        rw [hrest]
        simpa [hc] using hr
    obtain ⟨r', hr', hnil, hst, hcons⟩ := ih (r.accept 0 false .noop) hlen
    exact ⟨r', .head (.accept 0 false .noop) hr', hnil, hst.trans hcalm.state, hcons.trans hcalm.consumed⟩

/-- The first connections are read as far as something is in their buffers. -/
theorem reads_all (cap : ℕ) (wire : List UInt8) {a : ℕ → SocketAddr} : ∀ k ≤ r.shared.next, (∀ id < k, (a id, id) ∈ r.accepted) →
    ∃ r', Reaches cap wire r r' ∧ (∀ id < k, (r'.shared.entries id).buffer.bytes = []) ∧ r'.accepted = r.accepted ∧
      r'.shared.chan = r.shared.chan ∧ r'.shared.state = r.shared.state ∧
      r'.shared.consumed = r.shared.consumed ∧ r'.shared.next = r.shared.next := by
  intro k
  induction k with
  | zero => exact fun _ _ => ⟨r, .refl, fun id hid => absurd hid (Nat.not_lt_zero id), rfl, rfl, rfl, rfl, rfl⟩
  | succ k ih =>
    intro hk hacc
    obtain ⟨r', hr', hempty, ha, hch, hst, hcons, hn⟩ := ih (by omega) fun id hid => hacc id (by omega)
    let n := (r'.shared.entries k).buffer.bytes.length
    have hcalm := SharedReader.Calm.readEntry r'.shared .noop k n
    have hframe := r'.shared.readEntry_frame .noop k n
    have hstep : BoundedStep cap wire r' (r'.read .noop k n) := .read .noop (a k) k n (by rw [ha]; exact hacc k (by omega))
    refine ⟨r'.read .noop k n, hr'.tail hstep, fun id hid => ?_, ha, hframe.2.2.1.trans hch, hcalm.state.trans hst,
      hcalm.consumed.trans hcons, hcalm.next.trans hn⟩
    rcases eq_or_ne id k with rfl | hne
    · rcases r'.shared.readEntry_cases .noop id n with ⟨-, -, hbytes⟩ | ⟨-, hbytes, -⟩
      · exact hbytes
      · exact hbytes.trans List.drop_length
    · show ((r'.shared.readEntry .noop k n).2.entries id).buffer.bytes = []
      rw [hframe.2.2.2.2 id hne]
      exact hempty id (by omega)

theorem unsent_of_ne {s : SharedReader} (h : ∀ a id polled, s.state ≠ .sendSocket a id polled) : s.unsent = [] := by
  unfold SharedReader.unsent
  split
  · rename_i a id hst
    exact absurd hst (h a id false)
  · rfl

theorem turns (cap : ℕ) (h : Runs wire r) {a : SocketAddr} {id : ℕ} {polled : Bool}
    (hs : r.shared.state = .sendSocket a id polled) :
    ∃ r', Reaches cap wire r r' ∧ r'.shared.consumed = r.shared.consumed ∧
      r'.shared.state = if r.shared.HasRoom cap polled then .nextPacket [] else .sendSocket a id true := by
  let t : Tick := { Tick.bytes [] with send := if r.shared.HasRoom cap polled then .ready () else .pending }
  have hfair : r.shared.Fair t := by
    refine ⟨rfl, fun n hn => ?_⟩
    simp [SharedReader.requested, hs] at hn
  have hchan : r.shared.Channel cap t := by
    intro b j q hst
    obtain ⟨rfl, rfl, rfl⟩ : a = b ∧ id = j ∧ polled = q := by simpa [hs] using hst
    simp [t]
  have hcons : (r.shared.pollOnce .noop t).2.consumed = r.shared.consumed ∧
      (r.shared.pollOnce .noop t).2.state =
        if r.shared.HasRoom cap polled then .nextPacket [] else .sendSocket a id true := by
    simp only [SharedReader.pollOnce, hs, SharedReader.pollSend, h.keeps.connected, if_true, t]
    by_cases hroom : r.shared.HasRoom cap polled
    · cases polled <;> simp [hroom, SharedReader.setState, SharedReader.offer]
    · cases polled <;> simp [hroom, SharedReader.setState, SharedReader.offer, SharedReader.emit]
  refine ⟨_, .single (.once .noop t hfair hchan ?_), hcons⟩
  rw [hcons.1]
  exact h.keeps.onWire

/-- A socket that waits to be sent goes to the listener, once there is nothing before it in the
channel. -/
theorem sends (cap : ℕ) (h : Runs wire r) : ∃ r', Reaches cap wire r r' ∧ r'.shared.consumed = r.shared.consumed ∧
    ∀ a id polled, r'.shared.state ≠ .sendSocket a id polled := by
  have hwaiting : ∀ (r : Receiver) (a : SocketAddr) (id : ℕ), Runs wire r → r.shared.state = .sendSocket a id true →
      ∃ r', Reaches cap wire r r' ∧ r'.shared.consumed = r.shared.consumed ∧ r'.shared.state = .nextPacket [] := by
    intro r a id h hs
    obtain ⟨r₁, hr₁, hnil, hst₁, hcons₁⟩ := accepts_all cap wire _ r rfl
    obtain ⟨r₂, hr₂, hcons₂, hst₂⟩ := turns cap (h.reaches hr₁) (hst₁.trans hs)
    have hroom : r₁.shared.HasRoom cap true := by simp [SharedReader.HasRoom, hnil]
    rw [if_pos hroom] at hst₂
    exact ⟨r₂, hr₁.trans hr₂, hcons₂.trans hcons₁, hst₂⟩
  by_cases hs : ∃ a id polled, r.shared.state = .sendSocket a id polled
  · obtain ⟨a, id, polled, hs⟩ := hs
    obtain ⟨r₁, hr₁, hcons₁, hst₁⟩ := turns cap h hs
    by_cases hroom : r.shared.HasRoom cap polled
    · rw [if_pos hroom] at hst₁
      refine ⟨r₁, hr₁, hcons₁, fun b j q hst => ?_⟩
      rw [hst₁] at hst
      cases hst
    · rw [if_neg hroom] at hst₁
      obtain ⟨r₂, hr₂, hcons₂, hst₂⟩ := hwaiting r₁ a id (h.reaches hr₁) hst₁
      refine ⟨r₂, hr₁.trans hr₂, hcons₂.trans hcons₁, fun b j q hst => ?_⟩
      rw [hst₂] at hst
      cases hst
  · exact ⟨r, .refl, rfl, fun a id polled hst => hs ⟨a, id, polled, hst⟩⟩

/-- Everything that has been read from the stream is returned. -/
theorem settles (cap : ℕ) (h : Runs wire r) : ∃ r', Reaches cap wire r r' ∧ r'.shared.consumed = r.shared.consumed ∧
    r'.shared.chan = [] ∧ (∀ a id polled, r'.shared.state ≠ .sendSocket a id polled) ∧
    ∀ id < r'.shared.next, (r'.shared.entries id).buffer.bytes = [] := by
  obtain ⟨r₁, hr₁, hcons₁, hsend₁⟩ := sends cap h
  obtain ⟨r₂, hr₂, hchan₂, hst₂, hcons₂⟩ := accepts_all cap wire _ r₁ rfl
  have hrun₂ : Runs wire r₂ := (h.reaches hr₁).reaches hr₂
  have hunsent : r₂.shared.unsent = [] := unsent_of_ne (by rw [hst₂]; exact hsend₁)
  have hacc : r₂.accepted = r₂.shared.openings := by
    have hknown := hrun₂.keeps.known
    rwa [hchan₂, hunsent, List.append_nil, List.append_nil] at hknown
  have hall : ∀ id, ∃ a, id < r₂.shared.next → (a, id) ∈ r₂.accepted := by
    intro id
    by_cases hid : id < r₂.shared.next
    · obtain ⟨a, ha⟩ := hrun₂.opened id hid
      exact ⟨a, fun _ => hacc ▸ ha⟩
    · exact ⟨.unspecified, fun hlt => absurd hlt hid⟩
  choose a ha using hall
  obtain ⟨r₃, hr₃, hempty, -, hchan₃, hst₃, hcons₃, hn₃⟩ :=
    reads_all cap wire (a := a) r₂.shared.next le_rfl fun id hid => ha id hid
  refine ⟨r₃, (hr₁.trans hr₂).trans hr₃, hcons₃.trans (hcons₂.trans hcons₁), hchan₃.trans hchan₂, ?_, ?_⟩
  · rw [hst₃, hst₂]
    exact hsend₁
  · rw [hn₃]
    exact hempty

theorem feeds (cap : ℕ) (h : Runs wire r) (hsend : ∀ a id polled, r.shared.state ≠ .sendSocket a id polled)
    (hempty : ∀ id < r.shared.next, (r.shared.entries id).buffer.bytes = []) (hmore : r.shared.consumed ≠ wire) :
    ∃ r', Reaches cap wire r r' ∧ r'.shared.consumed.length = r.shared.consumed.length + 1 := by
  obtain ⟨rest, hrest⟩ := h.keeps.onWire
  cases rest with
  | nil => exact absurd (by rwa [List.append_nil] at hrest) hmore
  | cons b rest =>
    have hp := h.keeps.advances.position
    obtain ⟨n, hn, hpos⟩ := SharedReader.exists_requested hp (h.keeps.coherent.valid _ hp) hsend
      fun a id hm => hempty id (r.shared.allocated a id hm)
    have hcons : (r.shared.pollOnce .noop (.bytes [b])).2.consumed = r.shared.consumed ++ [b] :=
      SharedReader.consumed_bytes hn hpos
    have hchan : r.shared.Channel cap (.bytes [b]) := fun a id polled hst => absurd hst (hsend a id polled)
    refine ⟨_, .single (.once .noop (.bytes [b]) (.bytes hn le_rfl hpos) hchan ?_), ?_⟩
    · rw [hcons, ← hrest]
      exact ⟨rest, by simp⟩
    · show (r.shared.pollOnce .noop (.bytes [b])).2.consumed.length = _
      rw [hcons, List.length_append]
      rfl

theorem finishes (cap n : ℕ) : ∀ r : Receiver, Runs wire r → wire.length - r.shared.consumed.length ≤ n →
    ∃ r', Reaches cap wire r r' ∧ r'.shared.consumed = wire ∧ r'.shared.chan = [] ∧ r'.shared.unsent = [] ∧
      ∀ id < r'.shared.next, (r'.shared.entries id).buffer.bytes = [] := by
  induction n with
  | zero =>
    intro r hr hle
    obtain ⟨r', hr', hcons, hchan, hsend, hempty⟩ := settles cap hr
    refine ⟨r', hr', ?_, hchan, unsent_of_ne hsend, hempty⟩
    rw [hcons]
    exact hr.keeps.onWire.eq_of_length_le (by omega)
  | succ n ih =>
    intro r hr hle
    obtain ⟨r₁, hr₁, hcons, hchan, hsend, hempty⟩ := settles cap hr
    by_cases hend : r₁.shared.consumed = wire
    · exact ⟨r₁, hr₁, hend, hchan, unsent_of_ne hsend, hempty⟩
    · obtain ⟨r₂, hr₂, hlen⟩ := feeds cap (hr.reaches hr₁) hsend hempty hend
      have hleft : wire.length - r₂.shared.consumed.length ≤ n := by
        rw [hlen, hcons]
        omega
      obtain ⟨r', hr', hrest⟩ := ih r₂ ((hr.reaches hr₁).reaches hr₂) hleft
      exact ⟨r', (hr₁.trans hr₂).trans hr', hrest⟩

end

/-- From everywhere a run of the receiving end can go on until it has returned what there is in the
stream, whatever the capacity of the channel to the listener: the connections that the reference
demultiplexer finds there are accepted in order, each has returned all of its payload, and those that
the stream has closed are at their end. -/
theorem never_stuck (cap : ℕ) {wire : List UInt8} {r : Receiver} (h : Runs wire r) :
    ∃ r', Reaches cap wire r r' ∧ r'.shared.consumed = wire ∧
      r'.accepted = ((Demux.ofReader (.init true)).run (fun _ => true) true wire).1.openings ∧
      ∀ x ∈ r'.accepted,
        beforeEof (r'.calls x.2) = ((Demux.ofReader (.init true)).run (fun _ => true) true wire).1.appended x.2 ∧
        ((∀ a, ((Demux.ofReader (.init true)).run (fun _ => true) true wire).1.map a ≠ some x.2) →
          ∀ cx n, n ≠ 0 → (r'.shared.readEntry cx x.2 n).1 = some []) := by
  obtain ⟨r', hr', hcons, hchan, hunsent, hempty⟩ := finishes cap _ r h le_rfl
  have hkeeps := (h.reaches hr').keeps
  have htracks := hkeeps.advances.tracks
  rw [hcons] at htracks
  have hopen : r'.accepted = r'.shared.openings := by
    have hknown := hkeeps.known
    rwa [hchan, hunsent, List.append_nil, List.append_nil] at hknown
  refine ⟨r', hr', hcons, ?_, fun x hx => ?_⟩
  · rw [hopen, SharedReader.openings_eq_traffic, htracks.events]
    rfl
  · have hid : x.2 < r'.shared.next := hkeeps.allocated x (hopen ▸ hx)
    have hall := (r'.shared.entries x.2).appended_drained (hempty x.2 hid)
    refine ⟨(hkeeps.told x.2 hid).bytes.trans (hall.symm.trans (htracks.appended x.2 hid)), fun hclosed cx n hn => ?_⟩
    refine (SharedReader.readEntry_nil_iff cx hn).mpr ⟨hempty x.2 hid, ?_⟩
    rcases hkeeps.coherent.linked x.2 hid with ⟨-, a, ha⟩ | ⟨hzero, -⟩
    · rw [htracks.map] at ha
      exact absurd ha (hclosed a)
    · exact hzero

/-- The listener's channel is full, and a second connection is to be sent. -/
theorem never_stuck_full :
    ∃ (a : SocketAddr) (r r' : Receiver), Runs (frame .unspecified [] ++ frame a [] ++ frame .unspecified [7]) r ∧
      r.shared.state = .sendSocket a 1 false ∧ r.shared.chan = [(.unspecified, 0)] ∧ ¬ r.shared.HasRoom 1 false ∧
      Reaches 1 (frame .unspecified [] ++ frame a [] ++ frame .unspecified [7]) r r' ∧
      r'.shared.consumed = frame .unspecified [] ++ frame a [] ++ frame .unspecified [7] := by
  let a : SocketAddr := ⟨SocketAddr.unspecified.ip, .new 1⟩
  let s₁ := (init.shared.pollOnce .noop (.bytes (frame .unspecified []))).2
  let s₂ := (s₁.pollOnce .noop (.bytes [])).2
  let s₃ := (s₂.pollOnce .noop (.bytes (frame a []))).2
  have h₁ : Runs (frame .unspecified [] ++ frame a [] ++ frame .unspecified [7]) { init with shared := s₁ } :=
    Runs.bytes .refl _ (n := 20) rfl (by decide) (by decide) (by decide +kernel)
  have h₂ : Runs (frame .unspecified [] ++ frame a [] ++ frame .unspecified [7]) { init with shared := s₂ } :=
    h₁.step (.once .noop _ (.silent rfl) (by decide +kernel))
  have h₃ : Runs (frame .unspecified [] ++ frame a [] ++ frame .unspecified [7]) { init with shared := s₃ } :=
    h₂.bytes _ (n := 20) (by decide +kernel) (by decide) (by decide) (by decide +kernel)
  obtain ⟨r', hr', hcons, -⟩ := never_stuck 1 h₃
  exact ⟨a, _, r', h₃, by decide +kernel, by decide +kernel, by decide +kernel, hr', hcons⟩

end Receiver

end VtMuxer
