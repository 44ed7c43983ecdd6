import VtMuxer.Read.Coherent

/-! The poll loop against a stream with an end: every turn that goes on pays with a byte or
with the socket it had to send, so a call returns whatever the peer has written. -/
namespace VtMuxer

/-- What the stream says to one read: at most `n` of the bytes it still has. -/
inductive Chunk where
  | pending
  | failed (e : IoError)
  | upTo (n : ℕ)

/-- What happens to one turn of the loop, apart from the bytes themselves. -/
structure Answer where
  chunk : Chunk
  send : Poll Unit
  alloc : Bool
  coop : Poll Unit

namespace SharedReader

/-- The turn of a reader on `stream`, of which it has read `consumed`: no read gets more bytes
than it has room for. -/
def serve (stream : List UInt8) (a : Answer) (s : SharedReader) : Tick where
  read := match a.chunk with
    | .pending => .pending
    | .failed e => .ready (.error e)
    | .upTo n => .ready (.ok ((stream.drop s.consumed.length).take (min n (s.requested.getD 0))))
  send := a.send
  alloc := a.alloc
  coop := a.coop

/-- The turns of one caller, each served in the state that the one before has left. -/
def serveAll (cx : Waker) (stream : List UInt8) : List Answer → SharedReader → List Tick
  | [], _ => []
  | a :: as, s => s.serve stream a :: serveAll cx stream as (s.pollOnce cx (s.serve stream a)).2

def ServedBy (stream : List UInt8) (s : SharedReader) (t : Tick) : Prop := ∃ a, t = s.serve stream a

/-- What a turn may still cost: two for a byte, one for a socket that waits to be sent. -/
def debt (stream : List UInt8) (s : SharedReader) : ℕ :=
  2 * (stream.length - s.consumed.length) + match s.state with
    | .sendSocket _ _ _ => 1
    | _ => 0

section
variable {cx : Waker} {t : Tick} {s s' : SharedReader} {stream : List UInt8}

theorem serve_within (a : Answer) : s.Within (s.serve stream a) := by
  intro n bs hn hr
  unfold serve at hr
  cases hc : a.chunk with
  | pending => simp [hc] at hr
  | failed e => simp [hc] at hr
  | upTo m =>
    simp only [hc, hn, Option.getD_some, Poll.ready.injEq, Except.ok.injEq] at hr
    rw [← hr, List.length_take]
    omega

theorem consumed_append {a : Answer} {bs : List UInt8} (h : s.consumed <+: stream)
    (hr : (s.serve stream a).read = .ready (.ok bs)) : s.consumed ++ bs <+: stream := by
  obtain ⟨rest, rfl⟩ := h
  unfold serve at hr
  cases hc : a.chunk with
  | pending => simp [hc] at hr
  | failed e => simp [hc] at hr
  | upTo m =>
    simp only [hc, List.drop_left, Poll.ready.injEq, Except.ok.injEq] at hr
    rw [← hr, List.prefix_append_right_inj]
    exact List.take_prefix _ _

/-- A turn that goes on has taken a byte or left the sending of a socket. -/
theorem Turn.progress (h : Turn cx t s (.ready (.ok ())) s') :
    (∃ bs cs, bs ≠ [] ∧ t.read = .ready (.ok cs) ∧ bs <+: cs ∧ s'.consumed = s.consumed ++ bs) ∨
      ((∃ addr id polled, s.state = .sendSocket addr id polled) ∧ s'.state = .nextPacket [] ∧
        s'.consumed = s.consumed) := by
  cases h with
  | discard hs hu hr h0 => exact Or.inl ⟨_, _, h0, hr, List.prefix_rfl, rfl⟩
  | fill hs hu hr h0 => exact Or.inl ⟨_, _, h0, hr, List.take_prefix _ _, rfl⟩
  | payload hs hr h0 => exact Or.inl ⟨_, _, h0, hr, List.prefix_rfl, rfl⟩
  | close hs hr h0 => exact Or.inl ⟨_, _, h0, hr, List.prefix_rfl, remove_consumed _ _⟩
  | ignore hs hr h0 => exact Or.inl ⟨_, _, h0, hr, List.prefix_rfl, rfl⟩
  | opening hs hr h0 => exact Or.inl ⟨_, _, h0, hr, List.prefix_rfl, rfl⟩
  | @sent addr id polled hs hc =>
    refine Or.inr ⟨⟨addr, id, polled, hs⟩, rfl, ?_⟩
    cases polled
    · exact offer_consumed addr id s
    · rfl
  | @unsent addr id polled hs hc =>
    refine Or.inr ⟨⟨addr, id, polled, hs⟩, rfl, ?_⟩
    split <;> rfl

theorem debt_le (stream : List UInt8) (s : SharedReader) :
    s.debt stream ≤ 2 * (stream.length - s.consumed.length) + 1 := by
  unfold debt
  split <;> omega

theorem Turn.pays {a : Answer} (h : Turn cx (s.serve stream a) s (.ready (.ok ())) s')
    (hp : s.consumed <+: stream) : s'.consumed <+: stream ∧ s'.debt stream < s.debt stream := by
  rcases h.progress with ⟨bs, cs, hne, hr, hbs, hc⟩ | ⟨⟨addr, id, polled, hs⟩, hs', hc⟩
  · have hp' : s'.consumed <+: stream := by
      rw [hc]
      exact ((List.prefix_append_right_inj _).mpr hbs).trans (consumed_append hp hr)
    refine ⟨hp', ?_⟩
    have hlen := hp'.length_le
    have hpos := List.length_pos_of_ne_nil hne
    have hdebt := debt_le stream s'
    rw [hc, List.length_append] at hlen hdebt
    unfold debt at hdebt ⊢
    omega
  · refine ⟨hc ▸ hp, ?_⟩
    simp only [debt, hs, hs', hc]
    omega

theorem poll_cons (cx : Waker) (t : Tick) (s : SharedReader) :
    (∃ r s', s.poll cx [t] = some (r, s')) ∨
      ∃ s', s.pollOnce cx t = (.ready (.ok ()), s') ∧ ∀ ts, s.poll cx (t :: ts) = s'.poll cx ts := by
  rcases hp : s.pollOnce cx t with ⟨(e | _) | _, s'⟩
  · exact Or.inl ⟨.ready (.error e), s', by simp [poll, hp]⟩
  · cases hc : t.coop with
    | pending => exact Or.inl ⟨.pending, s'.emit (.coopPending cx), by simp [poll, hp, hc]⟩
    | ready u => exact Or.inr ⟨s', rfl, fun ts => by rw [poll, hp, hc]⟩
  · exact Or.inl ⟨.pending, s', by simp [poll, hp]⟩

/-- A reader in debt goes on no more often than it can pay. -/
theorem poll_of_debt (cx : Waker) (stream : List UInt8) :
    ∀ (d : ℕ) (s : SharedReader) (answers : ℕ → Answer), s.consumed <+: stream → s.debt stream < d →
      ∃ n r s', n ≤ d ∧ s.poll cx (s.serveAll cx stream ((List.range n).map answers)) = some (r, s') := by
  intro d
  induction d with
  | zero => intro s answers _ hd; omega
  | succ d ih =>
    intro s answers hp hd
    have hrange : ∀ n, (List.range (n + 1)).map answers = answers 0 :: (List.range n).map (answers ∘ Nat.succ) := by
      intro n
      rw [List.range_succ_eq_map, List.map_cons, List.map_map]
    rcases s.poll_cons cx (s.serve stream (answers 0)) with ⟨r, s', hend⟩ | ⟨s₁, honce, hgo⟩
    · exact ⟨1, r, s', by omega, hend⟩
    · have hturn : Turn cx (s.serve stream (answers 0)) s (.ready (.ok ())) s₁ := by
        have h := s.pollOnce_turn cx (s.serve stream (answers 0))
        rwa [honce] at h
      obtain ⟨hp₁, hd₁⟩ := hturn.pays hp
      obtain ⟨n, r, s', hn, hpoll⟩ := ih s₁ (answers ∘ Nat.succ) hp₁ (by omega)
      refine ⟨n + 1, r, s', by omega, ?_⟩
      rw [hrange, serveAll, hgo, honce]
      exact hpoll

/-- One turn of a reader, as its arithmetic needs it. -/
structure Orderly (cx : Waker) (t : Tick) (s : SharedReader) : Prop where
  header : ∀ header, s.state = .nextPacket header →
    header.length < 20 ∧ ∀ bs, t.read = .ready (.ok bs) →
      bs.length < 256 ∧ header.length + bs.length < 256 ∧ filledBy header bs ≤ 20
  payload : ∀ owner left, s.state = .read owner left →
    1 ≤ left ∧ left < 65536 ∧ ∀ bs, s.requested ≠ none → t.read = .ready (.ok bs) → bs.length ≤ left
  /-- The reader gives up only where the stream ends. -/
  cut : ∀ e s', s.pollOnce cx t = (.ready (.error e), s') → s'.state = .error →
    s.state = .error ∨ (e.kind = .unexpectedEof ∧ t.read = .ready (.ok []))
  /-- The state that the next turn finds. -/
  after : ∀ p, (s.pollOnce cx t).2.position = some p → p.Valid

theorem finishRead_cut {owner : SocketAddr} {left amount : ℕ} {e : IoError} (hle : amount ≤ left)
    (hl : left < 65536) (h : s.finishRead owner left amount = (.ready (.error e), s')) :
    e.kind = .unexpectedEof ∧ amount = 0 := by
  unfold finishRead at h
  by_cases h0 : amount = 0
  · rw [if_pos h0] at h
    obtain ⟨rfl, -⟩ : _ = e ∧ _ = s' := by simpa [error] using h
    exact ⟨rfl, h0⟩
  · rw [if_neg h0, if_pos ⟨by omega, hle⟩] at h
    split at h <;> cases h

theorem orderly_of_valid (hv : ∀ p, s.position = some p → p.Valid) (hw : s.Within t) : s.Orderly cx t := by
  have hpay : ∀ owner left, s.state = .read owner left → 1 ≤ left ∧ left < 65536 := by
    intro owner left hs
    exact hv (.payload owner left) (by simp [position, hs])
  have hhead : ∀ header, s.state = .nextPacket header → header.length < 20 := by
    intro header hs
    exact hv (.header header) (by simp [position, hs])
  constructor
  case header =>
    intro header hs
    refine ⟨hhead header hs, fun bs hr => ?_⟩
    have hlt := hhead header hs
    have hle := hw.header hs hr
    rw [filledBy_eq hlt hle]
    omega
  case payload =>
    intro owner left hs
    refine ⟨(hpay owner left hs).1, (hpay owner left hs).2, fun bs hreq hr => ?_⟩
    cases hu : s.upgrade owner with
    | none => exact hw.discard hs hu hr
    | some id =>
      by_cases hroom : (s.entries id).buffer.room = 0
      · exact absurd (by simp [requested, hs, hu, hroom]) hreq
      · exact (hw.fill hs hu hroom hr).2
  case cut =>
    intro e s' honce hs'
    have hturn : Turn cx t s (.ready (.error e)) s' := by
      have h := s.pollOnce_turn cx t
      rwa [honce] at h
    cases hturn with
    | failed => exact Or.inl hs'
    | broken hs => exact Or.inl hs
    | discardCut hs hu hr =>
      simp only [pollOnce, hs, pollRead, hu, hr] at honce
      obtain ⟨hkind, h0⟩ := finishRead_cut (hw.discard hs hu hr) (hpay _ _ hs).2 honce
      rw [hr, List.length_eq_zero_iff.mp h0]
      exact Or.inr ⟨hkind, rfl⟩
    | @fillCut owner left id bs hs hu hroom hr =>
      obtain ⟨htake, hle⟩ := hw.fill hs hu hroom hr
      have hfill : (s.entries id).buffer.fillBuffer (.ready (.ok bs)) =
          (.ready (.ok (some bs.length)), (s.entries id).buffer.fill bs) := by
        simp [ReadBuffer.fillBuffer, hroom, htake]
      simp only [pollOnce, hs, pollRead, hu, hr, hfill] at honce
      obtain ⟨hkind, h0⟩ := finishRead_cut hle (hpay _ _ hs).2 honce
      rw [hr, List.length_eq_zero_iff.mp h0]
      exact Or.inr ⟨hkind, rfl⟩
    | @headerCut header bs hs hr hb =>
      have hfilled := filledBy_eq (hhead _ hs) (hw.header hs hr)
      have hle := hw.header hs hr
      have hlt := hhead _ hs
      obtain rfl : bs = [] := hb.resolve_right (by omega)
      simp only [pollOnce, hs, pollNextPacket, hr, List.length_nil, if_true, error] at honce
      obtain rfl : _ = e := by simpa using honce
      exact Or.inr ⟨rfl, hr⟩
    | noMemory hs => cases hs.symm.trans hs'
  case after => exact (s.pollOnce_turn cx t).valid hw hv

theorem Loops.valid {s₁ : SharedReader} (h : Loops (ServedBy stream) cx s s₁)
    (hv : ∀ p, s.position = some p → p.Valid) : ∀ p, s₁.position = some p → p.Valid := by
  induction h with
  | refl => exact hv
  | tail _ hstep ih =>
    obtain ⟨t, ⟨a, rfl⟩, hturn⟩ := hstep
    exact hturn.valid (serve_within a) ih

end

/-- A call returns on every finite stream, in whatever pieces it comes, and no count on the way
leaves its type. -/
theorem poll_returns (s : SharedReader) (cx : Waker) (rest : List UInt8) (answers : ℕ → Answer) :
    (∃ n r s', n ≤ 2 * rest.length + 2 ∧
      s.poll cx (s.serveAll cx (s.consumed ++ rest) ((List.range n).map answers)) = some (r, s')) ∧
    (∀ t (s₁ s₂ : SharedReader), s₁.pollOnce cx t = (.ready (.ok ()), s₂) →
      s₁.consumed.length < s₂.consumed.length ∨
        ((∃ addr id polled, s₁.state = .sendSocket addr id polled) ∧ s₂.state = .nextPacket [])) ∧
    (s.Reachable → ∀ s₁, Loops (ServedBy (s.consumed ++ rest)) cx s s₁ →
      ∀ a, s₁.Orderly cx (s₁.serve (s.consumed ++ rest) a)) := by
  refine ⟨?_, ?_, ?_⟩
  · have hdebt := s.debt_le (s.consumed ++ rest)
    rw [List.length_append, Nat.add_sub_cancel_left] at hdebt
    exact poll_of_debt cx _ _ s answers (List.prefix_append _ _) (by omega)
  · intro t s₁ s₂ honce
    have hturn : Turn cx t s₁ (.ready (.ok ())) s₂ := by
      have h := s₁.pollOnce_turn cx t
      rwa [honce] at h
    rcases hturn.progress with ⟨bs, cs, hne, -, -, hc⟩ | ⟨hs, hs', -⟩
    · have hpos := List.length_pos_of_ne_nil hne
      rw [hc, List.length_append]
      exact Or.inl (by omega)
    · exact Or.inr ⟨hs, hs'⟩
  · intro hreach s₁ hloops a
    exact orderly_of_valid (hloops.valid hreach.coherent.valid) (serve_within a)

end SharedReader

end VtMuxer
