import VtMuxer.Mux.Conduct

/-! Two endpoints joined by a stream in each direction. A frame without payload opens a
connection or closes one, and the endpoint that reads it has only its map to tell which. -/
namespace VtMuxer
open Interaction Rendezvous

/-- Two endpoints, and the entries of their calls of `add_connection`. -/
structure Pair where
  side : Bool → Endpoint
  dialed : Bool → SocketAddr → Option ℕ

namespace Pair

/-- What can happen at a side: a move of its reader, a call on one of its connections, or an answer
of the socket or the mutex. -/
inductive Act where
  | move (m : Move)
  | call (i : ℕ) (op : WriteOp)
  | answer (i : ℕ) (x : Sigma WriteResp)

def init : Pair := ⟨fun _ => .init true, fun _ _ => none⟩

def set (G : Pair) (x : Bool) (E : Endpoint) (dialed : SocketAddr → Option ℕ) : Pair :=
  ⟨Function.update G.side x E, Function.update G.dialed x dialed⟩

/-- What a side has to do with an address. -/
def half (G : Pair) (x : Bool) (a : SocketAddr) : Half := (G.side x).half (G.dialed x) a

/-- A side reads what the other has sent, in pieces of any size. It adds an address once, and keeps
its listener; the socket does not fail and nothing is cancelled. -/
inductive Step (G : Pair) (x : Bool) : Act → Pair → Prop where
  | move (m : Move) (hm : (G.side x).shared.Permits m) (hlive : m ≠ .disconnect) (hfed : m.Fed)
      (hread : ((G.side x).shared.perform m).consumed <+: plain (G.side !x).wire)
      (honce : ∀ a alloc, m = .add a alloc → G.dialed x a = none) :
      Step G x (.move m) (G.set x ((G.side x).after m) ((G.side x).dials m (G.dialed x)))
  | call (i : ℕ) (op : WriteOp) {a : SocketAddr} {c : Conn} {r : Outcome}
      (h : (G.side x).writers i = some ⟨a, .ret c r⟩) (hop : r.permits op) :
      Step G x (.call i op) (G.set x ((G.side x).setWriter i ⟨a, op.body c⟩) (G.dialed x))
  | answer (i : ℕ) {a : SocketAddr} {c : Conn} {q : WriteQuery} {k : WriteResp q → Prog WriteQuery WriteResp Conn Outcome}
      (h : (G.side x).writers i = some ⟨a, .ask c q k⟩) (r : WriteResp q) (hr : Smooth q r)
      (hl : granted ⟨q, r⟩ = true → (G.side x).Unlocked) :
      Step G x (.answer i ⟨q, r⟩) (G.set x ((G.side x).advance i ⟨a, k r⟩ c.origin (delivered q r)) (G.dialed x))

def Reaches : Pair → Pair → Prop := Relation.ReflTransGen fun G G' => ∃ x act, G.Step x act G'

/-- Where the other side has added the address too, it is added here only after the connection of
the other side was opened here, and the handshake is sent only after the final frame of that
connection. No connection is dropped while its shutdown is inside a frame. -/
def Heeds (G : Pair) (x : Bool) : Act → Prop
  | .move (.add a _) =>
    (G.side x).shared.socketMap a = none → G.dialed (!x) a ≠ none → ∃ i b, (G.side x).reader.since i = some (a, b)
  | .move _ => True
  | .call i op => ∀ w, (G.side x).writers i = some w → op = .drop → Untorn (some w.prog.mem.inner.state)
  | .answer i _ => ∀ w, (G.side x).writers i = some w → w.prog.mem.origin = .handshake →
      G.dialed (!x) w.addr ≠ none → ∃ j v, (G.side x).writers j = some v ∧ v.addr = w.addr ∧ Concludes v.prog

def Heedful : Pair → Pair → Prop := Relation.ReflTransGen fun G G' => ∃ x act, G.Heeds x act ∧ G.Step x act G'

/-- What side `x` has made of the frames without payload that it has read: one deed for each, an
opening for a handshake and, for a final frame, the close of the connection it was sent for. What
was opened waits to be accepted, or is accepted. The frames without payload that the side sends
itself are the handshakes and the final frames of its connections. -/
structure Agreed (G : Pair) (x : Bool) : Prop where
  frames : ∀ a, List.Forall₂ (Right (G.half x a) (G.half (!x) a))
    (zeros a ((G.side !x).wire.take (G.side x).shared.consumed.length)) ((G.side x).shared.deeds a)
  accepted : ∀ a j, Deed.opened j ∈ (G.side x).shared.deeds a →
    (a, j) ∈ (G.side x).shared.chan ++ (G.side x).shared.unsent ∨ ∃ w, (G.side x).writers j = some w ∧ w.addr = a
  sent : ∀ i w, (G.side x).writers i = some w → Announced w.prog (framesOf i (zeros w.addr (G.side x).wire))

/-- The invariant of the runs in which the condition is heeded. -/
structure Concord (G : Pair) : Prop where
  proper : ∀ x, (G.side x).Proper (G.dialed x)
  stream : ∀ x, (G.side x).shared.consumed <+: plain (G.side !x).wire
  count : ∀ x a, ((G.side x).shared.deeds a).length =
    (zeros a ((G.side !x).wire.take (G.side x).shared.consumed.length)).length
  told : ∀ x a, Rendezvous.Told (G.half x a) (G.half (!x) a)

section
variable {G G' : Pair} {x : Bool} {E : Endpoint} {d : SocketAddr → Option ℕ}

theorem eq_or_not (x y : Bool) : y = x ∨ y = !x := by
  cases x <;> cases y <;> simp

@[simp] theorem set_side_self (G : Pair) (x : Bool) (E : Endpoint) (d : SocketAddr → Option ℕ) :
    (G.set x E d).side x = E := Function.update_self _ _ _

@[simp] theorem set_side_not (G : Pair) (x : Bool) (E : Endpoint) (d : SocketAddr → Option ℕ) :
    (G.set x E d).side (!x) = G.side (!x) := Function.update_of_ne (by simp) _ _

@[simp] theorem set_dialed_self (G : Pair) (x : Bool) (E : Endpoint) (d : SocketAddr → Option ℕ) :
    (G.set x E d).dialed x = d := Function.update_self _ _ _

@[simp] theorem set_dialed_not (G : Pair) (x : Bool) (E : Endpoint) (d : SocketAddr → Option ℕ) :
    (G.set x E d).dialed (!x) = G.dialed (!x) := Function.update_of_ne (by simp) _ _

@[simp] theorem set_half_self (G : Pair) (x : Bool) (E : Endpoint) (d : SocketAddr → Option ℕ) (a : SocketAddr) :
    (G.set x E d).half x a = E.half d a := by
  simp [half]

@[simp] theorem set_half_not (G : Pair) (x : Bool) (E : Endpoint) (d : SocketAddr → Option ℕ) (a : SocketAddr) :
    (G.set x E d).half (!x) a = G.half (!x) a := by
  simp [half]

theorem Concord.init : Concord Pair.init where
  proper _ := .init
  stream _ := List.nil_prefix
  count _ _ := rfl
  told _ _ := by
    left
    constructor
    · rfl
    · rfl

theorem Concord.set (h : G.Concord) (hp : E.Proper d) (hs : E.shared.consumed <+: plain (G.side !x).wire)
    (hw : (G.side x).wire <+: E.wire)
    (hc : ∀ a, (E.shared.deeds a).length = (zeros a ((G.side !x).wire.take E.shared.consumed.length)).length)
    (ha : ∀ a, E.half d a = G.half x a ∨ Acts (G.half x a) (G.half (!x) a) (E.half d a)) :
    (G.set x E d).Concord := by
  have htold : ∀ a, Rendezvous.Told (E.half d a) (G.half (!x) a) := by
    intro a
    rcases ha a with heq | hacts
    · rw [heq]
      exact h.told x a
    · exact (h.told x a).acts hacts
  have hother : (G.side !x).shared.consumed <+: plain (G.side x).wire := by
    have hold := h.stream (!x)
    rwa [Bool.not_not] at hold
  constructor
  case proper =>
    intro y
    rcases eq_or_not x y with rfl | rfl
    · simpa using hp
    · simpa using h.proper (!x)
  case stream =>
    intro y
    rcases eq_or_not x y with rfl | rfl
    · simpa using hs
    · have hgrown : plain (G.side x).wire <+: plain E.wire := hw.map _
      simpa using hother.trans hgrown
  case count =>
    intro y a
    rcases eq_or_not x y with rfl | rfl
    · simpa using hc a
    · have hold := h.count (!x) a
      have hle : (G.side !x).shared.consumed.length ≤ (G.side x).wire.length := by
        have hlen := hother.length_le
        rwa [plain, List.length_map] at hlen
      obtain ⟨new, hnew⟩ := hw
      have htake : E.wire.take (G.side !x).shared.consumed.length =
          (G.side x).wire.take (G.side !x).shared.consumed.length := by
        rw [← hnew, List.take_append_of_le_length hle]
      rw [Bool.not_not] at hold
      simp only [set_side_not, Bool.not_not, set_side_self]
      rw [htake]
      exact hold
  case told =>
    intro y a
    rcases eq_or_not x y with rfl | rfl
    · simpa using htold a
    · simpa using (htold a).symm

theorem zeros_take (a : SocketAddr) (w : List (Mark ℕ)) (n : ℕ) : zeros a (w.take n) <+: zeros a w := by
  have hsplit := zerosFrom_append (.header []) (w.take n) (w.drop n)
  rw [List.take_append_drop] at hsplit
  unfold zeros
  rw [hsplit, List.filter_append, List.map_append]
  exact List.prefix_append _ _

theorem one_le_count {l : List Signal} {a : SocketAddr} (h : Signal.zero a ∈ l) : 1 ≤ (emptied l).count a := by
  refine List.one_le_count_iff.mpr ?_
  exact List.mem_filterMap.mpr ⟨.zero a, h, rfl⟩

theorem Concord.move (h : G.Concord) {m : Move} (hm : (G.side x).shared.Permits m) (hlive : m ≠ .disconnect)
    (hfed : m.Fed) (hread : ((G.side x).shared.perform m).consumed <+: plain (G.side !x).wire)
    (honce : ∀ a alloc, m = .add a alloc → G.dialed x a = none) (hheed : G.Heeds x (.move m)) :
    (G.set x ((G.side x).after m) ((G.side x).dials m (G.dialed x))).Concord := by
  have hp := h.proper x
  have hcoh := hp.tidy.exact.coherent
  have hzeros := fun a => hp.aligned.length_zeros hcoh hm.1 hread a
  have hdeeds := fun a => hcoh.length_deeds hm.1 hp.live hfed a
  refine h.set (hp.after hm hlive hfed honce) ?_ ?_ ?_ ?_
  · rw [Endpoint.after_shared]
    exact hread
  · rw [Endpoint.after_wire]
  · intro a
    have hz := hzeros a
    have hd : (((G.side x).shared.perform m).deeds a).length =
        ((G.side x).shared.deeds a).length + (emptied ((G.side x).shared.said m)).count a := hdeeds a
    rw [Endpoint.after_shared, hd, hz, h.count x a]
  · intro a
    refine hp.tidy.acts_after hm.1 hp.live hfed ?_ ?_
    · intro hin
      have hle := (zeros_take a (G.side !x).wire ((G.side x).shared.perform m).consumed.length).length_le
      have hone := one_le_count hin
      have hz := hzeros a
      rw [h.count x a]
      show _ < (zeros a (G.side !x).wire).length
      omega
    · rintro alloc rfl
      refine ⟨honce a alloc rfl, fun hk hd => ?_⟩
      obtain ⟨i, b, hb⟩ := hheed hk hd
      refine ⟨i, ?_⟩
      rw [Watched.under_eq_some.mpr hb]
      simp

theorem Concord.call (h : G.Concord) {i : ℕ} {op : WriteOp} {a : SocketAddr} {c : Conn} {r : Outcome}
    (hw : (G.side x).writers i = some ⟨a, .ret c r⟩) (hop : r.permits op) (hheed : G.Heeds x (.call i op)) :
    (G.set x ((G.side x).setWriter i ⟨a, op.body c⟩) (G.dialed x)).Concord :=
  h.set ((h.proper x).call hw hop (hheed _ hw)) (h.stream x) List.prefix_rfl (h.count x) fun _ => Or.inl rfl

theorem Concord.answer (h : G.Concord) {i : ℕ} {a : SocketAddr} {c : Conn} {q : WriteQuery}
    {k : WriteResp q → Prog WriteQuery WriteResp Conn Outcome} (hw : (G.side x).writers i = some ⟨a, .ask c q k⟩)
    (r : WriteResp q) (hr : Smooth q r) (hl : granted ⟨q, r⟩ = true → (G.side x).Unlocked)
    (hheed : G.Heeds x (.answer i ⟨q, r⟩)) :
    (G.set x ((G.side x).advance i ⟨a, k r⟩ c.origin (delivered q r)) (G.dialed x)).Concord := by
  have hp := (h.proper x).answer hw r hr hl
  refine h.set hp (h.stream x) (List.prefix_append _ _) (h.count x) fun b => ?_
  have ha : (Writer.mk a (k r)).addr = a := rfl
  refine (h.proper x).acts_advance hp hw ha b ?_
  rintro ho rfl hd
  exact hheed _ hw ho hd

/-- Whatever happens at a side, the two agree. -/
theorem Concord.step {act : Act} (h : G.Concord) (hheed : G.Heeds x act) (hs : G.Step x act G') : G'.Concord := by
  cases hs with
  | move m hm hlive hfed hread honce => exact h.move hm hlive hfed hread honce hheed
  | call i op hw hop => exact h.call hw hop hheed
  | answer i hw r hr hl => exact h.answer hw r hr hl hheed

theorem Concord.agreed (h : G.Concord) (x : Bool) : G.Agreed x where
  frames a := by
    have hagrees := (h.told x a).agrees
    have hlen : (G.half x a).deeds.length =
        (zeros a ((G.side !x).wire.take (G.side x).shared.consumed.length)).length := h.count x a
    unfold Rendezvous.Agrees at hagrees
    rw [hlen] at hagrees
    have hsent : (G.half (!x) a).sent = zeros a (G.side !x).wire := rfl
    rw [hsent, ← List.prefix_iff_eq_take.mp (zeros_take a _ _)] at hagrees
    exact hagrees
  accepted a j hj := by
    refine (h.proper x).heard a j ?_
    obtain ⟨e, he, hdeed⟩ := List.mem_filterMap.mp hj
    rw [SharedReader.openings_eq_traffic]
    refine List.mem_filterMap.mpr ⟨e, he, ?_⟩
    cases e with
    | opened b id =>
      obtain ⟨rfl, rfl⟩ : b = a ∧ id = j := by simpa [Event.deed] using hdeed
      rfl
    | closed b id => simp [Event.deed] at hdeed
    | _ => cases hdeed
  sent := (h.proper x).zeros.2

/-- In every run in which a side that adds an address of the other lets the connection of the other
end first, and no connection is dropped inside a frame, every frame without payload is taken for
what it is. -/
theorem opening_and_closing_agree (h : Heedful init G) (x : Bool) : G.Agreed x := by
  have hconcord : G.Concord := by
    induction h with
    | refl => exact .init
    | tail _ hs ih =>
      obtain ⟨y, act, hheed, hstep⟩ := hs
      exact ih.step hheed hstep
  exact hconcord.agreed x

end

theorem Heedful.move {G G' : Pair} (x : Bool) (m : Move) (hm : (G.side x).shared.Permits m) (hlive : m ≠ .disconnect)
    (hfed : m.Fed) (hread : ((G.side x).shared.perform m).consumed <+: plain (G.side !x).wire)
    (honce : ∀ a alloc, m = .add a alloc → G.dialed x a = none) (hheed : G.Heeds x (.move m))
    (h : Heedful (G.set x ((G.side x).after m) ((G.side x).dials m (G.dialed x))) G') : Heedful G G' :=
  .head ⟨x, _, hheed, .move m hm hlive hfed hread honce⟩ h

theorem Heedful.call {G G' : Pair} (x : Bool) (i : ℕ) (op : WriteOp) {a : SocketAddr} {c : Conn} {r : Outcome}
    (hw : (G.side x).writers i = some ⟨a, .ret c r⟩) (hop : r.permits op) (hd : op ≠ .drop)
    (h : Heedful (G.set x ((G.side x).setWriter i ⟨a, op.body c⟩) (G.dialed x)) G') : Heedful G G' :=
  .head ⟨x, .call i op, fun _ _ hdrop => absurd hdrop hd, .call i op hw hop⟩ h

theorem Heedful.answer {G G' : Pair} (x : Bool) (i : ℕ) (y : Sigma WriteResp) {a : SocketAddr} {c : Conn}
    {k : WriteResp y.1 → Prog WriteQuery WriteResp Conn Outcome}
    (hw : (G.side x).writers i = some ⟨a, .ask c y.1 k⟩) (hr : Smooth y.1 y.2)
    (hl : granted y = true → (G.side x).Unlocked)
    (hheed : c.origin = .handshake → G.dialed (!x) a ≠ none →
      ∃ j v, (G.side x).writers j = some v ∧ v.addr = a ∧ Concludes v.prog)
    (h : Heedful (G.set x ((G.side x).advance i ⟨a, k y.2⟩ c.origin (delivered y.1 y.2)) (G.dialed x)) G') :
    Heedful G G' := by
  refine .head ⟨x, .answer i y, fun w hw' => ?_, .answer i hw y.2 hr hl⟩ h
  obtain rfl := Option.some.inj (hw.symm.trans hw')
  exact hheed

/-- The first side adds an address and shuts its connection down, the second accepts that, shuts it
down as well and adds the address itself. -/
theorem opening_and_closing_agree_again :
    ∃ G : Pair, Heedful init G ∧
      zeros .unspecified ((G.side false).wire.take (G.side true).shared.consumed.length) = [(0, .eof), (1, .handshake)] ∧
      (G.side true).shared.deeds .unspecified = [.closed 0, .opened 1] ∧ G.Agreed true := by
  have hrun : ∃ G : Pair, Heedful init G ∧
      zeros .unspecified ((G.side false).wire.take (G.side true).shared.consumed.length) = [(0, .eof), (1, .handshake)] ∧
      (G.side true).shared.deeds .unspecified = [.closed 0, .opened 1] := by
    refine ⟨_,
      .move true (.add .unspecified true) ⟨trivial, nofun⟩ nofun rfl List.nil_prefix (fun _ _ _ => rfl)
        (fun _ hd => absurd rfl hd) <|
      .answer true 0 ⟨.awaitLock false, ()⟩ rfl trivial (fun _ => Endpoint.unlocked_of_two rfl rfl fun _ => rfl) nofun <|
      .answer true 0 ⟨.awaitWrite (frame .unspecified []), .ok 20⟩ rfl ⟨by decide, by decide⟩ nofun
        (fun _ hd => absurd rfl hd) <|
      .move false (.once .noop (.bytes (frame .unspecified [])))
        ⟨SharedReader.Within.bytes (n := 20) rfl (by decide), nofun⟩ nofun rfl ⟨[], rfl⟩ nofun trivial <|
      .move false (.once .noop (.bytes [])) ⟨nofun, nofun⟩ nofun rfl ⟨[], rfl⟩ nofun trivial <|
      .move false (.accept 0 false .noop) ⟨trivial, fun _ => rfl⟩ nofun trivial ⟨[], rfl⟩ nofun trivial <|
      .call true 0 (.shutdown .noop) rfl ⟨nofun, nofun, nofun⟩ nofun <|
      .answer true 0 ⟨.tryLock, true⟩ rfl trivial (fun _ => Endpoint.unlocked_of_two rfl rfl fun _ => rfl) nofun <|
      .answer true 0 ⟨.write (frame .unspecified []), .ready (.ok 20)⟩ rfl ⟨by decide, by decide⟩ nofun nofun <|
      .move false (.once .noop (.bytes (frame .unspecified [])))
        ⟨SharedReader.Within.bytes (n := 20) rfl (by decide), nofun⟩ nofun rfl ⟨[], rfl⟩ nofun trivial <|
      .call false 0 (.shutdown .noop) rfl ⟨trivial, nofun, nofun⟩ nofun <|
      .answer false 0 ⟨.tryLock, true⟩ rfl trivial (fun _ => Endpoint.unlocked_of_two rfl rfl fun _ => rfl) nofun <|
      .answer false 0 ⟨.write (frame .unspecified []), .ready (.ok 20)⟩ rfl ⟨by decide, by decide⟩ nofun nofun <|
      .move false (.add .unspecified true) ⟨trivial, nofun⟩ nofun rfl ⟨[], rfl⟩ (fun _ _ _ => rfl)
        (fun _ _ => ⟨0, true, rfl⟩) <|
      .answer false 1 ⟨.awaitLock false, ()⟩ rfl trivial (fun _ => Endpoint.unlocked_of_two rfl rfl fun _ => rfl) nofun <|
      .answer false 1 ⟨.awaitWrite (frame .unspecified []), .ok 20⟩ rfl ⟨by decide, by decide⟩ nofun
        (fun _ _ => ⟨0, _, rfl, rfl, Or.inl rfl⟩) <|
      .move true (.once .noop (.bytes (frame .unspecified [])))
        ⟨SharedReader.Within.bytes (n := 20) rfl (by decide), nofun⟩ nofun rfl ⟨_, rfl⟩ nofun trivial <|
      .move true (.once .noop (.bytes (frame .unspecified [])))
        ⟨SharedReader.Within.bytes (n := 20) rfl (by decide), nofun⟩ nofun rfl ⟨[], rfl⟩ nofun trivial .refl, ?_, ?_⟩
    · decide +kernel
    · rfl
  obtain ⟨G, hG, hz, hd⟩ := hrun
  exact ⟨G, hG, hz, hd, opening_and_closing_agree hG true⟩

/-- Both sides add one address, and the handshakes cross: each is taken for a close. -/
theorem handshakes_cross :
    ∃ G : Pair, Reaches init G ∧
      zeros .unspecified ((G.side false).wire.take (G.side true).shared.consumed.length) = [(0, .handshake)] ∧
      (G.side true).shared.deeds .unspecified = [.closed 0] ∧ ¬ G.Agreed true := by
  have hrun : ∃ G : Pair, Reaches init G ∧
      zeros .unspecified ((G.side false).wire.take (G.side true).shared.consumed.length) = [(0, .handshake)] ∧
      (G.side true).shared.deeds .unspecified = [.closed 0] := by
    refine ⟨_,
      .head ⟨true, _, .move (.add .unspecified true) ⟨trivial, nofun⟩ nofun rfl List.nil_prefix fun _ _ _ => rfl⟩ <|
      .head ⟨false, _, .move (.add .unspecified true) ⟨trivial, nofun⟩ nofun rfl List.nil_prefix fun _ _ _ => rfl⟩ <|
      .head ⟨false, _, .answer 0 (q := .awaitLock false) rfl () trivial
        fun _ => Endpoint.unlocked_of_two rfl rfl fun _ => rfl⟩ <|
      .head ⟨false, _, .answer 0 (q := .awaitWrite (frame .unspecified [])) rfl (.ok 20) ⟨by decide, by decide⟩ nofun⟩ <|
      .head ⟨true, _, .move (.once .noop (.bytes (frame .unspecified [])))
        ⟨SharedReader.Within.bytes (n := 20) rfl (by decide), nofun⟩ nofun rfl ⟨[], rfl⟩ nofun⟩ .refl, ?_, ?_⟩
    · decide +kernel
    · rfl
  obtain ⟨G, hG, hz, hd⟩ := hrun
  refine ⟨G, hG, hz, hd, fun h => ?_⟩
  have hframes := h.frames .unspecified
  rw [hd] at hframes
  have hz' : zeros .unspecified ((G.side !true).wire.take (G.side true).shared.consumed.length) = [(0, .handshake)] := hz
  rw [hz'] at hframes
  cases hframes with
  | cons hright _ =>
    rcases hright with ⟨-, j, hj⟩ | ⟨ho, -⟩
    · cases hj
    · cases ho

end Pair

end VtMuxer
