import VtMuxer.Mux.Streams
import VtMuxer.Write.Kept

/-! The frames without payload in a stream, each with the connection that sent it. They are the
handshakes and the final frames, as long as nobody is dropped inside a frame. -/
namespace VtMuxer
open Interaction

def Signal.zero? : Signal → Option SocketAddr
  | zero a => some a
  | data _ _ => none

def emptied (l : List Signal) : List SocketAddr := l.filterMap Signal.zero?

section
variable {ι : Type}

/-- The frames without payload that end in the stream, each with the mark of its last byte. -/
def zerosFrom (p : Position) : List (Mark ι) → List (SocketAddr × ι × Origin)
  | [] => []
  | b :: w => ((emptied (p.next b.2.2).2).map fun a => (a, b.1, b.2.1)) ++ zerosFrom (p.next b.2.2).1 w

def zeros (a : SocketAddr) (w : List (Mark ι)) : List (ι × Origin) :=
  ((zerosFrom (.header []) w).filter fun x => x.1 = a).map Prod.snd

@[simp] theorem emptied_append (l k : List Signal) : emptied (l ++ k) = emptied l ++ emptied k := by
  simp [emptied]

theorem emptied_data (a : SocketAddr) (p : List UInt8) : emptied (p.map (.data a)) = [] := by
  simp [emptied, Signal.zero?]

theorem emptied_spoken (a : SocketAddr) (p : List UInt8) : emptied (spoken a p) = if p = [] then [a] else [] := by
  unfold spoken
  split
  · rfl
  · exact emptied_data a p

theorem zerosFrom_append (p : Position) (v w : List (Mark ι)) :
    zerosFrom p (v ++ w) = zerosFrom p v ++ zerosFrom (p.scan (plain v)).1 w := by
  induction v generalizing p with
  | nil => rfl
  | cons b v ih =>
    have hplain : plain (b :: v) = b.2.2 :: plain v := rfl
    rw [List.cons_append, zerosFrom, zerosFrom, ih, List.append_assoc, hplain, Position.scan]

theorem zerosFrom_fst (p : Position) (w : List (Mark ι)) :
    (zerosFrom p w).map Prod.fst = emptied (p.scan (plain w)).2 := by
  induction w generalizing p with
  | nil => rfl
  | cons b w ih =>
    have hplain : plain (b :: w) = b.2.2 :: plain w := rfl
    rw [zerosFrom, List.map_append, ih, hplain, Position.scan, emptied_append]
    simp [Function.comp_def]

theorem zerosFrom_stamp (p : Position) (i : ι) (o : Origin) (bs : List UInt8) :
    zerosFrom p (stamp i o bs) = (emptied (p.scan bs).2).map fun a => (a, i, o) := by
  induction bs generalizing p with
  | nil => rfl
  | cons b bs ih =>
    have hstamp : stamp i o (b :: bs) = (i, o, b) :: stamp i o bs := rfl
    rw [hstamp, zerosFrom, ih, Position.scan, emptied_append, List.map_append]

theorem plain_stamp (i : ι) (o : Origin) (bs : List UInt8) : plain (stamp i o bs) = bs := by
  simp [plain, stamp, Function.comp_def]

theorem plain_append (v w : List (Mark ι)) : plain (v ++ w) = plain v ++ plain w := by
  simp [plain]

theorem zerosFrom_stamps {sockets : ι → SocketAddr} {segs : List (ι × Origin × List UInt8)}
    (h : ∀ s ∈ segs, ∃ p : List UInt8, p.length ≤ 65535 ∧ s.2.2 = frame (sockets s.1) p) :
    zerosFrom (.header []) (stamps segs) =
      (segs.filter fun s => s.2.2.drop 20 = []).map fun s => (sockets s.1, s.1, s.2.1) := by
  induction segs with
  | nil => rfl
  | cons s segs ih =>
    obtain ⟨p, hp, hs⟩ := h s (by simp)
    have hrest := ih fun x hx => h x (by simp [hx])
    have hcons : stamps (s :: segs) = stamp s.1 s.2.1 s.2.2 ++ stamps segs := rfl
    rw [hcons, zerosFrom_append, plain_stamp, zerosFrom_stamp, hs, scan_frame _ hp, hrest, emptied_spoken,
      List.filter_cons, hs, drop_frame]
    by_cases hnil : p = []
    · simp [hnil]
    · simp [hnil]

/-- A frame that is not complete says nothing of a frame without payload. -/
theorem emptied_unfinished (a : SocketAddr) {p : List UInt8} {w : ℕ} (hp : p.length ≤ 65535) (hw : w < 20 + p.length) :
    emptied ((Position.header []).scan ((frame a p).take w)).2 = [] := by
  by_cases hnil : p = []
  · subst hnil
    have hshort : ([] : List UInt8).length + ((frame a []).take w).length < 20 := by
      rw [List.length_take, List.length_nil]
      rw [List.length_nil] at hw
      omega
    rw [Position.scan_short hshort]
    rfl
  · have hall := Position.scan_append (.header []) ((frame a p).take w) ((frame a p).drop w)
    rw [List.take_append_drop, scan_frame a hp] at hall
    have hnone : emptied (spoken a p) = [] := by rw [emptied_spoken, if_neg hnil]
    rw [(Prod.mk.inj hall).2, emptied_append] at hnone
    exact (List.append_eq_nil_iff.mp hnone).1

end

def Concludes (p : Prog WriteQuery WriteResp Conn Outcome) : Prop :=
  p.mem.inner.state = .shutdown .done ∨ ∃ c, p = .ret c .dropped ∧ c.orderly

/-- What the connection has sent without payload. -/
def Announced (p : Prog WriteQuery WriteResp Conn Outcome) (l : List Origin) : Prop :=
  ∃ closed : Bool, (closed = true ↔ Concludes p) ∧
    l = (if p.mem.opened then [.handshake] else []) ++ if closed then [.eof] else []

/-- Where a connection stands that was not dropped inside a frame. -/
structure Unbroken (p : Prog WriteQuery WriteResp Conn Outcome) (g : Sent) (closed : Bool) (ps : List (List UInt8)) :
    Prop where
  sends : Sends p.mem g closed ps
  closed : closed = true ↔ Concludes p
  free : p.mem.holds = false → g.part = []
  part : g.part ≠ [] → ∃ q w, q.length ≤ 65535 ∧ w < 20 + q.length ∧ g.part = (frame p.mem.addr q).take w

section
variable {c : Conn} {g : Sent} {p : Prog WriteQuery WriteResp Conn Outcome}

theorem Whole.unbroken {closed : Bool} {ps : List (List UInt8)} (h : Whole p.mem g closed ps)
    (hc : closed = true ↔ Concludes p) : Unbroken p g closed ps where
  sends := h.sends
  closed := hc
  free := h.free
  part hne := by
    obtain ⟨q, w, hq, -, hw, hpart, -⟩ := h.part hne
    exact ⟨q, w, hq, hw, hpart⟩

/-- Short of a drop that has ended, only a complete shutdown has sent the final frame. -/
theorem concludes_iff (hp : ∀ c, p ≠ .ret c .dropped) : Concludes p ↔ p.mem.inner.state = .shutdown .done := by
  constructor
  · rintro (hs | ⟨c, hc, -⟩)
    · exact hs
    · exact absurd hc (hp c)
  · exact Or.inl

theorem Alive.unbroken (h : Alive p.mem g) (hp : ∀ c, p ≠ .ret c .dropped) :
    ∃ closed ps, Unbroken p g closed ps := by
  obtain ⟨closed, ps, hw, hst⟩ := h.whole
  refine ⟨closed, ps, hw.unbroken ?_⟩
  rw [concludes_iff hp]
  constructor
  · rintro rfl
    match hs : p.mem.inner.state with
    | .shutdown .done => rfl
    | .writing _ .buffering | .writing _ (.flushing _) | .shutdown .waitingLock | .shutdown (.flushing _) |
      .shutdown (.writing _) | .shutdown .error | .poisoned => simp [hs, Stands] at hst
  · intro hs
    rw [hs] at hst
    exact hst.1

theorem Whole.open {ps : List (List UInt8)} (h : Whole p.mem g false ps) (hp : ∀ c, p ≠ .ret c .dropped)
    (hs : p.mem.inner.state ≠ .shutdown .done) : ∃ closed ps, Unbroken p g closed ps := by
  refine ⟨false, ps, h.unbroken ?_⟩
  rw [concludes_iff hp]
  simp [hs]

theorem Awaits.unbroken {o : Origin} {q : List UInt8} {ps : List (List UInt8)}
    (h : Awaits p.mem g o (frame p.mem.addr q)) (hq : q.length ≤ 65535) (hse : Sends p.mem g false ps)
    (hc : ¬ Concludes p) : Unbroken p g false ps := by
  obtain ⟨rest, ht, hr, hpr, -⟩ := h
  refine ⟨hse, by simp [hc], ?_, fun _ => ⟨q, g.part.length, hq, ?_, ?_⟩⟩
  · intro hn
    simp [Conn.holds, ht] at hn
  · have hlen := congrArg List.length hpr
    have hr' := List.length_pos_iff.mpr hr
    rw [List.length_append, length_frame] at hlen
    omega
  · rw [← hpr, List.take_left']
    rfl

/-- A drop outside of a frame leaves whole frames. -/
theorem Parts.unbroken (h : Parts c g) (hu : Untorn c.last) :
    ∃ closed ps, Unbroken (.ret c .dropped) g closed ps := by
  obtain ⟨⟨ht, hs, closed, ps, hse, hgood, hbad⟩, hpart⟩ := h
  have hnil : g.part = [] := by
    by_contra hne
    obtain ⟨st, hl, hw⟩ := hpart hne
    exact hw (hu st hl)
  have hcon : Concludes (.ret c .dropped) ↔ c.orderly := by
    constructor
    · rintro (hd | ⟨c', hc', ho⟩)
      · have hd' : c.inner.state = .shutdown .done := hd
        rw [hs] at hd'
        cases hd'
      · cases hc'
        exact ho
    · exact fun ho => Or.inr ⟨c, rfl, ho⟩
  refine ⟨closed, ps, hse, ?_, fun _ => hnil, fun hne => absurd hnil hne⟩
  rw [hcon]
  constructor
  · intro hc
    by_contra hn
    rw [(hbad hn).1] at hc
    cases hc
  · exact fun ho => (hgood ho).1

/-- Wherever a connection stands that was not dropped inside a frame. -/
theorem unbroken_of_wp (h : p.wp (framing True) (Leaves True) g) (hu : (∀ c e, p ≠ .fault c e) → Untorn p.mem.last) :
    ∃ closed ps, Unbroken p g closed ps := by
  cases p with
  | ret c a =>
    have hal : Alive c g → a ≠ .dropped → ∃ closed ps, Unbroken (.ret c a) g closed ps := by
      intro ha hne
      refine Alive.unbroken (p := .ret c a) ha fun c' hc' => hne ?_
      cases hc'
      rfl
    obtain ⟨hidle, hparts⟩ := h
    unfold Idle at hidle
    split at hidle
    · exact hal hidle.1 (by simp)
    · exact (hparts rfl).unbroken (hu (by simp))
    · exact hal hidle.1 (by simp)
    · exact hal hidle.1 (by simp)
    · rename_i hnd _ _
      exact hal hidle hnd
  | ask c q k =>
    have hp : ∀ c', (.ask c q k : Prog WriteQuery WriteResp Conn Outcome) ≠ .ret c' .dropped := by simp
    have hopen : c.inner.state ≠ .shutdown .done → ¬ Concludes (.ask c q k) := by
      intro hs hc
      exact hs ((concludes_iff hp).mp hc)
    have hinv := h.1
    cases q with
    | tryLock => exact Alive.unbroken (p := .ask c .tryLock k) hinv hp
    | pollFut => exact Alive.unbroken (p := .ask c .pollFut k) hinv hp
    | write bytes => exact Alive.unbroken (p := .ask c (.write bytes) k) hinv.1 hp
    | flush =>
      obtain ⟨ps, hw⟩ := Flushed.whole hinv
      obtain ⟨-, ⟨_, _, hs⟩, -⟩ := hinv
      exact hw.open (p := .ask c .flush k) hp (by simp [Prog.mem, hs])
    | awaitLock queued =>
      rcases hinv with hf | ⟨-, -, hs, -, hpart, ps, hse⟩
      · obtain ⟨-, ⟨_, hs⟩, -⟩ := id hf
        exact hf.whole.open (p := .ask c (.awaitLock queued) k) hp (by simp [Prog.mem, hs])
      · exact ⟨false, ps, hse, by simp [hopen (by simp [hs])], fun _ => hpart, fun hne => absurd hpart hne⟩
    | awaitWrite bytes =>
      rcases hinv with ho | ⟨-, hs, -, ⟨ps, hse⟩, hfin⟩
      · obtain ⟨-, -, ⟨_, hs⟩, -⟩ := id ho
        have hs' : c.inner.state ≠ .shutdown .done := by
          have hsame : (c.setTask none).inner.state = c.inner.state := rfl
          rw [← hsame, hs]
          simp
        exact ho.whole.open (p := .ask c (.awaitWrite bytes) k) hp hs'
      · have hn := hopen (by simp [hs])
        rcases hfin with ⟨q, -, hq, ha⟩ | ha
        · exact ⟨false, ps, ha.unbroken (p := .ask c (.awaitWrite bytes) k) hq hse hn⟩
        · exact ⟨false, ps, ha.unbroken (p := .ask c (.awaitWrite bytes) k) (by simp) hse hn⟩
  | fault c e => exact h.elim

/-- The frames of a connection without payload go along its course. -/
theorem Announced.along {dialed : Bool} {l : List Origin} (h : Announced p l) (ht : Tamed dialed p.mem) :
    l <+: if dialed then [.handshake, .eof] else [.eof] := by
  obtain ⟨closed, hclosed, rfl⟩ := h
  rcases ht with ⟨hopened, -⟩ | ⟨rfl, hdone, hlast⟩
  · rw [hopened]
    cases dialed <;> cases closed <;> simp
  · have hnot : ¬ Concludes p := by
      rintro (hs | ⟨c, rfl, ⟨k, st, hl⟩ | hl⟩)
      · exact hdone hs
      · exact absurd (hl.symm.trans hlast) (by simp)
      · exact absurd (hl.symm.trans hlast) (by simp)
    obtain rfl : closed = false := by simpa [hnot] using hclosed
    cases p.mem.opened <;> simp

end

section
variable {ι : Type} [DecidableEq ι] {sockets : ι → SocketAddr} {P : Writers ι}

theorem history_zeros (a : SocketAddr) (opened closed : Bool) {ps : List (List UInt8)} (hps : ∀ p ∈ ps, p ≠ []) :
    ((history a opened closed ps).filter fun m => m.2.drop 20 = []).map Prod.fst =
      (if opened then [.handshake] else []) ++ if closed then [.eof] else [] := by
  have hdata : (ps.map fun p => (Origin.data, frame a p)).filter (fun m => m.2.drop 20 = []) = [] := by
    rw [List.filter_eq_nil_iff]
    intro m hm
    obtain ⟨p, hp, rfl⟩ := List.mem_map.mp hm
    simpa [drop_frame] using hps p hp
  unfold history
  rw [List.filter_append, List.filter_append, hdata]
  cases opened <;> cases closed <;> simp

theorem threads_ne_fault {ops : WriteOp → Prop} (h : (writers ι ops).Reaches (Writers.init sockets) P) (i : ι)
    (c : Conn) (e : Fault) : P.threads i ≠ .fault c e := by
  intro hf
  obtain ⟨g, hwp, -⟩ := writers_hold h
  have hi := hwp i
  rw [hf] at hi
  exact hi

/-- The frames without payload in the stream of connections none of which was dropped inside a
frame: each has the address of its connection, and they are its handshake and its final frame. -/
theorem zeros_of_reaches (h : (writers ι fun _ => True).Reaches (Writers.init sockets) P)
    (hu : ∀ i, (∀ c e, P.threads i ≠ .fault c e) → Untorn (P.mems i).last) :
    (∀ x ∈ zerosFrom (.header []) P.world, x.1 = sockets x.2.1) ∧
    ∀ i, (P.mems i).addr = sockets i ∧
      Announced (P.threads i) (((zerosFrom (.header []) P.world).filter fun x => x.2.1 = i).map fun x => x.2.2) := by
  obtain ⟨g, hwp, segs, tail, hl⟩ := writers_hold h
  have hend : ∀ i, ∃ closed ps, Unbroken (P.threads i) (g i) closed ps := fun i => unbroken_of_wp (hwp i) (hu i)
  choose closed ps hb using hend
  have hsock : ∀ i, (P.mems i).addr = sockets i := fun i => (hb i).sends.socket.trans (hl.socket i)
  have hmsg : ∀ i, messagesOf i segs = history (sockets i) (P.mems i).opened (closed i) (ps i) := by
    intro i
    have hshown : (P.mems i).holds = true ∨ (g i).part = [] := by
      cases hh : (P.mems i).holds with
      | true => exact Or.inl rfl
      | false => exact Or.inr ((hb i).free hh)
    rw [hl.shown i, shown, if_pos hshown, (hb i).sends.done, ← hsock i]
    rfl
  have hseg : ∀ s ∈ segs, ∃ p : List UInt8, p.length ≤ 65535 ∧ s.2.2 = frame (sockets s.1) p := by
    intro s hs
    have hmem := mem_messagesOf hs
    rw [hmsg] at hmem
    obtain ⟨p, hp, ⟨hin, -⟩ | ⟨rfl, -⟩⟩ := mem_history hmem
    · exact ⟨p, ((hb s.1).sends.sizes p hin).2, hp⟩
    · exact ⟨[], by simp, hp⟩
  have htail : zerosFrom (.header []) tail = [] := by
    by_cases hex : ∃ j, (P.mems j).holds = true
    · obtain ⟨j, hj⟩ := hex
      rw [hl.held j hj, zerosFrom_stamp]
      by_cases hnil : (g j).part = []
      · rw [hnil]
        rfl
      · obtain ⟨q, w, hq, hw, hpart⟩ := (hb j).part hnil
        rw [hpart, emptied_unfinished _ hq hw]
        rfl
    · rw [hl.free fun j => by simpa using fun hh => hex ⟨j, hh⟩]
      rfl
  have hzeros : zerosFrom (.header []) P.world =
      (segs.filter fun s => s.2.2.drop 20 = []).map fun s => (sockets s.1, s.1, s.2.1) := by
    rw [hl.wire, zerosFrom_append, plain_stamps, scan_frames hseg, htail, List.append_nil, zerosFrom_stamps hseg]
  refine ⟨?_, fun i => ⟨hsock i, closed i, (hb i).closed, ?_⟩⟩
  · intro x hx
    rw [hzeros] at hx
    obtain ⟨s, -, rfl⟩ := List.mem_map.mp hx
    rfl
  · have hown : (((zerosFrom (.header []) P.world).filter fun x => x.2.1 = i).map fun x => x.2.2) =
        ((messagesOf i segs).filter fun m => m.2.drop 20 = []).map Prod.fst := by
      rw [hzeros, messagesOf]
      simp only [List.filter_map, List.map_map, List.filter_filter, Function.comp_def]
      congr 1
      refine List.filter_congr fun s _ => ?_
      rw [Bool.and_comm]
    rw [hown, hmsg i, history_zeros _ _ _ fun p hp => ((hb i).sends.sizes p hp).1]
    rfl

end

end VtMuxer
