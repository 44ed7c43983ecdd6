import VtMuxer.Write.Ledger
import VtMuxer.Mux.Rendezvous
import VtMuxer.Mux.Zeros

/-! The payload in a stream, byte by byte, with the connection that sent it and the number of
frames without payload that its address has had before. -/
namespace VtMuxer
open Interaction

variable {ι : Type}

/-- What a stream says, each time with the mark of the byte that says it. -/
def talkFrom (p : Position) : List (Mark ι) → List (Signal × ι × Origin)
  | [] => []
  | b :: w => ((p.next b.2.2).2.map fun g => (g, b.1, b.2.1)) ++ talkFrom (p.next b.2.2).1 w

def talk (w : List (Mark ι)) : List (Signal × ι × Origin) := talkFrom (.header []) w

/-- The frames without payload under `a`. -/
def ends (a : SocketAddr) (t : List (Signal × ι × Origin)) : List (ι × Origin) :=
  (t.filter fun x => x.1 = .zero a).map Prod.snd

/-- The payload under `a`: who sent it, after how many frames without payload under `a`, and what. -/
def voices (a : SocketAddr) (n : ℕ) : List (Signal × ι × Origin) → List (ι × ℕ × UInt8)
  | [] => []
  | (.data b v, i, _) :: t => if b = a then (i, n, v) :: voices a n t else voices a n t
  | (.zero b, _, _) :: t => voices a (if b = a then n + 1 else n) t

def inPhase (n : ℕ) (vs : List (ι × ℕ × UInt8)) : List UInt8 := (vs.filter fun v => v.2.1 = n).map fun v => v.2.2

def bySender [DecidableEq ι] (i : ι) (vs : List (ι × ℕ × UInt8)) : List UInt8 :=
  (vs.filter fun v => v.1 = i).map fun v => v.2.2

section
variable {a : SocketAddr} {t u : List (Signal × ι × Origin)} {n : ℕ}

theorem talkFrom_append (p : Position) (v w : List (Mark ι)) :
    talkFrom p (v ++ w) = talkFrom p v ++ talkFrom (p.scan (plain v)).1 w := by
  induction v generalizing p with
  | nil => rfl
  | cons b v ih =>
    rw [List.cons_append, talkFrom, talkFrom, ih, List.append_assoc]
    rfl

theorem talk_append (v w : List (Mark ι)) :
    talk (v ++ w) = talk v ++ talkFrom ((Position.header []).scan (plain v)).1 w :=
  talkFrom_append _ v w

theorem talkFrom_fst (p : Position) (w : List (Mark ι)) : (talkFrom p w).map Prod.fst = (p.scan (plain w)).2 := by
  induction w generalizing p with
  | nil => rfl
  | cons b w ih =>
    rw [talkFrom, List.map_append, ih, List.map_map]
    simp [Function.comp_def, plain, Position.scan]

theorem talkFrom_stamp (p : Position) (i : ι) (o : Origin) (bs : List UInt8) :
    talkFrom p (stamp i o bs) = (p.scan bs).2.map fun g => (g, i, o) := by
  induction bs generalizing p with
  | nil => rfl
  | cons b bs ih =>
    have hstamp : stamp i o (b :: bs) = (i, o, b) :: stamp i o bs := rfl
    rw [hstamp, talkFrom, ih, Position.scan, List.map_append]

@[simp] theorem ends_append (a : SocketAddr) (t u : List (Signal × ι × Origin)) :
    ends a (t ++ u) = ends a t ++ ends a u := by
  simp [ends]

/-- The frames without payload are those that the stream says. -/
theorem zerosFrom_eq (p : Position) (w : List (Mark ι)) :
    zerosFrom p w = (talkFrom p w).filterMap fun x => x.1.zero?.map fun a => (a, x.2) := by
  induction w generalizing p with
  | nil => rfl
  | cons b w ih =>
    rw [zerosFrom, talkFrom, List.filterMap_append, ih, emptied, List.map_filterMap, List.filterMap_map]
    rfl

theorem zeros_eq_ends (a : SocketAddr) (w : List (Mark ι)) : zeros a w = ends a (talk w) := by
  unfold zeros ends talk
  rw [zerosFrom_eq]
  induction talkFrom (.header []) w with
  | nil => rfl
  | cons x t ih =>
    obtain ⟨_ | b, y⟩ := x
    · simpa [Signal.zero?] using ih
    · by_cases hb : b = a
      · simpa [Signal.zero?, hb] using ih
      · simpa [Signal.zero?, hb] using ih

theorem voices_append (a : SocketAddr) (n : ℕ) (t u : List (Signal × ι × Origin)) :
    voices a n (t ++ u) = voices a n t ++ voices a (n + (ends a t).length) u := by
  induction t generalizing n with
  | nil => simp [voices, ends]
  | cons x t ih =>
    obtain ⟨⟨b, v⟩ | b, i, o⟩ := x
    · by_cases hb : b = a
      · simp [voices, ends, hb, ih]
      · simp [voices, ends, hb, ih]
    · by_cases hb : b = a
      · simp [voices, ends, hb, ih, Nat.add_assoc, Nat.add_comm 1]
      · simp [voices, ends, hb, ih]

/-- Where a byte of payload stands. -/
theorem exists_of_mem_voices {i : ι} {k : ℕ} {v : UInt8} (h : (i, k, v) ∈ voices a n t) :
    ∃ t₁ o t₂, t = t₁ ++ (.data a v, i, o) :: t₂ ∧ k = n + (ends a t₁).length := by
  induction t generalizing n with
  | nil => cases h
  | cons x t ih =>
    obtain ⟨⟨b, v'⟩ | b, j, o⟩ := x
    · rw [voices] at h
      split at h
      · rename_i hb
        subst hb
        rcases List.mem_cons.mp h with he | h
        · cases he
          exact ⟨[], o, t, rfl, rfl⟩
        · obtain ⟨t₁, o', t₂, rfl, hk⟩ := ih h
          exact ⟨(.data b v', j, o) :: t₁, o', t₂, rfl, by simpa [ends] using hk⟩
      · obtain ⟨t₁, o', t₂, rfl, hk⟩ := ih h
        exact ⟨(.data b v', j, o) :: t₁, o', t₂, rfl, by simpa [ends] using hk⟩
    · rw [voices] at h
      obtain ⟨t₁, o', t₂, rfl, hk⟩ := ih h
      refine ⟨(.zero b, j, o) :: t₁, o', t₂, rfl, ?_⟩
      by_cases hb : b = a
      · simp only [hb, if_true] at hk
        simp [ends, hb, hk]
        omega
      · simpa [ends, hb] using hk

theorem le_of_mem_voices {i : ι} {k : ℕ} {v : UInt8} (h : (i, k, v) ∈ voices a n t) :
    n ≤ k ∧ k ≤ n + (ends a t).length := by
  obtain ⟨t₁, o, t₂, rfl, rfl⟩ := exists_of_mem_voices h
  simp only [ends_append, List.length_append]
  omega

/-- A frame that is begun says its payload as far as it is there. -/
theorem scan_unfinished (a : SocketAddr) {p : List UInt8} {w : ℕ} (hp : p.length ≤ 65535) (hw : w < 20 + p.length) :
    ((Position.header []).scan ((frame a p).take w)).2 = (((frame a p).take w).drop 20).map (.data a) := by
  by_cases hshort : w < 20
  · have hlen : ([] : List UInt8).length + ((frame a p).take w).length < 20 := by
      rw [List.length_take, List.length_nil]
      omega
    rw [Position.scan_short hlen, List.drop_eq_nil_of_le (by simpa using hlen.le)]
    rfl
  · have h0 : 0 < p.length := by omega
    have hlen : (MuxFrameHeader.mk a (.new p.length)).len = p.length := NetworkOrderU16.get_new (by omega)
    have hhead : (Position.header []).scan (MuxFrameHeader.mk a (.new p.length)).bytes = (.payload a p.length, []) := by
      have hne : (MuxFrameHeader.mk a (.new p.length)).bytes ≠ [] := List.ne_nil_of_length_pos (by simp)
      rw [Position.scan_header hne (by simp), headerBy_frame, hlen, if_neg h0.ne']
      rfl
    have htake : (frame a p).take w = (MuxFrameHeader.mk a (.new p.length)).bytes ++ p.take (w - 20) := by
      rw [frame, List.take_append, MuxFrameHeader.length_bytes, List.take_of_length_le (by simp; omega)]
    have hle : (p.take (w - 20)).length ≤ p.length := by simp
    rw [htake, Position.scan_append, hhead, Position.scan_payload h0 hle]
    simp

theorem talk_stamps {sockets : ι → SocketAddr} {segs : List (ι × Origin × List UInt8)}
    (h : ∀ s ∈ segs, ∃ p : List UInt8, p.length ≤ 65535 ∧ s.2.2 = frame (sockets s.1) p) :
    talk (stamps segs) =
      segs.flatMap fun s => (spoken (sockets s.1) (s.2.2.drop 20)).map fun g => (g, s.1, s.2.1) := by
  unfold talk
  induction segs with
  | nil => rfl
  | cons s segs ih =>
    obtain ⟨p, hp, hs⟩ := h s (by simp)
    have hrest := ih fun x hx => h x (by simp [hx])
    have hcons : stamps (s :: segs) = stamp s.1 s.2.1 s.2.2 ++ stamps segs := rfl
    rw [hcons, talkFrom_append, plain_stamp, talkFrom_stamp, List.flatMap_cons, hs, scan_frame _ hp, hrest, drop_frame]

end

/-- What a drop has given up, once it is over. -/
def givenUp : Prog WriteQuery WriteResp Conn Outcome → List UInt8
  | .ret c .dropped => c.lost
  | _ => []

section
variable {c : Conn} {g : Sent} {p : Prog WriteQuery WriteResp Conn Outcome}

theorem Alive.settled (h : Alive c g) (hs : c.inner.state = .shutdown .done) : g.part = [] ∧ g.payload = c.pushed := by
  obtain ⟨closed, ps, hw, hst⟩ := h.whole
  rw [hs] at hst
  have hpay := hw.payload
  rw [Conn.unsent, hst.2.1, List.drop_nil, List.append_nil] at hpay
  exact ⟨hst.2.2, hpay⟩

/-- A connection that has sent its final frame has sent everything that it did not give up. -/
theorem Concludes.settled (hc : Concludes p)
    (h : p.wp ((framing True).also fun c g => g.payload <+: c.pushed) (fun c a g => Leaves True c a g ∧ Borne c a g) g) :
    g.part = [] ∧ g.payload ++ givenUp p = p.mem.pushed := by
  have hal : Alive p.mem g → givenUp p = [] → p.mem.inner.state = .shutdown .done →
      g.part = [] ∧ g.payload ++ givenUp p = p.mem.pushed := by
    intro ha hnil hs
    rw [hnil, List.append_nil]
    exact ha.settled hs
  cases p with
  | ret c a =>
    obtain ⟨⟨hidle, -⟩, -, hborne⟩ := h
    cases a with
    | dropped =>
      obtain ⟨-, hst, closed, ps, -, hgood, -⟩ := hidle.2
      have hor : c.orderly := by
        rcases hc with hs | ⟨c', hc', hor⟩
        · cases hst.symm.trans hs
        · cases hc'
          exact hor
      exact ⟨(hgood hor).2, (hborne rfl).1⟩
    | new => exact hal hidle.1 rfl ((concludes_iff (by simp)).mp hc)
    | handshake res => exact hal hidle.1 rfl ((concludes_iff (by simp)).mp hc)
    | write res => exact hal hidle rfl ((concludes_iff (by simp)).mp hc)
    | flush res => exact hal hidle rfl ((concludes_iff (by simp)).mp hc)
    | shutdown res => exact hal (hidle.alive (show Outcome.may _ (.flush .noop) from nofun)) rfl ((concludes_iff (by simp)).mp hc)
  | ask c q k =>
    have hs : c.inner.state = .shutdown .done := (concludes_iff (by simp)).mp hc
    have hinv : (framing True).inv c q g := h.1.1
    cases q with
    | tryLock => exact hal hinv rfl hs
    | pollFut => exact hal hinv rfl hs
    | write bytes => exact hal hinv.1 rfl hs
    | flush =>
      obtain ⟨-, ⟨_, _, hs'⟩, -⟩ := hinv
      cases hs.symm.trans hs'
    | awaitLock queued =>
      rcases hinv with ⟨-, ⟨_, hs'⟩, -⟩ | ⟨-, -, hs', -⟩ <;> cases hs.symm.trans hs'
    | awaitWrite bytes =>
      rcases hinv with ⟨-, -, ⟨_, hs'⟩, -⟩ | ⟨-, hs', -⟩ <;> cases hs.symm.trans hs'
  | fault c e => exact h.elim

theorem payload_of_wp
    (h : p.wp ((framing True).also fun c g => g.payload <+: c.pushed) (fun c a g => Leaves True c a g ∧ Borne c a g) g) :
    g.payload <+: p.mem.pushed := by
  cases p with
  | ret c a => exact h.2.1
  | ask c q k => exact h.1.2
  | fault c e => exact h.elim

end

/-- What the connection of address `a` says from its first byte to its last: it opens if it has
to, says its payload, and closes. -/
def discourse (a : SocketAddr) (opened closed : Bool) (said : List UInt8) : List Signal :=
  (if opened then [.zero a] else []) ++ said.map (.data a) ++ if closed then [.zero a] else []

/-- What the stream has of a connection: `said` is its payload there. -/
structure Discourse [DecidableEq ι] (p : Prog WriteQuery WriteResp Conn Outcome) (a : SocketAddr) (i : ι)
    (t : List (Signal × ι × Origin)) (closed : Bool) (said : List UInt8) : Prop where
  signals : (t.filter fun x => x.2.1 = i).map Prod.fst = discourse a p.mem.opened closed said
  concludes : closed = true ↔ Concludes p
  pushed : said <+: p.mem.pushed
  whole : closed = true → said ++ givenUp p = p.mem.pushed

section
variable [DecidableEq ι] {sockets : ι → SocketAddr} {P : Writers ι}

theorem history_spoken (a : SocketAddr) (opened closed : Bool) {ps : List (List UInt8)} (hps : ∀ p ∈ ps, p ≠ []) :
    ((history a opened closed ps).flatMap fun m => spoken a (m.2.drop 20)) = discourse a opened closed ps.flatten := by
  have hdata : (ps.flatMap fun p => spoken a p) = ps.flatten.map (.data a) := by
    rw [List.map_flatten, ← List.flatMap_def]
    refine List.flatMap_congr fun p hp => ?_
    rw [spoken, if_neg (hps p hp)]
  unfold history discourse
  rw [List.flatMap_append, List.flatMap_append, List.flatMap_map]
  simp only [drop_frame, hdata]
  cases opened <;> cases closed <;> simp [spoken]

theorem filter_talk (i : ι) (segs : List (ι × Origin × List UInt8)) :
    ((segs.flatMap fun s => (spoken (sockets s.1) (s.2.2.drop 20)).map fun g => (g, s.1, s.2.1)).filter fun x =>
      x.2.1 = i).map Prod.fst = (messagesOf i segs).flatMap fun m => spoken (sockets i) (m.2.drop 20) := by
  induction segs with
  | nil => rfl
  | cons s segs ih =>
    have hcons : messagesOf i (s :: segs) = messagesOf i [s] ++ messagesOf i segs := messagesOf_append i [s] segs
    rw [List.flatMap_cons, List.filter_append, List.map_append, ih, hcons, List.flatMap_append]
    by_cases hs : s.1 = i
    · simp [messagesOf, hs, List.filter_map, Function.comp_def]
    · simp [messagesOf, hs, List.filter_map, Function.comp_def]

/-- The stream of connections none of which was dropped inside a frame, connection by connection. -/
theorem discourse_of_reaches (h : (writers ι fun _ => True).Reaches (Writers.init sockets) P)
    (hu : ∀ i, (∀ c e, P.threads i ≠ .fault c e) → Untorn (P.mems i).last) :
    (∀ x ∈ talk P.world, x.1.addr = sockets x.2.1) ∧
    ∀ i, ∃ closed said, Discourse (P.threads i) (sockets i) i (talk P.world) closed said := by
  obtain ⟨g, hwp, segs, tail, hl⟩ := writers_bear h
  have hend : ∀ i, ∃ closed ps, Unbroken (P.threads i) (g i) closed ps :=
    fun i => unbroken_of_wp (Prog.wp_of_also (hwp i)) (hu i)
  choose closed ps hb using hend
  have hsock : ∀ i, (P.mems i).addr = sockets i := fun i => (hb i).sends.socket.trans (hl.socket i)
  have hmsg : ∀ i, messagesOf i segs = history (sockets i) (P.mems i).opened (closed i) (ps i) := by
    intro i
    have hshown : (P.mems i).holds = true ∨ (g i).part = [] := by
      cases hh : (P.mems i).holds with
      | true => exact Or.inl rfl
      | false => exact Or.inr ((hb i).free hh)
    rw [hl.shown i, shown, if_pos hshown, (hb i).sends.done, ← hsock i]
    rfl
  have hseg : ∀ s ∈ segs, ∃ p : List UInt8, p.length ≤ 65535 ∧ s.2.2 = frame (sockets s.1) p := by
    intro s hs
    have hmem := mem_messagesOf hs
    rw [hmsg] at hmem
    obtain ⟨p, hp, ⟨hin, -⟩ | ⟨rfl, -⟩⟩ := mem_history hmem
    · exact ⟨p, ((hb s.1).sends.sizes p hin).2, hp⟩
    · exact ⟨[], by simp, hp⟩
  have htail : (∀ x ∈ talkFrom (.header []) tail, x.1.addr = sockets x.2.1) ∧ ∀ i,
      ((talkFrom (.header []) tail).filter fun x => x.2.1 = i).map Prod.fst =
        ((g i).part.drop 20).map (.data (sockets i)) := by
    have hrest : ∀ i, (P.mems i).holds = false → (g i).part = [] := fun i hi => (hb i).free hi
    by_cases hex : ∃ j, (P.mems j).holds = true
    · obtain ⟨j, hj⟩ := hex
      have hscan : ((Position.header []).scan (g j).part).2 = ((g j).part.drop 20).map (.data (sockets j)) := by
        by_cases hnil : (g j).part = []
        · rw [hnil]
          rfl
        · obtain ⟨q, w, hq, hw, hpart⟩ := (hb j).part hnil
          rw [hpart, scan_unfinished _ hq hw, ← hsock j]
          rfl
      rw [hl.held j hj, talkFrom_stamp, hscan]
      refine ⟨?_, fun i => ?_⟩
      · intro x hx
        simp only [List.map_map, List.mem_map, Function.comp_def] at hx
        obtain ⟨v, -, rfl⟩ := hx
        rfl
      · rcases eq_or_ne i j with rfl | hne
        · generalize (g i).part.drop 20 = bs
          simp [List.filter_map, Function.comp_def]
        · have hnone : (P.mems i).holds = false := by
            rw [Bool.eq_false_iff]
            exact fun hi => hne (hl.excl i j hi hj)
          generalize (g j).part.drop 20 = bs
          simp [List.filter_map, Function.comp_def, hne.symm, hrest i hnone]
    · have hnone : ∀ i, (P.mems i).holds = false := fun i => by simpa using fun hh => hex ⟨i, hh⟩
      rw [hl.free hnone]
      refine ⟨fun x hx => ?_, fun i => ?_⟩
      · cases hx
      · simp [hrest i (hnone i), talkFrom]
  have htalk : talk P.world = segs.flatMap (fun s => (spoken (sockets s.1) (s.2.2.drop 20)).map fun g => (g, s.1, s.2.1)) ++
      talkFrom (.header []) tail := by
    rw [hl.wire, talk_append, plain_stamps, scan_frames hseg, talk_stamps hseg]
  refine ⟨?_, fun i => ⟨closed i, (g i).payload, ?_, (hb i).closed, payload_of_wp (hwp i), ?_⟩⟩
  · intro x hx
    rw [htalk, List.mem_append] at hx
    rcases hx with hx | hx
    · obtain ⟨s, -, hx⟩ := List.mem_flatMap.mp hx
      obtain ⟨q, hq, rfl⟩ := List.mem_map.mp hx
      exact addr_of_mem_spoken hq
    · exact htail.1 x hx
  · have hlast : closed i = true → (g i).part = [] := fun hc => (((hb i).closed.mp hc).settled (hwp i)).1
    have hload : load (g i).done = (ps i).flatten := (hb i).sends.load
    rw [htalk, List.filter_append, List.map_append, filter_talk, hmsg i,
      history_spoken _ _ _ fun p hp => ((hb i).sends.sizes p hp).1, htail.2 i, Sent.payload, hload]
    cases hc : closed i with
    | true =>
      simp only [hlast hc, discourse, List.drop_nil, List.map_nil, List.append_nil]
      rfl
    | false =>
      simp only [discourse, List.map_append, List.append_assoc, List.append_nil, Bool.false_eq_true, if_false]
      rfl
  · exact fun hc => (((hb i).closed.mp hc).settled (hwp i)).2

end

def Signal.utters (a : SocketAddr) : Signal → Option UInt8
  | data b v => if b = a then some v else none
  | zero _ => none

@[simp] theorem Signal.utters_zero (a b : SocketAddr) : Signal.utters a (.zero b) = none := rfl

section
variable [DecidableEq ι] {a : SocketAddr} {i : ι} {t : List (Signal × ι × Origin)} {n k : ℕ} {v : UInt8}
  {p : Prog WriteQuery WriteResp Conn Outcome} {closed : Bool} {said : List UInt8}

theorem bySender_voices (a : SocketAddr) (n : ℕ) (i : ι) (t : List (Signal × ι × Origin)) :
    bySender i (voices a n t) = ((t.filter fun x => x.2.1 = i).map Prod.fst).filterMap (Signal.utters a) := by
  unfold bySender
  induction t generalizing n with
  | nil => rfl
  | cons x t ih =>
    obtain ⟨⟨b, v⟩ | b, j, o⟩ := x
    · by_cases hb : b = a <;> by_cases hj : j = i <;> simp [voices, Signal.utters, hb, hj, ih]
    · by_cases hj : j = i <;> simp [voices, List.filterMap_cons, hj, ih]

theorem utters_discourse (a : SocketAddr) (opened closed : Bool) (said : List UInt8) :
    (discourse a opened closed said).filterMap (Signal.utters a) = said := by
  have hdata : (said.map (Signal.data a)).filterMap (Signal.utters a) = said := by
    rw [List.filterMap_map]
    simp [Function.comp_def, Signal.utters]
  unfold discourse
  rw [List.filterMap_append, List.filterMap_append, hdata]
  cases opened <;> cases closed <;> simp [List.filterMap_cons]

/-- All that a connection has on the stream is its own payload. -/
theorem Discourse.bySender (h : Discourse p a i t closed said) : VtMuxer.bySender i (voices a n t) = said := by
  rw [bySender_voices, h.signals, utters_discourse]

/-- Before a byte of payload a connection has said nothing but its opening. -/
theorem count_before_data {opened closed : Bool} {xs ys : List Signal}
    (h : xs ++ .data a v :: ys = discourse a opened closed said) :
    xs.count (.zero a) = if opened then 1 else 0 := by
  have hrest : ∀ (said : List UInt8) (xs : List Signal),
      xs ++ .data a v :: ys = said.map (.data a) ++ (if closed then [.zero a] else []) → xs.count (.zero a) = 0 := by
    intro said
    induction said with
    | nil =>
      intro xs hx
      cases xs with
      | nil => rfl
      | cons x xs =>
        cases closed with
        | true => simp at hx
        | false => simp at hx
    | cons b said ih =>
      intro xs hx
      cases xs with
      | nil => rfl
      | cons x xs =>
        obtain ⟨rfl, hxs⟩ := List.cons.inj hx
        rw [List.count_cons, ih xs hxs]
        simp
  unfold discourse at h
  cases opened with
  | false => simpa using hrest said xs (by simpa using h)
  | true =>
    cases xs with
    | nil => simp at h
    | cons x xs =>
      obtain ⟨rfl, hxs⟩ : x = .zero a ∧ xs ++ .data a v :: ys = said.map (.data a) ++ (if closed then [.zero a] else []) := by
        simpa using h
      simp [hrest said xs hxs]

theorem length_framesOf_ends (a : SocketAddr) (i : ℕ) (t : List (Signal × ℕ × Origin)) :
    (Rendezvous.framesOf i (ends a t)).length = ((t.filter fun x => x.2.1 = i).map Prod.fst).count (.zero a) := by
  unfold Rendezvous.framesOf ends
  induction t with
  | nil => rfl
  | cons x t ih =>
    obtain ⟨g, j, o⟩ := x
    by_cases hg : g = .zero a <;> by_cases hj : j = i <;> simp_all

/-- The frames without payload that a connection has sent before a byte of its payload. -/
theorem Discourse.before {i : ℕ} {t : List (Signal × ℕ × Origin)} {f : List Origin} (h : Discourse p a i t closed said)
    (hf : Rendezvous.framesOf i (ends a t) = (if p.mem.opened then [.handshake] else []) ++ f)
    (hv : (i, k, v) ∈ voices a 0 t) :
    Rendezvous.framesOf i ((ends a t).take k) = if p.mem.opened then [.handshake] else [] := by
  obtain ⟨t₁, o, t₂, rfl, rfl⟩ := exists_of_mem_voices hv
  have hsig := h.signals
  rw [List.filter_append, List.filter_cons_of_pos (by simp), List.map_append, List.map_cons] at hsig
  have hlen := length_framesOf_ends a i t₁
  rw [count_before_data hsig] at hlen
  have htake : (ends a (t₁ ++ (.data a v, i, o) :: t₂)).take (0 + (ends a t₁).length) = ends a t₁ := by
    rw [ends_append, Nat.zero_add, List.take_left]
  rw [htake]
  rw [ends_append, Rendezvous.framesOf_append] at hf
  refine List.append_inj_left hf ?_
  rw [hlen]
  cases p.mem.opened <;> rfl

end

end VtMuxer
