import VtMuxer.Write.Wire

/-! What the shared stream carries: frame after frame of whole connections, as long as
nobody is dropped in the middle of a shutdown. -/
namespace VtMuxer
open Interaction

def Conn.unsent (c : Conn) : List UInt8 := c.inner.buffer.data.drop (c.inner.state.written - 20)

/-- Where a connection that was not dropped stands: its frames, the frame it has begun and
what it still has to send make up what was pushed. -/
structure Whole (c : Conn) (g : Sent) (closed : Bool) (ps : List (List UInt8)) : Prop where
  sends : Sends c g closed ps
  free : c.holds = false → g.part = []
  part : g.part ≠ [] → ∃ p w, p.length ≤ 65535 ∧ 0 < w ∧ w < 20 + p.length ∧
    g.part = (frame c.addr p).take w ∧ (p = [] ↔ g.kind ≠ .data)
  total : ps.flatten ++ g.part.drop 20 ++ c.unsent = c.pushed

section
variable {c : Conn} {g : Sent}

theorem Midway.total (h : Midway c g c.inner.state.written) :
    g.part.drop 20 ++ c.unsent = c.inner.buffer.data := by
  rw [h.2, List.drop_take, PacketBuffer.bytes_eq_frame, drop_frame, Conn.unsent,
    List.take_append_drop]

theorem Alive.whole (h : Alive c g) : ∃ closed ps, Whole c g closed ps ∧ Stands c g closed c.inner.state := by
  have hb := h.between_or_inside
  obtain ⟨-, -, hk, closed, ps, hse, hpu, hst⟩ := h
  refine ⟨closed, ps, ?_, hst⟩
  rcases hb with ⟨hn, hp, hw⟩ | ⟨hh, hm, hd⟩
  · refine ⟨hse, fun _ => hp, fun hne => absurd hp hne, ?_⟩
    simpa [hp, Conn.unsent, hw] using hpu
  · refine ⟨hse, ?_, ?_, ?_⟩
    · intro hn
      rw [hn] at hh
      cases hh
    · intro hne
      rw [hk hne]
      refine ⟨c.inner.buffer.data, c.inner.state.written, c.inner.buffer.length_data, ?_, hm.1, hm.2, hd⟩
      refine Nat.pos_of_ne_zero fun h0 => hne ?_
      rw [hm.2, h0, List.take_zero]
    · rw [List.append_assoc, hm.total, hpu]

theorem Fresh.whole (h : Fresh c g) : Whole c g false [] := by
  obtain ⟨-, ⟨k, hs⟩, hd, ho, hpu, hso, hdone, hp⟩ := h
  refine ⟨⟨hso, ?_, by simp⟩, fun _ => hp, fun hne => absurd hp hne, ?_⟩
  · rw [hdone, ho]
    rfl
  · simp [hp, Conn.unsent, hd, hpu]

theorem Opening.whole (h : Opening c g) : Whole c g false [] := by
  obtain ⟨⟨rest, ht, hr, hpr, -, hk⟩, -, -, hd, ho, hpu, hso, hdone, -⟩ := h
  have hlen := congrArg List.length hpr
  have hr' := List.length_pos_iff.mpr hr
  simp only [List.length_append, length_frame, List.length_nil] at hlen
  refine ⟨⟨hso, ?_, by simp⟩, ?_, ?_, ?_⟩
  · rw [show g.done = [] from hdone, show c.opened = false from ho]
    rfl
  · intro hn
    simp [Conn.holds, ht] at hn
  · intro hne
    refine ⟨[], g.part.length, by simp, List.length_pos_iff.mpr hne, by simp; omega, ?_, by simp [hk hne]⟩
    rw [← hpr, List.take_left']
    rfl
  · rw [List.drop_of_length_le (by omega), show c.pushed = [] from hpu, Conn.unsent,
      show c.inner.buffer.data = [] from hd]
    simp

theorem Flushed.whole (h : Flushed c g) : ∃ ps, Whole c g false ps := by
  obtain ⟨-, -, -, hd, hp, ps, hse, hpu⟩ := h
  refine ⟨ps, hse, fun _ => hp, fun hne => absurd hp hne, ?_⟩
  simp [hp, Conn.unsent, hd, hpu]

theorem whole_of_at (h : Machine.At (framing False) (Leaves False) c g) :
    ∃ closed ps, Whole c g closed ps := by
  have hal : Alive c g → ∃ closed ps, Whole c g closed ps := by
    intro ha
    obtain ⟨closed, ps, hw, -⟩ := ha.whole
    exact ⟨closed, ps, hw⟩
  rcases h with ⟨a, h, -⟩ | ⟨q, h⟩ | ⟨e, h⟩
  · unfold Idle at h
    split at h
    · exact hal h.1
    · exact h.1.elim
    · exact hal h.1
    · exact hal h.1
    · exact hal h
  · cases q with
    | tryLock => exact hal h
    | pollFut => exact hal h
    | write bytes => exact hal h.1
    | flush => exact ⟨false, Flushed.whole h⟩
    | awaitLock queued =>
      rcases h with h | ⟨h, -⟩
      · exact ⟨_, _, h.whole⟩
      · exact h.elim
    | awaitWrite bytes =>
      rcases h with h | ⟨h, -⟩
      · exact ⟨_, _, h.whole⟩
      · exact h.elim
  · exact h.elim

end

variable {ι : Type}

def enframe (sockets : ι → SocketAddr) (frames : List (ι × Origin × List UInt8)) :
    List (ι × Origin × List UInt8) :=
  frames.map fun f => (f.1, f.2.1, frame (sockets f.1) f.2.2)

/-- Messages that are frames, connection by connection, are frames on the stream. -/
theorem enframe_drop {sockets : ι → SocketAddr} {segs : List (ι × Origin × List UInt8)}
    (h : ∀ s ∈ segs, ∃ p, s.2.2 = frame (sockets s.1) p) :
    enframe sockets (segs.map fun s => (s.1, s.2.1, s.2.2.drop 20)) = segs := by
  rw [enframe, List.map_map]
  conv_rhs => rw [← List.map_id segs]
  refine List.map_congr_left fun s hs => ?_
  obtain ⟨p, hp⟩ := h s hs
  simp only [Function.comp_apply, hp, drop_frame, id]
  rw [← hp]

section
variable [DecidableEq ι] {sockets : ι → SocketAddr} {P : Writers ι}

theorem Fresh.init (a : SocketAddr) : Fresh (.init a) ⟨a, [], [], .data, false⟩ :=
  ⟨rfl, ⟨_, rfl⟩, rfl, rfl, rfl, rfl, rfl, rfl⟩

theorem Alive.init (a : SocketAddr) : Alive (.init a) ⟨a, [], [], .data, false⟩ :=
  ⟨rfl, fun h => absurd h (by simp [Conn.holds, Conn.init, WritePipeState.guarded]),
    fun h => absurd rfl h, false, [], ⟨rfl, rfl, by simp⟩, rfl, rfl, rfl⟩

theorem holds_init (drops : Prop) (sockets : ι → SocketAddr) :
    Machine.Holds (framing drops) (Leaves drops) (LaidOut sockets) (Writers.init sockets) := by
  refine ⟨fun i => ⟨sockets i, [], [], .data, false⟩, fun i => ⟨⟨.init _, .init _⟩, nofun⟩, [], [], rfl,
    fun i => rfl, ?_, fun i => rfl, ?_, fun _ => rfl⟩
  · intro i j hi
    cases hi
  · intro i hi
    cases hi

/-- What every interleaving keeps: the contract of each connection and the layout of the
stream. -/
theorem writers_hold {ops : WriteOp → Prop} (h : (writers ι ops).Reaches (Writers.init sockets) P) :
    Machine.Holds (framing (ops .drop)) (Leaves (ops .drop)) (LaidOut sockets) P :=
  (writers_sound ops sockets).reaches (holds_init _ sockets) h

def bytesOf (i : ι) (w : List (Mark ι)) : List UInt8 := (w.filter fun b => b.1 = i).map fun b => b.2.2

/-- The payloads of the frames of one connection, one after the other. -/
def payloadOf (i : ι) (frames : List (ι × Origin × List UInt8)) : List UInt8 :=
  ((messagesOf i frames).map Prod.snd).flatten

theorem mem_history {a : SocketAddr} {opened closed : Bool} {ps : List (List UInt8)}
    {x : Origin × List UInt8} (hx : x ∈ history a opened closed ps) :
    ∃ p, x.2 = frame a p ∧ (p ∈ ps ∧ x.1 = .data ∨ p = [] ∧ x.1 ≠ .data) := by
  simp only [history, List.mem_append, List.mem_map] at hx
  rcases hx with (hx | ⟨p, hp, rfl⟩) | hx
  · split at hx
    · obtain rfl := List.mem_singleton.mp hx
      exact ⟨[], rfl, Or.inr ⟨rfl, by simp⟩⟩
    · cases hx
  · exact ⟨p, rfl, Or.inl ⟨hp, rfl⟩⟩
  · split at hx
    · obtain rfl := List.mem_singleton.mp hx
      exact ⟨[], rfl, Or.inr ⟨rfl, by simp⟩⟩
    · cases hx

theorem flatten_history (a : SocketAddr) (opened closed : Bool) (ps : List (List UInt8)) :
    ((history a opened closed ps).map fun x => x.2.drop 20).flatten = ps.flatten := by
  have hd : (ps.map fun p => (frame a p).drop 20) = ps := by simp
  have he : (frame a []).drop 20 = [] := by simp
  cases opened <;> cases closed <;> simp [history, Function.comp_def]

theorem bytesOf_append (i : ι) (a b : List (Mark ι)) : bytesOf i (a ++ b) = bytesOf i a ++ bytesOf i b := by
  simp [bytesOf]

@[simp] theorem bytesOf_stamp (i : ι) (o : Origin) (bytes : List UInt8) :
    bytesOf i (stamp i o bytes) = bytes := by
  simp [bytesOf, stamp, List.filter_map, Function.comp_def]

theorem bytesOf_stamp_ne {i j : ι} (h : j ≠ i) (o : Origin) (bytes : List UInt8) :
    bytesOf j (stamp i o bytes) = [] := by
  simp [bytesOf, stamp, List.filter_map, Function.comp_def, h.symm]

theorem payloadOf_drop (i : ι) (segs : List (ι × Origin × List UInt8)) :
    payloadOf i (segs.map fun s => (s.1, s.2.1, s.2.2.drop 20)) =
      ((messagesOf i segs).map fun x => x.2.drop 20).flatten := by
  simp [payloadOf, messagesOf, List.filter_map, Function.comp_def]

theorem mem_messagesOf {s : ι × Origin × List UInt8} {segs : List (ι × Origin × List UInt8)}
    (h : s ∈ segs) : s.2 ∈ messagesOf s.1 segs := by
  simp only [messagesOf, List.mem_map, List.mem_filter, decide_eq_true_eq]
  exact ⟨s, ⟨h, rfl⟩, rfl⟩

/-- The stream is the complete frames `frames` followed by `tail`, which is at most the
beginning of one more frame, the lock holder's. Only handshakes and shutdowns send frames
without payload, and what was pushed on a connection is on the stream or in its buffer, in
order. -/
structure Framed (sockets : ι → SocketAddr) (P : Writers ι)
    (frames : List (ι × Origin × List UInt8)) (tail : List (Mark ι)) : Prop where
  wire : P.world = stamps (enframe sockets frames) ++ tail
  kinds : ∀ f ∈ frames, f.2.2.length ≤ 65535 ∧ (f.2.2 = [] ↔ f.2.1 ≠ .data)
  begun : tail = [] ∨ ∃ i o p w, (P.mems i).holds = true ∧ (∀ j, (P.mems j).holds = true → j = i) ∧
    p.length ≤ 65535 ∧ (p = [] ↔ o ≠ .data) ∧ 0 < w ∧ w < (frame (sockets i) p).length ∧
    tail = stamp i o ((frame (sockets i) p).take w)
  pushed : ∀ i, payloadOf i frames ++ (bytesOf i tail).drop 20 ++ (P.mems i).unsent = (P.mems i).pushed

/-- At every point of every interleaving of handshakes, writes, flushes and shutdowns the
stream is in frames. -/
theorem wire_framed (h : (writers ι (· ≠ .drop)).Reaches (Writers.init sockets) P) :
    ∃ frames tail, Framed sockets P frames tail := by
  obtain ⟨g, hwp, segs, tail, hl⟩ := writers_hold h
  have hat : ∀ i, Machine.At (framing False) (Leaves False) (P.mems i) (g i) := by
    intro i
    simpa [Pool.mems] using Machine.at_of_wp (hwp i)
  have haddr : ∀ i, (P.mems i).addr = sockets i := fun i => (placed (hat i)).1.trans (hl.socket i)
  choose closed ps hwh using fun i => whole_of_at (hat i)
  have hshown : ∀ i, messagesOf i segs = history (sockets i) (P.mems i).opened (closed i) (ps i) := by
    intro i
    rw [hl.shown i, ← haddr i, ← (hwh i).sends.done, shown, if_pos]
    cases hh : (P.mems i).holds with
    | true => exact Or.inl rfl
    | false => exact Or.inr ((hwh i).free hh)
  have hseg : ∀ s ∈ segs, ∃ p, s.2.2 = frame (sockets s.1) p ∧ p.length ≤ 65535 ∧ (p = [] ↔ s.2.1 ≠ .data) := by
    intro s hs
    have hmem := mem_messagesOf hs
    rw [hshown] at hmem
    obtain ⟨p, hp, ⟨hin, ho⟩ | ⟨rfl, ho⟩⟩ := mem_history hmem
    · obtain ⟨hne, hlen⟩ := (hwh s.1).sends.sizes p hin
      exact ⟨p, hp, hlen, by simp [hne, ho]⟩
    · exact ⟨[], hp, by simp, by simp [ho]⟩
  refine ⟨segs.map fun s => (s.1, s.2.1, s.2.2.drop 20), tail, ?_, ?_, ?_, ?_⟩
  · rw [enframe_drop fun s hs => ?_, hl.wire]
    obtain ⟨p, hp, -⟩ := hseg s hs
    exact ⟨p, hp⟩
  · intro f hf
    obtain ⟨s, hs, rfl⟩ := List.mem_map.mp hf
    obtain ⟨p, hp, hlen, ho⟩ := hseg s hs
    simpa only [hp, drop_frame] using ⟨hlen, ho⟩
  · by_cases htail : tail = []
    · exact Or.inl htail
    · have hex : ∃ i, (P.mems i).holds = true := by
        by_contra hnone
        exact htail (hl.free fun i => by simpa using fun hh => hnone ⟨i, hh⟩)
      obtain ⟨i, hi⟩ := hex
      have ht := hl.held i hi
      have hpart : (g i).part ≠ [] := by
        intro hnil
        rw [ht, hnil] at htail
        exact htail rfl
      obtain ⟨p, w, hlen, hpos, hlt, hp, ho⟩ := (hwh i).part hpart
      rw [haddr i] at hp
      refine Or.inr ⟨i, (g i).kind, p, w, hi, fun j hj => hl.excl j i hj hi, hlen, ho, hpos, ?_, hp ▸ ht⟩
      rwa [length_frame]
  · intro i
    rw [payloadOf_drop, hshown, flatten_history]
    have hbytes : bytesOf i tail = (g i).part := by
      by_cases hi : (P.mems i).holds = true
      · rw [hl.held i hi, bytesOf_stamp]
      · rw [(hwh i).free (by simpa using hi)]
        by_cases hex : ∃ j, (P.mems j).holds = true
        · obtain ⟨j, hj⟩ := hex
          rw [hl.held j hj, bytesOf_stamp_ne]
          rintro rfl
          exact hi hj
        · rw [hl.free fun j => by simpa using fun hh => hex ⟨j, hh⟩]
          rfl
    rw [hbytes]
    exact (hwh i).total

/-- A handshake and a frame with a byte of payload are out, and five bytes of the handshake of
another connection. -/
theorem wire_framed_five :
    ∃ P, (writers Bool (· ≠ .drop)).Reaches (Writers.init fun _ => .unspecified) P ∧
      (P.mems true).pushed = [7] ∧ bytesOf true P.world = frame .unspecified [] ++ frame .unspecified [7] ∧
      bytesOf false P.world = (frame .unspecified []).take 5 ∧
      ∃ frames tail, Framed (fun _ => .unspecified) P frames tail := by
  have hr : ∃ P, (writers Bool (· ≠ .drop)).Reaches (Writers.init fun _ => .unspecified) P ∧
      (P.mems true).pushed = [7] ∧ bytesOf true P.world = frame .unspecified [] ++ frame .unspecified [7] ∧
      bytesOf false P.world = (frame .unspecified []).take 5 := by
    refine ⟨_, .call true .handshake rfl ⟨trivial, nofun⟩ <|
      .answer true ⟨.awaitLock false, ()⟩ rfl ⟨trivial, fun _ j => ?_⟩ <|
      .answer true ⟨.awaitWrite (frame .unspecified []), .ok 20⟩ rfl ⟨⟨by decide, by decide⟩, nofun⟩ <|
      .call true (.write .noop [7]) rfl ⟨nofun, nofun⟩ <|
      .call true (.flush .noop) rfl ⟨nofun, nofun⟩ <|
      .answer true ⟨.tryLock, true⟩ rfl ⟨trivial, fun _ j => ?_⟩ <|
      .answer true ⟨.write (frame .unspecified [7]), .ready (.ok 21)⟩ rfl ⟨⟨by decide, by decide⟩, nofun⟩ <|
      .answer true ⟨.flush, .ready (.ok ())⟩ rfl ⟨rfl, nofun⟩ <|
      .call false .handshake rfl ⟨trivial, nofun⟩ <|
      .answer false ⟨.awaitLock false, ()⟩ rfl ⟨trivial, fun _ j => ?_⟩ <|
      .answer false ⟨.awaitWrite (frame .unspecified []), .ok 5⟩ rfl ⟨⟨by decide, by decide⟩, nofun⟩
      .refl, rfl, rfl, rfl⟩
    · cases j <;> rfl
    · cases j <;> rfl
    · cases j <;> rfl
  obtain ⟨P, hP, hpushed, htrue, hfalse⟩ := hr
  exact ⟨P, hP, hpushed, htrue, hfalse, wire_framed hP⟩

end

end VtMuxer
