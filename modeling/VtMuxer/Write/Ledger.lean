import VtMuxer.Write.Dropped

/-! The payload of a connection from the first push to the drop of the connection: what is on
the stream and what is still to be sent. A drop sends the rest of a frame that was begun, and
gives up a payload of which nothing is sent. -/
namespace VtMuxer
open Interaction

def load (msgs : List (Origin × List UInt8)) : List UInt8 := (msgs.map fun m => m.2.drop 20).flatten

def Sent.payload (g : Sent) : List UInt8 := load g.done ++ g.part.drop 20

/-- The payload that a drop gives up. -/
def Conn.lost (c : Conn) : List UInt8 :=
  match c.last with
  | some (.writing _ (.flushing (_ + 1))) => []
  | some st => c.inner.buffer.data.drop (st.written - 20)
  | none => []

/-- What a call leaves of what was pushed: it is on the stream in order, and after a drop all of
it but what the drop has given up, which is nothing if the shutdown was complete. -/
def Borne (c : Conn) (a : Outcome) (g : Sent) : Prop :=
  g.payload <+: c.pushed ∧
    (a = .dropped → g.payload ++ c.lost = c.pushed ∧ (c.last = some (.shutdown .done) → c.lost = []))

section
variable {c : Conn} {g g₀ : Sent} {o : Origin} {bytes : List UInt8} {w : ℕ}

@[simp] theorem load_append (a b : List (Origin × List UInt8)) : load (a ++ b) = load a ++ load b := by
  simp [load]

@[simp] theorem load_singleton (m : Origin × List UInt8) : load [m] = m.2.drop 20 := by simp [load]

theorem Sends.load {closed : Bool} {ps : List (List UInt8)} (h : Sends c g closed ps) :
    VtMuxer.load g.done = ps.flatten := by
  rw [h.done]
  exact flatten_history _ _ _ _

theorem Whole.payload {closed : Bool} {ps : List (List UInt8)} (h : Whole c g closed ps) :
    g.payload ++ c.unsent = c.pushed := by
  rw [Sent.payload, h.sends.load]
  exact h.total

/-- Part of a message counts as far as it is sent. -/
theorem Sent.Upto.payload (h : g₀.Upto o bytes w g) (hw : w ≤ bytes.length) :
    g.payload = load g₀.done ++ (bytes.take w).drop 20 := by
  rcases hw.lt_or_eq with hlt | rfl
  · obtain ⟨hd, hp, -⟩ := h.2.2.1 hlt
    rw [Sent.payload, hd, hp]
  · obtain ⟨hd, hp⟩ := h.2.2.2 rfl
    simp [Sent.payload, hd, hp]

theorem wp_writeAll_under {I : Conn → Sent → Prop} {post : Conn → Except IoError Unit → Sent → Prop}
    (hask : ∀ w g, g₀.Upto o bytes w g → w < bytes.length → I (c.setTask (some (o, bytes.drop w))) g)
    (hfin : ∀ g, g₀.Ends o bytes g → post (c.setTask (some (o, []))) (.ok ()) g)
    (hu : g₀.Upto o bytes w g) (hw : w ≤ bytes.length) :
    (writeAll o (bytes.drop w) c).wp ((framing True).under I) post g := by
  have hrule : WriteAllRule ((framing True).under I) (g₀.Upto o bytes) c o bytes post := by
    constructor
    case ask => exact hask
    case honest => exact fun _ _ _ hok => hok.2
    case step => exact fun w g n hu _ _ => hu.put (n := n) (by omega)
    case zero => exact fun _ _ _ hok => absurd hok.1 (by decide)
    case error => exact fun _ _ _ _ hok => hok.elim
    case finish => exact fun g hu => hfin g hu.ends
  exact hrule.wp_writeAll hu hw

theorem wp_sendEof_borne (hg : load g.done ++ c.lost = c.pushed) (hlast : ∃ k st, c.last = some (.writing k st))
    (hh : g.held = true) (hp : g.part = []) :
    (sendEof c.addr c).wp ((framing True).under fun c g => g.payload <+: c.pushed)
      (fun c _ g => Borne c .dropped g) g := by
  have hb : (MuxFrameHeader.empty c.addr).bytes = (frame c.addr []).drop 0 := (frame_nil _).symm
  have hpre : load g.done <+: c.pushed := ⟨c.lost, hg⟩
  simp only [sendEof, Proc.bind_apply, Prog.wp_bind]
  rw [hb]
  refine wp_writeAll_under ?_ ?_ (Sent.Upto.zero hh hp (frame_ne_nil _ _)) (Nat.zero_le _)
  · intro w g' hu hw
    have hnil : ((frame c.addr []).take w).drop 20 = [] := by
      rw [List.drop_eq_nil_iff, List.length_take, length_frame, List.length_nil]
      omega
    rw [hu.payload hw.le, hnil, List.append_nil]
    exact hpre
  · intro g' he
    have hpay : g'.payload = load g.done := by
      simp [Sent.payload, he.done, he.part]
    refine ⟨?_, fun _ => ⟨?_, ?_⟩⟩
    · rw [hpay]
      exact hpre
    · rw [hpay]
      exact hg
    · obtain ⟨k, st, hst⟩ := hlast
      intro hdone
      cases hst.symm.trans hdone

/-- A drop gives up what is not sent, unless the frame is begun. -/
theorem lost_retire (hs : ∀ k w, c.inner.state ≠ .writing k (.flushing (w + 1))) :
    (c.retire.setFut false).lost = c.unsent := by
  unfold Conn.lost Conn.unsent
  rw [Conn.setFut_last, Conn.retire_last]
  split
  · rename_i k w he
    exact absurd (Option.some.inj he) (hs k w)
  · rename_i st _ he
    rw [← Option.some.inj he]
    rfl
  · rename_i he
    cases he

/-- A drop keeps the account: what is not on the stream when its task has ended was given up. -/
theorem Alive.wp_drop_borne (h : Alive c g) :
    (VtMuxer.drop c).wp ((framing True).under fun c g => g.payload <+: c.pushed)
      (fun c _ g => Borne c .dropped g) g := by
  obtain ⟨closed, ps, hwhole, hst⟩ := h.whole
  have hpay := hwhole.payload
  have hpre : g.payload <+: c.pushed := ⟨c.unsent, hpay⟩
  have hheld := h.2.1
  have hunbegun : (∀ k w, c.inner.state ≠ .writing k (.flushing (w + 1))) → g.part = [] →
      load g.done ++ (c.retire.setFut false).lost = c.pushed := by
    intro hs hp
    rw [lost_retire hs]
    simpa [Sent.payload, hp] using hpay
  have hlast : ∀ {k st}, c.inner.state = .writing k st → ∃ k st, some c.inner.state = some (.writing k st) :=
    fun hs => ⟨_, _, congrArg some hs⟩
  rcases hs : c.inner.state with _ | st | ⟨k, _ | _ | w⟩
  · exact absurd hs h.not_poisoned
  · rw [drop_shutdown hs]
    have hlost : (c.retire.setFut false).lost = c.unsent := lost_retire (by simp [hs])
    refine ⟨hpre, fun _ => ⟨?_, ?_⟩⟩
    · rw [hlost]
      exact hpay
    · intro hlast
      obtain rfl : st = .done := by simpa [hs] using hlast
      rw [hs] at hst
      rw [hlost, Conn.unsent, hst.2.1, List.drop_nil]
  · rw [hs] at hst
    rw [drop_buffering hs]
    refine ⟨hpre, ?_⟩
    intro _ _
    exact wp_sendEof_borne (c := c.retire.setFut false) (hunbegun (by simp [hs]) hst.2) (hlast hs)
      (by simp [Contract.under, framing, Sent.answer, granted]) hst.2
  · rw [hs] at hst
    have hpart : g.part = [] := by simpa using hst.2.2.2
    rw [drop_unbegun hs]
    exact wp_sendEof_borne (c := c.retire.setFut false) (hunbegun (by simp [hs]) hpart) (hlast hs)
      (hheld (by simp [Conn.holds, hs, WritePipeState.guarded])) hpart
  · have hg : c.inner.state.guarded = true := by rw [hs]; rfl
    obtain ⟨hu, hw⟩ := h.sending hg
    rw [show c.inner.state.written = w + 1 by rw [hs]; rfl] at hu hw
    rw [show c.origin = .data by simp [Conn.origin, h.1, hs], PacketBuffer.bytes_eq_frame] at hu
    have htotal : load g.done ++ c.inner.buffer.data = c.pushed := by
      obtain ⟨-, -, -, _, qs, hse, hpu, -⟩ := h
      rw [hse.load]
      exact hpu
    have hfrom : c.inner.buffer.bytesFrom? (w + 1) = some ((frame c.addr c.inner.buffer.data).drop (w + 1)) :=
      PacketBuffer.bytesFrom?_eq_some.mpr ⟨hw.le, rfl⟩
    rw [drop_begun hs hfrom, Prog.wp_bind]
    refine wp_writeAll_under (c := c.retire.setFut false) ?_ ?_ hu (by rw [length_frame]; exact hw.le)
    · intro v g' hu' hv
      rw [hu'.payload hv.le, List.drop_take, drop_frame]
      refine ⟨c.inner.buffer.data.drop (v - 20), ?_⟩
      rw [List.append_assoc, List.take_append_drop]
      exact htotal
    · intro g' he
      have hload : load g'.done = c.pushed := by
        rw [he.done, load_append, load_singleton, drop_frame, htotal]
      have hlost : ((c.retire.setFut false).setTask (some (.data, []))).lost = [] := by
        simp [Conn.lost, hs]
      refine wp_sendEof_borne (c := (c.retire.setFut false).setTask (some (.data, []))) ?_ (hlast hs) he.held
        he.part
      rw [hlost, List.append_nil]
      exact hload

/-- Short of a drop, what was pushed is on the stream or in the buffer. -/
theorem borne_of_at (h : Machine.At (framing False) (Leaves False) c g) : g.payload <+: c.pushed := by
  obtain ⟨closed, ps, hw⟩ := whole_of_at h
  exact ⟨c.unsent, hw.payload⟩

theorem Leaves.wp_body_borne {a : Outcome} (h : Leaves True c a g) {op : WriteOp} (hm : a.may op) :
    (op.body c).wp ((framing True).under fun c g => g.payload <+: c.pushed) Borne ((framing True).start c g) := by
  by_cases hd : op = .drop
  · subst hd
    have hal : Alive c ((framing True).start c g) := (h.1.alive hm).start
    simp only [WriteOp.body, Proc.bind_apply, Prog.wp_bind, Proc.pure_apply, Prog.wp_ret]
    exact hal.wp_drop_borne
  · have hidle : Idle False c a g := by
      cases a with
      | dropped => exact hm.elim
      | new => exact h.1
      | handshake res => exact h.1
      | write res => exact h.1
      | flush res => exact h.1
      | shutdown res =>
        rcases res with (e | u) | _
        · exact h.1
        · exact h.1
        · exact h.1
    have hwp := hidle.wp_body hm fun he => absurd he hd
    refine Prog.wp_under (L := framing False) ?_ ?_ hwp
    · exact fun s q g hinv => borne_of_at (Or.inr (Or.inl ⟨q, hinv⟩))
    · intro s r g hl
      refine ⟨borne_of_at (Or.inl ⟨r, hl⟩), ?_⟩
      rintro rfl
      exact hl.1.1.elim

end

section
variable {ι : Type} [DecidableEq ι] {sockets : ι → SocketAddr} {P : Writers ι} {i : ι} {c : Conn}

/-- What every interleaving keeps, with the account of each connection. -/
theorem writers_bear (h : (writers ι fun _ => True).Reaches (Writers.init sockets) P) :
    Machine.Holds ((framing True).also fun c g => g.payload <+: c.pushed)
      (fun c a g => Leaves True c a g ∧ Borne c a g) (LaidOut sockets) P := by
  have hsound : (writers ι fun _ => True).Sound ((framing True).also fun c g => g.payload <+: c.pushed)
      (fun c a g => Leaves True c a g ∧ Borne c a g) (LaidOut sockets) :=
    (writers_sound (fun _ => True) sockets).also fun m i op a g hl _ hm => hl.wp_body_borne hm.1
  refine hsound.reaches ?_ h
  obtain ⟨g, hwp, hg⟩ := holds_init True sockets
  refine ⟨g, fun i => ⟨hwp i, ?_⟩, hg⟩
  obtain ⟨closed, ps, hw, -⟩ := (hwp i).1.1.whole
  exact ⟨⟨_, hw.payload⟩, nofun⟩

/-- When the task of an orderly drop has ended, the stream has the frames of the connection, each
in one piece, and they carry everything that was pushed except what the drop has given up. A
connection that was shut down completely before loses nothing. -/
theorem drop_gives_up (h : (writers ι fun _ => True).Reaches (Writers.init sockets) P)
    (hd : P.threads i = .ret c .dropped) (hor : c.orderly) :
    ∃ ps : List (List UInt8), (∀ p ∈ ps, p ≠ [] ∧ p.length ≤ 65535) ∧
      Intact i ((if c.opened then [frame (sockets i) []] else []) ++ ps.map (frame (sockets i)) ++
        [frame (sockets i) []]) P.world ∧
      ps.flatten ++ c.lost = c.pushed ∧ (c.last = some (.shutdown .done) → c.lost = []) := by
  obtain ⟨g, hwp, segs, tail, hl⟩ := writers_bear h
  have hmem : P.mems i = c := by simp [Pool.mems, hd, Prog.mem]
  have hg := hwp i
  rw [hd] at hg
  obtain ⟨hleaves, -, hborne⟩ := hg
  obtain ⟨-, hfree⟩ : True ∧ Gone c (g i) := hleaves.1
  obtain ⟨ht, hs, closed, ps, hse, hgood, -⟩ := hfree
  obtain ⟨rfl, hp⟩ := hgood hor
  obtain ⟨hpay, hlast⟩ := hborne rfl
  have haddr : c.addr = sockets i := hse.socket.trans (hl.socket i)
  have hheld : (P.mems i).holds = false := by
    rw [hmem]
    simp [Conn.holds, ht, hs, WritePipeState.guarded]
  refine ⟨ps, hse.sizes, ?_, ?_, hlast⟩
  · have hint := (Intact.stamps i segs).others (hl.tail_other hheld)
    rw [hl.shown i, hmem, shown, if_pos (Or.inr hp), hse.done, haddr, ← hl.wire] at hint
    have hmap : (history (sockets i) c.opened true ps).map Prod.snd =
        (if c.opened then [frame (sockets i) []] else []) ++ ps.map (frame (sockets i)) ++ [frame (sockets i) []] := by
      cases c.opened <;> simp [history]
    rwa [hmap] at hint
  · rw [Sent.payload, hse.load, hp] at hpay
    simpa using hpay

end

/-- A byte is written and the connection dropped: the byte is never sent. -/
theorem drop_gives_up_byte :
    ∃ (P : Writers Unit) (c : Conn), (writers Unit fun _ => True).Reaches (Writers.init fun _ => .unspecified) P ∧
      P.threads () = .ret c .dropped ∧ c.orderly ∧ c.pushed = [7] ∧ c.lost = [7] ∧
      ∃ ps : List (List UInt8), (∀ p ∈ ps, p ≠ [] ∧ p.length ≤ 65535) ∧
        Intact () ((if c.opened then [frame .unspecified []] else []) ++ ps.map (frame .unspecified) ++
          [frame .unspecified []]) P.world ∧
        ps.flatten ++ c.lost = c.pushed ∧ (c.last = some (.shutdown .done) → c.lost = []) := by
  have hr : ∃ P c, (writers Unit fun _ => True).Reaches (Writers.init fun _ => .unspecified) P ∧
      P.threads () = .ret c .dropped ∧ c.orderly ∧ c.pushed = [7] ∧ c.lost = [7] := by
    refine ⟨_, _, .call () .handshake rfl ⟨trivial, trivial⟩ <|
      .answer () ⟨.awaitLock false, ()⟩ rfl ⟨trivial, fun _ _ => rfl⟩ <|
      .answer () ⟨.awaitWrite (frame .unspecified []), .ok 20⟩ rfl ⟨⟨by decide, by decide⟩, nofun⟩ <|
      .call () (.write .noop [7]) rfl ⟨nofun, trivial⟩ <|
      .call () .drop rfl ⟨nofun, trivial⟩ <|
      .answer () ⟨.awaitLock false, ()⟩ rfl ⟨trivial, fun _ _ => rfl⟩ <|
      .answer () ⟨.awaitWrite (frame .unspecified []), .ok 20⟩ rfl ⟨⟨by decide, by decide⟩, nofun⟩ <|
      .refl, rfl, Or.inl ⟨_, _, rfl⟩, rfl, rfl⟩
  obtain ⟨P, c, hP, hd, hor, hpushed, hlost⟩ := hr
  exact ⟨P, c, hP, hd, hor, hpushed, hlost, drop_gives_up hP hd hor⟩

end VtMuxer
