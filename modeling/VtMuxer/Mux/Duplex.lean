import VtMuxer.Mux.Hearing
import VtMuxer.Mux.Pair
import VtMuxer.Mux.Phases

/-! The payload that goes between two endpoints. What a reader gets was written on the other end
of its connection, in that order, and on no other connection of the address. -/
namespace VtMuxer
open Interaction Rendezvous

/-- A connection that was added takes payload only after its handshake. -/
def Shy (p : Prog WriteQuery WriteResp Conn Outcome) : Prop :=
  p.wp (keeping fun c => c.opened = true ∨ c.pushed = []) (fun c _ _ => c.opened = true) ()

section
variable {c : Conn} {p : Prog WriteQuery WriteResp Conn Outcome} {P : Bool → Prop}

theorem spares_drop : Spares (Marked fun opened _ => P opened) drop := by
  have hI : Aside (Marked fun opened _ => P opened) := ⟨fun _ _ h => h, fun _ _ h => h⟩
  have heof : ∀ socket, Spares (Marked fun opened _ => P opened) (sendEof socket) := fun socket =>
    .bind (hI.writeAll _ _) fun _ => .modify fun _ h => h
  have hfields : Spares (Marked fun opened _ => P opened) (Proc.modify Conn.dropFields : WriteM Unit) :=
    .modify fun _ h => h
  unfold drop
  refine .bind .get fun c => .bind (.modify fun _ h => h) fun _ => ?_
  rcases c.inner.state with _ | st | ⟨k, _ | _ | w⟩
  · exact hfields
  · exact hfields
  · exact .bind hI.lock fun _ => heof _
  · exact .bind hfields fun _ => heof _
  · dsimp only
    split
    · exact .fault _
    · refine .bind hfields fun _ => .bind (hI.writeAll _ _) fun r => ?_
      split
      · exact .modify fun _ h => h
      · exact heof _

theorem Shy.mem (h : Shy p) (hp : ∀ c e, p ≠ .fault c e) : p.mem.opened = true ∨ p.mem.pushed = [] := by
  cases p with
  | ret c r => exact Or.inl h
  | ask c q k => exact h.1
  | fault c e => exact absurd rfl (hp c e)

theorem Shy.handshake (a : SocketAddr) : Shy (WriteOp.handshake.body (.init a)) := by
  have hI : Aside fun c => c.pushed = [] := ⟨fun _ _ h => h, fun _ _ h => h⟩
  have h0 : ((Conn.init a).setFut false).pushed = [] := rfl
  have he : (Conn.init a).inner.buffer.isEmpty = true := (PacketBuffer.isEmpty_iff _).mpr rfl
  have hs : (Conn.init a).inner.state = .writing .noop .buffering := rfl
  simp only [WriteOp.body, VtMuxer.handshake, lock, Proc.bind_apply, Proc.get_apply, Prog.bind_ret, hs, he,
    Proc.modify_apply, Proc.ask_apply, Prog.bind_ask]
  refine ⟨Or.inr h0, fun _ _ => ?_⟩
  rw [Prog.wp_bind, Prog.wp_bind]
  have hwrite := hI.wp_writeAll .handshake (Conn.init a).inner.buffer.bytes h0
  refine Prog.wp_mono ?_ (wp_keeping_mono (fun c hc => Or.inr hc) hwrite)
  rintro c r - ⟨-, rfl⟩
  rfl

theorem Shy.call {r : Outcome} {op : WriteOp} (h : Shy (.ret c r)) (hop : op ≠ .handshake) : Shy (op.body c) := by
  have hc : Marked (fun opened _ => opened = true) c := h
  have hall : ∀ m : WriteM Outcome, Spares (Marked fun opened _ => opened = true) m → Shy (m c) :=
    fun m hm => wp_keeping_mono (fun _ h => Or.inl h) (hm c hc)
  cases op with
  | handshake => exact absurd rfl hop
  | write cx buf => exact hall _ (Spares.bind (spares_pollWrite cx buf) fun _ => .pure _)
  | flush cx => exact hall _ (Spares.bind (spares_pollFlush cx) fun _ => .pure _)
  | shutdown cx => exact hall _ (Spares.bind (spares_pollShutdown cx) fun _ => .pure _)
  | drop => exact hall _ (Spares.bind spares_drop fun _ => .pure _)

theorem Shy.answer {q : WriteQuery} {k : WriteResp q → Prog WriteQuery WriteResp Conn Outcome}
    (h : Shy (.ask c q k)) {r : WriteResp q} (hr : Smooth q r) : Shy (k r) := h.2 r hr

end

namespace Endpoint

section
variable {E : Endpoint} {d : SocketAddr → Option ℕ} {a : SocketAddr} {i k : ℕ} {v : UInt8}

/-- What the endpoint has sent, writer by writer. -/
theorem Proper.discourse (h : E.Proper d) :
    (∀ x ∈ talk E.wire, x.1.addr = E.sockets x.2.1) ∧
    ∀ i, ∃ closed said, Discourse ((E.pool E.sockets).threads i) (E.sockets i) i (talk E.wire) closed said := by
  refine discourse_of_reaches (h.pool E.sockets E.fits_sockets) fun i _ => ?_
  unfold Pool.mems
  cases hw : E.writers i with
  | some w =>
    rw [pool_threads hw]
    exact (h.tamed hw).untorn
  | none =>
    rw [pool_fresh hw]
    intro st hst
    cases hst

/-- What stands on the stream comes from a writer of its address. -/
theorem Proper.author (h : E.Proper d) {x : Signal × ℕ × Origin} (hx : x ∈ talk E.wire) :
    ∃ w, E.writers x.2.1 = some w ∧ w.addr = x.1.addr := by
  obtain ⟨hown, hall⟩ := h.discourse
  obtain ⟨closed, said, hd⟩ := hall x.2.1
  cases hw : E.writers x.2.1 with
  | some w => exact ⟨w, rfl, (E.fits_sockets _ w hw).symm.trans (hown x hx).symm⟩
  | none =>
    rw [pool_fresh hw] at hd
    have hsaid : said = [] := List.prefix_nil.mp hd.pushed
    have hopen : closed = false := by
      cases closed with
      | false => rfl
      | true =>
        rcases hd.concludes.mp rfl with hdone | ⟨c, hc, -⟩
        · cases hdone
        · cases hc
    have hnone := hd.signals
    rw [hsaid, hopen] at hnone
    have hin : x.1 ∈ ((talk E.wire).filter fun y => y.2.1 = x.2.1).map Prod.fst :=
      List.mem_map_of_mem (List.mem_filter.mpr ⟨hx, by simp⟩)
    rw [hnone] at hin
    cases hin

/-- Who has payload on the stream has a writer, and has taken that payload. -/
theorem Proper.spoke (h : E.Proper d) (hv : (i, k, v) ∈ voices a 0 (talk E.wire)) :
    ∃ w, E.writers i = some w ∧ w.addr = a ∧ w.prog.mem.pushed ≠ [] := by
  obtain ⟨t₁, o, t₂, ht, -⟩ := exists_of_mem_voices hv
  obtain ⟨w, hw, ha⟩ := h.author (x := (.data a v, i, o)) (by rw [ht]; simp)
  obtain ⟨closed, said, hd⟩ := h.discourse.2 i
  rw [pool_threads hw, E.fits_sockets i w hw, show w.addr = a from ha] at hd
  refine ⟨w, hw, ha, fun hnil => ?_⟩
  have hin : v ∈ bySender i (voices a 0 (talk E.wire)) :=
    List.mem_map.mpr ⟨(i, k, v), List.mem_filter.mpr ⟨hv, by simp⟩, rfl⟩
  have hpre := hd.pushed
  rw [hnil, List.prefix_nil] at hpre
  rw [hd.bySender, hpre] at hin
  cases hin

theorem Proper.speaker (h : E.Proper d) (hshy : ∀ i w, E.writers i = some w → d w.addr = some i → Shy w.prog)
    (hv : (i, k, v) ∈ voices a 0 (talk E.wire)) : (E.half d a).Speaker i := by
  obtain ⟨w, hw, rfl, hpush⟩ := h.spoke hv
  constructor
  case entry =>
    obtain ⟨b, hb⟩ := h.tidy.owner i w hw
    show E.reader.under w.addr i ≠ none
    rw [Watched.under_eq_some.mpr hb]
    simp
  case opened =>
    intro hdial
    have hfault : ∀ c e, w.prog ≠ .fault c e := by
      intro c e
      have hpool := threads_ne_fault (h.pool E.sockets E.fits_sockets) i c e
      rwa [pool_threads hw] at hpool
    have hopen := ((hshy i w hw hdial).mem hfault).resolve_right hpush
    obtain ⟨closed, -, hframes⟩ := h.zeros.2 i w hw
    have hmem : Origin.handshake ∈ framesOf i (VtMuxer.zeros w.addr E.wire) := by
      rw [hframes, hopen]
      simp
    obtain ⟨x, hx, hx2⟩ := List.mem_map.mp hmem
    obtain ⟨hin, hi⟩ := List.mem_filter.mp hx
    have heq : x = (i, .handshake) := Prod.ext (by simpa using hi) hx2
    exact heq ▸ hin

end

end Endpoint

theorem idxOf_eof {s : List (ℕ × Origin)} {e n : ℕ} {f g : List Origin} (hn : n ≤ s.length)
    (hall : framesOf e s = f ++ g) (htake : framesOf e (s.take n) = f) (hf : .eof ∉ f) (hg : g <+: [.eof])
    (hown : ∀ x ∈ s.drop n, x.1 = e) : s.idxOf (e, .eof) = n := by
  have hout : (e, Origin.eof) ∉ s.take n := by
    intro hin
    refine hf ?_
    rw [← htake]
    exact List.mem_map.mpr ⟨(e, .eof), List.mem_filter.mpr ⟨hin, by simp⟩, rfl⟩
  have hdrop : framesOf e (s.drop n) = g := by
    rw [← List.take_append_drop n s, framesOf_append, htake] at hall
    exact List.append_cancel_left hall
  have hrest : s.drop n = g.map (e, ·) := by
    have hself : (s.drop n).filter (fun x => x.1 = e) = s.drop n :=
      List.filter_eq_self.mpr fun x hx => by simpa using hown x hx
    rw [← hdrop, framesOf, hself, List.map_map, eq_comm]
    refine List.map_congr_left (g := id) (fun x hx => ?_) |>.trans (List.map_id _)
    exact Prod.ext (hown x hx).symm rfl
  have hzero : (s.drop n).idxOf (e, .eof) = 0 := by
    rw [hrest]
    rcases List.prefix_cons_iff.mp hg with rfl | ⟨g', rfl, -⟩
    · rfl
    · simp
  rw [← List.take_append_drop n s, List.idxOf_append, if_neg hout, hzero, List.length_take, min_eq_left hn]
  simp

namespace Endpoint

section
variable {E : Endpoint} {d : SocketAddr → Option ℕ} {a : SocketAddr} {i j k : ℕ} {v : UInt8} {w : Writer}
  {o : Origin} {bytes : List UInt8}

/-- A new byte of payload stands before the final frame of its connection. -/
theorem Proper.slot_new (h : (E.advance i w o bytes).Proper d)
    (hv : (j, k, v) ∈ voices a (ends a (talk E.wire)).length
      (talkFrom ((Position.header []).scan (plain E.wire)).1 (stamp i o bytes))) :
    k = (VtMuxer.zeros a (E.advance i w o bytes).wire).idxOf (j, .eof) := by
  have hself : (E.advance i w o bytes).writers i = some w := by simp [Endpoint.advance, Endpoint.setWriter]
  have hwire : talk (E.advance i w o bytes).wire =
      talk E.wire ++ talkFrom ((Position.header []).scan (plain E.wire)).1 (stamp i o bytes) := talk_append _ _
  have hnew : ∀ x ∈ talkFrom ((Position.header []).scan (plain E.wire)).1 (stamp i o bytes), x.2.1 = i := by
    rw [talkFrom_stamp]
    intro x hx
    obtain ⟨g, -, rfl⟩ := List.mem_map.mp hx
    rfl
  generalize talkFrom ((Position.header []).scan (plain E.wire)).1 (stamp i o bytes) = u at hv hwire hnew
  have hv' : (j, k, v) ∈ voices a 0 (talk (E.advance i w o bytes).wire) := by
    rw [hwire, voices_append, Nat.zero_add]
    exact List.mem_append_right _ hv
  obtain rfl : j = i := by
    obtain ⟨t₁, o', t₂, ht, -⟩ := exists_of_mem_voices hv
    exact hnew (.data a v, j, o') (by rw [ht]; simp)
  obtain ⟨w', hw', rfl, -⟩ := h.spoke hv'
  obtain rfl : w = w' := by
    rw [hself] at hw'
    exact Option.some.inj hw'
  obtain ⟨closed, hclosed, hframes⟩ := h.zeros.2 j w hself
  obtain ⟨closed', said, hdis⟩ := h.discourse.2 j
  rw [pool_threads hself, fits_sockets _ j w hself] at hdis
  rw [zeros_eq_ends] at hframes ⊢
  have hbound := le_of_mem_voices hv'
  refine (idxOf_eof ?_ hframes (hdis.before hframes hv') ?_ ?_ ?_).symm
  · simpa using hbound.2
  · split <;> simp
  · split <;> simp
  · intro x hx
    have hlen := (le_of_mem_voices hv).1
    rw [hwire, ends_append, List.drop_append, List.drop_eq_nil_iff.mpr hlen, List.nil_append] at hx
    obtain ⟨y, hy, rfl⟩ := List.mem_map.mp (List.mem_of_mem_drop hx)
    exact hnew y (List.mem_filter.mp hy).1

end

end Endpoint

theorem Endpoint.Proper.shy_after {E : Endpoint} {m : Move} {d : SocketAddr → Option ℕ} {i : ℕ} {w : Writer}
    (h : E.Proper d) (hshy : ∀ i w, E.writers i = some w → d w.addr = some i → Shy w.prog) (hm : E.shared.Permits m)
    (honce : ∀ a alloc, m = .add a alloc → d a = none) (hw : (E.after m).writers i = some w)
    (hd : E.dials m d w.addr = some i) : Shy w.prog := by
  rcases Endpoint.writers_after hw with hmade | hold
  · rcases SharedReader.made_cases hmade with ⟨addr, alloc, rfl, rfl, rfl, -⟩ | ⟨a, hr, rfl⟩
    · exact .handshake addr
    · have hfree := (h.tidy.made hm hmade).1
      have hdial : d a = some i := by
        rcases E.dials_cases m d with heq | ⟨addr, alloc, rfl, -, -⟩
        · rwa [heq] at hd
        · cases hr
      obtain ⟨u, hu, -⟩ := h.dialer a i hdial
      rw [hfree] at hu
      cases hu
  · exact hshy i w hold ((h.dials_after honce hold).mp hd)

theorem SharedReader.Aligned.talk_take {ι : Type} {s : SharedReader} {m : Move} (h : s.Aligned) (hc : s.Coherent)
    (hs : s.Sane m) {w : List (Mark ι)} (hpre : (s.perform m).consumed <+: plain w) :
    ∃ u, talk (w.take (s.perform m).consumed.length) = talk (w.take s.consumed.length) ++ u ∧
      u.map Prod.fst = s.said m := by
  obtain ⟨bs, hcons, herr⟩ := hc.consumes hs
  rcases h with he | hacc
  · have hsame : (s.perform m).consumed = s.consumed := by rw [hcons, herr he, List.append_nil]
    refine ⟨[], by rw [hsame, List.append_nil], ?_⟩
    rw [SharedReader.said_still hsame]
    rfl
  · have hsplit : w.take (s.perform m).consumed.length =
        w.take s.consumed.length ++ (w.drop s.consumed.length).take bs.length := by
      rw [hcons, List.length_append, List.take_add]
    have hall : plain (w.take (s.perform m).consumed.length) = s.consumed ++ bs := by
      rw [plain_take, ← List.prefix_iff_eq_take.mp hpre, hcons]
    rw [hsplit, plain_append] at hall
    have hlen : (plain (w.take s.consumed.length)).length = s.consumed.length := by
      have hle := hpre.length_le
      rw [hcons, List.length_append] at hle
      rw [plain_take, List.length_take]
      omega
    obtain ⟨hold, hnew⟩ := List.append_inj hall hlen
    refine ⟨_, by rw [hsplit, talk_append], ?_⟩
    have hp : s.position = some ((Position.header []).scan s.consumed).1 := hacc
    rw [talkFrom_fst, hold, hnew]
    simp [SharedReader.said, SharedReader.signalled, hp, hcons]

namespace Pair

/-- The invariant that carries the payload: no connection that was added writes before its
handshake, every byte on a stream stands where its connection speaks, and the entries have what was
said while they listened. -/
structure Duplex (G : Pair) : Prop where
  concord : G.Concord
  shy : ∀ x i w, (G.side x).writers i = some w → G.dialed x w.addr = some i → Shy w.prog
  slotted : ∀ x a i k v, (i, k, v) ∈ voices a 0 (talk (G.side x).wire) → k = (G.half x a).speaksAt i
  filed : ∀ x a, (G.side x).reader.Filed a (talk ((G.side !x).wire.take (G.side x).shared.consumed.length))

section
variable {G G' : Pair} {x : Bool} {a : SocketAddr} {i k : ℕ} {v : UInt8}

theorem Duplex.init : Duplex Pair.init where
  concord := .init
  shy x i w hw := by cases hw
  slotted x a i k v hv := by cases hv
  filed x a := .init true a

theorem Duplex.speaker (h : G.Duplex) (hv : (i, k, v) ∈ voices a 0 (talk (G.side x).wire)) : (G.half x a).Speaker i :=
  (h.concord.proper x).speaker (h.shy x) hv

theorem Duplex.inPhase_dial (h : G.Duplex) (hd : G.dialed x a = none) (hfree : (G.side x).shared.socketMap a = none)
    (hover : G.dialed (!x) a ≠ none → ∃ i b, (G.side x).reader.since i = some (a, b)) :
    inPhase ((G.side x).shared.deeds a).length
      (voices a 0 (talk ((G.side !x).wire.take (G.side x).shared.consumed.length))) = [] := by
  unfold inPhase
  rw [List.map_eq_nil_iff, List.filter_eq_nil_iff]
  rintro ⟨e, l, u⟩ hv
  have hwhole : (e, l, u) ∈ voices a 0 (talk (G.side !x).wire) := by
    rw [← List.take_append_drop (G.side x).shared.consumed.length (G.side !x).wire, talk_append, voices_append]
    exact List.mem_append_left _ hv
  have hex := (h.concord.proper x).tidy.exact
  have hne := (h.concord.told x a).silent_dial hd (hex.under_free hfree) ?_ (h.speaker hwhole)
  · rw [← h.slotted _ _ _ _ _ hwhole] at hne
    have hne' : l ≠ ((G.side x).shared.deeds a).length := hne
    simpa using hne'
  · intro hd'
    obtain ⟨j, b, hb⟩ := hover hd'
    refine ⟨j, ?_⟩
    show (G.side x).reader.under a j ≠ none
    rw [Watched.under_eq_some.mpr hb]
    simp

theorem Concord.take_append (h : G.Concord) (x : Bool) (new : List (Mark ℕ)) :
    ((G.side x).wire ++ new).take (G.side !x).shared.consumed.length =
      (G.side x).wire.take (G.side !x).shared.consumed.length := by
  have hlen := (h.stream (!x)).length_le
  rw [Bool.not_not, plain, List.length_map] at hlen
  rw [List.take_append_of_le_length hlen]

theorem Duplex.move {m : Move} (h : G.Duplex) (hm : (G.side x).shared.Permits m) (hlive : m ≠ .disconnect)
    (hfed : m.Fed) (hread : ((G.side x).shared.perform m).consumed <+: plain (G.side !x).wire)
    (honce : ∀ a alloc, m = .add a alloc → G.dialed x a = none) (hheed : G.Heeds x (.move m)) :
    (G.set x ((G.side x).after m) ((G.side x).dials m (G.dialed x))).Duplex := by
  have hp := h.concord.proper x
  have hex := hp.tidy.exact
  constructor
  case concord => exact h.concord.move hm hlive hfed hread honce hheed
  case shy =>
    intro y i w hw hd
    rcases eq_or_not x y with rfl | rfl
    · rw [set_side_self] at hw
      rw [set_dialed_self] at hd
      exact hp.shy_after (h.shy y) hm honce hw hd
    · rw [set_side_not] at hw
      rw [set_dialed_not] at hd
      exact h.shy _ i w hw hd
  case slotted =>
    intro y a i k v hv
    rcases eq_or_not x y with rfl | rfl
    · rw [set_side_self, Endpoint.after_wire] at hv
      rw [set_half_self]
      show k = (zeros a ((G.side y).after m).wire).idxOf (i, .eof)
      rw [Endpoint.after_wire]
      exact h.slotted y a i k v hv
    · rw [set_side_not] at hv
      rw [set_half_not]
      exact h.slotted _ a i k v hv
  case filed =>
    intro y a
    rcases eq_or_not x y with rfl | rfl
    · obtain ⟨u, htalk, hu⟩ := hp.aligned.talk_take hex.coherent hm.1 hread
      rw [set_side_self, set_side_not, Endpoint.after_shared, Endpoint.after_reader, htalk]
      refine (h.filed y a).after hex hm.1 hp.live hfed hu ?_
      rintro alloc rfl hfree
      exact h.inPhase_dial (honce a alloc rfl) hfree (hheed hfree)
    · rw [Bool.not_not, set_side_not, set_side_self, Endpoint.after_wire]
      have hold := h.filed (!x) a
      rwa [Bool.not_not] at hold

theorem Duplex.advance {i : ℕ} {w w' : Writer} {o : Origin} {bytes : List UInt8} (h : G.Duplex)
    (hcon : (G.set x ((G.side x).advance i w' o bytes) (G.dialed x)).Concord)
    (hw : (G.side x).writers i = some w) (ha : w'.addr = w.addr) (hshy : Shy w.prog → Shy w'.prog)
    (hacts : ∀ a, ((G.side x).advance i w' o bytes).half (G.dialed x) a = G.half x a ∨
      Acts (G.half x a) (G.half (!x) a) (((G.side x).advance i w' o bytes).half (G.dialed x) a)) :
    (G.set x ((G.side x).advance i w' o bytes) (G.dialed x)).Duplex := by
  constructor
  case concord => exact hcon
  case shy =>
    intro y j u hu hd
    rcases eq_or_not x y with rfl | rfl
    · rw [set_dialed_self] at hd
      rw [set_side_self] at hu
      rcases eq_or_ne j i with rfl | hne
      · obtain rfl : w' = u := by simpa [Endpoint.advance, Endpoint.setWriter] using hu
        rw [ha] at hd
        exact hshy (h.shy y j w hw hd)
      · have hold : (G.side y).writers j = some u := by
          simpa [Endpoint.advance, Endpoint.setWriter, hne] using hu
        exact h.shy y j u hold hd
    · rw [set_side_not] at hu
      rw [set_dialed_not] at hd
      exact h.shy _ j u hu hd
  case slotted =>
    intro y a j k v hv
    rcases eq_or_not x y with rfl | rfl
    · have hp := hcon.proper y
      rw [set_side_self, set_dialed_self] at hp
      rw [set_side_self] at hv
      rw [set_half_self]
      have hwire : talk ((G.side y).advance i w' o bytes).wire = talk (G.side y).wire ++
          talkFrom ((Position.header []).scan (plain (G.side y).wire)).1 (stamp i o bytes) := talk_append _ _
      rw [hwire, voices_append, Nat.zero_add, List.mem_append] at hv
      rcases hv with hold | hnew
      · rw [h.slotted y a j k v hold]
        rcases hacts a with heq | hact
        · rw [heq]
        · exact ((h.concord.told y a).steady hact (h.speaker hold)).symm
      · exact hp.slot_new hnew
    · rw [set_side_not] at hv
      rw [set_half_not]
      exact h.slotted _ a j k v hv
  case filed =>
    intro y a
    rcases eq_or_not x y with rfl | rfl
    · rw [set_side_self, set_side_not]
      exact h.filed y a
    · rw [Bool.not_not, set_side_not, set_side_self]
      have hold := h.filed (!x) a
      rw [Bool.not_not] at hold
      show (G.side !x).reader.Filed a (talk (((G.side x).wire ++ stamp i o bytes).take _))
      rwa [h.concord.take_append]

theorem Duplex.call {i : ℕ} {op : WriteOp} {a : SocketAddr} {c : Conn} {r : Outcome} (h : G.Duplex)
    (hw : (G.side x).writers i = some ⟨a, .ret c r⟩) (hop : r.permits op) (hheed : G.Heeds x (.call i op)) :
    (G.set x ((G.side x).setWriter i ⟨a, op.body c⟩) (G.dialed x)).Duplex := by
  have hcon := h.concord.call hw hop hheed
  rw [Endpoint.setWriter_eq_advance] at hcon ⊢
  refine h.advance hcon hw rfl (fun hs => hs.call hop.2.1) fun b => ?_
  left
  rw [← Endpoint.setWriter_eq_advance]
  rfl

theorem Duplex.answer {i : ℕ} {a : SocketAddr} {c : Conn} {q : WriteQuery}
    {k : WriteResp q → Prog WriteQuery WriteResp Conn Outcome} (h : G.Duplex)
    (hw : (G.side x).writers i = some ⟨a, .ask c q k⟩) (r : WriteResp q) (hr : Smooth q r)
    (hl : granted ⟨q, r⟩ = true → (G.side x).Unlocked) (hheed : G.Heeds x (.answer i ⟨q, r⟩)) :
    (G.set x ((G.side x).advance i ⟨a, k r⟩ c.origin (delivered q r)) (G.dialed x)).Duplex := by
  have hp := (h.concord.proper x).answer hw r hr hl
  refine h.advance (h.concord.answer hw r hr hl hheed) hw rfl (fun hs => hs.answer hr) fun b => ?_
  have ha : (Writer.mk a (k r)).addr = a := rfl
  refine (h.concord.proper x).acts_advance hp hw ha b ?_
  rintro ho rfl hd
  exact hheed _ hw ho hd

theorem Duplex.step {act : Act} (h : G.Duplex) (hheed : G.Heeds x act) (hs : G.Step x act G') : G'.Duplex := by
  cases hs with
  | move m hm hlive hfed hread honce => exact h.move hm hlive hfed hread honce hheed
  | call i op hw hop => exact h.call hw hop hheed
  | answer i hw r hr hl => exact h.answer hw r hr hl hheed

theorem Heedful.duplex (h : Heedful init G) : G.Duplex := by
  induction h with
  | refl => exact .init
  | tail _ hstep ih =>
    obtain ⟨x, act, hheed, hs⟩ := hstep
    exact ih.step hheed hs

/-- What is said while an entry listens is what the other end of its connection says. -/
theorem Duplex.inPhase_eq {j : ℕ} (h : G.Duplex) (hj : Joined (G.half x a) (G.half (!x) a) i j) :
    inPhase ((G.half x a).hearsAt j) (voices a 0 (talk (G.side !x).wire)) =
      bySender i (voices a 0 (talk (G.side !x).wire)) := by
  have htold := h.concord.told x a
  unfold inPhase bySender
  congr 1
  refine List.filter_congr ?_
  rintro ⟨e, l, u⟩ hv
  rw [decide_eq_decide]
  have hl : l = (G.half (!x) a).speaksAt e := h.slotted _ _ _ _ _ hv
  constructor
  · intro hphase
    have hother := htold.joined_of_phase (h.speaker hv) (htold.joined_entries hj).2 (hl.symm.trans hphase)
    exact htold.joined_unique hother hj
  · rintro rfl
    exact hl.trans (htold.joined_phase hj)

/-- What has been read of a stream in one phase, and what there is. -/
theorem inPhase_take (a : SocketAddr) (w : List (Mark ℕ)) (n k : ℕ) :
    inPhase k (voices a 0 (talk (w.take n))) <+: inPhase k (voices a 0 (talk w)) ∧
      (k < (ends a (talk (w.take n))).length →
        inPhase k (voices a 0 (talk (w.take n))) = inPhase k (voices a 0 (talk w))) := by
  have hsplit := talk_append (w.take n) (w.drop n)
  rw [List.take_append_drop] at hsplit
  rw [hsplit, voices_append, inPhase_append, Nat.zero_add]
  refine ⟨List.prefix_append _ _, fun hk => ?_⟩
  rw [inPhase_of_lt hk, List.append_nil]

/-- What the other side has sent for a connection that is closed here. -/
theorem Duplex.closer {j : ℕ} (h : G.Duplex) (hj : (G.side x).reader.since j = some (a, true)) :
    ∃ i w, Joined (G.half x a) (G.half (!x) a) i j ∧ (G.side !x).writers i = some w ∧ Concludes w.prog := by
  have hin : Deed.closed j ∈ (G.half x a).deeds := ((h.filed x a).closed j true hj).mp rfl
  obtain ⟨k, hk, hget⟩ := List.mem_iff_getElem.mp hin
  have hagrees := (h.concord.told x a).agrees
  have hlen := hagrees.length_eq
  have hright := (List.forall₂_iff_get.mp hagrees).2 k (by omega) hk
  generalize hf : ((G.half (!x) a).sent.take (G.half x a).deeds.length).get ⟨k, by omega⟩ = f at hright
  have hfmem : f ∈ (G.half (!x) a).sent := List.mem_of_mem_take (hf ▸ List.get_mem _ _)
  rw [List.get_eq_getElem, hget] at hright
  obtain ⟨heof, j', hj', hjoin⟩ : f.2 = .eof ∧ ∃ j', Deed.closed j = .closed j' ∧
      Joined (G.half x a) (G.half (!x) a) f.1 j' := by
    rcases hright with ⟨-, j', hj'⟩ | hright
    · cases hj'
    · exact hright
  obtain rfl : j = j' := Deed.closed.inj hj'
  have hzero : f ∈ ends a (talk (G.side !x).wire) := by
    rw [← zeros_eq_ends]
    exact hfmem
  obtain ⟨y, hy, hyf⟩ := List.mem_map.mp hzero
  obtain ⟨hy, hya⟩ := List.mem_filter.mp hy
  obtain ⟨w, hw, hwa⟩ := (h.concord.proper (!x)).author hy
  have hya' : y.1 = .zero a := by simpa using hya
  rw [hyf] at hw
  rw [hya'] at hwa
  have hwa' : w.addr = a := hwa
  obtain ⟨closed, hclosed, hframes⟩ := (h.concord.proper (!x)).zeros.2 f.1 w hw
  refine ⟨f.1, w, hjoin, hw, hclosed.mp ?_⟩
  have heofmem : Origin.eof ∈ framesOf f.1 (zeros w.addr (G.side !x).wire) := by
    rw [hwa']
    exact List.mem_map.mpr ⟨f, List.mem_filter.mpr ⟨hfmem, by simp⟩, heof⟩
  rw [hframes] at heofmem
  cases closed with
  | true => rfl
  | false =>
    refine absurd heofmem ?_
    split <;> simp

end

/-- What the reader of entry `j`, under the address `a` at side `x`, has read and still finds in its
buffer. It comes from one connection, which is the other end; it is what was written there as far
as it goes, and after the final frame it is all of that but what the writer has given up. -/
structure Conveyed (G : Pair) (x : Bool) (a : SocketAddr) (j : ℕ) (closed : Bool) : Prop where
  source : ((G.side x).shared.entries j).appended ≠ [] ∨ closed = true →
    ∃ i w, Joined (G.half x a) (G.half (!x) a) i j ∧ (G.side !x).writers i = some w
  sole : ∀ i i', Joined (G.half x a) (G.half (!x) a) i j → Joined (G.half x a) (G.half (!x) a) i' j → i = i'
  written : ∀ i w, Joined (G.half x a) (G.half (!x) a) i j → (G.side !x).writers i = some w →
    ((G.side x).shared.entries j).appended <+: w.prog.mem.pushed
  whole : ∀ i w, Joined (G.half x a) (G.half (!x) a) i j → (G.side !x).writers i = some w → closed = true →
    ((G.side x).shared.entries j).handle ≠ .dropped →
      Concludes w.prog ∧ ((G.side x).shared.entries j).appended ++ givenUp w.prog = w.prog.mem.pushed

/-- In every run in which a side that adds an address of the other lets the connection of the other
end first, and no connection is dropped inside a frame, a reader gets what was written on the other
end of its connection and nothing else. -/
theorem payload_agrees {G : Pair} (h : Heedful init G) (x : Bool) {a : SocketAddr} {j : ℕ} {closed : Bool}
    (hj : (G.side x).reader.since j = some (a, closed)) : G.Conveyed x a j closed := by
  have hd := h.duplex
  have htold := hd.concord.told x a
  obtain ⟨hpre, heq⟩ := (hd.filed x a).filed j closed hj
  have hentry : (G.half x a).entries j ≠ none := by
    show (G.side x).reader.under a j ≠ none
    rw [Watched.under_eq_some.mpr hj]
    simp
  obtain ⟨htake, hfull⟩ := inPhase_take a (G.side !x).wire (G.side x).shared.consumed.length ((G.half x a).hearsAt j)
  have hsaid : ∀ i w, Joined (G.half x a) (G.half (!x) a) i j → (G.side !x).writers i = some w →
      ∃ closed said, Discourse w.prog a i (talk (G.side !x).wire) closed said ∧
        inPhase ((G.half x a).hearsAt j) (voices a 0 (talk (G.side !x).wire)) = said := by
    intro i w hjoin hw
    obtain ⟨c, said, hdis⟩ := (hd.concord.proper (!x)).discourse.2 i
    obtain ⟨b, hb⟩ := Option.ne_none_iff_exists'.mp (htold.joined_entries hjoin).1
    obtain ⟨b', hb'⟩ := (hd.concord.proper (!x)).tidy.owner i w hw
    have haddr : w.addr = a := by
      have hsince := Watched.under_eq_some.mp hb
      rw [hb'] at hsince
      exact congrArg Prod.fst (Option.some.inj hsince)
    rw [Endpoint.pool_threads hw, Endpoint.fits_sockets _ i w hw, haddr] at hdis
    exact ⟨c, said, hdis, (hd.inPhase_eq hjoin).trans hdis.bySender⟩
  constructor
  case source =>
    rintro (hne | rfl)
    · obtain ⟨v, hv⟩ := List.exists_mem_of_ne_nil _ hne
      obtain ⟨⟨e, l, u⟩, hmem, -⟩ := List.mem_map.mp (htake.subset (hpre.subset hv))
      obtain ⟨hvoice, hl⟩ := List.mem_filter.mp hmem
      have hslot := hd.slotted _ _ _ _ _ hvoice
      have hl' : l = (G.half x a).hearsAt j := by simpa using hl
      obtain ⟨w, hw, -⟩ := (hd.concord.proper (!x)).spoke hvoice
      exact ⟨e, w, htold.joined_of_phase (hd.speaker hvoice) hentry (hslot.symm.trans hl'), hw⟩
    · obtain ⟨i, w, hjoin, hw, -⟩ := hd.closer hj
      exact ⟨i, w, hjoin, hw⟩
  case sole => exact fun i i' hi hi' => htold.joined_unique hi hi'
  case written =>
    intro i w hjoin hw
    obtain ⟨c, said, hdis, hphase⟩ := hsaid i w hjoin hw
    refine (hpre.trans htake).trans ?_
    rw [hphase]
    exact hdis.pushed
  case whole =>
    rintro i w hjoin hw rfl hlive
    obtain ⟨i', w', hjoin', hw', hcon⟩ := hd.closer hj
    obtain rfl := htold.joined_unique hjoin hjoin'
    obtain rfl := Option.some.inj (hw.symm.trans hw')
    obtain ⟨c, said, hdis, hphase⟩ := hsaid i w hjoin hw
    have hin : Deed.closed j ∈ (G.half x a).deeds := ((hd.filed x a).closed j true hj).mp rfl
    have hlt := List.idxOf_lt_length_of_mem hin
    rw [show (G.half x a).deeds.length = _ from (hd.filed x a).heard] at hlt
    refine ⟨hcon, ?_⟩
    rw [show ((G.side x).shared.entries j).appended = _ from heq hlive]
    show inPhase ((G.half x a).hearsAt j) _ ++ _ = _
    rw [hfull hlt, hphase]
    exact hdis.whole (hdis.concludes.mpr hcon)

/-- The first side adds an address, writes a byte and shuts the connection down; the second accepts
it and reads up to the end. -/
theorem payload_agrees_byte :
    ∃ G : Pair, Heedful init G ∧ (G.side false).reader.since 0 = some (.unspecified, true) ∧
      ((G.side false).shared.entries 0).appended = [7] ∧ G.Conveyed false .unspecified 0 true := by
  have hrun : ∃ G : Pair, Heedful init G ∧ (G.side false).reader.since 0 = some (.unspecified, true) ∧
      ((G.side false).shared.entries 0).appended = [7] := by
    refine ⟨_,
      .move true (.add .unspecified true) ⟨trivial, nofun⟩ nofun rfl List.nil_prefix (fun _ _ _ => rfl)
        (fun _ hd => absurd rfl hd) <|
      .answer true 0 ⟨.awaitLock false, ()⟩ rfl trivial (fun _ => Endpoint.unlocked_of_two rfl rfl fun _ => rfl) nofun <|
      .answer true 0 ⟨.awaitWrite (frame .unspecified []), .ok 20⟩ rfl ⟨by decide, by decide⟩ nofun
        (fun _ hd => absurd rfl hd) <|
      .move false (.once .noop (.bytes (frame .unspecified [])))
        ⟨SharedReader.Within.bytes (n := 20) rfl (by decide), nofun⟩ nofun rfl ⟨[], rfl⟩ nofun trivial <|
      .move false (.once .noop (.bytes [])) ⟨nofun, nofun⟩ nofun rfl ⟨[], rfl⟩ nofun trivial <|
      .move false (.accept 0 false .noop) ⟨trivial, fun _ => rfl⟩ nofun trivial ⟨[], rfl⟩ nofun trivial <|
      .call true 0 (.write .noop [7]) rfl ⟨nofun, nofun, nofun⟩ nofun <|
      .call true 0 (.shutdown .noop) rfl ⟨nofun, nofun, nofun⟩ nofun <|
      .answer true 0 ⟨.tryLock, true⟩ rfl trivial (fun _ => Endpoint.unlocked_of_two rfl rfl fun _ => rfl) nofun <|
      .answer true 0 ⟨.write (frame .unspecified [7]), .ready (.ok 21)⟩ rfl ⟨by decide, by decide⟩ nofun nofun <|
      .answer true 0 ⟨.write (frame .unspecified []), .ready (.ok 20)⟩ rfl ⟨by decide, by decide⟩ nofun nofun <|
      .move false (.once .noop (.bytes ((frame .unspecified [7]).take 20)))
        ⟨SharedReader.Within.bytes (n := 20) rfl (by decide), nofun⟩ nofun rfl ⟨_, rfl⟩ nofun trivial <|
      .move false (.once .noop (.bytes [7]))
        ⟨SharedReader.Within.bytes (n := 1) rfl (by decide), nofun⟩ nofun rfl ⟨_, rfl⟩ nofun trivial <|
      .move false (.once .noop (.bytes (frame .unspecified [])))
        ⟨SharedReader.Within.bytes (n := 20) rfl (by decide), nofun⟩ nofun rfl ⟨[], rfl⟩ nofun trivial .refl, ?_, ?_⟩
    · decide +kernel
    · decide +kernel
  obtain ⟨G, hG, hs, hr⟩ := hrun
  exact ⟨G, hG, hs, hr, payload_agrees hG false hs⟩

end Pair

end VtMuxer
