import VtMuxer.Mux.Endpoint
import VtMuxer.Mux.Rendezvous
import VtMuxer.Mux.Zeros
import VtMuxer.Read.Boundary

/-! What an endpoint has to do with one address while its socket does not fail: the frames
without payload that it sends, and what it makes of those that it reads. -/
namespace VtMuxer
open Interaction Rendezvous

/-- What an event says of the frames without payload under an address. -/
def Event.deed (a : SocketAddr) : Event → Option Deed
  | .opened b id => if b = a then some (.opened id) else none
  | .closed b id => if b = a then some (.closed id) else none
  | _ => none

def Move.Fed : Move → Prop
  | .once _ t => t.alloc = true
  | .add _ alloc => alloc = true
  | _ => True

/-- The entries under an address, and whether they are closed. -/
def Watched.under (W : Watched) (a : SocketAddr) (i : ℕ) : Option Bool :=
  (W.since i).bind fun x => if x.1 = a then some x.2 else none

namespace SharedReader

/-- What the reader made of the frames without payload under an address. -/
def deeds (a : SocketAddr) (s : SharedReader) : List Deed := s.traffic.filterMap (Event.deed a)

section
variable {s : SharedReader} {m : Move} {a : SocketAddr}

theorem deeds_append {s' : SharedReader} {e : Event} (ht : s'.traffic = s.traffic ++ [e]) (a : SocketAddr) :
    s'.deeds a = s.deeds a ++ (e.deed a).toList := by
  unfold deeds
  rw [ht, List.filterMap_append]
  cases he : e.deed a with
  | none => simp [he]
  | some x => simp [he]

theorem Coherent.length_deeds (h : s.Coherent) (hs : s.Sane m) (hc : s.connected = true) (hfed : m.Fed)
    (a : SocketAddr) : ((s.perform m).deeds a).length = (s.deeds a).length + (emptied (s.said m)).count a := by
  have hsame : (s.perform m).traffic = s.traffic → (s.perform m).deeds a = s.deeds a := by
    intro ht
    unfold deeds
    rw [ht]
  cases h.account hs with
  | silent hn hm hz ht =>
    have hnone : emptied (s.said m) = [] := by
      unfold emptied
      rw [List.filterMap_eq_nil_iff]
      intro g hg
      cases g with
      | data b byte => rfl
      | zero b => exact absurd hg (hz b)
    rw [hsame ht, hnone]
    rfl
  | @closed addr id hsaid hk hn hm ht =>
    have hone : emptied (s.said m) = [addr] := by
      rw [hsaid]
      rfl
    rw [deeds_append ht, hone, List.length_append]
    by_cases ha : addr = a
    · simp [Event.deed, ha]
    · simp [Event.deed, ha]
  | @unheard addr hsaid hk hn hm hwhy =>
    rcases hwhy with hoff | ⟨cx, t, rfl, hno⟩
    · rw [hc] at hoff
      cases hoff
    · have hyes : t.alloc = true := hfed
      rw [hno] at hyes
      cases hyes
  | @opened addr hsaid hsub hk hn hm ht =>
    have hone : emptied (s.said m) = [addr] := by
      rw [hsaid]
      rfl
    rw [deeds_append ht, hone, List.length_append]
    by_cases ha : addr = a
    · simp [Event.deed, ha]
    · simp [Event.deed, ha]
  | added hadd hsaid hk hn hm ht =>
    rw [hsame ht, hsaid]
    rfl

theorem Coherent.consumes (h : s.Coherent) (hs : s.Sane m) :
    ∃ bs, (s.perform m).consumed = s.consumed ++ bs ∧ (s.state = .error → bs = []) := by
  have hstill : (s.perform m).consumed = s.consumed →
      ∃ bs, (s.perform m).consumed = s.consumed ++ bs ∧ (s.state = .error → bs = []) :=
    fun hc => ⟨[], by rw [hc, List.append_nil], fun _ => rfl⟩
  rcases s.perform_calm m with ⟨cx, t, rfl⟩ | ⟨addr, alloc, rfl⟩ | hcalm
  · by_cases he : s.state = .error
    · exact hstill (by simp [perform, pollOnce, he])
    obtain ⟨p, hp⟩ := exists_position he
    rcases (s.pollOnce_turn cx t).outcome hs hp (h.valid p hp) with ⟨bs, signals, hh, -⟩ | ⟨bs, hh⟩ | ⟨header, bs, hh⟩
    · exact ⟨bs, hh.consumed, fun he' => absurd he' he⟩
    · exact ⟨bs, hh.consumed, fun he' => absurd he' he⟩
    · exact ⟨bs, congrArg consumed hh.result, fun he' => absurd he' he⟩
  · rcases s.perform_add addr alloc with heq | ⟨-, heq⟩
    · exact hstill (by rw [heq])
    · exact hstill (by rw [heq]; rfl)
  · exact hstill hcalm.consumed

end
end SharedReader

section
variable {ι : Type}

theorem plain_take (w : List (Mark ι)) (n : ℕ) : plain (w.take n) = (plain w).take n := List.map_take

theorem SharedReader.Aligned.length_zeros {s : SharedReader} {m : Move} (h : s.Aligned) (hc : s.Coherent)
    (hs : s.Sane m) {w : List (Mark ι)} (hpre : (s.perform m).consumed <+: plain w) (a : SocketAddr) :
    (zeros a (w.take (s.perform m).consumed.length)).length =
      (zeros a (w.take s.consumed.length)).length + (emptied (s.said m)).count a := by
  obtain ⟨bs, hcons, herr⟩ := hc.consumes hs
  rcases h with he | hacc
  · have hsame : (s.perform m).consumed = s.consumed := by rw [hcons, herr he, List.append_nil]
    rw [SharedReader.said_still hsame, hsame]
    rfl
  · have hsplit : w.take (s.perform m).consumed.length =
        w.take s.consumed.length ++ (w.drop s.consumed.length).take bs.length := by
      rw [hcons, List.length_append, List.take_add]
    have hall : plain (w.take (s.perform m).consumed.length) = s.consumed ++ bs := by
      rw [plain_take, ← List.prefix_iff_eq_take.mp hpre, hcons]
    rw [hsplit, plain_append] at hall
    have hlen : (plain (w.take s.consumed.length)).length = s.consumed.length := by
      have hle := hpre.length_le
      rw [hcons, List.length_append] at hle
      rw [plain_take, List.length_take]
      omega
    obtain ⟨hold, hnew⟩ := List.append_inj hall hlen
    have hsaid : s.said m = (((Position.header []).scan s.consumed).1.scan bs).2 := by
      have hp : s.position = some ((Position.header []).scan s.consumed).1 := hacc
      simp [SharedReader.said, SharedReader.signalled, hp, hcons]
    have hcount := zerosFrom_fst ((Position.header []).scan s.consumed).1
      ((w.drop s.consumed.length).take bs.length)
    rw [hnew, ← hsaid] at hcount
    have hfilter : ∀ l : List (SocketAddr × ι × Origin),
        (l.filter fun x => x.1 = a).length = (l.map Prod.fst).count a := by
      intro l
      rw [List.count, List.countP_map, List.countP_eq_length_filter]
      rfl
    unfold zeros
    rw [hsplit, zerosFrom_append, hold, List.filter_append, List.map_append, List.length_append, List.length_map,
      List.length_map, hfilter (zerosFrom _ ((w.drop _).take _)), hcount]

end

namespace Watched
section
variable {W : Watched} {m : Move} {a addr : SocketAddr} {i : ℕ}

theorem under_eq_some {b : Bool} : W.under a i = some b ↔ W.since i = some (a, b) := by
  unfold under
  cases hs : W.since i with
  | none => simp
  | some x =>
    obtain ⟨c, d⟩ := x
    by_cases hc : c = a
    · simp [hc]
    · simp [hc]

theorem Exact.under_next (h : W.Exact) (a : SocketAddr) : W.under a W.shared.next = none := by
  by_contra hne
  obtain ⟨b, hb⟩ := Option.ne_none_iff_exists'.mp hne
  exact lt_irrefl _ (h.known _ _ _ (under_eq_some.mp hb)).1

/-- Under an address that is not in the map everything is closed. -/
theorem Exact.under_free (h : W.Exact) (hm : W.shared.socketMap a = none) (i : ℕ) : W.under a i ≠ some false := by
  intro hi
  rw [(h.known i a false (under_eq_some.mp hi)).2.1 rfl] at hm
  cases hm

theorem under_after (hi : i ≠ W.shared.next ∨ (W.shared.perform m).next = W.shared.next) :
    (W.after m).under a i = (W.under a i).map fun b => b || decide (Signal.zero a ∈ W.shared.said m) := by
  have hold : (W.after m).since i =
      (W.since i).map fun x => (x.1, x.2 || decide (Signal.zero x.1 ∈ W.shared.said m)) := by
    rcases hi with hi | hn
    · simp [after, hi]
    · exact since_of_next hn i
  unfold under
  rw [hold]
  cases W.since i with
  | none => rfl
  | some x =>
    obtain ⟨c, d⟩ := x
    by_cases hc : c = a
    · simp [hc]
    · simp [hc]

theorem under_silent (hn : (W.shared.perform m).next = W.shared.next) (hz : Signal.zero a ∉ W.shared.said m) :
    (W.after m).under a = W.under a := by
  funext i
  rw [under_after (Or.inr hn)]
  simp [hz]

theorem Exact.under_closed (h : W.Exact) {id : ℕ} (hn : (W.shared.perform m).next = W.shared.next)
    (hz : Signal.zero a ∈ W.shared.said m) (hk : W.shared.socketMap a = some id) :
    (W.after m).under a = Function.update (W.under a) id (some true) := by
  funext i
  rw [under_after (Or.inr hn)]
  rcases eq_or_ne i id with rfl | hne
  · simp [under_eq_some.mpr (h.since_of_map hk), hz]
  · rw [Function.update_of_ne hne]
    cases hu : W.under a i with
    | none => rfl
    | some b =>
      cases b with
      | true => rfl
      | false =>
        have hmap := (h.known i a false (under_eq_some.mp hu)).2.1 rfl
        rw [hk] at hmap
        exact absurd (Option.some.inj hmap).symm hne

theorem Exact.under_insert (h : W.Exact) (hn : (W.shared.perform m).next = W.shared.next + 1)
    (hsub : W.shared.subject m = some a) (hk : W.shared.socketMap a = none) :
    (W.after m).under a = Function.update (W.under a) W.shared.next (some false) := by
  funext i
  rcases eq_or_ne i W.shared.next with rfl | hne
  · have hnew : (W.after m).since W.shared.next = some (a, false) := by simp [Watched.after, hn, hsub]
    rw [Function.update_self, under_eq_some.mpr hnew]
  · rw [Function.update_of_ne hne, under_after (Or.inl hne)]
    cases hu : W.under a i with
    | none => rfl
    | some b =>
      cases b with
      | true => rfl
      | false => exact absurd hu (h.under_free hk i)

theorem Exact.under_other (h : W.Exact) (hn : (W.shared.perform m).next = W.shared.next + 1)
    (hsub : W.shared.subject m = some addr) (hne : addr ≠ a) (hz : Signal.zero a ∉ W.shared.said m) :
    (W.after m).under a = W.under a := by
  funext i
  rcases eq_or_ne i W.shared.next with rfl | hi
  · have hnew : (W.after m).since W.shared.next = some (addr, false) := by simp [Watched.after, hn, hsub]
    rw [h.under_next a]
    simp [under, hnew, hne]
  · rw [under_after (Or.inl hi)]
    simp [hz]

end
end Watched

namespace Endpoint

/-- The entries of the calls of `add_connection`, after a move. -/
def dials (E : Endpoint) (m : Move) (dialed : SocketAddr → Option ℕ) : SocketAddr → Option ℕ :=
  match m, E.shared.made m with
  | .add a _, some (id, _) => Function.update dialed a (some id)
  | _, _ => dialed

/-- What the endpoint has to do with an address. -/
def half (E : Endpoint) (dialed : SocketAddr → Option ℕ) (a : SocketAddr) : Half :=
  ⟨zeros a E.wire, E.shared.deeds a, E.reader.under a, dialed a⟩

section
variable {E : Endpoint} {m : Move} {d : SocketAddr → Option ℕ} {a : SocketAddr}

theorem dials_cases (E : Endpoint) (m : Move) (d : SocketAddr → Option ℕ) :
    E.dials m d = d ∨ ∃ addr alloc, m = .add addr alloc ∧ E.shared.made m = some (E.shared.next, .dialed addr) ∧
      E.dials m d = Function.update d addr (some E.shared.next) := by
  cases m with
  | add addr alloc =>
    cases hm : E.shared.made (.add addr alloc) with
    | none =>
      left
      simp [dials, hm]
    | some x =>
      obtain ⟨id, w⟩ := x
      obtain ⟨rfl, rfl, -⟩ := SharedReader.made_add hm
      exact Or.inr ⟨addr, alloc, rfl, rfl, by simp [dials, hm]⟩
  | _ => exact Or.inl rfl

theorem dials_of_next (hn : (E.shared.perform m).next = E.shared.next) : E.dials m d = d := by
  rcases E.dials_cases m d with heq | ⟨addr, alloc, rfl, hmade, -⟩
  · exact heq
  · obtain ⟨-, -, hadd⟩ := SharedReader.made_add hmade
    rw [hadd] at hn
    exact absurd hn (Nat.succ_ne_self _)

theorem dials_of_said (hs : E.shared.said m ≠ []) : E.dials m d = d := by
  rcases E.dials_cases m d with heq | ⟨addr, alloc, rfl, hmade, -⟩
  · exact heq
  · obtain ⟨-, -, hadd⟩ := SharedReader.made_add hmade
    exact absurd (SharedReader.said_still (m := .add addr alloc) (by rw [hadd]; rfl)) hs

/-- A move of the reader, as the other side sees it. -/
theorem Tidy.acts_after (h : E.Tidy) (hm : E.shared.Sane m) (hc : E.shared.connected = true) (hfed : m.Fed) {o : Half}
    (hf : Signal.zero a ∈ E.shared.said m → (E.shared.deeds a).length < o.sent.length)
    (hd : ∀ alloc, m = .add a alloc → d a = none ∧ (E.shared.socketMap a = none → o.dialed ≠ none →
      ∃ i, E.reader.under a i ≠ none)) :
    (E.after m).half (E.dials m d) a = E.half d a ∨ Acts (E.half d a) o ((E.after m).half (E.dials m d) a) := by
  have hhalf : ∀ l u dialed, (E.shared.perform m).deeds a = l → (E.reader.after m).under a = u →
      E.dials m d a = dialed → (E.after m).half (E.dials m d) a = ⟨zeros a E.wire, l, u, dialed⟩ := by
    rintro l u dialed rfl rfl rfl
    simp only [half, after_wire, after_shared, after_reader]
  have hacc : E.shared.Account m := h.exact.coherent.account hm
  cases hacc with
  | silent hn hmap hz ht =>
    left
    refine hhalf _ _ _ ?_ (Watched.under_silent hn (hz a)) (congrFun (dials_of_next hn) a)
    unfold SharedReader.deeds
    rw [ht]
  | @closed addr id hsaid hk hn hmap ht =>
    have hdeeds := SharedReader.deeds_append ht a
    rcases eq_or_ne addr a with rfl | hne
    · right
      have hz : Signal.zero addr ∈ E.shared.said m := by simp [hsaid]
      have hnew := hhalf _ _ _ hdeeds (h.exact.under_closed hn hz hk) (congrFun (dials_of_next hn) addr)
      rw [hnew]
      simp only [Event.deed, if_true, Option.toList_some]
      exact .close id (hf hz) (Watched.under_eq_some.mpr (h.exact.since_of_map hk))
    · left
      have hz : Signal.zero a ∉ E.shared.said m := by simp [hsaid, hne.symm]
      refine hhalf _ _ _ ?_ (Watched.under_silent hn hz) (congrFun (dials_of_next hn) a)
      simp [hdeeds, Event.deed, hne]
  | unheard hsaid hk hn hmap hwhy =>
    rcases hwhy with hoff | ⟨cx, t, rfl, hno⟩
    · rw [hc] at hoff
      cases hoff
    · have hyes : t.alloc = true := hfed
      rw [hno] at hyes
      cases hyes
  | @opened addr hsaid hsub hk hn hmap ht =>
    have hdeeds := SharedReader.deeds_append ht a
    have hdials : E.dials m d = d := dials_of_said (by simp [hsaid])
    rcases eq_or_ne addr a with rfl | hne
    · right
      have hz : Signal.zero addr ∈ E.shared.said m := by simp [hsaid]
      have hnew := hhalf _ _ _ hdeeds (h.exact.under_insert hn hsub hk) (congrFun hdials addr)
      rw [hnew]
      simp only [Event.deed, if_true, Option.toList_some]
      exact .opening E.shared.next (hf hz) (h.exact.under_free hk) (h.exact.under_next addr)
    · left
      have hz : Signal.zero a ∉ E.shared.said m := by simp [hsaid, hne.symm]
      refine hhalf _ _ _ ?_ (h.exact.under_other hn hsub hne hz) (congrFun hdials a)
      simp [hdeeds, Event.deed, hne]
  | @added addr alloc hadd hsaid hk hn hmap ht =>
    subst hadd
    have hdeeds : (E.shared.perform (.add addr alloc)).deeds a = E.shared.deeds a := by
      unfold SharedReader.deeds
      rw [ht]
    have hdials : E.dials (.add addr alloc) d = Function.update d addr (some E.shared.next) := by
      obtain rfl : alloc = true := hfed
      simp [dials, SharedReader.made, SharedReader.insert, hk]
    rcases eq_or_ne addr a with rfl | hne
    · right
      obtain ⟨hnone, hover⟩ := hd alloc rfl
      have hnew := hhalf _ _ _ hdeeds (h.exact.under_insert hn rfl hk) (congrFun hdials addr)
      rw [hnew, Function.update_self]
      exact .dial E.shared.next hnone (h.exact.under_free hk) (h.exact.under_next addr) (hover hk)
    · left
      have hz : Signal.zero a ∉ E.shared.said (.add addr alloc) := by simp [hsaid]
      refine hhalf _ _ _ hdeeds (h.exact.under_other hn rfl hne hz) ?_
      rw [hdials, Function.update_of_ne hne.symm]

end

/-- The writers as a pool. Under a number without a writer stands a connection that nobody has
called. -/
def pool (E : Endpoint) (sockets : ℕ → SocketAddr) : Writers ℕ where
  threads i :=
    match E.writers i with
    | some w => w.prog
    | none => .ret (.init (sockets i)) .new
  world := E.wire

def Fits (E : Endpoint) (sockets : ℕ → SocketAddr) : Prop := ∀ i w, E.writers i = some w → sockets i = w.addr

/-- An endpoint with a listener whose socket has not failed: its writers are a run of their own,
none was dropped inside a frame, and those of `add_connection` have had their handshakes. -/
structure Proper (E : Endpoint) (dialed : SocketAddr → Option ℕ) : Prop where
  tidy : E.Tidy
  live : E.shared.connected = true
  aligned : E.shared.Aligned
  pool : ∀ sockets, E.Fits sockets →
    (VtMuxer.writers ℕ fun _ => True).Reaches (Writers.init sockets) (E.pool sockets)
  behaves : ∀ i w, E.writers i = some w → Behaves (decide (dialed w.addr = some i)) w.prog
  dialer : ∀ a i, dialed a = some i → ∃ w, E.writers i = some w ∧ w.addr = a
  heard : ∀ a i, (a, i) ∈ E.shared.openings →
    (a, i) ∈ E.shared.chan ++ E.shared.unsent ∨ ∃ w, E.writers i = some w ∧ w.addr = a

section
variable {E : Endpoint} {m : Move} {d : SocketAddr → Option ℕ} {sockets : ℕ → SocketAddr} {i : ℕ} {w w' : Writer}

theorem pool_threads (hw : E.writers i = some w) : (E.pool sockets).threads i = w.prog := by
  simp [pool, hw]

theorem pool_fresh (hw : E.writers i = none) : (E.pool sockets).threads i = .ret (.init (sockets i)) .new := by
  simp [pool, hw]

theorem pool_advance (E : Endpoint) (i : ℕ) (w : Writer) (o : Origin) (bytes : List UInt8) :
    (E.advance i w o bytes).pool sockets =
      ⟨Function.update (E.pool sockets).threads i w.prog, (E.pool sockets).world ++ stamp i o bytes⟩ := by
  unfold pool
  congr 1
  funext j
  rcases eq_or_ne j i with rfl | hne
  · simp [Endpoint.advance, Endpoint.setWriter]
  · simp [Endpoint.advance, Endpoint.setWriter, hne]

theorem setWriter_eq_advance (E : Endpoint) (i : ℕ) (w : Writer) : E.setWriter i w = E.advance i w .data [] := by
  simp [Endpoint.advance, Endpoint.setWriter]

theorem pool_after_none (hm : E.shared.made m = none) : (E.after m).pool sockets = E.pool sockets := by
  unfold Endpoint.after
  rw [hm]
  rfl

theorem pool_after_made (hm : E.shared.made m = some (i, w)) :
    (E.after m).pool sockets = ⟨Function.update (E.pool sockets).threads i w.prog, (E.pool sockets).world⟩ := by
  unfold Endpoint.after
  rw [hm]
  dsimp only
  rw [setWriter_eq_advance, pool_advance, stamp_nil, List.append_nil]
  rfl

theorem Proper.init : Proper (.init true) fun _ => none where
  tidy := .init true
  live := rfl
  aligned := Or.inr rfl
  pool _ _ := .refl
  behaves _ _ h := by cases h
  dialer _ _ h := by cases h
  heard _ _ h := by cases h

theorem Proper.advance (h : E.Proper d) (hw : E.writers i = some w) (ha : w'.addr = w.addr) (o : Origin)
    (bytes : List UInt8)
    (hpool : ∀ sockets, (VtMuxer.writers ℕ fun _ => True).Step (E.pool sockets) ((E.advance i w' o bytes).pool sockets))
    (hb : Behaves (decide (d w.addr = some i)) w'.prog) : (E.advance i w' o bytes).Proper d := by
  have hself : (E.advance i w' o bytes).writers i = some w' := by simp [Endpoint.advance, Endpoint.setWriter]
  have hother : ∀ j, j ≠ i → (E.advance i w' o bytes).writers j = E.writers j := by
    intro j hj
    simp [Endpoint.advance, Endpoint.setWriter, hj]
  have hkept : ∀ j a, (∃ v, E.writers j = some v ∧ v.addr = a) →
      ∃ v, (E.advance i w' o bytes).writers j = some v ∧ v.addr = a := by
    rintro j a ⟨v, hv, rfl⟩
    rcases eq_or_ne j i with rfl | hj
    · obtain rfl : w = v := Option.some.inj (hw.symm.trans hv)
      exact ⟨w', hself, ha⟩
    · exact ⟨v, (hother j hj).trans hv, rfl⟩
  refine ⟨h.tidy.advance hw ha o bytes, h.live, h.aligned, ?_, ?_, ?_, ?_⟩
  · intro sockets hfits
    refine .tail (h.pool sockets fun j v hv => ?_) (hpool sockets)
    obtain ⟨v', hv', ha'⟩ := hkept j v.addr ⟨v, hv, rfl⟩
    rw [hfits j v' hv', ha']
  · intro j v hv
    rcases eq_or_ne j i with rfl | hj
    · obtain rfl : w' = v := Option.some.inj (hself.symm.trans hv)
      rw [ha]
      exact hb
    · rw [hother j hj] at hv
      exact h.behaves j v hv
  · exact fun a j hj => hkept j a (h.dialer a j hj)
  · exact fun a j hj => (h.heard a j hj).imp id (hkept j a)

theorem Proper.call {a : SocketAddr} {c : Conn} {r : Outcome} {op : WriteOp} (h : E.Proper d)
    (hw : E.writers i = some ⟨a, .ret c r⟩) (hop : r.permits op)
    (hd : op = .drop → Untorn (some c.inner.state)) : (E.setWriter i ⟨a, op.body c⟩).Proper d := by
  have ha : (Writer.mk a (op.body c)).addr = a := rfl
  rw [setWriter_eq_advance]
  refine h.advance hw ha .data [] (fun sockets => ?_) ((h.behaves i _ hw).call hop.2.1 hd)
  rw [pool_advance, stamp_nil, List.append_nil]
  exact .call (E.pool sockets) i op (pool_threads hw) ⟨hop.1, trivial⟩

theorem Proper.answer {a : SocketAddr} {c : Conn} {q : WriteQuery}
    {k : WriteResp q → Prog WriteQuery WriteResp Conn Outcome} (h : E.Proper d)
    (hw : E.writers i = some ⟨a, .ask c q k⟩) (r : WriteResp q) (hr : Smooth q r)
    (hl : granted ⟨q, r⟩ = true → E.Unlocked) :
    (E.advance i ⟨a, k r⟩ c.origin (delivered q r)).Proper d := by
  have ha : (Writer.mk a (k r)).addr = a := rfl
  refine h.advance hw ha _ _ (fun sockets => ?_) ((h.behaves i _ hw).answer hr)
  rw [pool_advance]
  refine .answer (E.pool sockets) i (pool_threads hw) r ⟨hr, fun hg j => ?_⟩
  cases hj : E.writers j with
  | some v => simpa [Pool.mems, pool_threads hj] using hl hg j v hj
  | none => simp [Pool.mems, pool_fresh hj, Prog.mem, Conn.holds, Conn.init, WritePipeState.guarded]

theorem Proper.writers_after (h : E.Proper d) (hm : E.shared.Permits m) (hw : E.writers i = some w) :
    (E.after m).writers i = some w := by
  rw [after_writers_of_ne, hw]
  rintro k u hk rfl
  rw [(h.tidy.made hm hk).1] at hw
  cases hw

theorem Proper.dials_after (h : E.Proper d) (honce : ∀ a alloc, m = .add a alloc → d a = none)
    (hw : E.writers i = some w) : E.dials m d w.addr = some i ↔ d w.addr = some i := by
  rcases E.dials_cases m d with heq | ⟨addr, alloc, hadd, -, heq⟩
  · rw [heq]
  · rw [heq]
    rcases eq_or_ne w.addr addr with ha | ha
    · have hne : E.shared.next ≠ i := by
        rintro rfl
        rw [h.tidy.fresh] at hw
        cases hw
      rw [ha, Function.update_self, honce addr alloc hadd]
      simp [hne]
    · rw [Function.update_of_ne ha]

theorem Proper.pool_after (h : E.Proper d) (hm : E.shared.Permits m) (hfits : (E.after m).Fits sockets) :
    (VtMuxer.writers ℕ fun _ => True).Reaches (Writers.init sockets) ((E.after m).pool sockets) := by
  have hreach := h.pool sockets fun j v hv => hfits j v (h.writers_after hm hv)
  cases hmade : E.shared.made m with
  | none =>
    rw [pool_after_none hmade]
    exact hreach
  | some x =>
    obtain ⟨id, v⟩ := x
    rw [pool_after_made hmade]
    have haddr := hfits id v (after_writers_made hmade)
    have hfree := (h.tidy.made hm hmade).1
    rcases SharedReader.made_cases hmade with ⟨addr, alloc, -, -, rfl, -⟩ | ⟨a, -, rfl⟩
    · have hsock : sockets id = addr := haddr
      have hthread : (E.pool sockets).threads id = .ret (.init addr) .new := by rw [pool_fresh hfree, hsock]
      have hstep : (VtMuxer.writers ℕ fun _ => True).Step (E.pool sockets)
          ⟨Function.update (E.pool sockets).threads id (Writer.dialed addr).prog, (E.pool sockets).world⟩ :=
        Machine.Step.call (M := VtMuxer.writers ℕ fun _ => True) _ id WriteOp.handshake hthread ⟨trivial, trivial⟩
      exact .tail hreach hstep
    · have hsock : sockets id = a := haddr
      have hthread : (Writer.accepted a).prog = (E.pool sockets).threads id := by
        rw [pool_fresh hfree, hsock]
        rfl
      rw [hthread, Function.update_eq_self]
      exact hreach

theorem Proper.behaves_after (h : E.Proper d) (hm : E.shared.Permits m)
    (honce : ∀ a alloc, m = .add a alloc → d a = none) (hw : (E.after m).writers i = some w) :
    Behaves (decide (E.dials m d w.addr = some i)) w.prog := by
  rcases Endpoint.writers_after hw with hmade | hold
  · have hfree := (h.tidy.made hm hmade).1
    rcases SharedReader.made_cases hmade with ⟨addr, alloc, rfl, rfl, rfl, -⟩ | ⟨a, hr, rfl⟩
    · have hyes : E.dials (.add addr alloc) d addr = some E.shared.next := by simp [dials, hmade]
      have hdec : decide (E.dials (.add addr alloc) d (Writer.dialed addr).addr = some E.shared.next) = true :=
        decide_eq_true hyes
      rw [hdec]
      exact .handshake addr
    · have hno : ¬ E.dials m d a = some i := by
        rcases E.dials_cases m d with heq | ⟨addr, alloc, rfl, -, -⟩
        · rw [heq]
          intro hd
          obtain ⟨u, hu, -⟩ := h.dialer a i hd
          rw [hfree] at hu
          cases hu
        · cases hr
      have hdec : decide (E.dials m d (Writer.accepted a).addr = some i) = false := decide_eq_false hno
      rw [hdec]
      exact .accepted a
  · rw [decide_eq_decide.mpr (h.dials_after honce hold)]
    exact h.behaves i w hold

theorem Proper.dialer_after (h : E.Proper d) (hm : E.shared.Permits m) {a : SocketAddr} (hi : E.dials m d a = some i) :
    ∃ w, (E.after m).writers i = some w ∧ w.addr = a := by
  have hold : d a = some i → ∃ w, (E.after m).writers i = some w ∧ w.addr = a := by
    intro hd
    obtain ⟨v, hv, ha⟩ := h.dialer a i hd
    exact ⟨v, h.writers_after hm hv, ha⟩
  rcases E.dials_cases m d with heq | ⟨addr, alloc, -, hmade, heq⟩
  · rw [heq] at hi
    exact hold hi
  · rw [heq] at hi
    rcases eq_or_ne a addr with rfl | hne
    · obtain rfl : E.shared.next = i := by simpa using hi
      exact ⟨_, after_writers_made hmade, rfl⟩
    · rw [Function.update_of_ne hne] at hi
      exact hold hi

theorem Proper.heard_after (h : E.Proper d) (hm : E.shared.Permits m) {a : SocketAddr}
    (hi : (a, i) ∈ (E.shared.perform m).openings) :
    (a, i) ∈ (E.shared.perform m).chan ++ (E.shared.perform m).unsent ∨
      ∃ w, (E.after m).writers i = some w ∧ w.addr = a := by
  obtain ⟨new, hq, -, -, hopen⟩ := SharedReader.perform_queue (m := m) h.live
  have hin : (a, i) ∈ E.shared.chan ++ E.shared.unsent ++ new →
      (a, i) ∈ (E.shared.perform m).chan ++ (E.shared.perform m).unsent ∨
        ∃ v, (E.after m).writers i = some v ∧ v.addr = a := by
    intro hx
    rw [← hq] at hx
    rcases List.mem_append.mp hx with hx | hx
    · have hr : E.shared.received m = some (a, i) := by simpa using hx
      have hmade : E.shared.made m = some (i, .accepted a) := by
        cases m with
        | accept k hooked cx => simp [SharedReader.made, hr]
        | _ => cases hr
      exact Or.inr ⟨_, after_writers_made hmade, rfl⟩
    · exact Or.inl hx
  rw [hopen] at hi
  rcases List.mem_append.mp hi with hi | hi
  · rcases h.heard a i hi with hold | ⟨v, hv, ha⟩
    · exact hin (List.mem_append_left new hold)
    · exact Or.inr ⟨v, h.writers_after hm hv, ha⟩
  · exact hin (List.mem_append_right _ hi)

theorem Proper.after (h : E.Proper d) (hm : E.shared.Permits m) (hlive : m ≠ .disconnect) (hfed : m.Fed)
    (honce : ∀ a alloc, m = .add a alloc → d a = none) : (E.after m).Proper (E.dials m d) := by
  constructor
  case tidy => exact h.tidy.after hm
  case live =>
    rw [after_shared, SharedReader.connected_perform hlive]
    exact h.live
  case aligned =>
    rw [after_shared]
    refine h.aligned.perform h.tidy.exact.coherent hm.1 ?_
    rintro cx t rfl ⟨header, bs, -, -, -, -, -, -, -, -, halloc⟩
    have hyes : t.alloc = true := hfed
    rw [halloc] at hyes
    cases hyes
  case pool => exact fun sockets hfits => h.pool_after hm hfits
  case behaves => exact fun i w hw => h.behaves_after hm honce hw
  case dialer => exact fun a i hi => h.dialer_after hm hi
  case heard =>
    intro a i hi
    rw [after_shared] at hi ⊢
    exact h.heard_after hm hi

end

def sockets (E : Endpoint) (i : ℕ) : SocketAddr :=
  match E.writers i with
  | some w => w.addr
  | none => .unspecified

section
variable {E : Endpoint} {d : SocketAddr → Option ℕ} {i : ℕ} {w w' : Writer}

theorem fits_sockets (E : Endpoint) : E.Fits E.sockets := by
  intro i w hw
  simp [sockets, hw]

theorem Proper.tamed (h : E.Proper d) (hw : E.writers i = some w) :
    Tamed (decide (d w.addr = some i)) w.prog.mem := by
  refine (h.behaves i w hw).tamed fun c e => ?_
  have hpool := threads_ne_fault (h.pool E.sockets E.fits_sockets) i c e
  rwa [pool_threads hw] at hpool

/-- The frames without payload that the endpoint has sent are the handshakes and the final frames
of its writers, each under the address of its writer. -/
theorem Proper.zeros (h : E.Proper d) :
    (∀ x ∈ zerosFrom (.header []) E.wire, x.1 = E.sockets x.2.1) ∧
    ∀ i w, E.writers i = some w → Announced w.prog (framesOf i (zeros w.addr E.wire)) := by
  have huntorn : ∀ i, (∀ c e, (E.pool E.sockets).threads i ≠ .fault c e) →
      Untorn ((E.pool E.sockets).mems i).last := by
    intro i _
    unfold Pool.mems
    cases hw : E.writers i with
    | some w =>
      rw [pool_threads hw]
      exact (h.tamed hw).untorn
    | none =>
      rw [pool_fresh hw]
      intro st hst
      cases hst
  obtain ⟨hown, hall⟩ := zeros_of_reaches (h.pool E.sockets E.fits_sockets) huntorn
  refine ⟨hown, fun i w hw => ?_⟩
  have hannounced := (hall i).2
  rw [pool_threads hw] at hannounced
  have hframes : framesOf i (VtMuxer.zeros w.addr E.wire) =
      (((zerosFrom (.header []) E.wire).filter fun x => x.2.1 = i).map fun x => x.2.2) := by
    unfold framesOf VtMuxer.zeros
    rw [List.filter_map, List.map_map, List.filter_filter]
    congr 1
    refine List.filter_congr fun x hx => ?_
    by_cases hi : x.2.1 = i
    · have ha : x.1 = w.addr := by rw [hown x hx, hi, E.fits_sockets i w hw]
      simp [hi, ha]
    · simp [hi]
  rw [hframes]
  exact hannounced

theorem Proper.acts_advance {o : Origin} {bytes : List UInt8} (h : E.Proper d)
    (h' : (E.advance i w' o bytes).Proper d) (hw : E.writers i = some w) (ha : w'.addr = w.addr) (a : SocketAddr)
    {other : Half} (hover : o = .handshake → a = w.addr → other.dialed ≠ none →
      ∃ j v, E.writers j = some v ∧ v.addr = a ∧ Concludes v.prog) :
    (E.advance i w' o bytes).half d a = E.half d a ∨
      Acts (E.half d a) other ((E.advance i w' o bytes).half d a) := by
  have hself : (E.advance i w' o bytes).writers i = some w' := by simp [Endpoint.advance, Endpoint.setWriter]
  have hwire : (E.advance i w' o bytes).wire = E.wire ++ stamp i o bytes := rfl
  obtain ⟨hown, hall⟩ := h'.zeros
  rw [hwire, zerosFrom_append, zerosFrom_stamp] at hown
  have haddr : ∀ b ∈ emptied ((((Position.header []).scan (plain E.wire)).1.scan bytes).2), b = w.addr := by
    intro b hb
    have hmem := hown (b, i, o) (List.mem_append_right _ (List.mem_map_of_mem hb))
    have hb' : b = (E.advance i w' o bytes).sockets i := hmem
    rw [hb', fits_sockets _ i w' hself, ha]
  have hsent : VtMuxer.zeros a (E.advance i w' o bytes).wire = VtMuxer.zeros a E.wire ++
      ((emptied ((((Position.header []).scan (plain E.wire)).1.scan bytes).2)).filter fun b => b = a).map
        fun _ => (i, o) := by
    unfold VtMuxer.zeros
    rw [hwire, zerosFrom_append, zerosFrom_stamp, List.filter_append, List.map_append, List.filter_map, List.map_map]
    rfl
  generalize hnew : emptied ((((Position.header []).scan (plain E.wire)).1.scan bytes).2) = new at haddr hsent
  have hhalf : (E.advance i w' o bytes).half d a =
      { E.half d a with sent := (E.half d a).sent ++ ((new.filter fun b => b = a).map fun _ => o).map (i, ·) } := by
    unfold half
    rw [hsent, List.map_map]
    rfl
  rw [hhalf]
  rcases eq_or_ne a w.addr with rfl | hne
  · right
    obtain ⟨b, hb⟩ := h.tidy.owner i w hw
    refine .send i _ ?_ ?_ ?_
    · show E.reader.under w.addr i ≠ none
      rw [Watched.under_eq_some.mpr hb]
      simp
    · have hlaw := (hall i w' hself).along (h'.tamed hself)
      have hcourse : (E.half d w.addr).course i =
          if decide (d w.addr = some i) = true then [.handshake, .eof] else [.eof] := by
        by_cases hd : d w.addr = some i
        · simp [half, Half.course, hd]
        · simp [half, Half.course, hd]
      rw [ha, hsent] at hlaw
      rw [hcourse, List.map_map]
      exact hlaw
    · intro hin hdial
      obtain ⟨b, -, hb⟩ := List.mem_map.mp hin
      obtain ⟨j, v, hv, hva, hcon⟩ := hover hb rfl hdial
      obtain ⟨closed, hclosed, hframes⟩ := h.zeros.2 j v hv
      have hmem : Origin.eof ∈ framesOf j (VtMuxer.zeros v.addr E.wire) := by
        rw [hframes, hclosed.mpr hcon]
        simp
      obtain ⟨x, hx, hx2⟩ := List.mem_map.mp hmem
      rw [hva] at hx
      refine ⟨x.1, ?_⟩
      rw [← hx2]
      exact (List.mem_filter.mp hx).1
  · left
    have hnil : (new.filter fun b => b = a) = [] := by
      rw [List.filter_eq_nil_iff]
      intro b hb
      rw [haddr b hb]
      simpa using hne.symm
    rw [hnil]
    simp

end
end Endpoint

end VtMuxer
