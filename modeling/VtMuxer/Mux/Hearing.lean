import VtMuxer.Mux.Conduct
import VtMuxer.Mux.Voices

/-! What an entry has of the stream: the payload of its address between two frames without payload,
as long as somebody holds its reader. -/
namespace VtMuxer
open Interaction Rendezvous

namespace SharedReader

section
variable {s s' : SharedReader} {cx : Waker} {signals : List Signal} {a : SocketAddr} {m : Move} {id : ℕ}

theorem utters_data_self (a : SocketAddr) (bs : List UInt8) : (bs.map (Signal.data a)).filterMap (Signal.utters a) = bs := by
  rw [List.filterMap_map]
  have hf : (Signal.utters a ∘ Signal.data a : UInt8 → Option UInt8) = some := by
    funext v
    simp [Signal.utters]
  rw [hf, List.filterMap_some]

theorem utters_data_ne {b : SocketAddr} (h : b ≠ a) (bs : List UInt8) :
    (bs.map (Signal.data b)).filterMap (Signal.utters a) = [] := by
  rw [List.filterMap_eq_nil_iff]
  intro g hg
  obtain ⟨v, -, rfl⟩ := List.mem_map.mp hg
  simp [Signal.utters, h]

theorem Effect.hears (h : Effect cx s signals s') (hm : s.socketMap a = some id) :
    (s'.entries id).appended = (s.entries id).appended ++
      if (s.entries id).handle = .dropped then [] else signals.filterMap (Signal.utters a) := by
  have hid := s.allocated a id hm
  cases h with
  | @discard owner left n bs hs hu h0 =>
    have hmute : (if (s.entries id).handle = .dropped then []
        else (bs.map (Signal.data owner)).filterMap (Signal.utters a)) = [] := by
      split
      · rfl
      · rename_i hlive
        refine utters_data_ne (fun ho => hlive ?_) bs
        subst ho
        by_contra hlive
        simp [upgrade, hm, hlive] at hu
    rw [hmute, List.append_nil]
    rfl
  | @fill owner left n j bs hs hu h0 hroom =>
    obtain ⟨hj, hlive⟩ := Option.filter_eq_some_iff.mp hu
    rcases eq_or_ne owner a with rfl | hne
    · obtain rfl : j = id := by
        rw [hm] at hj
        exact (Option.some.inj hj).symm
      rw [if_neg (by simpa using hlive), utters_data_self]
      simp [SharedReader.setState, SharedReader.fill, SharedReader.wake, SharedReader.emit, deliver,
        SharedReader.setEntry, hroom]
    · have hjd : id ≠ j := by
        rintro rfl
        exact hne (s.distinct _ _ _ hj hm)
      rw [utters_data_ne hne, ite_self, List.append_nil]
      simp [SharedReader.setState, SharedReader.fill, SharedReader.wake, SharedReader.emit, deliver,
        SharedReader.setEntry, SharedReader.consume, hjd]
  | payload => simp [SharedReader.setState, SharedReader.consume]
  | @close header bs addr =>
    have hsame : ((SharedReader.remove addr (s.consume bs)).entries id).appended = (s.entries id).appended :=
      remove_appended addr (s.consume bs) id
    simp [SharedReader.setState, hsame]
  | ignore => simp [SharedReader.setState, SharedReader.consume]
  | opening => simp [SharedReader.emit, SharedReader.setState, SharedReader.add, SharedReader.consume, hid.ne]
  | @sent addr j polled => cases polled <;> simp [SharedReader.setState, SharedReader.offer]
  | @unsent addr j =>
    split
    · rcases eq_or_ne id j with rfl | hne
      · simp [SharedReader.setState, SharedReader.setEntry]
      · simp [SharedReader.setState, SharedReader.setEntry, hne]
    · simp [SharedReader.setState]

theorem Effect.dropped (h : Effect cx s signals s') (hid : id < s.next) (hd : (s.entries id).handle = .dropped) :
    (s'.entries id).handle = .dropped := by
  cases h with
  | discard => exact hd
  | @fill owner left n j bs =>
    rcases eq_or_ne id j with rfl | hne
    · simp [SharedReader.setState, SharedReader.fill, SharedReader.wake, SharedReader.emit, deliver,
        SharedReader.setEntry, hd]
    · simp [SharedReader.setState, SharedReader.fill, SharedReader.wake, SharedReader.emit, deliver,
        SharedReader.setEntry, SharedReader.consume, hne, hd]
  | payload => exact hd
  | @close header bs addr => exact (remove_buffer addr (s.consume bs) id).2.trans hd
  | ignore => exact hd
  | opening => simp [SharedReader.emit, SharedReader.setState, SharedReader.add, SharedReader.consume, hid.ne, hd]
  | @sent addr j polled => cases polled <;> simp [SharedReader.setState, SharedReader.offer, hd]
  | @unsent addr j =>
    split
    · rcases eq_or_ne id j with rfl | hne
      · simp [SharedReader.setState, SharedReader.setEntry]
      · simp [SharedReader.setState, SharedReader.setEntry, hne, hd]
    · exact hd

theorem Effect.appended_new (h : Effect cx s signals s') (hn : s'.next ≠ s.next) :
    (s'.entries s.next).appended = [] := by
  cases h with
  | discard => exact absurd rfl hn
  | fill => exact absurd rfl hn
  | payload => exact absurd rfl hn
  | @close header bs addr =>
    exact absurd (remove_next addr (s.consume bs)) hn
  | ignore => exact absurd rfl hn
  | opening => simp [SharedReader.emit, SharedReader.setState, SharedReader.add, SharedReader.consume, ReaderEntry.new]
  | @sent addr j polled => exact absurd (by cases polled <;> simp [SharedReader.setState, SharedReader.offer]) hn
  | @unsent addr j => exact absurd (by split <;> rfl) hn

/-- Whatever is done with the reader, the entry that the map has under an address gets all the
payload of that address that is read then. -/
theorem Coherent.hears (h : s.Coherent) (hs : s.Sane m) (hm : s.socketMap a = some id) :
    ((s.perform m).entries id).appended = (s.entries id).appended ++
      if (s.entries id).handle = .dropped then [] else (s.said m).filterMap (Signal.utters a) := by
  have hstill : ((s.perform m).entries id).appended = (s.entries id).appended →
      (s.said m).filterMap (Signal.utters a) = [] → ((s.perform m).entries id).appended = (s.entries id).appended ++
        if (s.entries id).handle = .dropped then [] else (s.said m).filterMap (Signal.utters a) := by
    intro ha hz
    rw [ha, hz, ite_self, List.append_nil]
  rcases s.perform_calm m with ⟨cx, t, rfl⟩ | ⟨addr, alloc, rfl⟩ | hcalm
  · by_cases he : s.state = .error
    · have heq : s.perform (.once cx t) = s := by simp [perform, pollOnce, he]
      refine hstill (by rw [heq]) ?_
      rw [said_still (by rw [heq])]
      rfl
    obtain ⟨p, hp⟩ := exists_position he
    rcases (s.pollOnce_turn cx t).outcome hs hp (h.valid p hp) with ⟨bs, signals, hh, heff⟩ | ⟨bs, hh⟩ | ⟨header, bs, hst⟩
    · rw [said_eq hp hh.consumed, hh.signals]
      exact heff.hears hm
    · refine hstill (hh.appended id) ?_
      rw [said_eq hp hh.consumed, hh.signals]
      rfl
    · have hres : (s.pollOnce cx t).2 = s.consume bs := hst.result
      have hp' : s.position = some (.header header) := by simp [position, hst.state]
      refine hstill ?_ ?_
      · show ((s.pollOnce cx t).2.entries id).appended = _
        rw [hres]
        rfl
      · rw [said_eq hp' (congrArg consumed hres), hst.scan]
        rfl
  · rcases s.perform_add addr alloc with heq | ⟨-, heq⟩
    · refine hstill (by rw [heq]) ?_
      rw [said_still (by rw [heq])]
      rfl
    · refine hstill ?_ ?_
      · rw [heq]
        simp [SharedReader.add, (s.allocated a id hm).ne]
      · rw [said_still (by rw [heq]; rfl)]
        rfl
  · refine hstill (hcalm.appended id) ?_
    rw [said_still hcalm.consumed]
    rfl

theorem Coherent.dropped (h : s.Coherent) (hs : s.Sane m) (hid : id < s.next) (hd : (s.entries id).handle = .dropped) :
    ((s.perform m).entries id).handle = .dropped := by
  cases m with
  | once cx t =>
    by_cases he : s.state = .error
    · simpa [perform, pollOnce, he] using hd
    obtain ⟨p, hp⟩ := exists_position he
    rcases (s.pollOnce_turn cx t).outcome hs hp (h.valid p hp) with ⟨bs, signals, -, heff⟩ | ⟨bs, hh⟩ | ⟨header, bs, hst⟩
    · exact heff.dropped hid hd
    · exact (hh.handle id).trans hd
    · have hres : (s.pollOnce cx t).2 = s.consume bs := hst.result
      show ((s.pollOnce cx t).2.entries id).handle = .dropped
      rw [hres]
      exact hd
  | yield cx => exact hd
  | read cx j n =>
    show ((s.readEntry cx j n).2.entries id).handle = .dropped
    rw [readEntry_handle, hd]
  | accept k hooked cx =>
    show ((s.recvEntry k hooked cx).2.entries id).handle = .dropped
    unfold SharedReader.recvEntry
    split
    · unfold awaitItem
      split <;> exact hd
    · rename_i item rest _
      dsimp only
      rw [dropReceiver_entries]
      rcases eq_or_ne id item.2 with rfl | hne
      · simp [SharedReader.setEntry, hd]
      · simp [SharedReader.setEntry, hne, hd]
  | leave k hooked =>
    show ((s.dropReceiver k hooked).entries id).handle = .dropped
    rw [dropReceiver_entries, hd]
  | add addr alloc =>
    rcases s.perform_add addr alloc with heq | ⟨-, heq⟩
    · rw [heq, hd]
    · rw [heq]
      simp [SharedReader.add, hid.ne, hd]
  | release j =>
    rcases eq_or_ne id j with rfl | hne
    · simp [perform, SharedReader.release, SharedReader.setEntry]
    · simp [perform, SharedReader.release, SharedReader.setEntry, hne, hd]
  | disconnect => exact hd

theorem Coherent.appended_new (h : s.Coherent) (hs : s.Sane m) (hn : (s.perform m).next ≠ s.next) :
    ((s.perform m).entries s.next).appended = [] := by
  rcases s.perform_calm m with ⟨cx, t, rfl⟩ | ⟨addr, alloc, rfl⟩ | hcalm
  · by_cases he : s.state = .error
    · exact absurd (by simp [perform, pollOnce, he]) hn
    obtain ⟨p, hp⟩ := exists_position he
    rcases (s.pollOnce_turn cx t).outcome hs hp (h.valid p hp) with ⟨bs, signals, -, heff⟩ | ⟨bs, hh⟩ | ⟨header, bs, hst⟩
    · exact heff.appended_new hn
    · exact absurd hh.next hn
    · exact absurd (congrArg next hst.result) hn
  · rcases s.perform_add addr alloc with heq | ⟨-, heq⟩
    · exact absurd (by rw [heq]) hn
    · rw [heq]
      simp [SharedReader.add, ReaderEntry.new]
  · exact absurd hcalm.next hn

theorem Coherent.deed (h : s.Coherent) (hs : s.Sane m) (hc : s.connected = true) (hfed : m.Fed) (a : SocketAddr) :
    ∃ new, (s.perform m).deeds a = s.deeds a ++ new ∧
      (new = [] ∧ .zero a ∉ s.said m ∨
        (∃ id, new = [.closed id] ∧ s.socketMap a = some id ∧ s.said m = [.zero a]) ∨
        new = [.opened s.next] ∧ s.socketMap a = none ∧ s.said m = [.zero a]) := by
  have hsame : (s.perform m).traffic = s.traffic → (s.perform m).deeds a = s.deeds a ++ [] := by
    intro ht
    unfold deeds
    rw [ht, List.append_nil]
  cases h.account hs with
  | silent hn hm hz ht => exact ⟨[], hsame ht, Or.inl ⟨rfl, hz a⟩⟩
  | @closed addr id hsaid hk hn hm ht =>
    refine ⟨_, deeds_append ht a, ?_⟩
    by_cases ha : addr = a
    · subst ha
      exact Or.inr (Or.inl ⟨id, by simp [Event.deed], hk, hsaid⟩)
    · exact Or.inl ⟨by simp [Event.deed, ha], by simp [hsaid, Ne.symm ha]⟩
  | @unheard addr hsaid hk hn hm hwhy =>
    rcases hwhy with hoff | ⟨cx, t, rfl, hno⟩
    · rw [hc] at hoff
      cases hoff
    · have hyes : t.alloc = true := hfed
      rw [hno] at hyes
      cases hyes
  | @opened addr hsaid hsub hk hn hm ht =>
    refine ⟨_, deeds_append ht a, ?_⟩
    by_cases ha : addr = a
    · subst ha
      exact Or.inr (Or.inr ⟨by simp [Event.deed], hk, hsaid⟩)
    · exact Or.inl ⟨by simp [Event.deed, ha], by simp [hsaid, Ne.symm ha]⟩
  | added hadd hsaid hk hn hm ht => exact ⟨[], hsame ht, Or.inl ⟨rfl, by simp [hsaid]⟩⟩

end

end SharedReader

section
variable {ι : Type} {a : SocketAddr} {n k : ℕ} {t u : List (Signal × ι × Origin)}

@[simp] theorem inPhase_append (k : ℕ) (v w : List (ι × ℕ × UInt8)) : inPhase k (v ++ w) = inPhase k v ++ inPhase k w := by
  simp [inPhase]

/-- Between two frames without payload there is one phase. -/
theorem inPhase_voices (h : Signal.zero a ∉ u.map Prod.fst) :
    inPhase k (voices a n u) = if k = n then (u.map Prod.fst).filterMap (Signal.utters a) else [] := by
  induction u with
  | nil => simp [voices, inPhase]
  | cons x u ih =>
    obtain ⟨g, i, o⟩ := x
    have hu : Signal.zero a ∉ u.map Prod.fst := fun hin => h (List.mem_cons_of_mem _ hin)
    cases g with
    | data b v =>
      by_cases hb : b = a
      · by_cases hk : k = n
        · have hrest := ih hu
          rw [if_pos hk] at hrest
          subst hk
          simpa [voices, hb, inPhase, Signal.utters] using hrest
        · have hrest := ih hu
          rw [if_neg hk] at hrest
          simpa [voices, hb, inPhase, hk, Ne.symm hk] using hrest
      · simpa [voices, hb, Signal.utters] using ih hu
    | zero b =>
      have hb : b ≠ a := by
        rintro rfl
        exact h (by simp)
      simpa [voices, hb, List.filterMap_cons] using ih hu

theorem inPhase_of_lt (h : k < n) : inPhase k (voices a n t) = [] := by
  unfold inPhase
  rw [List.map_eq_nil_iff, List.filter_eq_nil_iff]
  rintro ⟨i, l, v⟩ hv
  have hle := (le_of_mem_voices hv).1
  simp
  omega

theorem inPhase_of_gt (h : (ends a t).length < k) : inPhase k (voices a 0 t) = [] := by
  unfold inPhase
  rw [List.map_eq_nil_iff, List.filter_eq_nil_iff]
  rintro ⟨i, l, v⟩ hv
  have hle := (le_of_mem_voices hv).2
  simp
  omega

theorem ends_eq_nil (h : Signal.zero a ∉ u.map Prod.fst) : ends a u = [] := by
  unfold ends
  rw [List.map_eq_nil_iff, List.filter_eq_nil_iff]
  intro x hx
  simp only [decide_eq_true_eq]
  intro heq
  exact h (heq ▸ List.mem_map_of_mem hx)

theorem ends_of_zero (h : u.map Prod.fst = [Signal.zero a]) : (ends a u).length = 1 ∧ voices a n u = [] := by
  obtain ⟨x, rfl⟩ : ∃ x, u = [x] := List.length_eq_one_iff.mp (by simpa using congrArg List.length h)
  obtain ⟨g, i, o⟩ := x
  obtain rfl : g = .zero a := by simpa using h
  simp [ends, voices]

end

namespace Watched

/-- What the entries of an address have of what the stream has said so far. -/
structure Filed (W : Watched) (a : SocketAddr) (t : List (Signal × ℕ × Origin)) : Prop where
  lt : ∀ id, .closed id ∈ W.shared.deeds a → id < W.shared.next
  closed : ∀ id b, W.since id = some (a, b) → (b = true ↔ .closed id ∈ W.shared.deeds a)
  heard : (W.shared.deeds a).length = (ends a t).length
  filed : ∀ id b, W.since id = some (a, b) →
    (W.shared.entries id).appended <+: inPhase ((W.shared.deeds a).idxOf (.closed id)) (voices a 0 t) ∧
    ((W.shared.entries id).handle ≠ .dropped →
      (W.shared.entries id).appended = inPhase ((W.shared.deeds a).idxOf (.closed id)) (voices a 0 t))

section
variable {W : Watched} {m : Move} {a : SocketAddr} {t u : List (Signal × ℕ × Origin)} {id : ℕ} {b : Bool}

theorem Filed.init (connected : Bool) (a : SocketAddr) : (Watched.init connected).Filed a [] where
  lt id hin := by cases hin
  closed id b hb := by cases hb
  heard := rfl
  filed id b hb := by cases hb

theorem since_after_cases (hid : (W.after m).since id = some (a, b)) :
    (∃ c, W.since id = some (a, c) ∧ b = (c || decide (Signal.zero a ∈ W.shared.said m))) ∨
      id = W.shared.next ∧ b = false ∧ (W.shared.perform m).next ≠ W.shared.next ∧ W.shared.subject m = some a := by
  by_cases hnew : id = W.shared.next ∧ (W.shared.perform m).next ≠ W.shared.next
  · have hsub : (W.shared.subject m).map (fun a => (a, false)) = some (a, b) := by
      simpa only [Watched.after, if_pos hnew] using hid
    obtain ⟨a', ha', heq⟩ := Option.map_eq_some_iff.mp hsub
    obtain ⟨rfl, rfl⟩ := Prod.mk.inj heq
    exact Or.inr ⟨hnew.1, rfl, hnew.2, ha'⟩
  · have hold : (W.since id).map (fun x => (x.1, x.2 || decide (Signal.zero x.1 ∈ W.shared.said m))) = some (a, b) := by
      simpa only [Watched.after, if_neg hnew] using hid
    obtain ⟨⟨a', c⟩, hc, heq⟩ := Option.map_eq_some_iff.mp hold
    obtain ⟨rfl, rfl⟩ := Prod.mk.inj heq
    exact Or.inl ⟨c, hc, rfl⟩

/-- An entry goes on listening at the same time. -/
theorem Filed.hearsAt (h : W.Filed a t) (hex : W.Exact) (hs : W.shared.Sane m) (hc : W.shared.connected = true)
    (hfed : m.Fed) (hid : W.since id = some (a, b)) :
    ((W.shared.perform m).deeds a).idxOf (.closed id) = (W.shared.deeds a).idxOf (.closed id) := by
  obtain ⟨new, hnew, hcases⟩ := hex.coherent.deed hs hc hfed a
  rw [hnew, List.idxOf_append]
  split
  · rfl
  · rename_i hout
    have hb : b = false := by
      cases b
      · rfl
      · exact absurd ((h.closed id true hid).mp rfl) hout
    have hmap := (hex.known id a b hid).2.1 hb
    rw [List.idxOf_eq_length_iff.mpr hout]
    rcases hcases with ⟨rfl, -⟩ | ⟨j, rfl, hj, -⟩ | ⟨-, hnone, -⟩
    · simp
    · obtain rfl : j = id := by
        rw [hmap] at hj
        exact (Option.some.inj hj).symm
      simp
    · rw [hmap] at hnone
      cases hnone

/-- The payload that a move reads, in the phase that it falls into. -/
theorem Filed.inPhase_said (h : W.Filed a t) (hex : W.Exact) (hs : W.shared.Sane m) (hc : W.shared.connected = true)
    (hfed : m.Fed) (hu : u.map Prod.fst = W.shared.said m) (k : ℕ) :
    inPhase k (voices a 0 (t ++ u)) = inPhase k (voices a 0 t) ++
      if k = (W.shared.deeds a).length then (W.shared.said m).filterMap (Signal.utters a) else [] := by
  obtain ⟨new, -, hcases⟩ := hex.coherent.deed hs hc hfed a
  have hzero : W.shared.said m = [.zero a] → inPhase k (voices a (0 + (ends a t).length) u) =
      if k = (W.shared.deeds a).length then (W.shared.said m).filterMap (Signal.utters a) else [] := by
    intro hsaid
    rw [(ends_of_zero (hu.trans hsaid)).2, hsaid]
    simp [inPhase, List.filterMap_cons]
  rw [voices_append, inPhase_append]
  congr 1
  rcases hcases with ⟨-, hout⟩ | ⟨j, -, -, hsaid⟩ | ⟨-, -, hsaid⟩
  · rw [← hu] at hout
    rw [inPhase_voices hout, h.heard, hu, Nat.zero_add]
  · exact hzero hsaid
  · exact hzero hsaid

theorem Filed.old (h : W.Filed a t) (hex : W.Exact) (hs : W.shared.Sane m) (hc : W.shared.connected = true)
    (hfed : m.Fed) (hu : u.map Prod.fst = W.shared.said m) (hid : W.since id = some (a, b)) :
    ((W.shared.perform m).entries id).appended <+:
      inPhase (((W.shared.perform m).deeds a).idxOf (.closed id)) (voices a 0 (t ++ u)) ∧
    (((W.shared.perform m).entries id).handle ≠ .dropped → ((W.shared.perform m).entries id).appended =
      inPhase (((W.shared.perform m).deeds a).idxOf (.closed id)) (voices a 0 (t ++ u))) := by
  obtain ⟨hlt, hopen, hclosed⟩ := hex.known id a b hid
  obtain ⟨hpre, heq⟩ := h.filed id b hid
  have hback : ((W.shared.perform m).entries id).handle ≠ .dropped → (W.shared.entries id).handle ≠ .dropped :=
    fun hl hd => hl (hex.coherent.dropped hs hlt hd)
  rw [h.hearsAt hex hs hc hfed hid, h.inPhase_said hex hs hc hfed hu]
  cases b with
  | true =>
    have hin := (h.closed id true hid).mp rfl
    have hsame : ((W.shared.perform m).entries id).appended = (W.shared.entries id).appended := by
      rcases hex.appends hs hlt with hsame | ⟨owner, left, bs, -, hm, -⟩
      · exact hsame
      · exact absurd hm (hclosed rfl owner)
    rw [if_neg (List.idxOf_lt_length_of_mem hin).ne, List.append_nil, hsame]
    exact ⟨hpre, fun hl => heq (hback hl)⟩
  | false =>
    have hout : .closed id ∉ W.shared.deeds a := fun hin => by
      have hb := (h.closed id false hid).mpr hin
      cases hb
    rw [if_pos (List.idxOf_eq_length_iff.mpr hout), hex.coherent.hears hs (hopen rfl)]
    by_cases hd : (W.shared.entries id).handle = .dropped
    · rw [if_pos hd, List.append_nil]
      exact ⟨hpre.trans (List.prefix_append _ _), fun hl => absurd hd (hback hl)⟩
    · rw [if_neg hd, heq hd]
      exact ⟨List.prefix_rfl, fun _ => rfl⟩

theorem Filed.new (h : W.Filed a t) (hex : W.Exact) (hs : W.shared.Sane m) (hc : W.shared.connected = true)
    (hfed : m.Fed) (hu : u.map Prod.fst = W.shared.said m)
    (hadd : ∀ alloc, m = .add a alloc → W.shared.socketMap a = none →
      inPhase (W.shared.deeds a).length (voices a 0 t) = [])
    (hn : (W.shared.perform m).next ≠ W.shared.next) (hsub : W.shared.subject m = some a) :
    .closed W.shared.next ∉ (W.shared.perform m).deeds a ∧
      ((W.shared.perform m).entries W.shared.next).appended = [] ∧
      inPhase ((W.shared.perform m).deeds a).length (voices a 0 (t ++ u)) = [] := by
  obtain ⟨new, hnew, hcases⟩ := hex.coherent.deed hs hc hfed a
  have hout : .closed W.shared.next ∉ W.shared.deeds a := fun hin => (h.lt _ hin).false
  have hfree : W.shared.socketMap a = none → .closed W.shared.next ∉ (W.shared.perform m).deeds a := by
    intro hnone
    rw [hnew, List.mem_append]
    rintro (hin | hin)
    · exact hout hin
    · rcases hcases with ⟨rfl, -⟩ | ⟨j, -, hj, -⟩ | ⟨rfl, -, -⟩
      · cases hin
      · rw [hnone] at hj
        cases hj
      · simp at hin
  cases hex.coherent.account hs with
  | silent hn' => exact absurd hn' hn
  | closed hsaid hk hn' => exact absurd hn' hn
  | unheard hsaid hk hn' => exact absurd hn' hn
  | @opened addr hsaid hsub' hk =>
    obtain rfl : addr = a := Option.some.inj (hsub'.symm.trans hsub)
    refine ⟨hfree hk, hex.coherent.appended_new hs hn, ?_⟩
    rcases hcases with ⟨-, hnot⟩ | ⟨j, -, hj, -⟩ | ⟨rfl, -, -⟩
    · exact absurd (by simp [hsaid]) hnot
    · rw [hk] at hj
      cases hj
    · rw [voices_append, (ends_of_zero (hu.trans hsaid)).2, List.append_nil]
      refine inPhase_of_gt ?_
      rw [hnew, List.length_append, h.heard]
      simp
  | @added addr alloc hm hsaid hk =>
    obtain rfl : addr = a := by
      rw [hm] at hsub
      exact Option.some.inj hsub
    refine ⟨hfree hk, hex.coherent.appended_new hs hn, ?_⟩
    rcases hcases with ⟨rfl, -⟩ | ⟨j, -, -, hsaid'⟩ | ⟨-, -, hsaid'⟩
    · rw [hnew, List.append_nil, h.inPhase_said hex hs hc hfed hu, hadd alloc hm hk, hsaid]
      simp
    · rw [hsaid] at hsaid'
      cases hsaid'
    · rw [hsaid] at hsaid'
      cases hsaid'

/-- Whatever is done with the reader, the account is kept. -/
theorem Filed.after (h : W.Filed a t) (hex : W.Exact) (hs : W.shared.Sane m) (hc : W.shared.connected = true)
    (hfed : m.Fed) (hu : u.map Prod.fst = W.shared.said m)
    (hadd : ∀ alloc, m = .add a alloc → W.shared.socketMap a = none →
      inPhase (W.shared.deeds a).length (voices a 0 t) = []) : (W.after m).Filed a (t ++ u) := by
  obtain ⟨new, hnew, hcases⟩ := hex.coherent.deed hs hc hfed a
  have hlen : new.length = (ends a u).length := by
    rcases hcases with ⟨rfl, hout⟩ | ⟨j, rfl, -, hsaid⟩ | ⟨rfl, -, hsaid⟩
    · rw [ends_eq_nil (by rwa [hu])]
      rfl
    · rw [(ends_of_zero (n := 0) (hu.trans hsaid)).1]
      rfl
    · rw [(ends_of_zero (n := 0) (hu.trans hsaid)).1]
      rfl
  have hgrow : W.shared.next ≤ (W.shared.perform m).next := by
    rcases hex.grows hs with hn | ⟨-, -, hn, -⟩ <;> omega
  constructor
  case heard =>
    show ((W.shared.perform m).deeds a).length = _
    rw [hnew, List.length_append, h.heard, hlen, ends_append, List.length_append]
  case lt =>
    intro id hin
    have hin' : .closed id ∈ W.shared.deeds a ++ new := hnew ▸ hin
    rcases List.mem_append.mp hin' with hold | hold
    · exact (h.lt id hold).trans_le hgrow
    · rcases hcases with ⟨rfl, -⟩ | ⟨j, rfl, hj, -⟩ | ⟨rfl, -, -⟩
      · cases hold
      · obtain rfl : id = j := by simpa using hold
        exact (W.shared.allocated a id hj).trans_le hgrow
      · simp at hold
  case closed =>
    intro id b hid
    show b = true ↔ .closed id ∈ (W.shared.perform m).deeds a
    rcases since_after_cases hid with ⟨c, hc', rfl⟩ | ⟨rfl, rfl, hn, hsub⟩
    · rw [hnew, List.mem_append, ← h.closed id c hc', Bool.or_eq_true, decide_eq_true_eq]
      refine or_congr_right' fun hopen => ?_
      have hmap := (hex.known id a c hc').2.1 (by simpa using hopen)
      rcases hcases with ⟨rfl, hout⟩ | ⟨j, rfl, hj, hsaid⟩ | ⟨-, hnone, -⟩
      · simp [hout]
      · rw [hmap] at hj
        simp [hsaid, Option.some.inj hj]
      · rw [hmap] at hnone
        cases hnone
    · simp [(h.new hex hs hc hfed hu hadd hn hsub).1]
  case filed =>
    intro id b hid
    show ((W.shared.perform m).entries id).appended <+:
        inPhase (((W.shared.perform m).deeds a).idxOf (.closed id)) (voices a 0 (t ++ u)) ∧
      (((W.shared.perform m).entries id).handle ≠ .dropped → ((W.shared.perform m).entries id).appended =
        inPhase (((W.shared.perform m).deeds a).idxOf (.closed id)) (voices a 0 (t ++ u)))
    rcases since_after_cases hid with ⟨c, hc', rfl⟩ | ⟨rfl, rfl, hn, hsub⟩
    · exact h.old hex hs hc hfed hu hc'
    · obtain ⟨hout, hempty, hnone⟩ := h.new hex hs hc hfed hu hadd hn hsub
      rw [List.idxOf_eq_length_iff.mpr hout, hempty, hnone]
      exact ⟨List.prefix_rfl, fun _ => rfl⟩

end

end Watched

end VtMuxer
