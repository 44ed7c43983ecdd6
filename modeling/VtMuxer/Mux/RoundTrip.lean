import VtMuxer.Mux.Receiver

/-! From one end of a pipe to the other: what the connections of the sender pushed is what
the connections accepted by the receiver return. -/
namespace VtMuxer
open Interaction

/-- What has come of the words of each connection at the receiving end. -/
structure Delivered {ι : Type} (sockets : ι → SocketAddr) (words : ι → List UInt8) (wire : List UInt8)
    (r : Receiver) : Prop where
  /-- No address is accepted twice. -/
  distinct : (r.accepted.map Prod.fst).Nodup
  /-- Only connections of the sender are accepted, and each returns its words in order and no
  end before the last of them. -/
  ordered : ∀ a id, (a, id) ∈ r.accepted → ∃ i, sockets i = a ∧
    beforeEof (r.calls id) <+: words i ∧ (HasEof (r.calls id) → beforeEof (r.calls id) = words i)
  /-- Once the stream is consumed and the channel is empty every connection is accepted; once
  its buffer is empty too, all its words are returned and every read finds the end. -/
  complete : r.shared.consumed = wire → r.shared.chan = [] → ∀ i, ∃ id, (sockets i, id) ∈ r.accepted ∧
    ((r.shared.entries id).buffer.bytes = [] → beforeEof (r.calls id) = words i ∧
      ∀ cx n, n ≠ 0 → (r.shared.readEntry cx id n).1 = some [])

section
variable {ι : Type} {sockets : ι → SocketAddr} {words : ι → List UInt8} {wire : List UInt8}

/-- A beginning of a stream that speaks, at which every address has come to some phase. -/
theorem Speaks.beginning {bytes : List UInt8} (h : Speaks sockets words wire) (hb : bytes <+: wire) :
    (∀ i, ∃ ph, Phase.silent.hears (sockets i) ((Position.header []).scan bytes).2 = some ph ∧
      ph.said <+: words i ∧ (∀ w, ph = .closed w → w = words i) ∧ (bytes = wire → ph = .closed (words i))) ∧
    ∀ a, (∀ i, sockets i ≠ a) →
      Phase.silent.hears a ((Position.header []).scan bytes).2 = some .silent := by
  obtain ⟨rest, rfl⟩ := hb
  have hsplit : ∀ a ph, Phase.silent.hears a ((Position.header []).scan (bytes ++ rest)).2 = some ph →
      ∃ ph₁, Phase.silent.hears a ((Position.header []).scan bytes).2 = some ph₁ ∧
        ph₁.hears a (((Position.header []).scan bytes).1.scan rest).2 = some ph := by
    intro a ph hph
    rw [Position.scan_append, Phase.hears_append] at hph
    exact Option.bind_eq_some_iff.mp hph
  constructor
  · intro i
    obtain ⟨ph, hph, hrest⟩ := hsplit _ _ (h.own i)
    refine ⟨ph, hph, Phase.hears_said hrest, ?_, ?_⟩
    · rintro w rfl
      exact (Phase.closed.inj (Phase.hears_closed hrest)).symm
    · intro hall
      have hown := h.own i
      rw [← hall, hph] at hown
      exact Option.some.inj hown
  · intro a ha
    obtain ⟨ph, hph, hrest⟩ := hsplit _ _ (h.others a ha)
    rw [Phase.hears_silent hrest] at hph
    exact hph

namespace Receiver
variable {r : Receiver}

/-- The reader has of each connection what the stream has said of it. -/
theorem Keeps.phases (h : Keeps wire r) (hs : Speaks sockets words wire) :
    ∃ d, Tracks (fun _ => true) r.shared d ∧ d.openings = r.shared.openings ∧
      (∀ i, ∃ ph, d.Saw (sockets i) ph ∧ ph.said <+: words i ∧ (∀ w, ph = .closed w → w = words i) ∧
        (r.shared.consumed = wire → ph = .closed (words i))) ∧
      ∀ a, (∀ i, sockets i ≠ a) → d.Saw a .silent := by
  obtain ⟨hown, hothers⟩ := hs.beginning h.onWire
  have hscan : Demux.resume (fun _ => true) true (.ofReader (.init true)) r.shared.consumed (.header []) = _ :=
    Demux.resume_scan (by simp [Position.Valid]) _ _
  have htr := h.advances.tracks
  rw [show (SharedReader.init true).connected = true from rfl, hscan] at htr
  refine ⟨_, htr, ?_, ?_, ?_⟩
  · rw [SharedReader.openings_eq_traffic, htr.events]
    rfl
  · intro i
    obtain ⟨ph, hph, hrest⟩ := hown i
    exact ⟨ph, (Demux.Saw.init true _).hears (.init true) hph, hrest⟩
  · intro a ha
    exact (Demux.Saw.init true a).hears (.init true) (hothers a ha)

theorem Keeps.distinct (h : Keeps wire r) (hs : Speaks sockets words wire) :
    (r.shared.openings.map Prod.fst).Nodup := by
  obtain ⟨d, -, ho, hown, hothers⟩ := h.phases hs
  rw [← ho]
  refine Demux.nodup_openings fun a => ?_
  by_cases hex : ∃ i, sockets i = a
  · obtain ⟨i, rfl⟩ := hex
    obtain ⟨ph, hsaw, -⟩ := hown i
    exact hsaw.openedAs_le
  · exact (hothers a fun i hi => hex ⟨i, hi⟩).openedAs_le

/-- The entry of an opened connection gets the words of the sender's, and all of them before
it is closed. -/
theorem Keeps.receives (h : Keeps wire r) (hs : Speaks sockets words wire) {a : SocketAddr} {id : ℕ}
    (ha : (a, id) ∈ r.shared.openings) :
    ∃ i, sockets i = a ∧ (r.shared.entries id).appended <+: words i ∧
      ((∀ b, r.shared.socketMap b ≠ some id) → (r.shared.entries id).appended = words i) := by
  obtain ⟨d, htr, ho, hown, hothers⟩ := h.phases hs
  have happ := htr.appended id (h.allocated _ ha)
  rw [← ho] at ha
  have hmem := Demux.mem_openedAs ha
  by_cases hex : ∃ i, sockets i = a
  · obtain ⟨i, rfl⟩ := hex
    obtain ⟨ph, hsaw, hsaid, hclosed, -⟩ := hown i
    refine ⟨i, rfl, ?_⟩
    cases hsaw with
    | silent _ hnone =>
      rw [hnone] at hmem
      cases hmem
    | @talking j said hm hone hj =>
      rw [hone] at hmem
      obtain rfl := List.mem_singleton.mp hmem
      rw [happ, hj]
      refine ⟨hsaid, fun hno => ?_⟩
      rw [htr.map] at hno
      exact absurd hm (hno _)
    | @closed j said _ hone _ _ hj =>
      rw [hone] at hmem
      obtain rfl := List.mem_singleton.mp hmem
      rw [happ, hj]
      exact ⟨hsaid, fun _ => hclosed said rfl⟩
  · cases hothers a fun i hi => hex ⟨i, hi⟩ with
    | silent _ hnone =>
      rw [hnone] at hmem
      cases hmem

theorem Keeps.ordered (h : Keeps wire r) (hs : Speaks sockets words wire) {a : SocketAddr} {id : ℕ}
    (ha : (a, id) ∈ r.accepted) :
    ∃ i, sockets i = a ∧ beforeEof (r.calls id) <+: words i ∧
      (HasEof (r.calls id) → beforeEof (r.calls id) = words i) := by
  have hopen : (a, id) ∈ r.shared.openings := by
    rw [← h.known]
    exact List.mem_append_left _ ha
  have hold := h.allocated _ hopen
  have htold := h.told id hold
  obtain ⟨i, rfl, hle, hall⟩ := h.receives hs hopen
  refine ⟨i, rfl, ?_, ?_⟩
  · rw [htold.bytes]
    have htaken : (r.shared.entries id).taken <+: (r.shared.entries id).appended := List.prefix_append _ _
    exact htaken.trans hle
  · intro hend
    obtain ⟨hw, hempty⟩ := htold.ended hend
    have hfree : ∀ b, r.shared.socketMap b ≠ some id := by
      rcases h.coherent.linked id hold with ⟨hone, -⟩ | ⟨-, hno⟩
      · rw [hw] at hone
        cases hone
      · exact hno
    rw [htold.bytes, ← ReaderEntry.appended_drained _ hempty, hall hfree]

theorem Keeps.complete (h : Keeps wire r) (hs : Speaks sockets words wire)
    (hall : r.shared.consumed = wire) (hchan : r.shared.chan = []) (i : ι) :
    ∃ id, (sockets i, id) ∈ r.accepted ∧ ((r.shared.entries id).buffer.bytes = [] →
      beforeEof (r.calls id) = words i ∧
        ∀ cx n, n ≠ 0 → (r.shared.readEntry cx id n).1 = some []) := by
  obtain ⟨d, htr, ho, hown, -⟩ := h.phases hs
  obtain ⟨ph, hsaw, -, -, hend⟩ := hown i
  rw [hend hall] at hsaw
  cases hsaw with
  | @closed id said hm hone hlt hfree happ =>
    have hopen := Demux.mem_openings_of_openedAs hone
    rw [ho, ← h.known, hchan, List.nil_append] at hopen
    have hacc : (sockets i, id) ∈ r.accepted := by
      rcases List.mem_append.mp hopen with hin | hin
      · exact hin
      · unfold SharedReader.unsent at hin
        split at hin
        · rename_i a j hst
          obtain ⟨rfl, rfl⟩ : sockets i = a ∧ id = j := by simpa using hin
          have hsend := h.sending _ _ _ hst
          rw [htr.map, hm] at hsend
          cases hsend
        · cases hin
    have hold : id < r.shared.next := htr.next ▸ hlt
    have hweak : (r.shared.entries id).weak = 0 := by
      rcases h.coherent.linked id hold with ⟨-, b, hb⟩ | ⟨hw, -⟩
      · rw [htr.map] at hb
        exact absurd hb (hfree b)
      · exact hw
    refine ⟨id, hacc, fun hempty => ⟨?_, ?_⟩⟩
    · rw [(h.told id hold).bytes, ← ReaderEntry.appended_drained _ hempty, htr.appended id hold, happ]
    · intro cx n hn
      simp [SharedReader.readEntry, hn, ReadBuffer.read_fst, hempty, hweak]

end Receiver

/-- Whatever the interleaving of the senders' calls, the pieces in which the stream arrives
and the order of the receivers' calls, what each connection was given at one end is what it
returns at the other. -/
theorem round_trip [DecidableEq ι] (hinj : Function.Injective sockets) {P : Writers ι}
    (hP : (writers ι (· ≠ .drop)).Reaches (Writers.init sockets) P) (hf : Finished P) {r : Receiver}
    (hr : Receiver.Runs (plain P.world) r) :
    Delivered sockets (fun i => (P.mems i).pushed) (plain P.world) r := by
  have hs := finished_speaks hinj hP hf
  have hk := hr.keeps
  constructor
  case distinct =>
    have hnodup := hk.distinct hs
    rw [← hk.known, List.map_append] at hnodup
    exact hnodup.of_append_left
  case ordered => exact fun a id ha => hk.ordered hs ha
  case complete => exact fun hall hchan i => hk.complete hs hall hchan i

end

/-- A byte is written, the connection shut down, and at the other end the byte and then the
end are read. -/
theorem round_trip_byte :
    ∃ (P : Writers Unit) (r : Receiver), (P.mems ()).pushed = [7] ∧ r.shared.consumed = plain P.world ∧
      r.accepted = [(.unspecified, 0)] ∧ r.calls 0 = [(5, [7]), (5, [])] ∧
      Delivered (fun _ => .unspecified) (fun i => (P.mems i).pushed) (plain P.world) r := by
  have hsend : ∃ P : Writers Unit, (writers Unit (· ≠ .drop)).Reaches (Writers.init fun _ => .unspecified) P ∧
      Finished P ∧ (P.mems ()).pushed = [7] ∧
      plain P.world = frame .unspecified [] ++ frame .unspecified [7] ++ frame .unspecified [] := by
    refine ⟨_, .call () .handshake rfl ⟨trivial, nofun⟩ <|
      .answer () ⟨.awaitLock false, ()⟩ rfl ⟨trivial, fun _ _ => rfl⟩ <|
      .answer () ⟨.awaitWrite (frame .unspecified []), .ok 20⟩ rfl ⟨⟨by decide, by decide⟩, nofun⟩ <|
      .call () (.write .noop [7]) rfl ⟨nofun, nofun⟩ <|
      .call () (.shutdown .noop) rfl ⟨nofun, nofun⟩ <|
      .answer () ⟨.tryLock, true⟩ rfl ⟨trivial, fun _ _ => rfl⟩ <|
      .answer () ⟨.write (frame .unspecified [7]), .ready (.ok 21)⟩ rfl ⟨⟨by decide, by decide⟩, nofun⟩ <|
      .answer () ⟨.write (frame .unspecified []), .ready (.ok 20)⟩ rfl ⟨⟨by decide, by decide⟩, nofun⟩ <|
      .refl, ?_, rfl, rfl⟩
    intro i
    exact ⟨_, rfl, rfl⟩
  obtain ⟨P, hP, hf, hp, hw⟩ := hsend
  have hrecv : ∃ r, Receiver.Runs (plain P.world) r ∧ r.shared.consumed = plain P.world ∧
      r.accepted = [(.unspecified, 0)] ∧ r.calls 0 = [(5, [7]), (5, [])] := by
    rw [hw]
    have h₀ : Receiver.Runs (frame .unspecified [] ++ frame .unspecified [7] ++ frame .unspecified [])
        .init := .refl
    have h₁ := h₀.bytes (frame .unspecified []) rfl (by decide) (by decide) ⟨_, rfl⟩
    have h₂ := h₁.step (.once .noop (.bytes []) ⟨rfl, nofun⟩ ⟨_, rfl⟩)
    have h₃ := h₂.step (.accept 0 false .noop)
    have h₄ := h₃.bytes ((frame .unspecified [7]).take 20) rfl (by decide) (by decide) ⟨_, rfl⟩
    have h₅ := h₄.bytes [7] rfl (by decide) (by decide) ⟨_, rfl⟩
    have h₆ := h₅.step (.read .noop .unspecified 0 5 (List.mem_singleton_self _))
    have h₇ := h₆.bytes (frame .unspecified []) rfl (by decide) (by decide) ⟨_, rfl⟩
    have h₈ := h₇.step (.read .noop .unspecified 0 5 (List.mem_singleton_self _))
    exact ⟨_, h₈, rfl, rfl, rfl⟩
  obtain ⟨r, hr, hc, ha, hcalls⟩ := hrecv
  have hinj : Function.Injective fun _ : Unit => SocketAddr.unspecified := fun _ _ _ => rfl
  exact ⟨P, r, hp, hc, ha, hcalls, round_trip hinj hP hf hr⟩

end VtMuxer
