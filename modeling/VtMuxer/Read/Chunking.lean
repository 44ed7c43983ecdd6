import VtMuxer.Read.Tracks

/-! The shared reader against the reference demultiplexer: after every iteration of its loop
it has done what the reference does with the bytes read so far, however the stream cut them
and whatever was read from the buffers in between. -/
namespace VtMuxer

namespace SharedReader

/-- The entries whose reader is not dropped, including all that are still to come. -/
def living (s : SharedReader) (id : ℕ) : Bool := s.next ≤ id ∨ (s.entries id).handle ≠ .dropped

/-- What can happen to a reader whose listener stays as it is: an iteration of the poll
loop by anybody, a read from a buffer, and a receive by the listener. -/
inductive Drives : SharedReader → SharedReader → Prop where
  | once (s : SharedReader) (cx : Waker) (t : Tick) (h : s.Fair t) : Drives s (s.pollOnce cx t).2
  | read (s : SharedReader) (cx : Waker) (id n : ℕ) : Drives s (s.readEntry cx id n).2
  | accept (s : SharedReader) (a : ℕ) (hooked : Bool) (cx : Waker) : Drives s (s.recvEntry a hooked cx).2

end SharedReader

theorem Tracks.ofReader {s : SharedReader} (h : s.state = .nextPacket []) :
    Tracks s.living s (.ofReader s) where
  map := rfl
  next := rfl
  events := rfl
  appended _ _ := rfl
  alive id hid := by
    have hn : ¬ s.next ≤ id := by omega
    simp [SharedReader.living, hn]
  fresh id hid := by simp [SharedReader.living, hid]
  sending a id polled he := by
    rw [h] at he
    cases he

/-- The reader stands where the reference does. -/
structure Agrees (s : SharedReader) (d : Demux) (p : Position) : Prop where
  map : s.socketMap = d.map
  traffic : s.traffic = d.events
  received : ∀ id < s.next, (s.entries id).taken ++ (s.entries id).buffer.bytes = d.appended id
  position : s.position = some p

section
variable {s₀ s : SharedReader}

theorem Tracks.drives {s' : SharedReader} {live : ℕ → Bool} {d : Demux} {p : Position}
    (h : Tracks live s d) (hp : s.position = some p) (hv : p.Valid) (hs : s.Drives s') :
    ∃ bs, Advances live s s' d p bs := by
  cases hs with
  | once cx t hf => exact h.pollOnce hp hv hf cx
  | read cx id n =>
    obtain ⟨hc, hn, hst⟩ := s.readEntry_rest cx id n
    have hpos : (s.readEntry cx id n).2.position = some p := by
      rw [← hp, SharedReader.position, SharedReader.position, hst]
    exact ⟨[], (h.readEntry cx id n).stays hv hc hn hpos⟩
  | accept a hooked cx =>
    obtain ⟨hc, hn, hst⟩ := s.recvEntry_rest a hooked cx
    have hpos : (s.recvEntry a hooked cx).2.position = some p := by
      rw [← hp, SharedReader.position, SharedReader.position, hst]
    exact ⟨[], (h.recvEntry a hooked cx).stays hv hc hn hpos⟩

theorem Advances.trans {s₁ s₂ : SharedReader} {live : ℕ → Bool} {d : Demux} {p : Position}
    {xs ys : List UInt8} (ha : Advances live s₀ s₁ d p xs)
    (hb : Advances live s₁ s₂ (d.resume live s₀.connected xs p).1 (d.resume live s₀.connected xs p).2 ys) :
    Advances live s₀ s₂ d p (xs ++ ys) := by
  have hr : d.resume live s₀.connected (xs ++ ys) p =
      (d.resume live s₀.connected xs p).1.resume live s₀.connected ys (d.resume live s₀.connected xs p).2 :=
    Demux.resume_append d p xs ys
  have htr := hb.tracks
  have hpos := hb.position
  rw [ha.connected] at htr hpos
  constructor
  case consumed => rw [hb.consumed, ha.consumed, List.append_assoc]
  case connected => rw [hb.connected, ha.connected]
  case tracks => rw [hr]; exact htr
  case position => rw [hr]; exact hpos

theorem Tracks.run {live : ℕ → Bool} {d : Demux} {p : Position} (h₀ : Tracks live s₀ d)
    (hp : s₀.position = some p) (hv : p.Valid) (h : Relation.ReflTransGen SharedReader.Drives s₀ s) :
    ∃ bytes, Advances live s₀ s d p bytes := by
  induction h with
  | refl => exact ⟨[], h₀.stays hv rfl rfl hp⟩
  | tail _ hs ih =>
    obtain ⟨xs, ha⟩ := ih
    have hval : (d.resume live s₀.connected xs p).2.Valid := Demux.resume_valid hv d xs
    obtain ⟨ys, hb⟩ := ha.tracks.drives ha.position hval hs
    exact ⟨xs ++ ys, ha.trans hb⟩

theorem pollOnce_of_full {owner : SocketAddr} {left id : ℕ} (hs : s.state = .read owner left)
    (hu : s.upgrade owner = some id) (hr : (s.entries id).buffer.room = 0) (cx : Waker) (t : Tick) :
    (s.pollOnce cx t).1 = .pending ∧ (s.pollOnce cx t).2.consumed = s.consumed ∧
      (s.pollOnce cx t).2.state = s.state := by
  have hfull : (s.entries id).buffer.fillBuffer t.read = (.ready (.ok none), (s.entries id).buffer) := by
    simp [ReadBuffer.fillBuffer, hr]
  have hp : s.pollOnce cx t = s.pollRead cx t owner left := by simp [SharedReader.pollOnce, hs]
  rw [hp]
  unfold SharedReader.pollRead
  simp only [hu, hfull]
  exact ⟨trivial, rfl, rfl⟩

/-- However the stream cuts its bytes and whoever reads from the buffers meanwhile, the
reader agrees with the reference run on the bytes consumed so far. An iteration refused
because the buffer of the frame's owner is full consumes nothing. -/
theorem demux_chunked (h₀ : s₀.state = .nextPacket [])
    (h : Relation.ReflTransGen SharedReader.Drives s₀ s) :
    ∃ bytes, s.consumed = s₀.consumed ++ bytes ∧
      Agrees s ((Demux.ofReader s₀).run s₀.living s₀.connected bytes).1
        ((Demux.ofReader s₀).run s₀.living s₀.connected bytes).2 ∧
      ∀ owner left id cx t, s.state = .read owner left → s.upgrade owner = some id →
        (s.entries id).buffer.room = 0 → (s.pollOnce cx t).1 = .pending ∧
          (s.pollOnce cx t).2.consumed = s.consumed ∧ (s.pollOnce cx t).2.state = s.state := by
  have hp : s₀.position = some (.header []) := by simp [SharedReader.position, h₀]
  have hv : (Position.header []).Valid := by simp [Position.Valid]
  obtain ⟨bytes, ha⟩ := (Tracks.ofReader h₀).run hp hv h
  have hres : (Demux.ofReader s₀).resume s₀.living s₀.connected bytes (.header []) =
      (Demux.ofReader s₀).run s₀.living s₀.connected bytes := rfl
  have htr := ha.tracks
  have hpos := ha.position
  rw [hres] at htr hpos
  refine ⟨bytes, ha.consumed, ⟨htr.map, htr.events, htr.appended, hpos⟩, ?_⟩
  intro owner left id cx t hs hu hr
  exact pollOnce_of_full hs hu hr cx t

/-- Two frames in five pieces: a connection is opened and accepted and gets two bytes, of which
the first is read before the second is there. -/
theorem demux_chunked_payload :
    ∃ s, Relation.ReflTransGen SharedReader.Drives (.init true) s ∧
      s.consumed = frame .unspecified [] ++ frame .unspecified [7, 8] ∧
      (s.entries 0).taken = [7] ∧ (s.entries 0).buffer.bytes = [8] ∧
      ∃ bytes, s.consumed = bytes ∧
        Agrees s ((Demux.ofReader (.init true)).run (SharedReader.living (.init true)) true bytes).1
          ((Demux.ofReader (.init true)).run (SharedReader.living (.init true)) true bytes).2 := by
  let s₁ := (SharedReader.pollOnce .noop (.bytes ((frame .unspecified []).take 5)) (.init true)).2
  let s₂ := (s₁.pollOnce .noop (.bytes ((frame .unspecified []).drop 5))).2
  let s₃ := (s₂.pollOnce .noop (.bytes [])).2
  let s₄ := (s₃.recvEntry 0 false .noop).2
  let s₅ := (s₄.pollOnce .noop (.bytes ((frame .unspecified [7, 8]).take 9))).2
  let s₆ := (s₅.pollOnce .noop (.bytes (((frame .unspecified [7, 8]).drop 9).take 11))).2
  let s₇ := (s₆.pollOnce .noop (.bytes [7])).2
  let s₈ := (s₇.readEntry .noop 0 1).2
  let s₉ := (s₈.pollOnce .noop (.bytes [8])).2
  have h₂ : Relation.ReflTransGen SharedReader.Drives (.init true) s₂ :=
    .tail (.single (.once _ .noop _ (.bytes (n := 20) rfl (by decide) (by decide))))
      (.once _ .noop _ (.bytes (n := 15) rfl (by decide) (by decide)))
  have h₄ : Relation.ReflTransGen SharedReader.Drives (.init true) s₄ :=
    .tail (.tail h₂ (.once _ .noop _ (.silent rfl))) (.accept _ 0 false .noop)
  have h₆ : Relation.ReflTransGen SharedReader.Drives (.init true) s₆ :=
    .tail (.tail h₄ (.once _ .noop _ (.bytes (n := 20) (by decide +kernel) (by decide) (by decide))))
      (.once _ .noop _ (.bytes (n := 11) (by decide +kernel) (by decide) (by decide)))
  have h₈ : Relation.ReflTransGen SharedReader.Drives (.init true) s₈ :=
    .tail (.tail h₆ (.once _ .noop _ (.bytes (n := 2) (by decide +kernel) (by decide) (by decide))))
      (.read _ .noop 0 1)
  have h₉ : Relation.ReflTransGen SharedReader.Drives (.init true) s₉ :=
    .tail h₈ (.once _ .noop _ (.bytes (n := 1) (by decide +kernel) (by decide) (by decide)))
  obtain ⟨bytes, hc, ha, -⟩ := demux_chunked rfl h₉
  exact ⟨s₉, h₉, by decide +kernel, by decide +kernel, by decide +kernel, bytes, hc, ha⟩

end

end VtMuxer
