import VtMuxer.Read.Moves

/-! Where the next header is looked for after an error. Most errors end the reader or leave
it where it was; a new connection without memory gives up a header that is consumed, with
the bytes of it that earlier reads have stored still counted. -/
namespace VtMuxer

namespace SharedReader

/-- The reader stands where the bytes consumed so far lead. -/
def Accounts (s : SharedReader) : Prop := s.position = some ((Position.header []).scan s.consumed).1

/-- No poll will ever return anything but an error. -/
def Doomed (s : SharedReader) : Prop :=
  ∀ s₁, Plays (fun _ _ => True) s s₁ → ∀ cx ts r s₂, s₁.poll cx ts = some (r, s₂) → ∃ e, r = .ready (.error e)

/-- The next read completes a header that an earlier one began, and the connection that the
header opens finds no memory. -/
def Spills (s : SharedReader) (t : Tick) : Prop :=
  ∃ header bs, s.state = .nextPacket header ∧ header ≠ [] ∧ t.read = .ready (.ok bs) ∧ bs ≠ [] ∧
    header.length + bs.length = 20 ∧ (headerBy header bs).len = 0 ∧
    s.socketMap (headerBy header bs).addr = none ∧ s.connected = true ∧ t.alloc = false

/-- The state still accounts for the bytes consumed, or it is past using. -/
def Aligned (s : SharedReader) : Prop := s.state = .error ∨ s.Accounts

section
variable {s s' : SharedReader} {cx : Waker} {t : Tick}

theorem Accounts.position_eq {p : Position} (h : s.Accounts) (hp : s.position = some p) :
    ((Position.header []).scan s.consumed).1 = p := by
  rw [h] at hp
  exact Option.some.inj hp

theorem Accounts.follow {bs : List UInt8} {p : Position} (h : s.Accounts) (hp : s.position = some p)
    (hc : s'.consumed = s.consumed ++ bs) (hp' : s'.position = some (p.scan bs).1) : s'.Accounts := by
  unfold Accounts
  rw [hp', hc, Position.scan_append, h.position_eq hp]

theorem Aligned.once (h : s.Aligned) (hc : s.Coherent) (hw : s.Within t) (hn : ¬ s.Spills t) (cx : Waker) :
    (s.pollOnce cx t).2.Aligned := by
  have hturn := s.pollOnce_turn cx t
  by_cases he : s.state = .error
  · have hsame : s.pollOnce cx t = (.ready (.error ⟨.brokenPipe, "socket hit fatal error"⟩), s) := by
      simp [pollOnce, he]
    rw [hsame]
    exact Or.inl he
  have hacc : s.Accounts := h.resolve_left he
  obtain ⟨p, hp⟩ := exists_position he
  rcases hturn.outcome hw hp (hc.valid p hp) with ⟨bs, signals, hh, -⟩ | ⟨bs, hh⟩ | ⟨header, bs, hs⟩
  · exact Or.inr (hacc.follow hp hh.consumed hh.position)
  · rcases hh.position with herr | hpos
    · exact Or.inl herr
    · exact Or.inr (hacc.follow hp hh.consumed hpos)
  · have hnil : header = [] := by
      by_contra hne
      exact hn ⟨header, bs, hs.state, hne, hs.read, hs.bytes, hs.filled, hs.len, hs.unknown, hs.connected, hs.alloc⟩
    subst hnil
    obtain rfl : p = .header [] := by simpa [position, hs.state, eq_comm] using hp
    rw [hs.result]
    refine Or.inr (hacc.follow hp rfl ?_)
    rw [hs.scan]
    exact hp

theorem Aligned.rest (h : s.Aligned) (hc : s'.consumed = s.consumed) (hs : s'.state = s.state) : s'.Aligned := by
  unfold Aligned Accounts position at *
  rw [hc, hs]
  exact h

theorem Aligned.perform (h : s.Aligned) (hc : s.Coherent) {m : Move} (hs : s.Sane m)
    (hn : ∀ cx t, m = .once cx t → ¬ s.Spills t) : (s.perform m).Aligned := by
  cases m with
  | once cx t => exact h.once hc hs (hn cx t rfl) cx
  | yield cx => exact h.rest rfl rfl
  | read cx id n =>
    obtain ⟨hcons, -, hst⟩ := s.readEntry_rest cx id n
    exact h.rest hcons hst
  | accept k hooked cx =>
    obtain ⟨hcons, -, hst⟩ := s.recvEntry_rest k hooked cx
    exact h.rest hcons hst
  | leave k hooked =>
    obtain ⟨hcons, -, hst⟩ := s.dropReceiver_rest k hooked
    exact h.rest hcons hst
  | add addr alloc =>
    unfold SharedReader.perform insert
    dsimp only
    split
    · exact h
    · split
      · exact h.rest rfl rfl
      · exact h
  | release id => exact h.rest rfl rfl
  | disconnect => exact h.rest rfl rfl

theorem Turn.not_spills (h : Turn cx t s (.ready (.ok ())) s') (t' : Tick) : ¬ s'.Spills t' := by
  rintro ⟨header, bs, hs, hne, -⟩
  exact hne (h.no_header (by simp [position, hs]))

/-- A whole call keeps the account if its first turn does. -/
theorem Aligned.poll {ts : List Tick} {r : Poll (Except IoError Empty)} (h : s.Aligned) (hc : s.Coherent)
    (hs : Served Within cx ts s) (hn : ∀ t, ts.head? = some t → ¬ s.Spills t)
    (hp : s.poll cx ts = some (r, s')) : s'.Aligned := by
  induction ts generalizing s with
  | nil => simp [SharedReader.poll] at hp
  | cons t ts ih =>
    obtain ⟨hw, hrest⟩ := hs
    have hone := h.once hc hw (hn t rfl) cx
    have hturn := s.pollOnce_turn cx t
    have hcoh := hc.turn hturn hw
    unfold SharedReader.poll at hp
    rcases hr : s.pollOnce cx t with ⟨res, s₂⟩
    rw [hr] at hp hone hturn hcoh hrest
    have hend : ∀ (b : Poll (Except IoError Empty)) (s₃ : SharedReader), s₃.Aligned →
        (if ts = [] then some (b, s₃) else none) = some (r, s') → s'.Aligned := by
      intro b s₃ h₃ heq
      split at heq
      · obtain ⟨-, rfl⟩ := Prod.mk.inj (Option.some.inj heq)
        exact h₃
      · cases heq
    cases res with
    | pending => exact hend _ _ hone hp
    | ready res =>
      cases res with
      | error e => exact hend _ _ hone hp
      | ok u =>
        dsimp only at hp
        cases hcoop : t.coop with
        | pending =>
          rw [hcoop] at hp
          exact hend _ (s₂.emit (.coopPending cx)) (hone.rest rfl rfl) hp
        | ready u =>
          rw [hcoop] at hp
          exact ih hone hcoh hrest (fun t' _ => hturn.not_spills t') hp

theorem state_error_perform (h : s.state = .error) (m : Move) : (s.perform m).state = .error := by
  cases m with
  | once cx t => simp [SharedReader.perform, pollOnce, h]
  | yield cx => exact h
  | read cx id n => exact (s.readEntry_rest cx id n).2.2.trans h
  | accept k hooked cx => exact (s.recvEntry_rest k hooked cx).2.2.trans h
  | leave k hooked => exact (s.dropReceiver_rest k hooked).2.2.trans h
  | add addr alloc =>
    unfold SharedReader.perform insert
    dsimp only
    split
    · exact h
    · split <;> exact h
  | release id => exact h
  | disconnect => exact h

theorem doomed_of_error (h : s.state = .error) : s.Doomed := by
  intro s₁ hrun cx ts r s₂ hp
  have herr : s₁.state = .error := by
    clear hp
    induction hrun with
    | refl => exact h
    | tail _ hs ih =>
      obtain ⟨m, -, -, rfl⟩ := hs
      exact state_error_perform ih m
  cases ts with
  | nil => simp [SharedReader.poll] at hp
  | cons t ts =>
    simp only [SharedReader.poll, pollOnce, herr] at hp
    split at hp
    · obtain ⟨rfl, -⟩ := Prod.mk.inj (Option.some.inj hp)
      exact ⟨_, rfl⟩
    · cases hp

/-- The turn that spills leaves the old count of a header that is gone. -/
theorem Spills.pollOnce (h : s.Spills t) (cx : Waker) :
    ∃ header bs e, header ≠ [] ∧ s.state = .nextPacket header ∧
      (Position.header header).scan bs = (.header [], [.zero (headerBy header bs).addr]) ∧
      s.pollOnce cx t = (.ready (.error e), s.consume bs) := by
  obtain ⟨header, bs, hs, hne, hr, h0, h20, hl, hm, hc, ha⟩ := h
  have hscan : (Position.header header).scan bs = (.header [], [.zero (headerBy header bs).addr]) := by
    rw [Position.scan_header h0 h20, if_pos hl]
  have hlen : ¬ bs.length = 0 := fun h => h0 (List.length_eq_zero_iff.mp h)
  have hfilled : (header.length + bs.length % 256) % 256 = 20 := by omega
  have hcmp : compare 20 MuxFrameHeader.size = .eq := rfl
  have hhead : MuxFrameHeader.assumeInit ((header ++ bs).take 20) = headerBy header bs := rfl
  have hnone : (s.consume bs).socketMap (headerBy header bs).addr = none := hm
  have hconn : (s.consume bs).connected = true := hc
  refine ⟨header, bs, ⟨.outOfMemory, "failed to allocate read buffer"⟩, hne, hs, hscan, ?_⟩
  simp only [SharedReader.pollOnce, hs, pollNextPacket, hr, hlen, hfilled, hcmp, if_false, hhead, takeHeader,
    hl, hnone, hconn, insert, ha]
  rfl

/-- Nothing is lost by waiting, so a reader that waits for a header is not done for. -/
theorem not_doomed_of_header {header : List UInt8} (h : s.state = .nextPacket header) : ¬ s.Doomed := by
  intro hd
  have hp : s.poll .noop [.idle] = some (.pending, s.park .noop) := by
    simp [SharedReader.poll, SharedReader.pollOnce, h, pollNextPacket, Tick.idle]
  obtain ⟨e, he⟩ := hd s .refl .noop [.idle] _ _ hp
  cases he

def Careful (s : SharedReader) (m : Move) : Prop := ∀ cx t, m = .once cx t → ¬ s.Spills t

theorem Aligned.plays (h : Plays Careful s s') (ha : s.Aligned) (hc : s.Coherent) : s'.Aligned := by
  have hboth : s'.Aligned ∧ s'.Coherent := by
    induction h with
    | refl => exact ⟨ha, hc⟩
    | tail _ hs ih =>
      obtain ⟨m, hsane, hcare, rfl⟩ := hs
      exact ⟨ih.1.perform ih.2 hsane hcare, ih.2.acts (acts_perform hsane)⟩
  exact hboth.1

/-- In every run that spilled no header, a poll that fails leaves the reader broken for good or
at a true boundary, exactly if it does not begin by spilling one. -/
theorem error_keeps_boundary_iff {connected : Bool} {ts : List Tick} {e : IoError}
    (hrun : Plays Careful (init connected) s) (hs : Served Within cx ts s)
    (h : s.poll cx ts = some (.ready (.error e), s')) :
    (s'.Doomed ∨ s'.Accounts) ↔ ¬ ∃ t, ts.head? = some t ∧ s.Spills t := by
  have hinit : (init connected).Aligned := Or.inr rfl
  have hc := (Coherent.init connected).plays hrun
  have ha := Aligned.plays hrun hinit (.init connected)
  constructor
  · rintro hkept ⟨t, ht, hsp⟩
    obtain ⟨header, bs, e', hne, hst, hscan, hp⟩ := hsp.pollOnce cx
    have hres : s' = s.consume bs := by
      cases ts with
      | nil => cases ht
      | cons t' ts =>
        obtain rfl := Option.some.inj ht
        simp only [SharedReader.poll, hp] at h
        split at h
        · exact (Prod.mk.inj (Option.some.inj h)).2.symm
        · cases h
    have hst' : s'.state = .nextPacket header := by rw [hres]; exact hst
    have hpos : s.position = some (.header header) := by simp [position, hst]
    rcases hkept with hd | hacc
    · exact not_doomed_of_header hst' hd
    · have hold : s.Accounts := ha.resolve_left (by simp [hst])
      have hnew : s'.position = some (.header header) := by simp [position, hst']
      have hlead := hacc.position_eq hnew
      have hcons : s'.consumed = s.consumed ++ bs := by rw [hres]; rfl
      rw [hcons, Position.scan_append, hold.position_eq hpos, hscan] at hlead
      exact hne (Position.header.inj hlead).symm
  · intro hn
    have hal := ha.poll hc hs (fun t ht hsp => hn ⟨t, ht, hsp⟩) h
    exact hal.imp doomed_of_error id

end

/-- An opening header that comes in one piece and finds no memory is skipped. -/
theorem error_keeps_boundary_whole :
    ∃ e s', (init true).poll .noop [⟨.ready (.ok (frame .unspecified [])), .pending, false, .ready ()⟩] =
        some (.ready (.error e), s') ∧ (s'.Doomed ∨ s'.Accounts) := by
  have hp : (init true).poll .noop [⟨.ready (.ok (frame .unspecified [])), .pending, false, .ready ()⟩] =
      some (.ready (.error ⟨.outOfMemory, "failed to allocate read buffer"⟩),
        (init true).consume (frame .unspecified [])) := rfl
  have hs : Served Within .noop [⟨.ready (.ok (frame .unspecified [])), .pending, false, .ready ()⟩]
      (init true) := by
    refine ⟨?_, trivial⟩
    intro n bs hn hr
    obtain rfl : n = 20 := (Option.some.inj hn).symm
    have hbs : Poll.ready (Except.ok (frame .unspecified [])) = Poll.ready (Except.ok bs) := hr
    cases hbs
    decide
  refine ⟨_, _, hp, (error_keeps_boundary_iff .refl hs hp).mpr ?_⟩
  rintro ⟨t, -, header, bs, hst, hne, -⟩
  exact hne (SharedReaderState.nextPacket.inj hst).symm

/-- One byte of an opening header comes alone, the other nineteen find no memory: the reader
counts one byte of a header that begins with the next frame. -/
theorem error_loses_boundary :
    ∃ s s' e, Plays Careful (init true) s ∧
      Served Within .noop [⟨.ready (.ok ((frame .unspecified []).drop 1)), .pending, false, .ready ()⟩] s ∧
      s.poll .noop [⟨.ready (.ok ((frame .unspecified []).drop 1)), .pending, false, .ready ()⟩] =
        some (.ready (.error e), s') ∧ ¬ (s'.Doomed ∨ s'.Accounts) := by
  have hone : Plays Careful (init true) ((init true).pollOnce .noop (.bytes ((frame .unspecified []).take 1))).2 := by
    refine .single ⟨.once .noop (.bytes ((frame .unspecified []).take 1)), .bytes rfl (by decide), ?_, rfl⟩
    rintro cx t - ⟨header, bs, hst, hne, -⟩
    exact hne (SharedReaderState.nextPacket.inj hst).symm
  have hserved : Served Within .noop
      [⟨.ready (.ok ((frame .unspecified []).drop 1)), .pending, false, .ready ()⟩]
      ((init true).pollOnce .noop (.bytes ((frame .unspecified []).take 1))).2 := by
    refine ⟨?_, trivial⟩
    intro n bs hn hr
    obtain rfl : n = 19 := (Option.some.inj hn).symm
    have hbs : Poll.ready (Except.ok ((frame .unspecified []).drop 1)) = Poll.ready (Except.ok bs) := hr
    cases hbs
    decide
  refine ⟨_, _, _, hone, hserved, rfl, ?_⟩
  rintro (hd | hacc)
  · exact not_doomed_of_header rfl hd
  · have hlead : (Position.header ((frame .unspecified []).take 1)) = .header [] :=
      (Option.some.inj hacc).trans (by decide +kernel)
    cases hlead

end SharedReader

end VtMuxer
