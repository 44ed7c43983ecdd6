import VtMuxer.Write.Inner

/-! What two sides do with one address. Frames without payload open and close connections, and a
side tells the two apart only by what it knows of the address when the frame comes. -/
namespace VtMuxer.Rendezvous

/-- What a side makes of a frame without payload. -/
inductive Deed where
  | opened (id : ℕ)
  | closed (id : ℕ)
  deriving DecidableEq, Repr

/-- What one side has to do with the address: the frames without payload that its connections
have sent, what it made of those of the other side, its entries and whether they are closed, and
the entry of its own call of `add_connection`. -/
structure Half where
  sent : List (ℕ × Origin)
  deeds : List Deed
  entries : ℕ → Option Bool
  dialed : Option ℕ

namespace Half

def init : Half := ⟨[], [], fun _ => none, none⟩

def Free (h : Half) : Prop := ∀ e, h.entries e ≠ some false

/-- All that the connection of entry `e` sends without payload. -/
def course (h : Half) (e : ℕ) : List Origin := if h.dialed = some e then [.handshake, .eof] else [.eof]

end Half

def framesOf (e : ℕ) (sent : List (ℕ × Origin)) : List Origin := (sent.filter fun x => x.1 = e).map Prod.snd

/-- What a side in state `h` can do while the other is in state `o`. If the other side has added
the address, then it adds the address only after that connection was opened here, and sends the
handshake only after the final frame of that connection. -/
inductive Acts (h o : Half) : Half → Prop where
  | dial (e : ℕ) (hd : h.dialed = none) (hfree : h.Free) (hnew : h.entries e = none)
      (hover : o.dialed ≠ none → ∃ i, h.entries i ≠ none) :
      Acts h o { h with entries := Function.update h.entries e (some false), dialed := some e }
  | send (e : ℕ) (new : List Origin) (he : h.entries e ≠ none)
      (hlaw : framesOf e (h.sent ++ new.map (e, ·)) <+: h.course e)
      (hover : .handshake ∈ new → o.dialed ≠ none → ∃ i, (i, Origin.eof) ∈ h.sent) :
      Acts h o { h with sent := h.sent ++ new.map (e, ·) }
  | close (e : ℕ) (hf : h.deeds.length < o.sent.length) (he : h.entries e = some false) :
      Acts h o { h with deeds := h.deeds ++ [.closed e], entries := Function.update h.entries e (some true) }
  | opening (e : ℕ) (hf : h.deeds.length < o.sent.length) (hfree : h.Free) (hnew : h.entries e = none) :
      Acts h o { h with deeds := h.deeds ++ [.opened e], entries := Function.update h.entries e (some false) }

/-- The frames that a side has taken note of, with what it made of them. -/
def noted (h o : Half) : List ((ℕ × Origin) × Deed) := o.sent.zip h.deeds

/-- Entry `j` of the side and entry `i` of the other belong to one connection: the handshake of
one of them has opened the other. -/
def Joined (h o : Half) (i j : ℕ) : Prop :=
  ((i, .handshake), .opened j) ∈ noted h o ∨ ((j, .handshake), .opened i) ∈ noted o h

/-- A handshake opens a connection, a final frame closes the one that it was sent for. -/
def Right (h o : Half) (f : ℕ × Origin) (d : Deed) : Prop :=
  f.2 = .handshake ∧ (∃ j, d = .opened j) ∨ f.2 = .eof ∧ ∃ j, d = .closed j ∧ Joined h o f.1 j

def Agrees (h o : Half) : Prop := List.Forall₂ (Right h o) (o.sent.take h.deeds.length) h.deeds

/-- The first side adds the address with entry `i`, which opens `j`; then the other side may add
it with entry `j'`, which opens `i'`. `p` and `q` count what the first and the second side have
sent, `k` and `l` what the second and the first have taken note of. -/
structure Story (n m : Half) (i j i' j' p q k l : ℕ) (second : Bool) : Prop where
  near : n.sent = [(i, .handshake), (i, .eof), (i', .eof)].take p
  far : m.sent = [(j, .eof), (j', .handshake), (j', .eof)].take q
  nearDeeds : n.deeds = [.closed i, .opened i', .closed i'].take l
  farDeeds : m.deeds = [.opened j, .closed j, .closed j'].take k
  nearEntries : ∀ e b, n.entries e = some b ↔
    e = i ∧ b = decide (1 ≤ l) ∨ 2 ≤ l ∧ e = i' ∧ b = decide (3 ≤ l)
  farEntries : ∀ e b, m.entries e = some b ↔
    1 ≤ k ∧ e = j ∧ b = decide (2 ≤ k) ∨ second = true ∧ e = j' ∧ b = decide (3 ≤ k)
  nearDialed : n.dialed = some i
  farDialed : m.dialed = if second then some j' else none
  bounds : k ≤ p ∧ p ≤ 3 ∧ l ≤ q ∧ q ≤ 3
  /-- The second side answers what it has taken note of, and adds the address when the first
  connection is over there. -/
  answers : (1 ≤ q → 1 ≤ k) ∧ (second = true → 2 ≤ k) ∧ (2 ≤ q → second = true)
  /-- So does the first. -/
  returns : 3 ≤ p → 2 ≤ l
  apart : (2 ≤ l → i ≠ i') ∧ (second = true → j ≠ j')

/-- Nobody has added the address, or the story goes on. -/
def Told (h o : Half) : Prop :=
  (h = .init ∧ o = .init) ∨ (∃ i j i' j' p q k l second, Story h o i j i' j' p q k l second) ∨
    ∃ i j i' j' p q k l second, Story o h i j i' j' p q k l second

section
variable {n n' m m' : Half} {i j i' j' p q k l : ℕ} {second : Bool}

theorem Story.lengths (h : Story n m i j i' j' p q k l second) :
    n.sent.length = p ∧ m.sent.length = q ∧ n.deeds.length = l ∧ m.deeds.length = k := by
  obtain ⟨hkp, hp3, hlq, hq3⟩ := h.bounds
  rw [h.near, h.far, h.nearDeeds, h.farDeeds]
  simp only [List.length_take, List.length_cons, List.length_nil]
  omega

theorem Story.near_close (h : Story n m i j i' j' p q k l second) {e : ℕ} (hf : n.deeds.length < m.sent.length)
    (he : n.entries e = some false) :
    Story { n with deeds := n.deeds ++ [.closed e], entries := Function.update n.entries e (some true) } m
      i j i' j' p q k (l + 1) second := by
  obtain ⟨-, hq, hl, -⟩ := h.lengths
  obtain ⟨hkp, hp3, hlq, hq3⟩ := h.bounds
  rw [hl, hq] at hf
  have hcase : l = 0 ∧ e = i ∨ l = 2 ∧ e = i' := by
    rcases (h.nearEntries e false).mp he with ⟨rfl, hb⟩ | ⟨h2, rfl, hb⟩
    · have hl1 : ¬ 1 ≤ l := by simpa using hb
      exact Or.inl ⟨by omega, rfl⟩
    · have hl3 : ¬ 3 ≤ l := by simpa using hb
      exact Or.inr ⟨by omega, rfl⟩
  refine ⟨h.near, h.far, ?_, h.farDeeds, ?_, h.farEntries, h.nearDialed, h.farDialed, ⟨hkp, hp3, hf, hq3⟩,
    h.answers, fun h3 => (h.returns h3).trans (Nat.le_succ l), ?_⟩
  · rcases hcase with ⟨rfl, rfl⟩ | ⟨rfl, rfl⟩
    · simp [h.nearDeeds]
    · simp [h.nearDeeds]
  · intro x b
    rcases hcase with ⟨rfl, rfl⟩ | ⟨rfl, rfl⟩
    · rcases eq_or_ne x e with rfl | hx
      · simp [eq_comm]
      · simp [hx, h.nearEntries]
    · have hne := h.apart.1 le_rfl
      rcases eq_or_ne x e with rfl | hx
      · simp [hne.symm, eq_comm]
      · simp [hx, h.nearEntries]
  · refine ⟨?_, h.apart.2⟩
    rcases hcase with ⟨rfl, rfl⟩ | ⟨rfl, rfl⟩
    · omega
    · exact fun _ => h.apart.1 le_rfl

theorem Story.near_opening (h : Story n m i j i' j' p q k l second) {e : ℕ} (hf : n.deeds.length < m.sent.length)
    (hfree : n.Free) (hnew : n.entries e = none) :
    Story { n with deeds := n.deeds ++ [.opened e], entries := Function.update n.entries e (some false) } m
      i j e j' p q k 2 second := by
  obtain ⟨-, hq, hl, -⟩ := h.lengths
  obtain ⟨hkp, hp3, hlq, hq3⟩ := h.bounds
  rw [hl, hq] at hf
  obtain rfl : l = 1 := by
    have h0 : l ≠ 0 := by
      rintro rfl
      exact hfree i ((h.nearEntries i false).mpr (Or.inl ⟨rfl, rfl⟩))
    have h2 : l ≠ 2 := by
      rintro rfl
      exact hfree i' ((h.nearEntries i' false).mpr (Or.inr ⟨le_rfl, rfl, rfl⟩))
    omega
  have hie : i ≠ e := by
    rintro rfl
    rw [(h.nearEntries i true).mpr (Or.inl ⟨rfl, rfl⟩)] at hnew
    cases hnew
  have hp2 : p ≤ 2 := by
    by_contra hgt
    have hlt := h.returns (by omega)
    omega
  refine ⟨?_, h.far, ?_, h.farDeeds, ?_, h.farEntries, h.nearDialed, h.farDialed, ⟨hkp, hp3, hf, hq3⟩,
    h.answers, fun _ => le_rfl, fun _ => hie, h.apart.2⟩
  · show n.sent = _
    rw [h.near]
    interval_cases p <;> rfl
  · simp [h.nearDeeds]
  · intro x b
    rcases eq_or_ne x e with rfl | hx
    · simp [hie.symm, eq_comm]
    · simp [hx, h.nearEntries]

theorem Story.far_close (h : Story n m i j i' j' p q k l second) {e : ℕ} (hf : m.deeds.length < n.sent.length)
    (he : m.entries e = some false) :
    Story n { m with deeds := m.deeds ++ [.closed e], entries := Function.update m.entries e (some true) }
      i j i' j' p q (k + 1) l second := by
  obtain ⟨hp, -, -, hk⟩ := h.lengths
  obtain ⟨hkp, hp3, hlq, hq3⟩ := h.bounds
  obtain ⟨hq1, hsec, hq2⟩ := h.answers
  rw [hk, hp] at hf
  have hcase : (k = 1 ∧ second = false ∧ e = j) ∨ k = 2 ∧ second = true ∧ e = j' := by
    rcases (h.farEntries e false).mp he with ⟨h1, rfl, hb⟩ | ⟨h2, rfl, hb⟩
    · have hk2 : ¬ 2 ≤ k := by simpa using hb
      refine Or.inl ⟨by omega, ?_, rfl⟩
      by_contra hs
      exact hk2 (hsec (by simpa using hs))
    · have hk3 : ¬ 3 ≤ k := by simpa using hb
      have hk2 := hsec h2
      exact Or.inr ⟨by omega, h2, rfl⟩
  refine ⟨h.near, h.far, h.nearDeeds, ?_, h.nearEntries, ?_, h.nearDialed, h.farDialed, ⟨hf, hp3, hlq, hq3⟩,
    ⟨fun _ => by omega, fun hs => (hsec hs).trans (Nat.le_succ k), hq2⟩, h.returns, h.apart⟩
  · rcases hcase with ⟨rfl, -, rfl⟩ | ⟨rfl, -, rfl⟩
    · simp [h.farDeeds]
    · simp [h.farDeeds]
  · intro x b
    rcases hcase with ⟨rfl, rfl, rfl⟩ | ⟨rfl, rfl, rfl⟩
    · rcases eq_or_ne x e with rfl | hx
      · simp [eq_comm]
      · simp [hx, h.farEntries]
    · have hne := h.apart.2 rfl
      rcases eq_or_ne x e with rfl | hx
      · simp [hne.symm, eq_comm]
      · simp [hx, h.farEntries]

theorem Story.far_opening (h : Story n m i j i' j' p q k l second) {e : ℕ} (hf : m.deeds.length < n.sent.length)
    (hfree : m.Free) :
    Story n { m with deeds := m.deeds ++ [.opened e], entries := Function.update m.entries e (some false) }
      i e i' j' p q 1 l second := by
  obtain ⟨hp, -, -, hk⟩ := h.lengths
  obtain ⟨hkp, hp3, hlq, hq3⟩ := h.bounds
  obtain ⟨hq1, hsec, hq2⟩ := h.answers
  rw [hk, hp] at hf
  obtain rfl : k = 0 := by
    have h1 : k ≠ 1 := by
      rintro rfl
      exact hfree j ((h.farEntries j false).mpr (Or.inl ⟨le_rfl, rfl, rfl⟩))
    have h2 : k ≠ 2 := by
      rintro rfl
      have hl := h.returns (by omega)
      have hs := hq2 (by omega)
      exact hfree j' ((h.farEntries j' false).mpr (Or.inr ⟨hs, rfl, rfl⟩))
    omega
  obtain rfl : second = false := by
    by_contra hs
    have hk2 := hsec (by simpa using hs)
    omega
  obtain rfl : q = 0 := by omega
  refine ⟨h.near, h.far, h.nearDeeds, ?_, h.nearEntries, ?_, h.nearDialed, h.farDialed, ⟨by omega, hp3, hlq, hq3⟩,
    ⟨fun _ => le_rfl, nofun, hq2⟩, h.returns, h.apart.1, nofun⟩
  · simp [h.farDeeds]
  · intro x b
    rcases eq_or_ne x e with rfl | hx
    · simp [eq_comm]
    · simp [hx, h.farEntries]

theorem Story.far_dial (h : Story n m i j i' j' p q k l second) {e : ℕ} (hd : m.dialed = none) (hfree : m.Free)
    (hnew : m.entries e = none) (hover : ∃ x, m.entries x ≠ none) :
    Story n { m with entries := Function.update m.entries e (some false), dialed := some e }
      i j i' e p q k l true := by
  obtain ⟨hkp, hp3, hlq, hq3⟩ := h.bounds
  obtain ⟨hq1, hsec, hq2⟩ := h.answers
  obtain rfl : second = false := by
    by_contra hs
    simp [h.farDialed, hs] at hd
  have hq : q ≤ 1 := by
    by_contra hgt
    cases hq2 (by omega)
  obtain rfl : k = 2 := by
    have h0 : 1 ≤ k := by
      obtain ⟨x, hx⟩ := hover
      obtain ⟨b, hb⟩ := Option.ne_none_iff_exists'.mp hx
      rcases (h.farEntries x b).mp hb with ⟨h1, -⟩ | ⟨hs, -⟩
      · exact h1
      · cases hs
    have h1 : k ≠ 1 := by
      rintro rfl
      exact hfree j ((h.farEntries j false).mpr (Or.inl ⟨le_rfl, rfl, rfl⟩))
    have h3 : ¬ 3 ≤ p := by
      intro h3
      have hl := h.returns h3
      omega
    omega
  have hje : j ≠ e := by
    rintro rfl
    rw [(h.farEntries j true).mpr (Or.inl ⟨by omega, rfl, rfl⟩)] at hnew
    cases hnew
  refine ⟨h.near, ?_, h.nearDeeds, ?_, h.nearEntries, ?_, h.nearDialed, rfl, h.bounds,
    ⟨hq1, fun _ => le_rfl, fun _ => rfl⟩, h.returns, h.apart.1, fun _ => hje⟩
  · show m.sent = _
    rw [h.far]
    interval_cases q <;> rfl
  · exact h.farDeeds
  · intro x b
    rcases eq_or_ne x e with rfl | hx
    · simp [hje.symm, eq_comm]
    · simp [hx, h.farEntries]

theorem framesOf_append (e : ℕ) (xs ys : List (ℕ × Origin)) : framesOf e (xs ++ ys) = framesOf e xs ++ framesOf e ys := by
  simp [framesOf]

theorem framesOf_map (e : ℕ) (l : List Origin) : framesOf e (l.map (e, ·)) = l := by
  simp [framesOf, List.filter_map, Function.comp_def]

theorem send_along {e r : ℕ} {c new : List Origin} {before : List (ℕ × Origin)} (hb : framesOf e before = [])
    (hr : r ≤ c.length) (h : framesOf e (before ++ (c.map (e, ·)).take r ++ new.map (e, ·)) <+: c) :
    r + new.length ≤ c.length ∧
      before ++ (c.map (e, ·)).take r ++ new.map (e, ·) = before ++ (c.map (e, ·)).take (r + new.length) := by
  rw [framesOf_append, framesOf_append, hb, List.nil_append, framesOf_map, ← List.map_take, framesOf_map] at h
  have hlen : (c.take r ++ new).length = r + new.length := by
    rw [List.length_append, List.length_take, min_eq_left hr]
  have heq : c.take r ++ new = c.take (r + new.length) := by
    rw [← hlen]
    exact List.prefix_iff_eq_take.mp h
  refine ⟨hlen ▸ h.length_le, ?_⟩
  rw [List.append_assoc, ← List.map_take, ← List.map_append, heq, List.map_take]

/-- A connection that has come to the end of its course sends nothing more. -/
theorem send_none {e : ℕ} {c new : List Origin} {sent : List (ℕ × Origin)} (hs : framesOf e sent = c)
    (h : framesOf e (sent ++ new.map (e, ·)) <+: c) : new = [] := by
  rw [framesOf_append, hs, framesOf_map] at h
  have hlen := h.length_le
  rw [List.length_append] at hlen
  exact List.length_eq_zero_iff.mp (by omega)

theorem Story.near_send (h : Story n m i j i' j' p q k l second) {e : ℕ} {new : List Origin} (he : n.entries e ≠ none)
    (hlaw : framesOf e (n.sent ++ new.map (e, ·)) <+: n.course e) :
    ∃ p, Story { n with sent := n.sent ++ new.map (e, ·) } m i j i' j' p q k l second := by
  obtain ⟨hkp, hp3, hlq, hq3⟩ := h.bounds
  obtain ⟨hq1, hsec, hq2⟩ := h.answers
  have hgoes : ∀ p', p ≤ p' → p' ≤ 3 → (3 ≤ p' → 2 ≤ l) →
      n.sent ++ new.map (e, ·) = [(i, .handshake), (i, .eof), (i', .eof)].take p' →
      ∃ p, Story { n with sent := n.sent ++ new.map (e, ·) } m i j i' j' p q k l second := by
    intro p' hle h3 hret hsent
    exact ⟨p', hsent, h.far, h.nearDeeds, h.farDeeds, h.nearEntries, h.farEntries, h.nearDialed, h.farDialed,
      ⟨hkp.trans hle, h3, hlq, hq3⟩, h.answers, hret, h.apart⟩
  obtain ⟨b, hb⟩ := Option.ne_none_iff_exists'.mp he
  rcases (h.nearEntries e b).mp hb with ⟨rfl, -⟩ | ⟨h2, rfl, -⟩
  · have hcourse : n.course e = [.handshake, .eof] := by simp [Half.course, h.nearDialed]
    rw [hcourse] at hlaw
    by_cases hp2 : p ≤ 2
    · have hnear : n.sent = [] ++ (List.map (e, ·) [Origin.handshake, .eof]).take p := by
        rw [h.near]
        interval_cases p <;> rfl
      rw [hnear] at hlaw
      obtain ⟨hle, hsent⟩ := send_along rfl hp2 hlaw
      have hle' : p + new.length ≤ 2 := hle
      refine hgoes (p + new.length) (Nat.le_add_right p _) (by omega) (by omega) ?_
      rw [hnear, hsent]
      generalize p + new.length = t at hle'
      interval_cases t <;> rfl
    · obtain rfl : p = 3 := by omega
      have hne := h.apart.1 (h.returns le_rfl)
      have hall : framesOf e n.sent = [.handshake, .eof] := by
        rw [h.near]
        simp [framesOf, hne.symm]
      obtain rfl := send_none hall hlaw
      exact hgoes 3 le_rfl le_rfl h.returns (by simp [h.near])
  · have hne := h.apart.1 h2
    have hcourse : n.course e = [.eof] := by simp [Half.course, h.nearDialed, hne]
    have hp2 : 2 ≤ p := by
      have hs := hsec (hq2 (h2.trans hlq))
      omega
    have hnear : n.sent = [(i, .handshake), (i, .eof)] ++ (List.map (e, ·) [Origin.eof]).take (p - 2) := by
      rw [h.near]
      interval_cases p <;> rfl
    have hbefore : framesOf e [(i, .handshake), (i, .eof)] = [] := by simp [framesOf, hne]
    rw [hcourse, hnear] at hlaw
    obtain ⟨hle, hsent⟩ := send_along hbefore (by simp; omega) hlaw
    have hle' : p - 2 + new.length ≤ 1 := hle
    refine hgoes (p + new.length) (Nat.le_add_right p _) (by omega) (fun _ => h2) ?_
    rw [hnear, hsent]
    have ht : p + new.length = 2 + (p - 2 + new.length) := by omega
    rw [ht]
    generalize p - 2 + new.length = t at hle'
    interval_cases t <;> rfl

theorem Story.far_send (h : Story n m i j i' j' p q k l second) {e : ℕ} {new : List Origin} (he : m.entries e ≠ none)
    (hlaw : framesOf e (m.sent ++ new.map (e, ·)) <+: m.course e)
    (hover : .handshake ∈ new → ∃ x, (x, Origin.eof) ∈ m.sent) :
    ∃ q, Story n { m with sent := m.sent ++ new.map (e, ·) } i j i' j' p q k l second := by
  obtain ⟨hkp, hp3, hlq, hq3⟩ := h.bounds
  obtain ⟨hq1, hsec, hq2⟩ := h.answers
  have hgoes : ∀ q', q ≤ q' → q' ≤ 3 → (1 ≤ q' → 1 ≤ k) → (2 ≤ q' → second = true) →
      m.sent ++ new.map (e, ·) = [(j, .eof), (j', .handshake), (j', .eof)].take q' →
      ∃ q, Story n { m with sent := m.sent ++ new.map (e, ·) } i j i' j' p q k l second := by
    intro q' hle h3 h1 h2 hsent
    exact ⟨q', h.near, hsent, h.nearDeeds, h.farDeeds, h.nearEntries, h.farEntries, h.nearDialed, h.farDialed,
      ⟨hkp, hp3, hlq.trans hle, h3⟩, ⟨h1, hsec, h2⟩, h.returns, h.apart⟩
  obtain ⟨b, hb⟩ := Option.ne_none_iff_exists'.mp he
  rcases (h.farEntries e b).mp hb with ⟨hk1, rfl, -⟩ | ⟨hs, rfl, -⟩
  · have hcourse : m.course e = [.eof] := by
      unfold Half.course
      rw [h.farDialed]
      cases second with
      | false => simp
      | true => simp [(h.apart.2 rfl).symm]
    rw [hcourse] at hlaw
    by_cases hq : q ≤ 1
    · have hfar : m.sent = [] ++ (List.map (e, ·) [Origin.eof]).take q := by
        rw [h.far]
        interval_cases q <;> rfl
      rw [hfar] at hlaw
      obtain ⟨hle, hsent⟩ := send_along rfl hq hlaw
      have hle' : q + new.length ≤ 1 := hle
      refine hgoes (q + new.length) (Nat.le_add_right q _) (by omega) (fun _ => hk1) (by omega) ?_
      rw [hfar, hsent]
      generalize q + new.length = t at hle'
      interval_cases t <;> rfl
    · have hne := h.apart.2 (hq2 (by omega))
      have hall : framesOf e m.sent = [.eof] := by
        rw [h.far]
        have h23 : q = 2 ∨ q = 3 := by omega
        rcases h23 with rfl | rfl
        · simp [framesOf, hne.symm]
        · simp [framesOf, hne.symm]
      obtain rfl := send_none hall hlaw
      exact hgoes q le_rfl hq3 hq1 hq2 (by simp [h.far])
  · have hne := h.apart.2 hs
    have hcourse : m.course e = [.handshake, .eof] := by simp [Half.course, h.farDialed, hs]
    have hk2 := hsec hs
    rw [hcourse] at hlaw
    by_cases hq0 : q = 0
    · subst hq0
      have hnil : new = [] := by
        rw [h.far, List.take_zero, List.nil_append, framesOf_map] at hlaw
        cases new with
        | nil => rfl
        | cons o new =>
          obtain rfl : o = .handshake := (List.cons_prefix_cons.mp hlaw).1
          obtain ⟨x, hx⟩ := hover List.mem_cons_self
          simp [h.far] at hx
      subst hnil
      exact hgoes 0 le_rfl hq3 hq1 hq2 (by simp [h.far])
    have hq1' : 1 ≤ q := Nat.pos_of_ne_zero hq0
    have hfar : m.sent = [(j, .eof)] ++ (List.map (e, ·) [Origin.handshake, .eof]).take (q - 1) := by
      rw [h.far]
      interval_cases q <;> rfl
    have hbefore : framesOf e [(j, .eof)] = [] := by simp [framesOf, hne]
    rw [hfar] at hlaw
    obtain ⟨hle, hsent⟩ := send_along hbefore (by simp; omega) hlaw
    have hle' : q - 1 + new.length ≤ 2 := hle
    refine hgoes (q + new.length) (Nat.le_add_right q _) (by omega) (fun _ => by omega) (fun _ => hs) ?_
    rw [hfar, hsent]
    have ht : q + new.length = 1 + (q - 1 + new.length) := by omega
    rw [ht]
    generalize q - 1 + new.length = t at hle'
    interval_cases t <;> rfl

theorem Story.begins {e : ℕ} :
    Story { Half.init with entries := Function.update Half.init.entries e (some false), dialed := some e } .init
      e 0 0 0 0 0 0 0 false := by
  refine ⟨rfl, rfl, rfl, rfl, ?_, ?_, rfl, rfl, by omega, ⟨by omega, nofun, by omega⟩, by omega, by omega, nofun⟩
  · intro x b
    rcases eq_or_ne x e with rfl | hx
    · simp [eq_comm]
    · simp [hx, Half.init]
  · intro x b
    simp [Half.init]

theorem Told.symm (h : Told n m) : Told m n := by
  rcases h with ⟨hn, hm⟩ | hnear | hfar
  · exact Or.inl ⟨hm, hn⟩
  · exact Or.inr (Or.inr hnear)
  · exact Or.inr (Or.inl hfar)

/-- Whatever a side does, the story goes on. -/
theorem Told.acts (h : Told n m) (ha : Acts n m n') : Told n' m := by
  rcases h with ⟨rfl, rfl⟩ | ⟨i, j, i', j', p, q, k, l, second, hst⟩ | ⟨i, j, i', j', p, q, k, l, second, hst⟩
  · cases ha with
    | dial e => exact Or.inr (Or.inl ⟨_, _, _, _, _, _, _, _, _, Story.begins⟩)
    | send e new he => exact absurd rfl he
    | close e hf => exact absurd hf (Nat.not_lt_zero _)
    | opening e hf => exact absurd hf (Nat.not_lt_zero _)
  · refine Or.inr (Or.inl ?_)
    cases ha with
    | dial e hd =>
      rw [hst.nearDialed] at hd
      cases hd
    | send e new he hlaw =>
      obtain ⟨p', hst'⟩ := hst.near_send he hlaw
      exact ⟨_, _, _, _, _, _, _, _, _, hst'⟩
    | close e hf he => exact ⟨_, _, _, _, _, _, _, _, _, hst.near_close hf he⟩
    | opening e hf hfree hnew => exact ⟨_, _, _, _, _, _, _, _, _, hst.near_opening hf hfree hnew⟩
  · refine Or.inr (Or.inr ?_)
    cases ha with
    | dial e hd hfree hnew hover =>
      have hdialed : m.dialed ≠ none := by simp [hst.nearDialed]
      exact ⟨_, _, _, _, _, _, _, _, _, hst.far_dial hd hfree hnew (hover hdialed)⟩
    | send e new he hlaw hover =>
      have hdialed : m.dialed ≠ none := by simp [hst.nearDialed]
      obtain ⟨q', hst'⟩ := hst.far_send he hlaw fun hn => hover hn hdialed
      exact ⟨_, _, _, _, _, _, _, _, _, hst'⟩
    | close e hf he => exact ⟨_, _, _, _, _, _, _, _, _, hst.far_close hf he⟩
    | opening e hf hfree hnew => exact ⟨_, _, _, _, _, _, _, _, _, hst.far_opening hf hfree⟩

theorem Story.first_joined (h : Story n m i j i' j' p q k l second) (hk : 1 ≤ k) :
    ((i, .handshake), .opened j) ∈ noted m n := by
  obtain ⟨p, rfl⟩ := Nat.exists_eq_add_of_le' (hk.trans h.bounds.1)
  obtain ⟨k, rfl⟩ := Nat.exists_eq_add_of_le' hk
  simp [noted, h.near, h.farDeeds]

theorem Story.second_joined (h : Story n m i j i' j' p q k l second) (hl : 2 ≤ l) :
    ((j', .handshake), .opened i') ∈ noted n m := by
  obtain ⟨q, rfl⟩ := Nat.exists_eq_add_of_le' (hl.trans h.bounds.2.2.1)
  obtain ⟨l, rfl⟩ := Nat.exists_eq_add_of_le' hl
  simp [noted, h.far, h.nearDeeds]

theorem Story.near_agrees (h : Story n m i j i' j' p q k l second) : Agrees n m := by
  obtain ⟨hkp, hp3, hlq, hq3⟩ := h.bounds
  have hall : List.Forall₂ (Right n m) ([(j, .eof), (j', .handshake), (j', .eof)].take l)
      ([.closed i, .opened i', .closed i'].take l) := by
    have h1 : 1 ≤ l → Right n m (j, .eof) (.closed i) := fun hl =>
      Or.inr ⟨rfl, i, rfl, Or.inr (h.first_joined (h.answers.1 (hl.trans hlq)))⟩
    have h2 : Right n m (j', .handshake) (.opened i') := Or.inl ⟨rfl, i', rfl⟩
    have h3 : 3 ≤ l → Right n m (j', .eof) (.closed i') := fun hl =>
      Or.inr ⟨rfl, i', rfl, Or.inl (h.second_joined (by omega))⟩
    have hl3 : l ≤ 3 := hlq.trans hq3
    interval_cases l
    · simp
    · simp [h1]
    · simp [h1, h2]
    · simp [h1, h2, h3]
  unfold Agrees
  rw [h.lengths.2.2.1, h.far, h.nearDeeds, List.take_take, min_eq_left hlq]
  exact hall

theorem Story.far_agrees (h : Story n m i j i' j' p q k l second) : Agrees m n := by
  obtain ⟨hkp, hp3, hlq, hq3⟩ := h.bounds
  have hall : List.Forall₂ (Right m n) ([(i, .handshake), (i, .eof), (i', .eof)].take k)
      ([.opened j, .closed j, .closed j'].take k) := by
    have h1 : Right m n (i, .handshake) (.opened j) := Or.inl ⟨rfl, j, rfl⟩
    have h2 : 2 ≤ k → Right m n (i, .eof) (.closed j) := fun hk =>
      Or.inr ⟨rfl, j, rfl, Or.inl (h.first_joined (by omega))⟩
    have h3 : 3 ≤ k → Right m n (i', .eof) (.closed j') := fun hk =>
      Or.inr ⟨rfl, j', rfl, Or.inr (h.second_joined (h.returns (hk.trans hkp)))⟩
    have hk3 : k ≤ 3 := hkp.trans hp3
    interval_cases k
    · simp
    · simp [h1]
    · simp [h1, h2]
    · simp [h1, h2, h3]
  unfold Agrees
  rw [h.lengths.2.2.2, h.near, h.farDeeds, List.take_take, min_eq_left hkp]
  exact hall

/-- As long as the story goes on, every frame is taken for what it is. -/
theorem Told.agrees (h : Told n m) : Agrees n m := by
  rcases h with ⟨rfl, rfl⟩ | ⟨i, j, i', j', p, q, k, l, second, hst⟩ | ⟨i, j, i', j', p, q, k, l, second, hst⟩
  · exact .nil
  · exact hst.near_agrees
  · exact hst.far_agrees

end

end VtMuxer.Rendezvous
