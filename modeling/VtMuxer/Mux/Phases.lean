import VtMuxer.Mux.Rendezvous

/-! When the connections of one address speak and when their entries listen, counted by the frames
without payload that have gone before. The two ends of a connection agree on that. -/
namespace VtMuxer.Rendezvous

namespace Half

/-- The connection of entry `e` speaks after so many frames without payload of its side. -/
def speaksAt (h : Half) (e : ℕ) : ℕ := h.sent.idxOf (e, .eof)

/-- The entry `e` listens after so many frames without payload of the other side. -/
def hearsAt (h : Half) (e : ℕ) : ℕ := h.deeds.idxOf (.closed e)

/-- The connection of entry `e` may speak: if it was added here, its handshake is sent. -/
structure Speaker (h : Half) (e : ℕ) : Prop where
  entry : h.entries e ≠ none
  opened : h.dialed = some e → (e, .handshake) ∈ h.sent

end Half

section
variable {n n' m : Half} {i j i' j' p q k l e e' f : ℕ} {second : Bool}

/-- What the first side has done and can do, as far as the second is concerned. -/
theorem Story.order (h : Story n m i j i' j' p q k l second) :
    (2 ≤ l → second = true) ∧ (second = true → 2 ≤ p) ∧ (3 ≤ p → second = true) := by
  obtain ⟨hk, -, hl, -⟩ := h.bounds
  obtain ⟨-, hs, hq⟩ := h.answers
  refine ⟨fun h2 => hq (by omega), fun h2 => (hs h2).trans hk, fun h3 => hq ?_⟩
  have := h.returns h3
  omega

theorem Story.near_speaker (h : Story n m i j i' j' p q k l second) (he : n.Speaker e) :
    (e = i ∧ 1 ≤ p) ∨ (e = i' ∧ 2 ≤ l) := by
  obtain ⟨b, hb⟩ := Option.ne_none_iff_exists'.mp he.entry
  rcases (h.nearEntries e b).mp hb with ⟨rfl, -⟩ | ⟨hl, rfl, -⟩
  · left
    refine ⟨rfl, Nat.pos_of_ne_zero fun hp => ?_⟩
    have hin := he.opened h.nearDialed
    rw [h.near, hp] at hin
    cases hin
  · exact Or.inr ⟨rfl, hl⟩

theorem Story.far_speaker (h : Story n m i j i' j' p q k l second) (he : m.Speaker e) :
    (e = j ∧ 1 ≤ k) ∨ (e = j' ∧ 2 ≤ q ∧ second = true) := by
  obtain ⟨b, hb⟩ := Option.ne_none_iff_exists'.mp he.entry
  rcases (h.farEntries e b).mp hb with ⟨hk, rfl, -⟩ | ⟨hs, rfl, -⟩
  · exact Or.inl ⟨rfl, hk⟩
  · have hin := he.opened (by rw [h.farDialed, if_pos hs])
    rw [h.far] at hin
    have hq : 2 ≤ q := by
      by_contra hq
      have : q = 0 ∨ q = 1 := by omega
      rcases this with rfl | rfl <;> simp at hin
    exact Or.inr ⟨rfl, hq, hs⟩

theorem Story.near_speaksAt (h : Story n m i j i' j' p q k l second) (hp : 1 ≤ p) : n.speaksAt i = 1 := by
  have hbound := h.bounds.2.1
  unfold Half.speaksAt
  rw [h.near]
  have : p = 1 ∨ p = 2 ∨ p = 3 := by omega
  rcases this with rfl | rfl | rfl <;> simp

theorem Story.near_speaksAt' (h : Story n m i j i' j' p q k l second) (hl : 2 ≤ l) : n.speaksAt i' = 2 := by
  have hbound := h.bounds.2.1
  have hp := h.order.2.1 (h.order.1 hl)
  have hne := h.apart.1 hl
  unfold Half.speaksAt
  rw [h.near]
  have : p = 2 ∨ p = 3 := by omega
  rcases this with rfl | rfl <;> simp [hne]

theorem Story.far_speaksAt (h : Story n m i j i' j' p q k l second) : m.speaksAt j = 0 := by
  unfold Half.speaksAt
  rw [h.far]
  cases q <;> simp

theorem Story.far_speaksAt' (h : Story n m i j i' j' p q k l second) (hq : 2 ≤ q) : m.speaksAt j' = 2 := by
  have hbound := h.bounds.2.2.2
  have hne := h.apart.2 (h.answers.2.2 hq)
  unfold Half.speaksAt
  rw [h.far]
  have : q = 2 ∨ q = 3 := by omega
  rcases this with rfl | rfl <;> simp [hne]

theorem Story.near_hearsAt (h : Story n m i j i' j' p q k l second) : n.hearsAt i = 0 := by
  unfold Half.hearsAt
  rw [h.nearDeeds]
  cases l <;> simp

theorem Story.near_hearsAt' (h : Story n m i j i' j' p q k l second) (hl : 2 ≤ l) : n.hearsAt i' = 2 := by
  have hbound := h.bounds
  have hne := h.apart.1 hl
  unfold Half.hearsAt
  rw [h.nearDeeds]
  have : l = 2 ∨ l = 3 := by omega
  rcases this with rfl | rfl <;> simp [hne]

theorem Story.far_hearsAt (h : Story n m i j i' j' p q k l second) (hk : 1 ≤ k) : m.hearsAt j = 1 := by
  have hbound := h.bounds
  unfold Half.hearsAt
  rw [h.farDeeds]
  have : k = 1 ∨ k = 2 ∨ k = 3 := by omega
  rcases this with rfl | rfl | rfl <;> simp

theorem Story.far_hearsAt' (h : Story n m i j i' j' p q k l second) (hs : second = true) : m.hearsAt j' = 2 := by
  have hbound := h.bounds
  have hne := h.apart.2 hs
  have hk := h.answers.2.1 hs
  unfold Half.hearsAt
  rw [h.farDeeds]
  have : k = 2 ∨ k = 3 := by omega
  rcases this with rfl | rfl <;> simp [hne]

theorem Story.near_opens (h : Story n m i j i' j' p q k l second)
    (hin : ((e, .handshake), .opened e') ∈ noted n m) : e = j' ∧ e' = i' ∧ 2 ≤ l := by
  have hbound := h.bounds
  unfold noted at hin
  rw [h.far, h.nearDeeds] at hin
  have hl : l = 0 ∨ l = 1 ∨ 2 ≤ l := by omega
  rcases hl with rfl | rfl | hl
  · simp at hin
  · cases q with
    | zero => simp at hin
    | succ q => simp at hin
  · have hq : q = 2 ∨ q = 3 := by omega
    have hl' : l = 2 ∨ l = 3 := by omega
    rcases hq with rfl | rfl <;> rcases hl' with rfl | rfl <;> simp at hin <;> simp [hin]

theorem Story.far_opens (h : Story n m i j i' j' p q k l second)
    (hin : ((e, .handshake), .opened e') ∈ noted m n) : e = i ∧ e' = j ∧ 1 ≤ k := by
  have hbound := h.bounds
  unfold noted at hin
  rw [h.near, h.farDeeds] at hin
  have hk : k = 0 ∨ k = 1 ∨ k = 2 ∨ k = 3 := by omega
  have hp : p = 0 ∨ p = 1 ∨ p = 2 ∨ p = 3 := by omega
  rcases hk with rfl | rfl | rfl | rfl <;> rcases hp with rfl | rfl | rfl | rfl <;> simp at hin <;> simp [hin]

theorem Joined.symm (h : Joined n m e e') : Joined m n e' e := Or.symm h

theorem Story.joined_iff (h : Story n m i j i' j' p q k l second) :
    Joined n m e e' ↔ (e = j ∧ e' = i ∧ 1 ≤ k) ∨ (e = j' ∧ e' = i' ∧ 2 ≤ l) := by
  constructor
  · rintro (hin | hin)
    · exact Or.inr (h.near_opens hin)
    · obtain ⟨rfl, rfl, hk⟩ := h.far_opens hin
      exact Or.inl ⟨rfl, rfl, hk⟩
  · rintro (⟨rfl, rfl, hk⟩ | ⟨rfl, rfl, hl⟩)
    · exact Or.inr (h.first_joined hk)
    · exact Or.inl (h.second_joined hl)

theorem Told.joined_entries (h : Told n m) (hj : Joined n m e e') : m.entries e ≠ none ∧ n.entries e' ≠ none := by
  rcases h with ⟨rfl, rfl⟩ | ⟨i, j, i', j', p, q, k, l, second, hst⟩ | ⟨i, j, i', j', p, q, k, l, second, hst⟩
  · rcases hj with hin | hin <;> simp [noted, Half.init] at hin
  · rcases hst.joined_iff.mp hj with ⟨rfl, rfl, hk⟩ | ⟨rfl, rfl, hl⟩
    · rw [(hst.farEntries e _).mpr (Or.inl ⟨hk, rfl, rfl⟩), (hst.nearEntries e' _).mpr (Or.inl ⟨rfl, rfl⟩)]
      simp
    · rw [(hst.farEntries e _).mpr (Or.inr ⟨hst.order.1 hl, rfl, rfl⟩),
        (hst.nearEntries e' _).mpr (Or.inr ⟨hl, rfl, rfl⟩)]
      simp
  · rcases hst.joined_iff.mp hj.symm with ⟨rfl, rfl, hk⟩ | ⟨rfl, rfl, hl⟩
    · rw [(hst.farEntries e' _).mpr (Or.inl ⟨hk, rfl, rfl⟩), (hst.nearEntries e _).mpr (Or.inl ⟨rfl, rfl⟩)]
      simp
    · rw [(hst.farEntries e' _).mpr (Or.inr ⟨hst.order.1 hl, rfl, rfl⟩),
        (hst.nearEntries e _).mpr (Or.inr ⟨hl, rfl, rfl⟩)]
      simp

/-- The connection of one end speaks when the other end listens. -/
theorem Told.joined_phase (h : Told n m) (hj : Joined n m e e') : m.speaksAt e = n.hearsAt e' := by
  rcases h with ⟨rfl, rfl⟩ | ⟨i, j, i', j', p, q, k, l, second, hst⟩ | ⟨i, j, i', j', p, q, k, l, second, hst⟩
  · rcases hj with hin | hin <;> simp [noted, Half.init] at hin
  · have hbound := hst.bounds
    rcases hst.joined_iff.mp hj with ⟨rfl, rfl, -⟩ | ⟨rfl, rfl, hl⟩
    · rw [hst.far_speaksAt, hst.near_hearsAt]
    · rw [hst.far_speaksAt' (by omega), hst.near_hearsAt' hl]
  · have hbound := hst.bounds
    rcases hst.joined_iff.mp hj.symm with ⟨rfl, rfl, hk⟩ | ⟨rfl, rfl, hl⟩
    · rw [hst.near_speaksAt (by omega), hst.far_hearsAt hk]
    · rw [hst.near_speaksAt' hl, hst.far_hearsAt' (hst.order.1 hl)]

/-- What speaks while an entry listens is the other end of its connection. -/
theorem Told.joined_of_phase (h : Told n m) (he : m.Speaker e) (he' : n.entries e' ≠ none)
    (heq : m.speaksAt e = n.hearsAt e') : Joined n m e e' := by
  obtain ⟨b, hb⟩ := Option.ne_none_iff_exists'.mp he'
  rcases h with ⟨rfl, rfl⟩ | ⟨i, j, i', j', p, q, k, l, second, hst⟩ | ⟨i, j, i', j', p, q, k, l, second, hst⟩
  · exact absurd rfl he'
  · refine hst.joined_iff.mpr ?_
    rcases hst.far_speaker he with ⟨rfl, hk⟩ | ⟨rfl, hq, -⟩ <;>
      rcases (hst.nearEntries e' b).mp hb with ⟨rfl, -⟩ | ⟨hl, rfl, -⟩
    · exact Or.inl ⟨rfl, rfl, hk⟩
    · rw [hst.far_speaksAt, hst.near_hearsAt' hl] at heq
      cases heq
    · rw [hst.far_speaksAt' hq, hst.near_hearsAt] at heq
      cases heq
    · exact Or.inr ⟨rfl, rfl, hl⟩
  · refine Joined.symm (hst.joined_iff.mpr ?_)
    rcases hst.near_speaker he with ⟨rfl, hp⟩ | ⟨rfl, hl⟩ <;>
      rcases (hst.farEntries e' b).mp hb with ⟨hk, rfl, -⟩ | ⟨hs, rfl, -⟩
    · exact Or.inl ⟨rfl, rfl, hk⟩
    · rw [hst.near_speaksAt hp, hst.far_hearsAt' hs] at heq
      cases heq
    · rw [hst.near_speaksAt' hl, hst.far_hearsAt hk] at heq
      cases heq
    · exact Or.inr ⟨rfl, rfl, hl⟩

theorem Told.joined_unique (h : Told n m) (hj : Joined n m e f) (hj' : Joined n m e' f) : e = e' := by
  rcases h with ⟨rfl, rfl⟩ | ⟨i, j, i', j', p, q, k, l, second, hst⟩ | ⟨i, j, i', j', p, q, k, l, second, hst⟩
  · rcases hj with hin | hin <;> simp [noted, Half.init] at hin
  · have hne := hst.apart.1
    rcases hst.joined_iff.mp hj with ⟨rfl, rfl, hk⟩ | ⟨rfl, rfl, hl⟩ <;>
      rcases hst.joined_iff.mp hj' with ⟨rfl, hf, -⟩ | ⟨rfl, hf, hl'⟩
    · rfl
    · exact absurd hf (hne hl')
    · exact absurd hf.symm (hne hl)
    · rfl
  · have hne : 2 ≤ l → j ≠ j' := fun hl => hst.apart.2 (hst.order.1 hl)
    rcases hst.joined_iff.mp hj.symm with ⟨hf, rfl, hk⟩ | ⟨hf, rfl, hl⟩ <;>
      rcases hst.joined_iff.mp hj'.symm with ⟨hf', rfl, -⟩ | ⟨hf', rfl, hl'⟩
    · rfl
    · exact absurd (hf.symm.trans hf') (hne hl')
    · exact absurd (hf'.symm.trans hf) (hne hl)
    · rfl

/-- When a side adds the address, nobody at the other end speaks to it yet. -/
theorem Told.silent_dial (h : Told n m) (hd : n.dialed = none) (hfree : n.Free)
    (hover : m.dialed ≠ none → ∃ x, n.entries x ≠ none) (he : m.Speaker e) : m.speaksAt e ≠ n.deeds.length := by
  rcases h with ⟨rfl, rfl⟩ | ⟨i, j, i', j', p, q, k, l, second, hst⟩ | ⟨i, j, i', j', p, q, k, l, second, hst⟩
  · exact absurd rfl he.entry
  · rw [hst.nearDialed] at hd
    cases hd
  · have hs : second ≠ true := by
      intro hs
      rw [hst.farDialed, if_pos hs] at hd
      cases hd
    obtain ⟨x, hx⟩ := hover (by simp [hst.nearDialed])
    obtain ⟨b, hb⟩ := Option.ne_none_iff_exists'.mp hx
    obtain ⟨hk, rfl, rfl⟩ := ((hst.farEntries x b).mp hb).resolve_right fun h => hs h.1
    have hk2 : 2 ≤ k := by
      by_contra hk2
      rw [decide_eq_false hk2] at hb
      exact hfree x hb
    rw [hst.lengths.2.2.2]
    rcases hst.near_speaker he with ⟨rfl, hp⟩ | ⟨rfl, hl⟩
    · rw [hst.near_speaksAt hp]
      omega
    · exact absurd (hst.order.1 hl) hs

/-- Who speaks goes on speaking at the same time. -/
theorem Told.steady (h : Told n m) (ha : Acts n m n') (he : n.Speaker e) : n'.speaksAt e = n.speaksAt e := by
  cases ha with
  | dial => rfl
  | close => rfl
  | opening => rfl
  | send e' new hnew hlaw hover =>
    rcases h with ⟨rfl, rfl⟩ | ⟨i, j, i', j', p, q, k, l, second, hst⟩ | ⟨i, j, i', j', p, q, k, l, second, hst⟩
    · exact absurd rfl he.entry
    · obtain ⟨p', hst'⟩ := hst.near_send hnew hlaw
      have hle : p ≤ p' := by
        have hlen := hst'.lengths.1
        rw [List.length_append, hst.lengths.1] at hlen
        omega
      rcases hst.near_speaker he with ⟨rfl, hp⟩ | ⟨rfl, hl⟩
      · rw [hst.near_speaksAt hp, hst'.near_speaksAt (hp.trans hle)]
      · rw [hst.near_speaksAt' hl, hst'.near_speaksAt' hl]
    · obtain ⟨q', hst'⟩ := hst.far_send hnew hlaw fun hin => hover hin (by simp [hst.nearDialed])
      have hle : q ≤ q' := by
        have hlen := hst'.lengths.2.1
        rw [List.length_append, hst.lengths.2.1] at hlen
        omega
      rcases hst.far_speaker he with ⟨rfl, -⟩ | ⟨rfl, hq, -⟩
      · rw [hst.far_speaksAt, hst'.far_speaksAt]
      · rw [hst.far_speaksAt' hq, hst'.far_speaksAt' (hq.trans hle)]

end

end VtMuxer.Rendezvous
