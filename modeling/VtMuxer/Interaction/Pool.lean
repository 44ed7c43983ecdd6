import VtMuxer.Interaction.Prog

/-! Parties with programs of their own, interleaved at every question over one shared
world, and the rule that lifts local contracts to an invariant of the whole pool. -/
namespace Interaction

/-- What the parties can be called to do and how the world answers them. -/
structure Machine (ι Q : Type) (R : Q → Type) (σ α Op W : Type) where
  body : Op → Proc Q R σ α
  /-- The calls that may be made on a party whose last call ended with a given result. -/
  may : α → Op → Prop
  /-- The answers that party `i` may get when the memories are `m`. -/
  allow : (m : ι → σ) → ι → (q : Q) → R q → Prop
  /-- What an answer does to the world. -/
  emit : W → ι → σ → (q : Q) → R q → W

structure Pool (ι Q : Type) (R : Q → Type) (σ α W : Type) where
  threads : ι → Prog Q R σ α
  world : W

variable {ι Q : Type} {R : Q → Type} {σ α Op W G : Type}

def Pool.mems (P : Pool ι Q R σ α W) (i : ι) : σ := (P.threads i).mem

namespace Machine
variable [DecidableEq ι]

/-- A party that has returned is called again, or one question is answered. -/
inductive Step (M : Machine ι Q R σ α Op W) : Pool ι Q R σ α W → Pool ι Q R σ α W → Prop where
  | call (P : Pool ι Q R σ α W) (i : ι) (op : Op) {s : σ} {a : α}
      (h : P.threads i = .ret s a) (hm : M.may a op) :
      Step M P ⟨Function.update P.threads i (M.body op s), P.world⟩
  | answer (P : Pool ι Q R σ α W) (i : ι) {s : σ} {q : Q} {k : R q → Prog Q R σ α}
      (h : P.threads i = .ask s q k) (r : R q) (ha : M.allow P.mems i q r) :
      Step M P ⟨Function.update P.threads i (k r), M.emit P.world i s q r⟩

def Reaches (M : Machine ι Q R σ α Op W) : Pool ι Q R σ α W → Pool ι Q R σ α W → Prop :=
  Relation.ReflTransGen M.Step

theorem Reaches.call {M : Machine ι Q R σ α Op W} {P P' : Pool ι Q R σ α W} (i : ι) (op : Op) {s : σ} {a : α}
    (h : P.threads i = .ret s a) (hm : M.may a op)
    (hr : M.Reaches ⟨Function.update P.threads i (M.body op s), P.world⟩ P') : M.Reaches P P' :=
  .head (.call P i op h hm) hr

theorem Reaches.answer {M : Machine ι Q R σ α Op W} {P P' : Pool ι Q R σ α W} (i : ι) (x : Sigma R) {s : σ}
    {k : R x.1 → Prog Q R σ α} (h : P.threads i = .ask s x.1 k) (ha : M.allow P.mems i x.1 x.2)
    (hr : M.Reaches ⟨Function.update P.threads i (k x.2), M.emit P.world i s x.1 x.2⟩ P') :
    M.Reaches P P' :=
  .head (.answer P i h x.2 ha) hr

/-- Wherever a party stands that has been called, it stands there in some call. -/
theorem Reaches.called {M : Machine ι Q R σ α Op W} {P P' : Pool ι Q R σ α W} {i : ι} {s₀ : σ} {a₀ : α}
    (hi : P.threads i = .ret s₀ a₀) (h : M.Reaches P P') :
    P'.threads i = .ret s₀ a₀ ∨ ∃ s op answers, (M.body op s).Comes answers (P'.threads i) := by
  induction h with
  | refl => exact Or.inl hi
  | tail _ hstep ih =>
    cases hstep with
    | call j op hj hm =>
      rcases eq_or_ne i j with rfl | hne
      · exact Or.inr ⟨_, op, [], by simpa using Prog.Comes.here _⟩
      · simpa [hne] using ih
    | answer j hj r ha =>
      rcases eq_or_ne i j with rfl | hne
      · rcases ih with hret | ⟨s, op, answers, hcomes⟩
        · rw [hj] at hret
          cases hret
        · rw [hj] at hcomes
          exact Or.inr ⟨s, op, answers ++ [⟨_, r⟩], by simpa using hcomes.answer r⟩
      · simpa [hne] using ih

/-- What is known locally of a party wherever it stands. -/
def At (L : Contract Q R σ G) (idle : σ → α → G → Prop) (s : σ) (g : G) : Prop :=
  (∃ a, idle s a g) ∨ (∃ q, L.inv s q g) ∨ ∃ e, L.fault s e

/-- The obligations of a pool: every call keeps the local contract, and the global fact
`Glob` about world, memories and ghost states survives a call and an answer. -/
structure Sound (M : Machine ι Q R σ α Op W) (L : Contract Q R σ G) (idle : σ → α → G → Prop)
    (Glob : W → (ι → σ) → (ι → G) → Prop) : Prop where
  call : ∀ (m : ι → σ) (i : ι) (op : Op) (a : α) (g : G), idle (m i) a g → M.may a op →
    (M.body op (m i)).wp L idle (L.start (m i) g)
  ok : ∀ (m : ι → σ) (i : ι) (q : Q) (r : R q), M.allow m i q r → L.ok (m i) q r
  globCall : ∀ (w : W) (m : ι → σ) (g : ι → G) (i : ι) (s' : σ), Glob w m g →
    (∃ a, idle (m i) a (g i)) → At L idle s' (L.start (m i) (g i)) →
    Glob w (Function.update m i s') (Function.update g i (L.start (m i) (g i)))
  globAnswer : ∀ (w : W) (m : ι → σ) (g : ι → G) (i : ι) (q : Q) (r : R q) (s' : σ), Glob w m g →
    L.inv (m i) q (g i) → M.allow m i q r → At L idle s' (L.upd (m i) q r (g i)) →
    Glob (M.emit w i (m i) q r) (Function.update m i s')
      (Function.update g i (L.upd (m i) q r (g i)))

/-- The invariant of a pool: each party keeps the contract from where it stands. -/
def Holds (L : Contract Q R σ G) (idle : σ → α → G → Prop) (Glob : W → (ι → σ) → (ι → G) → Prop)
    (P : Pool ι Q R σ α W) : Prop :=
  ∃ g : ι → G, (∀ i, (P.threads i).wp L idle (g i)) ∧ Glob P.world P.mems g

variable {M : Machine ι Q R σ α Op W} {L : Contract Q R σ G} {idle : σ → α → G → Prop}
  {Glob : W → (ι → σ) → (ι → G) → Prop}

theorem at_of_wp {p : Prog Q R σ α} {g : G} (h : p.wp L idle g) : At L idle p.mem g := by
  cases p with
  | ret s a => exact Or.inl ⟨a, h⟩
  | ask s q k => exact Or.inr (Or.inl ⟨q, h.1⟩)
  | fault s e => exact Or.inr (Or.inr ⟨e, h⟩)

theorem mems_update (f : ι → Prog Q R σ α) (i : ι) (p : Prog Q R σ α) (w : W) :
    Pool.mems ⟨Function.update f i p, w⟩ = Function.update (fun j => (f j).mem) i p.mem := by
  funext j
  by_cases h : j = i
  · subst h
    simp [Pool.mems]
  · simp [Pool.mems, h]

private theorem wp_update {f : ι → Prog Q R σ α} {g : ι → G} {i : ι} {p : Prog Q R σ α} {x : G}
    (hf : ∀ j, (f j).wp L idle (g j)) (hp : p.wp L idle x) (j : ι) :
    (Function.update f i p j).wp L idle (Function.update g i x j) := by
  by_cases h : j = i
  · subst h
    simpa using hp
  · simpa [h] using hf j

theorem Sound.step (hs : M.Sound L idle Glob) {P P' : Pool ι Q R σ α W} (h : Holds L idle Glob P)
    (hst : M.Step P P') : Holds L idle Glob P' := by
  obtain ⟨g, hwp, hg⟩ := h
  cases hst with
  | call i op hi hm =>
    rename_i s a
    have hs' : P.mems i = s := by simp [Pool.mems, hi, Prog.mem]
    have hidle : idle (P.mems i) a (g i) := by
      have := hwp i
      rw [hi] at this
      rwa [hs']
    have hbody := hs.call P.mems i op a (g i) hidle hm
    refine ⟨Function.update g i (L.start (P.mems i) (g i)), wp_update hwp (hs' ▸ hbody), ?_⟩
    rw [mems_update]
    exact hs.globCall _ _ _ _ _ hg ⟨a, hidle⟩ (hs' ▸ at_of_wp hbody)
  | answer i hi r ha =>
    rename_i s q k
    have hs' : P.mems i = s := by simp [Pool.mems, hi, Prog.mem]
    have hask := hwp i
    rw [hi, Prog.wp_ask] at hask
    have hok := hs.ok P.mems i q r ha
    rw [hs'] at hok
    have hk := hask.2 r hok
    refine ⟨Function.update g i (L.upd s q r (g i)), wp_update hwp hk, ?_⟩
    rw [mems_update]
    subst hs'
    exact hs.globAnswer _ _ _ _ _ _ _ hg hask.1 ha (at_of_wp hk)

/-- The invariant holds at every point of every interleaving. -/
theorem Sound.reaches (hs : M.Sound L idle Glob) {P P' : Pool ι Q R σ α W}
    (h : Holds L idle Glob P) (hr : M.Reaches P P') : Holds L idle Glob P' := by
  induction hr with
  | refl => exact h
  | tail _ hst ih => exact hs.step ih hst

/-- A pool that is sound stays so if every call keeps one more invariant. -/
theorem Sound.also {I : σ → G → Prop} {idle' : σ → α → G → Prop} (hs : M.Sound L idle Glob)
    (hcall : ∀ (m : ι → σ) (i : ι) (op : Op) (a : α) (g : G), idle (m i) a g → idle' (m i) a g → M.may a op →
      (M.body op (m i)).wp (L.under I) idle' (L.start (m i) g)) :
    M.Sound (L.also I) (fun s a g => idle s a g ∧ idle' s a g) Glob := by
  have hat : ∀ {s g}, At (L.also I) (fun s a g => idle s a g ∧ idle' s a g) s g → At L idle s g := by
    rintro s g (⟨a, h⟩ | ⟨q, h⟩ | ⟨e, h⟩)
    · exact Or.inl ⟨a, h.1⟩
    · exact Or.inr (Or.inl ⟨q, h.1⟩)
    · exact Or.inr (Or.inr ⟨e, h⟩)
  constructor
  case call =>
    intro m i op a g h hm
    exact Prog.wp_also (hs.call m i op a g h.1 hm) (hcall m i op a g h.1 h.2 hm)
  case ok => exact hs.ok
  case globCall =>
    rintro w m g i s' hg ⟨a, h⟩ hs'
    exact hs.globCall w m g i s' hg ⟨a, h.1⟩ (hat hs')
  case globAnswer =>
    intro w m g i q r s' hg hinv ha hs'
    exact hs.globAnswer w m g i q r s' hg hinv.1 ha (hat hs')

end Machine

end Interaction
