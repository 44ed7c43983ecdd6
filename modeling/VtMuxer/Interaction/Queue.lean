import VtMuxer.Interaction.Pool

/-! Parties of a pool that share one lock, which is granted in the order in which it is claimed.
A claim is a place in the queue of the lock or the lock itself, and is kept in the memory of its
party; the order of the claims is kept beside the pool. -/
namespace Interaction

/-- How the parties deal with the lock. -/
structure Lock (Q : Type) (R : Q → Type) (σ : Type) where
  /-- The questions put to the queue; until the answer a party has the place that it had. -/
  asks : Q → Bool
  /-- Those of them that wait in the queue for their answer. -/
  awaits : Q → Bool
  grants : (q : Q) → R q → Bool
  /-- Whether the memory of a party has a place in the queue, or the lock. -/
  claims : σ → Bool

/-- A pool and the parties that claim its lock, the first of which has it or may have it. -/
structure Queued (ι Q : Type) (R : Q → Type) (σ α W : Type) where
  pool : Pool ι Q R σ α W
  order : List ι

variable {ι Q : Type} {R : Q → Type} {σ α β Op W : Type} [DecidableEq ι]

theorem idxOf_pairwise {l : List ι} (h : l.Nodup) : l.Pairwise fun i j => l.idxOf i < l.idxOf j := by
  rw [List.pairwise_iff_getElem]
  intro m n hm hn hlt
  rwa [h.idxOf_getElem, h.idxOf_getElem]

/-- Of those who are left of a queue, the first has the smallest place. -/
theorem idxOf_le_of_sublist {l rest : List ι} {i j : ι} (h : l.Nodup) (hsub : (i :: rest).Sublist l)
    (hj : j ∈ i :: rest) : l.idxOf i ≤ l.idxOf j := by
  rcases List.mem_cons.mp hj with rfl | hj
  · exact le_rfl
  · exact ((List.pairwise_cons.mp ((idxOf_pairwise h).sublist hsub)).1 j hj).le

namespace Lock

def asking (K : Lock Q R σ) : Prog Q R σ α → Bool
  | .ask _ q _ => K.asks q
  | _ => false

/-- The order of the claims when party `i` has come to `p`: a new claim is the last. -/
def settle (K : Lock Q R σ) (i : ι) (p : Prog Q R σ α) (order : List ι) : List ι :=
  if K.asking p then order
  else if K.claims p.mem then if i ∈ order then order else order ++ [i]
  else order.erase i

section
variable {K : Lock Q R σ} {i : ι} {p : Prog Q R σ α} {order : List ι}

theorem settle_cases (K : Lock Q R σ) (i : ι) (p : Prog Q R σ α) (order : List ι) :
    K.settle i p order = order ∨ i ∉ order ∧ K.settle i p order = order ++ [i] ∨
      K.settle i p order = order.erase i := by
  unfold settle
  split_ifs with hask hclaim hmem
  · exact Or.inl rfl
  · exact Or.inl rfl
  · exact Or.inr (Or.inl ⟨hmem, rfl⟩)
  · exact Or.inr (Or.inr rfl)

theorem mem_settle (hask : K.asking p = false) (hclaim : K.claims p.mem = true) : i ∈ K.settle i p order := by
  by_cases hmem : i ∈ order
  · simp [settle, hask, hclaim, hmem]
  · simp [settle, hask, hclaim, hmem]

theorem mem_settle_of_ne {j : ι} (hne : j ≠ i) : j ∈ K.settle i p order ↔ j ∈ order := by
  rcases K.settle_cases i p order with heq | ⟨-, heq⟩ | heq
  · rw [heq]
  · simp [heq, hne]
  · rw [heq, List.mem_erase_of_ne hne]

theorem nodup_settle (hn : order.Nodup) : (K.settle i p order).Nodup := by
  rcases K.settle_cases i p order with heq | ⟨hi, heq⟩ | heq
  · rwa [heq]
  · rw [heq, List.nodup_append_comm]
    exact List.nodup_cons.mpr ⟨hi, hn⟩
  · rw [heq]
    exact hn.erase i

theorem head_settle {j : ι} (hne : j ≠ i) (hj : order.head? = some j) : (K.settle i p order).head? = some j := by
  obtain ⟨rest, rfl⟩ := List.head?_eq_some_iff.mp hj
  rcases K.settle_cases i p (j :: rest) with heq | ⟨-, heq⟩ | heq
  · simp [heq]
  · simp [heq]
  · simp [heq, hne]

theorem settle_of_mem (hclaim : K.claims p.mem = true) (hmem : i ∈ order) : K.settle i p order = order := by
  simp [settle, hclaim, hmem]

end

end Lock

/-- Party `i` is the first in the queue and `rest` the others, or nobody is in the queue. -/
def Foremost (i : ι) (rest order : List ι) : Prop := order = i :: rest ∨ order = [] ∧ rest = []

omit [DecidableEq ι] in
theorem Foremost.first {i : ι} {rest order : List ι} (h : Foremost i rest order) :
    order = [] ∨ order.head? = some i := by
  rcases h with rfl | ⟨rfl, -⟩
  · exact Or.inr rfl
  · exact Or.inl rfl

theorem Foremost.settle {K : Lock Q R σ} {i : ι} {rest order : List ι} {p : Prog Q R σ α} (h : Foremost i rest order) :
    Foremost i rest (K.settle i p order) ∨ rest ≠ [] ∧ K.settle i p order = rest := by
  rcases K.settle_cases i p order with heq | ⟨hi, heq⟩ | heq
  · rw [heq]
    exact Or.inl h
  · rcases h with rfl | ⟨rfl, rfl⟩
    · exact absurd List.mem_cons_self hi
    · exact Or.inl (Or.inl heq)
  · rcases h with rfl | ⟨rfl, rfl⟩
    · rw [List.erase_cons_head] at heq
      by_cases hr : rest = []
      · exact Or.inl (Or.inr ⟨heq.trans hr, hr⟩)
      · exact Or.inr ⟨hr, heq⟩
    · exact Or.inl (Or.inr ⟨heq, rfl⟩)

namespace Machine

/-- One move of party `i`: it is called, it takes its place in the queue, or one of its questions
is answered. The lock is granted to the first in the queue, or to anybody if there is none. -/
inductive Moves (M : Machine ι Q R σ α Op W) (K : Lock Q R σ) (i : ι) :
    Queued ι Q R σ α W → Queued ι Q R σ α W → Prop where
  | call (S : Queued ι Q R σ α W) (op : Op) {s : σ} {a : α} (h : S.pool.threads i = .ret s a) (hm : M.may a op) :
      Moves M K i S ⟨⟨Function.update S.pool.threads i (M.body op s), S.pool.world⟩,
        K.settle i (M.body op s) S.order⟩
  | wait (S : Queued ι Q R σ α W) {s : σ} {q : Q} {k : R q → Prog Q R σ α} (h : S.pool.threads i = .ask s q k)
      (hq : K.awaits q = true) (hi : i ∉ S.order) : Moves M K i S ⟨S.pool, S.order ++ [i]⟩
  | answer (S : Queued ι Q R σ α W) {s : σ} {q : Q} {k : R q → Prog Q R σ α} (h : S.pool.threads i = .ask s q k)
      (r : R q) (ha : M.allow S.pool.mems i q r)
      (hfirst : K.grants q r = true → S.order = [] ∨ S.order.head? = some i) :
      Moves M K i S ⟨⟨Function.update S.pool.threads i (k r), M.emit S.pool.world i s q r⟩,
        K.settle i (k r) S.order⟩

/-- Every run from `S` to `S'` in which only parties in `who` move. -/
def Plays (M : Machine ι Q R σ α Op W) (K : Lock Q R σ) (who : ι → Prop) :
    Queued ι Q R σ α W → Queued ι Q R σ α W → Prop :=
  Relation.ReflTransGen fun S S' => ∃ i, who i ∧ M.Moves K i S S'

/-- Every run from `S` on that begins with the call `op` of party `i`, in which `i` hears `answers` and
is not called again. -/
inductive Calls (M : Machine ι Q R σ α Op W) (K : Lock Q R σ) (i : ι) (op : Op) (S : Queued ι Q R σ α W) :
    List (Sigma R) → Queued ι Q R σ α W → Prop where
  | call {s : σ} {a : α} (h : S.pool.threads i = .ret s a) (hm : M.may a op) :
      Calls M K i op S [] ⟨⟨Function.update S.pool.threads i (M.body op s), S.pool.world⟩,
        K.settle i (M.body op s) S.order⟩
  | other {answers : List (Sigma R)} {S₁ S₂ : Queued ι Q R σ α W} {j : ι} (h : Calls M K i op S answers S₁)
      (hne : j ≠ i) (hm : M.Moves K j S₁ S₂) : Calls M K i op S answers S₂
  | wait {answers : List (Sigma R)} {S₁ : Queued ι Q R σ α W} {s : σ} {q : Q} {k : R q → Prog Q R σ α}
      (h : Calls M K i op S answers S₁) (hi : S₁.pool.threads i = .ask s q k) (hq : K.awaits q = true)
      (hn : i ∉ S₁.order) : Calls M K i op S answers ⟨S₁.pool, S₁.order ++ [i]⟩
  | answer {answers : List (Sigma R)} {S₁ : Queued ι Q R σ α W} {s : σ} {q : Q} {k : R q → Prog Q R σ α}
      (h : Calls M K i op S answers S₁) (hi : S₁.pool.threads i = .ask s q k) (r : R q)
      (ha : M.allow S₁.pool.mems i q r) (hfirst : K.grants q r = true → S₁.order = [] ∨ S₁.order.head? = some i) :
      Calls M K i op S (answers ++ [⟨q, r⟩]) ⟨⟨Function.update S₁.pool.threads i (k r), M.emit S₁.pool.world i s q r⟩,
        K.settle i (k r) S₁.order⟩

section
variable {M : Machine ι Q R σ α Op W} {K : Lock Q R σ} {S S' : Queued ι Q R σ α W} {i j : ι}

theorem Plays.call {who : ι → Prop} (i : ι) (op : Op) (hw : who i) {s : σ} {a : α} (h : S.pool.threads i = .ret s a)
    (hm : M.may a op) (hr : M.Plays K who ⟨⟨Function.update S.pool.threads i (M.body op s), S.pool.world⟩,
      K.settle i (M.body op s) S.order⟩ S') : M.Plays K who S S' :=
  .head ⟨i, hw, .call S op h hm⟩ hr

theorem Plays.answer {who : ι → Prop} (i : ι) (x : Sigma R) (hw : who i) {s : σ} {k : R x.1 → Prog Q R σ α}
    (h : S.pool.threads i = .ask s x.1 k) (ha : M.allow S.pool.mems i x.1 x.2)
    (hfirst : K.grants x.1 x.2 = true → S.order = [] ∨ S.order.head? = some i)
    (hr : M.Plays K who ⟨⟨Function.update S.pool.threads i (k x.2), M.emit S.pool.world i s x.1 x.2⟩,
      K.settle i (k x.2) S.order⟩ S') : M.Plays K who S S' :=
  .head ⟨i, hw, .answer S h x.2 ha hfirst⟩ hr

theorem Moves.thread_ne (h : M.Moves K i S S') (hne : j ≠ i) : S'.pool.threads j = S.pool.threads j := by
  cases h with
  | call op h hm => exact Function.update_of_ne hne _ _
  | wait => rfl
  | answer h r ha => exact Function.update_of_ne hne _ _

theorem Calls.comes {op : Op} {answers : List (Sigma R)} (h : M.Calls K i op S answers S') :
    ∃ s a, S.pool.threads i = .ret s a ∧ (M.body op s).Comes answers (S'.pool.threads i) := by
  induction h with
  | call h hm => exact ⟨_, _, h, by simpa using Prog.Comes.here _⟩
  | other _ hne hm ih =>
    obtain ⟨s, a, hs, hcomes⟩ := ih
    exact ⟨s, a, hs, by rwa [hm.thread_ne hne.symm]⟩
  | wait _ _ _ _ ih => exact ih
  | answer _ hi r _ _ ih =>
    obtain ⟨s, a, hs, hcomes⟩ := ih
    rw [hi] at hcomes
    exact ⟨s, a, hs, by simpa using hcomes.answer r⟩

theorem Calls.plays {op : Op} {answers : List (Sigma R)} (h : M.Calls K i op S answers S') :
    M.Plays K (fun _ => True) S S' := by
  induction h with
  | call h hm => exact .single ⟨i, trivial, .call S op h hm⟩
  | other _ hne hm ih => exact ih.tail ⟨_, trivial, hm⟩
  | wait _ hi hq hn ih => exact ih.tail ⟨i, trivial, .wait _ hi hq hn⟩
  | answer _ hi r ha hfirst ih => exact ih.tail ⟨i, trivial, .answer _ hi r ha hfirst⟩

/-- Where a party has been called in a run, the run ends with its last call. -/
theorem Plays.last_call {s₀ : σ} {a₀ : α} (h : M.Plays K (fun _ => True) S S') (hi : S.pool.threads i = .ret s₀ a₀) :
    S'.pool.threads i = .ret s₀ a₀ ∨
      ∃ S₁ op answers, M.Plays K (fun _ => True) S S₁ ∧ M.Calls K i op S₁ answers S' := by
  induction h with
  | refl => exact Or.inl hi
  | @tail S₁ S₂ hplay hstep ih =>
    obtain ⟨j, -, hm⟩ := hstep
    rcases eq_or_ne j i with rfl | hne
    · cases hm with
      | call op h hm => exact Or.inr ⟨S₁, op, [], hplay, .call h hm⟩
      | wait h hq hn =>
        refine ih.imp id fun hcalls => ?_
        obtain ⟨T, op, answers, hT, hcall⟩ := hcalls
        exact ⟨T, op, answers, hT, .wait hcall h hq hn⟩
      | answer h r ha hfirst =>
        rcases ih with hret | ⟨T, op, answers, hT, hcall⟩
        · rw [h] at hret
          cases hret
        · exact Or.inr ⟨T, op, _, hT, .answer hcall h r ha hfirst⟩
    · rw [hm.thread_ne hne.symm]
      refine ih.imp id fun hcalls => ?_
      obtain ⟨T, op, answers, hT, hcall⟩ := hcalls
      exact ⟨T, op, answers, hT, .other hcall hne hm⟩

/-- A move changes at most the place of the party that moves. -/
theorem Moves.order_cases (h : M.Moves K i S S') :
    S'.order = S.order ∨ i ∉ S.order ∧ S'.order = S.order ++ [i] ∨ S'.order = S.order.erase i := by
  cases h with
  | call op h hm => exact K.settle_cases i _ _
  | wait h hq hi => exact Or.inr (Or.inl ⟨hi, rfl⟩)
  | answer h r ha => exact K.settle_cases i _ _

/-- The first of the queue is not moved aside by anybody else. -/
theorem Moves.head (h : M.Moves K i S S') (hne : j ≠ i) (hj : S.order.head? = some j) : S'.order.head? = some j := by
  cases h with
  | call op h hm => exact Lock.head_settle hne hj
  | wait h hq hi =>
    obtain ⟨rest, hrest⟩ := List.head?_eq_some_iff.mp hj
    simp [hrest]
  | answer h r ha => exact Lock.head_settle hne hj

/-- Nobody comes to stand before a party that keeps its place. -/
theorem Moves.ahead (h : M.Moves K i S S') (hn : S.order.Nodup) {a b : List ι} (ho : S.order = a ++ j :: b)
    (hj : j ∈ S'.order) : ∃ a' b', S'.order = a' ++ j :: b' ∧ a'.Sublist a := by
  rcases h.order_cases with heq | ⟨-, heq⟩ | heq
  · exact ⟨a, b, heq.trans ho, .refl a⟩
  · exact ⟨a, b ++ [i], by rw [heq, ho, List.append_assoc, List.cons_append], .refl a⟩
  · have hne : j ≠ i := by
      rintro rfl
      rw [heq] at hj
      exact hn.not_mem_erase hj
    by_cases hi : i ∈ a
    · refine ⟨a.erase i, b, ?_, List.erase_sublist⟩
      rw [heq, ho, List.erase_append_left _ hi]
    · refine ⟨a, b.erase i, ?_, .refl a⟩
      rw [heq, ho, List.erase_append_right _ hi, List.erase_cons_tail (by simpa using hne)]

theorem Plays.thread_ne (h : M.Plays K (· = i) S S') (hne : j ≠ i) : S'.pool.threads j = S.pool.threads j := by
  induction h with
  | refl => rfl
  | tail _ hstep ih =>
    obtain ⟨_, rfl, hmove⟩ := hstep
    exact (hmove.thread_ne hne).trans ih

theorem Plays.mono {who who' : ι → Prop} (h : M.Plays K who S S') (hw : ∀ i, who i → who' i) :
    M.Plays K who' S S' := by
  induction h with
  | refl => exact .refl
  | tail _ hstep ih =>
    obtain ⟨i, hi, hmove⟩ := hstep
    exact ih.tail ⟨i, hw i hi, hmove⟩

/-- What each party puts into the world, apart from the others. -/
structure Output (M : Machine ι Q R σ α Op W) (β : Type) where
  out : (q : Q) → R q → List β
  of : ι → W → List β
  own : ∀ w i s q r, of i (M.emit w i s q r) = of i w ++ out q r
  other : ∀ w i j s q r, j ≠ i → of j (M.emit w i s q r) = of j w

/-- What party `i` will have put into the world when the answers of `ans` have brought it to its
end. -/
def Output.due (O : M.Output β) (ans : (q : Q) → R q) (S : Queued ι Q R σ α W) (i : ι) : List β :=
  O.of i S.pool.world ++ (S.pool.threads i).said O.out ans

section
variable {O : M.Output β} {ans : (q : Q) → R q}

omit [DecidableEq ι] in
theorem Output.due_ret {s : σ} {a : α} (h : S.pool.threads i = .ret s a) : O.due ans S i = O.of i S.pool.world := by
  simp [Output.due, h]

theorem Moves.of_ne (h : M.Moves K i S S') (hne : j ≠ i) : O.of j S'.pool.world = O.of j S.pool.world := by
  cases h with
  | call op h hm => rfl
  | wait => rfl
  | answer h r ha => exact O.other _ _ _ _ _ _ hne

theorem Plays.due_ne (h : M.Plays K (· = i) S S') (hne : j ≠ i) : O.due ans S' j = O.due ans S j := by
  rw [Output.due, Output.due, h.thread_ne hne]
  congr 1
  induction h with
  | refl => rfl
  | tail _ hstep ih =>
    obtain ⟨_, rfl, hmove⟩ := hstep
    exact (hmove.of_ne hne).trans ih

/-- The first in the queue, or anybody while there is none, can be answered by `ans` until its call
ends, or until it gives up its place to others. -/
theorem exists_follow (O : M.Output β) (hans : ∀ m q, M.allow m i q (ans q)) {s : σ} {a : α} {rest : List ι}
    {p : Prog Q R σ α} (hf : p.follow ans = some (s, a)) :
    ∀ {S : Queued ι Q R σ α W}, S.pool.threads i = p → Foremost i rest S.order →
    ∃ S', M.Plays K (· = i) S S' ∧ (S'.pool.threads i).follow ans = some (s, a) ∧ O.due ans S' i = O.due ans S i ∧
      (S'.pool.threads i = .ret s a ∧ Foremost i rest S'.order ∨ rest ≠ [] ∧ S'.order = rest) := by
  induction p with
  | ret s' a' =>
    intro S hp ho
    cases hf
    exact ⟨S, .refl, by rw [hp]; rfl, rfl, Or.inl ⟨hp, ho⟩⟩
  | ask s' q k ih =>
    intro S hp ho
    have hmove := Moves.answer (M := M) (K := K) S hp (ans q) (hans _ q) fun _ => ho.first
    have hdue : O.due ans ⟨⟨Function.update S.pool.threads i (k (ans q)), M.emit S.pool.world i s' q (ans q)⟩,
        K.settle i (k (ans q)) S.order⟩ i = O.due ans S i := by
      simp [Output.due, hp, O.own]
    rcases ho.settle (K := K) (p := k (ans q)) with hnext | hleft
    · obtain ⟨S', hplay, hfollow, hdue', hrest⟩ := ih (ans q) hf (S := ⟨⟨Function.update S.pool.threads i (k (ans q)),
        M.emit S.pool.world i s' q (ans q)⟩, K.settle i (k (ans q)) S.order⟩) (Function.update_self ..) hnext
      exact ⟨S', .head ⟨i, rfl, hmove⟩ hplay, hfollow, hdue'.trans hdue, hrest⟩
    · refine ⟨_, .single ⟨i, rfl, hmove⟩, ?_, hdue, Or.inr hleft⟩
      simpa using hf
  | fault s' e => cases hf

theorem exists_call (O : M.Output β) (hans : ∀ m q, M.allow m i q (ans q)) {s s' : σ} {a a' : α} {rest : List ι}
    {op : Op} (hi : S.pool.threads i = .ret s a) (hm : M.may a op) (hf : (M.body op s).follow ans = some (s', a'))
    (ho : Foremost i rest S.order) :
    ∃ S', M.Plays K (· = i) S S' ∧ (S'.pool.threads i).follow ans = some (s', a') ∧
      O.due ans S' i = O.of i S.pool.world ++ (M.body op s).said O.out ans ∧
      (S'.pool.threads i = .ret s' a' ∧ Foremost i rest S'.order ∨ rest ≠ [] ∧ S'.order = rest) := by
  have hmove := Moves.call (M := M) (K := K) S op hi hm
  have hdue : O.due ans ⟨⟨Function.update S.pool.threads i (M.body op s), S.pool.world⟩,
      K.settle i (M.body op s) S.order⟩ i = O.of i S.pool.world ++ (M.body op s).said O.out ans := by
    simp [Output.due]
  rcases ho.settle (K := K) (p := M.body op s) with hnext | hleft
  · obtain ⟨S', hplay, hfollow, hdue', hrest⟩ := exists_follow (K := K) O hans hf
      (S := ⟨⟨Function.update S.pool.threads i (M.body op s), S.pool.world⟩, K.settle i (M.body op s) S.order⟩)
      (Function.update_self ..) hnext
    exact ⟨S', .head ⟨i, rfl, hmove⟩ hplay, hfollow, hdue'.trans hdue, hrest⟩
  · refine ⟨_, .single ⟨i, rfl, hmove⟩, ?_, hdue, Or.inr hleft⟩
    simpa using hf

end

/-- What is asked of a pool so that its queue can be emptied: it keeps `I`, under which a party that
has returned has a place only for a claim, and a party that has ended well with a claim can
be called to end well without. -/
structure Serves (O : M.Output β) (K : Lock Q R σ) (ans : (q : Q) → R q) (I : Queued ι Q R σ α W → Prop)
    (Good : ι → List β → σ → α → Prop) : Prop where
  allow : ∀ m i q, M.allow m i q (ans q)
  keeps : ∀ {S S' i}, I S → M.Moves K i S S' → I S'
  claims : ∀ {S i s a}, I S → i ∈ S.order → S.pool.threads i = .ret s a → K.claims s = true
  serve : ∀ {i said s a}, Good i said s a → K.claims s = true → ∃ op s' a', M.may a op ∧
    (M.body op s).follow ans = some (s', a') ∧ Good i (said ++ (M.body op s).said O.out ans) s' a' ∧ K.claims s' = false

/-- Every party ends well when it is answered by `ans`, with what it has put out by then. -/
def Bound (O : M.Output β) (ans : (q : Q) → R q) (Good : ι → List β → σ → α → Prop) (S : Queued ι Q R σ α W) : Prop :=
  ∀ i, ∃ s a, (S.pool.threads i).follow ans = some (s, a) ∧ Good i (O.due ans S i) s a

section
variable {O : M.Output β} {ans : (q : Q) → R q} {I : Queued ι Q R σ α W → Prop} {Good : ι → List β → σ → α → Prop}

theorem Serves.plays (h : Serves O K ans I Good) {who : ι → Prop} (hI : I S) (hr : M.Plays K who S S') : I S' := by
  induction hr with
  | refl => exact hI
  | tail _ hstep ih =>
    obtain ⟨i, -, hmove⟩ := hstep
    exact h.keeps ih hmove

theorem Bound.plays (h : Bound O ans Good S) (hr : M.Plays K (· = i) S S') {s : σ} {a : α}
    (hf : (S'.pool.threads i).follow ans = some (s, a)) (hgood : Good i (O.due ans S' i) s a) : Bound O ans Good S' := by
  intro j
  rcases eq_or_ne j i with rfl | hne
  · exact ⟨s, a, hf, hgood⟩
  · rw [hr.thread_ne hne, hr.due_ne hne]
    exact h j

theorem Serves.leaves (h : Serves O K ans I Good) (hI : I S) (hb : Bound O ans Good S) {rest : List ι}
    (ho : S.order = i :: rest) :
    ∃ S', M.Plays K (· = i) S S' ∧ Bound O ans Good S' ∧ S'.order = rest := by
  obtain ⟨s, a, hf, hgood⟩ := hb i
  obtain ⟨S₁, hplay, hf₁, hdue₁, hend⟩ := exists_follow (K := K) O (h.allow · i) hf rfl (Or.inl ho)
  have hgood₁ : Good i (O.due ans S₁ i) s a := by
    rw [hdue₁]
    exact hgood
  have hb₁ := hb.plays hplay hf₁ hgood₁
  rcases hend with ⟨hret, ho₁ | ⟨ho₁, rfl⟩⟩ | ⟨-, ho₁⟩
  · have hclaim := h.claims (h.plays hI hplay) (ho₁ ▸ List.mem_cons_self) hret
    obtain ⟨op, s', a', hmay, hf', hgood', hnone⟩ := h.serve hgood₁ hclaim
    obtain ⟨S₂, hplay', hf₂, hdue₂, hend'⟩ := exists_call (K := K) O (h.allow · i) hret hmay hf' (Or.inl ho₁)
    have hb₂ : Bound O ans Good S₂ := by
      refine hb₁.plays hplay' hf₂ ?_
      rw [hdue₂, ← O.due_ret hret]
      exact hgood'
    refine ⟨S₂, hplay.trans hplay', hb₂, ?_⟩
    rcases hend' with ⟨hret', ho₂ | ⟨ho₂, rfl⟩⟩ | ⟨-, ho₂⟩
    · have hstill := h.claims (h.plays (h.plays hI hplay) hplay') (ho₂ ▸ List.mem_cons_self) hret'
      rw [hnone] at hstill
      cases hstill
    · exact ho₂
    · exact ho₂
  · exact ⟨S₁, hplay, hb₁, ho₁⟩
  · exact ⟨S₁, hplay, hb₁, ho₁⟩

theorem Serves.empties (h : Serves O K ans I Good) :
    ∀ (order : List ι) {S : Queued ι Q R σ α W}, S.order = order → I S → Bound O ans Good S →
      ∃ S', M.Plays K (fun _ => True) S S' ∧ I S' ∧ Bound O ans Good S' ∧ S'.order = [] := by
  intro order
  induction order with
  | nil => exact fun ho hI hb => ⟨_, .refl, hI, hb, ho⟩
  | cons i rest ih =>
    intro S ho hI hb
    obtain ⟨S₁, hplay, hb₁, ho₁⟩ := h.leaves hI hb ho
    obtain ⟨S', hplay', hrest⟩ := ih ho₁ (h.plays hI hplay) hb₁
    exact ⟨S', (hplay.mono fun _ _ => trivial).trans hplay', hrest⟩

/-- A party that ends well can be brought to its end, and nobody else is in the queue then. -/
theorem Serves.ends (h : Serves O K ans I Good) (hI : I S) (hb : Bound O ans Good S) (i : ι) :
    ∃ S' s a, M.Plays K (fun _ => True) S S' ∧ I S' ∧ S'.pool.threads i = .ret s a ∧
      Good i (O.of i S'.pool.world) s a ∧ Foremost i [] S'.order := by
  obtain ⟨S₁, hplay, hI₁, hb₁, ho₁⟩ := h.empties S.order rfl hI hb
  obtain ⟨s, a, hf, hgood⟩ := hb₁ i
  have hfree : Foremost i [] S₁.order := Or.inr ⟨ho₁, rfl⟩
  obtain ⟨S₂, hplay', -, hdue, hend⟩ := exists_follow (K := K) O (h.allow · i) hf rfl hfree
  rcases hend with ⟨hret, ho₂⟩ | ⟨hne, -⟩
  · refine ⟨S₂, s, a, hplay.trans (hplay'.mono fun _ _ => trivial), h.plays hI₁ hplay', hret, ?_, ho₂⟩
    rw [← O.due_ret hret, hdue]
    exact hgood
  · exact absurd rfl hne

end

end

end Machine

end Interaction
