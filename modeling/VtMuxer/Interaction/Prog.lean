import Mathlib.Tactic

/-! Programs that keep a memory and put questions to an environment, with a weakest
precondition over an arbitrary ghost state. Every point at which the environment
answers shows the memory, so programs of several parties can be interleaved there. -/
namespace Interaction

/-- How a program can end without a result. -/
inductive Fault where
  | panic
  | fuel
  deriving DecidableEq, Repr

/-- A program with memory `σ` and result `α`; the answer to the question `q` has type `R q`. -/
inductive Prog (Q : Type) (R : Q → Type) (σ α : Type) where
  | ret (s : σ) (a : α)
  | ask (s : σ) (q : Q) (k : R q → Prog Q R σ α)
  | fault (s : σ) (f : Fault)

variable {Q : Type} {R : Q → Type} {σ α β G : Type}

namespace Prog

def bind : Prog Q R σ α → (σ → α → Prog Q R σ β) → Prog Q R σ β
  | ret s a, f => f s a
  | ask s q k, f => ask s q fun r => (k r).bind f
  | fault s e, _ => fault s e

def mem : Prog Q R σ α → σ
  | ret s _ => s
  | ask s _ _ => s
  | fault s _ => s

def onFault (f : σ → σ) : Prog Q R σ α → Prog Q R σ α
  | ret s a => ret s a
  | ask s q k => ask s q fun r => (k r).onFault f
  | fault s e => fault (f s) e

/-- The program ends with result `a` and memory `s` when given exactly these answers. -/
inductive Runs : Prog Q R σ α → List (Sigma R) → σ → α → Prop where
  | ret (s : σ) (a : α) : Runs (ret s a) [] s a
  | ask {s s' : σ} {q : Q} {k : R q → Prog Q R σ α} {a : α} {answers : List (Sigma R)}
      (r : R q) (h : Runs (k r) answers s' a) : Runs (ask s q k) (⟨q, r⟩ :: answers) s' a

/-- Given exactly these answers, the program waits for one more with memory `s`. -/
inductive Waits : Prog Q R σ α → List (Sigma R) → σ → Prop where
  | here (s : σ) (q : Q) (k : R q → Prog Q R σ α) : Waits (ask s q k) [] s
  | ask {s s' : σ} {q : Q} {k : R q → Prog Q R σ α} {answers : List (Sigma R)}
      (r : R q) (h : Waits (k r) answers s') : Waits (ask s q k) (⟨q, r⟩ :: answers) s'

/-- Execute the program on a list of answers, all of which it has to ask for. -/
def run [DecidableEq Q] : Prog Q R σ α → List (Sigma R) → Option (σ × α)
  | ret s a, [] => some (s, a)
  | ask _ q k, ⟨q', r⟩ :: answers => if h : q' = q then (k (h ▸ r)).run answers else none
  | _, _ => none

theorem runs_of_run [DecidableEq Q] {p : Prog Q R σ α} {answers : List (Sigma R)} {s : σ} {a : α}
    (h : p.run answers = some (s, a)) : p.Runs answers s a := by
  induction p generalizing answers with
  | ret s' a' =>
    cases answers with
    | nil =>
      simp only [run, Option.some.injEq, Prod.mk.injEq] at h
      obtain ⟨rfl, rfl⟩ := h
      exact .ret _ _
    | cons x xs => simp [run] at h
  | ask s' q k ih =>
    cases answers with
    | nil => simp [run] at h
    | cons x xs =>
      obtain ⟨q', r⟩ := x
      simp only [run] at h
      split at h
      · rename_i hq
        subst hq
        exact .ask r (ih r h)
      · cases h
  | fault s' e => cases answers <;> simp [run] at h

end Prog

def Proc (Q : Type) (R : Q → Type) (σ α : Type) : Type := σ → Prog Q R σ α

namespace Proc

instance : Monad (Proc Q R σ) where
  pure a := fun s => .ret s a
  bind m f := fun s => (m s).bind fun s' a => f a s'

def get : Proc Q R σ σ := fun s => .ret s s

def modify (f : σ → σ) : Proc Q R σ Unit := fun s => .ret (f s) ()

def ask (q : Q) : Proc Q R σ (R q) := fun s => .ask s q fun r => .ret s r

def fault (f : Fault) : Proc Q R σ α := fun s => .fault s f

@[simp] theorem pure_apply (a : α) (s : σ) : (pure a : Proc Q R σ α) s = .ret s a := rfl

@[simp] theorem bind_apply (m : Proc Q R σ α) (f : α → Proc Q R σ β) (s : σ) :
    (m >>= f) s = (m s).bind fun s' a => f a s' := rfl

@[simp] theorem get_apply (s : σ) : (get : Proc Q R σ σ) s = .ret s s := rfl

@[simp] theorem modify_apply (f : σ → σ) (s : σ) :
    (modify f : Proc Q R σ Unit) s = .ret (f s) () := rfl

@[simp] theorem ask_apply (q : Q) (s : σ) :
    (ask q : Proc Q R σ (R q)) s = .ask s q fun r => .ret s r := rfl

@[simp] theorem fault_apply (f : Fault) (s : σ) : (fault f : Proc Q R σ α) s = .fault s f := rfl

end Proc

/-- What is assumed of answers, how they move the ghost state, what has to hold wherever
the program waits for one, and which faults are tolerated. `start` prepares the ghost
state for a new call. -/
structure Contract (Q : Type) (R : Q → Type) (σ G : Type) where
  ok : σ → (q : Q) → R q → Prop
  upd : σ → (q : Q) → R q → G → G
  start : σ → G → G
  inv : σ → Q → G → Prop
  fault : σ → Fault → Prop

namespace Prog

def wp (L : Contract Q R σ G) (post : σ → α → G → Prop) : Prog Q R σ α → G → Prop
  | ret s a, g => post s a g
  | ask s q k, g => L.inv s q g ∧ ∀ r, L.ok s q r → (k r).wp L post (L.upd s q r g)
  | fault s f, _ => L.fault s f

variable {L : Contract Q R σ G} {post : σ → α → G → Prop}

@[simp] theorem bind_ret (s : σ) (a : α) (f : σ → α → Prog Q R σ β) :
    (ret s a : Prog Q R σ α).bind f = f s a := rfl

@[simp] theorem bind_ask (s : σ) (q : Q) (k : R q → Prog Q R σ α) (f : σ → α → Prog Q R σ β) :
    (ask s q k).bind f = ask s q fun r => (k r).bind f := rfl

@[simp] theorem bind_fault (s : σ) (e : Fault) (f : σ → α → Prog Q R σ β) :
    (fault s e : Prog Q R σ α).bind f = fault s e := rfl

@[simp] theorem wp_ret (s : σ) (a : α) (g : G) : (ret s a).wp L post g ↔ post s a g := Iff.rfl

@[simp] theorem wp_ask (s : σ) (q : Q) (k : R q → Prog Q R σ α) (g : G) :
    (ask s q k).wp L post g ↔
      L.inv s q g ∧ ∀ r, L.ok s q r → (k r).wp L post (L.upd s q r g) := Iff.rfl

@[simp] theorem wp_fault (s : σ) (e : Fault) (g : G) :
    (fault s e : Prog Q R σ α).wp L post g ↔ L.fault s e := Iff.rfl

theorem wp_bind {p : Prog Q R σ α} {f : σ → α → Prog Q R σ β} {post : σ → β → G → Prop} {g : G} :
    (p.bind f).wp L post g ↔ p.wp L (fun s a g => (f s a).wp L post g) g := by
  induction p generalizing g with
  | ret s a => rfl
  | ask s q k ih =>
    simp only [bind_ask, wp_ask]
    exact and_congr_right fun _ => forall_congr' fun r => imp_congr_right fun _ => ih r
  | fault s e => rfl

theorem wp_mono {post' : σ → α → G → Prop} (h : ∀ s a g, post s a g → post' s a g)
    {p : Prog Q R σ α} {g : G} (hp : p.wp L post g) : p.wp L post' g := by
  induction p generalizing g with
  | ret s a => exact h s a g hp
  | ask s q k ih => exact ⟨hp.1, fun r hr => ih r (hp.2 r hr)⟩
  | fault s e => exact hp

theorem wp_onFault {f : σ → σ} (hf : ∀ s e, L.fault s e → L.fault (f s) e)
    {p : Prog Q R σ α} {g : G} (hp : p.wp L post g) : (p.onFault f).wp L post g := by
  induction p generalizing g with
  | ret s a => exact hp
  | ask s q k ih => exact ⟨hp.1, fun r hr => ih r (hp.2 r hr)⟩
  | fault s e => exact hf s e hp

/-- Whatever the answers that `ok` allows, the program comes to an end: its result is as `post`
says, or it panics where `panics` holds, but it never runs out of fuel. -/
def Ends (ok : (q : Q) → R q → Prop) (panics : Prop) (post : α → Prop) : Prog Q R σ α → Prop
  | ret _ a => post a
  | ask _ q k => ∀ r, ok q r → (k r).Ends ok panics post
  | fault _ e => panics ∧ e = .panic

theorem ends_of_wp {ok : (q : Q) → R q → Prop} {panics : Prop} {res : α → Prop}
    (hok : ∀ s q r, ok q r → L.ok s q r) (hf : ∀ s e, L.fault s e → panics ∧ e = .panic)
    (hres : ∀ s a g, post s a g → res a) {p : Prog Q R σ α} {g : G} (hp : p.wp L post g) :
    p.Ends ok panics res := by
  induction p generalizing g with
  | ret s a => exact hres s a g hp
  | ask s q k ih => exact fun r hr => ih r (hp.2 r (hok s q r hr))
  | fault s e => exact hf s e hp

end Prog

namespace Contract

/-- The contract that asks for `I` alone wherever the program waits. -/
def under (L : Contract Q R σ G) (I : σ → G → Prop) : Contract Q R σ G := { L with inv := fun s _ g => I s g }

def also (L : Contract Q R σ G) (I : σ → G → Prop) : Contract Q R σ G :=
  { L with inv := fun s q g => L.inv s q g ∧ I s g }

end Contract

namespace Prog
variable {L : Contract Q R σ G} {I : σ → G → Prop} {post post' : σ → α → G → Prop}

/-- What holds under each of two contracts that differ in the invariant holds under both. -/
theorem wp_also {p : Prog Q R σ α} {g : G} (h : p.wp L post g) (h' : p.wp (L.under I) post' g) :
    p.wp (L.also I) (fun s a g => post s a g ∧ post' s a g) g := by
  induction p generalizing g with
  | ret s a => exact ⟨h, h'⟩
  | ask s q k ih => exact ⟨⟨h.1, h'.1⟩, fun r hr => ih r (h.2 r hr) (h'.2 r hr)⟩
  | fault s e => exact h

theorem wp_of_also {p : Prog Q R σ α} {g : G} (h : p.wp (L.also I) (fun s a g => post s a g ∧ post' s a g) g) :
    p.wp L post g := by
  induction p generalizing g with
  | ret s a => exact h.1
  | ask s q k ih => exact ⟨h.1.1, fun r hr => ih r (h.2 r hr)⟩
  | fault s e => exact h

theorem wp_under (hinv : ∀ s q g, L.inv s q g → I s g) (hpost : ∀ s a g, post s a g → post' s a g)
    {p : Prog Q R σ α} {g : G} (h : p.wp L post g) : p.wp (L.under I) post' g := by
  induction p generalizing g with
  | ret s a => exact hpost s a g h
  | ask s q k ih => exact ⟨hinv s q g h.1, fun r hr => ih r (h.2 r hr)⟩
  | fault s e => exact h

end Prog

theorem Prog.Runs.onFault {f : σ → σ} {p : Prog Q R σ α} {answers : List (Sigma R)} {s : σ} {a : α}
    (h : p.Runs answers s a) : (p.onFault f).Runs answers s a := by
  induction h with
  | ret s a => exact .ret s a
  | ask r _ ih => exact .ask r ih

/-- The contract whose ghost state is the list of answers of the present call. -/
def tracing (σ : Type) (ok : (q : Q) → R q → Prop) : Contract Q R σ (List (Sigma R)) where
  ok _ q r := ok q r
  upd _ q r g := g ++ [⟨q, r⟩]
  start _ _ := []
  inv _ _ _ := True
  fault _ _ := True

theorem Prog.wp_tracing {ok : (q : Q) → R q → Prop} {p : Prog Q R σ α} {g : List (Sigma R)} :
    p.wp (tracing σ ok) (fun _ _ _ => True) g := by
  induction p generalizing g with
  | ret s a => trivial
  | ask s q k ih => exact ⟨trivial, fun r _ => ih r⟩
  | fault s e => trivial

theorem Prog.Runs.of_tracing {ok : (q : Q) → R q → Prop} {p : Prog Q R σ α}
    {post : σ → α → List (Sigma R) → Prop} {answers g : List (Sigma R)} {s : σ} {a : α}
    (hr : p.Runs answers s a) (hok : ∀ x ∈ answers, ok x.1 x.2)
    (hp : p.wp (tracing σ ok) post g) : post s a (g ++ answers) := by
  induction hr generalizing g with
  | ret s a => simpa using hp
  | ask r _ ih =>
    have hk := hp.2 r (hok ⟨_, r⟩ (by simp))
    simpa [tracing] using ih (fun x hx => hok x (by simp [hx])) hk

/-- Given exactly these answers, the program comes to stand at `p'`. -/
inductive Prog.Comes : Prog Q R σ α → List (Sigma R) → Prog Q R σ α → Prop where
  | here (p : Prog Q R σ α) : Comes p [] p
  | ask {s : σ} {q : Q} {k : R q → Prog Q R σ α} {p' : Prog Q R σ α} {answers : List (Sigma R)}
      (r : R q) (h : Comes (k r) answers p') : Comes (ask s q k) (⟨q, r⟩ :: answers) p'

theorem Prog.Comes.answer {p : Prog Q R σ α} {answers : List (Sigma R)} {s : σ} {q : Q} {k : R q → Prog Q R σ α}
    (h : p.Comes answers (.ask s q k)) (r : R q) : p.Comes (answers ++ [⟨q, r⟩]) (k r) := by
  generalize hp : Prog.ask s q k = p' at h
  induction h with
  | here p =>
    subst hp
    exact .ask r (.here _)
  | ask r' _ ih => exact .ask r' (ih hp)

/-- What the trace of a call shows wherever the call has come to stand. -/
theorem Prog.Comes.of_tracing {ok : (q : Q) → R q → Prop} {I : σ → List (Sigma R) → Prop} {p p' : Prog Q R σ α}
    {post : σ → α → List (Sigma R) → Prop} {answers g : List (Sigma R)} (hc : p.Comes answers p')
    (hok : ∀ x ∈ answers, ok x.1 x.2) (hp : p.wp ((tracing σ ok).under I) post g) :
    p'.wp ((tracing σ ok).under I) post (g ++ answers) := by
  induction hc generalizing g with
  | here p => simpa using hp
  | ask r _ ih =>
    have hk := hp.2 r (hok ⟨_, r⟩ (by simp))
    simpa [tracing, Contract.under] using ih (fun x hx => hok x (by simp [hx])) hk

namespace Prog
variable {ans : (q : Q) → R q}

/-- Where the program ends when every question is answered by `ans`. -/
def follow (ans : (q : Q) → R q) : Prog Q R σ α → Option (σ × α)
  | ret s a => some (s, a)
  | ask _ q k => (k (ans q)).follow ans
  | fault _ _ => none

@[simp] theorem follow_ret (s : σ) (a : α) : (ret s a : Prog Q R σ α).follow ans = some (s, a) := rfl

@[simp] theorem follow_ask (s : σ) (q : Q) (k : R q → Prog Q R σ α) :
    (ask s q k).follow ans = (k (ans q)).follow ans := rfl

@[simp] theorem follow_bind (p : Prog Q R σ α) (f : σ → α → Prog Q R σ β) :
    (p.bind f).follow ans = (p.follow ans).bind fun x => (f x.1 x.2).follow ans := by
  induction p with
  | ret s a => rfl
  | ask s q k ih => exact ih (ans q)
  | fault s e => rfl

@[simp] theorem follow_onFault (f : σ → σ) (p : Prog Q R σ α) : (p.onFault f).follow ans = p.follow ans := by
  induction p with
  | ret s a => rfl
  | ask s q k ih => exact ih (ans q)
  | fault s e => rfl

/-- What the questions put out until then, where `out` says what each of them does with its answer. -/
def said (out : (q : Q) → R q → List β) (ans : (q : Q) → R q) : Prog Q R σ α → List β
  | ret _ _ => []
  | ask _ q k => out q (ans q) ++ (k (ans q)).said out ans
  | fault _ _ => []

section
variable {γ : Type} {out : (q : Q) → R q → List γ}

@[simp] theorem said_ret (s : σ) (a : α) : (ret s a : Prog Q R σ α).said out ans = [] := rfl

@[simp] theorem said_ask (s : σ) (q : Q) (k : R q → Prog Q R σ α) :
    (ask s q k).said out ans = out q (ans q) ++ (k (ans q)).said out ans := rfl

theorem said_bind {p : Prog Q R σ α} {f : σ → α → Prog Q R σ β} {s : σ} {a : α} (h : p.follow ans = some (s, a)) :
    (p.bind f).said out ans = p.said out ans ++ (f s a).said out ans := by
  induction p with
  | ret s' a' =>
    cases h
    rfl
  | ask s' q k ih =>
    rw [bind_ask, said_ask, said_ask, ih (ans q) h, List.append_assoc]
  | fault s' e => cases h

@[simp] theorem said_onFault (f : σ → σ) (p : Prog Q R σ α) : (p.onFault f).said out ans = p.said out ans := by
  induction p with
  | ret s a => rfl
  | ask s q k ih => exact congrArg (out q (ans q) ++ ·) (ih (ans q))
  | fault s e => rfl

end

/-- A program that keeps a contract without faults ends. -/
theorem follow_of_wp {L : Contract Q R σ G} {post : σ → α → G → Prop} (hok : ∀ s q, L.ok s q (ans q))
    (hf : ∀ s e, ¬ L.fault s e) {p : Prog Q R σ α} {g : G} (h : p.wp L post g) :
    ∃ s a g', p.follow ans = some (s, a) ∧ post s a g' := by
  induction p generalizing g with
  | ret s a => exact ⟨s, a, g, rfl, h⟩
  | ask s q k ih => exact ih (ans q) (h.2 (ans q) (hok s q))
  | fault s e => exact absurd h (hf s e)

variable {T : σ → σ → Prop}

/-- From one point at which the program stands to the next the memory moves as `T` says. -/
def Along (T : σ → σ → Prop) : Prog Q R σ α → σ → Prop
  | ret s _, s₀ => T s₀ s
  | ask s _ k, s₀ => T s₀ s ∧ ∀ r, (k r).Along T s
  | fault s _, s₀ => T s₀ s

theorem Along.here (hrefl : ∀ s, T s s) {p : Prog Q R σ α} {s : σ} (h : p.Along T s) : p.Along T p.mem := by
  cases p with
  | ret s' a => exact hrefl s'
  | ask s' q k => exact ⟨hrefl s', h.2⟩
  | fault s' e => exact hrefl s'

theorem Along.after (htrans : ∀ a b c, T a b → T b c → T a c) {p : Prog Q R σ α} {s s₀ : σ} (h : p.Along T s)
    (hs : T s₀ s) : p.Along T s₀ := by
  cases p with
  | ret s' a => exact htrans _ _ _ hs h
  | ask s' q k => exact ⟨htrans _ _ _ hs h.1, h.2⟩
  | fault s' e => exact htrans _ _ _ hs h

theorem Along.bind (htrans : ∀ a b c, T a b → T b c → T a c) {p : Prog Q R σ α} {f : σ → α → Prog Q R σ β} {s : σ}
    (h : p.Along T s) (hf : ∀ s a, (f s a).Along T s) : (p.bind f).Along T s := by
  induction p generalizing s with
  | ret s' a => exact (hf s' a).after htrans h
  | ask s' q k ih => exact ⟨h.1, fun r => ih r (h.2 r)⟩
  | fault s' e => exact h

theorem Along.onFault (htrans : ∀ a b c, T a b → T b c → T a c) {f : σ → σ} (hf : ∀ s, T s (f s))
    {p : Prog Q R σ α} {s : σ} (h : p.Along T s) : (p.onFault f).Along T s := by
  induction p generalizing s with
  | ret s' a => exact h
  | ask s' q k ih => exact ⟨h.1, fun r => ih r (h.2 r)⟩
  | fault s' e => exact htrans _ _ _ h (hf s')

theorem Along.follow (htrans : ∀ a b c, T a b → T b c → T a c) {ans : (q : Q) → R q} {p : Prog Q R σ α} {s s' : σ}
    {a : α} (h : p.Along T s) (hf : p.follow ans = some (s', a)) : T s s' := by
  induction p generalizing s with
  | ret s₁ a₁ =>
    cases hf
    exact h
  | ask s₁ q k ih => exact htrans _ _ _ h.1 (ih (ans q) (h.2 (ans q)) hf)
  | fault s₁ e => cases hf

theorem Comes.follow {ans : (q : Q) → R q} {p p' : Prog Q R σ α} {answers : List (Sigma R)} {s : σ} {a : α}
    (h : p.Comes answers p') (hf : p'.follow ans = some (s, a)) : ∃ more, p.Runs more s a := by
  induction h with
  | here p =>
    induction p with
    | ret s' a' =>
      cases hf
      exact ⟨[], .ret s a⟩
    | ask s' q k ih =>
      obtain ⟨more, hruns⟩ := ih (ans q) hf
      exact ⟨_, .ask (ans q) hruns⟩
    | fault s' e => cases hf
  | ask r _ ih =>
    obtain ⟨more, hruns⟩ := ih hf
    exact ⟨_, .ask r hruns⟩

end Prog

end Interaction
