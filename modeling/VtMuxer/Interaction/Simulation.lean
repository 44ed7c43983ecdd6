import Mathlib.Data.List.Basic
import Mathlib.Logic.Relation

/-! Systems whose steps can be seen from outside, and simulations between them. A step may show
several things, one or nothing. -/
namespace Interaction

variable {σ τ ℓ : Type*}

/-- The steps of a system, each with what it shows. -/
def System (σ ℓ : Type*) : Type _ := σ → List ℓ → σ → Prop

namespace System

inductive Runs (M : System σ ℓ) (s : σ) : List ℓ → σ → Prop where
  | refl : Runs M s [] s
  | tail {t u : List ℓ} {s₁ s₂ : σ} (h : Runs M s t s₁) (hs : M s₁ u s₂) : Runs M s (t ++ u) s₂

/-- Every step of the one system is a run of the other that shows the same. -/
def Simulates (M : System σ ℓ) (N : System τ ℓ) (R : σ → τ → Prop) : Prop :=
  ∀ s l s' t, R s t → M s l s' → ∃ t', N.Runs t l t' ∧ R s' t'

section
variable {M : System σ ℓ} {N : System τ ℓ} {R : σ → τ → Prop} {s s' s'' : σ} {t u : List ℓ}

theorem Runs.single (h : M s t s') : M.Runs s t s' := by
  have hrun := Runs.tail .refl h
  rwa [List.nil_append] at hrun

theorem Runs.trans (h : M.Runs s t s') (h' : M.Runs s' u s'') : M.Runs s (t ++ u) s'' := by
  induction h' with
  | refl =>
    rw [List.append_nil]
    exact h
  | tail _ hs ih =>
    rw [← List.append_assoc]
    exact .tail ih hs

/-- What a system shows, another shows that simulates it. -/
theorem Simulates.runs (h : M.Simulates N R) {x : τ} (hx : R s x) (hr : M.Runs s t s') :
    ∃ x', N.Runs x t x' ∧ R s' x' := by
  induction hr with
  | refl => exact ⟨x, .refl, hx⟩
  | tail _ hs ih =>
    obtain ⟨x₁, hrun, hx₁⟩ := ih
    obtain ⟨x₂, hstep, hx₂⟩ := h _ _ _ _ hx₁ hs
    exact ⟨x₂, hrun.trans hstep, hx₂⟩

end

end System

end Interaction
