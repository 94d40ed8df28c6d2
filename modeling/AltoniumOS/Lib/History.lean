/-
Systems that move by labelled steps, and simulation between two of them: what one step of the first does, a step
of the second with the same label does, so that every history of the first is one of the second.
-/
import Mathlib.Tactic

namespace AltoniumOS.Lib

universe u v w x

variable {σ : Type u} {τ : Type v} {ℓ : Type w} {ν : Type x}

/-- The labels of steps made one after the other. -/
inductive History (step : σ → ℓ → σ → Prop) : σ → List ℓ → σ → Prop
  | nil (s : σ) : History step s [] s
  | snoc {s s₁ s₂ : σ} {ls : List ℓ} {l : ℓ} : History step s ls s₁ → step s₁ l s₂ →
    History step s (ls ++ [l]) s₂

variable {step : σ → ℓ → σ → Prop} {step' : τ → ℓ → τ → Prop}

/-- A relation between the states that the steps keep is kept by the histories. -/
theorem History.simulate {R : σ → τ → Prop} (sim : ∀ s l s' t, R s t → step s l s' → ∃ t', step' t l t' ∧ R s' t')
    {s s' : σ} {ls : List ℓ} (h : History step s ls s') {t : τ} (hr : R s t) :
    ∃ t', History step' t ls t' ∧ R s' t' := by
  induction h with
  | nil => exact ⟨t, .nil t, hr⟩
  | snoc _ hs ih =>
    obtain ⟨t₁, h1, hr₁⟩ := ih
    obtain ⟨t₂, h2, hr₂⟩ := sim _ _ _ _ hr₁ hs
    exact ⟨t₂, .snoc h1 h2, hr₂⟩

/-- What the steps keep is kept by the histories. -/
theorem History.keeps {I : σ → Prop} (hstep : ∀ s l s', I s → step s l s' → I s') {s s' : σ} {ls : List ℓ}
    (h : History step s ls s') (hi : I s) : I s' := by
  induction h with
  | nil => exact hi
  | snoc _ hs ih => exact hstep _ _ _ ih hs

/-- When a step can be made for whatever is asked, so can any number of them. -/
theorem History.exists {I : σ → Prop} {request : ℓ → ν}
    (total : ∀ s n, I s → ∃ l s', request l = n ∧ step s l s' ∧ I s') {s : σ} (hi : I s) (ns : List ν) :
    ∃ ls s', ls.map request = ns ∧ History step s ls s' ∧ I s' := by
  induction ns using List.reverseRecOn with
  | nil => exact ⟨[], s, rfl, .nil s, hi⟩
  | append_singleton ns n ih =>
    obtain ⟨ls, s₁, rfl, h1, hi₁⟩ := ih
    obtain ⟨l, s₂, rfl, h2, hi₂⟩ := total s₁ n hi₁
    exact ⟨ls ++ [l], s₂, by rw [List.map_append]; rfl, .snoc h1 h2, hi₂⟩

end AltoniumOS.Lib
