import Mathlib.Data.List.Induction
import Mathlib.Tactic.Common

/-!
# Runs of a labelled transition relation

A run is a finite list of labels together with the state it leads to.  It is
built by appending the newest label at the end, so an induction over a run
speaks about the last step taken, which is how a safety property of every
interleaving is proved.
-/

namespace Transition

variable {σ τ ℓ ℓ' : Type*}

/-- `Run step s₀ ls s` says that the labels `ls`, fired in this order, lead
from `s₀` to `s`. -/
inductive Run (step : σ → ℓ → σ → Prop) (s₀ : σ) : List ℓ → σ → Prop
  | nil : Run step s₀ [] s₀
  | snoc {ls : List ℓ} {s s' : σ} {l : ℓ} :
      Run step s₀ ls s → step s l s' → Run step s₀ (ls ++ [l]) s'

variable {step : σ → ℓ → σ → Prop} {s₀ s : σ} {ls : List ℓ}

/-- A predicate on the labels fired so far and the state they led to holds
after every run, once it holds initially and every step keeps it. -/
theorem Run.invariant_trace {I : List ℓ → σ → Prop} (h₀ : I [] s₀)
    (hstep : ∀ ls s l s', Run step s₀ ls s → I ls s → step s l s' → I (ls ++ [l]) s')
    (h : Run step s₀ ls s) : I ls s := by
  induction h with
  | nil => exact h₀
  | snoc hrun hlast ih => exact hstep _ _ _ _ hrun ih hlast

theorem Run.invariant {I : σ → Prop} (h₀ : I s₀)
    (hstep : ∀ s l s', I s → step s l s' → I s') (h : Run step s₀ ls s) : I s :=
  h.invariant_trace (I := fun _ s ↦ I s) h₀ fun _ s l s' _ hI hs ↦ hstep s l s' hI hs

theorem Run.mono {step' : σ → ℓ → σ → Prop} (hle : ∀ s l s', step s l s' → step' s l s')
    (h : Run step s₀ ls s) : Run step' s₀ ls s := by
  induction h with
  | nil => exact .nil
  | snoc _ hlast ih => exact ih.snoc (hle _ _ _ hlast)

theorem Run.fired {l : ℓ} {pre post : List ℓ} (h : Run step s₀ (pre ++ l :: post) s) :
    ∃ t t', Run step s₀ pre t ∧ step t l t' := by
  induction post using List.reverseRecOn generalizing s with
  | nil =>
      generalize hls : pre ++ [l] = ls at h
      cases h with
      | nil => simp at hls
      | snoc hrun hlast =>
          obtain ⟨rfl, hl⟩ := List.append_inj' hls rfl
          obtain rfl : l = _ := by simpa using hl
          exact ⟨_, _, hrun, hlast⟩
  | append_singleton post last ih =>
      generalize hls : pre ++ l :: (post ++ [last]) = ls at h
      cases h with
      | nil => simp at hls
      | snoc hrun _ =>
          rw [← List.cons_append, ← List.append_assoc] at hls
          obtain ⟨rfl, -⟩ := List.append_inj' hls rfl
          exact ih hrun

/-- A forward simulation turns a run into a run of the simulating relation,
over the renamed labels. -/
theorem Run.simulation {stepA : τ → ℓ' → τ → Prop} {t₀ : τ} (f : ℓ → ℓ')
    {R : σ → τ → Prop} (h₀ : R s₀ t₀)
    (hstep : ∀ s l s' t, R s t → step s l s' → ∃ t', stepA t (f l) t' ∧ R s' t')
    (h : Run step s₀ ls s) : ∃ t, Run stepA t₀ (ls.map f) t ∧ R s t := by
  induction h with
  | nil => exact ⟨t₀, .nil, h₀⟩
  | snoc _ hlast ih =>
      obtain ⟨t, hrun, hR⟩ := ih
      obtain ⟨t', hstepA, hR'⟩ := hstep _ _ _ _ hR hlast
      refine ⟨t', ?_, hR'⟩
      rw [List.map_append, List.map_singleton]
      exact hrun.snoc hstepA

end Transition
