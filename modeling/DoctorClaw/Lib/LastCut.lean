import Mathlib.Order.Iterate
import Mathlib.Tactic.Common

/-!
# Cutting at the last place

A text is cut again and again, each time at the last place that a window allows,
or at the end of the window when it has no such place.  A window that is further
on is never cut earlier, so this way of cutting gets at least as far as any
other one that does not cross the last place of a window.
-/

namespace LastCut

/-- The window from `low` to `high` is cut at `k`. -/
structure IsCut (place : ℕ → Prop) (low high k : ℕ) : Prop where
  le_high : k ≤ high
  behind : ∀ j, k < j → j ≤ high → ¬ place j
  at_place : (low < k ∧ place k) ∨ (k = high ∧ ∀ j, low < j → j ≤ high → ¬ place j)

/-- A piece that ends at `b` does not cross the last place of the window. -/
def Allows (place : ℕ → Prop) (low high b : ℕ) : Prop :=
  b ≤ high ∧ ∀ j, low < j → j ≤ high → place j → ∃ k, b ≤ k ∧ k ≤ high ∧ low < k ∧ place k

variable {place : ℕ → Prop} {low low' high high' k k' b : ℕ}

/-- A window that is further on is cut further on. -/
theorem IsCut.mono (h : IsCut place low high k) (h' : IsCut place low' high' k')
    (hlow : low ≤ low') (hhigh : high ≤ high') : k ≤ k' := by
  by_contra hlt
  have hle := h.le_high
  rcases h'.at_place with ⟨hlow', hplace'⟩ | ⟨rfl, -⟩
  · rcases h.at_place with ⟨-, hplace⟩ | ⟨-, hnone⟩
    · exact h'.behind k (by omega) (by omega) hplace
    · exact hnone k' (by omega) (by omega) hplace'
  · omega

theorem IsCut.allows_iff (h : IsCut place low high k) : Allows place low high b ↔ b ≤ k := by
  have hle := h.le_high
  constructor
  · rintro ⟨hb, hcross⟩
    rcases h.at_place with ⟨hlow, hplace⟩ | ⟨rfl, -⟩
    · obtain ⟨j, hbj, hj, -, hplace'⟩ := hcross k hlow hle hplace
      by_contra hlt
      exact h.behind j (by omega) hj hplace'
    · exact hb
  · intro hb
    refine ⟨hb.trans hle, fun j hlow hj hplace ↦ ?_⟩
    rcases h.at_place with ⟨hlow', hplace'⟩ | ⟨-, hnone⟩
    · exact ⟨k, hb, hle, hlow', hplace'⟩
    · exact absurd hplace (hnone j hlow hj)

/-- Cutting at the last place reaches `target` in `n` steps exactly when some
pieces that the windows allow do. -/
theorem le_iterate_iff {low high step : ℕ → ℕ} {target : ℕ}
    (hcut : ∀ a, IsCut place (low a) (high a) (step a)) (hlow : Monotone low)
    (hhigh : Monotone high) (hle : ∀ a, a ≤ step a) (n : ℕ) :
    target ≤ step^[n] 0 ↔ ∃ p : ℕ → ℕ, p 0 = 0 ∧ target ≤ p n ∧
      ∀ i < n, p i ≤ p (i + 1) ∧ Allows place (low (p i)) (high (p i)) (p (i + 1)) := by
  have hsucc : ∀ i, step^[i + 1] 0 = step (step^[i] 0) := fun i ↦
    Function.iterate_succ_apply' step i 0
  constructor
  · intro h
    refine ⟨fun i ↦ step^[i] 0, rfl, h, fun i _ ↦ ?_⟩
    dsimp only
    rw [hsucc, (hcut _).allows_iff]
    exact ⟨hle _, le_rfl⟩
  · rintro ⟨p, hstart, htarget, hallows⟩
    have hmono : Monotone step := fun a b hab ↦ (hcut a).mono (hcut b) (hlow hab) (hhigh hab)
    have hreach : p n ≤ (fun i ↦ step^[i] 0) n := by
      refine hmono.seq_le_seq n hstart.le (fun i hi ↦ ?_) fun i _ ↦ (hsucc i).ge
      exact (hcut _).allows_iff.mp (hallows i hi).2
    exact htarget.trans hreach

end LastCut
