import Mathlib.Algebra.Order.Field.Basic
import Mathlib.Tactic.Linarith

/-!
# Counters that saturate at one

A counter that is missing until the first increment, which sets it to a fixed
share, and to which every later increment adds the same share, up to one.
-/

namespace Saturating

variable {K : Type*} [Field K] [LinearOrder K] {δ w : K} {n n' : ℕ}

/-- One increment. -/
def bump (δ : K) (w : Option K) : Option K := some ((w.map fun x ↦ min 1 (x + δ)).getD δ)

/-- The counter after `n` increments. -/
def level (δ : K) (n : ℕ) : Option K := if n = 0 then none else some (min 1 (n * δ))

theorem level_zero (δ : K) : level δ 0 = none := if_pos rfl

theorem level_succ (δ : K) (n : ℕ) : level δ (n + 1) = some (min 1 ((n + 1 : ℕ) * δ)) :=
  if_neg (Nat.succ_ne_zero n)

variable [IsStrictOrderedRing K]

theorem bump_level (h0 : 0 ≤ δ) (h1 : δ ≤ 1) (n : ℕ) : bump δ (level δ n) = level δ (n + 1) := by
  cases n with
  | zero => rw [level_zero, level_succ, bump, Option.map_none, Option.getD_none, zero_add,
      Nat.cast_one, one_mul, min_eq_right h1]
  | succ n =>
      rw [level_succ, level_succ, bump, Option.map_some, Option.getD_some]
      have hsum : ((n + 1 + 1 : ℕ) : K) * δ = (n + 1 : ℕ) * δ + δ := by
        rw [Nat.cast_succ (n + 1), add_one_mul]
      rw [hsum, min_add, ← min_assoc, min_eq_left (le_add_of_nonneg_right h0)]

theorem level_pos_le (h : 0 < δ) (hw : level δ n = some w) : 0 < w ∧ w ≤ 1 := by
  cases n with
  | zero => cases hw
  | succ n =>
      rw [level_succ, Option.some.injEq] at hw
      rw [← hw]
      exact ⟨lt_min one_pos (mul_pos (Nat.cast_pos.mpr (Nat.succ_pos n)) h), min_le_left _ _⟩

theorem level_mono (h : 0 ≤ δ) (hn : n ≤ n') (hw : level δ n = some w) :
    ∃ w', level δ n' = some w' ∧ w ≤ w' := by
  cases n with
  | zero => cases hw
  | succ n =>
      rw [level_succ, Option.some.injEq] at hw
      cases n' with
      | zero => omega
      | succ n' =>
          refine ⟨_, level_succ δ n', ?_⟩
          rw [← hw]
          exact min_le_min_left 1 (mul_le_mul_of_nonneg_right (Nat.cast_le.mpr hn) h)

end Saturating
