import Mathlib.Data.List.Induction
import Mathlib.Data.Nat.ModEq
import Mathlib.Logic.Function.Basic
import Mathlib.Tactic.Common

/-!
# Tables that are written round-robin

A table of `size` slots, the `n`-th entry going into slot `n % size`.  It holds
the last `size` entries, each in its own slot.
-/

structure RoundRobin (α : Type*) where
  slots : ℕ → α
  count : ℕ

namespace RoundRobin

variable {α : Type*} {size : ℕ} {empty : ℕ → α} {xs : List α} {a : α} {i k : ℕ}

def put (size : ℕ) (t : RoundRobin α) (a : α) : RoundRobin α :=
  ⟨Function.update t.slots (t.count % size) a, t.count + 1⟩

/-- The table after the entries were written into an empty one. -/
def fill (size : ℕ) (empty : ℕ → α) (xs : List α) : RoundRobin α := xs.foldl (put size) ⟨empty, 0⟩

theorem fill_append_singleton (size : ℕ) (empty : ℕ → α) (xs : List α) (a : α) :
    fill size empty (xs ++ [a]) = put size (fill size empty xs) a := by
  simp [fill]

@[simp] theorem count_fill (size : ℕ) (empty : ℕ → α) (xs : List α) :
    (fill size empty xs).count = xs.length := by
  induction xs using List.reverseRecOn with
  | nil => rfl
  | append_singleton xs a ih =>
      rw [fill_append_singleton, put, ih, List.length_append, List.length_singleton]

theorem mod_ne_of_recent {i n : ℕ} (hi : i < n) (hrecent : n < i + size) : i % size ≠ n % size := by
  intro heq
  have hle := Nat.le_of_dvd (by omega) ((Nat.modEq_iff_dvd' hi.le).mp heq)
  omega

theorem slots_fill (hi : xs[i]? = some a) (hrecent : xs.length ≤ i + size) :
    (fill size empty xs).slots (i % size) = a := by
  induction xs using List.reverseRecOn with
  | nil => simp at hi
  | append_singleton xs last ih =>
      rw [List.length_append, List.length_singleton] at hrecent
      rw [fill_append_singleton, put, count_fill]
      rcases lt_trichotomy i xs.length with hlt | rfl | hgt
      · rw [List.getElem?_append_left hlt] at hi
        change Function.update _ _ _ _ = _
        rw [Function.update_of_ne (mod_ne_of_recent hlt (by omega))]
        exact ih hi (by omega)
      · rw [List.getElem?_concat_length, Option.some.injEq] at hi
        change Function.update _ _ _ _ = _
        rw [Function.update_self, hi]
      · rw [List.getElem?_eq_none (by simpa [Nat.succ_le_iff] using hgt)] at hi
        cases hi

/-- A slot no entry was written into is as it was. -/
theorem slots_fill_empty (hk : xs.length ≤ k) (hsize : k < size) :
    (fill size empty xs).slots k = empty k := by
  induction xs using List.reverseRecOn with
  | nil => rfl
  | append_singleton xs last ih =>
      rw [List.length_append, List.length_singleton] at hk
      rw [fill_append_singleton, put, count_fill, Nat.mod_eq_of_lt (by omega)]
      change Function.update _ _ _ _ = _
      rw [Function.update_of_ne (by omega)]
      exact ih (by omega)

/-- Every slot holds one of the last `size` entries, or is as it was. -/
theorem slot_cases (xs : List α) (hk : k < size) :
    (∃ i a, xs[i]? = some a ∧ xs.length ≤ i + size ∧ i % size = k) ∨ xs.length ≤ k := by
  by_cases hlen : xs.length ≤ k
  · exact Or.inr hlen
  · left
    have hmod := Nat.mod_lt (xs.length - 1 - k) (by omega : 0 < size)
    have hdiv := Nat.div_add_mod (xs.length - 1 - k) size
    have hlt : k + size * ((xs.length - 1 - k) / size) < xs.length := by omega
    refine ⟨_, _, List.getElem?_eq_getElem hlt, by omega, ?_⟩
    rw [Nat.add_mul_mod_self_left, Nat.mod_eq_of_lt hk]

end RoundRobin
