import Mathlib.Data.List.Nodup
import Mathlib.Data.List.Perm.Basic
import Mathlib.Data.List.Range
import Mathlib.Logic.Equiv.Basic
import Mathlib.Order.Lattice

/-!
# Exchange sort in place

The variable `a` is an array, as a function of the index.  For each place `i` the
entry there is exchanged with every later one that has a higher score.  After the
round of `i` no later entry has a higher score than the one at `i`, so that in the
end the first `n` entries are a permutation of what they were, and higher scores
come first.
-/

namespace ExchangeSort

variable {α S : Type*} [LinearOrder S]

/-! ## The loops -/

/-- The body of the inner loop. -/
def exchange (score : α → S) (i : ℕ) (a : ℕ → α) (j : ℕ) : ℕ → α :=
  if score (a i) < score (a j) then
    let tmp := a i
    Function.update (Function.update a i (a j)) j tmp
  else a

/-- The inner loop, for `j` from `i + 1` up to `n`. -/
def exchangeFrom (score : α → S) (n : ℕ) (a : ℕ → α) (i : ℕ) : ℕ → α :=
  (List.range' (i + 1) (n - (i + 1))).foldl (exchange score i) a

def exchangeSort (score : α → S) (n : ℕ) (a : ℕ → α) : ℕ → α :=
  (List.range n).foldl (exchangeFrom score n) a

/-- The array `b` holds the first `n` entries of `a` in some order. -/
def Rearranged (n : ℕ) (a b : ℕ → α) : Prop :=
  ∃ σ : Equiv.Perm ℕ, (∀ k, σ k < n ↔ k < n) ∧ b = a ∘ σ

/-- No entry behind one of the first `i` has a higher score. -/
def FrontSorted (score : α → S) (n i : ℕ) (a : ℕ → α) : Prop :=
  ∀ p < i, ∀ q, p < q → q < n → score (a q) ≤ score (a p)

/-! ## Rearrangements -/

variable {score : α → S} {a b c : ℕ → α} {i j m n : ℕ}

omit [LinearOrder S] in
theorem Rearranged.refl (n : ℕ) (a : ℕ → α) : Rearranged n a a :=
  ⟨Equiv.refl ℕ, fun _ ↦ Iff.rfl, rfl⟩

omit [LinearOrder S] in
theorem Rearranged.trans (hab : Rearranged n a b) (hbc : Rearranged n b c) :
    Rearranged n a c := by
  obtain ⟨σ, hσ, rfl⟩ := hab
  obtain ⟨τ, hτ, rfl⟩ := hbc
  exact ⟨τ.trans σ, fun k ↦ (hσ (τ k)).trans (hτ k), rfl⟩

omit [LinearOrder S] in
theorem Rearranged.perm (h : Rearranged n a b) :
    ((List.range n).map b).Perm ((List.range n).map a) := by
  obtain ⟨σ, hσ, rfl⟩ := h
  rw [← List.map_map]
  refine List.Perm.map a ?_
  refine (List.perm_ext_iff_of_nodup (List.nodup_range.map σ.injective) List.nodup_range).mpr ?_
  intro k
  rw [List.mem_map]
  constructor
  · rintro ⟨m, hm, rfl⟩
    exact List.mem_range.mpr ((hσ m).mpr (List.mem_range.mp hm))
  · intro hk
    refine ⟨σ.symm k, List.mem_range.mpr ?_, σ.apply_symm_apply k⟩
    rw [← hσ, σ.apply_symm_apply]
    exact List.mem_range.mp hk

theorem exchange_eq (score : α → S) (i j : ℕ) (a : ℕ → α) :
    exchange score i a j =
      if score (a i) < score (a j) then a ∘ Equiv.swap j i else a := by
  unfold exchange
  split_ifs
  · exact (Equiv.comp_swap_eq_update j i a).symm
  · rfl

theorem rearranged_exchange (hi : i < n) (hj : j < n) (a : ℕ → α) :
    Rearranged n a (exchange score i a j) := by
  rw [exchange_eq]
  split_ifs
  · refine ⟨Equiv.swap j i, fun k ↦ ?_, rfl⟩
    by_cases hkj : k = j
    · rw [hkj, Equiv.swap_apply_left]
      exact iff_of_true hi hj
    · by_cases hki : k = i
      · rw [hki, Equiv.swap_apply_right]
        exact iff_of_true hj hi
      · rw [Equiv.swap_apply_of_ne_of_ne hkj hki]
  · exact .refl n a

/-! ## One round -/

/-- An exchange behind the first `i` entries keeps them in their order. -/
theorem FrontSorted.exchange (h : FrontSorted score n i a) (hij : i < j) (hj : j < n) :
    FrontSorted score n i (exchange score i a j) := by
  rw [exchange_eq]
  split_ifs
  · intro p hp q hpq hq
    rw [Function.comp_apply, Function.comp_apply,
      Equiv.swap_apply_of_ne_of_ne (show p ≠ j by omega) (show p ≠ i by omega)]
    by_cases hqj : q = j
    · rw [hqj, Equiv.swap_apply_left]
      exact h p hp i hp (by omega)
    · by_cases hqi : q = i
      · rw [hqi, Equiv.swap_apply_right]
        exact h p hp j (by omega) hj
      · rw [Equiv.swap_apply_of_ne_of_ne hqj hqi]
        exact h p hp q hpq hq
  · exact h

/-- The entry at `i` has the highest score of those the round has passed. -/
theorem exchange_highest (h : ∀ q, i < q → q < j → score (a q) ≤ score (a i)) :
    ∀ q, i < q → q < j + 1 → score (exchange score i a j q) ≤ score (exchange score i a j i) := by
  intro q hiq hq
  rw [exchange_eq]
  split_ifs with hlt
  · rw [Function.comp_apply, Function.comp_apply, Equiv.swap_apply_right]
    by_cases hqj : q = j
    · rw [hqj, Equiv.swap_apply_left]
      exact hlt.le
    · rw [Equiv.swap_apply_of_ne_of_ne hqj (by omega)]
      exact (h q hiq (by omega)).trans hlt.le
  · by_cases hqj : q = j
    · rw [hqj]
      exact not_lt.mp hlt
    · exact h q hiq (by omega)

/-- What `m` steps of the round of `i` do. -/
theorem foldl_exchange (h : FrontSorted score n i a) (hm : i + 1 + m ≤ n) :
    Rearranged n a ((List.range' (i + 1) m).foldl (exchange score i) a) ∧
      FrontSorted score n i ((List.range' (i + 1) m).foldl (exchange score i) a) ∧
      ∀ q, i < q → q < i + 1 + m →
        score ((List.range' (i + 1) m).foldl (exchange score i) a q) ≤
          score ((List.range' (i + 1) m).foldl (exchange score i) a i) := by
  induction m with
  | zero => exact ⟨.refl n a, h, fun q hiq hq ↦ by omega⟩
  | succ m ih =>
      obtain ⟨hperm, hfront, hhighest⟩ := ih (by omega)
      rw [List.range'_1_concat, List.foldl_append]
      exact ⟨hperm.trans (rearranged_exchange (by omega) (by omega) _),
        hfront.exchange (by omega) hm, exchange_highest hhighest⟩

theorem rearranged_exchangeFrom (h : FrontSorted score n i a) (hi : i < n) :
    Rearranged n a (exchangeFrom score n a i) :=
  (foldl_exchange h (by omega)).1

theorem FrontSorted.exchangeFrom (h : FrontSorted score n i a) (hi : i < n) :
    FrontSorted score n (i + 1) (exchangeFrom score n a i) := by
  obtain ⟨-, hfront, hhighest⟩ := foldl_exchange (m := n - (i + 1)) h (by omega)
  intro p hp q hpq hq
  rcases Nat.lt_succ_iff_lt_or_eq.mp hp with hp | rfl
  · exact hfront p hp q hpq hq
  · exact hhighest q hpq (by omega)

/-! ## The whole sort -/

theorem foldl_exchangeFrom (score : α → S) (a : ℕ → α) (hm : m ≤ n) :
    Rearranged n a ((List.range m).foldl (exchangeFrom score n) a) ∧
      FrontSorted score n m ((List.range m).foldl (exchangeFrom score n) a) := by
  induction m with
  | zero => exact ⟨.refl n a, fun p hp ↦ absurd hp (Nat.not_lt_zero p)⟩
  | succ m ih =>
      obtain ⟨hperm, hfront⟩ := ih (by omega)
      rw [List.range_succ, List.foldl_append]
      exact ⟨hperm.trans (rearranged_exchangeFrom hfront hm), hfront.exchangeFrom hm⟩

theorem perm_exchangeSort (score : α → S) (n : ℕ) (a : ℕ → α) :
    ((List.range n).map (exchangeSort score n a)).Perm ((List.range n).map a) :=
  (foldl_exchangeFrom score a le_rfl).1.perm

theorem exchangeSort_antitone (score : α → S) (n : ℕ) (a : ℕ → α) {p q : ℕ} (hpq : p < q)
    (hq : q < n) : score (exchangeSort score n a q) ≤ score (exchangeSort score n a p) :=
  (foldl_exchangeFrom score a le_rfl).2 p (hpq.trans hq) q hpq hq

end ExchangeSort
