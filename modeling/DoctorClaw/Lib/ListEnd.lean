import Mathlib.Data.List.DropRight
import Mathlib.Data.List.Infix
import Mathlib.Tactic.Common
import Mathlib.Tactic.IntervalCases

/-!
# The end of a list

The end of a list is read backwards, from its last element on: it repeats when
the last elements are all equal, and alternates when two different elements
take turns.  A window that keeps the last elements is enough to tell.
-/

namespace List

variable {α : Type*} {k n : ℕ} {l : List α}

/-- The last `k` elements, as far as there are any, are all equal. -/
def EndsRepeating (k : ℕ) (l : List α) : Prop :=
  ∀ i < k, l.reverse[i]? = l.reverse[0]?

/-- The last `k` elements, as far as there are any, are in turn the last one
and the one before it, and these two differ. -/
def EndsAlternating (k : ℕ) (l : List α) : Prop :=
  l.reverse[0]? ≠ l.reverse[1]? ∧ ∀ i < k, l.reverse[i]? = l.reverse[i % 2]?

instance [DecidableEq α] : Decidable (l.EndsRepeating k) :=
  inferInstanceAs (Decidable (∀ i < k, _))

instance [DecidableEq α] : Decidable (l.EndsAlternating k) :=
  inferInstanceAs (Decidable (_ ∧ ∀ i < k, _))

theorem EndsAlternating.mono {j : ℕ} (h : l.EndsAlternating k) (hjk : j ≤ k) :
    l.EndsAlternating j :=
  ⟨h.1, fun i hi ↦ h.2 i (by omega)⟩

theorem endsAlternating_iff_of_le_two (hk : k ≤ 2) :
    l.EndsAlternating k ↔ l.reverse[0]? ≠ l.reverse[1]? := by
  refine and_iff_left_of_imp fun _ i hi ↦ ?_
  rw [Nat.mod_eq_of_lt (by omega)]

theorem EndsAlternating.ne_succ (h : l.EndsAlternating k) {j : ℕ} (hj : j + 1 < k) :
    l.reverse[j + 1]? ≠ l.reverse[j]? := by
  rw [h.2 j (by omega), h.2 (j + 1) hj]
  rcases Nat.mod_two_eq_zero_or_one j with hmod | hmod
  · rw [hmod, show (j + 1) % 2 = 1 by omega]
    exact h.1.symm
  · rw [hmod, show (j + 1) % 2 = 0 by omega]
    exact h.1

theorem EndsAlternating.dropLast (h : l.EndsAlternating (k + 1)) (hk : 2 ≤ k) :
    l.dropLast.EndsAlternating k := by
  have hback (i : ℕ) : l.dropLast.reverse[i]? = l.reverse[i + 1]? := by
    rw [← tail_reverse, getElem?_tail]
  refine ⟨?_, fun i hi ↦ ?_⟩
  · rw [hback, hback]
    exact (h.ne_succ (by omega)).symm
  · rw [hback, hback, h.2 (i + 1) (by omega)]
    rcases Nat.mod_two_eq_zero_or_one i with hmod | hmod
    · rw [hmod, show (i + 1) % 2 = 1 by omega]
    · rw [hmod, show (i + 1) % 2 = 0 by omega]
      exact (h.2 2 (by omega)).symm

theorem EndsAlternating.not_endsRepeating (h : l.EndsAlternating k) (hn : 2 ≤ n) :
    ¬ l.EndsRepeating n :=
  fun hrun ↦ h.1 (hrun 1 (by omega)).symm

/-! ## Reading backwards -/

/-- The indices a counting loop goes through. -/
theorem mem_takeWhile_range {p : ℕ → Bool} {i : ℕ} :
    i ∈ (range n).takeWhile p ↔ i < n ∧ ∀ j ≤ i, p j = true := by
  induction n with
  | zero => simp
  | succ n ih =>
      rw [range_succ, takeWhile_append]
      split_ifs with hall
      · have hsame : (range n).takeWhile p = range n := (List.takeWhile_prefix p).eq_of_length hall
        have hp (j : ℕ) (hj : j < n) : p j = true := mem_takeWhile_imp (hsame ▸ mem_range.mpr hj)
        cases hn : p n with
        | true =>
            rw [takeWhile_cons_of_pos hn, takeWhile_nil, ← range_succ, mem_range]
            refine ⟨fun hi ↦ ⟨hi, fun j hj ↦ ?_⟩, And.left⟩
            rcases Nat.lt_or_eq_of_le (Nat.le_of_lt_succ (Nat.lt_of_le_of_lt hj hi)) with hlt | rfl
            · exact hp j hlt
            · exact hn
        | false =>
            rw [takeWhile_cons_of_neg (by simp [hn]), append_nil, mem_range]
            refine ⟨fun hi ↦ ⟨by omega, fun j hj ↦ hp j (by omega)⟩, fun h ↦ ?_⟩
            by_contra hlt
            obtain rfl : i = n := by omega
            simp [h.2 i le_rfl] at hn
      · rw [ih]
        refine ⟨fun h ↦ ⟨by omega, h.2⟩, fun h ↦ ⟨?_, h.2⟩⟩
        by_contra hlt
        obtain rfl : i = n := by omega
        refine hall (congrArg length (takeWhile_eq_self_iff.mpr fun j hj ↦ ?_))
        exact h.2 j (mem_range.mp hj).le

theorem getElem?_reverse_rtake {i : ℕ} (hi : i < n) : (l.rtake n).reverse[i]? = l.reverse[i]? := by
  rw [rtake_eq_reverse_take_reverse, reverse_reverse, getElem?_take_of_lt hi]

/-- A full window drops its oldest element for a new one. -/
theorem rtake_concat_window (l : List α) (x : α) :
    (if n + 1 ≤ (l.rtake (n + 1)).length then ((l.rtake (n + 1)).take (n + 1)).tail
      else l.rtake (n + 1)) ++ [x] = (l ++ [x]).rtake (n + 1) := by
  have hlen : (l.rtake (n + 1)).length = min l.length (n + 1) := by
    rw [rtake, length_drop]
    omega
  rw [rtake_concat_succ, hlen]
  split_ifs with hfull
  · rw [take_of_length_le (by omega), rtake, rtake, tail_drop]
    congr 2
    omega
  · rw [rtake, rtake, show l.length - (n + 1) = 0 by omega, show l.length - n = 0 by omega]

theorem endsRepeating_rtake (hk : k ≤ n) (hn : 0 < n) :
    (l.rtake n).EndsRepeating k ↔ l.EndsRepeating k := by
  refine forall₂_congr fun i hi ↦ ?_
  rw [getElem?_reverse_rtake (by omega), getElem?_reverse_rtake hn]

theorem endsAlternating_rtake (hk : k ≤ n) (hn : 2 ≤ n) :
    (l.rtake n).EndsAlternating k ↔ l.EndsAlternating k := by
  unfold EndsAlternating
  rw [getElem?_reverse_rtake (by omega), getElem?_reverse_rtake (by omega)]
  refine and_congr_right fun _ ↦ forall₂_congr fun i hi ↦ ?_
  rw [getElem?_reverse_rtake (by omega), getElem?_reverse_rtake (by omega)]

theorem endsRepeating_iff (hk : 0 < k) (hlen : k ≤ l.length) :
    l.EndsRepeating k ↔ ∃ a, replicate k a <:+ l := by
  have hsuffix (a : α) : replicate k a <:+ l ↔ ∀ i < k, l.reverse[i]? = some a := by
    rw [← reverse_prefix, reverse_replicate, prefix_iff_getElem?]
    simp
  simp only [hsuffix]
  constructor
  · intro h
    have hlast : 0 < l.reverse.length := by
      rw [length_reverse]
      omega
    refine ⟨l.reverse[0], fun i hi ↦ ?_⟩
    rw [h i hi, getElem?_eq_getElem hlast]
  · rintro ⟨a, h⟩ i hi
    rw [h i hi, h 0 hk]

theorem endsAlternating_six_iff (hlen : 6 ≤ l.length) :
    l.EndsAlternating 6 ↔ ∃ a b, a ≠ b ∧ [a, b, a, b, a, b] <:+ l := by
  have hsuffix (a b : α) : [a, b, a, b, a, b] <:+ l ↔
      ∀ i < 6, l.reverse[i]? = some (if i % 2 = 0 then b else a) := by
    rw [← reverse_prefix, prefix_iff_getElem?]
    refine forall₂_congr fun i hi ↦ ?_
    have hi : i < 6 := hi
    interval_cases i <;> rfl
  simp only [hsuffix]
  constructor
  · rintro ⟨hne, h⟩
    have hlast : 1 < l.reverse.length := by
      rw [length_reverse]
      omega
    rw [getElem?_eq_getElem (by omega), getElem?_eq_getElem hlast] at hne
    refine ⟨l.reverse[1], l.reverse[0], fun heq ↦ hne (congrArg some heq.symm), fun i hi ↦ ?_⟩
    rw [h i hi]
    rcases Nat.mod_two_eq_zero_or_one i with hmod | hmod
    · rw [hmod, if_pos rfl, getElem?_eq_getElem (by omega)]
    · rw [hmod, if_neg (by omega), getElem?_eq_getElem hlast]
  · rintro ⟨a, b, hne, h⟩
    refine ⟨?_, fun i hi ↦ ?_⟩
    · rw [h 0 (by omega), h 1 (by omega)]
      simpa using hne.symm
    · rw [h i hi, h (i % 2) (by omega), Nat.mod_mod]

end List
