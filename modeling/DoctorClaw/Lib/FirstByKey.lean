import Mathlib.Data.Finset.Card
import Mathlib.Data.Finset.Image
import Mathlib.Data.Finset.Range
import Mathlib.Data.List.Range
import Mathlib.Tactic.Common

/-!
# The first entry for each key

An array, as a function of the index, is rid of entries whose key has been
there before.  One pass marks for every entry that is not marked itself all
later entries with its key.  A second pass moves what is not marked to the
front.
-/

namespace FirstByKey

variable {α K : Type*} [DecidableEq K]

/-! ## The loops -/

def markSame (key : α → K) (a : ℕ → α) (i : ℕ) (seen : ℕ → Bool) (j : ℕ) : ℕ → Bool :=
  if key (a i) = key (a j) then Function.update seen j true else seen

def markFrom (key : α → K) (a : ℕ → α) (n : ℕ) (seen : ℕ → Bool) (i : ℕ) : ℕ → Bool :=
  if seen i then seen else (List.range' (i + 1) (n - (i + 1))).foldl (markSame key a i) seen

def marks (key : α → K) (a : ℕ → α) (n : ℕ) : ℕ → Bool :=
  (List.range n).foldl (markFrom key a n) fun _ ↦ false

/-- The array and the number of entries kept, after the entry at `i`. -/
def keep (seen : ℕ → Bool) (st : (ℕ → α) × ℕ) (i : ℕ) : (ℕ → α) × ℕ :=
  if seen i then st
  else (if i ≠ st.2 then Function.update st.1 st.2 (st.1 i) else st.1, st.2 + 1)

def compact (seen : ℕ → Bool) (a : ℕ → α) (n : ℕ) : (ℕ → α) × ℕ :=
  (List.range n).foldl (keep seen) (a, 0)

def dedup (key : α → K) (a : ℕ → α) (n : ℕ) : (ℕ → α) × ℕ := compact (marks key a n) a n

/-! ## The marks -/

variable {key : α → K} {a : ℕ → α} {seen : ℕ → Bool} {i j m n : ℕ}

/-- No earlier entry has the key. -/
def IsFirst (key : α → K) (a : ℕ → α) (i : ℕ) : Prop := ∀ j < i, key (a j) ≠ key (a i)

instance : DecidablePred (IsFirst key a) := fun i ↦
  inferInstanceAs (Decidable (∀ j < i, key (a j) ≠ key (a i)))

theorem not_isFirst_iff : ¬ IsFirst key a i ↔ ∃ j < i, key (a j) = key (a i) := by
  simp [IsFirst]

theorem markSame_iff :
    markSame key a i seen m j = true ↔ seen j = true ∨ j = m ∧ key (a i) = key (a j) := by
  unfold markSame
  split_ifs with hkey
  · by_cases hj : j = m
    · subst hj
      simp [hkey]
    · simp [hj]
  · refine (or_iff_left ?_).symm
    rintro ⟨rfl, h⟩
    exact hkey h

/-- A round of the outer loop marks the later entries with the key of its own. -/
theorem foldl_markSame_iff :
    (List.range' (i + 1) m).foldl (markSame key a i) seen j = true ↔
      seen j = true ∨ i < j ∧ j < i + 1 + m ∧ key (a i) = key (a j) := by
  induction m with
  | zero =>
      refine (or_iff_left ?_).symm
      rintro ⟨hlt, hle, -⟩
      omega
  | succ m ih =>
      rw [List.range'_concat, List.foldl_append, List.foldl_cons, List.foldl_nil, markSame_iff, ih,
        Nat.one_mul, or_assoc, ← Nat.add_assoc]
      refine or_congr_right ?_
      constructor
      · rintro (⟨hlt, hle, hkey⟩ | ⟨rfl, hkey⟩)
        · exact ⟨hlt, by omega, hkey⟩
        · exact ⟨by omega, by omega, hkey⟩
      · rintro ⟨hlt, hle, hkey⟩
        by_cases hj : j = i + 1 + m
        · exact .inr ⟨hj, hkey⟩
        · exact .inl ⟨hlt, by omega, hkey⟩

/-- After the rounds below `i` those entries are marked that have the key of an
earlier one below `i`: a marked entry has passed its key on already. -/
theorem foldl_markFrom_iff (hi : i ≤ n) (hj : j < n) :
    (List.range i).foldl (markFrom key a n) (fun _ ↦ false) j = true ↔
      ∃ k < i, k < j ∧ key (a k) = key (a j) := by
  induction i generalizing j with
  | zero => simp
  | succ i ih =>
      have hbefore {j : ℕ} := ih (j := j) (by omega)
      rw [List.range_succ, List.foldl_append, List.foldl_cons, List.foldl_nil, markFrom]
      by_cases hseen : (List.range i).foldl (markFrom key a n) (fun _ ↦ false) i = true
      · obtain ⟨k₀, hk₀, -, hkey₀⟩ := (hbefore (by omega)).mp hseen
        rw [if_pos hseen, hbefore hj]
        constructor
        · rintro ⟨k, hk, hlt, hkey⟩
          exact ⟨k, by omega, hlt, hkey⟩
        · rintro ⟨k, hk, hlt, hkey⟩
          by_cases hki : k = i
          · subst hki
            exact ⟨k₀, hk₀, by omega, hkey₀.trans hkey⟩
          · exact ⟨k, by omega, hlt, hkey⟩
      · rw [if_neg hseen, foldl_markSame_iff, hbefore hj]
        constructor
        · rintro (⟨k, hk, hlt, hkey⟩ | ⟨hlt, -, hkey⟩)
          · exact ⟨k, by omega, hlt, hkey⟩
          · exact ⟨i, by omega, hlt, hkey⟩
        · rintro ⟨k, hk, hlt, hkey⟩
          by_cases hki : k = i
          · subst hki
            exact .inr ⟨hlt, by omega, hkey⟩
          · exact .inl ⟨k, by omega, hlt, hkey⟩

theorem marks_iff (hj : j < n) : marks key a n j = true ↔ ¬ IsFirst key a j := by
  rw [marks, foldl_markFrom_iff le_rfl hj, not_isFirst_iff]
  constructor
  · rintro ⟨k, -, hlt, hkey⟩
    exact ⟨k, hlt, hkey⟩
  · rintro ⟨k, hlt, hkey⟩
    exact ⟨k, by omega, hlt, hkey⟩

/-! ## What is kept -/

/-- The entries below `n` that are not marked. -/
def unmarked (seen : ℕ → Bool) (a : ℕ → α) (n : ℕ) : List α :=
  ((List.range n).filter fun i ↦ !seen i).map a

theorem unmarked_succ : unmarked seen a (n + 1) =
    unmarked seen a n ++ if seen n then [] else [a n] := by
  rw [unmarked, unmarked, List.range_succ, List.filter_append, List.map_append]
  cases hseen : seen n <;> simp [hseen]

/-- The kept entries stand in front, and what has not been looked at stands
where it was. -/
structure Compacted (seen : ℕ → Bool) (a : ℕ → α) (n : ℕ) (st : (ℕ → α) × ℕ) : Prop where
  front : (List.range st.2).map st.1 = unmarked seen a n
  count_le : st.2 ≤ n
  rest : ∀ j, n ≤ j → st.1 j = a j

theorem Compacted.keep {st : (ℕ → α) × ℕ} (h : Compacted seen a n st) :
    Compacted seen a (n + 1) (keep seen st n) := by
  have hle := h.count_le
  unfold FirstByKey.keep
  split_ifs with hseen hmoved
  · refine ⟨?_, by omega, fun j hj ↦ h.rest j (by omega)⟩
    rw [unmarked_succ, if_pos hseen, List.append_nil, h.front]
  · have hkept : (List.range st.2).map (Function.update st.1 st.2 (st.1 n)) =
        (List.range st.2).map st.1 := by
      apply List.map_congr_left
      intro j hj
      exact Function.update_of_ne (List.mem_range.mp hj).ne _ _
    refine ⟨?_, by omega, fun j hj ↦ ?_⟩
    · dsimp only
      rw [unmarked_succ, if_neg hseen, List.range_succ, List.map_append, hkept, h.front,
        List.map_singleton, Function.update_self, h.rest n le_rfl]
    · dsimp only
      rw [Function.update_of_ne (by omega)]
      exact h.rest j (by omega)
  · rw [not_not] at hmoved
    refine ⟨?_, by omega, fun j hj ↦ h.rest j (by omega)⟩
    rw [unmarked_succ, if_neg hseen, List.range_succ, List.map_append, h.front, ← hmoved,
      List.map_singleton, h.rest n le_rfl]

theorem compacted_compact (seen : ℕ → Bool) (a : ℕ → α) (n : ℕ) :
    Compacted seen a n (compact seen a n) := by
  induction n with
  | zero => exact ⟨rfl, le_rfl, fun _ _ ↦ rfl⟩
  | succ n ih =>
      rw [compact, List.range_succ, List.foldl_append]
      exact ih.keep

/-! ## The result -/

/-- The entries below `n` that are the first with their key, in order. -/
def firsts (key : α → K) (a : ℕ → α) (n : ℕ) : List α :=
  ((List.range n).filter fun i ↦ decide (IsFirst key a i)).map a

theorem unmarked_marks : unmarked (marks key a n) a n = firsts key a n := by
  unfold unmarked firsts
  congr 1
  apply List.filter_congr
  intro j hj
  have hmark : marks key a n j = true ↔ ¬ IsFirst key a j := marks_iff (List.mem_range.mp hj)
  rw [Bool.eq_iff_iff, Bool.not_eq_true', decide_eq_true_iff, ← Bool.not_eq_true, hmark, not_not]

theorem firsts_succ : firsts key a (n + 1) =
    firsts key a n ++ if IsFirst key a n then [a n] else [] := by
  rw [firsts, firsts, List.range_succ, List.filter_append, List.map_append]
  by_cases hfirst : IsFirst key a n <;> simp [hfirst]

/-- There are as many of them as keys. -/
theorem length_firsts :
    (firsts key a n).length = ((Finset.range n).image fun i ↦ key (a i)).card := by
  induction n with
  | zero => rfl
  | succ n ih =>
      rw [firsts_succ, Finset.range_add_one, Finset.image_insert, List.length_append, ih]
      by_cases hfirst : IsFirst key a n
      · rw [if_pos hfirst, Finset.card_insert_of_notMem, List.length_singleton]
        intro hmem
        obtain ⟨j, hj, hkey⟩ := Finset.mem_image.mp hmem
        exact hfirst j (Finset.mem_range.mp hj) hkey
      · rw [if_neg hfirst, Finset.insert_eq_of_mem, List.length_nil, Nat.add_zero]
        obtain ⟨j, hj, hkey⟩ := not_isFirst_iff.mp hfirst
        exact Finset.mem_image.mpr ⟨j, Finset.mem_range.mpr hj, hkey⟩

theorem dedup_front :
    (List.range (dedup key a n).2).map (dedup key a n).1 = firsts key a n := by
  rw [← unmarked_marks]
  exact (compacted_compact _ _ _).front

theorem dedup_count : (dedup key a n).2 = ((Finset.range n).image fun i ↦ key (a i)).card := by
  rw [← length_firsts, ← dedup_front, List.length_map, List.length_range]

end FirstByKey
