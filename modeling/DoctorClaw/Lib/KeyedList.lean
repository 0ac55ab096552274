import Mathlib.Algebra.BigOperators.Group.List.Basic
import Mathlib.Data.List.Induction
import Mathlib.Data.List.Nodup
import Mathlib.Tactic.Common

/-!
# Lists of keyed rows

A key may occur several times in the list.  A lookup takes the first row of
the key, an insertion appends one and a deletion removes the first, so that the
rows of one key form a queue and the rows of the other keys are not touched.

A tally adds up the values of each key, the keys standing in the order in which
they were first met.
-/

namespace KeyedList

/-! ## The rows of a key -/

section Rows

variable {ι κ : Type*} [DecidableEq κ] {key : ι → κ} {k k' : κ}

def rowsOf (key : ι → κ) (k : κ) (rows : List ι) : List ι := rows.filter fun e ↦ key e = k

/-- Remove the first row of the key. -/
def remove (key : ι → κ) (k : κ) (rows : List ι) : List ι := rows.eraseP fun e ↦ key e = k

theorem find?_eq_head? (key : ι → κ) (k : κ) (rows : List ι) :
    (rows.find? fun e ↦ key e = k) = (rowsOf key k rows).head? :=
  List.head?_filter.symm

theorem rowsOf_append_self (key : ι → κ) {e : ι} (h : key e = k) (rows : List ι) :
    rowsOf key k (rows ++ [e]) = rowsOf key k rows ++ [e] := by
  simp [rowsOf, h]

theorem rowsOf_append_ne {e : ι} (h : key e ≠ k) (rows : List ι) :
    rowsOf key k (rows ++ [e]) = rowsOf key k rows := by
  simp [rowsOf, h]

theorem rowsOf_remove_self (key : ι → κ) (k : κ) (rows : List ι) :
    rowsOf key k (remove key k rows) = (rowsOf key k rows).tail := by
  induction rows with
  | nil => rfl
  | cons e rows ih =>
      by_cases he : key e = k
      · simp [rowsOf, remove, he]
      · simpa [rowsOf, remove, he] using ih

theorem rowsOf_remove_ne (h : k' ≠ k) (rows : List ι) :
    rowsOf key k' (remove key k rows) = rowsOf key k' rows := by
  induction rows with
  | nil => rfl
  | cons e rows ih =>
      by_cases he : key e = k
      · simp [rowsOf, remove, he, Ne.symm h]
      · have hcons : remove key k (e :: rows) = e :: remove key k rows := by simp [remove, he]
        unfold rowsOf at ih ⊢
        rw [hcons, List.filter_cons, List.filter_cons, ih]

end Rows

/-! ## Tallies -/

section Tally

variable {κ M : Type*} [DecidableEq κ] [AddCommMonoid M] {k k' : κ}

/-- Add a value to the entry of its key, or append an entry. -/
def addTo (k : κ) (v : M) : List (κ × M) → List (κ × M)
  | [] => [(k, v)]
  | (k', w) :: t => if k' = k then (k', w + v) :: t else (k', w) :: addTo k v t

def tally (rows : List (κ × M)) : List (κ × M) := rows.foldl (fun t p ↦ addTo p.1 p.2 t) []

/-- The sum of the values of a key. -/
def total (k : κ) (rows : List (κ × M)) : M := ((rowsOf Prod.fst k rows).map Prod.snd).sum

theorem total_append (k : κ) (rows rows' : List (κ × M)) :
    total k (rows ++ rows') = total k rows + total k rows' := by
  simp [total, rowsOf]

theorem total_eq_zero {rows : List (κ × M)} (h : k ∉ rows.map Prod.fst) : total k rows = 0 := by
  have hnil : rowsOf Prod.fst k rows = [] := by
    refine List.filter_eq_nil_iff.mpr fun p hp heq ↦ ?_
    exact h (List.mem_map.mpr ⟨p, hp, of_decide_eq_true heq⟩)
  simp [total, hnil]

theorem tally_append_singleton (rows : List (κ × M)) (p : κ × M) :
    tally (rows ++ [p]) = addTo p.1 p.2 (tally rows) := by
  simp [tally]

theorem keys_addTo (k : κ) (v : M) (t : List (κ × M)) :
    (addTo k v t).map Prod.fst =
      if k ∈ t.map Prod.fst then t.map Prod.fst else t.map Prod.fst ++ [k] := by
  induction t with
  | nil => simp [addTo]
  | cons p t ih =>
      obtain ⟨k', w⟩ := p
      by_cases h : k' = k
      · simp [addTo, h]
      · rw [addTo, if_neg h, List.map_cons, ih]
        have hmem : k ∈ ((k', w) :: t).map Prod.fst ↔ k ∈ t.map Prod.fst := by
          simp [Ne.symm h]
        by_cases hk : k ∈ t.map Prod.fst
        · rw [if_pos hk, if_pos (hmem.mpr hk), List.map_cons]
        · rw [if_neg hk, if_neg (mt hmem.mp hk), List.map_cons, List.cons_append]

theorem addTo_of_notMem {v : M} {t : List (κ × M)} (h : k ∉ t.map Prod.fst) :
    addTo k v t = t ++ [(k, v)] := by
  induction t with
  | nil => rfl
  | cons p t ih =>
      rw [List.map_cons, List.mem_cons, not_or] at h
      rw [addTo, if_neg (Ne.symm h.1), ih h.2, List.cons_append]

theorem length_tally_le (rows : List (κ × M)) : (tally rows).length ≤ rows.length := by
  induction rows using List.reverseRecOn with
  | nil => exact Nat.le_refl 0
  | append_singleton rows p ih =>
      have hkeys := congrArg List.length (keys_addTo p.1 p.2 (tally rows))
      rw [tally_append_singleton, List.length_append, List.length_singleton]
      split_ifs at hkeys
      · rw [List.length_map, List.length_map] at hkeys
        omega
      · rw [List.length_map, List.length_append, List.length_map, List.length_singleton] at hkeys
        omega

theorem mem_keys_tally {rows : List (κ × M)} :
    k ∈ (tally rows).map Prod.fst ↔ k ∈ rows.map Prod.fst := by
  induction rows using List.reverseRecOn with
  | nil => rfl
  | append_singleton rows p ih =>
      rw [tally_append_singleton, keys_addTo, List.map_append, List.mem_append, ← ih]
      split_ifs with h
      · refine ⟨Or.inl, fun hk ↦ hk.elim id fun hk ↦ ?_⟩
        rw [List.mem_singleton.mp hk]
        exact h
      · simp

theorem nodup_keys_tally (rows : List (κ × M)) : ((tally rows).map Prod.fst).Nodup := by
  induction rows using List.reverseRecOn with
  | nil => exact List.nodup_nil
  | append_singleton rows p ih =>
      rw [tally_append_singleton, keys_addTo]
      split_ifs with h
      · exact ih
      · exact ih.append (List.nodup_singleton _) (List.disjoint_singleton.mpr h)

theorem total_addTo (k k' : κ) (v : M) (t : List (κ × M)) :
    total k (addTo k' v t) = total k t + if k' = k then v else 0 := by
  induction t with
  | nil =>
      by_cases h : k' = k
      · simp [addTo, total, rowsOf, h]
      · simp [addTo, total, rowsOf, h]
  | cons p t ih =>
      obtain ⟨k'', w⟩ := p
      have hcons : ∀ (k'' : κ) (w : M) (t : List (κ × M)),
          total k ((k'', w) :: t) = (if k'' = k then w else 0) + total k t := by
        intro k'' w t
        by_cases h : k'' = k
        · simp [total, rowsOf, h]
        · simp [total, rowsOf, h]
      by_cases h : k'' = k'
      · subst h
        rw [addTo, if_pos rfl, hcons, hcons]
        split_ifs
        · exact add_right_comm w v _
        · rw [add_zero]
      · rw [addTo, if_neg h, hcons, hcons, ih, add_assoc]

theorem total_tally (k : κ) (rows : List (κ × M)) : total k (tally rows) = total k rows := by
  induction rows using List.reverseRecOn with
  | nil => rfl
  | append_singleton rows p ih =>
      have hlast : total k [p] = if p.1 = k then p.2 else 0 := by
        by_cases h : p.1 = k
        · simp [total, rowsOf, h]
        · simp [total, rowsOf, h]
      rw [tally_append_singleton, total_addTo, total_append, ih, hlast]

theorem total_of_nodup {t : List (κ × M)} (ht : (t.map Prod.fst).Nodup) {p : κ × M} (hp : p ∈ t) :
    total p.1 t = p.2 := by
  induction t with
  | nil => simp at hp
  | cons q t ih =>
      rw [List.map_cons, List.nodup_cons] at ht
      rw [← List.singleton_append, total_append]
      rcases List.mem_cons.mp hp with rfl | hp
      · rw [total_eq_zero ht.1, add_zero]
        simp [total, rowsOf]
      · have hne : q.1 ≠ p.1 := fun heq ↦ ht.1 (heq ▸ List.mem_map_of_mem hp)
        rw [ih ht.2 hp]
        simp [total, rowsOf, hne]

/-- The tally has one entry for each key, with the sum of its values. -/
theorem mem_tally_iff {rows : List (κ × M)} {v : M} :
    (k, v) ∈ tally rows ↔ k ∈ rows.map Prod.fst ∧ v = total k rows := by
  constructor
  · intro h
    refine ⟨mem_keys_tally.mp (List.mem_map_of_mem h), ?_⟩
    rw [← total_tally]
    exact (total_of_nodup (nodup_keys_tally rows) h).symm
  · rintro ⟨hk, rfl⟩
    obtain ⟨p, hp, rfl⟩ := List.mem_map.mp (mem_keys_tally.mpr hk)
    rw [← total_tally, total_of_nodup (nodup_keys_tally rows) hp]
    exact hp

theorem eq_map_total {t : List (κ × M)} (ht : (t.map Prod.fst).Nodup) :
    t = (t.map Prod.fst).map fun k ↦ (k, total k t) := by
  rw [List.map_map]
  conv_lhs => rw [← List.map_id t]
  exact List.map_congr_left fun p hp ↦ Prod.ext rfl (total_of_nodup ht hp).symm

/-- Rows of known keys that add up to nothing do not change the tally. -/
theorem tally_append_eq {rows rows' : List (κ × M)}
    (hkeys : ∀ p ∈ rows', p.1 ∈ rows.map Prod.fst) (hzero : ∀ p ∈ rows', total p.1 rows' = 0) :
    tally (rows ++ rows') = tally rows := by
  have hsame : (tally (rows ++ rows')).map Prod.fst = (tally rows).map Prod.fst := by
    clear hzero
    induction rows' using List.reverseRecOn with
    | nil => rw [List.append_nil]
    | append_singleton rows' p ih =>
        have ih' := ih fun q hq ↦ hkeys q (List.mem_append_left _ hq)
        rw [← List.append_assoc, tally_append_singleton, keys_addTo, ih', if_pos]
        exact mem_keys_tally.mpr (hkeys p (by simp))
  refine (eq_map_total (nodup_keys_tally _)).trans
    (Eq.trans ?_ (eq_map_total (nodup_keys_tally rows)).symm)
  rw [hsame]
  refine List.map_congr_left fun k _ ↦ Prod.ext rfl ?_
  change total k (tally (rows ++ rows')) = total k (tally rows)
  rw [total_tally, total_tally, total_append]
  by_cases hmem : k ∈ rows'.map Prod.fst
  · obtain ⟨p, hp, rfl⟩ := List.mem_map.mp hmem
    rw [hzero p hp, add_zero]
  · rw [total_eq_zero hmem, add_zero]

end Tally

end KeyedList
