import Mathlib.Algebra.BigOperators.Finprod
import Mathlib.Data.List.Nodup
import Mathlib.Data.Set.Card
import Mathlib.Logic.Function.Basic
import Mathlib.Tactic.Common

/-!
# Rows with unique keys

A table whose rows have different keys is a partial function from keys to
rows: what is looked up determines the rows up to their order, and replacing,
deleting and filtering rows are updates of the function.
-/

namespace UniqueKeys

variable {ρ κ : Type*} [DecidableEq κ] {key : ρ → κ} {rows : List ρ} {r : ρ} {k : κ}

def lookup (key : ρ → κ) (rows : List ρ) (k : κ) : Option ρ := rows.find? fun r ↦ key r = k

/-- Insert a row in place of the one with its key. -/
def replace (key : ρ → κ) (rows : List ρ) (r : ρ) : List ρ :=
  (rows.filter fun r' ↦ key r' ≠ key r) ++ [r]

def delete (key : ρ → κ) (rows : List ρ) (k : κ) : List ρ := rows.filter fun r ↦ key r ≠ k

theorem lookup_eq_some_iff (h : (rows.map key).Nodup) :
    lookup key rows k = some r ↔ r ∈ rows ∧ key r = k := by
  constructor
  · intro hr
    exact ⟨List.mem_of_find?_eq_some hr, by simpa using List.find?_some hr⟩
  · rintro ⟨hr, rfl⟩
    obtain ⟨r', hr'⟩ : ∃ r', lookup key rows (key r) = some r' := by
      rw [← Option.isSome_iff_exists, lookup, List.find?_isSome]
      exact ⟨r, hr, by simp⟩
    have hkey : key r' = key r := by simpa using List.find?_some hr'
    have heq := List.inj_on_of_nodup_map h (List.mem_of_find?_eq_some hr') hr hkey
    rw [hr', heq]

theorem lookup_eq_none_iff : lookup key rows k = none ↔ ∀ r ∈ rows, key r ≠ k := by
  simp [lookup]

omit [DecidableEq κ] in
theorem nodup_filter (h : (rows.map key).Nodup) (p : ρ → Bool) :
    ((rows.filter p).map key).Nodup :=
  h.sublist (List.filter_sublist.map key)

theorem nodup_replace (h : (rows.map key).Nodup) (r : ρ) : ((replace key rows r).map key).Nodup := by
  rw [replace, List.map_append, List.map_singleton]
  apply (nodup_filter h _).append (List.nodup_singleton _)
  rw [List.disjoint_singleton]
  intro hmem
  obtain ⟨r', hr', heq⟩ := List.mem_map.mp hmem
  simp only [List.mem_filter, ne_eq, decide_not, Bool.not_eq_true', decide_eq_false_iff_not] at hr'
  exact hr'.2 heq

theorem lookup_filter (h : (rows.map key).Nodup) (p : ρ → Bool) (k : κ) :
    lookup key (rows.filter p) k = (lookup key rows k).filter p := by
  apply Option.ext
  intro r
  rw [lookup_eq_some_iff (nodup_filter h p), Option.filter_eq_some_iff, lookup_eq_some_iff h,
    List.mem_filter]
  exact and_right_comm

theorem lookup_delete (h : (rows.map key).Nodup) (k : κ) :
    lookup key (delete key rows k) = Function.update (lookup key rows) k none := by
  funext k'
  rw [delete, lookup_filter h]
  by_cases hk : k' = k
  · subst hk
    rw [Function.update_self, Option.filter_eq_none_iff]
    intro r hr
    simpa using ((lookup_eq_some_iff h).mp hr).2
  · rw [Function.update_of_ne hk]
    cases hr : lookup key rows k' with
    | none => rfl
    | some r =>
        have hkey := ((lookup_eq_some_iff h).mp hr).2
        simp [Option.filter, hkey, hk]

theorem lookup_replace (h : (rows.map key).Nodup) (r : ρ) :
    lookup key (replace key rows r) = Function.update (lookup key rows) (key r) (some r) := by
  funext k
  have hdelete := congrFun (lookup_delete h (key r)) k
  rw [lookup, delete] at hdelete
  rw [lookup, replace, List.find?_append, hdelete]
  by_cases hk : k = key r
  · subst hk
    simp
  · rw [Function.update_of_ne hk, Function.update_of_ne hk]
    simp [Ne.symm hk]

/-- There is one row for each key that is found. -/
theorem ncard_keys (h : (rows.map key).Nodup) :
    {k | (lookup key rows k).isSome}.ncard = rows.length := by
  have hset : {k | (lookup key rows k).isSome} = ↑(rows.map key).toFinset := by
    ext k
    simp [lookup]
  rw [hset, Set.ncard_coe_finset, List.toFinset_card_of_nodup h, List.length_map]

theorem finsum_rows {M : Type*} [AddCommMonoid M] (h : (rows.map key).Nodup) (f : ρ → M) :
    ∑ᶠ k, (lookup key rows k).elim 0 f = (rows.map f).sum := by
  have hsupport : (Function.support fun k ↦ (lookup key rows k).elim 0 f) ⊆
      ↑(rows.map key).toFinset := by
    intro k hk
    rw [List.coe_toFinset, Set.mem_ofPred_eq, List.mem_map]
    cases hr : lookup key rows k with
    | none => simp [hr] at hk
    | some r => exact ⟨r, (lookup_eq_some_iff h).mp hr⟩
  rw [finsum_eq_sum_of_support_subset _ hsupport, List.sum_toFinset _ h, List.map_map]
  congr 1
  apply List.map_congr_left
  intro r hr
  rw [Function.comp_apply, (lookup_eq_some_iff h).mpr ⟨hr, rfl⟩, Option.elim_some]

end UniqueKeys
