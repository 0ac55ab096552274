import Mathlib.Data.List.Nodup
import Mathlib.Tactic.Common

/-!
# Directories

The entries of a directory in the order in which it is listed.  No name occurs
twice; a name that is put again keeps its place.
-/

structure Directory (ν α : Type*) where
  entries : List (ν × α)
  nodup : (entries.map Prod.fst).Nodup

namespace Directory

variable {ν α : Type*} [DecidableEq ν] {n n' : ν} {a : α}

def empty : Directory ν α := ⟨[], List.nodup_nil⟩

def names (d : Directory ν α) : List ν := d.entries.map Prod.fst

def lookup (d : Directory ν α) (n : ν) : Option α :=
  (d.entries.find? fun e ↦ e.1 = n).map Prod.snd

/-- Replace the entry of a name, or append one. -/
def putEntry (n : ν) (a : α) : List (ν × α) → List (ν × α)
  | [] => [(n, a)]
  | e :: entries => if e.1 = n then (n, a) :: entries else e :: putEntry n a entries

theorem names_putEntry (n : ν) (a : α) (entries : List (ν × α)) :
    (putEntry n a entries).map Prod.fst =
      if n ∈ entries.map Prod.fst then entries.map Prod.fst else entries.map Prod.fst ++ [n] := by
  induction entries with
  | nil => rfl
  | cons e entries ih =>
      rw [putEntry]
      by_cases he : e.1 = n
      · simp [he]
      · rw [if_neg he, List.map_cons, ih]
        by_cases hmem : n ∈ entries.map Prod.fst
        · have hcons : n ∈ (e :: entries).map Prod.fst := List.mem_cons_of_mem _ hmem
          rw [if_pos hmem, if_pos hcons, List.map_cons]
        · have hcons : n ∉ (e :: entries).map Prod.fst := by
            rw [List.map_cons, List.mem_cons, not_or]
            exact ⟨Ne.symm he, hmem⟩
          rw [if_neg hmem, if_neg hcons, List.map_cons, List.cons_append]

def put (d : Directory ν α) (n : ν) (a : α) : Directory ν α where
  entries := putEntry n a d.entries
  nodup := by
    rw [names_putEntry]
    split_ifs with hmem
    · exact d.nodup
    · exact d.nodup.append (List.nodup_singleton n) (List.disjoint_singleton.mpr hmem)

def remove (d : Directory ν α) (n : ν) : Directory ν α where
  entries := d.entries.filter fun e ↦ e.1 ≠ n
  nodup := d.nodup.sublist (List.filter_sublist.map _)

theorem lookup_isSome_iff (d : Directory ν α) (n : ν) : (d.lookup n).isSome ↔ n ∈ d.names := by
  rw [lookup, Option.isSome_map, List.find?_isSome, names, List.mem_map]
  simp

theorem lookup_eq_none_iff (d : Directory ν α) (n : ν) : d.lookup n = none ↔ n ∉ d.names := by
  rw [← lookup_isSome_iff, Option.not_isSome_iff_eq_none]

theorem lookup_put (d : Directory ν α) (n : ν) (a : α) (n' : ν) :
    (d.put n a).lookup n' = if n' = n then some a else d.lookup n' := by
  unfold lookup put
  dsimp only
  induction d.entries with
  | nil =>
      by_cases h : n = n'
      · simp [putEntry, h]
      · simp [putEntry, h, Ne.symm h]
  | cons e entries ih =>
      rw [putEntry]
      by_cases he : e.1 = n
      · rw [if_pos he, List.find?_cons, List.find?_cons, he]
        by_cases h : n = n'
        · simp [h]
        · simp [h, Ne.symm h]
      · rw [if_neg he, List.find?_cons, List.find?_cons]
        by_cases h : e.1 = n'
        · have hne : n' ≠ n := fun heq ↦ he (h.trans heq)
          simp [h, hne]
        · simpa [h] using ih

theorem lookup_remove (d : Directory ν α) (n n' : ν) :
    (d.remove n).lookup n' = if n' = n then none else d.lookup n' := by
  unfold lookup remove
  rw [List.find?_filter]
  by_cases h : n' = n
  · have hnone : ∀ e ∈ d.entries,
        ¬ decide (decide (e.1 ≠ n) = true ∧ decide (e.1 = n') = true) = true := by
      simp [h]
    rw [if_pos h, List.find?_eq_none.mpr hnone]
    rfl
  · have hsame : (fun e : ν × α ↦ decide (decide (e.1 ≠ n) = true ∧ decide (e.1 = n') = true)) =
        fun e ↦ decide (e.1 = n') := by
      funext e
      by_cases he : e.1 = n'
      · simp [he, h]
      · simp [he]
    rw [if_neg h, hsame]

end Directory
