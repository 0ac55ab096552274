import Mathlib.Data.List.Infix
import Mathlib.Tactic.Common

/-!
# Replacing all occurrences

From left to right, every occurrence of a list is replaced and the search goes
on behind it.  A list either has no occurrence, or is a front part, the first
occurrence and the rest, and induction follows these two cases.
-/

namespace List

variable {α : Type*}

/-- Behind `pre` the list occurs for the first time. -/
def FirstBehind (find pre : List α) : Prop := ¬ find <:+: pre ++ find.dropLast

variable {find pre rest s : List α}

theorem firstBehind_nil (hfind : find ≠ []) : FirstBehind find [] := by
  intro h
  have hlen := h.length_le
  have hpos := length_pos_iff.mpr hfind
  rw [nil_append, length_dropLast] at hlen
  omega

/-- In front of a first occurrence there is no other one. -/
theorem FirstBehind.not_isPrefix {c : α} (h : FirstBehind find (c :: pre)) (rest : List α) :
    ¬ find <+: c :: pre ++ (find ++ rest) := by
  intro hp
  have hfront : c :: pre ++ find.dropLast <+: c :: pre ++ (find ++ rest) :=
    (prefix_append_right_inj _).mpr ((List.dropLast_prefix find).trans (prefix_append _ _))
  apply h
  apply IsPrefix.isInfix
  apply prefix_of_prefix_length_le hp hfront
  rw [length_append, length_dropLast, length_cons]
  omega

theorem FirstBehind.tail {c : α} (h : FirstBehind find (c :: pre)) : FirstBehind find pre :=
  fun hoccurs ↦ h (hoccurs.trans (suffix_cons c _).isInfix)

theorem FirstBehind.cons {c : α} (h : FirstBehind find pre)
    (hnot : ¬ find <+: c :: (pre ++ (find ++ rest))) : FirstBehind find (c :: pre) := by
  intro hoccurs
  rw [cons_append, infix_cons_iff] at hoccurs
  rcases hoccurs with hhere | hlater
  · apply hnot
    apply hhere.trans
    rw [cons_prefix_cons, prefix_append_right_inj]
    exact ⟨rfl, (List.dropLast_prefix find).trans (prefix_append _ _)⟩
  · exact h hlater

theorem exists_firstBehind (hfind : find ≠ []) (h : find <:+: s) :
    ∃ pre rest, s = pre ++ (find ++ rest) ∧ FirstBehind find pre := by
  induction s with
  | nil => exact absurd (infix_nil.mp h) hfind
  | cons c s ih =>
      by_cases hp : find <+: c :: s
      · obtain ⟨rest, hrest⟩ := hp
        exact ⟨[], rest, hrest.symm, firstBehind_nil hfind⟩
      · obtain ⟨pre, rest, rfl, hfirst⟩ := ih ((infix_cons_iff.mp h).resolve_left hp)
        exact ⟨c :: pre, rest, rfl, hfirst.cons hp⟩

/-- Induction on the occurrences. -/
theorem occurrences_induction {P : List α → Prop} (hfind : find ≠ [])
    (none : ∀ s, ¬ find <:+: s → P s)
    (first : ∀ pre rest, FirstBehind find pre → P rest → P (pre ++ (find ++ rest)))
    (s : List α) : P s := by
  induction hn : s.length using Nat.strong_induction_on generalizing s with
  | _ n ih =>
      by_cases h : find <:+: s
      · obtain ⟨pre, rest, rfl, hfirst⟩ := exists_firstBehind hfind h
        have hpos := length_pos_iff.mpr hfind
        simp only [length_append] at hn
        exact first pre rest hfirst (ih rest.length (by omega) rest rfl)
      · exact none s h

/-! ## What is replaced -/

variable [DecidableEq α] {new : List α}

/-- The next `skip` entries belong to an occurrence that was replaced. -/
def replaceAllFrom (find new : List α) : ℕ → List α → List α
  | _, [] => []
  | skip + 1, _ :: s => replaceAllFrom find new skip s
  | 0, c :: s =>
      if find <+: c :: s then new ++ replaceAllFrom find new (find.length - 1) s
      else c :: replaceAllFrom find new 0 s

def replaceAll (s find new : List α) : List α := replaceAllFrom find new 0 s

theorem replaceAllFrom_length (t s : List α) :
    replaceAllFrom find new t.length (t ++ s) = s.replaceAll find new := by
  induction t with
  | nil => rfl
  | cons c t ih => exact ih

theorem replaceAll_of_not_isInfix (h : ¬ find <:+: s) : s.replaceAll find new = s := by
  induction s with
  | nil => rfl
  | cons c s ih =>
      rw [infix_cons_iff, not_or] at h
      rw [replaceAll, replaceAllFrom, if_neg h.1]
      exact congrArg (c :: ·) (ih h.2)

theorem replaceAll_of_isPrefix (hfind : find ≠ []) (new rest : List α) :
    (find ++ rest).replaceAll find new = new ++ rest.replaceAll find new := by
  obtain ⟨c, find, rfl⟩ := exists_cons_of_ne_nil hfind
  rw [replaceAll, cons_append, replaceAllFrom, if_pos ⟨rest, rfl⟩, length_cons, Nat.add_sub_cancel,
    replaceAllFrom_length]

theorem replaceAll_of_firstBehind (hfind : find ≠ []) (h : FirstBehind find pre)
    (new rest : List α) :
    (pre ++ (find ++ rest)).replaceAll find new = pre ++ (new ++ rest.replaceAll find new) := by
  induction pre with
  | nil => exact replaceAll_of_isPrefix hfind new rest
  | cons c pre ih =>
      have hstep : (c :: (pre ++ (find ++ rest))).replaceAll find new =
          c :: (pre ++ (find ++ rest)).replaceAll find new := if_neg (h.not_isPrefix rest)
      rw [cons_append, hstep, ih h.tail, cons_append]

/-- Nothing is left only of a list that starts with an occurrence, which is
replaced by nothing. -/
theorem replaceAll_eq_nil (hs : s ≠ []) (h : s.replaceAll find new = []) :
    find <+: s ∧ new = [] := by
  obtain ⟨c, s, rfl⟩ := exists_cons_of_ne_nil hs
  rw [replaceAll, replaceAllFrom] at h
  split_ifs at h with hp
  exact ⟨hp, (append_eq_nil_iff.mp h).1⟩

end List
