import Mathlib.Data.List.Basic
import Mathlib.Data.List.Perm.Subperm
import Mathlib.Tactic.Common

/-!
# Reading a list back

A decoder that looks at the encoded elements in order and keeps those it
understands gives the whole list back exactly when it understands each element
as what it was.  Texts are told apart at the first separator behind them.
-/

namespace List

theorem map_filterMap_eq_map_iff {α β γ : Type*} {g : α → Option β} {k : β → γ} {k' : α → γ}
    {l : List α} :
    (l.filterMap g).map k = l.map k' ↔ ∀ a ∈ l, (g a).map k = some (k' a) := by
  induction l with
  | nil => simp
  | cons a l ih =>
      cases hg : g a with
      | none =>
          rw [filterMap_cons_none hg]
          constructor
          · intro h
            have hlen := congrArg length h
            have hle := length_filterMap_le g l
            simp only [length_map, length_cons] at hlen
            omega
          · intro h
            have hnone := h a mem_cons_self
            simp [hg] at hnone
      | some b =>
          rw [filterMap_cons_some hg, map_cons, map_cons, cons.injEq, ih, forall_mem_cons, hg]
          simp

theorem take_take_append {α : Type*} (l r : List α) (n : ℕ) :
    (l.take n ++ r).take n = (l ++ r).take n := by
  rw [take_append, take_append, take_take, length_take, Nat.min_self]
  congr 2
  omega

/-- A list that is its own front behind another `a` has nothing but `a`. -/
theorem eq_replicate_of_take_cons {α : Type*} {a : α} {n : ℕ} {l : List α}
    (h : (a :: l).take n = l) : l = replicate l.length a := by
  induction n generalizing l with
  | zero =>
      rw [take_zero] at h
      rw [← h]
      rfl
  | succ n ih =>
      rw [take_succ_cons] at h
      cases l with
      | nil => rfl
      | cons b t =>
          obtain ⟨rfl, ht⟩ := cons.inj h
          rw [length_cons, replicate_succ, ← ih ht]

/-- A prefix that has all entries of a list without repetitions is the list. -/
theorem IsPrefix.eq_of_subset {α : Type*} {l l' : List α} (h : l <+: l') (hnodup : l'.Nodup)
    (hsub : l' ⊆ l) : l = l' :=
  h.eq_of_length_le (subperm_of_subset hnodup hsub).length_le

/-- Texts in front of a separator that they do not contain are compared apart from
what is behind it. -/
theorem append_cons_prefix_iff {α : Type*} {z : α} {l l' s t : List α} (h : z ∉ l) (h' : z ∉ l') :
    l ++ z :: s <+: l' ++ z :: t ↔ l = l' ∧ s <+: t := by
  induction l generalizing l' with
  | nil =>
      cases l' with
      | nil => simp
      | cons b l' =>
          have hb : z ≠ b := fun hzb ↦ h' (hzb ▸ mem_cons_self)
          simp [hb]
  | cons a l ih =>
      cases l' with
      | nil =>
          have ha : a ≠ z := fun haz ↦ h (haz ▸ mem_cons_self)
          simp [ha]
      | cons b l' =>
          have hrest := ih (fun hz ↦ h (mem_cons_of_mem _ hz))
            (fun hz ↦ h' (mem_cons_of_mem _ hz) : z ∉ l')
          rw [cons_append, cons_append, cons_prefix_cons, hrest, cons.injEq, and_assoc]

/-- What does not contain `z` begins in front of the first `z`. -/
theorem prefix_append_cons_iff {α : Type*} {z : α} {l s t : List α} (h : z ∉ l) :
    l <+: s ++ z :: t ↔ l <+: s := by
  refine ⟨fun hp ↦ ?_, fun hp ↦ hp.trans (prefix_append _ _)⟩
  rcases prefix_or_prefix_of_prefix hp (prefix_append s (z :: t)) with hs | ⟨rest, rfl⟩
  · exact hs
  · cases rest with
    | nil => exact ⟨[], by rw [append_nil, append_nil]⟩
    | cons a rest =>
        have ha : a = z := (cons_prefix_cons.mp ((prefix_append_right_inj _).mp hp)).1
        exact absurd (mem_append_right s (ha ▸ mem_cons_self)) h

theorem append_cons_eq_iff {α : Type*} {z : α} {l l' s t : List α} (h : z ∉ l) (h' : z ∉ l') :
    l ++ z :: s = l' ++ z :: t ↔ l = l' ∧ s = t := by
  constructor
  · intro heq
    obtain ⟨rfl, -⟩ := (append_cons_prefix_iff h h').mp ⟨[], by rw [append_nil, heq]⟩
    exact ⟨rfl, (cons.inj (append_cancel_left heq)).2⟩
  · rintro ⟨rfl, rfl⟩
    rfl

/-- Across a byte that it does not have a text does not occur. -/
theorem infix_append_iff_of_separated {α : Type*} {l s t : List α}
    (h : (∀ c ∈ s.getLast?, c ∉ l) ∨ ∀ c ∈ t.head?, c ∉ l) :
    l <:+: s ++ t ↔ l <:+: s ∨ l <:+: t := by
  refine ⟨fun hoccurs ↦ ?_, ?_⟩
  · rcases infix_append_iff_ne_nil.mp hoccurs with hs | ht | ⟨l₁, l₂, hne₁, hne₂, rfl, hl₁, hl₂⟩
    · exact .inl hs
    · exact .inr ht
    · exfalso
      rcases h with hlast | hhead
      · have hmem := getLast_mem hne₁
        refine hlast (l₁.getLast hne₁) ?_ (mem_append_left _ hmem)
        obtain ⟨s, rfl⟩ := hl₁
        rw [getLast?_append_of_ne_nil _ hne₁, getLast?_eq_some_getLast hne₁]
        rfl
      · refine hhead (l₂.head hne₂) ?_ (mem_append_right _ (head_mem hne₂))
        obtain ⟨t, rfl⟩ := hl₂
        rw [head?_append_of_ne_nil _ hne₂, head?_eq_some_head hne₂]
        rfl
  · rintro (hs | ht)
    · exact infix_append_of_infix_left hs
    · exact infix_append_of_infix_right ht

/-- A front of two texts that does not reach across the byte between them. -/
theorem prefix_of_prefix_append {α : Type*} {l s t : List α} (h : ∀ c ∈ t.head?, c ∉ l)
    (hl : l <+: s ++ t) : l <+: s := by
  rcases prefix_or_prefix_of_prefix hl (prefix_append s t) with hls | ⟨r, rfl⟩
  · exact hls
  · rw [prefix_append_right_inj] at hl
    cases r with
    | nil => exact (append_nil s).symm ▸ prefix_rfl
    | cons c r =>
        obtain ⟨t, rfl⟩ := hl
        exact absurd (mem_append_right s mem_cons_self) (h c rfl)

/-- A text whose end may be cut off occurs either at its own place or earlier by
`u`, which it repeats then. -/
theorem infix_append_take_iff {α : Type*} {l h t : List α} {n : ℕ} :
    t <:+: l ++ (h ++ t).take n ↔
      ∃ u, u <:+ l ++ h ∧ (h ++ t).length ≤ n + u.length ∧ t <+: u ++ t := by
  have hcut : l ++ (h ++ t).take n <+: (l ++ h) ++ t := by
    rw [append_assoc]
    exact (prefix_append_right_inj l).mpr (List.take_prefix _ _)
  have hlen : (l ++ (h ++ t).take n).length = l.length + min n (h.length + t.length) := by
    rw [length_append, length_take, length_append]
  rw [length_append]
  constructor
  · rintro ⟨s, r, hs⟩
    have hparts := congrArg length hs
    rw [length_append, length_append, hlen] at hparts
    rw [← hs, append_assoc] at hcut
    have hstart : s <+: l ++ h := by
      refine prefix_of_prefix_length_le ((prefix_append _ _).trans hcut) (prefix_append _ _) ?_
      rw [length_append]
      omega
    obtain ⟨u, hu⟩ := hstart
    have hulen := congrArg length hu
    rw [length_append, length_append] at hulen
    rw [← hu, append_assoc, prefix_append_right_inj] at hcut
    exact ⟨u, ⟨s, hu⟩, by omega, (prefix_append _ _).trans hcut⟩
  · rintro ⟨u, ⟨s, hs⟩, hfits, hrepeat⟩
    have hslen := congrArg length hs
    rw [length_append, length_append] at hslen
    have hearlier : s ++ t <+: (l ++ h) ++ t := by
      rw [← hs, append_assoc, prefix_append_right_inj]
      exact hrepeat
    have hshort : s ++ t <+: l ++ (h ++ t).take n := by
      refine prefix_of_prefix_length_le hearlier hcut ?_
      rw [length_append, hlen]
      omega
    exact (suffix_append s t).isInfix.trans hshort.isInfix

theorem length_foldl_le {α β : Type*} {f : List α → β → List α} {k : ℕ} {l : List β}
    (hf : ∀ s, ∀ b ∈ l, (f s b).length ≤ s.length + k) (s : List α) :
    (l.foldl f s).length ≤ s.length + k * l.length := by
  induction l generalizing s with
  | nil => exact Nat.le_refl _
  | cons b l ih =>
      have hfirst := hf s b mem_cons_self
      have hrest := ih (fun s c hc ↦ hf s c (mem_cons_of_mem _ hc)) (f s b)
      rw [foldl_cons, length_cons, Nat.mul_succ]
      omega

end List
