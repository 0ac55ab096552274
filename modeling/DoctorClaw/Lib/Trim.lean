import DoctorClaw.Lib.CString

/-!
# White space around a text

Cutting the white space off both ends of a text.
-/

namespace CString

/-- The text without the white space around it. -/
def trim (s : Bytes) : Bytes := (s.dropWhile isspace).rdropWhile isspace

/-- There is no white space at either end. -/
def IsTrimmed (s : Bytes) : Prop :=
  (∀ c ∈ s.head?, isspace c = false) ∧ ∀ c ∈ s.getLast?, isspace c = false

instance : DecidablePred IsTrimmed := fun _ ↦
  @instDecidableAnd _ _ (Option.decidableForallMem _) (Option.decidableForallMem _)

variable {s before behind : Bytes}

theorem dropWhile_isspace_append (hbefore : ∀ c ∈ before, isspace c = true)
    (hs : ∀ c ∈ s.head?, isspace c = false) : (before ++ s).dropWhile isspace = s := by
  rw [List.dropWhile_append_of_pos hbefore]
  cases s with
  | nil => rfl
  | cons c s => exact List.dropWhile_cons_of_neg (by simp [hs c rfl])

theorem rdropWhile_isspace_append (hs : ∀ c ∈ s.getLast?, isspace c = false)
    (hbehind : ∀ c ∈ behind, isspace c = true) : (s ++ behind).rdropWhile isspace = s := by
  induction behind using List.reverseRecOn with
  | nil =>
      rw [List.append_nil, List.rdropWhile_eq_self_iff]
      intro hne
      simp [hs _ (List.getLast?_eq_some_getLast hne)]
  | append_singleton behind c ih =>
      rw [← List.append_assoc, List.rdropWhile_concat_pos _ _ _ (hbehind c (by simp))]
      exact ih fun d hd ↦ hbehind d (List.mem_append_left _ hd)

theorem trim_append (hs : IsTrimmed s) (hbefore : ∀ c ∈ before, isspace c = true)
    (hbehind : ∀ c ∈ behind, isspace c = true) : trim (before ++ s ++ behind) = s := by
  unfold trim
  by_cases hne : s = []
  · subst hne
    have hall : ∀ c ∈ before ++ behind, isspace c = true := fun c hc ↦
      (List.mem_append.mp hc).elim (hbefore c) (hbehind c)
    rw [List.append_nil, List.dropWhile_eq_nil_iff.mpr hall, List.rdropWhile_nil]
  · have hhead : ∀ c ∈ (s ++ behind).head?, isspace c = false := by
      intro c hc
      rw [List.head?_append_of_ne_nil _ hne] at hc
      exact hs.1 c hc
    rw [List.append_assoc, dropWhile_isspace_append hbefore hhead,
      rdropWhile_isspace_append hs.2 hbehind]

theorem trim_eq_self (hs : IsTrimmed s) : trim s = s := by
  have hnone : ∀ c ∈ ([] : Bytes), isspace c = true := fun c hc ↦ absurd hc List.not_mem_nil
  simpa using trim_append hs hnone hnone

/-- What is left is a part of the text. -/
theorem trim_isInfix (s : Bytes) : trim s <:+: s :=
  (List.rdropWhile_prefix _ _).isInfix.trans (List.dropWhile_suffix _).isInfix

end CString
