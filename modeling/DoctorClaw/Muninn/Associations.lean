import DoctorClaw.Muninn
import DoctorClaw.Lib.Saturating

/-!
# Associations

An activation strengthens the weight between any two engrams it returns, in
both directions and once for each.  So a weight counts the activations that
returned both of its engrams, up to the maximum of one.
-/

namespace DoctorClaw

open Ranking Saturating

/-! ## Counting activations -/

section Definitions

variable {S : Type*} [LinearOrder S] (base : MuninnBase S)

/-- What a call returns: the engrams, for an activation. -/
def MuninnEvent.returned (m : Muninn) : MuninnEvent → List Engram
  | activate vault matched topN now => (muninnActivate base m vault matched topN now).2
  | _ => []

/-- The ids of both engrams are among the returned ones. -/
def ReturnsBoth (m : Muninn) (ev : MuninnEvent) (a b : ℕ) : Prop :=
  Decimal.printNat a ∈ (ev.returned base m).map Engram.id ∧
    Decimal.printNat b ∈ (ev.returned base m).map Engram.id

instance (m : Muninn) (ev : MuninnEvent) (a b : ℕ) : Decidable (ReturnsBoth base m ev a b) :=
  inferInstanceAs (Decidable (_ ∧ _))

/-- How many calls of a history that starts in the store `m` return both. -/
def returnsOfBoth (m : Muninn) : List MuninnEvent → ℕ → ℕ → ℕ
  | [], _, _ => 0
  | ev :: evs, a, b =>
      (if ReturnsBoth base m ev a b then 1 else 0) + returnsOfBoth (m.step base ev) evs a b

/-- The weight that is due to the activations of a history. -/
def dueWeight (evs : List MuninnEvent) (a b : ℕ) : Option ℚ :=
  if a = b then none else level (1 / 50) (returnsOfBoth base muninnInit evs a b)

/-- What the table of associations is after a history. -/
structure HebbianTable (evs : List MuninnEvent) : Prop where
  symmetric : ∀ a b, (muninnAfter base evs).weight a b = (muninnAfter base evs).weight b a
  irreflexive : ∀ a, (muninnAfter base evs).weight a a = none
  bounded : ∀ a b w, (muninnAfter base evs).weight a b = some w → 0 < w ∧ w ≤ 1
  counted : ∀ a b w, (muninnAfter base evs).weight a b = some w →
    w = min 1 (1 / 50 * (returnsOfBoth base muninnInit evs a b : ℚ))
  present : ∀ a b, a ≠ b →
    ((muninnAfter base evs).weight a b = none ↔ returnsOfBoth base muninnInit evs a b = 0)
  monotone : ∀ pre, pre <+: evs → ∀ a b w, (muninnAfter base pre).weight a b = some w →
    ∃ w', (muninnAfter base evs).weight a b = some w' ∧ w ≤ w'

end Definitions

/-! ## The double loop -/

section Pairs

variable {ids : List ℕ} {a b : ℕ}

theorem mem_hebbianPairs : (a, b) ∈ hebbianPairs ids ↔ a ∈ ids ∧ b ∈ ids ∧ a ≠ b := by
  simp [hebbianPairs]

theorem nodup_hebbianPairs (h : ids.Nodup) : (hebbianPairs ids).Nodup := by
  refine List.nodup_flatMap.mpr ⟨fun a _ ↦ ?_, h.imp fun {a a'} hne ↦ ?_⟩
  · exact (h.filter _).map fun b b' hb ↦ (Prod.mk.inj hb).2
  · intro p hp hp'
    obtain ⟨b, -, rfl⟩ := List.mem_map.mp hp
    obtain ⟨b', -, hb'⟩ := List.mem_map.mp hp'
    exact hne (Prod.mk.inj hb').1.symm

/-- Pairs that are different from each other are strengthened once. -/
theorem foldl_strengthen {pairs : List (ℕ × ℕ)} (h : pairs.Nodup) (weight : ℕ → ℕ → Option ℚ)
    (a b : ℕ) :
    pairs.foldl (fun w p ↦ strengthen w p.1 p.2) weight a b =
      if (a, b) ∈ pairs then bump (1 / 50) (weight a b) else weight a b := by
  induction pairs generalizing weight with
  | nil => rfl
  | cons p pairs ih =>
      obtain ⟨hp, hpairs⟩ := List.nodup_cons.mp h
      rw [List.foldl_cons, ih hpairs]
      by_cases hab : (a, b) = p
      · subst hab
        rw [if_neg hp, if_pos List.mem_cons_self, strengthen, if_pos ⟨rfl, rfl⟩, bump]
      · have hne : ¬ (a = p.1 ∧ b = p.2) := fun h ↦ hab (Prod.ext h.1 h.2)
        have hmem : (a, b) ∈ p :: pairs ↔ (a, b) ∈ pairs :=
          List.mem_cons.trans (or_iff_right hab)
        rw [strengthen, if_neg hne]
        simp only [hmem]

end Pairs

/-! ## One call -/

section Calls

variable {S : Type*} [LinearOrder S] (base : MuninnBase S) (m : Muninn)

omit [LinearOrder S] in
theorem Muninn.nodup_scored (vault : Bytes) (matched : ℕ → Bool) :
    (m.scored base vault matched).Nodup := by
  have hrows : m.rows.Nodup := m.nodup_id.of_map _
  rw [m.scored_eq]
  split_ifs
  · refine List.Nodup.sublist (List.take_sublist _ _) ?_
    exact (base.perm_orderByRecency _).nodup_iff.mpr (hrows.filter _)
  · exact ((hrows.filter _).sublist (List.take_sublist _ _)).filter _

theorem Muninn.nodup_returnedRows (vault : Bytes) (matched : ℕ → Bool) (topN : ℕ) (now : UInt64) :
    ((m.returnedRows base vault matched topN now).map EngramRow.id).Nodup := by
  have hnodup : (m.returnedRows base vault matched topN now).Nodup := by
    rw [m.returnedRows_eq]
    refine List.Nodup.sublist (List.take_sublist _ _) ?_
    exact (perm_sortDescending _ _).nodup_iff.mpr (m.nodup_scored base vault matched)
  refine (List.nodup_map_iff_inj_on hnodup).mpr fun row hrow row' hrow' hid ↦ ?_
  exact Muninn.eq_of_id_eq (m.mem_rows_of_mem_returnedRows base vault matched hrow).2.1
    (m.mem_rows_of_mem_returnedRows base vault matched hrow').2.1 hid

/-- The texts of the returned ids are those of the returned rows. -/
theorem map_id_muninnActivate (vault : Bytes) (matched : ℕ → Bool) (topN : ℕ) (now : UInt64) :
    (muninnActivate base m vault matched topN now).2.map Engram.id =
      ((m.returnedRows base vault matched topN now).map EngramRow.id).map Decimal.printNat := by
  change (List.map engramFromRow _).map Engram.id = _
  rw [List.map_map, List.map_map]
  refine List.map_congr_left fun row hrow ↦ ?_
  exact Muninn.id_engramFromRow (m.mem_rows_of_mem_returnedRows base vault matched hrow).2.1

theorem mem_returned_id {vault : Bytes} {matched : ℕ → Bool} {topN : ℕ} {now : UInt64} {a : ℕ} :
    Decimal.printNat a ∈
        ((MuninnEvent.activate vault matched topN now).returned base m).map Engram.id ↔
      a ∈ (m.returnedRows base vault matched topN now).map EngramRow.id := by
  rw [MuninnEvent.returned, map_id_muninnActivate,
    List.mem_map_of_injective Decimal.printNat_injective]

/-- A call strengthens the pairs of different engrams that it returns. -/
theorem weight_step (ev : MuninnEvent) (a b : ℕ) :
    (m.step base ev).weight a b =
      if a ≠ b ∧ ReturnsBoth base m ev a b then bump (1 / 50) (m.weight a b) else m.weight a b := by
  have hother : ev.returned base m = [] → (m.step base ev).weight a b = m.weight a b →
      (m.step base ev).weight a b =
        if a ≠ b ∧ ReturnsBoth base m ev a b then bump (1 / 50) (m.weight a b)
        else m.weight a b := by
    intro hnil hsame
    rw [if_neg, hsame]
    rintro ⟨-, h, -⟩
    rw [hnil] at h
    exact absurd h List.not_mem_nil
  cases ev with
  | write vault concept content tags idSize now =>
      refine hother rfl ?_
      rw [Muninn.step, muninnWrite]
      split_ifs <;> rfl
  | reinforce id delta => exact hother rfl rfl
  | contradict id => exact hother rfl rfl
  | recordAccess vault id now => exact hother rfl rfl
  | softDelete vault id => exact hother rfl rfl
  | activate vault matched topN now =>
      have hfold := foldl_strengthen
        (nodup_hebbianPairs (m.nodup_returnedRows base vault matched topN now)) m.weight a b
      refine hfold.trans (if_congr ?_ rfl rfl)
      rw [mem_hebbianPairs, ReturnsBoth, mem_returned_id, mem_returned_id]
      tauto

end Calls

/-! ## Histories -/

section Histories

variable {S : Type*} [LinearOrder S] (base : MuninnBase S)

theorem returnsOfBoth_comm (m : Muninn) (evs : List MuninnEvent) (a b : ℕ) :
    returnsOfBoth base m evs a b = returnsOfBoth base m evs b a := by
  induction evs generalizing m with
  | nil => rfl
  | cons ev evs ih =>
      rw [returnsOfBoth, returnsOfBoth, ih]
      exact congrArg (· + _) (if_congr and_comm rfl rfl)

theorem returnsOfBoth_append (m : Muninn) (evs evs' : List MuninnEvent) (a b : ℕ) :
    returnsOfBoth base m (evs ++ evs') a b =
      returnsOfBoth base m evs a b +
        returnsOfBoth base (evs.foldl (Muninn.step base) m) evs' a b := by
  induction evs generalizing m with
  | nil => exact (Nat.zero_add _).symm
  | cons ev evs ih =>
      rw [List.cons_append, returnsOfBoth, returnsOfBoth, ih, List.foldl_cons, Nat.add_assoc]

/-- Over a history a weight that counted `n` activations counts those of the
history on top. -/
theorem weight_foldl {m : Muninn} {n : ℕ → ℕ → ℕ}
    (h : ∀ a b, m.weight a b = if a = b then none else level (1 / 50) (n a b))
    (evs : List MuninnEvent) (a b : ℕ) :
    (evs.foldl (Muninn.step base) m).weight a b =
      if a = b then none else level (1 / 50) (n a b + returnsOfBoth base m evs a b) := by
  induction evs generalizing m n with
  | nil => exact h a b
  | cons ev evs ih =>
      have hstep : ∀ a b, (m.step base ev).weight a b = if a = b then none
          else level (1 / 50) (n a b + if ReturnsBoth base m ev a b then 1 else 0) := by
        intro a b
        rw [weight_step, h]
        by_cases hab : a = b
        · rw [if_neg fun h ↦ h.1 hab, if_pos hab, if_pos hab]
        · rw [if_neg hab, if_neg hab]
          by_cases hboth : ReturnsBoth base m ev a b
          · rw [if_pos ⟨hab, hboth⟩, if_pos hboth, bump_level (by norm_num) (by norm_num)]
          · rw [if_neg fun h ↦ hboth h.2, if_neg hboth, Nat.add_zero]
      rw [List.foldl_cons, ih hstep, returnsOfBoth, Nat.add_assoc]

theorem weight_muninnAfter (evs : List MuninnEvent) (a b : ℕ) :
    (muninnAfter base evs).weight a b = dueWeight base evs a b := by
  have hempty : ∀ a b, muninnInit.weight a b = if a = b then none else level (1 / 50) 0 := by
    intro a b
    rw [level_zero, ite_self]
    rfl
  rw [muninnAfter, weight_foldl base hempty, Nat.zero_add]
  rfl

theorem dueWeight_of_some {evs : List MuninnEvent} {a b : ℕ} {w : ℚ}
    (h : dueWeight base evs a b = some w) :
    a ≠ b ∧ level (1 / 50) (returnsOfBoth base muninnInit evs a b) = some w := by
  unfold dueWeight at h
  split_ifs at h with hab
  exact ⟨hab, h⟩

/-- After every history the table counts, for each two engrams, the activations
that returned both. -/
theorem hebbianTable_muninnAfter (evs : List MuninnEvent) : HebbianTable base evs := by
  constructor
  · intro a b
    rw [weight_muninnAfter, weight_muninnAfter, dueWeight, dueWeight, returnsOfBoth_comm]
    simp only [eq_comm]
  · intro a
    rw [weight_muninnAfter, dueWeight, if_pos rfl]
  · intro a b w hw
    rw [weight_muninnAfter] at hw
    exact level_pos_le (by norm_num) (dueWeight_of_some base hw).2
  · intro a b w hw
    rw [weight_muninnAfter] at hw
    obtain ⟨-, hlevel⟩ := dueWeight_of_some base hw
    unfold level at hlevel
    split_ifs at hlevel
    rw [mul_comm]
    exact (Option.some.inj hlevel).symm
  · intro a b hab
    rw [weight_muninnAfter, dueWeight, if_neg hab, level]
    simp
  · rintro pre ⟨post, rfl⟩ a b w hw
    rw [weight_muninnAfter] at hw
    obtain ⟨hab, hlevel⟩ := dueWeight_of_some base hw
    rw [weight_muninnAfter, dueWeight, if_neg hab, returnsOfBoth_append]
    exact level_mono (by norm_num) (Nat.le_add_right _ _) hlevel

end Histories

end DoctorClaw
