import DoctorClaw.Muninn
import Mathlib.Tactic.Linarith
import Mathlib.Tactic.NormNum

/-!
# Confidences

`muninn_reinforce` bounds a confidence above and `muninn_contradict` bounds it
below.  A negative reinforcement is not bounded below.
-/

namespace DoctorClaw

/-- All confidences are between zero and one. -/
def Muninn.Probable (m : Muninn) : Prop :=
  ∀ row ∈ m.rows, 0 ≤ row.confidence ∧ row.confidence ≤ 1

section Updates

variable {m : Muninn} {p : EngramRow → Bool} {f : EngramRow → EngramRow}

/-- An update that keeps the confidences it changes in range. -/
theorem Muninn.Probable.update (h : m.Probable) (hf : ∀ row, (f row).id = row.id)
    (hrange : ∀ row ∈ m.rows, p row = true → 0 ≤ (f row).confidence ∧ (f row).confidence ≤ 1) :
    (m.update p f hf).Probable := by
  intro row hrow
  obtain ⟨old, hold, rfl⟩ := List.mem_map.mp hrow
  split_ifs with hp
  · exact hrange old hold hp
  · exact h old hold

theorem Muninn.Probable.recordAccess (h : m.Probable) (p : EngramRow → Bool) (now : UInt64) :
    (m.recordAccess p now).Probable :=
  h.update (fun _ ↦ by rfl) fun row hrow _ ↦ h row hrow

theorem Muninn.Probable.foldl_recordAccess (h : m.Probable) (ids : List ℕ) (now : UInt64) :
    (ids.foldl (fun m id ↦ m.recordAccess (fun row ↦ row.id = id) now) m).Probable := by
  induction ids generalizing m with
  | nil => exact h
  | cons id ids ih => exact ih (h.recordAccess _ now)

end Updates

section Histories

variable {S : Type*} [LinearOrder S] (base : MuninnBase S)

/-- A reinforcement does not take more than there is. -/
def MuninnEvent.Covered (m : Muninn) : MuninnEvent → Prop
  | reinforce id delta =>
      ∀ row ∈ m.rows, some row.id = base.integerOf id → 0 ≤ row.confidence + delta
  | _ => True

/-- A call keeps the confidences in range exactly when it is covered. -/
theorem Muninn.Probable.step_iff {m : Muninn} (h : m.Probable) (ev : MuninnEvent) :
    (m.step base ev).Probable ↔ ev.Covered base m := by
  cases ev with
  | write vault concept content tags idSize now =>
      refine iff_of_true ?_ trivial
      rw [Muninn.step, muninnWrite]
      split_ifs
      · intro row hrow
        rcases List.mem_append.mp hrow with hrow | hrow
        · exact h row hrow
        · rw [List.mem_singleton.mp hrow]
          norm_num [EngramRow.make]
      · exact h
  | reinforce id delta =>
      constructor
      · intro hafter row hrow hid
        have hmem := List.mem_map_of_mem (f := fun row ↦ if decide (some row.id = base.integerOf id)
          then { row with confidence := min 1 (row.confidence + delta) } else row) hrow
        have hrange := (hafter _ hmem).1
        rw [if_pos (decide_eq_true hid)] at hrange
        exact (le_min_iff.mp hrange).2
      · intro hcovered
        refine h.update (fun _ ↦ by rfl) fun row hrow hid ↦ ⟨?_, min_le_left _ _⟩
        exact le_min zero_le_one (hcovered row hrow (of_decide_eq_true hid))
  | contradict id =>
      refine iff_of_true (h.update (fun _ ↦ by rfl) fun row hrow _ ↦ ⟨le_max_left _ _, ?_⟩) trivial
      have hle := (h row hrow).2
      exact max_le zero_le_one (by linarith)
  | recordAccess vault id now => exact iff_of_true (h.recordAccess _ now) trivial
  | softDelete vault id =>
      exact iff_of_true (h.update (fun _ ↦ by rfl) fun row hrow _ ↦ h row hrow) trivial
  | activate vault matched topN now => exact iff_of_true (h.foldl_recordAccess _ now) trivial

/-- The confidences stay in range in every state of a history. -/
def StaysProbable (evs : List MuninnEvent) : Prop :=
  ∀ pre, pre <+: evs → (muninnAfter base pre).Probable

/-- They do exactly when no reinforcement takes more than there is. -/
theorem staysProbable_iff (evs : List MuninnEvent) :
    StaysProbable base evs ↔
      ∀ pre ev, pre ++ [ev] <+: evs → ev.Covered base (muninnAfter base pre) := by
  have hafter : ∀ pre ev, muninnAfter base (pre ++ [ev]) = (muninnAfter base pre).step base ev :=
    fun pre ev ↦ List.foldl_append ..
  constructor
  · intro h pre ev hpre
    have hbefore := h pre ((List.prefix_append _ _).trans hpre)
    rw [← hbefore.step_iff base, ← hafter]
    exact h _ hpre
  · intro h pre hpre
    induction pre using List.reverseRecOn with
    | nil => exact fun row hrow ↦ absurd hrow List.not_mem_nil
    | append_singleton pre ev ih =>
        rw [hafter, (ih ((List.prefix_append _ _).trans hpre)).step_iff base]
        exact h pre ev hpre

/-- Negative reinforcements of the only engram add up. -/
theorem rows_reinforce_replicate {m : Muninn} (row : EngramRow) {id : Bytes} {delta : ℚ}
    (hrows : m.rows = [row]) (hid : base.integerOf id = some row.id) (hdelta : delta ≤ 0)
    (hle : row.confidence ≤ 1) (n : ℕ) :
    ((List.replicate n (MuninnEvent.reinforce id delta)).foldl (Muninn.step base) m).rows =
      [{ row with confidence := row.confidence + n * delta }] := by
  induction n generalizing m row with
  | zero => simpa using hrows
  | succ n ih =>
      have hstep : (m.step base (.reinforce id delta)).rows =
          [{ row with confidence := row.confidence + delta }] := by
        have hmin : min 1 (row.confidence + delta) = row.confidence + delta :=
          min_eq_right (by linarith)
        refine (congrArg (List.map _) hrows).trans ?_
        rw [List.map_singleton, hid, if_pos (decide_eq_true rfl)]
        dsimp only
        rw [hmin]
      have hsum : row.confidence + delta + n * delta = row.confidence + (n + 1 : ℕ) * delta := by
        push_cast
        ring
      rw [List.replicate_succ, List.foldl_cons, ih _ hstep hid (by dsimp only; linarith)]
      dsimp only
      rw [hsum]

end Histories

def writtenFact : MuninnEvent := .write (ascii "v1") (ascii "x") (ascii "y") [] 32 1000

/-- An engram whose confidence is reinforced by -0.1 nine times. -/
def weakenedEvents : List MuninnEvent :=
  writtenFact :: List.replicate 9 (.reinforce (ascii "1") (-1 / 10))

/-- Its confidence is -0.1 then. -/
theorem weakened_engram_is_negative : ¬ StaysProbable realBase weakenedEvents := by
  intro h
  have hid : realBase.integerOf (ascii "1") = some 1 := by
    rw [show ascii "1" = Decimal.printNat 1 by decide, realBase.integerOf_printNat]
  have hwritten : (muninnInit.step realBase writtenFact).rows =
      [.make 1 (ascii "v1") (ascii "x") (ascii "y") [] 1000] := rfl
  have hrows := rows_reinforce_replicate realBase _ hwritten hid
    (by norm_num : (-1 / 10 : ℚ) ≤ 0) (by norm_num [EngramRow.make]) 9
  have hrange := h _ (List.prefix_refl _)
  rw [muninnAfter, weakenedEvents, List.foldl_cons, Muninn.Probable, hrows] at hrange
  have hnonneg := (hrange _ (List.mem_singleton_self _)).1
  norm_num [EngramRow.make] at hnonneg

end DoctorClaw
