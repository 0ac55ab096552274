import DoctorClaw.Lib.CString
import Mathlib.Algebra.Group.Int.Defs

/-!
# The retention of memories

`memory_hygiene_run` deletes the rows older than a number of days.  The age in
seconds is a product of two `int`s, the cutoff is a signed time cast to an
unsigned one, and SQLite compares it with the signed timestamps of the rows.
-/

namespace DoctorClaw

/-- A row of the table `memory`. -/
structure MemoryRow where
  key : Bytes
  value : Bytes
  timestamp : Int64
  metadata : Bytes
  deriving DecidableEq

/-- `max_age_days * 86400` as an `int`; `none` is its overflow. -/
def maxAgeSeconds (maxAgeDays : Int32) : Option ℤ :=
  if maxAgeDays.toInt * 86400 < 2 ^ 31 ∧ -2 ^ 31 ≤ maxAgeDays.toInt * 86400 then
    some (maxAgeDays.toInt * 86400)
  else none

/-- `(uint64_t)(time(NULL) - seconds)`. -/
def hygieneCutoff (now : Int64) (seconds : ℤ) : ℤ := (now.toInt - seconds) % 2 ^ 64

/-- `DELETE FROM memory WHERE timestamp < cutoff`.  SQLite reads a cutoff from
`2 ^ 63` on as a real number, which is still above every timestamp. -/
def deleteOlder (cutoff : ℤ) (rows : List MemoryRow) : List MemoryRow :=
  rows.filter fun row ↦ ¬ row.timestamp.toInt < cutoff

/-- What is returned, and the rows afterwards; `none` is the overflow, after
which the C program has no defined meaning.  The deduplication that follows
the deletion returns 0 and does nothing. -/
def memoryHygieneRun (sqlite execFails : Bool) (rows : List MemoryRow) (maxAgeDays : Int32)
    (now : Int64) : Option (ℤ × List MemoryRow) :=
  if maxAgeDays.toInt ≤ 0 then some (-1, rows)
  else (maxAgeSeconds maxAgeDays).map fun seconds ↦
    if sqlite then
      if execFails then (-1, rows) else (0, deleteOlder (hygieneCutoff now seconds) rows)
    else (0, rows)

/-- `ts + 86400 * max_age_days < now` over the integers. -/
def MemoryRow.Expired (row : MemoryRow) (maxAgeDays : Int32) (now : Int64) : Prop :=
  row.timestamp.toInt + 86400 * maxAgeDays.toInt < now.toInt

instance (row : MemoryRow) (maxAgeDays : Int32) (now : Int64) :
    Decidable (row.Expired maxAgeDays now) := inferInstanceAs (Decidable (_ < _))

/-- The deletion removes exactly the expired rows, and what is kept for a
smaller age is kept for this one. -/
structure RetentionExact (maxAgeDays : Int32) (now : Int64) : Prop where
  deletes : ∀ rows, memoryHygieneRun true false rows maxAgeDays now =
    some (0, rows.filter fun row ↦ ¬ row.Expired maxAgeDays now)
  monotone : ∀ smaller : Int32, 0 < smaller.toInt → smaller.toInt ≤ maxAgeDays.toInt →
    ∀ rows kept kept', memoryHygieneRun true false rows smaller now = some (0, kept) →
      memoryHygieneRun true false rows maxAgeDays now = some (0, kept') → kept ⊆ kept'

section Cutoff

variable {maxAgeDays : Int32} {now : Int64} {rows : List MemoryRow}

theorem maxAgeSeconds_eq (hpos : 0 < maxAgeDays.toInt) :
    maxAgeSeconds maxAgeDays =
      if maxAgeDays.toInt ≤ 24855 then some (maxAgeDays.toInt * 86400) else none := by
  unfold maxAgeSeconds
  by_cases hdays : maxAgeDays.toInt ≤ 24855
  · rw [if_pos hdays, if_pos ⟨by omega, by omega⟩]
  · rw [if_neg hdays, if_neg (by omega)]

/-- The cast changes the time exactly when it is negative. -/
theorem hygieneCutoff_eq {seconds : ℤ} (hpos : 0 < seconds) (hlt : seconds < 2 ^ 31)
    (hnow : 0 ≤ now.toInt) :
    hygieneCutoff now seconds =
      if seconds ≤ now.toInt then now.toInt - seconds else now.toInt - seconds + 2 ^ 64 := by
  have hbound := now.toInt_lt
  unfold hygieneCutoff
  split_ifs with h
  · exact Int.emod_eq_of_lt (by omega) (by omega)
  · rw [← Int.add_emod_right]
    exact Int.emod_eq_of_lt (by omega) (by omega)

theorem memoryHygieneRun_eq (hpos : 0 < maxAgeDays.toInt) (hdays : maxAgeDays.toInt ≤ 24855)
    (rows : List MemoryRow) :
    memoryHygieneRun true false rows maxAgeDays now =
      some (0, deleteOlder (hygieneCutoff now (maxAgeDays.toInt * 86400)) rows) := by
  rw [memoryHygieneRun, if_neg (by omega), maxAgeSeconds_eq hpos, if_pos hdays]
  rfl

theorem deleteOlder_eq (hpos : 0 < maxAgeDays.toInt) (hdays : maxAgeDays.toInt ≤ 24855)
    (hnow : 86400 * maxAgeDays.toInt ≤ now.toInt) (rows : List MemoryRow) :
    deleteOlder (hygieneCutoff now (maxAgeDays.toInt * 86400)) rows =
      rows.filter fun row ↦ ¬ row.Expired maxAgeDays now := by
  unfold deleteOlder
  rw [hygieneCutoff_eq (by omega) (by omega) (by omega), if_pos (by omega)]
  refine List.filter_congr fun row _ ↦ ?_
  unfold MemoryRow.Expired
  congr 1
  simp only [eq_iff_iff]
  omega

/-- A cutoff before the epoch deletes every row. -/
theorem deleteOlder_eq_nil (hpos : 0 < maxAgeDays.toInt) (hdays : maxAgeDays.toInt ≤ 24855)
    (hnow : 0 ≤ now.toInt) (hlt : now.toInt < 86400 * maxAgeDays.toInt) (rows : List MemoryRow) :
    deleteOlder (hygieneCutoff now (maxAgeDays.toInt * 86400)) rows = [] := by
  unfold deleteOlder
  rw [hygieneCutoff_eq (by omega) (by omega) hnow, if_neg (by omega)]
  refine List.filter_eq_nil_iff.mpr fun row _ h ↦ ?_
  have hts := row.timestamp.toInt_lt
  have hcutoff := of_decide_eq_true h
  omega

end Cutoff

/-- The deletion follows the arithmetic of the integers exactly for at most
24855 days that do not reach back before the epoch. -/
theorem memoryHygiene_exact_iff {maxAgeDays : Int32} {now : Int64} (hpos : 0 < maxAgeDays.toInt)
    (hnow : 0 ≤ now.toInt) :
    RetentionExact maxAgeDays now ↔
      maxAgeDays.toInt ≤ 24855 ∧ 86400 * maxAgeDays.toInt ≤ now.toInt := by
  constructor
  · intro h
    have hdays : maxAgeDays.toInt ≤ 24855 := by
      by_contra hgt
      have hrun := h.deletes []
      rw [memoryHygieneRun, if_neg (by omega), maxAgeSeconds_eq hpos, if_neg hgt] at hrun
      cases hrun
    refine ⟨hdays, Int.not_lt.mp fun hlt ↦ ?_⟩
    have hrun := h.deletes [⟨[], [], 0, []⟩]
    rw [memoryHygieneRun_eq hpos hdays, deleteOlder_eq_nil hpos hdays hnow hlt] at hrun
    have hkept : ¬ MemoryRow.Expired ⟨[], [], 0, []⟩ maxAgeDays now := by
      have hzero : (0 : Int64).toInt = 0 := rfl
      change ¬ ((0 : Int64).toInt + 86400 * maxAgeDays.toInt < now.toInt)
      omega
    simp [hkept] at hrun
  · rintro ⟨hdays, hback⟩
    have hdeletes : ∀ rows, memoryHygieneRun true false rows maxAgeDays now =
        some (0, rows.filter fun row ↦ ¬ row.Expired maxAgeDays now) := by
      intro rows
      rw [memoryHygieneRun_eq hpos hdays, deleteOlder_eq hpos hdays hback]
    refine ⟨hdeletes, fun smaller hsmaller hle rows kept kept' hkept hkept' row hrow ↦ ?_⟩
    rw [memoryHygieneRun_eq hsmaller (by omega), deleteOlder_eq hsmaller (by omega) (by omega),
      Option.some.injEq, Prod.mk.injEq] at hkept
    rw [hdeletes, Option.some.injEq, Prod.mk.injEq] at hkept'
    rw [← hkept.2, List.mem_filter] at hrow
    rw [← hkept'.2, List.mem_filter]
    refine ⟨hrow.1, decide_eq_true fun hexpired ↦ of_decide_eq_true hrow.2 ?_⟩
    unfold MemoryRow.Expired at hexpired ⊢
    omega

/-- A year at the end of 2023. -/
theorem memoryHygiene_exact_year : RetentionExact 365 1704067200 :=
  (memoryHygiene_exact_iff (by decide) (by decide)).mpr (by decide)

/-- For 24000 days in 2023, a row of that day is deleted. -/
theorem memoryHygiene_deletes_new : ¬ RetentionExact 24000 1700000000 := by
  intro h
  have hrun := h.deletes [⟨ascii "note", ascii "today", 1700000000, []⟩]
  exact absurd hrun (by decide)

end DoctorClaw
