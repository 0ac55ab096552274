import DoctorClaw.Cron
import Mathlib.Order.Bounds.Basic

/-!
# When the scheduler runs a task

`calculate_next_run` rounds a time up to the next whole minute or hour.  Every
operation that moves a task's next run computes it anew from the clock, and the
rounding is monotone, so between two runs of one task there is always the end
of an interval.

The rounding looks at the fields of the expression only to choose between a
minute and an hour.  Its result is the next time the expression names exactly
when that time is the next minute or hour anyway.
-/

namespace DoctorClaw

open Transition

/-! ## Rounding up -/

/-- The next multiple of the interval, as C computes it: the quotient is
rounded towards zero. -/
def roundUp (interval t : ℤ) : ℤ := (t.tdiv interval + 1) * interval

theorem lt_roundUp {interval : ℤ} (h : 0 < interval) (t : ℤ) : t < roundUp interval t := by
  have hlt := Int.tmod_lt_of_pos t h
  have hdiv := Int.mul_tdiv_add_tmod t interval
  rw [roundUp, Int.add_mul, Int.mul_comm, one_mul]
  omega

theorem roundUp_mono {interval : ℤ} (h : 0 < interval) {t t' : ℤ} (hle : t ≤ t') :
    roundUp interval t ≤ roundUp interval t' :=
  Int.mul_le_mul_of_nonneg_right (Int.add_le_add_right (Int.tdiv_le_tdiv h hle) 1) h.le

theorem roundUp_lt {interval : ℤ} (h : 0 < interval) {t bound : ℤ} (ht : t + interval < bound)
    (hbound : 2 * interval < bound) : roundUp interval t < bound := by
  have hdiv := Int.mul_tdiv_add_tmod t interval
  rw [roundUp, Int.add_mul, Int.mul_comm, one_mul]
  rcases le_or_gt 0 t with hpos | hneg
  · have hmod := Int.tmod_nonneg interval hpos
    omega
  · have hmod := Int.lt_tmod_of_pos t h
    omega

theorem le_roundUp {interval : ℤ} (h : 0 < interval) {t bound : ℤ} (ht : bound ≤ t) :
    bound ≤ roundUp interval t :=
  ht.trans (lt_roundUp h t).le

/-! ## The interval of an expression -/

/-- The interval that `calculate_next_run` rounds to, if there are enough
fields for it. -/
def cronInterval (expression : Bytes) : Option Int64 :=
  match (strtokAll [32, 9] 6 expression).map (CString.cut 32) with
  | _ :: hour :: _ :: _ :: _ :: _ =>
      some (if hour ≠ ascii "*" ∧ 0 ≤ Decimal.atoi hour ∧ Decimal.atoi hour ≤ 23 then 3600 else 60)
  | _ => none

theorem calculateNextRun_eq (expression : Bytes) (t : Int64) :
    calculateNextRun expression t =
      match cronInterval expression with
      | some interval => (t / interval + 1) * interval
      | none => t + 60 := by
  unfold calculateNextRun cronInterval
  rcases (strtokAll [32, 9] 6 expression).map (CString.cut 32) with
    _ | ⟨minute, _ | ⟨hour, _ | ⟨day, _ | ⟨month, _ | ⟨weekday, more⟩⟩⟩⟩⟩
  all_goals simp only [ite_self]

theorem cronInterval_eq_some {expression : Bytes} {interval : Int64}
    (h : cronInterval expression = some interval) : interval = 60 ∨ interval = 3600 := by
  unfold cronInterval at h
  split at h
  · split_ifs at h <;> simp_all
  · cases h

theorem toInt_roundUp {interval : Int64} (hinterval : interval = 60 ∨ interval = 3600) {t : Int64}
    (ht : roundUp interval.toInt t.toInt < 2 ^ 63) :
    ((t / interval + 1) * interval).toInt = roundUp interval.toInt t.toInt := by
  have hlow := t.le_toInt
  have hhigh := t.toInt_lt
  have hpos : 0 < interval.toInt := by rcases hinterval with rfl | rfl <;> decide
  have hle := le_roundUp hpos hlow
  have hdiv : (t / interval).toInt = t.toInt.tdiv interval.toInt :=
    Int64.toInt_div_of_ne_right t interval (by rcases hinterval with rfl | rfl <;> decide)
  have hone : (1 : Int64).toInt = 1 := by decide
  rw [Int64.toInt_mul, Int64.toInt_add, hdiv, hone, Int.bmod_mul_bmod, ← roundUp]
  exact Int.bmod_eq_of_le (by omega) (by omega)

/-! ## Clock readings -/

/-- A time an hour before the end of `time_t`: nothing computed from it
overflows. -/
def InTime (t : Int64) : Prop := t.toInt + 3600 < 2 ^ 63

instance instDecidableInTime (t : Int64) : Decidable (InTime t) := Int.decLt _ _

theorem roundUp_lt_of_inTime {interval : Int64} (hinterval : interval = 60 ∨ interval = 3600)
    {t : Int64} (ht : InTime t) : roundUp interval.toInt t.toInt < 2 ^ 63 := by
  unfold InTime at ht
  rcases hinterval with rfl | rfl
  · exact roundUp_lt (by decide) (show t.toInt + 60 < 2 ^ 63 by omega) (by decide)
  · exact roundUp_lt (by decide) ht (by decide)

theorem toInt_add_minute {t : Int64} (ht : InTime t) : (t + 60).toInt = t.toInt + 60 := by
  have hlow := t.le_toInt
  unfold InTime at ht
  rw [Int64.toInt_add, show (60 : Int64).toInt = 60 by decide]
  exact Int.bmod_eq_of_le (by omega) (by omega)

theorem lt_calculateNextRun (expression : Bytes) {t : Int64} (ht : InTime t) :
    t < calculateNextRun expression t := by
  rw [calculateNextRun_eq, Int64.lt_iff_toInt_lt]
  cases h : cronInterval expression with
  | none =>
      simp only [toInt_add_minute ht]
      omega
  | some interval =>
      have hinterval := cronInterval_eq_some h
      simp only [toInt_roundUp hinterval (roundUp_lt_of_inTime hinterval ht)]
      exact lt_roundUp (by rcases hinterval with rfl | rfl <;> decide) _

theorem calculateNextRun_mono (expression : Bytes) {t t' : Int64} (ht' : InTime t')
    (hle : t ≤ t') : calculateNextRun expression t ≤ calculateNextRun expression t' := by
  rw [Int64.le_iff_toInt_le] at hle
  have ht : InTime t := lt_of_le_of_lt (Int.add_le_add_right hle 3600) ht'
  rw [calculateNextRun_eq, calculateNextRun_eq, Int64.le_iff_toInt_le]
  cases h : cronInterval expression with
  | none =>
      simp only [toInt_add_minute ht, toInt_add_minute ht']
      omega
  | some interval =>
      have hinterval := cronInterval_eq_some h
      simp only [toInt_roundUp hinterval (roundUp_lt_of_inTime hinterval ht),
        toInt_roundUp hinterval (roundUp_lt_of_inTime hinterval ht')]
      exact roundUp_mono (by rcases hinterval with rfl | rfl <;> decide) hle

/-! ## Executions -/

/-- A task that `cron_run_pending` runs or puts into the job cache, as it was
before the call, with its place in the table. -/
structure CronExecution where
  index : ℕ
  task : CronTask
  time : Int64

/-- The body of the loop over the tasks. -/
def CronTask.pass (t : CronTask) (runner : CronRunner) (i : ℕ) (now : Int64) :
    CronTask × Option CronExecution :=
  if !t.enabled then (t, none)
  else if now < t.nextRun then (t, none)
  else
    match runner with
    | .cache pushed =>
        if pushed i then
          ({ t with
              lastRun := now
              nextRun := calculateNextRun t.expression now
              runCount := t.runCount + 1 }, some ⟨i, t, now⟩)
        else (t, none)
    | .shell result =>
        (({ t with lastRun := now, nextRun := calculateNextRun t.expression now } :
          CronTask).counted (result i), some ⟨i, t, now⟩)

def cronPass (s : CronState) (runner : CronRunner) (now : Int64) :
    CronState × List CronExecution :=
  let passes := s.tasks.mapIdx fun i t ↦ t.pass runner i now
  (.saved (passes.map Prod.fst), passes.filterMap Prod.snd)

theorem CronTask.pass_fst (t : CronTask) (runner : CronRunner) (i : ℕ) (now : Int64) :
    (t.pass runner i now).1 = if !t.enabled || now < t.nextRun then t else t.run runner i now := by
  unfold CronTask.pass CronTask.run
  cases t.enabled with
  | false => rfl
  | true =>
      simp only [Bool.not_true, Bool.false_eq_true, if_false, Bool.false_or, decide_eq_true_eq]
      split_ifs with hnow
      · rfl
      · cases runner with
        | cache pushed => by_cases hpushed : pushed i = true <;> simp [hpushed]
        | shell result => rfl

/-- Keeping a record of the executions does not change the table. -/
theorem cronPass_fst (s : CronState) (runner : CronRunner) (now : Int64) :
    (cronPass s runner now).1 = cronRunPending s runner now := by
  simp only [cronPass, cronRunPending, ← CronTask.pass_fst]
  congr 1
  apply List.ext_getElem? fun i ↦ ?_
  simp [Function.comp_def]

/-- The times an operation reads. -/
def CronEvent.readings : CronEvent → List Int64
  | .add _ _ _ now => [now]
  | .remove _ => []
  | .enable _ enabled now => if enabled then [now] else []
  | .runNow _ _ finished now => [finished, now]
  | .runPending _ now => [now]

def CronEvent.executions (s : CronState) : CronEvent → List CronExecution
  | .runPending runner now => (cronPass s runner now).2
  | _ => []

def cronExecutions : CronState → List CronEvent → List CronExecution
  | _, [] => []
  | s, ev :: evs => ev.executions s ++ cronExecutions (cronStep s ev) evs

/-- The operations that leave every task in its place. -/
def CronEvent.KeepsPlaces : CronEvent → Prop
  | .add _ _ _ _ => False
  | .remove _ => False
  | _ => True

structure ClockRuns (readings : List Int64) : Prop where
  nondecreasing : readings.Pairwise (· ≤ ·)
  inTime : ∀ t ∈ readings, InTime t

theorem CronTask.counted_fields (t : CronTask) (result : Int32) :
    (t.counted result).expression = t.expression ∧ (t.counted result).nextRun = t.nextRun := by
  unfold CronTask.counted
  split_ifs <;> exact ⟨rfl, rfl⟩

theorem CronTask.pass_cases (t : CronTask) (runner : CronRunner) (i : ℕ) (now : Int64) :
    t.pass runner i now = (t, none) ∨
      ∃ t', t.pass runner i now = (t', some ⟨i, t, now⟩) ∧ t.enabled = true ∧ t.nextRun ≤ now ∧
        t'.expression = t.expression ∧ t'.nextRun = calculateNextRun t.expression now := by
  unfold CronTask.pass
  split_ifs with henabled hnow
  · exact .inl rfl
  · exact .inl rfl
  · have hdue : t.enabled = true ∧ t.nextRun ≤ now := ⟨by simpa using henabled, Int64.not_lt.mp hnow⟩
    cases runner with
    | cache pushed =>
        simp only
        split_ifs
        · exact .inr ⟨_, rfl, hdue.1, hdue.2, rfl, rfl⟩
        · exact .inl rfl
    | shell result =>
        have hfields := CronTask.counted_fields
          { t with lastRun := now, nextRun := calculateNextRun t.expression now } (result i)
        exact .inr ⟨_, rfl, hdue.1, hdue.2, hfields.1, hfields.2⟩

theorem CronTask.pass_of_disabled {t : CronTask} (h : t.enabled = false) (runner : CronRunner)
    (i : ℕ) (now : Int64) : t.pass runner i now = (t, none) := by
  unfold CronTask.pass
  rw [h]
  rfl

theorem cronPass_getElem? (s : CronState) (runner : CronRunner) (now : Int64) (i : ℕ) :
    (cronPass s runner now).1.tasks[i]? =
      s.tasks[i]?.map fun t ↦ (t.pass runner i now).1 := by
  simp [cronPass, CronState.saved, Function.comp_def]

theorem mem_cronPass_iff {s : CronState} {runner : CronRunner} {now : Int64} {e : CronExecution} :
    e ∈ (cronPass s runner now).2 ↔
      ∃ (i : ℕ) (t : CronTask), s.tasks[i]? = some t ∧ (t.pass runner i now).2 = some e := by
  simp only [cronPass, List.mem_filterMap, List.mem_mapIdx, List.getElem?_eq_some_iff]
  constructor
  · rintro ⟨_, ⟨i, hi, rfl⟩, he⟩
    exact ⟨i, _, ⟨hi, rfl⟩, he⟩
  · rintro ⟨i, t, ⟨hi, rfl⟩, he⟩
    exact ⟨_, ⟨i, hi, rfl⟩, he⟩

theorem mem_cronPass {s : CronState} {runner : CronRunner} {now : Int64} {e : CronExecution}
    (he : e ∈ (cronPass s runner now).2) :
    s.tasks[e.index]? = some e.task ∧ e.time = now ∧ e.task.enabled = true ∧
      e.task.nextRun ≤ now ∧ ∃ t', (cronPass s runner now).1.tasks[e.index]? = some t' ∧
        t'.expression = e.task.expression ∧
        t'.nextRun = calculateNextRun e.task.expression now := by
  obtain ⟨i, t, ht, hsome⟩ := mem_cronPass_iff.mp he
  rcases t.pass_cases runner i now with h | ⟨t', h, henabled, hdue, hexpr, hnext⟩
  · rw [h] at hsome
    cases hsome
  · rw [h] at hsome
    cases hsome
    refine ⟨ht, rfl, henabled, hdue, t', ?_, hexpr, hnext⟩
    rw [cronPass_getElem?, ht, Option.map_some, h]

theorem cronPass_index_ne (s : CronState) (runner : CronRunner) (now : Int64) :
    (cronPass s runner now).2.Pairwise fun e e' ↦ e.index ≠ e'.index := by
  have hindex {i : ℕ} {t : CronTask} {e : CronExecution}
      (he : (t.pass runner i now).2 = some e) : e.index = i := by
    rcases t.pass_cases runner i now with h | ⟨t', h, -⟩
    all_goals
      rw [h] at he
      cases he
    rfl
  rw [cronPass, List.pairwise_filterMap, List.pairwise_iff_getElem]
  intro i j _ _ hij e he e' he'
  rw [List.getElem_mapIdx] at he he'
  rw [hindex he, hindex he']
  exact hij.ne

/-! ## One step -/

theorem CronState.onTask_getElem? (s : CronState) (id : Bytes) (g : CronTask → CronTask) {i : ℕ}
    {t : CronTask} (ht : s.tasks[i]? = some t) :
    (s.onTask id fun t ↦ some (g t)).tasks[i]? = some t ∨
      (s.onTask id fun t ↦ some (g t)).tasks[i]? = some (g t) := by
  rcases s.onTask_cases id fun t ↦ some (g t) with ⟨hsame, -⟩ | ⟨front, t₀, rest, hsplit, -, -, hnew⟩
  · rw [hsame]
    exact .inl ht
  · rw [hsplit] at ht
    rw [hnew]
    simp only [CronState.saved, Option.toList_some, List.append_assoc, List.singleton_append]
    rcases lt_trichotomy i front.length with hlt | rfl | hgt
    · rw [List.getElem?_append_left hlt] at ht ⊢
      exact .inl ht
    · simp only [List.getElem?_append_right le_rfl, Nat.sub_self, List.getElem?_cons_zero,
        Option.some.injEq] at ht ⊢
      exact .inr (congrArg g ht)
    · obtain ⟨k, hk⟩ : ∃ k, i - front.length = k + 1 := ⟨i - front.length - 1, by omega⟩
      rw [List.getElem?_append_right hgt.le, hk, List.getElem?_cons_succ] at ht ⊢
      exact .inl ht

/-- A task keeps its place and its expression, and its next run is the old one
or computed from a time the operation read. -/
theorem cronStep_task {s : CronState} {ev : CronEvent} (hev : ev.KeepsPlaces) {i : ℕ}
    {t : CronTask} (ht : s.tasks[i]? = some t) :
    ∃ t', (cronStep s ev).tasks[i]? = some t' ∧ t'.expression = t.expression ∧
      (t'.nextRun = t.nextRun ∨
        ∃ now ∈ ev.readings, t'.nextRun = calculateNextRun t.expression now) := by
  cases ev with
  | add => exact hev.elim
  | remove => exact hev.elim
  | enable id enabled now =>
      rcases s.onTask_getElem? id (fun t ↦ { t with
        enabled := enabled
        nextRun := if enabled then calculateNextRun t.expression now else t.nextRun }) ht
        with h | h
      · exact ⟨t, h, rfl, .inl rfl⟩
      · refine ⟨_, h, rfl, ?_⟩
        cases enabled with
        | false => exact .inl rfl
        | true => exact .inr ⟨now, List.mem_singleton_self now, rfl⟩
  | runNow id result finished now =>
      rcases s.onTask_getElem? id (fun t ↦
        { (({ t with lastRun := finished } : CronTask).counted result) with
          nextRun := calculateNextRun t.expression now }) ht with h | h
      · exact ⟨t, h, rfl, .inl rfl⟩
      · exact ⟨_, h, (CronTask.counted_fields _ result).1,
          .inr ⟨now, by simp [CronEvent.readings], rfl⟩⟩
  | runPending runner now =>
      refine ⟨(t.pass runner i now).1, ?_, ?_⟩
      · rw [cronStep, ← cronPass_fst, cronPass_getElem?, ht, Option.map_some]
      · rcases t.pass_cases runner i now with h | ⟨t', h, -, -, hexpr, hnext⟩
        · rw [h]
          exact ⟨rfl, .inl rfl⟩
        · rw [h]
          exact ⟨hexpr, .inr ⟨now, List.mem_singleton_self now, hnext⟩⟩

/-! ## Runs -/

/-- The task in this place does not run before the time. -/
def Waits (s : CronState) (i : ℕ) (expression : Bytes) (deadline : Int64) : Prop :=
  ∃ t, s.tasks[i]? = some t ∧ t.expression = expression ∧ deadline ≤ t.nextRun

theorem Waits.step {s : CronState} {i : ℕ} {expression : Bytes} {t₁ : Int64}
    (h : Waits s i expression (calculateNextRun expression t₁)) {ev : CronEvent}
    (hev : ev.KeepsPlaces) (hclock : ∀ now ∈ ev.readings, t₁ ≤ now ∧ InTime now) :
    Waits (cronStep s ev) i expression (calculateNextRun expression t₁) := by
  obtain ⟨t, ht, rfl, hnext⟩ := h
  obtain ⟨t', ht', hexpr, hsame | ⟨now, hnow, hmoved⟩⟩ := cronStep_task hev ht
  · exact ⟨t', ht', hexpr, hsame ▸ hnext⟩
  · refine ⟨t', ht', hexpr, ?_⟩
    rw [hmoved]
    exact calculateNextRun_mono _ (hclock now hnow).2 (hclock now hnow).1

theorem Waits.le_time {s : CronState} {i : ℕ} {expression : Bytes} {deadline : Int64}
    (h : Waits s i expression deadline) {ev : CronEvent} {e : CronExecution}
    (he : e ∈ ev.executions s) (hi : e.index = i) : deadline ≤ e.time := by
  obtain ⟨t, ht, -, hnext⟩ := h
  cases ev with
  | runPending runner now =>
      obtain ⟨htask, htime, -, hdue, -⟩ := mem_cronPass he
      rw [hi, ht, Option.some.injEq] at htask
      rw [htime]
      exact Int64.le_trans hnext (htask ▸ hdue)
  | _ => cases he

theorem Waits.executions {evs : List CronEvent} {s : CronState} {i : ℕ} {expression : Bytes}
    {t₁ : Int64} (h : Waits s i expression (calculateNextRun expression t₁))
    (hevs : ∀ ev ∈ evs, ev.KeepsPlaces)
    (hclock : ∀ now ∈ evs.flatMap CronEvent.readings, t₁ ≤ now ∧ InTime now) :
    ∀ e ∈ cronExecutions s evs, e.index = i → calculateNextRun expression t₁ ≤ e.time := by
  induction evs generalizing s with
  | nil =>
      intro e he
      cases he
  | cons ev evs ih =>
      rw [List.forall_mem_cons] at hevs
      rw [List.flatMap_cons, List.forall_mem_append] at hclock
      intro e he hi
      rcases List.mem_append.mp he with he | he
      · exact h.le_time he hi
      · exact ih (h.step hevs.1 hclock.1) hevs.2 hclock.2 e he hi

theorem ClockRuns.append {ts ts' : List Int64} (h : ClockRuns (ts ++ ts')) :
    (∀ t ∈ ts, InTime t) ∧ ClockRuns ts' ∧ ∀ t ∈ ts, ∀ t' ∈ ts', t ≤ t' := by
  obtain ⟨hpairs, htime⟩ := h
  rw [List.pairwise_append] at hpairs
  rw [List.forall_mem_append] at htime
  exact ⟨htime.1, ⟨hpairs.2.1, htime.2⟩, hpairs.2.2⟩

theorem CronEvent.mem_readings_of_mem_executions {s : CronState} {ev : CronEvent}
    {e : CronExecution} (he : e ∈ ev.executions s) :
    e.time ∈ ev.readings ∧
      Waits (cronStep s ev) e.index e.task.expression
        (calculateNextRun e.task.expression e.time) := by
  cases ev with
  | runPending runner now =>
      obtain ⟨-, rfl, -, -, t', ht', hexpr, hnext⟩ := mem_cronPass he
      rw [cronPass_fst] at ht'
      exact ⟨List.mem_singleton_self _, t', ht', hexpr, Int64.le_of_eq hnext.symm⟩
  | _ => cases he

theorem cronExecutions_pairwise {evs : List CronEvent} (s : CronState)
    (hevs : ∀ ev ∈ evs, ev.KeepsPlaces) (hclock : ClockRuns (evs.flatMap CronEvent.readings)) :
    (cronExecutions s evs).Pairwise fun e e' ↦ e.index = e'.index →
      calculateNextRun e.task.expression e.time ≤ e'.time := by
  induction evs generalizing s with
  | nil => exact .nil
  | cons ev evs ih =>
      rw [List.forall_mem_cons] at hevs
      obtain ⟨-, hclock', hlater⟩ := hclock.append
      refine List.pairwise_append.mpr ⟨?_, ih _ hevs.2 hclock', ?_⟩
      · -- one call runs each task at most once
        cases ev with
        | runPending runner now =>
            exact (cronPass_index_ne s runner now).imp fun hne heq ↦ absurd heq hne
        | _ => exact .nil
      · intro e he e' he' hindex
        obtain ⟨hread, hwaits⟩ := CronEvent.mem_readings_of_mem_executions he
        exact hwaits.executions hevs.2 (fun now hnow ↦ ⟨hlater _ hread _ hnow, hclock'.inTime _ hnow⟩)
          e' he' hindex.symm

theorem cronExecutions_inTime {evs : List CronEvent} (s : CronState)
    (hclock : ClockRuns (evs.flatMap CronEvent.readings)) :
    ∀ e ∈ cronExecutions s evs, InTime e.time := by
  induction evs generalizing s with
  | nil =>
      intro e he
      cases he
  | cons ev evs ih =>
      obtain ⟨htime, hclock', -⟩ := hclock.append
      intro e he
      rcases List.mem_append.mp he with he | he
      · exact htime _ (CronEvent.mem_readings_of_mem_executions he).1
      · exact ih _ hclock' e he

/-- On any table, whatever order the operations are called in, the next
execution of a task comes at the end of the interval of the last one or later,
and a disabled task is left alone. -/
theorem cron_executes_once_per_interval (s : CronState) {evs : List CronEvent}
    (hevs : ∀ ev ∈ evs, ev.KeepsPlaces) (hclock : ClockRuns (evs.flatMap CronEvent.readings)) :
    ((cronExecutions s evs).Pairwise fun e e' ↦ e.index = e'.index →
      calculateNextRun e.task.expression e.time ≤ e'.time) ∧
    (∀ e ∈ cronExecutions s evs, e.time < calculateNextRun e.task.expression e.time) ∧
    ∀ (s' : CronState) (runner : CronRunner) (now : Int64) (i : ℕ) (t : CronTask),
      s'.tasks[i]? = some t → t.enabled = false →
        (∀ e ∈ (cronPass s' runner now).2, e.index ≠ i) ∧
          (cronPass s' runner now).1.tasks[i]? = some t := by
  refine ⟨cronExecutions_pairwise s hevs hclock, ?_, ?_⟩
  · intro e he
    exact lt_calculateNextRun _ (cronExecutions_inTime s hclock e he)
  · intro s' runner now i t ht hdisabled
    constructor
    · rintro e he rfl
      obtain ⟨htask, -, henabled, -⟩ := mem_cronPass he
      rw [ht, Option.some.injEq] at htask
      rw [← htask, hdisabled] at henabled
      cases henabled
    · rw [cronPass_getElem?, ht, Option.map_some, CronTask.pass_of_disabled hdisabled]

def everyMinute : CronTask where
  id := ascii "job"
  expression := ascii "* * * * *"
  command := ascii "ls"
  enabled := true
  lastRun := 0
  nextRun := 0
  runCount := 0
  failCount := 0

def threePasses : List CronEvent :=
  [.runPending (.shell fun _ ↦ 0) 30, .runPending (.shell fun _ ↦ 0) 59,
    .runPending (.shell fun _ ↦ 0) 60]

theorem cron_executes_at_30_and_60 :
    (cronExecutions ⟨[everyMinute], []⟩ threePasses).map CronExecution.time = [30, 60] ∧
      (cronExecutions ⟨[everyMinute], []⟩ threePasses).Pairwise fun e e' ↦ e.index = e'.index →
        calculateNextRun e.task.expression e.time ≤ e'.time := by
  refine ⟨by decide +kernel, (cron_executes_once_per_interval _ ?_ ⟨?_, ?_⟩).1⟩
  · simp [threePasses, CronEvent.KeepsPlaces]
  · decide
  · intro t ht
    have htime : t = 30 ∨ t = 59 ∨ t = 60 := by
      simpa [threePasses, CronEvent.readings] using ht
    rcases htime with rfl | rfl | rfl <;> decide

/-! ## What an expression means -/

theorem strtokAll_eq_take_words (delims : Bytes) (n : ℕ) (s : Bytes) :
    strtokAll delims n s = (CString.words delims s).take n := by
  induction n generalizing s with
  | zero => rfl
  | succ n ih =>
      rw [strtokAll]
      rcases h : CString.strtok delims s with ⟨_ | tok, rest⟩
      · rw [CString.words_of_strtok_none h]
        rfl
      · rw [CString.words_of_strtok_some h, List.take_succ_cons, ← ih]

/-- A field that is a star, or a number up to the bound. -/
def FieldReads (bound : ℕ) (text : Bytes) : Option ℕ → Prop
  | none => text = ascii "*"
  | some n => text ≠ [] ∧ text.all Decimal.isDigit = true ∧ Decimal.digitsValue 0 text = n ∧ n ≤ bound

/-- An expression with five fields, of which only the minute and the hour may
be numbers. -/
structure DailyExpression where
  text : Bytes
  minute : Option ℕ
  hour : Option ℕ
  fields : ∃ minuteText hourText,
    CString.words [32, 9] text = [minuteText, hourText, ascii "*", ascii "*", ascii "*"] ∧
      FieldReads 59 minuteText minute ∧ FieldReads 23 hourText hour

/-- A whole minute whose number in the hour and whose hour in the day (UTC) are
the ones asked for. -/
def DailyExpression.Matches (e : DailyExpression) (k : ℤ) : Prop :=
  60 ∣ k ∧ (∀ m ∈ e.minute, k / 60 % 60 = m) ∧ ∀ h ∈ e.hour, k / 3600 % 24 = h

theorem hourRead_of_fieldReads {bound : ℕ} (hbound : bound < 2 ^ 31) {text : Bytes} {n : ℕ}
    (h : FieldReads bound text (some n)) :
    CString.cut 32 text ≠ ascii "*" ∧ 0 ≤ Decimal.atoi (CString.cut 32 text) ∧
      Decimal.atoi (CString.cut 32 text) ≤ bound := by
  obtain ⟨hne, hdigits, rfl, hle⟩ := h
  obtain ⟨d, rest, rfl⟩ := List.exists_cons_of_ne_nil hne
  have hd : Decimal.isDigit d = true := List.all_eq_true.mp hdigits d List.mem_cons_self
  have hcut : CString.cut 32 (d :: rest) = d :: rest.take 30 := rfl
  have hvalue : Decimal.digitsValue 0 (d :: rest.take 30) ≤ bound :=
    (Decimal.digitsValue_take_le (d :: rest) 31 0).trans hle
  rw [hcut, Decimal.atoi_of_digit hd (by omega)]
  refine ⟨?_, by omega, by omega⟩
  intro hstar
  rw [(List.cons.inj hstar).1] at hd
  exact absurd hd (by decide)

theorem DailyExpression.cronInterval_text (e : DailyExpression) :
    cronInterval e.text = some (if e.hour.isSome then 3600 else 60) := by
  obtain ⟨minuteText, hourText, hwords, -, hhour⟩ := e.fields
  have hfields : (strtokAll [32, 9] 6 e.text).map (CString.cut 32) =
      [CString.cut 32 minuteText, CString.cut 32 hourText, ascii "*", ascii "*", ascii "*"] := by
    rw [strtokAll_eq_take_words, hwords]
    rfl
  rw [cronInterval, hfields]
  cases hvalue : e.hour with
  | none =>
      rw [hvalue] at hhour
      have hstar : CString.cut 32 hourText = ascii "*" := by
        rw [show hourText = ascii "*" from hhour]
        rfl
      simp [hstar]
  | some h =>
      rw [hvalue] at hhour
      have hread := hourRead_of_fieldReads (by decide) hhour
      exact congrArg some (if_pos (by exact_mod_cast hread))

/-- The last multiple of the interval that `time_t` can hold. -/
def lastMultiple (interval : ℤ) : ℤ := (2 ^ 63 - 1) / interval * interval

/-- The next minute, or for an hour field the next hour, is already the next
time the expression names.  The quotients are C's, so before 1970 a time that
is no whole minute or hour counts from the one behind it. -/
def DailyExpression.NextIsNamed (e : DailyExpression) (t : ℤ) : Prop :=
  match e.minute, e.hour with
  | none, none => t < lastMultiple 60 ∧ (0 ≤ t ∨ 60 ∣ t)
  | some m, none => t < lastMultiple 60 ∧ (t.tdiv 60 + 1) % 60 = m
  | minute, some h =>
      t < lastMultiple 3600 ∧ (∀ m ∈ minute, m = 0) ∧ (t.tdiv 3600 + 1) % 24 = h

theorem tdiv_minute_cases (t : ℤ) :
    t.tdiv 60 = t / 60 ∧ (0 ≤ t ∨ 60 ∣ t) ∨ t.tdiv 60 = t / 60 + 1 ∧ t < 0 ∧ ¬ 60 ∣ t := by
  rw [Int.tdiv_eq_ediv]
  split_ifs with h
  · exact .inl ⟨Int.add_zero _, h⟩
  · exact .inr ⟨rfl, by omega, by omega⟩

theorem tdiv_hour_cases (t : ℤ) :
    t.tdiv 3600 = t / 3600 ∧ (0 ≤ t ∨ 3600 ∣ t) ∨
      t.tdiv 3600 = t / 3600 + 1 ∧ t < 0 ∧ ¬ 3600 ∣ t := by
  rw [Int.tdiv_eq_ediv]
  split_ifs with h
  · exact .inl ⟨Int.add_zero _, h⟩
  · exact .inr ⟨rfl, by omega, by omega⟩

theorem roundUp_lt_iff {interval : ℤ} (h : interval = 60 ∨ interval = 3600) (t : ℤ) :
    roundUp interval t < 2 ^ 63 ↔ t < lastMultiple interval := by
  unfold roundUp lastMultiple
  rcases h with rfl | rfl
  · have hcases := tdiv_minute_cases t
    omega
  · have hcases := tdiv_hour_cases t
    omega

theorem toInt_calculateNextRun {expression : Bytes} {interval : Int64}
    (h : cronInterval expression = some interval) {t : Int64}
    (ht : t.toInt < lastMultiple interval.toInt) :
    (calculateNextRun expression t).toInt = roundUp interval.toInt t.toInt := by
  have hinterval := cronInterval_eq_some h
  have hvalue : interval.toInt = 60 ∨ interval.toInt = 3600 := by
    rcases hinterval with rfl | rfl
    · exact .inl (by decide)
    · exact .inr (by decide)
  rw [calculateNextRun_eq, h]
  exact toInt_roundUp hinterval ((roundUp_lt_iff hvalue _).mpr ht)

theorem toInt_calculateNextRun_le {expression : Bytes} {interval : Int64}
    (h : cronInterval expression = some interval) {t : Int64}
    (ht : ¬ t.toInt < lastMultiple interval.toInt) :
    (calculateNextRun expression t).toInt ≤ t.toInt := by
  have hinterval := cronInterval_eq_some h
  have hhigh := t.toInt_lt
  have hdiv : (t / interval).toInt = t.toInt.tdiv interval.toInt :=
    Int64.toInt_div_of_ne_right t interval (by rcases hinterval with rfl | rfl <;> decide)
  have hone : (1 : Int64).toInt = 1 := by decide
  -- the sum passes the end of `time_t` and wraps to its beginning
  have hwrap : (roundUp interval.toInt t.toInt).bmod (2 ^ 64) ≤ t.toInt := by
    have hover : 2 ^ 63 ≤ roundUp interval.toInt t.toInt ∧
        roundUp interval.toInt t.toInt ≤ 2 ^ 63 + 3600 ∧ 0 ≤ t.toInt := by
      unfold roundUp lastMultiple at *
      rcases hinterval with rfl | rfl
      · have hcases := tdiv_minute_cases t.toInt
        rw [show (60 : Int64).toInt = 60 by decide] at *
        omega
      · have hcases := tdiv_hour_cases t.toInt
        rw [show (3600 : Int64).toInt = 3600 by decide] at *
        omega
    have hneg : (roundUp interval.toInt t.toInt).bmod (2 ^ 64) =
        roundUp interval.toInt t.toInt - 2 ^ 64 := by
      rw [Int.bmod_eq_iff (by decide)]
      refine ⟨by omega, by omega, -1, by omega⟩
    omega
  rw [calculateNextRun_eq, h]
  simp only
  rwa [Int64.toInt_mul, Int64.toInt_add, hdiv, hone, Int.bmod_mul_bmod, ← roundUp]

theorem isLeast_minute_iff (t : ℤ) :
    IsLeast {k : ℤ | t < k ∧ 60 ∣ k} (roundUp 60 t) ↔ 0 ≤ t ∨ 60 ∣ t := by
  have hcases := tdiv_minute_cases t
  unfold roundUp
  constructor
  · intro h
    have hle := h.2 (show t < (t / 60 + 1) * 60 ∧ 60 ∣ (t / 60 + 1) * 60 by omega)
    omega
  · intro h
    refine ⟨⟨by omega, by omega⟩, ?_⟩
    rintro k ⟨hlt, hk⟩
    omega

theorem isLeast_minuteNumber_iff (t : ℤ) (m : ℕ) :
    IsLeast {k : ℤ | t < k ∧ 60 ∣ k ∧ k / 60 % 60 = m} (roundUp 60 t) ↔
      (t.tdiv 60 + 1) % 60 = m := by
  have hcases := tdiv_minute_cases t
  unfold roundUp
  constructor
  · rintro ⟨⟨-, -, hm⟩, -⟩
    omega
  · intro h
    refine ⟨⟨by omega, by omega, by omega⟩, ?_⟩
    rintro k ⟨hlt, hk, hm⟩
    omega

theorem isLeast_hourNumber_iff (t : ℤ) (minute : Option ℕ) (h : ℕ) :
    IsLeast {k : ℤ | t < k ∧ 60 ∣ k ∧ (∀ m ∈ minute, k / 60 % 60 = m) ∧ k / 3600 % 24 = h}
        (roundUp 3600 t) ↔
      (∀ m ∈ minute, m = 0) ∧ (t.tdiv 3600 + 1) % 24 = h := by
  have hcases := tdiv_hour_cases t
  have hwhole : roundUp 3600 t / 60 % 60 = 0 := by
    unfold roundUp
    omega
  constructor
  · rintro ⟨⟨-, -, hm, hh⟩, -⟩
    unfold roundUp at hh
    refine ⟨fun m hmem ↦ ?_, by omega⟩
    have hzero := hm m hmem
    omega
  · rintro ⟨hm, hh⟩
    refine ⟨⟨lt_roundUp (by decide) t, ?_, fun m hmem ↦ ?_, ?_⟩, ?_⟩
    · unfold roundUp
      omega
    · rw [hwhole, hm m hmem]
      rfl
    · unfold roundUp
      omega
    · rintro k ⟨hlt, -, -, hk⟩
      unfold roundUp
      omega

theorem isLeast_calculateNextRun_iff {expression : Bytes} {interval : Int64}
    (h : cronInterval expression = some interval) (t : Int64) (P : ℤ → Prop) :
    IsLeast {k : ℤ | t.toInt < k ∧ P k} (calculateNextRun expression t).toInt ↔
      t.toInt < lastMultiple interval.toInt ∧
        IsLeast {k : ℤ | t.toInt < k ∧ P k} (roundUp interval.toInt t.toInt) := by
  by_cases hlast : t.toInt < lastMultiple interval.toInt
  · rw [toInt_calculateNextRun h hlast]
    exact (and_iff_right hlast).symm
  · refine iff_of_false (fun hleast ↦ ?_) fun hboth ↦ hlast hboth.1
    exact absurd hleast.1.1 (not_lt.mpr (toInt_calculateNextRun_le h hlast))

/-- The function returns the next time that the expression names exactly when
this is the next minute or hour. -/
theorem calculateNextRun_isLeast_iff (e : DailyExpression) (t : Int64) :
    IsLeast {k : ℤ | t.toInt < k ∧ e.Matches k} (calculateNextRun e.text t).toInt ↔
      e.NextIsNamed t.toInt := by
  rw [isLeast_calculateNextRun_iff e.cronInterval_text]
  obtain ⟨text, minute, hour, fields⟩ := e
  have hminute : (60 : Int64).toInt = 60 := by decide
  have hhour : (3600 : Int64).toInt = 3600 := by decide
  cases hour with
  | none =>
      cases minute with
      | none =>
          have h := isLeast_minute_iff t.toInt
          simp only [DailyExpression.Matches, DailyExpression.NextIsNamed, Option.isSome_none,
            Bool.false_eq_true, if_false, hminute, Option.not_mem_none, false_implies,
            implies_true, and_true, h]
      | some m =>
          have h := isLeast_minuteNumber_iff t.toInt m
          simp only [DailyExpression.Matches, DailyExpression.NextIsNamed, Option.isSome_none,
            Bool.false_eq_true, if_false, hminute, Option.mem_def, reduceCtorEq, false_implies,
            implies_true, and_true, Option.some.injEq, forall_eq', h]
  | some h =>
      have hleast := isLeast_hourNumber_iff t.toInt minute h
      simp only [Option.mem_def] at hleast
      cases minute with
      | none =>
          simp only [DailyExpression.Matches, DailyExpression.NextIsNamed, Option.isSome_some,
            if_true, hhour, Option.mem_def, Option.some.injEq, forall_eq', hleast]
      | some m =>
          simp only [DailyExpression.Matches, DailyExpression.NextIsNamed, Option.isSome_some,
            if_true, hhour, Option.mem_def, Option.some.injEq, forall_eq'] at hleast ⊢
          rw [hleast]

theorem words_halfPastNine :
    CString.words [32, 9] (ascii "30 9 * * *") =
        [ascii "30", ascii "9", ascii "*", ascii "*", ascii "*"] ∧
      FieldReads 59 (ascii "30") (some 30) ∧ FieldReads 23 (ascii "9") (some 9) := by
  unfold FieldReads
  decide +kernel

def halfPastNine : DailyExpression where
  text := ascii "30 9 * * *"
  minute := some 30
  hour := some 9
  fields := ⟨ascii "30", ascii "9", words_halfPastNine⟩

/-- "30 9 * * *" runs at one in the morning. -/
theorem calculateNextRun_ignores_fields :
    ¬ ∀ (e : DailyExpression) (t : Int64),
      IsLeast {k : ℤ | t.toInt < k ∧ e.Matches k} (calculateNextRun e.text t).toInt := by
  intro h
  have hmatches := (h halfPastNine 0).1.2
  have hnext : calculateNextRun halfPastNine.text 0 = 3600 := by decide +kernel
  rw [hnext] at hmatches
  exact absurd (hmatches.2.2 9 rfl) (by decide)

end DoctorClaw
