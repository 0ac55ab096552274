import DoctorClaw.Lib.Run
import Mathlib.Algebra.Group.Nat.Defs

/-!
# The worker pool

`jobworker_pool_start` allocates an array for the threads and starts the
workers and the scaler, which adds a worker whenever the queue is long.  Any
allocation and any thread creation may fail, and the choices of an event say
which do.  A start that fails half way leaves traces: the pool counts as
running when the array could not be allocated, and keeps the workers when the
scaler could not be started, so that the next start writes behind its array.

The mutex makes a pass of the scaler one step.  A pass that has begun when
`jobworker_pool_stop` is called is over before the scaler is joined.
-/

namespace DoctorClaw

open Transition

/-! ## The pool -/

/-- `worker_threads` is represented by the number of its entries, `none` is the
null pointer; `scalerThread` says whether the scaler runs. -/
structure WorkerPool where
  minWorkers : ℕ
  maxWorkers : ℕ
  scaleUpThreshold : ℕ
  numWorkers : ℕ
  running : Bool
  workerThreads : Option ℕ
  scalerThread : Bool
  deriving DecidableEq

def defaultScaleUpDepth : ℕ := 8

def jobworkerPoolCreate (minWorkers maxWorkers : ℕ) (malloc : Bool) : Option WorkerPool :=
  if minWorkers = 0 ∨ maxWorkers < minWorkers then none
  else if !malloc then none
  else some {
    minWorkers
    maxWorkers
    scaleUpThreshold := defaultScaleUpDepth
    numWorkers := 0
    running := false
    workerThreads := none
    scalerThread := false }

/-- `sizeof(pthread_t)` -/
def pthreadSize : ℕ := 8

/-- The entries of an array whose size in bytes is computed as a `size_t`. -/
def arrayEntries (n : ℕ) : ℕ := n * pthreadSize % 2 ^ 64 / pthreadSize

/-- A thread handle stored at an index of an array of the given size. -/
structure ThreadWrite where
  index : ℕ
  entries : ℕ
  deriving DecidableEq

structure StartChoices where
  malloc : Bool
  worker : ℕ → Bool
  scaler : Bool

structure ScalerChoices where
  depth : ℕ
  realloc : Bool
  worker : Bool

/-- The loop of the start: the number of workers behind it, and the indices
that were passed to `pthread_create`. -/
def createWorkers (worker : ℕ → Bool) : ℕ → ℕ → ℕ → ℕ × List ℕ
  | 0, _, numWorkers => (numWorkers, [])
  | n + 1, i, numWorkers =>
      if worker i then
        let (total, indices) := createWorkers worker n (i + 1) (numWorkers + 1)
        (total, numWorkers :: indices)
      else (numWorkers, [numWorkers])

structure StartResult where
  pool : WorkerPool
  ok : Bool
  writes : List ThreadWrite

def jobworkerPoolStart (pool : WorkerPool) (c : StartChoices) : StartResult :=
  if pool.running then ⟨pool, false, []⟩
  else if !c.malloc then ⟨{ pool with running := true, workerThreads := none }, false, []⟩
  else
    let entries := arrayEntries pool.minWorkers
    let workers := createWorkers c.worker pool.minWorkers 0 pool.numWorkers
    let writes := workers.2.map fun i ↦ ⟨i, entries⟩
    if c.scaler then
      ⟨{ pool with
          running := true
          workerThreads := some entries
          numWorkers := workers.1
          scalerThread := true }, true, writes⟩
    else
      ⟨{ pool with
          running := false
          workerThreads := some entries
          numWorkers := workers.1 }, false, writes⟩

/-- What the scaler does while it holds the mutex. -/
def scalerPass (pool : WorkerPool) (c : ScalerChoices) : WorkerPool × List ThreadWrite :=
  if pool.scaleUpThreshold ≤ c.depth ∧ pool.numWorkers < pool.maxWorkers then
    if c.realloc then
      let entries := arrayEntries (pool.numWorkers + 1)
      ({ pool with
          workerThreads := some entries
          numWorkers := if c.worker then pool.numWorkers + 1 else pool.numWorkers },
        [⟨pool.numWorkers, entries⟩])
    else (pool, [])
  else (pool, [])

/-- `late` is a pass of the scaler that ends before it is joined. -/
def jobworkerPoolStop (pool : WorkerPool) (late : Option ScalerChoices) :
    WorkerPool × List ThreadWrite :=
  if !pool.running then (pool, [])
  else
    let passed := match late with
      | some c => scalerPass pool c
      | none => (pool, [])
    ({ passed.1 with numWorkers := 0, running := false, scalerThread := false }, passed.2)

/-! ## Runs -/

inductive PoolEvent
  | start (c : StartChoices)
  | stop (late : Option ScalerChoices)
  | scaler (c : ScalerChoices)

/-- The pool, the handles written so far, and the pool before and after every
start that returned -1. -/
structure PoolRun where
  pool : WorkerPool
  writes : List ThreadWrite
  refused : List (WorkerPool × WorkerPool)

def poolStep (r : PoolRun) : PoolEvent → PoolRun
  | .start c =>
      let result := jobworkerPoolStart r.pool c
      ⟨result.pool, r.writes ++ result.writes,
        if result.ok then r.refused else r.refused ++ [(r.pool, result.pool)]⟩
  | .stop late =>
      let result := jobworkerPoolStop r.pool late
      ⟨result.1, r.writes ++ result.2, r.refused⟩
  | .scaler c =>
      let result := scalerPass r.pool c
      ⟨result.1, r.writes ++ result.2, r.refused⟩

/-- The scaler passes only while its thread is there. -/
def PoolEvent.Enabled (pool : WorkerPool) : PoolEvent → Prop
  | .start _ => True
  | .stop late => late.isSome → pool.scalerThread = true
  | .scaler _ => pool.scalerThread = true

def PoolStep (r : PoolRun) (ev : PoolEvent) (r' : PoolRun) : Prop :=
  ev.Enabled r.pool ∧ poolStep r ev = r'

/-- What holds of the bookkeeping. -/
structure PoolOk (r : PoolRun) : Prop where
  le_max : r.pool.numWorkers ≤ r.pool.maxWorkers
  le_entries : r.pool.numWorkers ≤ r.pool.workerThreads.getD 0
  inside : ∀ w ∈ r.writes, w.index < w.entries
  unchanged : ∀ p ∈ r.refused, p.2.running = p.1.running ∧ p.2.numWorkers = p.1.numWorkers

/-- The start meets no failure that it does not undo: the array is there, and
the scaler starts unless there was no worker to begin with. -/
def PoolEvent.Proper (pool : WorkerPool) : PoolEvent → Prop
  | .start c => pool.running = true ∨ c.malloc = true ∧ (c.scaler = true ∨ c.worker 0 = false)
  | .stop _ => True
  | .scaler _ => True

def ProperPoolStep (r : PoolRun) (ev : PoolEvent) (r' : PoolRun) : Prop :=
  ev.Proper r.pool ∧ PoolStep r ev r'

/-! ## The invariant -/

structure WorkerPool.Inv (pool : WorkerPool) : Prop where
  min_pos : 0 < pool.minWorkers
  min_le_max : pool.minWorkers ≤ pool.maxWorkers
  max_lt : pool.maxWorkers < 2 ^ 61
  le_max : pool.numWorkers ≤ pool.maxWorkers
  le_entries : pool.numWorkers ≤ pool.workerThreads.getD 0
  idle : pool.running = false → pool.numWorkers = 0 ∧ pool.scalerThread = false

theorem arrayEntries_eq {n : ℕ} (h : n < 2 ^ 61) : arrayEntries n = n := by
  unfold arrayEntries pthreadSize
  omega

theorem createWorkers_le (worker : ℕ → Bool) (n i numWorkers : ℕ) :
    (createWorkers worker n i numWorkers).1 ≤ numWorkers + n ∧
      ∀ k ∈ (createWorkers worker n i numWorkers).2, k < numWorkers + n := by
  induction n generalizing i numWorkers with
  | zero => exact ⟨Nat.le_refl _, fun k hk ↦ by cases hk⟩
  | succ n ih =>
      obtain ⟨hle, hlt⟩ := ih (i + 1) (numWorkers + 1)
      rw [createWorkers]
      split_ifs
      · refine ⟨by simp only; omega, fun k hk ↦ ?_⟩
        rcases List.mem_cons.mp hk with rfl | hk
        · omega
        · have hk' := hlt k hk
          omega
      · refine ⟨by simp only; omega, fun k hk ↦ ?_⟩
        rw [List.mem_singleton.mp hk]
        omega

theorem createWorkers_of_not {worker : ℕ → Bool} {n i : ℕ} (hn : 0 < n) (h : worker i = false)
    (numWorkers : ℕ) : createWorkers worker n i numWorkers = (numWorkers, [numWorkers]) := by
  obtain ⟨n, rfl⟩ : ∃ k, n = k + 1 := ⟨n - 1, by omega⟩
  simp [createWorkers, h]

theorem WorkerPool.Inv.start {pool : WorkerPool} (h : pool.Inv) {c : StartChoices}
    (hc : (PoolEvent.start c).Proper pool) :
    (jobworkerPoolStart pool c).pool.Inv ∧
      (∀ w ∈ (jobworkerPoolStart pool c).writes, w.index < w.entries) ∧
      ((jobworkerPoolStart pool c).ok = false →
        (jobworkerPoolStart pool c).pool.running = pool.running ∧
          (jobworkerPoolStart pool c).pool.numWorkers = pool.numWorkers) := by
  cases hrunning : pool.running with
  | true =>
      rw [jobworkerPoolStart, if_pos hrunning]
      exact ⟨h, List.forall_mem_nil _, fun _ ↦ ⟨hrunning, rfl⟩⟩
  | false =>
      obtain ⟨hmalloc, hscaler⟩ := hc.resolve_left (by simp [hrunning])
      obtain ⟨hzero, hnone⟩ := h.idle hrunning
      have hentries : arrayEntries pool.minWorkers = pool.minWorkers :=
        arrayEntries_eq (Nat.lt_of_le_of_lt h.min_le_max h.max_lt)
      obtain ⟨hle, hlt⟩ := createWorkers_le c.worker pool.minWorkers 0 pool.numWorkers
      rw [hzero, Nat.zero_add] at hle hlt
      have hinside : ∀ w ∈ (createWorkers c.worker pool.minWorkers 0 0).2.map
          (fun i ↦ ThreadWrite.mk i pool.minWorkers), w.index < w.entries := by
        intro w hw
        obtain ⟨k, hk, rfl⟩ := List.mem_map.mp hw
        exact hlt k hk
      simp only [jobworkerPoolStart, hrunning, hmalloc, hentries, hzero, Bool.not_true,
        Bool.false_eq_true, if_false]
      split_ifs with hstarted
      · refine ⟨⟨h.min_pos, h.min_le_max, h.max_lt, Nat.le_trans hle h.min_le_max, hle, ?_⟩,
          hinside, fun hok ↦ by cases hok⟩
        intro hidle
        cases hidle
      · -- no worker was there to be forgotten
        have hworkers := createWorkers_of_not h.min_pos (hscaler.resolve_left hstarted) 0
        rw [hworkers] at hinside ⊢
        exact ⟨⟨h.min_pos, h.min_le_max, h.max_lt, Nat.zero_le _, Nat.zero_le _,
          fun _ ↦ ⟨rfl, hnone⟩⟩, hinside, fun _ ↦ ⟨rfl, rfl⟩⟩

theorem scalerPass_cases (pool : WorkerPool) (c : ScalerChoices) :
    scalerPass pool c = (pool, []) ∨
      pool.numWorkers < pool.maxWorkers ∧ ∃ total ≤ pool.numWorkers + 1,
        scalerPass pool c = ({ pool with
            workerThreads := some (arrayEntries (pool.numWorkers + 1))
            numWorkers := total }, [⟨pool.numWorkers, arrayEntries (pool.numWorkers + 1)⟩]) := by
  unfold scalerPass
  by_cases hgrow : pool.scaleUpThreshold ≤ c.depth ∧ pool.numWorkers < pool.maxWorkers
  · rw [if_pos hgrow]
    cases c.realloc with
    | false => exact .inl rfl
    | true =>
        refine .inr ⟨hgrow.2, if c.worker then pool.numWorkers + 1 else pool.numWorkers, ?_, rfl⟩
        split_ifs <;> omega
  · rw [if_neg hgrow]
    exact .inl rfl

theorem WorkerPool.Inv.scalerPass {pool : WorkerPool} (h : pool.Inv) (hrunning : pool.running = true)
    (c : ScalerChoices) :
    (DoctorClaw.scalerPass pool c).1.Inv ∧
      ∀ w ∈ (DoctorClaw.scalerPass pool c).2, w.index < w.entries := by
  rcases scalerPass_cases pool c with hsame | ⟨hroom, total, htotal, hgrown⟩
  · rw [hsame]
    exact ⟨h, List.forall_mem_nil _⟩
  · have hmax := h.max_lt
    have hentries : arrayEntries (pool.numWorkers + 1) = pool.numWorkers + 1 :=
      arrayEntries_eq (by omega)
    rw [hgrown, hentries]
    refine ⟨⟨h.min_pos, h.min_le_max, h.max_lt, Nat.le_trans htotal hroom, htotal, ?_⟩, ?_⟩
    · intro hidle
      rw [hrunning] at hidle
      cases hidle
    · intro w hw
      rw [List.mem_singleton.mp hw]
      exact Nat.lt_succ_self _

theorem WorkerPool.Inv.stop {pool : WorkerPool} (h : pool.Inv) (late : Option ScalerChoices) :
    (jobworkerPoolStop pool late).1.Inv ∧
      ∀ w ∈ (jobworkerPoolStop pool late).2, w.index < w.entries := by
  cases hrunning : pool.running with
  | false =>
      simp only [jobworkerPoolStop, hrunning]
      exact ⟨h, List.forall_mem_nil _⟩
  | true =>
      simp only [jobworkerPoolStop, hrunning]
      cases late with
      | none =>
          exact ⟨⟨h.min_pos, h.min_le_max, h.max_lt, Nat.zero_le _, Nat.zero_le _,
            fun _ ↦ ⟨rfl, rfl⟩⟩, List.forall_mem_nil _⟩
      | some c =>
          obtain ⟨hpass, hinside⟩ := h.scalerPass hrunning c
          exact ⟨⟨hpass.min_pos, hpass.min_le_max, hpass.max_lt, Nat.zero_le _, Nat.zero_le _,
            fun _ ↦ ⟨rfl, rfl⟩⟩, hinside⟩

/-! ## Every run -/

structure PoolInv (r : PoolRun) : Prop where
  pool : r.pool.Inv
  inside : ∀ w ∈ r.writes, w.index < w.entries
  unchanged : ∀ p ∈ r.refused, p.2.running = p.1.running ∧ p.2.numWorkers = p.1.numWorkers

theorem PoolInv.step {r r' : PoolRun} {ev : PoolEvent} (h : PoolInv r)
    (hstep : ProperPoolStep r ev r') : PoolInv r' := by
  obtain ⟨hproper, henabled, rfl⟩ := hstep
  cases ev with
  | start c =>
      obtain ⟨hpool, hinside, hrefused⟩ := h.pool.start hproper
      refine ⟨hpool, List.forall_mem_append.mpr ⟨h.inside, hinside⟩, ?_⟩
      simp only [poolStep]
      split_ifs with hok
      · exact h.unchanged
      · refine List.forall_mem_append.mpr ⟨h.unchanged, fun p hp ↦ ?_⟩
        rw [List.mem_singleton.mp hp]
        exact hrefused (Bool.eq_false_iff.mpr hok)
  | stop late =>
      obtain ⟨hpool, hinside⟩ := h.pool.stop late
      exact ⟨hpool, List.forall_mem_append.mpr ⟨h.inside, hinside⟩, h.unchanged⟩
  | scaler c =>
      have hrunning : r.pool.running = true := by
        cases hidle : r.pool.running with
        | true => rfl
        | false => exact absurd henabled (by simp [PoolEvent.Enabled, (h.pool.idle hidle).2])
      obtain ⟨hpool, hinside⟩ := h.pool.scalerPass hrunning c
      exact ⟨hpool, List.forall_mem_append.mpr ⟨h.inside, hinside⟩, h.unchanged⟩

theorem jobworkerPoolCreate_inv {minWorkers maxWorkers : ℕ} {malloc : Bool} {pool : WorkerPool}
    (h : jobworkerPoolCreate minWorkers maxWorkers malloc = some pool) (hmax : maxWorkers < 2 ^ 61) :
    pool.Inv := by
  unfold jobworkerPoolCreate at h
  split_ifs at h with hbounds
  have hpos : 0 < minWorkers := by omega
  have hle : minWorkers ≤ maxWorkers := by omega
  cases h
  exact ⟨hpos, hle, hmax, Nat.zero_le _, Nat.zero_le _, fun _ ↦ ⟨rfl, rfl⟩⟩

/-- In every run whose starts meet no such failure, of a pool whose arrays have
a size, the bookkeeping is right in every state. -/
theorem worker_pool_ok {minWorkers maxWorkers : ℕ} {malloc : Bool} {pool : WorkerPool}
    (hcreate : jobworkerPoolCreate minWorkers maxWorkers malloc = some pool)
    (hmax : maxWorkers < 2 ^ 61) {evs : List PoolEvent} {r : PoolRun}
    (hrun : Run ProperPoolStep ⟨pool, [], []⟩ evs r) : PoolOk r := by
  have hinv : PoolInv r := by
    apply hrun.invariant
    · exact ⟨jobworkerPoolCreate_inv hcreate hmax, List.forall_mem_nil _, List.forall_mem_nil _⟩
    · exact fun r ev r' h hstep ↦ h.step hstep
  exact ⟨hinv.pool.le_max, hinv.pool.le_entries, hinv.inside, hinv.unchanged⟩

def allSucceed : StartChoices := ⟨true, fun _ ↦ true, true⟩

def scalerFails : StartChoices := ⟨true, fun _ ↦ true, false⟩

def workerPool (minWorkers maxWorkers : ℕ) : WorkerPool :=
  ⟨minWorkers, maxWorkers, defaultScaleUpDepth, 0, false, none, false⟩

/-- A start, a worker for a long queue, a stop and another start. -/
theorem worker_pool_ok_restart :
    ∃ r, Run ProperPoolStep ⟨workerPool 2 16, [], []⟩
        [.start allSucceed, .scaler ⟨9, true, true⟩, .stop none, .start allSucceed] r ∧
      r.writes.map ThreadWrite.index = [0, 1, 2, 0, 1] ∧ PoolOk r := by
  have hstart : Run ProperPoolStep ⟨workerPool 2 16, [], []⟩ ([] ++ [.start allSucceed]) _ :=
    Run.nil.snoc ⟨.inr ⟨rfl, .inl rfl⟩, trivial, rfl⟩
  have hscaler : Run ProperPoolStep ⟨workerPool 2 16, [], []⟩
      ([.start allSucceed] ++ [.scaler ⟨9, true, true⟩]) _ := hstart.snoc ⟨trivial, rfl, rfl⟩
  have hstop : Run ProperPoolStep ⟨workerPool 2 16, [], []⟩
      ([.start allSucceed, .scaler ⟨9, true, true⟩] ++ [.stop none]) _ :=
    hscaler.snoc ⟨trivial, fun _ ↦ rfl, rfl⟩
  have hrun : Run ProperPoolStep ⟨workerPool 2 16, [], []⟩
      ([.start allSucceed, .scaler ⟨9, true, true⟩, .stop none] ++ [.start allSucceed]) _ :=
    hstop.snoc ⟨.inr ⟨rfl, .inl rfl⟩, trivial, rfl⟩
  have hcreate : jobworkerPoolCreate 2 16 true = some (workerPool 2 16) := rfl
  exact ⟨_, hrun, by decide, worker_pool_ok hcreate (by decide) hrun⟩

/-- The scaler of the first start fails, and the second writes the third and
the fourth handle behind its array of two. -/
theorem worker_pool_writes_outside :
    ¬ ∀ (minWorkers maxWorkers : ℕ) (malloc : Bool) (pool : WorkerPool),
      jobworkerPoolCreate minWorkers maxWorkers malloc = some pool →
        ∀ (evs : List PoolEvent) (r : PoolRun), Run PoolStep ⟨pool, [], []⟩ evs r → PoolOk r := by
  intro h
  have hfirst : Run PoolStep ⟨workerPool 2 16, [], []⟩ ([] ++ [.start scalerFails]) _ :=
    Run.nil.snoc ⟨trivial, rfl⟩
  have hsecond : Run PoolStep ⟨workerPool 2 16, [], []⟩
      ([.start scalerFails] ++ [.start allSucceed]) _ := hfirst.snoc ⟨trivial, rfl⟩
  have hok := h 2 16 true (workerPool 2 16) rfl _ _ hsecond
  exact absurd (hok.inside ⟨2, 2⟩ (by decide)) (by decide)

end DoctorClaw
