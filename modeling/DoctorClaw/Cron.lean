import DoctorClaw.Lib.Decimal
import DoctorClaw.Lib.Lists
import DoctorClaw.Lib.Run
import DoctorClaw.Lib.Strtok

/-!
# The cron scheduler and its file

The scheduler keeps at most 64 tasks and writes them, one line each with eight
fields between bars, whenever one of its operations changes them.  `cron_init`
reads the file back with `fgets` and `strtok`.  `strtok` joins neighbouring
bars and cuts at every bar, and a line that starts with `#` is a comment, so a
table comes back unchanged exactly when the three texts of every task are not
empty and without a bar and no identifier starts with `#`.

Opening the file is taken to succeed; `time (NULL)` is an argument.
-/

namespace DoctorClaw

open Transition

/-! ## Tasks -/

structure CronTask where
  id : Bytes
  expression : Bytes
  command : Bytes
  enabled : Bool
  lastRun : Int64
  nextRun : Int64
  runCount : Int32
  failCount : Int32
  deriving DecidableEq

def maxTasks : ℕ := 64

def cronNameSize : ℕ := 64

def cronCommandSize : ℕ := 512

def strtokAll (delims : Bytes) : ℕ → Bytes → List Bytes
  | 0, _ => []
  | n + 1, s =>
    match CString.strtok delims s with
    | (none, _) => []
    | (some tok, rest) => tok :: strtokAll delims n rest

def calculateNextRun (expression : Bytes) (fromTime : Int64) : Int64 :=
  match (strtokAll [32, 9] 6 expression).map (CString.cut 32) with
  | minute :: hour :: _ :: _ :: _ :: _ =>
      let interval : Int64 := 60
      let interval := if minute ≠ ascii "*" ∧ 0 ≤ Decimal.atoi minute ∧ Decimal.atoi minute ≤ 59
        then 60 else interval
      let interval := if hour ≠ ascii "*" ∧ 0 ≤ Decimal.atoi hour ∧ Decimal.atoi hour ≤ 23
        then 3600 else interval
      (fromTime / interval + 1) * interval
  | _ => fromTime + 60

/-! ## The file -/

def cronHeader : List Bytes :=
  [ascii "# Doctor Claw Cron Tasks",
    ascii "# Format: id|expression|command|enabled|last_run|next_run|run_count|fail_count"]

def CronTask.line (t : CronTask) : Bytes :=
  t.id ++ 124 :: (t.expression ++ 124 :: (t.command ++ 124 ::
    (Decimal.printInt (if t.enabled then 1 else 0) ++ 124 ::
      (Decimal.printInt t.lastRun.toInt ++ 124 :: (Decimal.printInt t.nextRun.toInt ++ 124 ::
        (Decimal.printInt t.runCount.toInt ++ 124 :: Decimal.printInt t.failCount.toInt))))))

def saveTasksToDisk (tasks : List CronTask) : Bytes :=
  (cronHeader ++ tasks.map CronTask.line).flatMap fun line ↦ line ++ [10]

def cronLineSize : ℕ := 1024

def loadLine (now : Int64) (line : Bytes) : Option CronTask :=
  if line.head? = some 35 ∨ line.head? = some 10 then none
  else
    let (id, line) := CString.strtok [124] line
    let (expr, line) := CString.strtok [124] line
    let (cmd, line) := CString.strtok [124] line
    let (enabled, line) := CString.strtok [124] line
    let (lastRun, line) := CString.strtok [124] line
    let (nextRun, line) := CString.strtok [124] line
    let (runCount, line) := CString.strtok [124] line
    let (failCount, _) := CString.strtok [124, 10] line
    match id, expr, cmd with
    | some id, some expr, some cmd =>
        let expression := CString.cut cronNameSize expr
        let next := (nextRun.map fun s ↦ Int64.ofInt (Decimal.atol s)).getD (now + 60)
        some {
          id := CString.cut cronNameSize id
          expression
          command := CString.cut cronCommandSize cmd
          enabled := (enabled.map fun s ↦ decide (Decimal.atoi s = 1)).getD false
          lastRun := (lastRun.map fun s ↦ Int64.ofInt (Decimal.atol s)).getD 0
          nextRun := if next < now then calculateNextRun expression now else next
          runCount := (runCount.map fun s ↦ Int32.ofInt (Decimal.atoi s)).getD 0
          failCount := (failCount.map fun s ↦ Int32.ofInt (Decimal.atoi s)).getD 0 }
    | _, _, _ => none

def loadTasksFromDisk (now : Int64) (file : Bytes) : List CronTask :=
  (((CString.fgetsLines cronLineSize file.length file).map CString.ofBuffer).filterMap
    (loadLine now)).take maxTasks

/-! ## Operations -/

structure CronState where
  tasks : List CronTask
  file : Bytes

def CronState.saved (tasks : List CronTask) : CronState := ⟨tasks, saveTasksToDisk tasks⟩

def cronAddTask (s : CronState) (id expression command : Bytes) (now : Int64) : CronState :=
  if maxTasks ≤ s.tasks.length then s
  else if s.tasks.any fun t ↦ t.id = id then s
  else .saved (s.tasks ++ [{
    id := CString.cut cronNameSize id
    expression := CString.cut cronNameSize expression
    command := CString.cut cronCommandSize command
    enabled := true
    lastRun := 0
    nextRun := calculateNextRun expression now
    runCount := 0
    failCount := 0 }])

/-- The first task with the identifier is changed or, with `none`, removed;
without such a task nothing happens. -/
def CronState.onTask (s : CronState) (id : Bytes) (f : CronTask → Option CronTask) : CronState :=
  match s.tasks.span fun t ↦ decide (t.id ≠ id) with
  | (_, []) => s
  | (front, t :: rest) => .saved (front ++ (f t).toList ++ rest)

def cronRemoveTask (s : CronState) (id : Bytes) : CronState := s.onTask id fun _ ↦ none

def cronEnableTask (s : CronState) (id : Bytes) (enabled : Bool) (now : Int64) : CronState :=
  s.onTask id fun t ↦ some { t with
    enabled := enabled
    nextRun := if enabled then calculateNextRun t.expression now else t.nextRun }

def CronTask.counted (t : CronTask) (result : Int32) : CronTask :=
  if result = 0 then { t with runCount := t.runCount + 1 }
  else { t with failCount := t.failCount + 1 }

def cronRunTaskNow (s : CronState) (id : Bytes) (result : Int32) (finished now : Int64) :
    CronState :=
  s.onTask id fun t ↦ some
    { (({ t with lastRun := finished } : CronTask).counted result) with
      nextRun := calculateNextRun t.expression now }

/-- Where a pending task runs: in the shared job cache, if its push succeeds,
or in a shell that returns a status. -/
inductive CronRunner
  | cache (pushed : ℕ → Bool)
  | shell (result : ℕ → Int32)

def CronTask.run (t : CronTask) (runner : CronRunner) (i : ℕ) (now : Int64) : CronTask :=
  let ran := { t with lastRun := now, nextRun := calculateNextRun t.expression now }
  match runner with
  | .cache pushed => if pushed i then { ran with runCount := t.runCount + 1 } else t
  | .shell result => ran.counted (result i)

def cronRunPending (s : CronState) (runner : CronRunner) (now : Int64) : CronState :=
  .saved (s.tasks.mapIdx fun i t ↦
    if !t.enabled || now < t.nextRun then t else t.run runner i now)

def cronShutdown (s : CronState) : CronState := ⟨[], saveTasksToDisk s.tasks⟩

def cronInit (s : CronState) (now : Int64) : CronState := ⟨loadTasksFromDisk now s.file, s.file⟩

/-! ## Runs -/

def CronText : Type := { s : Bytes // (0 : UInt8) ∉ s ∧ (10 : UInt8) ∉ s }

inductive CronEvent
  | add (id expression command : CronText) (now : Int64)
  | remove (id : Bytes)
  | enable (id : Bytes) (enabled : Bool) (now : Int64)
  | runNow (id : Bytes) (result : Int32) (finished now : Int64)
  | runPending (runner : CronRunner) (now : Int64)

def cronStep (s : CronState) : CronEvent → CronState
  | .add id expression command now => cronAddTask s id.1 expression.1 command.1 now
  | .remove id => cronRemoveTask s id
  | .enable id enabled now => cronEnableTask s id enabled now
  | .runNow id result finished now => cronRunTaskNow s id result finished now
  | .runPending runner now => cronRunPending s runner now

/-- The texts of a task fit their buffers and hold neither NUL nor line end. -/
structure CronTask.Fits (t : CronTask) : Prop where
  id_length : t.id.length < cronNameSize
  expression_length : t.expression.length < cronNameSize
  command_length : t.command.length < cronCommandSize
  nul : (0 : UInt8) ∉ t.id ∧ (0 : UInt8) ∉ t.expression ∧ (0 : UInt8) ∉ t.command
  newline : (10 : UInt8) ∉ t.id ∧ (10 : UInt8) ∉ t.expression ∧ (10 : UInt8) ∉ t.command

theorem CronTask.Fits.congr {t t' : CronTask} (h : t.Fits) (hid : t'.id = t.id)
    (hexpr : t'.expression = t.expression) (hcmd : t'.command = t.command) : t'.Fits := by
  obtain ⟨h₁, h₂, h₃, h₄, h₅⟩ := h
  constructor <;> simp only [hid, hexpr, hcmd] <;> assumption

structure CronInv (s : CronState) : Prop where
  fits : ∀ t ∈ s.tasks, t.Fits
  length_le : s.tasks.length ≤ maxTasks

theorem notMem_cut {c : UInt8} {s : Bytes} (h : c ∉ s) (size : ℕ) : c ∉ CString.cut size s :=
  fun hc ↦ h (List.mem_of_mem_take hc)

theorem CronInv.add {s : CronState} (h : CronInv s) (id expression command : CronText)
    (now : Int64) : CronInv (cronAddTask s id.1 expression.1 command.1 now) := by
  unfold cronAddTask
  split_ifs with hfull hdup
  · exact h
  · exact h
  · constructor
    · intro t ht
      rcases List.mem_append.mp ht with ht | ht
      · exact h.fits t ht
      · obtain rfl := List.mem_singleton.mp ht
        exact ⟨CString.length_cut_lt (by decide) _, CString.length_cut_lt (by decide) _,
          CString.length_cut_lt (by decide) _,
          ⟨notMem_cut id.2.1 _, notMem_cut expression.2.1 _, notMem_cut command.2.1 _⟩,
          ⟨notMem_cut id.2.2 _, notMem_cut expression.2.2 _, notMem_cut command.2.2 _⟩⟩
    · simp only [CronState.saved, List.length_append, List.length_singleton]
      omega

theorem CronState.onTask_cases (s : CronState) (id : Bytes) (f : CronTask → Option CronTask) :
    (s.onTask id f = s ∧ ∀ t ∈ s.tasks, t.id ≠ id) ∨
      ∃ front t rest, s.tasks = front ++ t :: rest ∧ t.id = id ∧ (∀ t' ∈ front, t'.id ≠ id) ∧
        s.onTask id f = .saved (front ++ (f t).toList ++ rest) := by
  unfold CronState.onTask
  rw [List.span_eq_takeWhile_dropWhile]
  have hsplit := List.takeWhile_append_dropWhile (p := fun t : CronTask ↦ decide (t.id ≠ id))
    (l := s.tasks)
  have hfront : ∀ t ∈ s.tasks.takeWhile (fun t : CronTask ↦ decide (t.id ≠ id)), t.id ≠ id :=
    fun t ht ↦ by simpa using List.mem_takeWhile_imp ht
  have hhead := List.head?_dropWhile_not (fun t : CronTask ↦ decide (t.id ≠ id)) s.tasks
  split
  · rename_i heq
    simp only [Prod.mk.injEq] at heq
    rw [heq.2, List.append_nil] at hsplit
    rw [hsplit] at hfront
    exact .inl ⟨rfl, hfront⟩
  · rename_i front t rest heq
    simp only [Prod.mk.injEq] at heq
    rw [heq.1, heq.2] at hsplit
    rw [heq.1] at hfront
    rw [heq.2] at hhead
    exact .inr ⟨front, t, rest, hsplit.symm, by simpa using hhead, hfront, rfl⟩

theorem CronInv.onTask {s : CronState} (h : CronInv s) (id : Bytes)
    {f : CronTask → Option CronTask} (hf : ∀ t t', t.Fits → f t = some t' → t'.Fits) :
    CronInv (s.onTask id f) := by
  rcases s.onTask_cases id f with ⟨hsame, -⟩ | ⟨front, t, rest, hsplit, -, -, hnew⟩
  · rwa [hsame]
  · have hlen := h.length_le
    have hfits := h.fits
    rw [hsplit] at hlen hfits
    rw [hnew]
    constructor
    · intro t' ht'
      simp only [CronState.saved, List.mem_append, Option.mem_toList] at ht'
      rcases ht' with (ht' | ht') | ht'
      · exact hfits t' (by simp [ht'])
      · exact hf t t' (hfits t (by simp)) ht'
      · exact hfits t' (by simp [ht'])
    · have hone : (f t).toList.length ≤ 1 := by cases f t <;> simp
      simp only [CronState.saved, List.length_append, List.length_cons] at hlen ⊢
      omega

theorem CronTask.Fits.counted {t : CronTask} (h : t.Fits) (result : Int32) :
    (t.counted result).Fits := by
  unfold CronTask.counted
  split_ifs <;> exact h.congr rfl rfl rfl

theorem CronTask.Fits.run {t : CronTask} (h : t.Fits) (runner : CronRunner) (i : ℕ) (now : Int64) :
    (t.run runner i now).Fits := by
  cases runner with
  | cache pushed =>
      simp only [CronTask.run]
      split_ifs
      · exact h.congr rfl rfl rfl
      · exact h
  | shell result =>
      have hran : ({ t with lastRun := now, nextRun := calculateNextRun t.expression now } :
          CronTask).Fits := h.congr rfl rfl rfl
      exact hran.counted (result i)

theorem CronInv.step {s : CronState} (h : CronInv s) (ev : CronEvent) : CronInv (cronStep s ev) := by
  cases ev with
  | add id expression command now => exact h.add id expression command now
  | remove id => exact h.onTask id fun _ _ _ hnone ↦ by cases hnone
  | enable id enabled now =>
      apply h.onTask id
      rintro t t' ht ⟨⟩
      exact ht.congr rfl rfl rfl
  | runNow id result finished now =>
      apply h.onTask id
      rintro t t' ht ⟨⟩
      have hran : ({ t with lastRun := finished } : CronTask).Fits := ht.congr rfl rfl rfl
      exact (hran.counted result).congr rfl rfl rfl
  | runPending runner now =>
      constructor
      · intro t ht
        simp only [cronStep, cronRunPending, CronState.saved, List.mem_mapIdx] at ht
        obtain ⟨i, hi, rfl⟩ := ht
        split_ifs
        · exact h.fits _ (List.getElem_mem hi)
        · exact (h.fits _ (List.getElem_mem hi)).run runner i now
      · simpa [cronStep, cronRunPending, CronState.saved] using h.length_le

/-! ## Saving and loading -/

/-- What the file is to bring back. -/
def CronTask.kept (t : CronTask) : Bytes × Bytes × Bytes × Bool × Int64 × Int32 × Int32 :=
  (t.id, t.expression, t.command, t.enabled, t.lastRun, t.runCount, t.failCount)

/-- The texts are not empty and without a bar, and the line is no comment. -/
structure CronTask.Storable (t : CronTask) : Prop where
  id_ne : t.id ≠ []
  expression_ne : t.expression ≠ []
  command_ne : t.command ≠ []
  bar : (124 : UInt8) ∉ t.id ∧ (124 : UInt8) ∉ t.expression ∧ (124 : UInt8) ∉ t.command
  comment : t.id.head? ≠ some 35

theorem notMem_printInt {c : UInt8} (hc : c ≠ 45) (hdigit : Decimal.isDigit c = false) (z : ℤ) :
    c ∉ Decimal.printInt z := by
  intro h
  rcases Decimal.of_mem_printInt h with h | h
  · exact hc h
  · rw [hdigit] at h
    cases h

theorem strtok_bar {tok : Bytes} (hne : tok ≠ []) (hbar : (124 : UInt8) ∉ tok) (rest : Bytes) :
    CString.strtok [124] (tok ++ 124 :: rest) = (some tok, rest) := by
  apply CString.strtok_append hne _ (by simp)
  intro c hc h
  rw [List.mem_singleton.mp h] at hc
  exact hbar hc

theorem strtok_bar_printInt (z : ℤ) (rest : Bytes) :
    CString.strtok [124] (Decimal.printInt z ++ 124 :: rest) = (some (Decimal.printInt z), rest) :=
  strtok_bar (Decimal.printInt_ne_nil z) (notMem_printInt (by decide) (by decide) z) rest

theorem strtok_end_printInt (z : ℤ) :
    CString.strtok [124, 10] (Decimal.printInt z ++ [10]) = (some (Decimal.printInt z), []) := by
  apply CString.strtok_append (Decimal.printInt_ne_nil z) _ (by simp)
  intro c hc h
  rcases List.mem_pair.mp h with rfl | rfl
  · exact notMem_printInt (by decide) (by decide) z hc
  · exact notMem_printInt (by decide) (by decide) z hc

theorem int64_of_atol_printInt (x : Int64) :
    Int64.ofInt (Decimal.atol (Decimal.printInt x.toInt)) = x := by
  rw [Decimal.atol_printInt x.le_toInt x.toInt_lt, Int64.ofInt_toInt]

theorem int32_of_atoi_printInt (x : Int32) :
    Int32.ofInt (Decimal.atoi (Decimal.printInt x.toInt)) = x := by
  rw [Decimal.atoi_printInt x.le_toInt x.toInt_lt, Int32.ofInt_toInt]

theorem atoi_printInt_enabled (b : Bool) :
    decide (Decimal.atoi (Decimal.printInt (if b then 1 else 0)) = 1) = b := by
  cases b <;> decide

/-- The line of such a task is neither a comment nor empty. -/
theorem CronTask.Fits.line_read {t : CronTask} (hfits : t.Fits) (hne : t.id ≠ [])
    (hcomment : t.id.head? ≠ some 35) :
    ¬ ((t.line ++ [10]).head? = some 35 ∨ (t.line ++ [10]).head? = some 10) := by
  have hhead : (t.line ++ [10]).head? = t.id.head? := by
    obtain ⟨c, s, hid⟩ := List.exists_cons_of_ne_nil hne
    simp [CronTask.line, hid]
  rw [hhead]
  rintro (h35 | h10)
  · exact hcomment h35
  · exact hfits.newline.1 (List.mem_of_mem_head? h10)

theorem loadLine_line {t : CronTask} (hfits : t.Fits) (h : t.Storable) (now : Int64) :
    (loadLine now (t.line ++ [10])).map CronTask.kept = some t.kept := by
  rw [loadLine, if_neg (hfits.line_read h.id_ne h.comment)]
  simp only [CronTask.line, List.append_assoc, List.cons_append,
    strtok_bar h.id_ne h.bar.1, strtok_bar h.expression_ne h.bar.2.1,
    strtok_bar h.command_ne h.bar.2.2, strtok_bar_printInt, strtok_end_printInt,
    Option.map_some, Option.getD_some, CronTask.kept, int64_of_atol_printInt,
    int32_of_atoi_printInt, atoi_printInt_enabled, CString.cut_of_lt hfits.id_length,
    CString.cut_of_lt hfits.expression_length, CString.cut_of_lt hfits.command_length]

theorem cut_token {s tok rest : Bytes} (h : CString.strtok [124] s = (some tok, rest)) {size : ℕ}
    (hsize : 1 < size) : CString.cut size tok ≠ [] ∧ (124 : UInt8) ∉ CString.cut size tok := by
  obtain ⟨hne, hbar⟩ := CString.strtok_eq_some h
  refine ⟨?_, notMem_cut (fun hmem ↦ hbar _ hmem (by simp)) size⟩
  rw [CString.cut, Ne, List.take_eq_nil_iff, not_or]
  exact ⟨by omega, hne⟩

theorem loadLine_eq_some {now : Int64} {line : Bytes} {t : CronTask}
    (h : loadLine now line = some t) :
    line.head? ≠ some 35 ∧ (t.id ≠ [] ∧ (124 : UInt8) ∉ t.id) ∧
      (t.expression ≠ [] ∧ (124 : UInt8) ∉ t.expression) ∧
      (t.command ≠ [] ∧ (124 : UInt8) ∉ t.command) := by
  unfold loadLine at h
  split_ifs at h with hline
  refine ⟨fun h35 ↦ hline (.inl h35), ?_⟩
  rcases hid : CString.strtok [124] line with ⟨id, line₁⟩
  rcases hexpr : CString.strtok [124] line₁ with ⟨expr, line₂⟩
  rcases hcmd : CString.strtok [124] line₂ with ⟨cmd, line₃⟩
  simp only [hid, hexpr, hcmd] at h
  cases id <;> cases expr <;> cases cmd <;> simp only [reduceCtorEq, Option.some.injEq] at h
  subst h
  exact ⟨cut_token hid (by decide), cut_token hexpr (by decide), cut_token hcmd (by decide)⟩

theorem storable_of_loadLine {t : CronTask} {now : Int64}
    (h : (loadLine now (t.line ++ [10])).map CronTask.kept = some t.kept) : t.Storable := by
  obtain ⟨t', hload, hkept⟩ := Option.map_eq_some_iff.mp h
  obtain ⟨hhead, hid, hexpr, hcmd⟩ := loadLine_eq_some hload
  simp only [CronTask.kept, Prod.mk.injEq] at hkept
  obtain ⟨hid', hexpr', hcmd', -⟩ := hkept
  rw [hid'] at hid
  rw [hexpr'] at hexpr
  rw [hcmd'] at hcmd
  refine ⟨hid.1, hexpr.1, hcmd.1, ⟨hid.2, hexpr.2, hcmd.2⟩, ?_⟩
  obtain ⟨c, s, hcons⟩ := List.exists_cons_of_ne_nil hid.1
  simpa [CronTask.line, hcons] using hhead

theorem CronTask.Fits.notMem_line {t : CronTask} (h : t.Fits) :
    (0 : UInt8) ∉ t.line ∧ (10 : UInt8) ∉ t.line := by
  have h0 := notMem_printInt (c := 0) (by decide) (by decide)
  have h10 := notMem_printInt (c := 10) (by decide) (by decide)
  obtain ⟨hid, hexpr, hcmd⟩ := h.nul
  obtain ⟨hid', hexpr', hcmd'⟩ := h.newline
  constructor
  · simp [CronTask.line, hid, hexpr, hcmd, h0]
  · simp [CronTask.line, hid', hexpr', hcmd', h10]

theorem length_printInt64_le (x : Int64) : (Decimal.printInt x.toInt).length ≤ 20 := by
  have hlow := x.le_toInt
  have hhigh := x.toInt_lt
  exact Decimal.length_printInt_le (by omega) (by omega)

theorem length_printInt32_le (x : Int32) : (Decimal.printInt x.toInt).length ≤ 11 := by
  have hlow := x.le_toInt
  have hhigh := x.toInt_lt
  exact Decimal.length_printInt_le (by omega) (by omega)

theorem CronTask.Fits.length_line {t : CronTask} (h : t.Fits) :
    t.line.length + 1 < cronLineSize := by
  obtain ⟨hid, hexpr, hcmd, -, -⟩ := h
  have henabled : (Decimal.printInt (if t.enabled then 1 else 0)).length = 1 := by
    cases t.enabled <;> decide
  have hlast := length_printInt64_le t.lastRun
  have hnext := length_printInt64_le t.nextRun
  have hruns := length_printInt32_le t.runCount
  have hfails := length_printInt32_le t.failCount
  simp only [cronNameSize, cronCommandSize, cronLineSize] at *
  simp only [CronTask.line, List.length_append, List.length_cons, henabled]
  omega

theorem filterMap_cronHeader (now : Int64) :
    (cronHeader.filterMap fun line ↦ loadLine now (CString.ofBuffer (line ++ [10]))) = [] := by
  rw [List.filterMap_eq_nil_iff]
  intro line hline
  have hcomment : ∀ line ∈ cronHeader, (CString.ofBuffer (line ++ [10])).head? = some 35 := by
    decide +kernel
  rw [loadLine, if_pos (.inl (hcomment line hline))]

/-- Every task gets one line, and the lines are looked at one by one. -/
theorem loadTasksFromDisk_save {tasks : List CronTask} (hfits : ∀ t ∈ tasks, t.Fits)
    (now : Int64) :
    loadTasksFromDisk now (saveTasksToDisk tasks) =
      (tasks.filterMap fun t ↦ loadLine now (t.line ++ [10])).take maxTasks := by
  have hheader : ∀ line ∈ cronHeader, (10 : UInt8) ∉ line ∧ line.length + 1 < cronLineSize := by
    decide +kernel
  have hlines : ∀ line ∈ cronHeader ++ tasks.map CronTask.line,
      (10 : UInt8) ∉ line ∧ line.length + 1 < cronLineSize := by
    intro line hline
    rcases List.mem_append.mp hline with hline | hline
    · exact hheader line hline
    · obtain ⟨t, ht, rfl⟩ := List.mem_map.mp hline
      exact ⟨(hfits t ht).notMem_line.2, (hfits t ht).length_line⟩
  have hread := CString.fgetsLines_flatMap hlines
  have hstring : (tasks.map fun t ↦ CString.ofBuffer (t.line ++ [10])) =
      tasks.map fun t ↦ t.line ++ [10] := by
    apply List.map_congr_left
    intro t ht
    rw [CString.ofBuffer_append (hfits t ht).notMem_line.1]
    rfl
  rw [loadTasksFromDisk, saveTasksToDisk, hread]
  simp only [List.map_map, Function.comp_def, List.map_append, List.filterMap_append, hstring,
    filterMap_cronHeader, List.nil_append, List.filterMap_map]

theorem CronInv.restart_iff {s : CronState} (hinv : CronInv s) (now : Int64) :
    (cronInit (cronShutdown s) now).tasks.map CronTask.kept = s.tasks.map CronTask.kept ↔
      ∀ t ∈ s.tasks, t.Storable := by
  have hload : (cronInit (cronShutdown s) now).tasks =
      s.tasks.filterMap fun t ↦ loadLine now (t.line ++ [10]) := by
    rw [cronInit, cronShutdown, loadTasksFromDisk_save hinv.fits, List.take_of_length_le]
    exact (List.length_filterMap_le _ _).trans hinv.length_le
  rw [hload, List.map_filterMap_eq_map_iff]
  constructor
  · intro h t ht
    exact storable_of_loadLine (h t ht)
  · intro h t ht
    exact loadLine_line (hinv.fits t ht) (h t ht) now

def CronStep (s : CronState) (ev : CronEvent) (s' : CronState) : Prop := cronStep s ev = s'

theorem CronInv.run {evs : List CronEvent} {s : CronState} (hrun : Run CronStep ⟨[], []⟩ evs s) :
    CronInv s := by
  apply hrun.invariant ⟨by simp, by simp⟩
  rintro s ev _ h rfl
  exact h.step ev

/-- After any run of the scheduler a shutdown and a restart bring the same
tasks back in the same order exactly when every task can be stored. -/
theorem cron_restart_iff_storable {evs : List CronEvent} {s : CronState}
    (hrun : Run CronStep ⟨[], []⟩ evs s) (now : Int64) :
    (cronInit (cronShutdown s) now).tasks.map CronTask.kept = s.tasks.map CronTask.kept ↔
      ∀ t ∈ s.tasks, t.Storable :=
  (CronInv.run hrun).restart_iff now

def addEvent (command : String) (h : (0 : UInt8) ∉ ascii command ∧ (10 : UInt8) ∉ ascii command) :
    CronEvent :=
  .add ⟨ascii "job", by decide⟩ ⟨ascii "* * * * *", by decide⟩ ⟨ascii command, h⟩ 0

theorem cron_restart_one_task :
    ∃ s, Run CronStep ⟨[], []⟩ [addEvent "ls" (by decide)] s ∧ s.tasks.length = 1 ∧
      (cronInit (cronShutdown s) 0).tasks.map CronTask.kept = s.tasks.map CronTask.kept := by
  have hrun : Run CronStep ⟨[], []⟩ ([] ++ [addEvent "ls" (by decide)]) _ := Run.nil.snoc rfl
  refine ⟨_, hrun, rfl, (cron_restart_iff_storable hrun 0).mpr ?_⟩
  intro t ht
  obtain rfl := List.mem_singleton.mp ht
  constructor <;> decide

/-- A command with a pipe comes back cut off. -/
theorem cron_restart_loses_pipe :
    ¬ ∀ (evs : List CronEvent) (s : CronState) (now : Int64), Run CronStep ⟨[], []⟩ evs s →
      (cronInit (cronShutdown s) now).tasks.map CronTask.kept = s.tasks.map CronTask.kept := by
  intro h
  have hrun : Run CronStep ⟨[], []⟩ ([] ++ [addEvent "ps | wc" (by decide)]) _ := Run.nil.snoc rfl
  have hstorable := ((CronInv.run hrun).restart_iff 0).mp (h _ _ 0 hrun)
  exact absurd (hstorable _ (List.mem_singleton_self _)).bar (by decide)

end DoctorClaw
