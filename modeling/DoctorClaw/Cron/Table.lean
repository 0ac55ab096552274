import DoctorClaw.Cron

/-!
# The identifiers of the cron table

`cron_add_task` compares the whole identifier with those in the table and then
stores its first 63 bytes, and `cron_init` replaces the table by what it reads
from the file.  The table keeps its identifiers different and every added task
can be removed, as long as the identifiers fit and the file gives them back.
-/

namespace DoctorClaw

open Transition

/-! ## Calls and their results -/

def CronString : Type := { s : Bytes // (0 : UInt8) ∉ s }

/-- `cron_add_task` returns 0. -/
def cronAddSucceeds (s : CronState) (id : Bytes) : Bool :=
  !(decide (maxTasks ≤ s.tasks.length) || s.tasks.any fun t ↦ t.id = id)

/-- `cron_remove_task` returns 0. -/
def cronRemoveSucceeds (s : CronState) (id : Bytes) : Bool := s.tasks.any fun t ↦ t.id = id

inductive TableCall
  | init (now : Int64)
  | add (id expression command : CronString) (now : Int64)
  | remove (id : CronString)
  | enable (id : CronString) (enabled : Bool) (now : Int64)

/-- The scheduler, and the identifiers that were added and not removed. -/
structure TableRun where
  state : CronState
  live : List Bytes

def tableStep (c : TableRun) : TableCall → TableRun
  | .init now => { c with state := cronInit c.state now }
  | .add id expression command now =>
      ⟨cronAddTask c.state id.1 expression.1 command.1 now,
        if cronAddSucceeds c.state id.1 then id.1 :: c.live else c.live⟩
  | .remove id =>
      ⟨cronRemoveTask c.state id.1,
        if cronRemoveSucceeds c.state id.1 then c.live.filter fun x ↦ decide (x ≠ id.1) else c.live⟩
  | .enable id enabled now => { c with state := cronEnableTask c.state id.1 enabled now }

def TableStep (c : TableRun) (call : TableCall) (c' : TableRun) : Prop := tableStep c call = c'

/-! ## The invariant -/

def CronState.ids (s : CronState) : List Bytes := s.tasks.map CronTask.id

structure TableInv (c : TableRun) : Prop where
  length_le : c.state.tasks.length ≤ maxTasks
  nodup : c.state.ids.Nodup
  live_mem : ∀ id ∈ c.live, id ∈ c.state.ids

theorem cronRemoveSucceeds_iff (s : CronState) (id : Bytes) :
    cronRemoveSucceeds s id = true ↔ id ∈ s.ids := by
  simp [cronRemoveSucceeds, CronState.ids]

theorem cronAddSucceeds_iff (s : CronState) (id : Bytes) :
    cronAddSucceeds s id = true ↔ s.tasks.length < maxTasks ∧ id ∉ s.ids := by
  simp only [cronAddSucceeds, Bool.not_or, Bool.and_eq_true, Bool.not_eq_true',
    decide_eq_false_iff_not, not_le, CronState.ids]
  simp

theorem cronAddTask_of_not {s : CronState} {id : Bytes} (h : cronAddSucceeds s id = false)
    (expression command : Bytes) (now : Int64) : cronAddTask s id expression command now = s := by
  rw [cronAddTask]
  split_ifs with hfull hdup
  · rfl
  · rfl
  · have hadd : cronAddSucceeds s id = true := by
      rw [cronAddSucceeds, Bool.not_eq_true', Bool.or_eq_false_iff]
      exact ⟨decide_eq_false hfull, Bool.eq_false_iff.mpr hdup⟩
    rw [h] at hadd
    cases hadd

theorem cronAddTask_ids {s : CronState} {id : Bytes} (h : cronAddSucceeds s id = true)
    (expression command : Bytes) (now : Int64) :
    (cronAddTask s id expression command now).ids = s.ids ++ [CString.cut cronNameSize id] := by
  have hnot := (cronAddSucceeds_iff s id).mp h
  rw [cronAddTask, if_neg (by omega), if_neg]
  · simp [CronState.saved, CronState.ids]
  · simpa [CronState.ids] using hnot.2

theorem cronEnableTask_ids (s : CronState) (id : Bytes) (enabled : Bool) (now : Int64) :
    (cronEnableTask s id enabled now).ids = s.ids := by
  rw [cronEnableTask]
  rcases s.onTask_cases id _ with ⟨hsame, -⟩ | ⟨front, t, rest, hsplit, -, -, hnew⟩
  · rw [hsame]
  · rw [hnew, CronState.ids, CronState.ids, hsplit]
    simp [CronState.saved]

/-- A successful removal takes one task out of the table and leaves the others
as they are. -/
theorem cronRemoveTask_tasks {s : CronState} {id : Bytes} (h : cronRemoveSucceeds s id = true) :
    ∃ front t rest, s.tasks = front ++ t :: rest ∧ t.id = id ∧
      (cronRemoveTask s id).tasks = front ++ rest := by
  rw [cronRemoveTask]
  rcases s.onTask_cases id _ with ⟨-, hnone⟩ | ⟨front, t, rest, hsplit, hid, -, hnew⟩
  · obtain ⟨t, ht, hid⟩ := List.mem_map.mp ((cronRemoveSucceeds_iff s id).mp h)
    exact absurd hid (hnone t ht)
  · refine ⟨front, t, rest, hsplit, hid, ?_⟩
    rw [hnew]
    simp [CronState.saved]

theorem cronRemoveTask_of_not {s : CronState} {id : Bytes} (h : cronRemoveSucceeds s id = false) :
    cronRemoveTask s id = s := by
  rw [cronRemoveTask]
  rcases s.onTask_cases id _ with ⟨hsame, -⟩ | ⟨front, t, rest, hsplit, hid, -, -⟩
  · exact hsame
  · have hsome : cronRemoveSucceeds s id = true := by
      rw [cronRemoveSucceeds_iff, CronState.ids, hsplit]
      simp [hid]
    rw [h] at hsome
    cases hsome

theorem TableInv.add {c : TableRun} (h : TableInv c) {id : CronString}
    (hid : c.state.tasks.length < maxTasks → id.1.length < cronNameSize)
    (expression command : CronString) (now : Int64) :
    TableInv (tableStep c (.add id expression command now)) := by
  cases hadd : cronAddSucceeds c.state id.1 with
  | false =>
      rw [tableStep, hadd, cronAddTask_of_not hadd]
      exact h
  | true =>
      obtain ⟨hroom, hnew⟩ := (cronAddSucceeds_iff _ _).mp hadd
      have hids := cronAddTask_ids hadd expression.1 command.1 now
      rw [CString.cut_of_lt (hid hroom)] at hids
      rw [tableStep, hadd]
      constructor
      · have hlen := congrArg List.length hids
        simp only [CronState.ids, List.length_map, List.length_append, List.length_singleton]
          at hlen
        exact (Nat.le_of_eq hlen).trans hroom
      · simp only [hids]
        exact List.nodup_append.mpr ⟨h.nodup, List.pairwise_singleton _ _, fun x hx y hy ↦ by
          rw [List.mem_singleton.mp hy]
          exact fun hxy ↦ hnew (hxy ▸ hx)⟩
      · intro x hx
        rw [hids, List.mem_append, List.mem_singleton]
        rcases List.mem_cons.mp hx with rfl | hx
        · exact .inr rfl
        · exact .inl (h.live_mem x hx)

theorem TableInv.remove {c : TableRun} (h : TableInv c) (id : CronString) :
    TableInv (tableStep c (.remove id)) := by
  cases hremove : cronRemoveSucceeds c.state id.1 with
  | false =>
      rw [tableStep, hremove, cronRemoveTask_of_not hremove]
      exact h
  | true =>
      obtain ⟨front, t, rest, hsplit, hid, hleft⟩ := cronRemoveTask_tasks hremove
      obtain ⟨hlen, hnodup, hlive⟩ := h
      rw [CronState.ids, hsplit] at hnodup
      rw [hsplit] at hlen
      rw [tableStep, hremove]
      have hids : (cronRemoveTask c.state id.1).ids = (front ++ rest).map CronTask.id := by
        rw [CronState.ids, hleft]
      constructor
      · rw [hleft]
        simp only [List.length_append, List.length_cons] at hlen ⊢
        omega
      · rw [hids]
        exact hnodup.sublist (((List.Sublist.refl front).append (List.sublist_cons_self t rest)).map _)
      · intro x hx
        simp only [if_true, List.mem_filter, decide_eq_true_eq] at hx
        have hmem := hlive x hx.1
        rw [CronState.ids, hsplit] at hmem
        rw [hids]
        simp only [List.map_append, List.map_cons, List.mem_append, List.mem_cons] at hmem ⊢
        rcases hmem with hmem | hmem | hmem
        · exact .inl hmem
        · exact absurd (hmem.trans hid) hx.2
        · exact .inr hmem

theorem TableInv.enable {c : TableRun} (h : TableInv c) (id : CronString) (enabled : Bool)
    (now : Int64) : TableInv (tableStep c (.enable id enabled now)) := by
  have hids := cronEnableTask_ids c.state id.1 enabled now
  obtain ⟨hlen, hnodup, hlive⟩ := h
  rw [tableStep]
  constructor
  · have heq := congrArg List.length hids
    simp only [CronState.ids, List.length_map] at heq
    rwa [heq]
  · rwa [hids]
  · rwa [hids]

/-! ## Reading the file back -/

/-- The identifier of the task comes back from its line. -/
structure CronTask.Reloadable (t : CronTask) : Prop where
  fits : t.Fits
  id_ne : t.id ≠ []
  bar : (124 : UInt8) ∉ t.id
  comment : t.id.head? ≠ some 35

theorem words_bar_printInt (z : ℤ) :
    CString.words [124] (Decimal.printInt z) = [Decimal.printInt z] := by
  apply CString.words_eq_singleton (Decimal.printInt_ne_nil z)
  intro c hc hbar
  rw [List.mem_singleton.mp hbar] at hc
  exact notMem_printInt (by decide) (by decide) z hc

theorem exists_strtok_of_words {delims s : Bytes} {n : ℕ}
    (h : n + 1 ≤ (CString.words delims s).length) :
    ∃ tok rest, CString.strtok delims s = (some tok, rest) ∧
      n ≤ (CString.words delims rest).length := by
  rcases hstrtok : CString.strtok delims s with ⟨_ | tok, rest⟩
  · rw [CString.words_of_strtok_none hstrtok] at h
    simp at h
  · rw [CString.words_of_strtok_some hstrtok, List.length_cons] at h
    exact ⟨tok, rest, rfl, by omega⟩

/-- The numbers behind the texts make sure of the three fields a line needs. -/
theorem CronTask.Reloadable.loadLine_line {t : CronTask} (h : t.Reloadable) (now : Int64) :
    ∃ t', loadLine now (t.line ++ [10]) = some t' ∧ t'.id = t.id := by
  obtain ⟨rest, hrest⟩ : ∃ rest, t.line ++ [10] = t.id ++ 124 :: rest ∧
      2 ≤ (CString.words [124] rest).length := by
    refine ⟨_, by rw [CronTask.line, List.append_assoc, List.cons_append], ?_⟩
    simp only [List.append_assoc, List.cons_append, CString.words_append _ _ _
      (List.mem_singleton_self (124 : UInt8)), words_bar_printInt, List.length_append,
      List.length_cons]
    omega
  obtain ⟨expr, rest₁, hexpr, hwords⟩ := exists_strtok_of_words hrest.2
  obtain ⟨cmd, rest₂, hcmd, -⟩ := exists_strtok_of_words hwords
  have hload : (loadLine now (t.line ++ [10])).map CronTask.id =
      some (CString.cut cronNameSize t.id) := by
    rw [loadLine, if_neg (h.fits.line_read h.id_ne h.comment), hrest.1]
    simp only [strtok_bar h.id_ne h.bar, hexpr, hcmd, Option.map_some]
  rw [CString.cut_of_lt h.fits.id_length] at hload
  exact Option.map_eq_some_iff.mp hload

theorem ids_loadTasksFromDisk {tasks : List CronTask} (h : ∀ t ∈ tasks, t.Reloadable)
    (hlen : tasks.length ≤ maxTasks) (now : Int64) :
    (loadTasksFromDisk now (saveTasksToDisk tasks)).map CronTask.id = tasks.map CronTask.id := by
  rw [loadTasksFromDisk_save fun t ht ↦ (h t ht).fits,
    List.take_of_length_le ((List.length_filterMap_le _ _).trans hlen)]
  induction tasks with
  | nil => rfl
  | cons t tasks ih =>
      rw [List.forall_mem_cons] at h
      obtain ⟨t', ht', hid⟩ := h.1.loadLine_line now
      have hrest := ih h.2 (by rw [List.length_cons] at hlen; omega)
      simp only [List.filterMap_cons, ht', List.map_cons, hid, hrest]

/-! ## Runs -/

/-- The file is not there, or was written for these tasks. -/
def FileHolds (file : Bytes) (tasks : List CronTask) : Prop :=
  file = saveTasksToDisk tasks ∨ file = [] ∧ tasks = []

/-- The calls after which the table is in order.  An identifier that is stored
fits, and a file that is read gives every identifier back. -/
def TableCall.Proper (c : TableRun) : TableCall → Prop
  | .init _ => ∃ tasks, FileHolds c.state.file tasks ∧ (∀ t ∈ tasks, t.Reloadable) ∧
      (tasks.map CronTask.id).Nodup ∧ tasks.length ≤ maxTasks ∧
      ∀ id ∈ c.live, id ∈ tasks.map CronTask.id
  | .add id _ _ _ => c.state.tasks.length < maxTasks → id.1.length < cronNameSize
  | .remove _ => True
  | .enable _ _ _ => True

def ProperTableStep (c : TableRun) (call : TableCall) (c' : TableRun) : Prop :=
  call.Proper c ∧ TableStep c call c'

theorem TableInv.init {c : TableRun} {now : Int64} (h : (TableCall.init now).Proper c) :
    TableInv (tableStep c (.init now)) := by
  obtain ⟨tasks, hfile, hreload, hnodup, hlen, hlive⟩ := h
  have hids : (cronInit c.state now).ids = tasks.map CronTask.id := by
    rcases hfile with hfile | ⟨hfile, rfl⟩
    · simp only [CronState.ids, cronInit, hfile]
      exact ids_loadTasksFromDisk hreload hlen now
    · simp only [CronState.ids, cronInit, hfile]
      rfl
  rw [tableStep]
  constructor
  · have heq := congrArg List.length hids
    simp only [CronState.ids, List.length_map] at heq
    rwa [heq]
  · rwa [hids]
  · rwa [hids]

theorem TableInv.step {c c' : TableRun} {call : TableCall} (h : TableInv c)
    (hstep : ProperTableStep c call c') : TableInv c' := by
  obtain ⟨hproper, rfl⟩ := hstep
  cases call with
  | init now => exact .init hproper
  | add id expression command now => exact h.add hproper expression command now
  | remove id => exact h.remove id
  | enable id enabled now => exact h.enable id enabled now

/-- What the table promises: few tasks with different identifiers, every added
task can be removed, and a removal takes nothing else with it. -/
structure TableOk (c : TableRun) : Prop where
  length_le : c.state.tasks.length ≤ maxTasks
  different : (c.state.tasks.map CronTask.id).Nodup
  removable : ∀ id ∈ c.live, cronRemoveSucceeds c.state id = true
  removes_one : ∀ id, cronRemoveSucceeds c.state id = true →
    ∃ front t rest, c.state.tasks = front ++ t :: rest ∧ t.id = id ∧
      (cronRemoveTask c.state id).tasks = front ++ rest

theorem TableInv.ok {c : TableRun} (h : TableInv c) : TableOk c where
  length_le := h.length_le
  different := h.nodup
  removable id hid := (cronRemoveSucceeds_iff c.state id).mpr (h.live_mem id hid)
  removes_one _ hremove := cronRemoveTask_tasks hremove

/-- Whatever the file holds at the start, every run of proper calls keeps the
promise in every state. -/
theorem cron_table_ok {file : Bytes} {calls : List TableCall} {c : TableRun}
    (hrun : Run ProperTableStep ⟨⟨[], file⟩, []⟩ calls c) : TableOk c := by
  apply TableInv.ok
  apply hrun.invariant
  · exact ⟨Nat.zero_le _, List.nodup_nil, fun id hid ↦ by cases hid⟩
  · exact fun c call c' h hstep ↦ h.step hstep

def addCall (id : Bytes) (h : (0 : UInt8) ∉ id) : TableCall :=
  .add ⟨id, h⟩ ⟨ascii "* * * * *", by decide⟩ ⟨ascii "ps | wc", by decide⟩ 0

theorem reloadable_ps :
    ∀ t ∈ (tableStep ⟨⟨[], []⟩, []⟩ (addCall (ascii "job") (by decide))).state.tasks,
      t.Reloadable := by
  intro t ht
  obtain rfl := List.mem_singleton.mp ht
  refine ⟨⟨?_, ?_, ?_, ?_, ?_⟩, ?_, ?_, ?_⟩ <;> decide

/-- The task survives a restart, although its command has a bar in it. -/
theorem cron_table_ok_restart :
    ∃ c, Run ProperTableStep ⟨⟨[], []⟩, []⟩ [addCall (ascii "job") (by decide), .init 0] c ∧
      c.live = [ascii "job"] ∧ cronRemoveSucceeds c.state (ascii "job") = true := by
  have hadd : Run ProperTableStep ⟨⟨[], []⟩, []⟩ ([] ++ [addCall (ascii "job") (by decide)]) _ :=
    Run.nil.snoc ⟨fun _ ↦ show (ascii "job").length < cronNameSize by decide, rfl⟩
  have hproper : (TableCall.init 0).Proper
      (tableStep ⟨⟨[], []⟩, []⟩ (addCall (ascii "job") (by decide))) :=
    ⟨_, .inl rfl, reloadable_ps, List.pairwise_singleton _ _, by decide,
      fun id hid ↦ List.mem_singleton.mpr (List.mem_singleton.mp hid)⟩
  have hrun := hadd.snoc ⟨hproper, rfl⟩
  exact ⟨_, hrun, rfl, (cron_table_ok hrun).removable _ List.mem_cons_self⟩

/-- An identifier of 64 bytes is stored without its last byte and cannot be
removed again. -/
theorem cron_table_loses_long_id :
    ¬ ∀ (file : Bytes) (calls : List TableCall) (c : TableRun),
      Run TableStep ⟨⟨[], file⟩, []⟩ calls c → TableOk c := by
  intro h
  have hrun : Run TableStep ⟨⟨[], []⟩, []⟩
      ([] ++ [addCall (List.replicate 64 97) (by decide)]) _ := Run.nil.snoc rfl
  have hremove := (h _ _ _ hrun).removable (List.replicate 64 97) List.mem_cons_self
  exact absurd hremove (by decide)

end DoctorClaw
