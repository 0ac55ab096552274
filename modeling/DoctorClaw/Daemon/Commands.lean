import DoctorClaw.Daemon

/-!
# The commands that cron enqueues

Whatever the other threads do during a tick, the tick pushes the command of
each due task once, and the workers take the commands in that order.
-/

namespace DoctorClaw

open Transition

variable {W : Type*}

/-! ## One task after the other -/

/-- The task after the tick has come past it. -/
def CronTask.afterTick (now : Int64) (t : CronTask) : CronTask :=
  if t.due now then t.enqueued now else t

theorem ite_not_due {α : Type*} (enabled late : Bool) (a b : α) :
    (if enabled && !late then a else b) = if !enabled || late then b else a := by
  cases enabled <;> cases late <;> rfl

theorem cronRunPending_tasks (s : CronState) (now : Int64) :
    (cronRunPending s (.cache fun _ ↦ true) now).tasks = s.tasks.map (CronTask.afterTick now) := by
  change s.tasks.mapIdx _ = _
  apply List.ext_getElem
  · rw [List.length_mapIdx, List.length_map]
  · intro i hi hi'
    rw [List.getElem_mapIdx, List.getElem_map, CronTask.afterTick, CronTask.due, CronTask.enqueued,
      ite_not_due]
    rfl

section Progress

variable {α : Type*} {f : α → α} {l : List α} {i : ℕ} {a : α}

/-- A list of which the first `i` elements have been changed. -/
def changedTo (f : α → α) (i : ℕ) (l : List α) : List α := (l.take i).map f ++ l.drop i

theorem getElem?_changedTo (hi : (changedTo f i l)[i]? = some a) : l[i]? = some a := by
  unfold changedTo at hi
  by_cases hlen : i < l.length
  · have hfront : ((l.take i).map f).length = i := by simp [hlen.le]
    rw [List.getElem?_append_right hfront.le, hfront, Nat.sub_self, List.getElem?_drop] at hi
    exact hi
  · rw [List.drop_eq_nil_of_le (not_lt.mp hlen), List.append_nil, List.getElem?_eq_none] at hi
    · cases hi
    · simp

theorem set_changedTo (hi : l[i]? = some a) :
    (changedTo f i l).set i (f a) = changedTo f (i + 1) l := by
  obtain ⟨hlen, rfl⟩ := List.getElem?_eq_some_iff.mp hi
  have hfront : ((l.take i).map f).length = i := by simp [hlen.le]
  unfold changedTo
  rw [List.set_append_right _ _ hfront.le, hfront, Nat.sub_self, List.drop_eq_getElem_cons hlen,
    List.set_cons_zero, ← List.take_concat_get' l i hlen, List.map_append, List.map_singleton,
    List.append_assoc, List.singleton_append]

theorem changedTo_succ (hi : l[i]? = some a) (hfix : f a = a) :
    changedTo f (i + 1) l = changedTo f i l := by
  obtain ⟨hlen, rfl⟩ := List.getElem?_eq_some_iff.mp hi
  unfold changedTo
  rw [← List.take_concat_get' l i hlen, List.map_append, List.map_singleton, hfix,
    List.append_assoc, List.singleton_append, ← List.drop_eq_getElem_cons hlen]

theorem changedTo_of_le (h : l.length ≤ i) : changedTo f i l = l.map f := by
  rw [changedTo, List.take_of_length_le h, List.drop_eq_nil_of_le h, List.append_nil]

theorem length_changedTo : (changedTo f i l).length = l.length := by
  simp [changedTo]
  omega

end Progress

/-! ## What the threads did -/

/-- An empty command is pushed, and skipped by `dispatch_job`. -/
def nonempty (command : Bytes) : Option Bytes := if command = [] then none else some command

namespace DaemonEvent

def enqueuedCommand : DaemonEvent W → Option Bytes
  | .enqueue task _ => nonempty task.command
  | _ => none

def poppedCommand : DaemonEvent W → Option Bytes
  | .pop _ job => job.systemCommand
  | _ => none

def poppedBy [DecidableEq W] (w : W) : DaemonEvent W → Option Job
  | .pop w' job => if w' = w then some job else none
  | _ => none

def finishedBy [DecidableEq W] (w : W) : DaemonEvent W → Option Job
  | .finish w' job _ _ => if w' = w then some job else none
  | _ => none

end DaemonEvent

/-- The tasks pushed since the last tick began. -/
def sinceTick (evs : List (DaemonEvent W)) : List CronTask :=
  evs.foldl (fun pushed ev ↦ match ev with
    | .tick _ => []
    | .enqueue task _ => pushed ++ [task]
    | _ => pushed) []

/-- A tick that is over has done what `cron_run_pending` does alone when every
push succeeds, and has pushed the tasks that were due. -/
def TickComplete (pre : List (DaemonEvent W)) : DaemonEvent W → Prop
  | .ticked found now tasks =>
      tasks = (cronRunPending (.saved found) (.cache fun _ ↦ true) now).tasks ∧
        sinceTick pre = found.filter fun task ↦ task.due now
  | _ => True

/-- The part of the cron tasks in the state of the daemon. -/
structure CommandsInv (evs : List (DaemonEvent W)) (s : Daemon W) : Prop where
  wf : s.cache.WF
  tasks : CronInv s.cron
  queue : evs.filterMap DaemonEvent.enqueuedCommand =
    evs.filterMap DaemonEvent.poppedCommand ++ s.cached.filterMap Job.systemCommand
  tick : ∀ at' ∈ s.tick,
    s.cron.tasks = changedTo (CronTask.afterTick at'.now) at'.next at'.found ∧
      sinceTick evs = (at'.found.take at'.next).filter fun task ↦ task.due at'.now

section Steps

variable {evs : List (DaemonEvent W)} {s s' : Daemon W} {ev : DaemonEvent W}

theorem systemCommand_cronJob {task : CronTask} (h : task.Fits) :
    (cronJob task.command).terminated.systemCommand = nonempty task.command := by
  have hlen : task.command.length < jobPayloadLen := h.command_length.trans (by decide)
  have hpayload : (cronJob task.command).payloadLen = task.command.length :=
    Nat.min_eq_left (by omega)
  rw [cronJob, Job.terminated_make hlen, ← cronJob, Job.systemCommand, hpayload, cronJob,
    Job.text_make h.nul.2.2 hlen]
  simp [nonempty, Job.make, List.length_pos_iff]

theorem systemCommand_terminated_of_ne {job : Job} (h : job.type ≠ .cronRun) :
    job.terminated.systemCommand = none := by
  have htype : job.terminated.type = job.type := by
    unfold Job.terminated
    split_ifs <;> rfl
  exact if_neg fun hcron ↦ h (htype ▸ hcron.1)

theorem filterMap_snoc {α β : Type*} {f : α → Option β} (l : List α) (a : α) :
    (l ++ [a]).filterMap f = l.filterMap f ++ (f a).toList := by
  rw [List.filterMap_append, List.filterMap_cons, List.filterMap_nil]
  cases f a <;> rfl

theorem sinceTick_snoc (evs : List (DaemonEvent W)) (ev : DaemonEvent W) :
    sinceTick (evs ++ [ev]) = match ev with
      | .tick _ => []
      | .enqueue task _ => sinceTick evs ++ [task]
      | _ => sinceTick evs := by
  rw [sinceTick, List.foldl_append]
  cases ev <;> rfl

/-- A step of another thread than the main loop changes the cache only. -/
theorem CommandsInv.other (h : CommandsInv evs s) (hwf : s'.cache.WF) (hcron : s'.cron = s.cron)
    (htick : s'.tick = s.tick) (hsince : sinceTick (evs ++ [ev]) = sinceTick evs)
    (hqueue : s.cached.filterMap Job.systemCommand ++ ev.enqueuedCommand.toList =
      ev.poppedCommand.toList ++ s'.cached.filterMap Job.systemCommand) :
    CommandsInv (evs ++ [ev]) s' where
  wf := hwf
  tasks := hcron ▸ h.tasks
  queue := by
    rw [filterMap_snoc, filterMap_snoc, h.queue, List.append_assoc, hqueue, List.append_assoc]
  tick := by
    rw [hsince, htick, hcron]
    exact h.tick

theorem CronTask.Fits.enqueued {t : CronTask} (h : t.Fits) (now : Int64) : (t.enqueued now).Fits :=
  h.run _ _ _

/-- The main loop has come past a task. -/
theorem CommandsInv.next (h : CommandsInv evs s) {at' : CronTick} {task : CronTask}
    (htick : s.tick = some at') (htask : s.cron.tasks[at'.next]? = some task) :
    at'.found[at'.next]? = some task ∧
      (at'.found.take (at'.next + 1)).filter (fun t ↦ t.due at'.now) =
        sinceTick evs ++ if task.due at'.now then [task] else [] := by
  obtain ⟨htasks, hsince⟩ := h.tick at' htick
  rw [htasks] at htask
  have hfound := getElem?_changedTo htask
  obtain ⟨hlen, hget⟩ := List.getElem?_eq_some_iff.mp hfound
  refine ⟨hfound, ?_⟩
  rw [← List.take_concat_get' _ _ hlen, hget, List.filter_append, hsince, List.filter_singleton,
    Bool.cond_eq_ite]

theorem CommandsInv.skip (h : CommandsInv evs s) {at' : CronTick} {task : CronTask}
    (htick : s.tick = some at') (htask : s.cron.tasks[at'.next]? = some task)
    (hdue : task.due at'.now = false) :
    CommandsInv (evs ++ [.skip]) { s with tick := some { at' with next := at'.next + 1 } } where
  wf := h.wf
  tasks := h.tasks
  queue := by
    rw [filterMap_snoc, filterMap_snoc, h.queue]
    simp [DaemonEvent.enqueuedCommand, DaemonEvent.poppedCommand, Daemon.cached]
  tick := by
    rintro _ ⟨⟩
    obtain ⟨hfound, hfilter⟩ := h.next htick htask
    obtain ⟨htasks, -⟩ := h.tick at' htick
    refine ⟨?_, ?_⟩
    · rw [changedTo_succ hfound (by rw [CronTask.afterTick, hdue]; rfl)]
      exact htasks
    · rw [sinceTick_snoc, hfilter, hdue]
      exact (List.append_nil _).symm

theorem CommandsInv.enqueue (h : CommandsInv evs s) {at' : CronTick} {task : CronTask}
    {cache' : JobCache} (htick : s.tick = some at') (htask : s.cron.tasks[at'.next]? = some task)
    (hdue : task.due at'.now = true)
    (hpush : jobcachePush s.cache (cronJob task.command) = some cache') :
    CommandsInv (evs ++ [.enqueue task at'.now])
      { s with
        cron := ⟨s.cron.tasks.set at'.next (task.enqueued at'.now), s.cron.file⟩
        tick := some { at' with next := at'.next + 1 }
        cache := cache' } where
  wf := (view_push h.wf hpush).1
  tasks := by
    refine ⟨fun t ht ↦ ?_, ?_⟩
    · rcases List.mem_or_eq_of_mem_set ht with ht | rfl
      · exact h.tasks.fits t ht
      · exact (h.tasks.fits task (List.mem_of_getElem? htask)).enqueued at'.now
    · rw [List.length_set]
      exact h.tasks.length_le
  queue := by
    have hfits := h.tasks.fits task (List.mem_of_getElem? htask)
    rw [filterMap_snoc, filterMap_snoc, h.queue, List.append_assoc, List.append_assoc]
    congr 1
    change _ = (cache'.view cache'.slots).filterMap _
    rw [(view_push h.wf hpush).2, filterMap_snoc, systemCommand_cronJob hfits]
    rfl
  tick := by
    rintro _ ⟨⟩
    obtain ⟨hfound, hfilter⟩ := h.next htick htask
    obtain ⟨htasks, -⟩ := h.tick at' htick
    have hafter : task.afterTick at'.now = task.enqueued at'.now := if_pos hdue
    refine ⟨?_, ?_⟩
    · change s.cron.tasks.set _ _ = _
      rw [htasks, ← hafter, set_changedTo hfound]
    · rw [sinceTick_snoc, hfilter, if_pos hdue]

theorem CommandsInv.ticked (h : CommandsInv evs s) {at' : CronTick} (htick : s.tick = some at')
    (hlast : s.cron.tasks.length ≤ at'.next) :
    TickComplete evs (.ticked at'.found at'.now s.cron.tasks) := by
  obtain ⟨htasks, hsince⟩ := h.tick at' htick
  have hlen : at'.found.length ≤ at'.next := by rwa [htasks, length_changedTo] at hlast
  refine ⟨?_, ?_⟩
  · rw [cronRunPending_tasks, htasks, changedTo_of_le hlen]
    rfl
  · rw [hsince, List.take_of_length_le hlen]

end Steps

/-! ## Every run -/

section Runs

variable [DecidableEq W] {env : DaemonEnv} {evs : List (DaemonEvent W)} {s s' : Daemon W}
  {ev : DaemonEvent W}

theorem CommandsInv.step (h : CommandsInv evs s) (hstep : Daemon.Step env s ev s') :
    CommandsInv (evs ++ [ev]) s' := by
  cases hstep with
  | cron call hidle hcall =>
      refine ⟨h.wf, h.tasks.step call, ?_, ?_⟩
      · rw [filterMap_snoc, filterMap_snoc, h.queue]
        simp [DaemonEvent.enqueuedCommand, DaemonEvent.poppedCommand, Daemon.cached]
      · intro at' hat
        rw [hidle] at hat
        cases hat
  | tick now hidle =>
      refine ⟨h.wf, h.tasks, ?_, ?_⟩
      · rw [filterMap_snoc, filterMap_snoc, h.queue]
        simp [DaemonEvent.enqueuedCommand, DaemonEvent.poppedCommand, Daemon.cached]
      · rintro _ ⟨⟩
        rw [sinceTick_snoc]
        exact ⟨rfl, rfl⟩
  | skip htick htask hdue => exact h.skip htick htask hdue
  | enqueue htick htask hdue hpush => exact h.enqueue htick htask hdue hpush
  | ticked htick hlast =>
      refine ⟨h.wf, ⟨h.tasks.fits, h.tasks.length_le⟩, ?_, fun _ hnone ↦ by cases hnone⟩
      rw [filterMap_snoc, filterMap_snoc, h.queue]
      simp [DaemonEvent.enqueuedCommand, DaemonEvent.poppedCommand, Daemon.cached]
  | poll channel data hround hfresh hpush =>
      obtain ⟨-, text, rfl⟩ := telegramPoll_eq_some hround
      obtain ⟨hwf, hview⟩ := view_push h.wf hpush
      refine h.other hwf rfl rfl (sinceTick_snoc _ _) ?_
      rw [Daemon.cached, Daemon.cached, hview, filterMap_snoc,
        systemCommand_terminated_of_ne fun htype ↦ by cases htype]
      rfl
  | push htype hcontext hpush =>
      obtain ⟨hwf, hview⟩ := view_push h.wf hpush
      refine h.other hwf rfl rfl (sinceTick_snoc _ _) ?_
      rw [Daemon.cached, Daemon.cached, hview, filterMap_snoc,
        systemCommand_terminated_of_ne htype]
      rfl
  | @pop w timeoutMs expired job cache' hidle hpop =>
      obtain ⟨hwf, hview⟩ := view_pop h.wf hpop
      refine h.other hwf rfl rfl (sinceTick_snoc _ _) ?_
      rw [Daemon.cached, Daemon.cached, hview, ← List.singleton_append, List.filterMap_append,
        ← List.nil_append [job], filterMap_snoc]
      exact List.append_nil _
  | finish call hheld hresult =>
      exact h.other h.wf rfl rfl (sinceTick_snoc _ _) (List.append_nil _)

/-- A worker finishes the jobs that it popped, one after the other. -/
def WorkersInOrder (evs : List (DaemonEvent W)) (s : Daemon W) : Prop :=
  ∀ w, evs.filterMap (DaemonEvent.poppedBy w) =
    evs.filterMap (DaemonEvent.finishedBy w) ++ (s.worker w).toList

theorem WorkersInOrder.idle (h : WorkersInOrder evs s) (hpopped : ∀ w, ev.poppedBy w = none)
    (hfinished : ∀ w, ev.finishedBy w = none) (hworker : s'.worker = s.worker) :
    WorkersInOrder (evs ++ [ev]) s' := by
  intro w
  rw [filterMap_snoc, filterMap_snoc, hpopped, hfinished, hworker, Option.toList_none,
    List.append_nil, List.append_nil, h w]

theorem WorkersInOrder.step (h : WorkersInOrder evs s) (hstep : Daemon.Step env s ev s') :
    WorkersInOrder (evs ++ [ev]) s' := by
  cases hstep with
  | @pop w' _ _ job _ hidle _ =>
      intro w
      rw [filterMap_snoc, filterMap_snoc, h w]
      by_cases hw : w' = w
      · subst hw
        simp [DaemonEvent.poppedBy, DaemonEvent.finishedBy, hidle]
      · simp [DaemonEvent.poppedBy, DaemonEvent.finishedBy, hw, Function.update_of_ne (Ne.symm hw)]
  | @finish w' job _ _ _ hheld _ =>
      intro w
      rw [filterMap_snoc, filterMap_snoc, h w]
      by_cases hw : w' = w
      · subst hw
        simp [DaemonEvent.poppedBy, DaemonEvent.finishedBy, hheld]
      · simp [DaemonEvent.poppedBy, DaemonEvent.finishedBy, hw, Function.update_of_ne (Ne.symm hw)]
  | cron => exact h.idle (fun _ ↦ rfl) (fun _ ↦ rfl) rfl
  | tick => exact h.idle (fun _ ↦ rfl) (fun _ ↦ rfl) rfl
  | skip => exact h.idle (fun _ ↦ rfl) (fun _ ↦ rfl) rfl
  | enqueue => exact h.idle (fun _ ↦ rfl) (fun _ ↦ rfl) rfl
  | ticked => exact h.idle (fun _ ↦ rfl) (fun _ ↦ rfl) rfl
  | poll => exact h.idle (fun _ ↦ rfl) (fun _ ↦ rfl) rfl
  | push => exact h.idle (fun _ ↦ rfl) (fun _ ↦ rfl) rfl

/-- A command that is run was run by the worker that popped its job. -/
def RunsItsCommand : DaemonEvent W → Prop
  | .finish _ job command _ => command = job.systemCommand
  | _ => True

/-- What holds of every run so far. -/
structure DaemonOrder (evs : List (DaemonEvent W)) (s : Daemon W) : Prop where
  commands : CommandsInv evs s
  workers : WorkersInOrder evs s
  ticks : ∀ pre ev post, evs = pre ++ ev :: post → TickComplete pre ev
  runs : ∀ ev ∈ evs, RunsItsCommand ev

theorem DaemonOrder.step (h : DaemonOrder evs s) (hstep : Daemon.Step env s ev s') :
    DaemonOrder (evs ++ [ev]) s' where
  commands := h.commands.step hstep
  workers := h.workers.step hstep
  ticks := by
    intro pre e post heq
    rcases List.eq_nil_or_concat post with rfl | ⟨post, last, rfl⟩
    · obtain ⟨rfl, hev⟩ := List.append_inj' heq rfl
      obtain rfl : ev = e := by simpa using hev
      cases hstep with
      | ticked htick hlast => exact h.commands.ticked htick hlast
      | _ => trivial
    · rw [List.concat_eq_append, ← List.cons_append, ← List.append_assoc] at heq
      exact h.ticks pre e post (List.append_inj' heq rfl).1
  runs := by
    intro e he
    rcases List.mem_append.mp he with he | he
    · exact h.runs e he
    · obtain rfl := List.mem_singleton.mp he
      cases hstep with
      | finish => exact rfl
      | _ => trivial

/-- Under every interleaving of the main loop with the poll thread, the gateway
and the workers, a tick that is over has pushed the tasks that were due, once
each and in the order of the table, and left the tasks as `cron_run_pending`
would have left them alone.  The workers pop the commands in the order in which
they were pushed, none is lost, and each worker runs the jobs that it popped,
one after the other. -/
theorem cron_commands_run_in_order (env : DaemonEnv) (tasks : List CronTask)
    (hfits : ∀ t ∈ tasks, t.Fits) (hlen : tasks.length ≤ maxTasks) (slots : ℕ → Job)
    (capacity : ℕ) (hcap : 1 ≤ capacity) (evs : List (DaemonEvent W)) (s : Daemon W)
    (hrun : Run (Daemon.Step env) (Daemon.start tasks ⟨slots, capacity, 0, 0, 0⟩) evs s) :
    evs.filterMap DaemonEvent.enqueuedCommand =
        evs.filterMap DaemonEvent.poppedCommand ++ s.cached.filterMap Job.systemCommand ∧
      WorkersInOrder evs s ∧ (∀ pre ev post, evs = pre ++ ev :: post → TickComplete pre ev) ∧
      ∀ ev ∈ evs, RunsItsCommand ev := by
  have hstart : DaemonOrder ([] : List (DaemonEvent W))
      (Daemon.start tasks ⟨slots, capacity, 0, 0, 0⟩) := by
    refine ⟨⟨⟨Nat.zero_le _, hcap, (Nat.zero_mod _).symm⟩, ⟨hfits, hlen⟩, rfl, ?_⟩, fun _ ↦ rfl,
      ?_, ?_⟩
    · exact fun _ hnone ↦ by cases hnone
    · exact fun pre ev post hnil ↦ by simp at hnil
    · exact fun ev hev ↦ by cases hev
  have h := hrun.invariant_trace hstart fun _ _ _ _ _ hI hstep ↦ hI.step hstep
  exact ⟨h.commands.queue, h.workers, h.ticks, h.runs⟩

/-- A task that was never run. -/
def dateTask : CronTask := ⟨ascii "a", ascii "* * * * *", ascii "date", true, 0, 0, 0, 0⟩

def quietEnv : DaemonEnv where
  agent := ⟨fun _ _ ↦ 0, fun _ _ _ ↦ (0, []), fun _ _ _ ↦ (0, []), fun _ _ ↦ 0⟩
  pool := ⟨none, ⟨[], false⟩⟩
  channelCount := 1

def dateEvents : List (DaemonEvent Unit) :=
  [.tick 60, .enqueue dateTask 60, .pop () (cronJob (ascii "date")).terminated]

theorem dateTask_fits : dateTask.Fits := by
  constructor <;> decide +kernel

theorem cron_commands_run_in_order_one_task :
    ∃ s : Daemon Unit,
      dateEvents.filterMap DaemonEvent.enqueuedCommand =
          dateEvents.filterMap DaemonEvent.poppedCommand ++ s.cached.filterMap Job.systemCommand ∧
        WorkersInOrder dateEvents s ∧
        (∀ pre ev post, dateEvents = pre ++ ev :: post → TickComplete pre ev) ∧
        ∀ ev ∈ dateEvents, RunsItsCommand ev := by
  obtain ⟨s, hrun⟩ : ∃ s, Run (Daemon.Step quietEnv)
      (Daemon.start [dateTask] ⟨fun _ ↦ cronJob [], 256, 0, 0, 0⟩) dateEvents s := by
    have hstart : Run (Daemon.Step quietEnv)
        (Daemon.start [dateTask] ⟨fun _ ↦ cronJob [], 256, 0, 0, 0⟩) []
        (Daemon.start (W := Unit) [dateTask] ⟨fun _ ↦ cronJob [], 256, 0, 0, 0⟩) := .nil
    have htick := hstart.snoc (.tick 60 rfl)
    have henqueue := htick.snoc (.enqueue rfl rfl rfl rfl)
    exact ⟨_, henqueue.snoc (.pop (-1) false rfl rfl)⟩
  exact ⟨s, cron_commands_run_in_order quietEnv [dateTask] (by simpa using dateTask_fits) (by decide)
    _ 256 (by decide) dateEvents s hrun⟩

end Runs

end DoctorClaw
