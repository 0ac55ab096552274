import DoctorClaw.Cron
import DoctorClaw.Telegram

/-!
# The daemon

`cmd_daemon` lets four kinds of threads meet at one job cache: the main loop
calls `cron_run_pending`, the poll thread pushes a job for each Telegram
message, the threads of the gateway push their requests, and the workers pop
jobs, run them and call back.

A call of `cron_run_pending` holds the mutex of the tasks from its first step
to its last, but the pushes in between wait for room, so that the other threads
go on during a tick.  A step that waits is a step that is not enabled.

The steps end when the daemon is shut down: the jobs that are still in the cache
then are dropped together with their contexts.
-/

namespace DoctorClaw

open Transition

/-! ## Jobs -/

/-- `channel_reply_ctx_t`. -/
structure ReplyTarget where
  channelIndex : ℕ
  chatId : Bytes
  deriving DecidableEq

/-- The chat that the callback names to the channel; without one the channel
sends to its default. -/
def ReplyTarget.chat (target : ReplyTarget) : Option Bytes :=
  if target.chatId = [] then none else some target.chatId

/-- The job of a task that is due. -/
def cronJob (command : Bytes) : Job := Job.make .cronRun command none 0

/-- The job of a message, with the address of its reply context. -/
def pollJob (text : Bytes) (ctx : ℕ) : Job :=
  Job.make .agentChat text (some .channelAgentResponseCb) ctx

/-- The command that `dispatch_job` gives to `system`. -/
def Job.systemCommand (job : Job) : Option Bytes :=
  if job.type = .cronRun ∧ 0 < job.payloadLen then some job.text else none

/-- The address of the reply context that the callback will free. -/
def Job.context (job : Job) : Option ℕ :=
  if job.responseCb = some .channelAgentResponseCb then some job.responseCtx else none

def maxMessageContent : ℕ := 16384

/-- What `channel_agent_response_cb` hands to the channel that it finds under
the index of its context. -/
def channelAgentResponse (channelCount : ℕ) (target : ReplyTarget) (result : Bytes)
    (error : Int32) : Option (ReplyTarget × Bytes) :=
  if channelCount ≤ target.channelIndex ∨ error ≠ 0 then none
  else some (target, CString.cut maxMessageContent result)

/-! ## Steps -/

def CronTask.due (t : CronTask) (now : Int64) : Bool := t.enabled && !decide (now < t.nextRun)

/-- The task after its push. -/
def CronTask.enqueued (t : CronTask) (now : Int64) : CronTask := t.run (.cache fun _ ↦ true) 0 now

/-- A call of `cron_run_pending` that has come to the task `next`.  The tasks
that it found are a ghost. -/
structure CronTick where
  next : ℕ
  now : Int64
  found : List CronTask

/-- `worker` is the job that a worker has popped and not finished, and
`contexts` are the reply contexts on the heap. -/
structure Daemon (W : Type*) where
  cron : CronState
  tick : Option CronTick
  cache : JobCache
  worker : W → Option Job
  contexts : ℕ → Option ReplyTarget

inductive DaemonEvent (W : Type*)
  | cron (call : CronEvent)
  | tick (now : Int64)
  | skip
  | enqueue (task : CronTask) (now : Int64)
  | ticked (found : List CronTask) (now : Int64) (tasks : List CronTask)
  | poll (ctx : ℕ) (channel : ℕ) (data : Bytes) (job : Job)
  | push (job : Job)
  | pop (w : W) (job : Job)
  | finish (w : W) (job : Job) (command : Option Bytes) (reply : Option (ReplyTarget × Bytes))

def CronEvent.IsRunPending : CronEvent → Prop
  | .runPending _ _ => True
  | _ => False

/-- What a worker needs to run a job, and the number of registered channels. -/
structure DaemonEnv where
  agent : AgentEnv
  pool : JobworkerPool
  channelCount : ℕ

namespace Daemon

variable {W : Type*}

def start (tasks : List CronTask) (cache : JobCache) : Daemon W where
  cron := .saved tasks
  tick := none
  cache := cache
  worker := fun _ ↦ none
  contexts := fun _ ↦ none

/-- What the callback of a job does: the reply, and the heap after the context
is freed. -/
def callback (env : DaemonEnv) (contexts : ℕ → Option ReplyTarget) (job : Job) (result : Bytes)
    (error : Int32) : Option (ReplyTarget × Bytes) × (ℕ → Option ReplyTarget) :=
  match job.context with
  | none => (none, contexts)
  | some ctx =>
      ((contexts ctx).bind fun target ↦ channelAgentResponse env.channelCount target result error,
        Function.update contexts ctx none)

inductive Step [DecidableEq W] (env : DaemonEnv) : Daemon W → DaemonEvent W → Daemon W → Prop
  | cron {s : Daemon W} (call : CronEvent) (hidle : s.tick = none) (hcall : ¬call.IsRunPending) :
      Step env s (.cron call) { s with cron := cronStep s.cron call }
  | tick {s : Daemon W} (now : Int64) (hidle : s.tick = none) :
      Step env s (.tick now) { s with tick := some ⟨0, now, s.cron.tasks⟩ }
  | skip {s : Daemon W} {at' : CronTick} {task : CronTask} (htick : s.tick = some at')
      (htask : s.cron.tasks[at'.next]? = some task) (hdue : task.due at'.now = false) :
      Step env s .skip { s with tick := some { at' with next := at'.next + 1 } }
  | enqueue {s : Daemon W} {at' : CronTick} {task : CronTask} {cache' : JobCache}
      (htick : s.tick = some at') (htask : s.cron.tasks[at'.next]? = some task)
      (hdue : task.due at'.now = true)
      (hpush : jobcachePush s.cache (cronJob task.command) = some cache') :
      Step env s (.enqueue task at'.now)
        { s with
          cron := ⟨s.cron.tasks.set at'.next (task.enqueued at'.now), s.cron.file⟩
          tick := some { at' with next := at'.next + 1 }
          cache := cache' }
  | ticked {s : Daemon W} {at' : CronTick} (htick : s.tick = some at')
      (hlast : s.cron.tasks.length ≤ at'.next) :
      Step env s (.ticked at'.found at'.now s.cron.tasks)
        { s with cron := .saved s.cron.tasks, tick := none }
  /- The server answers the request of a channel with `data`, whatever the buffers
  and the offset of the listener are.  `malloc` gives an address that is not in use. -/
  | poll {s : Daemon W} {listener listener' : PollState} {ctx : ℕ} {job : Job} {cache' : JobCache}
      (channel : ℕ) (data : Bytes)
      (hround : telegramPoll listener (some data) ctx = (listener', some job))
      (hfresh : s.contexts ctx = none) (hpush : jobcachePush s.cache job = some cache') :
      Step env s (.poll ctx channel data job)
        { s with
          cache := cache'
          contexts := Function.update s.contexts ctx (some ⟨channel, listener'.chatId⟩) }
  | push {s : Daemon W} {job : Job} {cache' : JobCache} (htype : job.type ≠ .cronRun)
      (hcontext : job.context = none) (hpush : jobcachePush s.cache job = some cache') :
      Step env s (.push job) { s with cache := cache' }
  | pop {s : Daemon W} {w : W} (timeoutMs : ℤ) (expired : Bool) {job : Job} {cache' : JobCache}
      (hidle : s.worker w = none)
      (hpop : jobcachePop s.cache timeoutMs expired = .taken job cache') :
      Step env s (.pop w job)
        { s with cache := cache', worker := Function.update s.worker w (some job) }
  | finish {s : Daemon W} {w : W} {job : Job} (call : ℕ) {result : Bytes} {error : Int32}
      (hheld : s.worker w = some job)
      (hresult : dispatchJob env.agent call job (env.pool.configFor job) = (result, error)) :
      Step env s (.finish w job job.systemCommand (callback env s.contexts job result error).1)
        { s with
          worker := Function.update s.worker w none
          contexts := (callback env s.contexts job result error).2 }

/-- The jobs in the cache, the oldest first. -/
def cached (s : Daemon W) : List Job := s.cache.view s.cache.slots

end Daemon

/-- What a round stores and pushes for an answer. -/
theorem telegramPoll_eq_some {s s' : PollState} {data : Bytes} {ctx : ℕ} {job : Job}
    (h : telegramPoll s (some data) ctx = (s', some job)) :
    s'.chatId = parseTelegramChatId data ∧ ∃ text, job = pollJob text ctx := by
  unfold telegramPoll telegramFetchUpdates at h
  rw [Option.bind_some] at h
  cases hstart : findMessageText data with
  | none =>
      rw [hstart] at h
      cases h
  | some start =>
      rw [hstart, Option.map_some] at h
      dsimp only at h
      split_ifs at h
      · cases (Prod.mk.inj h).2
      · obtain ⟨rfl, hjob⟩ := Prod.mk.inj h
        exact ⟨rfl, _, (Option.some.inj hjob).symm⟩

/-! ## The cache -/

theorem view_push {cache cache' : JobCache} {job : Job} (hwf : cache.WF)
    (h : jobcachePush cache job = some cache') :
    cache'.WF ∧ cache'.view cache'.slots = cache.view cache.slots ++ [job.terminated] := by
  obtain ⟨hroom, rfl⟩ := jobcachePush_eq_some h
  exact ⟨hwf.put hroom _, hwf.view_put hroom _ _ _⟩

theorem view_pop {cache cache' : JobCache} {timeoutMs : ℤ} {expired : Bool} {job : Job}
    (hwf : cache.WF) (h : jobcachePop cache timeoutMs expired = .taken job cache') :
    cache'.WF ∧ cache.view cache.slots = job :: cache'.view cache'.slots := by
  obtain ⟨hcount, rfl, rfl⟩ := jobcachePop_eq_taken h
  exact ⟨hwf.drop hcount, hwf.view_eq_cons hcount _⟩

end DoctorClaw
