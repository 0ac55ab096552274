import DoctorClaw.JobWorker

/-!
# Delivery of responses

A gateway request zeroes an `agent_sync_ctx_t` in its own stack frame, pushes
a job that carries `agent_response_cb` and the address of that context, and
waits until the context says `done`.  A worker pops a job, dispatches it and
calls the callback with the context of the job.  Cron and the Telegram
listener push jobs of their own, with no callback or with
`channel_agent_response_cb`.

Here all of them take steps in any order, for any number of requests and
workers.  An address is reused once the frame that held it is gone, so a
callback that came too late, or twice, would write into the context of
another request; the invariant below is what excludes it.
-/

namespace DoctorClaw

open Transition

/-! ## The system -/

/-- `worker_thread_fn` between two statements.  The ticket is a ghost. -/
inductive WorkerState
  | idle
  | popped (ticket : ℕ) (job : Job)
  | dispatched (ticket : ℕ) (job : Job) (result : Bytes) (err : Int32)

inductive RequestState
  | fresh
  | opened (ctx : ℕ)
  | waiting (ticket : ℕ) (ctx : ℕ)
  | woken (ticket : ℕ) (ctx : ℕ)
  | answered

structure DeliverySys (R W : Type*) where
  queue : CacheSys
  worker : W → WorkerState
  request : R → RequestState
  mem : ℕ → AgentSyncCtx

variable {R W : Type*}

def DeliverySys.start (cache : JobCache) (mem : ℕ → AgentSyncCtx) : DeliverySys R W where
  queue := .start cache
  worker := fun _ ↦ .idle
  request := fun _ ↦ .fresh
  mem := mem

def WorkerState.held : WorkerState → Option (ℕ × Job)
  | .idle => none
  | .popped ticket job => some (ticket, job)
  | .dispatched ticket job _ _ => some (ticket, job)

def RequestState.frame : RequestState → Option ℕ
  | .opened ctx => some ctx
  | .waiting _ ctx => some ctx
  | .woken _ ctx => some ctx
  | _ => none

/-- What happened, as an observer of all threads would log it.  A push names
the request it was made for, if any. -/
inductive DeliveryEvent (R W : Type*)
  | openCtx (r : R) (ctx : ℕ)
  | push (producer : Option R) (ticket : ℕ) (job : Job)
  | pop (w : W) (ticket : ℕ) (job : Job)
  | popFailed (w : W)
  | dispatch (w : W) (ticket : ℕ)
  | callback (w : W) (ticket : ℕ) (fn : ResponseFn) (ctx : ℕ) (result : Bytes) (err : Int32)
  | noCallback (w : W) (ticket : ℕ)
  | wake (r : R)
  | proceed (r : R) (buffer : Bytes)

/-- The write of a callback.  Only the gateway's callback takes its context
for an `agent_sync_ctx_t`. -/
def runCallback (mem : ℕ → AgentSyncCtx) (fn : ResponseFn) (ctx : ℕ) (result : Bytes)
    (err : Int32) : ℕ → AgentSyncCtx :=
  match fn with
  | .agentResponseCb => Function.update mem ctx (agentResponseCb result result.length err)
  | .channelAgentResponseCb => mem

def gatewayJob (prompt : Bytes) (ctx : ℕ) : Job :=
  Job.make .agentChat prompt (some .agentResponseCb) ctx

inductive DeliveryStep [DecidableEq R] [DecidableEq W] (env : AgentEnv) (pool : JobworkerPool) :
     DeliverySys R W → DeliveryEvent R W → DeliverySys R W → Prop
  | openCtx {s : DeliverySys R W} (r : R) (ctx : ℕ) (hfresh : s.request r = .fresh)
      (hfree : ∀ r', (s.request r').frame ≠ some ctx) :
      DeliveryStep env pool s (.openCtx r ctx)
        { s with
          request := Function.update s.request r (.opened ctx)
          mem := Function.update s.mem ctx ⟨[], false⟩ }
  | push {s : DeliverySys R W} (r : R) (prompt : Bytes) {ctx ticket : ℕ} {queue' : CacheSys}
      (hopened : s.request r = .opened ctx)
      (hpush : CacheStep s.queue (CacheEvent.push (C := W) (some r) ticket (gatewayJob prompt ctx))
        queue') :
      DeliveryStep env pool s (.push (some r) ticket (gatewayJob prompt ctx))
        { s with
          queue := queue'
          request := Function.update s.request r (.waiting ticket ctx) }
  | pushOther {s : DeliverySys R W} {ticket : ℕ} {job : Job} {queue' : CacheSys}
      (hcb : job.responseCb ≠ some .agentResponseCb)
      (hpush : CacheStep s.queue (CacheEvent.push (C := W) (none : Option R) ticket job) queue') :
      DeliveryStep env pool s (.push none ticket job) { s with queue := queue' }
  | pop {s : DeliverySys R W} (w : W) {ticket : ℕ} {job : Job} {queue' : CacheSys}
      (hidle : s.worker w = .idle)
      (hpop : CacheStep s.queue (CacheEvent.pop (P := Option R) w ticket job) queue') :
      DeliveryStep env pool s (.pop w ticket job)
        { s with
          queue := queue'
          worker := Function.update s.worker w (.popped ticket job) }
  | popFailed {s : DeliverySys R W} {w : W} {queue' : CacheSys} (hidle : s.worker w = .idle)
      (hpop : CacheStep s.queue (CacheEvent.popFailed (P := Option R) w) queue') :
      DeliveryStep env pool s (.popFailed w) { s with queue := queue' }
  | dispatch {s : DeliverySys R W} (w : W) (call : ℕ) {ticket : ℕ} {job : Job} {result : Bytes}
      {err : Int32} (hpopped : s.worker w = .popped ticket job)
      (hresult : dispatchJob env call job (pool.configFor job) = (result, err)) :
      DeliveryStep env pool s (.dispatch w ticket)
        { s with worker := Function.update s.worker w (.dispatched ticket job result err) }
  | callback {s : DeliverySys R W} (w : W) {ticket : ℕ} {job : Job} {fn : ResponseFn}
      {result : Bytes} {err : Int32} (hdone : s.worker w = .dispatched ticket job result err)
      (hcb : job.responseCb = some fn) :
      DeliveryStep env pool s (.callback w ticket fn job.responseCtx result err)
        { s with
          worker := Function.update s.worker w .idle
          mem := runCallback s.mem fn job.responseCtx result err }
  | noCallback {s : DeliverySys R W} {w : W} {ticket : ℕ} {job : Job} {result : Bytes}
      {err : Int32} (hdone : s.worker w = .dispatched ticket job result err)
      (hcb : job.responseCb = none) :
      DeliveryStep env pool s (.noCallback w ticket)
        { s with worker := Function.update s.worker w .idle }
  | wake {s : DeliverySys R W} (r : R) {ticket ctx : ℕ}
      (hwaiting : s.request r = .waiting ticket ctx) (hdone : (s.mem ctx).done = true) :
      DeliveryStep env pool s (.wake r)
        { s with request := Function.update s.request r (.woken ticket ctx) }
  | proceed {s : DeliverySys R W} (r : R) {ticket ctx : ℕ}
      (hwoken : s.request r = .woken ticket ctx) :
      DeliveryStep env pool s (.proceed r (s.mem ctx).buffer)
        { s with request := Function.update s.request r .answered }

namespace DeliveryEvent

def pushedEntry : DeliveryEvent R W → Option (ℕ × Option R × Job)
  | .push producer ticket job => some (ticket, producer, job)
  | _ => none

def poppedEntry : DeliveryEvent R W → Option (ℕ × Job)
  | .pop _ ticket job => some (ticket, job)
  | _ => none

def calledTicket : DeliveryEvent R W → Option ℕ
  | .callback _ ticket _ _ _ _ => some ticket
  | _ => none

end DeliveryEvent

/-! ## The queue -/

section Queue

variable (evs : List (DeliveryEvent R W)) (s : DeliverySys R W)

/-- Pushed is popped followed by queued, and the tickets count the pushes. -/
structure QueueInv : Prop where
  wf : s.queue.cache.WF
  tickets : (evs.filterMap DeliveryEvent.pushedEntry).map Prod.fst = List.range s.queue.pushes
  fifo : (evs.filterMap DeliveryEvent.pushedEntry).map (fun e ↦ (e.1, e.2.2.terminated)) =
    evs.filterMap DeliveryEvent.poppedEntry ++ s.queue.queued

variable {evs s} {s' : DeliverySys R W} {ev : DeliveryEvent R W}

theorem QueueInv.of_idle (h : QueueInv evs s) (hqueue : s'.queue = s.queue)
    (hpush : ev.pushedEntry = none) (hpop : ev.poppedEntry = none) :
    QueueInv (evs ++ [ev]) s' where
  wf := hqueue ▸ h.wf
  tickets := by simpa [hpush, hqueue] using h.tickets
  fifo := by simpa [hpush, hpop, hqueue] using h.fifo

theorem QueueInv.push (h : QueueInv evs s) {producer : Option R} {ticket : ℕ} {job : Job}
    (hpush : CacheStep s.queue (CacheEvent.push (C := W) producer ticket job) s'.queue) :
    QueueInv (evs ++ [.push producer ticket job]) s' := by
  obtain ⟨-, hwf, -, rfl, hpushes, hqueued⟩ := hpush.queued_push h.wf
  refine ⟨hwf, ?_, ?_⟩
  · rw [hpushes, List.range_succ, ← h.tickets]
    simp [DeliveryEvent.pushedEntry]
  · simp [hqueued, DeliveryEvent.pushedEntry, DeliveryEvent.poppedEntry, List.filterMap_cons,
      h.fifo]

theorem QueueInv.pop (h : QueueInv evs s) {w : W} {ticket : ℕ} {job : Job}
    (hpop : CacheStep s.queue (CacheEvent.pop (P := Option R) w ticket job) s'.queue) :
    QueueInv (evs ++ [.pop w ticket job]) s' := by
  obtain ⟨hwf, -, hpushes, hqueued⟩ := hpop.queued_pop h.wf
  refine ⟨hwf, ?_, ?_⟩
  · rw [hpushes, ← h.tickets]
    simp [DeliveryEvent.pushedEntry, List.filterMap_cons]
  · simpa [DeliveryEvent.pushedEntry, DeliveryEvent.poppedEntry, List.filterMap_cons, hqueued]
      using h.fifo

theorem QueueInv.step [DecidableEq R] [DecidableEq W] {env : AgentEnv} {pool : JobworkerPool}
    (h : QueueInv evs s) (hstep : DeliveryStep env pool s ev s') :
    QueueInv (evs ++ [ev]) s' := by
  cases hstep with
  | openCtx => exact h.of_idle rfl rfl rfl
  | push _ _ _ hpush => exact h.push hpush
  | pushOther _ hpush => exact h.push hpush
  | pop _ _ hpop => exact h.pop hpop
  | popFailed _ hpop =>
      cases hpop
      exact h.of_idle rfl rfl rfl
  | dispatch => exact h.of_idle rfl rfl rfl
  | callback => exact h.of_idle rfl rfl rfl
  | noCallback => exact h.of_idle rfl rfl rfl
  | wake => exact h.of_idle rfl rfl rfl
  | proceed => exact h.of_idle rfl rfl rfl

theorem QueueInv.push_nodup (h : QueueInv evs s) :
    ((evs.filterMap DeliveryEvent.pushedEntry).map Prod.fst).Nodup := by
  rw [h.tickets]
  exact List.nodup_range

theorem QueueInv.push_inj (h : QueueInv evs s) {p p' : Option R} {t : ℕ} {job job' : Job}
    (h₁ : .push p t job ∈ evs) (h₂ : .push p' t job' ∈ evs) : p = p' ∧ job = job' := by
  have hmem : ∀ {p job}, DeliveryEvent.push p t job ∈ evs →
      (t, p, job) ∈ evs.filterMap DeliveryEvent.pushedEntry :=
    fun hin ↦ List.mem_filterMap.mpr ⟨_, hin, rfl⟩
  have heq := List.inj_on_of_nodup_map h.push_nodup (hmem h₁) (hmem h₂) rfl
  simpa using heq

theorem QueueInv.pop_nodup (h : QueueInv evs s) :
    ((evs.filterMap DeliveryEvent.poppedEntry).map Prod.fst).Nodup := by
  have hfst := congrArg (List.map Prod.fst) h.fifo
  rw [List.map_map, List.map_append] at hfst
  have hnodup := h.push_nodup
  rw [show (evs.filterMap DeliveryEvent.pushedEntry).map Prod.fst =
    (evs.filterMap DeliveryEvent.pushedEntry).map (Prod.fst ∘ fun e ↦ (e.1, e.2.2.terminated))
    from rfl, hfst] at hnodup
  exact hnodup.of_append_left

theorem QueueInv.popped_pushed (h : QueueInv evs s) {w : W} {t : ℕ} {job : Job}
    (hpop : .pop w t job ∈ evs) : ∃ p job₀, .push p t job₀ ∈ evs ∧ job = job₀.terminated := by
  have hmem : (t, job) ∈ (evs.filterMap DeliveryEvent.pushedEntry).map
      fun e ↦ (e.1, e.2.2.terminated) := by
    rw [h.fifo]
    exact List.mem_append_left _ (List.mem_filterMap.mpr ⟨_, hpop, rfl⟩)
  obtain ⟨⟨t', p, job₀⟩, he, heq⟩ := List.mem_map.mp hmem
  obtain ⟨ev, hev, hentry⟩ := List.mem_filterMap.mp he
  cases ev <;> simp only [DeliveryEvent.pushedEntry, Option.some.injEq, reduceCtorEq,
    Prod.mk.injEq] at hentry heq
  obtain ⟨rfl, rfl, rfl⟩ := hentry
  obtain ⟨rfl, rfl⟩ := heq
  exact ⟨_, _, hev, rfl⟩

theorem QueueInv.pop_notMem {w : W} {t : ℕ} {job : Job}
    (h : QueueInv (evs ++ [.pop w t job]) s) (w' : W) (job' : Job) : .pop w' t job' ∉ evs := by
  intro hmem
  have hnodup := h.pop_nodup
  rw [List.filterMap_append, List.map_append] at hnodup
  exact (List.nodup_append.mp hnodup).2.2 t
    (List.mem_map.mpr ⟨(t, job'), List.mem_filterMap.mpr ⟨_, hmem, rfl⟩, rfl⟩) t (by
      simp [DeliveryEvent.poppedEntry]) rfl

end Queue

end DoctorClaw
