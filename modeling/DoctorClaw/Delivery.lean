import DoctorClaw.Delivery.Requests

/-!
# Responses are delivered

The invariants of the queue, the workers and the requests hold after every
run; together they say that each callback runs at most once and that a request
goes on with the result of its own job.
-/

namespace DoctorClaw

open Transition

variable {R W : Type*}

section Runs

variable [DecidableEq R] [DecidableEq W] {env : AgentEnv} {pool : JobworkerPool}
  {slots : ℕ → Job} {capacity : ℕ} {mem : ℕ → AgentSyncCtx} {evs : List (DeliveryEvent R W)}
  {s : DeliverySys R W}

structure DeliveryInv (env : AgentEnv) (pool : JobworkerPool) (evs : List (DeliveryEvent R W))
    (s : DeliverySys R W) : Prop where
  queue : QueueInv evs s
  worker : WorkerInv env pool evs s
  request : RequestInv env pool evs s

omit [DecidableEq R] [DecidableEq W] in
theorem DeliveryInv.start (env : AgentEnv) (pool : JobworkerPool) (slots : ℕ → Job)
    (hcap : 1 ≤ capacity) (mem : ℕ → AgentSyncCtx) :
    DeliveryInv (R := R) (W := W) env pool [] (.start ⟨slots, capacity, 0, 0, 0⟩ mem) where
  queue := ⟨(CacheSys.Represents.start slots hcap).wf, rfl, rfl⟩
  worker := by
    constructor <;> simp [DeliverySys.start, WorkerState.held, Called]
  request := by
    constructor <;> simp [DeliverySys.start, FramesDisjoint, RequestState.frame, RequestOk]

theorem DeliveryInv.run (hcap : 1 ≤ capacity)
    (hrun : Run (DeliveryStep env pool) (.start ⟨slots, capacity, 0, 0, 0⟩ mem) evs s) :
    DeliveryInv env pool evs s := by
  apply hrun.invariant_trace (DeliveryInv.start env pool slots hcap mem)
  intro evs s ev s' _ h hstep
  have hqueue := h.queue.step hstep
  exact ⟨hqueue, h.worker.step hqueue hstep, h.request.step h.queue h.worker hstep⟩

end Runs

/-- Responses are never misdelivered, whatever the interleaving of requests,
workers and other producers.  The callback of a job runs at most once, after
the job was popped, with the context pushed along with it and the result
computed from it; and a request goes on only with the result of the one job it
pushed, cut to 16383 bytes, or with `error=` and the code. -/
theorem responses_are_delivered [DecidableEq R] [DecidableEq W] (env : AgentEnv)
    (pool : JobworkerPool) (slots : ℕ → Job) (capacity : ℕ) (hcap : 1 ≤ capacity)
    (mem : ℕ → AgentSyncCtx) :
    ∃ cache, jobcacheCreate true (fun _ ↦ some slots) capacity = some cache ∧
      ∀ (evs : List (DeliveryEvent R W)) (s : DeliverySys R W),
        Run (DeliveryStep env pool) (.start cache mem) evs s →
        ((evs.filterMap DeliveryEvent.pushedEntry).map Prod.fst).Nodup ∧
        (evs.filterMap DeliveryEvent.calledTicket).Nodup ∧
        (∀ pre w t fn ctx result err post,
          evs = pre ++ DeliveryEvent.callback w t fn ctx result err :: post →
          ∃ p job call, .push p t job ∈ pre ∧ .pop w t job.terminated ∈ pre ∧
            job.responseCb = some fn ∧ job.responseCtx = ctx ∧
            dispatchJob env call job.terminated (pool.configFor job.terminated) =
              (result, err)) ∧
        (∀ pre r buffer post, evs = pre ++ DeliveryEvent.proceed r buffer :: post →
          ∃ w t job call result err, .push (some r) t job ∈ pre ∧
            (∀ t' job', .push (some r) t' job' ∈ pre → t' = t) ∧
            .callback w t .agentResponseCb job.responseCtx result err ∈ pre ∧
            dispatchJob env call job.terminated (pool.configFor job.terminated) =
              (result, err) ∧
            buffer = (if err ≠ 0 ∧ result = [] then ascii "error=" ++ Decimal.printInt err.toInt
              else result.take 16383) ∧
            buffer.length ≤ 16383) := by
  refine ⟨⟨slots, capacity, 0, 0, 0⟩, if_neg (by simp; omega), fun evs s hrun ↦ ?_⟩
  have hinv := DeliveryInv.run hcap hrun
  refine ⟨hinv.queue.push_nodup, hinv.worker.called_nodup, ?_, ?_⟩
  · rintro pre w t fn ctx result err post rfl
    obtain ⟨s₁, s₂, hpre, hlast⟩ := hrun.fired
    have h := DeliveryInv.run hcap hpre
    cases hlast with
    | @callback _ _ job _ _ _ hdone hcb =>
        have hpop := h.worker.held_popped w t job (by rw [hdone]; rfl)
        obtain ⟨call, hresult⟩ := h.worker.result_eq w t job result err hdone
        obtain ⟨p, job₀, hpush, rfl⟩ := h.queue.popped_pushed hpop
        exact ⟨p, job₀, call, hpush, hpop, by simpa using hcb, by simp, hresult⟩
  · rintro pre r buffer post rfl
    obtain ⟨s₁, s₂, hpre, hlast⟩ := hrun.fired
    have h := DeliveryInv.run hcap hpre
    cases hlast with
    | @proceed _ t ctx hwoken =>
        have hok := h.request.ok r
        rw [hwoken] at hok
        obtain ⟨job, hown, -, w, call, result, err, hcallback, hresult, hcell⟩ := hok
        have hnul : (0 : UInt8) ∉ result := by
          have hdispatch := zero_notMem_dispatchJob env call job.terminated
            (pool.configFor job.terminated)
          rwa [hresult] at hdispatch
        refine ⟨w, t, job, call, result, err, hown.1, hown.2, hcallback, hresult, ?_, ?_⟩
        · rw [hcell]
          exact agentResponseCb_buffer hnul err
        · rw [hcell]
          exact length_agentResponseCb_le hnul err

def greetingEnv : AgentEnv where
  agentInit := fun _ _ ↦ 0
  agentChat := fun _ _ _ ↦ (0, ascii "hi")
  agentRunTask := fun _ _ _ ↦ (0, ascii "hi")
  system := fun _ _ ↦ 0

theorem responses_are_delivered_one_request :
    1 ≤ 1 ∧ ∃ (evs : List (DeliveryEvent Unit Unit)) (s : DeliverySys Unit Unit),
      Run (DeliveryStep greetingEnv ⟨none, ⟨[], false⟩⟩)
        (.start ⟨fun _ ↦ pingJob, 1, 0, 0, 0⟩ fun _ ↦ ⟨[], true⟩) evs s ∧
      .proceed () (ascii "hi") ∈ evs ∧ (evs.filterMap DeliveryEvent.calledTicket).Nodup := by
  obtain ⟨cache, hcreate, hall⟩ := responses_are_delivered (R := Unit) (W := Unit) greetingEnv
    ⟨none, ⟨[], false⟩⟩ (fun _ ↦ pingJob) 1 le_rfl fun _ ↦ ⟨[], true⟩
  obtain rfl : (⟨fun _ ↦ pingJob, 1, 0, 0, 0⟩ : JobCache) = cache := Option.some.inj hcreate
  have hopen : Run (DeliveryStep greetingEnv ⟨none, ⟨[], false⟩⟩)
      (DeliverySys.start (R := Unit) (W := Unit) ⟨fun _ ↦ pingJob, 1, 0, 0, 0⟩
        fun _ ↦ ⟨[], true⟩) _ _ := Run.nil.snoc (.openCtx () 7 rfl (by rintro r' ⟨⟩))
  have hpush := hopen.snoc (.push () (ascii "hello") rfl (.push _ _ rfl))
  have hpop := hpush.snoc (.pop () rfl (.pop _ 0 false rfl))
  have hdispatch := hpop.snoc (.dispatch () 0 rfl rfl)
  have hcallback := hdispatch.snoc (.callback () rfl rfl)
  have hwake := hcallback.snoc (.wake () rfl rfl)
  have hrun := hwake.snoc (.proceed () rfl)
  refine ⟨le_rfl, _, _, hrun, List.mem_append_right _ (List.mem_singleton.mpr ?_),
    (hall _ _ hrun).2.1⟩
  rfl

end DoctorClaw
