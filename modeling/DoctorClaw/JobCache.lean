import DoctorClaw.Lib.CString
import DoctorClaw.Lib.RingBuffer
import Mathlib.Data.List.Nodup

/-!
# The shared job cache

`jobcache.c` keeps the jobs of all producers in one ring of slots guarded by
one mutex.  Each call holds the mutex from its first look at `count` to its
last write, so a call is one atomic step; the waits on the two condition
variables are the states in which a call is not enabled.

The steps of all producers and consumers together refine a bounded
first-in first-out queue, as long as the size of the slots in bytes does not
wrap around when the cache is created.
-/

namespace DoctorClaw

open Transition

/-! ## Jobs -/

/-- `job_type_t`; `other` stands for every value that is not an enumerator. -/
inductive JobType
  | agentChat
  | cronRun
  | webhook
  | ping
  | other
  deriving DecidableEq

inductive ResponseFn
  | agentResponseCb
  | channelAgentResponseCb
  deriving DecidableEq

def jobInstanceIdLen : ℕ := 64

def jobPayloadLen : ℕ := 8192

/-- `job_t`.  The context is a raw address and `none` is the null callback. -/
structure Job where
  type : JobType
  instanceId : Vector UInt8 jobInstanceIdLen
  payload : Vector UInt8 jobPayloadLen
  payloadLen : ℕ
  responseCb : Option ResponseFn
  responseCtx : ℕ

/-- The copy of a job that ends up in its slot: the byte after the payload is
overwritten with NUL when the payload leaves room for it. -/
def Job.terminated (job : Job) : Job :=
  if h : job.payloadLen < jobPayloadLen then
    { job with payload := job.payload.set job.payloadLen 0 h }
  else job

@[simp]
theorem Job.terminated_responseCb (job : Job) : job.terminated.responseCb = job.responseCb := by
  unfold Job.terminated
  split_ifs <;> rfl

@[simp]
theorem Job.terminated_responseCtx (job : Job) :
    job.terminated.responseCtx = job.responseCtx := by
  unfold Job.terminated
  split_ifs <;> rfl

/-- The zeroed job that every producer fills: instance `default`, and the text
cut so that a terminating NUL fits behind it. -/
def Job.make (type : JobType) (text : Bytes) (responseCb : Option ResponseFn)
    (responseCtx : ℕ) : Job where
  type := type
  instanceId := Vector.ofFn fun i ↦ (ascii "default").getD i 0
  payload := Vector.ofFn fun i ↦ (text.take (jobPayloadLen - 1)).getD i 0
  payloadLen := min text.length (jobPayloadLen - 1)
  responseCb := responseCb
  responseCtx := responseCtx

def Job.text (job : Job) : Bytes := CString.ofBuffer job.payload.toList

theorem Job.text_make {text : Bytes} (hnul : (0 : UInt8) ∉ text)
    (hlen : text.length < jobPayloadLen) (type : JobType) (responseCb : Option ResponseFn)
    (responseCtx : ℕ) :
    (Job.make type text responseCb responseCtx).text = text := by
  have hpayload : (Job.make type text responseCb responseCtx).payload.toList =
      text ++ List.replicate (jobPayloadLen - text.length) 0 := by
    apply List.ext_getElem
    · simp only [Vector.length_toList, List.length_append, List.length_replicate]
      omega
    · intro i hi hi'
      simp only [Job.make, Vector.getElem_toList, Vector.getElem_ofFn,
        List.take_of_length_le (show text.length ≤ jobPayloadLen - 1 by omega)]
      rw [List.getElem_append, List.getD_eq_getElem?_getD]
      split_ifs with hlt
      · simp [hlt]
      · simp [List.getElem?_eq_none (not_lt.mp hlt)]
  obtain ⟨k, hk⟩ : ∃ k, jobPayloadLen - text.length = k + 1 := ⟨_, (Nat.succ_pred_eq_of_pos
    (by omega)).symm⟩
  rw [Job.text, hpayload, hk, List.replicate_succ, CString.ofBuffer_append_zero hnul]

theorem Job.terminated_make {text : Bytes} (hlen : text.length < jobPayloadLen) (type : JobType)
    (responseCb : Option ResponseFn) (responseCtx : ℕ) :
    (Job.make type text responseCb responseCtx).terminated =
      Job.make type text responseCb responseCtx := by
  have hpayload : (Job.make type text responseCb responseCtx).payloadLen = text.length := by
    simp only [Job.make]
    omega
  have hset : (Job.make type text responseCb responseCtx).payload.set text.length 0 hlen =
      (Job.make type text responseCb responseCtx).payload := by
    ext i hi
    rw [Vector.getElem_set]
    split_ifs with heq
    · subst heq
      simp [Job.make]
    · rfl
  unfold Job.terminated
  simp only [hpayload, hlen, dif_pos, hset]
  rw [← hpayload]

/-! ## Operations -/

/-- `struct jobcache`, without the mutex and the condition variables. -/
abbrev JobCache := RingBuffer Job

/-- `sizeof (job_t)`, with four bytes of padding behind the payload. -/
def jobSize : ℕ := 8288

/-- What `malloc` is asked for, a `size_t`. -/
def slotBytes (maxSize : ℕ) : ℕ := jobSize * maxSize % 2 ^ 64

/-- `header` says whether there was memory for the cache itself, and `malloc`
gives the slots for a number of bytes, with any first content. -/
def jobcacheCreate (header : Bool) (malloc : ℕ → Option (ℕ → Job)) (maxSize : ℕ) :
    Option JobCache :=
  if maxSize = 0 ∨ header = false then none
  else (malloc (slotBytes maxSize)).map fun slots ↦
    { slots, capacity := maxSize, head := 0, tail := 0, count := 0 }

/-- `none` is the wait on `cond_not_full`. -/
def jobcachePush (cache : JobCache) (job : Job) : Option JobCache :=
  if cache.capacity ≤ cache.count then none
  else some
    { cache with
      slots := Function.update cache.slots cache.tail job.terminated
      tail := (cache.tail + 1) % cache.capacity
      count := cache.count + 1 }

inductive PopResult
  | wait
  | failed
  | taken (out : Job) (cache : JobCache)

def jobcacheTake (cache : JobCache) : PopResult :=
  .taken (cache.slots cache.head)
    { cache with
      head := (cache.head + 1) % cache.capacity
      count := cache.count - 1 }

/-- `expired` says that this call was waiting with a timeout and that
`pthread_cond_timedwait` came back with an error.  The call then fails without
looking at `count` again. -/
def jobcachePop (cache : JobCache) (timeoutMs : ℤ) (expired : Bool) : PopResult :=
  if timeoutMs < 0 then
    if cache.count = 0 then .wait else jobcacheTake cache
  else if 0 < timeoutMs then
    if expired then .failed
    else if cache.count = 0 then .wait
    else jobcacheTake cache
  else
    if cache.count = 0 then .failed else jobcacheTake cache

def jobcacheDepth (cache : JobCache) : ℕ := cache.count

/-! ## One call -/

theorem jobcachePush_eq_some {cache cache' : JobCache} {job : Job}
    (h : jobcachePush cache job = some cache') :
    cache.count < cache.capacity ∧ cache' = cache.put job.terminated := by
  unfold jobcachePush at h
  split at h
  · cases h
  · rename_i hroom
    exact ⟨by omega, (Option.some.inj h).symm⟩

theorem jobcachePop_eq_taken {cache cache' : JobCache} {timeoutMs : ℤ} {expired : Bool}
    {out : Job} (h : jobcachePop cache timeoutMs expired = .taken out cache') :
    0 < cache.count ∧ out = cache.slots cache.head ∧ cache' = cache.drop := by
  have htake : 0 < cache.count ∧ jobcacheTake cache = .taken out cache' := by
    unfold jobcachePop at h
    split_ifs at h with h₁ h₂ h₃ h₄ h₅ h₆
    · exact ⟨by omega, h⟩
    · exact ⟨by omega, h⟩
    · exact ⟨by omega, h⟩
  obtain ⟨hcount, heq⟩ := htake
  simp only [jobcacheTake, PopResult.taken.injEq] at heq
  exact ⟨hcount, heq.1.symm, heq.2.symm⟩

/-! ## Every interleaving of calls -/

/-- The cache together with two ghost variables: the number of pushes so far
and, for each slot, the number of the push that wrote it last. -/
structure CacheSys where
  cache : JobCache
  origin : ℕ → ℕ
  pushes : ℕ

def CacheSys.start (cache : JobCache) : CacheSys := ⟨cache, fun _ ↦ 0, 0⟩

/-- An atomic call with its caller and what it returned.  A ticket is the
number of the push that stored the job. -/
inductive CacheEvent (P C : Type*)
  | push (producer : P) (ticket : ℕ) (job : Job)
  | pop (consumer : C) (ticket : ℕ) (out : Job)
  | popFailed (consumer : C)
  | depth (reader : P ⊕ C) (n : ℕ)

variable {P C : Type*}

inductive CacheStep : CacheSys → CacheEvent P C → CacheSys → Prop
  | push {s : CacheSys} (producer : P) (job : Job) {cache' : JobCache}
      (h : jobcachePush s.cache job = some cache') :
      CacheStep s (.push producer s.pushes job)
        { cache := cache'
          origin := Function.update s.origin s.cache.tail s.pushes
          pushes := s.pushes + 1 }
  | pop {s : CacheSys} (consumer : C) (timeoutMs : ℤ) (expired : Bool) {out : Job}
      {cache' : JobCache} (h : jobcachePop s.cache timeoutMs expired = .taken out cache') :
      CacheStep s (.pop consumer (s.origin s.cache.head) out) { s with cache := cache' }
  | popFailed {s : CacheSys} (consumer : C) (timeoutMs : ℤ) (expired : Bool)
      (h : jobcachePop s.cache timeoutMs expired = .failed) :
      CacheStep s (.popFailed consumer) s
  | depth {s : CacheSys} (reader : P ⊕ C) :
      CacheStep s (.depth reader (jobcacheDepth s.cache)) s

namespace CacheEvent

def pushedJob : CacheEvent P C → Option Job
  | .push _ _ job => some job
  | _ => none

def poppedJob : CacheEvent P C → Option Job
  | .pop _ _ out => some out
  | _ => none

def poppedTicket : CacheEvent P C → Option ℕ
  | .pop _ ticket _ => some ticket
  | _ => none

def poppedEntry : CacheEvent P C → Option (ℕ × Job)
  | .pop _ ticket out => some (ticket, out)
  | _ => none

def abstract : CacheEvent P C → BoundedQueue.Event (ℕ × Job)
  | .push _ ticket job => .push (ticket, job.terminated)
  | .pop _ ticket out => .pop (ticket, out)
  | _ => .idle

theorem popped_abstract (evs : List (CacheEvent P C)) :
    (evs.map abstract).filterMap BoundedQueue.popped = evs.filterMap poppedEntry := by
  rw [List.filterMap_map]
  congr 1
  funext ev
  cases ev <;> rfl

theorem filterMap_poppedJob (evs : List (CacheEvent P C)) :
    evs.filterMap poppedJob = (evs.filterMap poppedEntry).map Prod.snd := by
  rw [List.map_filterMap]
  congr 1
  funext ev
  cases ev <;> rfl

theorem filterMap_poppedTicket (evs : List (CacheEvent P C)) :
    evs.filterMap poppedTicket = (evs.filterMap poppedEntry).map Prod.fst := by
  rw [List.map_filterMap]
  congr 1
  funext ev
  cases ev <;> rfl

end CacheEvent

def CacheSys.queued (s : CacheSys) : List (ℕ × Job) :=
  s.cache.view fun k ↦ (s.origin k, s.cache.slots k)

/-- The coupling between the ring and the abstract queue. -/
structure CacheSys.Represents (capacity : ℕ) (s : CacheSys) (q : List (ℕ × Job)) : Prop where
  wf : s.cache.WF
  capacity_eq : s.cache.capacity = capacity
  queued_eq : s.queued = q

theorem CacheSys.Represents.start (slots : ℕ → Job) {capacity : ℕ} (hcap : 1 ≤ capacity) :
    (CacheSys.start ⟨slots, capacity, 0, 0, 0⟩).Represents capacity [] where
  wf := ⟨Nat.zero_le _, hcap, (Nat.zero_mod _).symm⟩
  capacity_eq := rfl
  queued_eq := rfl

theorem CacheStep.queued_push {s s' : CacheSys} {producer : P} {ticket : ℕ} {job : Job}
    (hwf : s.cache.WF) (h : CacheStep (C := C) s (.push producer ticket job) s') :
    s.cache.count < s.cache.capacity ∧ s'.cache.WF ∧ s'.cache.capacity = s.cache.capacity ∧
      ticket = s.pushes ∧ s'.pushes = s.pushes + 1 ∧
      s'.queued = s.queued ++ [(ticket, job.terminated)] := by
  cases h with
  | push _ _ h =>
      obtain ⟨hroom, rfl⟩ := jobcachePush_eq_some h
      refine ⟨hroom, hwf.put hroom _, rfl, rfl, rfl, ?_⟩
      rw [CacheSys.queued, CacheSys.queued, ← hwf.view_put hroom job.terminated]
      congr 1
      funext k
      by_cases hk : k = s.cache.tail
      · subst hk
        simp [RingBuffer.put]
      · simp [RingBuffer.put, hk]

theorem CacheStep.queued_pop {s s' : CacheSys} {consumer : C} {ticket : ℕ} {out : Job}
    (hwf : s.cache.WF) (h : CacheStep (P := P) s (.pop consumer ticket out) s') :
    s'.cache.WF ∧ s'.cache.capacity = s.cache.capacity ∧ s'.pushes = s.pushes ∧
      s.queued = (ticket, out) :: s'.queued := by
  cases h with
  | pop _ _ _ h =>
      obtain ⟨hcount, rfl, rfl⟩ := jobcachePop_eq_taken h
      exact ⟨hwf.drop hcount, rfl, rfl,
        hwf.view_eq_cons hcount fun k ↦ (s.origin k, s.cache.slots k)⟩

theorem CacheStep.represents {capacity : ℕ} {s s' : CacheSys} {ev : CacheEvent P C}
    {q : List (ℕ × Job)} (hR : s.Represents capacity q) (hstep : CacheStep s ev s') :
    ∃ q', BoundedQueue.Step capacity q ev.abstract q' ∧ s'.Represents capacity q' := by
  obtain ⟨hwf, hcap, rfl⟩ := hR
  cases ev with
  | push producer ticket job =>
      obtain ⟨hroom, hwf', hcap', -, -, hqueued⟩ := hstep.queued_push hwf
      refine ⟨s'.queued, ?_, hwf', hcap'.trans hcap, rfl⟩
      rw [hqueued]
      apply BoundedQueue.Step.push
      rw [CacheSys.queued, RingBuffer.length_view, ← hcap]
      exact hroom
  | pop consumer ticket out =>
      obtain ⟨hwf', hcap', -, hqueued⟩ := hstep.queued_pop hwf
      refine ⟨s'.queued, ?_, hwf', hcap'.trans hcap, rfl⟩
      rw [hqueued]
      exact .pop
  | popFailed consumer =>
      cases hstep
      exact ⟨s.queued, .idle, hwf, hcap, rfl⟩
  | depth reader n =>
      cases hstep
      exact ⟨s.queued, .idle, hwf, hcap, rfl⟩

section Runs

variable {slots : ℕ → Job} {capacity : ℕ} {evs : List (CacheEvent P C)} {s : CacheSys}

theorem CacheSys.run_refines (hcap : 1 ≤ capacity)
    (hrun : Run CacheStep (CacheSys.start ⟨slots, capacity, 0, 0, 0⟩) evs s) :
    s.Represents capacity s.queued ∧
      Run (BoundedQueue.Step capacity) [] (evs.map CacheEvent.abstract) s.queued := by
  obtain ⟨q, hq, hR⟩ := hrun.simulation CacheEvent.abstract
    (CacheSys.Represents.start slots hcap) fun _ _ _ _ hR h ↦ h.represents hR
  obtain rfl := hR.queued_eq
  exact ⟨hR, hq⟩

theorem CacheSys.run_pushed
    (hrun : Run CacheStep (CacheSys.start ⟨slots, capacity, 0, 0, 0⟩) evs s) :
    (evs.map CacheEvent.abstract).filterMap BoundedQueue.pushed =
        (List.range s.pushes).zip ((evs.filterMap CacheEvent.pushedJob).map Job.terminated) ∧
      (evs.filterMap CacheEvent.pushedJob).length = s.pushes := by
  induction hrun with
  | nil => exact ⟨rfl, rfl⟩
  | snoc _ hlast ih =>
      obtain ⟨hlog, hlen⟩ := ih
      cases hlast with
      | push =>
          refine ⟨?_, by simp [CacheEvent.pushedJob, hlen]⟩
          simp only [List.map_append, List.filterMap_append, hlog, CacheEvent.pushedJob,
            List.filterMap_cons, List.filterMap_nil, List.map_cons, List.map_nil,
            CacheEvent.abstract, BoundedQueue.pushed, List.range_succ]
          rw [List.zip_append (by simp [hlen])]
          rfl
      | pop => simpa [CacheEvent.pushedJob, CacheEvent.abstract, BoundedQueue.pushed,
          List.filterMap_cons] using And.intro hlog hlen
      | popFailed => simpa [CacheEvent.pushedJob, CacheEvent.abstract, BoundedQueue.pushed,
          List.filterMap_cons] using And.intro hlog hlen
      | depth => simpa [CacheEvent.pushedJob, CacheEvent.abstract, BoundedQueue.pushed,
          List.filterMap_cons] using And.intro hlog hlen

def pushLog (evs : List (CacheEvent P C)) : List (ℕ × Job) :=
  let jobs := (evs.filterMap CacheEvent.pushedJob).map Job.terminated
  (List.range jobs.length).zip jobs

theorem map_snd_pushLog (evs : List (CacheEvent P C)) :
    (pushLog evs).map Prod.snd = (evs.filterMap CacheEvent.pushedJob).map Job.terminated :=
  List.map_snd_zip (by simp)

theorem map_fst_pushLog (evs : List (CacheEvent P C)) :
    (pushLog evs).map Prod.fst = List.range (evs.filterMap CacheEvent.pushedJob).length := by
  rw [pushLog, List.map_fst_zip (by simp), List.length_map]

theorem getElem?_of_mem_pushLog {evs : List (CacheEvent P C)} {ticket : ℕ} {job : Job}
    (h : (ticket, job) ∈ pushLog evs) :
    ((evs.filterMap CacheEvent.pushedJob)[ticket]?).map Job.terminated = some job := by
  obtain ⟨i, hi⟩ := List.mem_iff_getElem?.mp h
  rw [pushLog, List.getElem?_zip_eq_some] at hi
  obtain ⟨hticket, hjob⟩ := hi
  obtain ⟨_, hi⟩ := List.getElem?_eq_some_iff.mp hticket
  obtain rfl : i = ticket := by simpa using hi
  rwa [List.getElem?_map] at hjob

theorem CacheSys.pushLog_eq (hcap : 1 ≤ capacity)
    (hrun : Run CacheStep (CacheSys.start ⟨slots, capacity, 0, 0, 0⟩) evs s) :
    pushLog evs = evs.filterMap CacheEvent.poppedEntry ++ s.queued := by
  have hfifo := BoundedQueue.pushes_eq_pops_append (CacheSys.run_refines hcap hrun).2
  obtain ⟨hlog, hlen⟩ := CacheSys.run_pushed hrun
  rw [hlog, CacheEvent.popped_abstract] at hfifo
  rw [← hfifo, pushLog, List.length_map, hlen]

theorem CacheSys.getElem?_pushed
    (hrun : Run CacheStep (CacheSys.start ⟨slots, capacity, 0, 0, 0⟩) evs s) {producer : P}
    {ticket : ℕ} {job : Job} (h : .push producer ticket job ∈ evs) :
    (evs.filterMap CacheEvent.pushedJob)[ticket]? = some job := by
  induction hrun with
  | nil => simp at h
  | snoc hbefore hlast ih =>
      rw [List.filterMap_append]
      rcases List.mem_append.mp h with h | h
      · have hold := ih h
        rwa [List.getElem?_append_left (List.getElem?_eq_some_iff.mp hold).1]
      · obtain rfl := List.mem_singleton.mp h
        obtain ⟨-, hlen⟩ := CacheSys.run_pushed hbefore
        cases hlast
        rw [← hlen, List.getElem?_append_right le_rfl, Nat.sub_self]
        rfl

/-- A job is taken out as it was put in. -/
theorem CacheSys.popped_eq (hcap : 1 ≤ capacity)
    (hrun : Run CacheStep (CacheSys.start ⟨slots, capacity, 0, 0, 0⟩) evs s) {producer : P}
    {consumer : C} {ticket : ℕ} {job out : Job} (hpush : .push producer ticket job ∈ evs)
    (hpop : .pop consumer ticket out ∈ evs) : out = job.terminated := by
  have hentry : (ticket, out) ∈ pushLog evs := by
    rw [CacheSys.pushLog_eq hcap hrun]
    exact List.mem_append_left _ (List.mem_filterMap.mpr ⟨_, hpop, rfl⟩)
  have hjob := getElem?_of_mem_pushLog hentry
  rw [CacheSys.getElem?_pushed hrun hpush] at hjob
  exact (Option.some.inj hjob).symm

theorem CacheSys.depth_add_pops (hcap : 1 ≤ capacity)
    (hrun : Run CacheStep (CacheSys.start ⟨slots, capacity, 0, 0, 0⟩) evs s) :
    jobcacheDepth s.cache + (evs.filterMap CacheEvent.poppedJob).length =
      (evs.filterMap CacheEvent.pushedJob).length := by
  have hlen := congrArg List.length (CacheSys.pushLog_eq hcap hrun)
  rw [List.length_append, CacheSys.queued, RingBuffer.length_view] at hlen
  have hpush : (pushLog evs).length = (evs.filterMap CacheEvent.pushedJob).length := by
    simp [pushLog]
  rw [CacheEvent.filterMap_poppedJob, List.length_map, jobcacheDepth]
  omega

end Runs

/-- What the job cache is for: its indices stay on the ring, pops return the
stored pushes in order, no push is handed out twice, and the depth is the
number of pushes not yet popped. -/
structure RefinesFifo (capacity : ℕ) (evs : List (CacheEvent P C)) (s : CacheSys) : Prop where
  indices : s.cache.count ≤ capacity ∧ s.cache.head < capacity ∧ s.cache.tail < capacity ∧
    s.cache.tail = (s.cache.head + s.cache.count) % capacity
  queue : Run (BoundedQueue.Step capacity) [] (evs.map CacheEvent.abstract) s.queued
  popped : evs.filterMap CacheEvent.poppedJob <+:
    (evs.filterMap CacheEvent.pushedJob).map Job.terminated
  once : (evs.filterMap CacheEvent.poppedTicket).Nodup
  unchanged : ∀ consumer ticket out, CacheEvent.pop consumer ticket out ∈ evs →
    ((evs.filterMap CacheEvent.pushedJob)[ticket]?).map Job.terminated = some out
  depth : ∀ pre reader n post, evs = pre ++ CacheEvent.depth reader n :: post →
    n + (pre.filterMap CacheEvent.poppedJob).length =
      (pre.filterMap CacheEvent.pushedJob).length

theorem CacheSys.refinesFifo {slots : ℕ → Job} {capacity : ℕ} {evs : List (CacheEvent P C)}
    {s : CacheSys} (hcap : 1 ≤ capacity)
    (hrun : Run CacheStep (CacheSys.start ⟨slots, capacity, 0, 0, 0⟩) evs s) :
    RefinesFifo capacity evs s := by
  obtain ⟨hR, hqueue⟩ := CacheSys.run_refines hcap hrun
  have hwf := hR.wf
  have hpops : evs.filterMap CacheEvent.poppedEntry <+: pushLog evs :=
    ⟨s.queued, (CacheSys.pushLog_eq hcap hrun).symm⟩
  refine ⟨?_, hqueue, ?_, ?_, ?_, ?_⟩
  · rw [← hR.capacity_eq]
    exact ⟨hwf.count_le, hwf.head_lt, hwf.tail_lt, hwf.tail_eq⟩
  · rw [CacheEvent.filterMap_poppedJob, ← map_snd_pushLog]
    exact hpops.map Prod.snd
  · have htickets := hpops.map Prod.fst
    rw [map_fst_pushLog] at htickets
    rw [CacheEvent.filterMap_poppedTicket]
    exact List.nodup_range.sublist htickets.sublist
  · intro consumer ticket out hmem
    have hentry : (ticket, out) ∈ evs.filterMap CacheEvent.poppedEntry :=
      List.mem_filterMap.mpr ⟨_, hmem, rfl⟩
    exact getElem?_of_mem_pushLog (hpops.subset hentry)
  · rintro pre reader n post rfl
    obtain ⟨t, t', hpre, hlast⟩ := hrun.fired
    cases hlast
    exact CacheSys.depth_add_pops hcap hpre

/-! ## The memory of the slots -/

/-- The slot that a call reads or writes is inside an array of so many bytes. -/
def CacheSys.Inside (bytes : ℕ) (s : CacheSys) : CacheEvent P C → Prop
  | .push _ _ _ => jobSize * (s.cache.tail + 1) ≤ bytes
  | .pop _ _ _ => jobSize * (s.cache.head + 1) ≤ bytes
  | _ => True

/-- A call on slots of so many bytes.  One that leaves them has no defined
result: anything may be seen afterwards. -/
inductive MemoryStep (bytes : ℕ) : CacheSys → CacheEvent P C → CacheSys → Prop
  | inside {s s' : CacheSys} {ev : CacheEvent P C} (h : CacheStep s ev s')
      (hinside : s.Inside bytes ev) : MemoryStep bytes s ev s'
  | outside {s s' : CacheSys} {ev : CacheEvent P C} (h : CacheStep s ev s')
      (houtside : ¬ s.Inside bytes ev) (seen : CacheEvent P C) (after : CacheSys) :
      MemoryStep bytes s seen after

section Memory

variable {slots : ℕ → Job} {capacity : ℕ} {evs : List (CacheEvent P C)} {s : CacheSys}

theorem jobcacheCreate_eq_some {header : Bool} {malloc : ℕ → Option (ℕ → Job)} {cache : JobCache}
    (h : jobcacheCreate header malloc capacity = some cache) :
    1 ≤ capacity ∧ ∃ slots, cache = ⟨slots, capacity, 0, 0, 0⟩ := by
  unfold jobcacheCreate at h
  split_ifs at h with hnone
  obtain ⟨slots, -, rfl⟩ := Option.map_eq_some_iff.mp h
  rw [not_or] at hnone
  exact ⟨Nat.one_le_iff_ne_zero.mpr hnone.1, slots, rfl⟩

/-- Without a wrap-around all slots are there, and no call leaves them. -/
theorem MemoryStep.run_inside (hcap : 1 ≤ capacity) (hsize : jobSize * capacity < 2 ^ 64)
    (hrun : Run (MemoryStep (slotBytes capacity)) (CacheSys.start ⟨slots, capacity, 0, 0, 0⟩)
      evs s) :
    Run CacheStep (CacheSys.start ⟨slots, capacity, 0, 0, 0⟩) evs s := by
  have hbytes : slotBytes capacity = jobSize * capacity := Nat.mod_eq_of_lt hsize
  induction hrun with
  | nil => exact .nil
  | @snoc evs s ev s' _ hlast ih =>
      obtain ⟨hR, -⟩ := CacheSys.run_refines hcap ih
      have htail := hR.wf.tail_lt
      have hhead := hR.wf.head_lt
      rw [hR.capacity_eq] at htail hhead
      have hall (ev : CacheEvent P C) : s.Inside (slotBytes capacity) ev := by
        rw [hbytes]
        cases ev with
        | push => exact Nat.mul_le_mul_left _ htail
        | pop => exact Nat.mul_le_mul_left _ hhead
        | popFailed => trivial
        | depth => trivial
      cases hlast with
      | inside h _ => exact ih.snoc h
      | outside _ houtside _ _ => exact absurd (hall _) houtside

/-- Pushes fill the slots that are there. -/
theorem MemoryStep.exists_pushes (producer : P) (job : Job) {bytes k : ℕ} (hk : k < capacity)
    (hfits : jobSize * k ≤ bytes) :
    ∃ (evs : List (CacheEvent P C)) (s : CacheSys),
      Run (MemoryStep bytes) (CacheSys.start ⟨slots, capacity, 0, 0, 0⟩) evs s ∧
        s.cache.capacity = capacity ∧ s.cache.tail = k ∧ s.cache.count = k := by
  induction k with
  | zero => exact ⟨[], _, .nil, rfl, rfl, rfl⟩
  | succ k ih =>
      obtain ⟨evs, s, hrun, hcapacity, htail, hcount⟩ :=
        ih (by omega) ((Nat.mul_le_mul_left _ (Nat.le_succ k)).trans hfits)
      have hpush : jobcachePush s.cache job = some _ := if_neg (by omega)
      refine ⟨_, _, hrun.snoc (.inside (.push producer job hpush) ?_), hcapacity, ?_, ?_⟩
      · rw [CacheSys.Inside, htail]
        exact hfits
      · dsimp only
        rw [htail, hcapacity, Nat.mod_eq_of_lt hk]
      · exact congrArg (· + 1) hcount

/-- With a wrap-around some push in a run leaves the slots. -/
theorem MemoryStep.not_refinesFifo (producer : P) (hsize : ¬ jobSize * capacity < 2 ^ 64) :
    ∃ (evs : List (CacheEvent P C)) (s : CacheSys),
      Run (MemoryStep (slotBytes capacity)) (CacheSys.start ⟨slots, capacity, 0, 0, 0⟩) evs s ∧
        ¬ RefinesFifo capacity evs s := by
  have hwrap : slotBytes capacity < jobSize * capacity :=
    (Nat.mod_lt _ (by decide)).trans_le (not_lt.mp hsize)
  obtain ⟨evs, s, hrun, hcapacity, htail, hcount⟩ :=
    @MemoryStep.exists_pushes P C slots capacity producer (slots 0) _ _
      (Nat.div_lt_of_lt_mul hwrap) (Nat.mul_div_le (slotBytes capacity) jobSize)
  have hroom := Nat.div_lt_of_lt_mul hwrap
  have hpush : jobcachePush s.cache (slots 0) = some _ := if_neg (by omega)
  have houtside : ¬ s.Inside (slotBytes capacity)
      (.push producer s.pushes (slots 0) : CacheEvent P C) := by
    rw [CacheSys.Inside, htail, not_le]
    exact Nat.lt_mul_div_succ _ (by decide)
  obtain ⟨broken, hfull⟩ : ∃ s : CacheSys, capacity < s.cache.count :=
    ⟨.start ⟨slots, capacity, 0, 0, capacity + 1⟩, Nat.lt_succ_self _⟩
  refine ⟨_, broken, hrun.snoc (.outside (.push producer (slots 0) hpush) houtside
    (.push producer s.pushes (slots 0)) broken), fun h ↦ ?_⟩
  exact absurd h.indices.1 (not_le.mpr hfull)

end Memory

/-- Under any interleaving of producers and consumers the job cache is a
bounded first-in first-out queue, if and only if the bytes of its slots are
fewer than a `size_t` can count. -/
theorem jobcache_refines_bounded_fifo_iff (producer : P) {header : Bool}
    {malloc : ℕ → Option (ℕ → Job)} {capacity : ℕ} {cache : JobCache}
    (hcreate : jobcacheCreate header malloc capacity = some cache) :
    (∀ (evs : List (CacheEvent P C)) (s : CacheSys),
        Run (MemoryStep (slotBytes capacity)) (.start cache) evs s →
          RefinesFifo capacity evs s) ↔
      jobSize * capacity < 2 ^ 64 := by
  obtain ⟨hcap, slots, rfl⟩ := jobcacheCreate_eq_some hcreate
  constructor
  · intro h
    by_contra hsize
    obtain ⟨evs, s, hrun, hbroken⟩ := @MemoryStep.not_refinesFifo P C slots _ producer hsize
    exact hbroken (h evs s hrun)
  · intro hsize evs s hrun
    exact CacheSys.refinesFifo hcap (MemoryStep.run_inside hcap hsize hrun)

def pingJob : Job where
  type := .ping
  instanceId := Vector.replicate jobInstanceIdLen 0
  payload := Vector.replicate jobPayloadLen 0
  payloadLen := 0
  responseCb := none
  responseCtx := 0

theorem CacheSys.one_slot_run (job : Job) :
    ∃ s, Run CacheStep (.start ⟨fun _ ↦ pingJob, 1, 0, 0, 0⟩)
      [CacheEvent.push (P := ℕ) (C := ℕ) 0 0 job, CacheEvent.pop 0 0 job.terminated] s := by
  have hpush := Run.nil.snoc (CacheStep.push (P := ℕ) (C := ℕ)
    (s := .start ⟨fun _ ↦ pingJob, 1, 0, 0, 0⟩) 0 job rfl)
  exact ⟨_, hpush.snoc (CacheStep.pop 0 0 false rfl)⟩

/-- The memory that is always there. -/
def pingSlots : ℕ → Option (ℕ → Job) := fun _ ↦ some fun _ ↦ pingJob

theorem jobcache_refines_bounded_fifo_iff_one_slot :
    jobcacheCreate true pingSlots 1 = some ⟨fun _ ↦ pingJob, 1, 0, 0, 0⟩ ∧
      ((∀ (evs : List (CacheEvent ℕ ℕ)) (s : CacheSys),
          Run (MemoryStep (slotBytes 1)) (.start ⟨fun _ ↦ pingJob, 1, 0, 0, 0⟩) evs s →
            RefinesFifo 1 evs s) ↔
        jobSize * 1 < 2 ^ 64) :=
  ⟨rfl, jobcache_refines_bounded_fifo_iff 0 (rfl : jobcacheCreate true pingSlots 1 = _)⟩

/-- For 2^59 slots the cache asks for no memory at all. -/
theorem jobcache_leaves_its_slots :
    ¬ ∀ (header : Bool) (malloc : ℕ → Option (ℕ → Job)) (capacity : ℕ) (cache : JobCache),
      1 ≤ capacity → capacity < 2 ^ 64 → jobcacheCreate header malloc capacity = some cache →
        ∀ (evs : List (CacheEvent ℕ ℕ)) (s : CacheSys),
          Run (MemoryStep (slotBytes capacity)) (.start cache) evs s →
            RefinesFifo capacity evs s := by
  intro h
  obtain ⟨evs, s, hrun, hbroken⟩ :=
    @MemoryStep.not_refinesFifo ℕ ℕ (fun _ ↦ pingJob) (2 ^ 59) 0 (by decide)
  exact hbroken (h true pingSlots (2 ^ 59) _ (by decide) (by decide) rfl evs s hrun)

end DoctorClaw
