import DoctorClaw.Delivery.System

/-!
# Chat requests

`handle_request` answers `/agent/chat` in two ways: it calls the agent itself,
or it pushes a job and waits for the answer.  The job carries the flag
`task_focus` as a line in front of the prompt, which `dispatch_job` takes off
again together with every line end behind it.
-/

namespace DoctorClaw

open Transition

/-! ## The request -/

def jsonEscapeChar (c : UInt8) : Bytes :=
  if c = 34 ∨ c = 92 then [92, c]
  else if c = 10 then [92, 110]
  else if c = 13 then [92, 114]
  else [c]

/-- The loop of `json_escape` after `j` bytes of output. -/
def jsonEscapeFrom (outSize : ℕ) : ℕ → Bytes → Bytes
  | _, [] => []
  | j, c :: rest =>
      if j + 2 < outSize then
        jsonEscapeChar c ++ jsonEscapeFrom outSize (j + (jsonEscapeChar c).length) rest
      else []

def jsonEscape (s : Bytes) (outSize : ℕ) : Bytes := jsonEscapeFrom outSize 0 s

/-- The loop of `parse_json_prompt`, with room for `n` more bytes. -/
def copyPrompt : ℕ → Bytes → Bytes
  | 0, _ => []
  | _, [] => []
  | n + 1, c :: rest =>
      if c = 92 then
        match rest with
        | d :: rest' => if d = 34 ∨ d = 92 then d :: copyPrompt n rest' else c :: copyPrompt n rest
        | [] => [c]
      else if c = 34 then []
      else c :: copyPrompt n rest

def parseJsonPrompt (body : Bytes) (promptSize : ℕ) : Option Bytes :=
  ((CString.strstr (ascii "\"prompt\"") body).bind fun p ↦ CString.strchr 58 (p.drop 7)).bind fun p ↦
    match p.tail.dropWhile fun c ↦ c == 32 || c == 9 with
    | 34 :: rest => some (copyPrompt (promptSize - 1) rest)
    | _ => none

def asksTaskFocus (body : Bytes) : Bool :=
  (CString.strstr (ascii "\"task_focus\":true") body).isSome ||
    (CString.strstr (ascii "\"task_focus\": true") body).isSome

/-! ## The two ways to the agent -/

inductive AgentEntry
  | agentChat (prompt : Bytes)
  | agentRunTask (prompt : Bytes)
  deriving DecidableEq

def AgentEnv.enter (env : AgentEnv) (call : ℕ) (config : Config) : AgentEntry → Int32 × Bytes
  | .agentChat prompt => env.agentChat call config prompt
  | .agentRunTask prompt => env.agentRunTask call config prompt

def chatEntry (taskFocus : Bool) (prompt : Bytes) : AgentEntry :=
  if taskFocus then .agentRunTask prompt else .agentChat prompt

def Job.entry (job : Job) : AgentEntry := chatEntry job.taskFocus job.prompt

def chatPayload (taskFocus : Bool) (prompt : Bytes) : Bytes :=
  if taskFocus then ascii "task_focus=1\n" ++ prompt else prompt

def chatBodySize : ℕ := 65536

def quoted (key : String) (text : Bytes) : Bytes :=
  CString.cut chatBodySize (ascii "\x7b\"" ++ ascii key ++ ascii "\":\"" ++ text ++ ascii "\"\x7d")

/-- The body of the answer when no job cache is configured. -/
def directReply (env : AgentEnv) (call : ℕ) (config : Option Config) (entry : AgentEntry) : Bytes :=
  match config with
  | none => quoted "error" (ascii "Agent init failed")
  | some config =>
      if env.agentInit call config ≠ 0 then quoted "error" (ascii "Agent init failed")
      else
        let (chatRet, reply) := env.enter call config entry
        let response := resultText reply
        if chatRet = 0 ∧ response ≠ [] then quoted "response" (jsonEscape response 32768)
        else quoted "error" (if response = [] then ascii "Agent chat failed" else response)

/-- The body of the answer after `jobcache_push` has returned and, where it
returned 0, the callback has filled the buffer. -/
def queueReply (pushed : ℤ) (buffer : Bytes) : Bytes :=
  if pushed = 0 then
    if buffer = [] then quoted "error" (ascii "Agent failed")
    else quoted "response" (jsonEscape buffer 32768)
  else quoted "error" (ascii "Job queue full")

/-- What the request does once it is parsed. -/
inductive ChatRoute
  | refused (body : Bytes)
  | queued (job : Job)
  | direct (entry : AgentEntry)

def handleAgentChat (body : Bytes) (jobcache : Bool) (ctx : ℕ) : ChatRoute :=
  match parseJsonPrompt body 4096 with
  | none => .refused (quoted "error" (ascii "No prompt provided"))
  | some prompt =>
      if prompt = [] then .refused (quoted "error" (ascii "No prompt provided"))
      else if jobcache then .queued (gatewayJob (chatPayload (asksTaskFocus body) prompt) ctx)
      else .direct (chatEntry (asksTaskFocus body) prompt)

/-- A worker enters the agent as the job says. -/
theorem dispatchJob_eq_enter {job : Job} (htype : job.type = .agentChat) (env : AgentEnv) (call : ℕ)
    (config : Config) (hinit : env.agentInit call config = 0) :
    dispatchJob env call job config =
      (if (env.enter call config job.entry).1 ≠ 0 ∧
          resultText (env.enter call config job.entry).2 = [] then
          resultText (ascii "Agent chat failed")
        else resultText (env.enter call config job.entry).2,
        if (env.enter call config job.entry).1 ≠ 0 then -1 else 0) := by
  have henter : (if job.taskFocus then env.agentRunTask call config job.prompt
      else env.agentChat call config job.prompt) = env.enter call config job.entry := by
    unfold Job.entry chatEntry
    cases job.taskFocus <;> rfl
  rw [dispatchJob, htype]
  simp only [hinit, ne_eq, not_true_eq_false, if_false, henter]

/-- A successful answer is the same text on both ways once the agent is entered
in the same way. -/
theorem directReply_eq_queueReply {job : Job} (htype : job.type = .agentChat) {env : AgentEnv}
    {call : ℕ} {config : Config} (hinit : env.agentInit call config = 0)
    (hret : (env.enter call config job.entry).1 = 0)
    (hne : resultText (env.enter call config job.entry).2 ≠ []) :
    directReply env call (some config) job.entry =
      queueReply 0 (agentResponseCb (dispatchJob env call job config).1
        (dispatchJob env call job config).1.length (dispatchJob env call job config).2).buffer := by
  set text := resultText (env.enter call config job.entry).2 with htext
  have hdispatch : dispatchJob env call job config = (text, 0) := by
    rw [dispatchJob_eq_enter htype env call config hinit, hret, ← htext]
    simp
  have hfits : text.take (syncBufferSize - 1) = text := by
    refine List.take_of_length_le ((List.takeWhile_prefix _).length_le.trans ?_)
    exact CString.length_cut_le _ _
  have hbuffer : (agentResponseCb text text.length 0).buffer = text := by
    rw [agentResponseCb_buffer (zero_notMem_resultText _), if_neg (by simp), hfits]
  rw [hdispatch, hbuffer, queueReply, if_pos rfl, if_neg hne]
  simp only [directReply, hinit, hret, ← htext]
  simp [hne]

/-! ## The prompt of a request -/

theorem length_copyPrompt_le (n : ℕ) (s : Bytes) : (copyPrompt n s).length ≤ n := by
  fun_induction copyPrompt n s with
  | case1 => exact le_rfl
  | case2 => exact Nat.zero_le _
  | case3 n d rest hd ih => exact Nat.succ_le_succ ih
  | case4 n d rest hd ih => exact Nat.succ_le_succ ih
  | case5 n => exact Nat.succ_le_succ (Nat.zero_le _)
  | case6 => exact Nat.zero_le _
  | case7 n c rest hc hquote ih => exact Nat.succ_le_succ ih

theorem copyPrompt_sublist (n : ℕ) (s : Bytes) : (copyPrompt n s).Sublist s := by
  fun_induction copyPrompt n s with
  | case1 s => exact List.nil_sublist s
  | case2 => exact List.nil_sublist []
  | case3 n d rest hd ih => exact (ih.cons_cons d).cons 92
  | case4 n d rest hd ih => exact ih.cons_cons 92
  | case5 n => exact List.Sublist.refl [92]
  | case6 n rest => exact List.nil_sublist _
  | case7 n c rest hc hquote ih => exact ih.cons_cons c

theorem parseJsonPrompt_eq_some {body prompt : Bytes} {size : ℕ}
    (h : parseJsonPrompt body size = some prompt) :
    prompt.length ≤ size - 1 ∧ prompt.Sublist body := by
  obtain ⟨p, hp, hprompt⟩ := Option.bind_eq_some_iff.mp h
  obtain ⟨q, hq, hcolon⟩ := Option.bind_eq_some_iff.mp hp
  split at hprompt
  · rename_i rest hrest
    obtain rfl := Option.some.inj hprompt
    refine ⟨length_copyPrompt_le _ _, (copyPrompt_sublist _ _).trans ?_⟩
    have hq : q <:+ body := (CString.strstr_eq_some hq).2
    obtain ⟨t, rfl, ht⟩ := CString.strchr_eq_some hcolon
    have hvalue : (34 : UInt8) :: rest <:+ t := hrest ▸ List.dropWhile_suffix _
    refine (List.sublist_cons_self 34 rest).trans (hvalue.sublist.trans ?_)
    refine (List.sublist_cons_self 58 t).trans (ht.sublist.trans ?_)
    exact (List.drop_suffix 7 q).sublist.trans hq.sublist
  · cases hprompt

/-- A request is refused, or it has a prompt as both ways expect it. -/
theorem handleAgentChat_routes {body : Bytes} (hnul : (0 : UInt8) ∉ body) (ctx : ℕ) :
    (∃ text, ∀ jobcache, handleAgentChat body jobcache ctx = .refused text) ∨
      ∃ prompt, 1 ≤ prompt.length ∧ prompt.length ≤ 4095 ∧ (0 : UInt8) ∉ prompt ∧
        handleAgentChat body false ctx = .direct (chatEntry (asksTaskFocus body) prompt) ∧
          handleAgentChat body true ctx =
            .queued (gatewayJob (chatPayload (asksTaskFocus body) prompt) ctx) := by
  unfold handleAgentChat
  cases hparse : parseJsonPrompt body 4096 with
  | none => exact .inl ⟨_, fun _ ↦ rfl⟩
  | some prompt =>
      obtain ⟨hlen, hsublist⟩ := parseJsonPrompt_eq_some hparse
      by_cases hempty : prompt = []
      · exact .inl ⟨_, fun _ ↦ if_pos hempty⟩
      · refine .inr ⟨prompt, List.length_pos_iff.mpr hempty, hlen, fun h ↦ hnul (hsublist.subset h),
          ?_, ?_⟩
        · exact if_neg hempty
        · exact if_neg hempty

/-! ## Agreement -/

/-- However the job of the request passes through the queue, the worker that
takes it enters the agent as the request would have done itself. -/
def PathsAgree (taskFocus : Bool) (prompt : Bytes) : Prop :=
  ∀ (slots : ℕ → Job) (capacity ctx : ℕ) (evs : List (CacheEvent ℕ ℕ)) (s : CacheSys),
    1 ≤ capacity → Run CacheStep (.start ⟨slots, capacity, 0, 0, 0⟩) evs s →
      ∀ producer consumer ticket out,
        .push producer ticket (gatewayJob (chatPayload taskFocus prompt) ctx) ∈ evs →
          .pop consumer ticket out ∈ evs → out.entry = chatEntry taskFocus prompt

theorem Job.entry_gatewayJob {text : Bytes} (hnul : (0 : UInt8) ∉ text)
    (hlen : text.length < jobPayloadLen) (ctx : ℕ) :
    (gatewayJob text ctx).entry =
      if taskFocusTag <+: text then
        .agentRunTask ((text.drop 12).dropWhile fun c ↦ c == 10 || c == 13)
      else .agentChat text := by
  have htext : CString.ofBuffer (gatewayJob text ctx).payload.toList = text :=
    Job.text_make hnul hlen _ _ _
  have hpayload : (gatewayJob text ctx).payloadLen = text.length := by
    simp only [gatewayJob, Job.make]
    omega
  have hfocus : (gatewayJob text ctx).taskFocus = decide (taskFocusTag <+: text) := by
    have htag : taskFocusTag.length = 12 := by decide
    rw [Job.taskFocus, htext, hpayload, Bool.and_eq_right_iff_imp.mpr]
    simpa [htag] using fun h : taskFocusTag <+: text ↦ h.length_le
  rw [Job.entry, chatEntry, Job.prompt, hfocus, htext]
  by_cases htag : taskFocusTag <+: text
  · simp [htag]
  · simp [htag]

theorem chatPayload_fits (taskFocus : Bool) {prompt : Bytes} (hlen : prompt.length ≤ 4095)
    (hnul : (0 : UInt8) ∉ prompt) :
    (chatPayload taskFocus prompt).length < jobPayloadLen ∧
      (0 : UInt8) ∉ chatPayload taskFocus prompt := by
  have htag : (ascii "task_focus=1\n").length = 13 := by decide
  have hclean : (0 : UInt8) ∉ ascii "task_focus=1\n" := by decide
  unfold chatPayload jobPayloadLen
  cases taskFocus with
  | false => exact ⟨by simp; omega, hnul⟩
  | true =>
      rw [if_pos rfl, List.length_append, List.mem_append]
      exact ⟨by omega, not_or.mpr ⟨hclean, hnul⟩⟩

/-- The job of a request, once pushed and popped, is the job itself. -/
theorem pathsAgree_iff_entry (taskFocus : Bool) {prompt : Bytes} (hlen : prompt.length ≤ 4095)
    (hnul : (0 : UInt8) ∉ prompt) :
    PathsAgree taskFocus prompt ↔
      (gatewayJob (chatPayload taskFocus prompt) 0).entry = chatEntry taskFocus prompt := by
  obtain ⟨hfits, hclean⟩ := chatPayload_fits taskFocus hlen hnul
  have hterminated (ctx : ℕ) : (gatewayJob (chatPayload taskFocus prompt) ctx).terminated =
      gatewayJob (chatPayload taskFocus prompt) ctx := Job.terminated_make hfits _ _ _
  constructor
  · intro h
    obtain ⟨s, hrun⟩ := CacheSys.one_slot_run (gatewayJob (chatPayload taskFocus prompt) 0)
    rw [← hterminated]
    exact h _ 1 0 _ s le_rfl hrun 0 0 0 _ (by simp) (by simp)
  · intro h slots capacity ctx evs s hcap hrun producer consumer ticket out hpush hpop
    rw [CacheSys.popped_eq hcap hrun hpush hpop, hterminated, ← h,
      Job.entry_gatewayJob hclean hfits, Job.entry_gatewayJob hclean hfits]

/-- Both ways agree exactly when the prompt does not look like the tagged line
itself and does not lose line ends behind the tag. -/
theorem pathsAgree_iff (taskFocus : Bool) {prompt : Bytes} (hne : 1 ≤ prompt.length)
    (hlen : prompt.length ≤ 4095) (hnul : (0 : UInt8) ∉ prompt) :
    PathsAgree taskFocus prompt ↔
      if taskFocus then ∀ c ∈ prompt.head?, c ≠ 10 ∧ c ≠ 13
      else ¬ ascii "task_focus=1" <+: prompt := by
  obtain ⟨hfits, hclean⟩ := chatPayload_fits taskFocus hlen hnul
  rw [pathsAgree_iff_entry taskFocus hlen hnul, Job.entry_gatewayJob hclean hfits]
  cases taskFocus with
  | false =>
      rw [chatPayload, if_neg Bool.false_ne_true, if_neg Bool.false_ne_true]
      by_cases htag : taskFocusTag <+: prompt
      · rw [if_pos htag]
        exact iff_of_false (fun h ↦ by cases h) (not_not.mpr htag)
      · rw [if_neg htag]
        exact iff_of_true rfl htag
  | true =>
      have hsplit : chatPayload true prompt = taskFocusTag ++ 10 :: prompt := rfl
      obtain ⟨c, rest, rfl⟩ := List.exists_cons_of_ne_nil (List.ne_nil_of_length_pos hne)
      rw [if_pos rfl, hsplit, if_pos (List.prefix_append _ _), List.drop_left' (by decide),
        List.dropWhile_cons_of_pos (by decide), chatEntry, if_pos rfl, AgentEntry.agentRunTask.injEq]
      rw [List.dropWhile_eq_self_iff]
      simp

theorem pathsAgree_iff_hello :
    (1 ≤ (ascii "hello").length ∧ (ascii "hello").length ≤ 4095 ∧ (0 : UInt8) ∉ ascii "hello") ∧
      PathsAgree true (ascii "hello") ∧ PathsAgree false (ascii "hello") := by
  have hok : 1 ≤ (ascii "hello").length ∧ (ascii "hello").length ≤ 4095 ∧
      (0 : UInt8) ∉ ascii "hello" := by decide
  refine ⟨hok, (pathsAgree_iff true hok.1 hok.2.1 hok.2.2).mpr ?_,
    (pathsAgree_iff false hok.1 hok.2.1 hok.2.2).mpr ?_⟩
  · decide +kernel
  · decide +kernel

/-- The prompt `task_focus=1` without the flag: the worker runs a task with an
empty prompt. -/
theorem not_pathsAgree_tag : ¬ PathsAgree false (ascii "task_focus=1") := by
  rw [pathsAgree_iff_entry false (by decide) (by decide),
    Job.entry_gatewayJob (by decide) (by decide)]
  decide

/-! ## A full queue -/

/-- One call of `jobcache_push`, with the states of the cache in which it looks
at the condition of its loop: the first one when it has locked the mutex, and
one more each time `pthread_cond_wait` returns.  The result is the return
value and the new state; `none` is a call that still waits. -/
def jobcachePushCall (job : Job) : List JobCache → Option (ℤ × JobCache)
  | [] => none
  | cache :: seen =>
      match jobcachePush cache job with
      | some cache' => some (0, cache')
      | none => jobcachePushCall job seen

/-- A push to this cache comes back with -1 and changes nothing. -/
def RejectsPush (cache : JobCache) (job : Job) : Prop :=
  ∀ seen, jobcachePushCall job (cache :: seen) = some (-1, cache)

theorem jobcachePushCall_eq_some {job : Job} {seen : List JobCache} {ret : ℤ} {cache' : JobCache}
    (h : jobcachePushCall job seen = some (ret, cache')) :
    ret = 0 ∧ ∃ cache ∈ seen, jobcachePush cache job = some cache' := by
  induction seen with
  | nil => cases h
  | cons cache seen ih =>
      rw [jobcachePushCall] at h
      split at h
      · rename_i cache'' hpush
        obtain ⟨rfl, rfl⟩ : 0 = ret ∧ cache'' = cache' := by simpa using h
        exact ⟨rfl, cache, List.mem_cons_self, hpush⟩
      · obtain ⟨hret, cache₀, hmem, hpush⟩ := ih h
        exact ⟨hret, cache₀, List.mem_cons_of_mem _ hmem, hpush⟩

/-- A call that finds the cache full at every look goes on waiting. -/
theorem jobcachePushCall_eq_none {job : Job} {seen : List JobCache}
    (h : ∀ cache ∈ seen, cache.capacity ≤ cache.count) : jobcachePushCall job seen = none := by
  induction seen with
  | nil => rfl
  | cons cache seen ih =>
      have hfull : jobcachePush cache job = none := if_pos (h cache List.mem_cons_self)
      rw [jobcachePushCall, hfull]
      exact ih fun cache' hmem ↦ h cache' (List.mem_cons_of_mem _ hmem)

theorem not_rejectsPush (cache : JobCache) (job : Job) : ¬ RejectsPush cache job := by
  intro h
  have hret := (jobcachePushCall_eq_some (h [])).1
  omega

theorem queueReply_zero_ne_full (buffer : Bytes) :
    queueReply 0 buffer ≠ quoted "error" (ascii "Job queue full") := by
  intro h
  unfold queueReply at h
  rw [if_pos rfl] at h
  split_ifs at h
  · exact absurd h (by decide)
  · -- The bodies differ in the first letter of their key.
    have hkey : (quoted "response" (jsonEscape buffer 32768))[2]? = some 114 := rfl
    rw [h] at hkey
    exact absurd hkey (by decide)

/-- No call of `jobcache_push` ever fails: on a full cache it waits, and when it
returns it has stored its job.  So neither caller takes its failure branch. -/
theorem jobcache_push_never_rejects (cache : JobCache) (hfull : cache.count = cache.capacity)
    (job : Job) :
    ¬ RejectsPush cache job ∧
      (∀ n, jobcachePushCall job (List.replicate n cache) = none) ∧
      ∀ seen ret cache', jobcachePushCall job seen = some (ret, cache') →
        ret = 0 ∧ (∃ cache₀ ∈ seen, jobcachePush cache₀ job = some cache') ∧
          ∀ buffer, queueReply ret buffer ≠ quoted "error" (ascii "Job queue full") := by
  refine ⟨not_rejectsPush cache job, fun n ↦ ?_, fun seen ret cache' h ↦ ?_⟩
  · refine jobcachePushCall_eq_none fun cache' hmem ↦ ?_
    rw [List.eq_of_mem_replicate hmem, hfull]
  · obtain ⟨rfl, hstored⟩ := jobcachePushCall_eq_some h
    exact ⟨rfl, hstored, queueReply_zero_ne_full⟩

theorem jobcache_push_never_rejects_one_slot :
    (⟨fun _ ↦ pingJob, 1, 0, 0, 1⟩ : JobCache).count = 1 ∧
      ∀ n, jobcachePushCall pingJob (List.replicate n ⟨fun _ ↦ pingJob, 1, 0, 0, 1⟩) = none :=
  ⟨rfl, (jobcache_push_never_rejects ⟨fun _ ↦ pingJob, 1, 0, 0, 1⟩ rfl pingJob).2.1⟩

/-- The third push of two slots, as the test of a full cache makes it. -/
theorem not_rejectsPush_two_slots :
    ∃ first second, jobcacheCreate true pingSlots 2 = some first ∧
      jobcachePushCall pingJob [first] = some (0, second) ∧
      ∃ full, jobcachePushCall pingJob [second] = some (0, full) ∧ full.count = full.capacity ∧
        ¬ RejectsPush full pingJob :=
  ⟨_, _, rfl, rfl, _, rfl, rfl, not_rejectsPush _ _⟩

end DoctorClaw
