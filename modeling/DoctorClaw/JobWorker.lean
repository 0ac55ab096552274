import DoctorClaw.JobCache
import DoctorClaw.Lib.Decimal

/-!
# Job workers

`worker_thread_fn` pops a job, looks up the configuration of its instance,
runs `dispatch_job` into a result buffer of its own and hands the result to
the callback the job carries.  The agent and the shell are outside this
module: `AgentEnv` answers for them, and the number that every call is given
lets two calls with the same arguments answer differently.

A buffer is represented by the C string it holds.
-/

namespace DoctorClaw

/-! ## Configuration -/

structure Config where
  workspaceDir : Bytes
  requireApproval : Bool
  deriving DecidableEq

structure JobworkerPool where
  getConfig : Option (Bytes → Option Config)
  defaultConfig : Config

def JobworkerPool.configFor (pool : JobworkerPool) (job : Job) : Config :=
  let id := CString.ofBuffer job.instanceId.toList
  match pool.getConfig with
  | some getConfig => (getConfig (if id = [] then ascii "default" else id)).getD pool.defaultConfig
  | none => pool.defaultConfig

/-! ## Dispatch -/

structure AgentEnv where
  agentInit : ℕ → Config → Int32
  agentChat : ℕ → Config → Bytes → Int32 × Bytes
  agentRunTask : ℕ → Config → Bytes → Int32 × Bytes
  system : ℕ → Bytes → Int32

def resultSize : ℕ := 16384

def resultText (s : Bytes) : Bytes := CString.ofBuffer (CString.cut resultSize s)

def taskFocusTag : Bytes := ascii "task_focus=1"

def Job.taskFocus (job : Job) : Bool :=
  decide (12 ≤ job.payloadLen) && decide (taskFocusTag <+: CString.ofBuffer job.payload.toList)

/-- The prompt is the payload, after the tag and the line ends behind it when
the job asks for task focus. -/
def Job.prompt (job : Job) : Bytes :=
  let text := CString.ofBuffer job.payload.toList
  if job.taskFocus then (text.drop 12).dropWhile fun c ↦ c == 10 || c == 13 else text

def dispatchJob (env : AgentEnv) (call : ℕ) (job : Job) (config : Config) : Bytes × Int32 :=
  match job.type with
  | .agentChat =>
      if env.agentInit call config ≠ 0 then (resultText (ascii "Agent init failed"), -1)
      else
        let (chatR, reply) := if job.taskFocus then env.agentRunTask call config job.prompt
          else env.agentChat call config job.prompt
        let text := resultText reply
        (if chatR ≠ 0 ∧ text = [] then resultText (ascii "Agent chat failed") else text,
          if chatR ≠ 0 then -1 else 0)
  | .cronRun =>
      if 0 < job.payloadLen then
        let code := env.system call (CString.ofBuffer job.payload.toList)
        (resultText (ascii "exit=" ++ Decimal.printInt code.toInt), code)
      else ([], 0)
  | .webhook => (resultText (ascii "ok"), 0)
  | .ping => (resultText (ascii "pong"), 0)
  | .other => (resultText (ascii "unknown job type"), -1)

/-! ## The gateway's callback -/

/-- `agent_sync_ctx_t`, without the mutex and the condition variable. -/
structure AgentSyncCtx where
  buffer : Bytes
  done : Bool
  deriving DecidableEq

def syncBufferSize : ℕ := 16384

def agentResponseCb (result : Bytes) (len : ℕ) (error : Int32) : AgentSyncCtx :=
  let len := if syncBufferSize ≤ len then syncBufferSize - 1 else len
  let buffer := CString.ofBuffer (result.take len)
  { buffer := if error ≠ 0 ∧ buffer = [] then
        CString.cut syncBufferSize (ascii "error=" ++ Decimal.printInt error.toInt)
      else buffer
    done := true }

theorem zero_notMem_resultText (s : Bytes) : (0 : UInt8) ∉ resultText s :=
  CString.zero_notMem_ofBuffer _

theorem errorText_fits (error : Int32) :
    CString.cut syncBufferSize (ascii "error=" ++ Decimal.printInt error.toInt) =
      ascii "error=" ++ Decimal.printInt error.toInt := by
  have hlow := error.le_toInt
  have hhigh := error.toInt_lt
  have hlen := Decimal.length_printInt_le (z := error.toInt) (k := 10) (by omega) (by omega)
  apply CString.cut_of_lt
  rw [List.length_append, syncBufferSize]
  have htag : (ascii "error=").length = 6 := by decide
  omega

/-- A result without NUL is stored as it is, cut to the buffer, unless the job
failed with an empty result. -/
theorem agentResponseCb_buffer {result : Bytes} (hnul : (0 : UInt8) ∉ result) (error : Int32) :
    (agentResponseCb result result.length error).buffer =
      if error ≠ 0 ∧ result = [] then ascii "error=" ++ Decimal.printInt error.toInt
      else result.take (syncBufferSize - 1) := by
  have hcut : result.take (if syncBufferSize ≤ result.length then syncBufferSize - 1
      else result.length) = result.take (syncBufferSize - 1) := by
    split_ifs with hlen
    · rfl
    · rw [List.take_length, List.take_of_length_le (by omega)]
  have hstr : CString.ofBuffer (result.take (syncBufferSize - 1)) =
      result.take (syncBufferSize - 1) :=
    CString.ofBuffer_eq_self fun h ↦ hnul (List.mem_of_mem_take h)
  have hempty : result.take (syncBufferSize - 1) = [] ↔ result = [] := by
    simp [List.take_eq_nil_iff, syncBufferSize]
  simp only [agentResponseCb, hcut, hstr, hempty, errorText_fits]

theorem length_agentResponseCb_le {result : Bytes} (hnul : (0 : UInt8) ∉ result) (error : Int32) :
    (agentResponseCb result result.length error).buffer.length ≤ syncBufferSize - 1 := by
  rw [agentResponseCb_buffer hnul]
  split_ifs
  · rw [← errorText_fits]
    exact CString.length_cut_le _ _
  · rw [List.length_take]
    exact Nat.min_le_left _ _

theorem zero_notMem_dispatchJob (env : AgentEnv) (call : ℕ) (job : Job) (config : Config) :
    (0 : UInt8) ∉ (dispatchJob env call job config).1 := by
  unfold dispatchJob
  cases job.type with
  | agentChat =>
      dsimp only
      split_ifs <;> exact zero_notMem_resultText _
  | cronRun =>
      dsimp only
      split_ifs
      · exact zero_notMem_resultText _
      · simp
  | webhook => exact zero_notMem_resultText _
  | ping => exact zero_notMem_resultText _
  | other => exact zero_notMem_resultText _

end DoctorClaw
