import DoctorClaw.TaskFocus

/-!
# The first message of a task

`agent_run_task` puts the passages of the index, an instruction, the task and
the rest of the instruction, which asks for the marker, into one buffer of 4096
bytes.  What does not fit is cut off at the end.
-/

namespace DoctorClaw

open Interaction

/-! ## The parts of the message -/

def taskHead : Bytes := ascii "TASK (complete this fully before marking done):\n\n"

/-- The instruction behind the task. -/
def taskTail : Bytes :=
  ascii "\n\nUse tools as needed. Stay focused on this task. " ++
    ascii "When you have fully completed it, your final reply must include exactly " ++
    taskCompleteMarker ++ ascii " and a brief summary. Do not say " ++ taskCompleteMarker ++
    ascii " until the task is actually done."

/-- The passages in front of the instruction. -/
def taskContext (chunks : List Bytes) : Bytes :=
  if chunks = [] then [] else ragContext chunks ++ ascii "\n"

/-- How many bytes of the instruction and the task there is room for. -/
def taskRoom (chunks : List Bytes) : ℕ :=
  if chunks = [] then taskMessageSize - 1
  else taskMessageSize - (taskContext chunks).length - 64 - 1

theorem length_taskHead : taskHead.length = 49 := by decide

theorem length_taskTail : taskTail.length = 218 := by decide +kernel

theorem length_instruction (task : Bytes) :
    (taskHead ++ (task ++ taskTail)).length = task.length + 267 := by
  rw [List.length_append, List.length_append, length_taskHead, length_taskTail]
  omega

theorem taskInstruction_eq (task : Bytes) :
    taskInstruction task = taskHead ++ (task ++ taskTail) := by
  simp only [taskInstruction, taskHead, taskTail, List.append_assoc]

theorem taskMessage_eq (chunks : List Bytes) (task : Bytes) :
    taskMessage chunks task =
      taskContext chunks ++ (taskHead ++ (task ++ taskTail)).take (taskRoom chunks) := by
  rw [← taskInstruction_eq]
  unfold taskMessage taskContext taskRoom taskContext
  split_ifs
  · rfl
  · rfl

/-! ## The passages -/

/-- The index has three passages at most, and each is cut to its buffer. -/
structure IsPassages (chunks : List Bytes) : Prop where
  count : chunks.length ≤ 3
  length : ∀ chunk ∈ chunks, chunk.length ≤ 511

/-- The passages found for a task. -/
def TaskAgent.passages (agent : TaskAgent) (env : Env TaskCall TaskCall.Reply) (task : Bytes) :
    List Bytes :=
  if agent.workspaceDir = [] then []
  else
    let path := CString.cut 512 (agent.workspaceDir ++ ascii "/rag.idx")
    let documents : List Bytes := env [] (TaskCall.ragQuery path task)
    (documents.take 3).map (CString.cut ragChunkSize)

theorem TaskAgent.passages_isPassages (agent : TaskAgent) (env : Env TaskCall TaskCall.Reply)
    (task : Bytes) : IsPassages (agent.passages env task) := by
  unfold TaskAgent.passages
  split_ifs
  · exact ⟨Nat.zero_le _, List.forall_mem_nil _⟩
  · refine ⟨?_, fun chunk hchunk ↦ ?_⟩
    · rw [List.length_map]
      exact List.length_take_le _ _
    · obtain ⟨document, -, rfl⟩ := List.mem_map.mp hchunk
      exact CString.length_cut_le _ _

/-- So the offsets into the buffer stay far below its size. -/
theorem length_ragContext_le {chunks : List Bytes} (h : IsPassages chunks) :
    (ragContext chunks).length ≤ 1575 := by
  have hstart : (ascii "Relevant context from RAG:\n").length = 27 := by decide
  have hcount := h.count
  have hlen := List.length_foldl_le (l := chunks.zipIdx) (k := 516) (f := fun text chunk ↦
    if text.length < taskMessageSize - 512 then
      text ++ ascii "[" ++ Decimal.printNat (chunk.2 + 1) ++ ascii "] " ++ chunk.1 ++ ascii "\n"
    else text) ?_ (ascii "Relevant context from RAG:\n")
  · rw [hstart, List.length_zipIdx] at hlen
    exact hlen.trans (by omega)
  · rintro text ⟨chunk, k⟩ hmem
    obtain ⟨-, hk, hchunk⟩ := List.mem_zipIdx hmem
    have hshort := h.length chunk (hchunk ▸ List.getElem_mem _)
    have hk3 : k < 3 := by omega
    have hdigit : (Decimal.printNat (k + 1)).length = 1 := by
      interval_cases k <;> decide
    have hopen : (ascii "[").length = 1 := by decide
    have hclose : (ascii "] ").length = 2 := by decide
    have hnewline : (ascii "\n").length = 1 := by decide
    dsimp only
    split_ifs
    · simp only [List.length_append, hdigit, hopen, hclose, hnewline]
      omega
    · omega

/-! ## The run -/

def TaskCall.message : TaskCall → Option Bytes
  | .enrich message => some message
  | _ => none

/-- What the first turn starts with. -/
def firstMessage (calls : List TaskCall) : Option Bytes := calls.findSome? TaskCall.message

theorem maxRounds_pos (agent : TaskAgent) : 0 < maxRounds agent := by
  unfold maxRounds
  split_ifs with h
  · omega
  · decide

theorem firstMessage_agentRunTask (setup : TurnSetup) (agent : TaskAgent) (task response : Bytes)
    {respSize : ℕ} (hsize : 0 < respSize) (env : Env TaskCall TaskCall.Reply) :
    firstMessage ((agentRunTask setup agent task response respSize).run env []).1 =
      some (taskMessage (agent.passages env task) task) := by
  obtain ⟨n, hrounds⟩ : ∃ n, maxRounds agent = n + 1 :=
    Nat.exists_eq_add_one_of_ne_zero (maxRounds_pos agent).ne'
  rw [agentRunTask, if_neg (by omega)]
  change firstMessage ((ragChunks _ task >>= fun chunks ↦ attentionLoop setup respSize
    (maxRounds agent) (taskMessage chunks task) _ response []).run env []).1 = _
  rw [hrounds]
  unfold ragChunks TaskAgent.passages
  by_cases hdir : agent.workspaceDir = []
  · rw [if_pos hdir, if_pos hdir]
    rfl
  · rw [if_neg hdir, if_neg hdir]
    rfl

/-! ## What is cut off -/

/-- The instruction behind the task does not repeat anything as short as the one
in front of it. -/
theorem eq_nil_of_repeats {task u : Bytes} (hu : u <:+ taskHead)
    (hrepeat : task ++ taskTail <+: u ++ (task ++ taskTail)) : u = [] := by
  have hlen := hu.length_le
  rw [length_taskHead] at hlen
  have hshift := hrepeat.drop (u.length + task.length)
  rw [← List.drop_drop, ← List.drop_drop, List.drop_left, List.drop_left, List.drop_drop,
    Nat.add_comm, ← List.drop_drop, List.drop_left] at hshift
  have hnone : ∀ d < 50, 0 < d → ¬ taskTail.drop d <+: taskTail := by decide +kernel
  by_contra hne
  exact hnone u.length (by omega) (List.length_pos_iff.mpr hne) hshift

theorem taskMessage_nil_iff (task : Bytes) :
    task ++ taskTail <:+: taskMessage [] task ↔ task.length ≤ 3828 := by
  have hroom : taskRoom [] = 4095 := rfl
  have hcontext : taskContext [] = [] := rfl
  rw [taskMessage_eq, List.infix_append_take_iff, length_instruction, hroom, hcontext, List.nil_append]
  constructor
  · rintro ⟨u, hu, hfits, hrepeat⟩
    rw [eq_nil_of_repeats hu hrepeat, List.length_nil] at hfits
    omega
  · intro hfits
    exact ⟨[], List.nil_suffix, by rw [List.length_nil]; omega, List.prefix_rfl⟩

/-- Behind passages there is less room, but a task that repeats the end of the
passages with the instruction may be found there. -/
theorem taskMessage_cons_iff {chunks : List Bytes} (h : IsPassages chunks) (hne : chunks ≠ [])
    (task : Bytes) :
    task ++ taskTail <:+: taskMessage chunks task ↔
      ∃ u, u <:+ ragContext chunks ++ ascii "\n" ++ taskHead ∧
        (ragContext chunks).length + task.length ≤ 3763 + u.length ∧
        task ++ taskTail <+: u ++ (task ++ taskTail) := by
  have hcontext : taskContext chunks = ragContext chunks ++ ascii "\n" := if_neg hne
  have hroom : taskRoom chunks + (ragContext chunks).length = 4030 := by
    have hrag := length_ragContext_le h
    have hnewline : (ascii "\n").length = 1 := by decide
    rw [taskRoom, if_neg hne, hcontext, List.length_append, hnewline, taskMessageSize]
    omega
  rw [taskMessage_eq, List.infix_append_take_iff, length_instruction, hcontext]
  refine exists_congr fun u ↦ and_congr_right fun _ ↦ and_congr_left fun _ ↦ ?_
  omega

/-- The task with the instruction behind it reaches the model in the first
message exactly if it fits, without passages up to 3828 bytes, or if the
passages and the task repeat the instruction so that all of it is found further
in front. -/
theorem task_reaches_model_whole_iff (setup : TurnSetup) (agent : TaskAgent)
    (task response : Bytes) (respSize : ℕ) (env : Env TaskCall TaskCall.Reply)
    (hsize : 0 < respSize) :
    let run := (agentRunTask setup agent task response respSize).run env []
    let chunks := agent.passages env task
    (∃ message ∈ firstMessage run.1, task ++ taskTail <:+: message) ↔
      chunks = [] ∧ task.length ≤ 3828 ∨
        chunks ≠ [] ∧ ((ragContext chunks).length + task.length ≤ 3763 ∨
          ∃ u, u <:+ ragContext chunks ++ ascii "\n" ++ taskHead ∧
            (ragContext chunks).length + task.length ≤ 3763 + u.length ∧
            task ++ taskTail <+: u ++ (task ++ taskTail)) := by
  intro run chunks
  have hfirst : firstMessage run.1 = some (taskMessage chunks task) :=
    firstMessage_agentRunTask setup agent task response hsize env
  have hpassages : IsPassages chunks := agent.passages_isPassages env task
  rw [hfirst]
  simp only [Option.mem_some_iff, exists_eq_left']
  by_cases hnil : chunks = []
  · rw [hnil, taskMessage_nil_iff]
    simp
  · rw [taskMessage_cons_iff hpassages hnil]
    constructor
    · exact fun h ↦ .inr ⟨hnil, .inr h⟩
    · rintro (⟨h, -⟩ | ⟨-, hfits | h⟩)
      · exact absurd h hnil
      · exact ⟨[], List.nil_suffix, hfits, List.prefix_rfl⟩
      · exact h

theorem task_reaches_model_whole_iff_short :
    ∃ message ∈ firstMessage ((agentRunTask ⟨.native, fun _ _ m ↦ (false, m)⟩ freshTaskAgent
      (ascii "sum up") [] 16384).run keylessEnv []).1, ascii "sum up" ++ taskTail <:+: message := by
  refine (task_reaches_model_whole_iff ⟨.native, fun _ _ m ↦ (false, m)⟩ freshTaskAgent
    (ascii "sum up") [] 16384 keylessEnv (by decide)).mpr (.inl ⟨rfl, by decide⟩)

/-- Of a task of 4000 bytes the end of the instruction is cut off. -/
theorem task_does_not_reach_model_whole :
    ¬ ∀ (setup : TurnSetup) (agent : TaskAgent) (task response : Bytes) (respSize : ℕ)
      (env : Env TaskCall TaskCall.Reply), 0 < respSize → 0 < task.length → task.length ≤ 4095 →
      ∃ message ∈ firstMessage ((agentRunTask setup agent task response respSize).run env []).1,
        task ++ taskTail <:+: message := by
  intro h
  have hlen : (List.replicate 4000 (97 : UInt8)).length = 4000 := List.length_replicate
  obtain ⟨message, hmessage, hwhole⟩ := h ⟨.native, fun _ _ m ↦ (false, m)⟩ freshTaskAgent
    (List.replicate 4000 97) [] 16384 keylessEnv (by decide) (by omega) (by omega)
  have hnone : freshTaskAgent.passages keylessEnv (List.replicate 4000 97) = [] := rfl
  rw [firstMessage_agentRunTask _ _ _ _ (by decide), hnone] at hmessage
  obtain rfl := Option.some.inj hmessage
  rw [taskMessage_nil_iff, hlen] at hwhole
  omega

end DoctorClaw
