import DoctorClaw.AgentTurn
import DoctorClaw.Lib.Decimal
import DoctorClaw.Rag

/-!
# Task-focused runs

`agent_run_task` takes turns on one task until a turn fails, an answer carries
the marker or the rounds are used up.  A turn is the whole tool loop of
`agent_think_with_tools`.  Besides the calls of its turns a run asks the index
of the workspace for passages, once, and puts alerts and memories in front of
the message of each turn.
-/

namespace DoctorClaw

open Interaction

/-! ## The agent and its calls -/

inductive AgentStatus
  | idle
  | thinking
  | executing
  | waitingApproval
  | error
  deriving DecidableEq

/-- The fields of `agent_t` that a task reads or changes. -/
structure TaskAgent where
  turn : AgentState
  state : AgentStatus
  currentTask : Bytes
  taskFocusEnabled : Bool
  maxAttentionRounds : ℤ
  workspaceDir : Bytes

/-- `enrich` is the start of a turn. -/
inductive TaskCall
  | ragQuery (path task : Bytes)
  | enrich (message : Bytes)
  | turn (c : AgentCall)

def TaskCall.Reply : TaskCall → Type
  | .ragQuery .. => List Bytes
  | .enrich _ => Bytes
  | .turn c => c.Reply

abbrev TaskM := Prog TaskCall TaskCall.Reply

def TaskCall.startsTurn : TaskCall → Bool
  | .enrich _ => true
  | _ => false

def AgentM.inTask {α : Type} (p : AgentM α) : TaskM α := p.embed TaskCall.turn fun _ r ↦ r

/-! ## The messages -/

def taskCompleteMarker : Bytes := ascii "[TASK_COMPLETE]"

def defaultMaxAttentionRounds : ℕ := 5

def responseIndicatesTaskComplete (response : Bytes) : Bool :=
  (CString.strstr taskCompleteMarker response).isSome

def taskInstruction (task : Bytes) : Bytes :=
  ascii "TASK (complete this fully before marking done):\n\n" ++ task ++
    ascii "\n\nUse tools as needed. Stay focused on this task. " ++
    ascii "When you have fully completed it, your final reply must include exactly " ++
    taskCompleteMarker ++ ascii " and a brief summary. Do not say " ++ taskCompleteMarker ++
    ascii " until the task is actually done."

def continueInstruction : Bytes :=
  ascii "Continue with the task. If you have fully completed it, respond with " ++
    taskCompleteMarker ++ ascii " and a brief summary. Otherwise continue with the next steps."

def taskMessageSize : ℕ := 4096

/-- The passages, as long as there is room. -/
def ragContext (chunks : List Bytes) : Bytes :=
  chunks.zipIdx.foldl (fun text chunk ↦
    if text.length < taskMessageSize - 512 then
      text ++ ascii "[" ++ Decimal.printNat (chunk.2 + 1) ++ ascii "] " ++ chunk.1 ++ ascii "\n"
    else text) (ascii "Relevant context from RAG:\n")

def taskMessage (chunks : List Bytes) (task : Bytes) : Bytes :=
  if chunks = [] then CString.cut taskMessageSize (taskInstruction task)
  else
    let text := ragContext chunks ++ ascii "\n"
    text ++ CString.cut (taskMessageSize - text.length - 64) (taskInstruction task)

/-- The best three passages, each in a buffer of its own. -/
def ragChunks (agent : TaskAgent) (task : Bytes) : TaskM (List Bytes) :=
  if agent.workspaceDir = [] then .ret []
  else do
    let path := CString.cut 512 (agent.workspaceDir ++ ascii "/rag.idx")
    let documents ← Prog.perform (TaskCall.ragQuery path task)
    .ret ((List.take 3 documents).map (CString.cut ragChunkSize))

/-! ## The run -/

structure TaskTurn where
  code : ℤ
  response : Bytes

/-- Return value, response and agent, with the turns taken. -/
structure TaskOutcome where
  code : ℤ
  response : Bytes
  agent : TaskAgent
  turns : List TaskTurn

def TaskAgent.release (agent : TaskAgent) : TaskAgent :=
  { agent with taskFocusEnabled := false, state := .idle }

def thinkOnce (setup : TurnSetup) (agent : TaskAgent) (message : Bytes) (respSize : ℕ) :
    TaskM (ℤ × Bytes × AgentState) := do
  let enriched ← Prog.perform (TaskCall.enrich message)
  (agentThinkWithTools setup agent.turn enriched respSize).inTask

/-- The loop, with the number of rounds left and the turns taken so far. -/
def attentionLoop (setup : TurnSetup) (respSize : ℕ) :
    ℕ → Bytes → TaskAgent → Bytes → List TaskTurn → TaskM TaskOutcome
  | 0, _, agent, response, turns => .ret ⟨0, response, agent.release, turns⟩
  | n + 1, userMsg, agent, _, turns => do
      let (result, response, turn) ← thinkOnce setup agent userMsg respSize
      let agent := { agent with turn := turn }
      let turns := turns ++ [⟨result, response⟩]
      if result ≠ 0 then .ret ⟨result, response, agent.release, turns⟩
      else if responseIndicatesTaskComplete response then
        .ret ⟨0, response, agent.release, turns⟩
      else attentionLoop setup respSize n continueInstruction agent response turns

def maxRounds (agent : TaskAgent) : ℕ :=
  if 0 < agent.maxAttentionRounds then agent.maxAttentionRounds.toNat
  else defaultMaxAttentionRounds

/-- `response` is what the caller's buffer holds before the run. -/
def agentRunTask (setup : TurnSetup) (agent : TaskAgent) (task response : Bytes) (respSize : ℕ) :
    TaskM TaskOutcome :=
  if respSize = 0 then .ret ⟨-1, response, agent, []⟩
  else do
    let agent := { agent with
      state := .thinking
      taskFocusEnabled := true
      currentTask := CString.cut 1024 task }
    let chunks ← ragChunks agent task
    attentionLoop setup respSize (maxRounds agent) (taskMessage chunks task) agent response []

/-! ## A turn always returns -/

theorem executeToolCalls_ensures (setup : TurnSetup) (calls : List ParsedToolCall)
    (s : AgentState) (g : LoopGuard) (past : List AgentCall) :
    (executeToolCalls setup calls s g).Ensures (fun _ _ ↦ True) past := by
  induction calls generalizing s g past with
  | nil => trivial
  | cons c calls ih =>
      unfold executeToolCalls
      split
      split_ifs with hok
      · exact ensures_perform fun result ↦ ih _ _ _
      · trivial

theorem requestCall_ensures (setup : TurnSetup) (provider : ProviderType) (model apiKey : Bytes)
    (s : AgentState) (past : List AgentCall) :
    (requestCall setup provider model apiKey s).Ensures (fun _ _ ↦ True) past := by
  unfold requestCall
  cases setup.dispatcherType <;> exact fun _ ↦ trivial

theorem thinkLoop_ensures (setup : TurnSetup) (provider : ProviderType) (model apiKey : Bytes)
    (respSize n : ℕ) (s : AgentState) (g : LoopGuard) (past : List AgentCall) :
    (thinkLoop setup provider model apiKey respSize n s g).Ensures (fun _ _ ↦ True) past := by
  induction n generalizing s g past with
  | zero => trivial
  | succ n ih =>
      unfold thinkLoop
      refine (requestCall_ensures setup provider model apiKey s past).bind fun past resp _ ↦ ?_
      split_ifs with hempty hcalls
      · trivial
      · trivial
      · refine ensures_perform fun _ ↦ (executeToolCalls_ensures setup _ s g _).bind ?_
        rintro past ⟨s, g, ok⟩ -
        cases ok with
        | true => exact ih _ _ _
        | false => trivial

theorem agentThinkWithTools_ensures (setup : TurnSetup) (s : AgentState) (message : Bytes)
    (respSize : ℕ) (past : List AgentCall) :
    (agentThinkWithTools setup s message respSize).Ensures (fun _ _ ↦ True) past := by
  refine ensures_perform fun openrouter ↦ ?_
  cases openrouter with
  | some apiKey => exact thinkLoop_ensures ..
  | none =>
      refine ensures_perform fun openai ↦ ?_
      cases openai with
      | some apiKey => exact thinkLoop_ensures ..
      | none => trivial

/-- A turn is one start and calls of the turn. -/
theorem thinkOnce_ensures (setup : TurnSetup) (agent : TaskAgent) (message : Bytes) (respSize : ℕ)
    (past : List TaskCall) :
    (thinkOnce setup agent message respSize).Ensures
      (fun after _ ↦ after.countP TaskCall.startsTurn = past.countP TaskCall.startsTurn + 1)
      past := by
  refine ensures_perform fun enriched ↦ ?_
  have hturn := agentThinkWithTools_ensures setup agent.turn enriched respSize []
  refine (hturn.embed (past ++ [.enrich message])).mono ?_
  rintro after _ ⟨calls, -, rfl⟩
  have hnone : (calls.map TaskCall.turn).countP TaskCall.startsTurn = 0 := by
    rw [List.countP_map, List.countP_eq_zero]
    intro c _
    exact Bool.false_ne_true
  rw [List.countP_append, List.countP_append, hnone]
  rfl

/-! ## Where the rounds end -/

def TaskTurn.goesOn (t : TaskTurn) : Bool :=
  decide (t.code = 0) && !responseIndicatesTaskComplete t.response

/-- Only the last turn fails or completes the task, and without such a turn
all rounds are used. -/
structure TaskOutcome.Settled (out : TaskOutcome) (rounds : ℕ) : Prop where
  turns_le : out.turns.length ≤ rounds
  earlier_go_on : ∀ t ∈ out.turns.dropLast, t.goesOn = true
  stopped_or_full : (∃ t ∈ out.turns.getLast?, t.goesOn = false) ∨ out.turns.length = rounds
  code_eq : out.code = (out.turns.getLast?.map TaskTurn.code).getD 0
  idle : out.agent.state = .idle
  unfocused : out.agent.taskFocusEnabled = false

theorem TaskOutcome.settled_of_last {turns : List TaskTurn} {t : TaskTurn} {rounds : ℕ}
    (hturns : ∀ t ∈ turns, t.goesOn = true) (hlt : turns.length < rounds)
    (ht : t.goesOn = false) (agent : TaskAgent) :
    (TaskOutcome.mk t.code t.response agent.release (turns ++ [t])).Settled rounds where
  turns_le := by simpa [Nat.succ_le_iff] using hlt
  earlier_go_on := by simpa using hturns
  stopped_or_full := .inl ⟨t, by simp, ht⟩
  code_eq := by simp
  idle := rfl
  unfocused := rfl

theorem TaskOutcome.settled_of_full {turns : List TaskTurn} (hturns : ∀ t ∈ turns, t.goesOn = true)
    (response : Bytes) (agent : TaskAgent) :
    (TaskOutcome.mk 0 response agent.release turns).Settled turns.length where
  turns_le := Nat.le_refl _
  earlier_go_on := fun t ht ↦ hturns t (List.mem_of_mem_dropLast ht)
  stopped_or_full := .inr rfl
  code_eq := by
    cases hlast : turns.getLast? with
    | none => rfl
    | some t =>
        have hgo := hturns t (List.mem_of_getLast? hlast)
        simp only [TaskTurn.goesOn, Bool.and_eq_true, decide_eq_true_eq] at hgo
        exact hgo.1.symm
  idle := rfl
  unfocused := rfl

theorem attentionLoop_ensures (setup : TurnSetup) (respSize n : ℕ) (userMsg : Bytes)
    (agent : TaskAgent) (response : Bytes) {turns : List TaskTurn}
    (hturns : ∀ t ∈ turns, t.goesOn = true) {past : List TaskCall}
    (hpast : past.countP TaskCall.startsTurn = turns.length) :
    (attentionLoop setup respSize n userMsg agent response turns).Ensures
      (fun after out ↦ after.countP TaskCall.startsTurn = out.turns.length ∧
        out.Settled (turns.length + n)) past := by
  induction n generalizing userMsg agent response turns past with
  | zero => exact ⟨hpast, TaskOutcome.settled_of_full hturns response agent⟩
  | succ n ih =>
      refine (thinkOnce_ensures setup agent userMsg respSize past).bind ?_
      rintro after ⟨result, response, turn⟩ hafter
      have hcount : after.countP TaskCall.startsTurn =
          (turns ++ [(⟨result, response⟩ : TaskTurn)]).length := by
        rw [hafter, hpast, List.length_append, List.length_singleton]
      have hlt : turns.length < turns.length + (n + 1) := by omega
      by_cases hresult : result = 0
      · subst hresult
        cases hdone : responseIndicatesTaskComplete response with
        | true =>
            have hstop : TaskTurn.goesOn ⟨0, response⟩ = false := by simp [TaskTurn.goesOn, hdone]
            simp only [ne_eq, not_true_eq_false, if_false, hdone, if_true]
            exact ⟨hcount, TaskOutcome.settled_of_last hturns hlt hstop _⟩
        | false =>
            have hgo : TaskTurn.goesOn ⟨0, response⟩ = true := by simp [TaskTurn.goesOn, hdone]
            have hturns' : ∀ t ∈ turns ++ [⟨0, response⟩], t.goesOn = true := by
              intro t ht
              rcases List.mem_append.mp ht with ht | ht
              · exact hturns t ht
              · rw [List.mem_singleton.mp ht]
                exact hgo
            simp only [ne_eq, not_true_eq_false, if_false, hdone, Bool.false_eq_true]
            have hrest := ih continueInstruction { agent with turn := turn } response hturns' hcount
            rwa [List.length_append, List.length_singleton, Nat.add_assoc, Nat.add_comm 1 n] at hrest
      · have hstop : TaskTurn.goesOn ⟨result, response⟩ = false := by
          simp [TaskTurn.goesOn, hresult]
        simp only [ne_eq, hresult, not_false_eq_true, if_true]
        exact ⟨hcount, TaskOutcome.settled_of_last hturns hlt hstop _⟩

theorem ragChunks_ensures (agent : TaskAgent) (task : Bytes) :
    (ragChunks agent task).Ensures
      (fun after _ ↦ after.countP TaskCall.startsTurn = 0) [] := by
  unfold ragChunks
  split_ifs
  · rfl
  · exact ensures_perform fun documents ↦ rfl

/-- Whatever the environment answers, a task takes a turn at a time until one
fails or answers with the marker, at most the given number of them, returns
the code of the last one and leaves the agent idle and out of focus. -/
theorem agent_run_task_settles (setup : TurnSetup) (agent : TaskAgent) (task response : Bytes)
    (respSize : ℕ) (hsize : 0 < respSize) (env : Env TaskCall TaskCall.Reply) :
    let run := (agentRunTask setup agent task response respSize).run env []
    ∃ out, run.2 = some out ∧
      run.1.countP TaskCall.startsTurn = out.turns.length ∧
      out.turns.length ≤
        (if 0 < agent.maxAttentionRounds then agent.maxAttentionRounds.toNat else 5) ∧
      (∀ t ∈ out.turns.dropLast,
        t.code = 0 ∧ responseIndicatesTaskComplete t.response = false) ∧
      ((∃ t ∈ out.turns.getLast?, t.code ≠ 0 ∨ responseIndicatesTaskComplete t.response = true) ∨
        out.turns.length =
          if 0 < agent.maxAttentionRounds then agent.maxAttentionRounds.toNat else 5) ∧
      out.code = (out.turns.getLast?.map TaskTurn.code).getD 0 ∧
      out.agent.state = .idle ∧ out.agent.taskFocusEnabled = false := by
  intro run
  have hrun : (agentRunTask setup agent task response respSize).Ensures
      (fun after out ↦ after.countP TaskCall.startsTurn = out.turns.length ∧
        out.Settled (maxRounds agent)) [] := by
    rw [agentRunTask, if_neg (by omega)]
    refine (ragChunks_ensures _ task).bind fun past chunks hpast ↦ ?_
    have hnone : ∀ t ∈ ([] : List TaskTurn), t.goesOn = true := List.forall_mem_nil _
    have hloop := attentionLoop_ensures setup respSize (maxRounds agent) (taskMessage chunks task)
      { agent with state := .thinking, taskFocusEnabled := true,
                   currentTask := CString.cut 1024 task } response hnone hpast
    rwa [List.length_nil, Nat.zero_add] at hloop
  obtain ⟨out, hvalue, hcount, hsettled⟩ := hrun.run env
  refine ⟨out, hvalue, hcount, hsettled.turns_le, ?_, ?_, hsettled.code_eq, hsettled.idle,
    hsettled.unfocused⟩
  · intro t ht
    simpa [TaskTurn.goesOn] using hsettled.earlier_go_on t ht
  · rcases hsettled.stopped_or_full with ⟨t, ht, hstop⟩ | hfull
    · refine .inl ⟨t, ht, ?_⟩
      by_cases hcode : t.code = 0
      · exact .inr (by simpa [TaskTurn.goesOn, hcode] using hstop)
      · exact .inl hcode
    · exact .inr hfull

/-- No key is configured, no index is found and nothing is put in front of a
message. -/
def keylessEnv : Env TaskCall TaskCall.Reply
  | _, .ragQuery .. => ([] : List Bytes)
  | _, .enrich message => message
  | _, .turn (.getenv _) => (none : Option Bytes)
  | _, .turn (.chatCompletion ..) => ChatResponse.mk [] 0 []
  | _, .turn (.chatWithTools ..) => ChatResponse.mk [] 0 []
  | _, .turn .setApprovalContext => ()
  | _, .turn (.executeTool ..) => ([] : Bytes)

def freshTaskAgent : TaskAgent where
  turn := ⟨⟨[], 32⟩, 0, 0⟩
  state := .idle
  currentTask := []
  taskFocusEnabled := false
  maxAttentionRounds := 0
  workspaceDir := ascii "/tmp/work"

theorem agent_run_task_settles_without_key :
    let run := (agentRunTask ⟨.native, fun _ _ m ↦ (false, m)⟩ freshTaskAgent (ascii "sum up")
      [] 16384).run keylessEnv []
    ∃ out, run.2 = some out ∧ out.turns.map TaskTurn.code = [-1] ∧ out.code = -1 ∧
      out.agent.state = .idle ∧ out.agent.taskFocusEnabled = false := by
  intro run
  obtain ⟨out, hvalue, -, -, -, -, hcode, hidle, hfocus⟩ := agent_run_task_settles
    ⟨.native, fun _ _ m ↦ (false, m)⟩ freshTaskAgent (ascii "sum up") [] 16384 (by decide) keylessEnv
  have hturns : run.2.map (fun out ↦ out.turns.map TaskTurn.code) = some [-1] := by decide
  have hlast : out.turns.map TaskTurn.code = [-1] := by
    rw [show run.2 = some out from hvalue] at hturns
    exact Option.some.inj hturns
  refine ⟨out, hvalue, hlast, ?_, hidle, hfocus⟩
  rw [hcode, ← List.getLast?_map, hlast]
  rfl

end DoctorClaw
