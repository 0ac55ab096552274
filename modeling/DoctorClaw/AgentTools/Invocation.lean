import DoctorClaw.AgentTools.Arguments

/-!
# Tools that are invoked

A tool works on given arguments when its implementation runs on exactly their
values and when a failure is not reported as a success.  The three tools that
run a command do so for a command that the arguments start with and that holds
no text that reads as a parameter `command`.
-/

namespace DoctorClaw

open Interaction

/-! ## What is invoked -/

/-- The implementation that `tools_execute` runs for a tool the agent passes
on, with the values it acts on. -/
def ToolState.invocation (g : ToolState) (name params : Bytes) : Option (Tool × List Bytes) :=
  (toolNamed name).bind fun tool ↦
    if (tool.gate g).isSome then none
    else match tool with
      | .shell | .zsh | .network => some (tool, [shellCommand params])
      | .memoryStore => (memoryStoreArgs params).map fun a ↦ (tool, [a.2.1, a.2.2])
      | .memoryRecall => (memoryRecallArgs params).map fun a ↦ (tool, [a.2])
      | _ => none

/-- An implementation once it has its values. -/
def Tool.actOn (g : ToolState) (params : Bytes) (r : ToolResult) : Tool → List Bytes → ToolM Outcome
  | .shell, [command] => runChecked g.shellPolicy none (shellTimeout params) command
  | .zsh, [command] =>
      runChecked g.shellPolicy (some (ascii "/bin/zsh")) (shellTimeout params) command
  | .network, [command] => runChecked g.shellPolicy none (shellTimeout params) command
  | .memoryStore, [key, content] =>
      succeedWith r (ascii "Memory stored: [" ++
        (parseStringParam params (ascii "namespace")).getD (ascii "default") ++ ascii "] " ++ key ++
        ascii " = " ++ content)
  | .memoryRecall, [query] =>
      succeedWith r (ascii "Recalled from [" ++
        (parseStringParam params (ascii "namespace")).getD (ascii "default") ++ ascii "]: " ++
        query)
  | _, _ => .halt

theorem toolsExecute_of_invocation (libc : Libc) {g : ToolState} {name params : Bytes} {tool : Tool}
    {values : List Bytes} (h : g.invocation name params = some (tool, values)) :
    toolsExecute libc g name params =
      (tool.actOn g params { ToolResult.zero with name := CString.cut maxToolName name } values >>=
        fun outcome ↦ .ret (settle outcome)) := by
  unfold ToolState.invocation at h
  obtain ⟨tool', hname, h⟩ := Option.bind_eq_some_iff.mp h
  split_ifs at h with hgate
  have hnone : tool'.gate g = none := by simpa using hgate
  simp only [toolsExecute, hname, hnone]
  have hspace : (paramPointer params "namespace" (paramBuffer params (ascii "namespace"))) =
      parseStringParam params (ascii "namespace") := by
    simp [paramPointer, hasParam, parseStringParam]
  cases tool' with
  | shell =>
      obtain ⟨rfl, rfl⟩ : Tool.shell = tool ∧ [shellCommand params] = values := by simpa using h
      rfl
  | zsh =>
      obtain ⟨rfl, rfl⟩ : Tool.zsh = tool ∧ [shellCommand params] = values := by simpa using h
      rfl
  | network =>
      obtain ⟨rfl, rfl⟩ : Tool.network = tool ∧ [shellCommand params] = values := by simpa using h
      rfl
  | memoryStore =>
      obtain ⟨⟨space, key, content⟩, hargs, heq⟩ := Option.map_eq_some_iff.mp h
      obtain ⟨rfl, rfl⟩ : Tool.memoryStore = tool ∧ [key, content] = values := by simpa using heq
      have hs : space = (parseStringParam params (ascii "namespace")).getD (ascii "default") := by
        unfold memoryStoreArgs at hargs
        dsimp only at hargs
        split at hargs
        · rw [← hspace]
          exact (congrArg Prod.fst (Option.some.inj hargs)).symm
        · cases hargs
      simp only [Tool.execute, toolMemoryStoreExecute, hargs, Tool.actOn, hs]
      rfl
  | memoryRecall =>
      obtain ⟨⟨space, query⟩, hargs, heq⟩ := Option.map_eq_some_iff.mp h
      obtain ⟨rfl, rfl⟩ : Tool.memoryRecall = tool ∧ [query] = values := by simpa using heq
      have hs : space = (parseStringParam params (ascii "namespace")).getD (ascii "default") := by
        obtain ⟨query', -, heq'⟩ := Option.map_eq_some_iff.mp hargs
        rw [← hspace]
        exact (congrArg Prod.fst heq').symm
      simp only [Tool.execute, toolMemoryRecallExecute, hargs, Tool.actOn, hs]
      rfl
  | _ => cases h

/-! ## The property -/

/-- The implementation of the tool runs on exactly the values of the
arguments. -/
def Invokes (g : ToolState) (t : DefaultTool) (o : ArgsObject) : Prop :=
  ∃ params, agentToolCall t.name o.render = .ok (t.name, params) ∧
    g.invocation t.name params = some (t.tool, o.values t)

def toolTextSize : ℕ := 8192

/-- A failure is not handed back as a success, whatever the environment. -/
def ReportsFailure (libc : Libc) (g : ToolState) (t : DefaultTool) (o : ArgsObject) : Prop :=
  ∀ params, agentToolCall t.name o.render = .ok (t.name, params) →
    ∀ (env : Env Call Call.Reply) (tr : ToolResult),
      ((toolsExecute libc g t.name params).run env []).2 = some (false, tr) →
        ((agentExecuteToolByName libc g t.name o.render toolTextSize).run env []).2 ≠
          some (true, ascii "Tool executed successfully")

theorem run_agentExecuteToolByName (libc : Libc) (g : ToolState) {name args tool params : Bytes}
    (h : agentToolCall name args = .ok (tool, params)) (size : ℕ) (env : Env Call Call.Reply) :
    ((agentExecuteToolByName libc g name args size).run env []).2 =
      ((toolsExecute libc g tool params).run env []).2.map fun outcome ↦
        (true, CString.cut size (toolText outcome.2)) := by
  simp only [agentExecuteToolByName, h]
  exact Prog.run_bind_ret env [] _ _

/-- What the agent does with a tool that is invoked. -/
theorem Invokes.agentExecuteToolByName (libc : Libc) {g : ToolState} {t : DefaultTool}
    {o : ArgsObject} (h : Invokes g t o) (size : ℕ) :
    ∃ params, agentExecuteToolByName libc g t.name o.render size =
      (t.tool.actOn g params { ToolResult.zero with name := CString.cut maxToolName t.name }
        (o.values t) >>= fun outcome ↦
          .ret (true, CString.cut size (toolText (settle outcome).2))) := by
  obtain ⟨params, hcall, hinvoked⟩ := h
  refine ⟨params, ?_⟩
  simp only [DoctorClaw.agentExecuteToolByName, hcall, toolsExecute_of_invocation libc hinvoked]
  exact Prog.bind_assoc _ _ _

/-! ## The shell tools -/

theorem oneArgument_eq_ok {name key error : String} {width : ℕ} {args : Bytes}
    {call : Bytes × Bytes} : oneArgument name key width error args = .ok call ↔
      (scanString (opening (ascii key)) width args).map Prod.fst = some call.2 ∧
        call.1 = ascii name := by
  unfold oneArgument
  cases scanString (opening (ascii key)) width args with
  | none => simp
  | some found => simp [Prod.ext_iff, and_comm, eq_comm]

theorem shellCommand_eq_self {v : Bytes} (hv : v ≠ []) :
    shellCommand v = v ↔ hasParam v "command" = false := by
  have hshort := length_paramBuffer_lt hv (ascii "command")
  unfold shellCommand parseStringParam
  by_cases hnil : paramBuffer v (ascii "command") = []
  · simp [hnil, hasParam]
  · rw [if_neg hnil, Option.getD_some]
    constructor
    · intro h
      rw [h] at hshort
      omega
    · intro h
      simp [hasParam, hnil] at h

def DefaultTool.IsShell (t : DefaultTool) : Prop := t = .shell ∨ t = .zsh ∨ t = .network

theorem DefaultTool.IsShell.agentToolCall {t : DefaultTool} (ht : t.IsShell) (args params : Bytes) :
    agentToolCall t.name args = .ok (t.name, params) ↔
      (scanString (opening (ascii "command")) 1023 args).map Prod.fst = some params := by
  rcases ht with rfl | rfl | rfl
  · exact oneArgument_eq_ok.trans (and_iff_left rfl)
  · exact oneArgument_eq_ok.trans (and_iff_left rfl)
  · exact oneArgument_eq_ok.trans (and_iff_left rfl)

theorem DefaultTool.IsShell.toolNamed {t : DefaultTool} (ht : t.IsShell) :
    toolNamed t.name = some t.tool := by
  rcases ht with rfl | rfl | rfl <;> rfl

theorem DefaultTool.IsShell.invocation {t : DefaultTool} (ht : t.IsShell) (g : ToolState)
    (params : Bytes) : g.invocation t.name params =
      if t.tool.gate g = none then some (t.tool, [shellCommand params]) else none := by
  rw [ToolState.invocation, ht.toolNamed, Option.bind_some]
  cases hgate : t.tool.gate g with
  | some error => rfl
  | none => rcases ht with rfl | rfl | rfl <;> rfl

theorem DefaultTool.IsShell.params {t : DefaultTool} (ht : t.IsShell) :
    t.params = [("command", 1024)] := by
  rcases ht with rfl | rfl | rfl <;> rfl

theorem DefaultTool.IsShell.invokes_iff {t : DefaultTool} (ht : t.IsShell) (g : ToolState)
    {o : ArgsObject} (hsat : o.Satisfies t) :
    Invokes g t o ↔ t.tool.gate g = none ∧ opening (ascii "command") <+: o.render ∧
      o.value (ascii "command") ≠ [] ∧ hasParam (o.value (ascii "command")) "command" = false := by
  have hvalues : o.values t = [o.value (ascii "command")] := by
    rw [ArgsObject.values, ht.params]
    rfl
  have hparam : ("command", 1023 + 1) ∈ t.params := by
    rw [ht.params]
    exact List.mem_cons_self
  have hscan := scanString_opening hsat hparam (by decide)
  simp only [Invokes, ht.agentToolCall, hscan, ht.invocation, hvalues]
  generalize o.value (ascii "command") = v
  constructor
  · rintro ⟨params, hparams, hinvoked⟩
    split_ifs at hparams hinvoked with hopen hgate
    obtain rfl := Option.some.inj hparams
    have hcommand : shellCommand v = v := by simpa using hinvoked
    exact ⟨hgate, hopen.1, hopen.2, (shellCommand_eq_self hopen.2).mp hcommand⟩
  · rintro ⟨hgate, hopen, hne, hparam⟩
    refine ⟨v, if_pos ⟨hopen, hne⟩, ?_⟩
    rw [if_pos hgate, (shellCommand_eq_self hne).mpr hparam]

def FailsWithError (outcome : Outcome) : Prop :=
  outcome.1 = false → outcome.2.result = [] ∧ outcome.2.error ≠ []

theorem failsWithError_printError {r : ToolResult} (hr : r.result = []) {s : Bytes} (hs : s ≠ []) :
    FailsWithError (false, r.printError s) := by
  obtain ⟨c, s, rfl⟩ := List.exists_cons_of_ne_nil hs
  exact fun _ ↦ ⟨hr, List.cons_ne_nil _ _⟩

theorem returns_runChecked (policy : Option SecurityPolicy) (shell : Option Bytes) (timeout : ℤ)
    (command : Bytes) : (runChecked policy shell timeout command).Returns FailsWithError := by
  have hfail {s : Bytes} (hs : s ≠ []) : (failWith .zero s).Returns FailsWithError :=
    failsWithError_printError rfl hs
  have hdone (r : ToolResult) : FailsWithError (true, r) := fun h ↦ by cases h
  unfold runChecked
  refine returns_ite (fun _ ↦ hfail (by decide)) fun _ ↦ ?_
  refine returns_ite (fun _ ↦ hfail (by decide)) fun _ ↦ ?_
  refine returns_ite (fun _ ↦ hfail (by decide)) fun _ ↦ returns_perform fun _ ↦ ?_
  refine returns_ite (fun _ ↦ returns_perform fun reply ↦ ?_) fun _ ↦ hfail (by decide)
  exact returns_ite (fun _ ↦ trivial) fun _ ↦ returns_ite (fun _ ↦ hdone _) fun _ ↦ hdone _

theorem Tool.gate_ne_nil {g : ToolState} {tool : Tool} {error : Bytes}
    (h : tool.gate g = some error) : error ≠ [] := by
  obtain ⟨action, -, hcheck⟩ := Option.bind_eq_some_iff.mp h
  unfold checkApprovalRisky at hcheck
  split at hcheck
  · cases hcheck
  · cases hcheck
  · split_ifs at hcheck
    obtain rfl := Option.some.inj hcheck
    exact List.cons_ne_nil _ _

theorem toolText_of_failsWithError {tr : ToolResult} (h : FailsWithError (false, tr)) :
    CString.cut toolTextSize (toolText tr) ≠ ascii "Tool executed successfully" := by
  have hresult : tr.result = [] := (h rfl).1
  have herror : tr.error ≠ [] := (h rfl).2
  have htext : toolText tr = ascii "Error: " ++ tr.error := by
    simp [toolText, hresult, herror]
  rw [htext]
  intro heq
  have hhead := congrArg List.head? heq
  cases hhead

theorem DefaultTool.IsShell.reportsFailure {t : DefaultTool} (ht : t.IsShell) (libc : Libc)
    (g : ToolState) (o : ArgsObject) : ReportsFailure libc g t o := by
  intro params hcall env tr hrun
  have hreturns : (toolsExecute libc g t.name params).Returns FailsWithError := by
    simp only [toolsExecute, ht.toolNamed]
    cases hgate : t.tool.gate g with
    | some error =>
        exact failsWithError_printError rfl (Tool.gate_ne_nil hgate)
    | none =>
        have hbody : (t.tool.execute libc g params
            { ToolResult.zero with name := CString.cut maxToolName t.name }).Returns
              FailsWithError := by
          rcases ht with rfl | rfl | rfl <;> exact returns_runChecked _ _ _ _
        exact hbody.bind fun outcome h ↦ h
  rw [run_agentExecuteToolByName libc g hcall, hrun]
  intro heq
  have htext := congrArg Prod.snd (Option.some.inj heq)
  exact toolText_of_failsWithError (hreturns.run env [] hrun) htext

end DoctorClaw
