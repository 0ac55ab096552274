import DoctorClaw.Tools.Execute

/-!
# What counts as success

An implementation reports twice, by its return value and by the success flag
of the result; the dispatcher keeps the return value.  For most tools the two
agree.  The others run a command and return 0 whatever its status was, so that
a failed command is reported as a success.
-/

namespace DoctorClaw

open Interaction Command

/-! ## Implementations whose two reports agree -/

def Outcome.Agrees (o : Outcome) : Prop := o.1 = o.2.success

theorem failWith_agrees {r : ToolResult} (hr : r.success = false) (s : Bytes) :
    (failWith r s).Returns Outcome.Agrees := hr.symm

theorem succeedWith_agrees (r : ToolResult) (s : Bytes) :
    (succeedWith r s).Returns Outcome.Agrees := rfl

theorem httpReport_agrees (maxLen : ℤ) (data : Bytes) :
    (httpReport maxLen data).Returns Outcome.Agrees := by
  refine returns_ite (fun _ ↦ succeedWith_agrees _ _) fun _ ↦ returns_ite (fun _ ↦ ?_) fun _ ↦
    succeedWith_agrees _ _
  exact returns_ite (fun _ ↦ succeedWith_agrees _ _) fun _ ↦ trivial

/-- The tools that run a command and return 0 whatever its status is. -/
def Tool.dropsStatus : Tool → Bool
  | .shell | .zsh | .network | .screenshot | .gitClone | .gitPull | .gitCommit | .gitOperations
  | .cronAdd | .cronList | .cronRemove | .cronRun | .schedule => true
  | _ => false

theorem execute_agrees (libc : Libc) (g : ToolState) (params : Bytes) {r : ToolResult}
    (hr : r.success = false) {tool : Tool} (h : tool.dropsStatus = false) :
    (tool.execute libc g params r).Returns Outcome.Agrees := by
  have hzero : ToolResult.zero.success = false := rfl
  cases tool with
  | grep =>
      unfold Tool.execute toolGrepExecute
      dsimp only
      split
      · exact failWith_agrees hr _
      · split
        · exact failWith_agrees hr _
        · refine (returns_true _).bind fun output _ ↦ ?_
          exact returns_ite (fun _ ↦ succeedWith_agrees _ _) fun _ ↦ succeedWith_agrees _ _
  | list =>
      unfold Tool.execute toolListExecute
      refine returns_perform fun names ↦ ?_
      cases names with
      | none => exact returns_perform fun _ ↦ failWith_agrees hr _
      | some names => exact (returns_true _).bind fun _ _ ↦ succeedWith_agrees _ _
  | _ =>
      first
      | exact absurd h (by decide)
      | simp only [Tool.execute, toolFileReadExecute, toolFileWriteExecute, toolGlobExecute,
          toolBrowseExecute, toolStatExecute, toolMkdirExecute, toolRmExecute, toolCpExecute,
          toolMvExecute, toolEnvExecute, toolSetenvExecute, toolExistsExecute, toolEditExecute,
          toolHttpRequestExecute, toolWebSearchExecute, toolImageInfoExecute,
          toolHardwareBoardInfoExecute, toolHardwareMemoryReadExecute,
          toolHardwareMemoryMapExecute, toolMemoryStoreExecute, toolMemoryRecallExecute,
          toolMemoryForgetExecute, toolPushoverExecute, toolDelegateExecute, toolComposioExecute,
          toolBrowserOpenExecute, toolBrowserExecute, toolCronRunsExecute, toolCronUpdateExecute,
          toolProxyConfigExecute, toolSchemaExecute]
        repeat first
          | with_reducible exact failWith_agrees hr _
          | with_reducible exact failWith_agrees hzero _
          | with_reducible exact succeedWith_agrees _ _
          | with_reducible exact httpReport_agrees _ _
          | with_reducible refine returns_ite (fun _ ↦ ?_) fun _ ↦ ?_
          | refine returns_perform fun _ ↦ ?_
          | split
          | exact trivial

/-! ## The status of a command -/

/-- The status a command of the run ends with.  That of a pipe is never looked
at by the source and is given by `pipeStatus`. -/
def exitStatus (env : Env Call Call.Reply) (pipeStatus : List Call → Command → ℤ)
    (past : List Call) : Call → Option ℤ
  | .system cmd => some (env past (.system cmd))
  | .runWithTimeout cmd timeout shell => some (env past (.runWithTimeout cmd timeout shell)).1
  | .popen cmd => (env past (.popen cmd)).map fun _ ↦ pipeStatus past cmd
  | _ => none

def exitStatuses (env : Env Call Call.Reply) (pipeStatus : List Call → Command → ℤ) :
    List Call → List Call → List ℤ
  | _, [] => []
  | past, c :: calls =>
      (exitStatus env pipeStatus past c).toList ++ exitStatuses env pipeStatus (past ++ [c]) calls

/-- The two reports agree unless a command failed, and then the return value is
0 all the same. -/
structure Unheeded (statuses : List ℤ) (value : Option Outcome) : Prop where
  of_zero : (∀ s ∈ statuses, s = 0) → ∀ o ∈ value, o.Agrees
  of_nonzero : (∃ s ∈ statuses, s ≠ 0) → ∀ o ∈ value, o.1 = true

section Unheeded

variable {env : Env Call Call.Reply} {pipeStatus : List Call → Command → ℤ} {past : List Call}

def Drops (env : Env Call Call.Reply) (pipeStatus : List Call → Command → ℤ) (past : List Call)
    (p : ToolM Outcome) : Prop :=
  Unheeded (exitStatuses env pipeStatus past (p.run env past).1) (p.run env past).2

theorem drops_of_agrees {o : Outcome} (h : o.Agrees) : Drops env pipeStatus past (.ret o) where
  of_zero := by
    rintro - _ ⟨⟩
    exact h
  of_nonzero := by
    rintro ⟨s, hs, -⟩
    cases hs

theorem drops_failWith {r : ToolResult} (hr : r.success = false) (s : Bytes) :
    Drops env pipeStatus past (failWith r s) := drops_of_agrees hr.symm

theorem drops_perform {c : Call} {f : c.Reply → ToolM Outcome}
    (hc : exitStatus env pipeStatus past c = none)
    (h : Drops env pipeStatus (past ++ [c]) (f (env past c))) :
    Drops env pipeStatus past (.perform c >>= f) := by
  unfold Drops
  rw [Prog.run_perform_bind, exitStatuses, hc]
  exact h

/-- A command with nothing called behind it. -/
theorem drops_command {c : Call} {f : c.Reply → ToolM Outcome} {status : ℤ}
    (hc : exitStatus env pipeStatus past c = some status)
    (hf : f (env past c) = .halt ∨ ∃ o : Outcome, f (env past c) = .ret o ∧
      (status = 0 → o.Agrees) ∧ (status ≠ 0 → o.1 = true)) :
    Drops env pipeStatus past (.perform c >>= f) := by
  unfold Drops
  rw [Prog.run_perform_bind]
  rcases hf with hhalt | ⟨o, hret, hzero, hnonzero⟩
  · rw [hhalt]
    constructor <;> rintro - _ ⟨⟩
  · rw [hret]
    simp only [exitStatuses, Prog.run, hc, Option.toList_some, List.append_nil]
    constructor
    · rintro hstatus _ ⟨⟩
      exact hzero (hstatus status List.mem_cons_self)
    · rintro ⟨s, hs, hne⟩ _ ⟨⟩
      exact hnonzero (List.mem_singleton.mp hs ▸ hne)

theorem drops_popen {cmd : Command} {f : Option Bytes → ToolM Outcome} {o : Outcome}
    (hnone : f none = .ret o) (ho : o.Agrees)
    (hsome : ∀ data, ∃ o : Outcome, f (some data) = .ret o ∧ o.Agrees ∧ o.1 = true) :
    Drops env pipeStatus past (Sys.popen cmd >>= f) := by
  cases hpipe : env past (.popen cmd) with
  | none =>
      refine drops_perform (by simp [exitStatus, hpipe]) ?_
      rw [hpipe, hnone]
      exact drops_of_agrees ho
  | some data =>
      obtain ⟨o, hret, hagrees, hzero⟩ := hsome data
      refine drops_command (by simp only [exitStatus, hpipe, Option.map_some]; rfl) (.inr ⟨o, ?_, ?_⟩)
      · rw [hpipe, hret]
      · exact ⟨fun _ ↦ hagrees, fun _ ↦ hzero⟩

/-- Both branches return 0. -/
theorem drops_system {cmd : Command} {done : Outcome} {failed : ℤ → Outcome}
    {f : ℤ → ToolM Outcome} (hdone : ∀ ret, ret = 0 → f ret = .ret done) (hagrees : done.Agrees)
    (hfailed : ∀ ret, ret ≠ 0 → f ret = .ret (failed ret)) (hzero : ∀ ret, (failed ret).1 = true) :
    Drops env pipeStatus past (Sys.system cmd >>= f) := by
  refine drops_command rfl (.inr ?_)
  by_cases hret : env past (.system cmd) = 0
  · exact ⟨_, hdone _ hret, fun _ ↦ hagrees, fun hne ↦ absurd hret hne⟩
  · exact ⟨_, hfailed _ hret, fun heq ↦ absurd heq hret, fun _ ↦ hzero _⟩

theorem drops_systemReport (r : ToolResult) (cmd : Command) (failed : ℤ → Bytes) (done : Bytes) :
    Drops env pipeStatus past (systemReport r cmd failed done) :=
  drops_system (fun _ h ↦ if_pos h) rfl (fun _ h ↦ if_neg h) fun _ ↦ rfl

theorem shellOutcome_cases (status : ℤ) (output : Bytes) :
    shellOutcome status output = .halt ∨ ∃ o : Outcome, shellOutcome status output = .ret o ∧
      o.1 = true ∧ o.2.success = decide (status = 0) := by
  unfold shellOutcome
  dsimp only
  split_ifs
  · exact .inl rfl
  · exact .inr ⟨_, rfl, rfl, rfl⟩
  · exact .inr ⟨_, rfl, rfl, rfl⟩

theorem drops_runChecked (policy : Option SecurityPolicy) (shell : Option Bytes) (timeout : ℤ)
    (command : Bytes) : Drops env pipeStatus past (runChecked policy shell timeout command) := by
  unfold runChecked
  split_ifs
  · exact drops_failWith rfl _
  · exact drops_failWith rfl _
  · exact drops_failWith rfl _
  · refine drops_perform rfl (drops_command rfl ((shellOutcome_cases _ _).imp_right ?_))
    rintro ⟨o, hret, hzero, hsuccess⟩
    refine ⟨o, hret, fun hstatus ↦ ?_, fun _ ↦ hzero⟩
    rw [Outcome.Agrees, hzero, hsuccess]
    exact (decide_eq_true hstatus).symm
  · exact drops_perform rfl (drops_failWith rfl _)

/-- The tools on commands, one by one. -/
theorem execute_drops (libc : Libc) (g : ToolState) (params : Bytes) {r : ToolResult}
    (hr : r.success = false) {tool : Tool} (h : tool.dropsStatus = true) :
    Drops env pipeStatus past (tool.execute libc g params r) := by
  cases tool with
  | shell => exact drops_runChecked ..
  | zsh => exact drops_runChecked ..
  | network => exact drops_runChecked ..
  | screenshot => exact drops_system (fun _ h ↦ if_pos h) rfl (fun _ h ↦ if_neg h) fun _ ↦ rfl
  | gitClone =>
      unfold Tool.execute toolGitCloneExecute
      dsimp only
      split
      · exact drops_failWith hr _
      · exact drops_systemReport ..
  | gitPull => exact drops_systemReport ..
  | gitCommit =>
      unfold Tool.execute toolGitCommitExecute
      dsimp only
      split
      · exact drops_failWith hr _
      · exact drops_systemReport ..
  | gitOperations =>
      unfold Tool.execute toolGitOperationsExecute
      dsimp only
      split
      · exact drops_failWith hr _
      · refine drops_popen rfl hr.symm fun data ↦ ?_
        dsimp only
        split_ifs
        · exact ⟨_, rfl, rfl, rfl⟩
        · exact ⟨_, rfl, rfl, rfl⟩
  | cronAdd =>
      unfold Tool.execute toolCronAddExecute
      dsimp only
      split
      · exact drops_systemReport ..
      · exact drops_failWith hr _
  | cronList =>
      refine drops_popen rfl hr.symm fun data ↦ ?_
      dsimp only
      split_ifs
      · exact ⟨_, rfl, rfl, rfl⟩
      · exact ⟨_, rfl, rfl, rfl⟩
  | cronRemove =>
      unfold Tool.execute toolCronRemoveExecute
      dsimp only
      split
      · exact drops_system (fun _ h ↦ if_pos (decide_eq_true h)) rfl
          (fun _ h ↦ if_neg (by simpa using h)) fun _ ↦ rfl
      · exact drops_system (fun _ h ↦ if_pos (decide_eq_true h)) rfl
          (fun _ h ↦ if_neg (by simpa using h)) fun _ ↦ rfl
      · exact drops_command rfl (.inr ⟨_, if_pos rfl, fun _ ↦ rfl, fun _ ↦ rfl⟩)
  | cronRun =>
      unfold Tool.execute toolCronRunExecute
      dsimp only
      split
      · exact drops_failWith hr _
      · exact drops_system (fun _ h ↦ if_pos h) rfl (fun _ h ↦ if_neg h) fun _ ↦ rfl
  | schedule =>
      unfold Tool.execute toolScheduleExecute
      dsimp only
      split
      · exact drops_failWith hr _
      · exact drops_command rfl (.inr ⟨_, rfl, fun heq ↦ (decide_eq_true heq).symm, fun _ ↦ rfl⟩)
  | _ => exact absurd h (by decide)

/-- A failed command is returned as a failure. -/
def Heeds (env : Env Call Call.Reply) (pipeStatus : List Call → Command → ℤ) (past : List Call)
    (p : ToolM Outcome) : Prop :=
  (∃ s ∈ exitStatuses env pipeStatus past (p.run env past).1, s ≠ 0) →
    ∃ o, (p.run env past).2 = some o ∧ o.1 = false

theorem heeds_ret (o : Outcome) : Heeds env pipeStatus past (.ret o) := by
  rintro ⟨s, hs, -⟩
  cases hs

theorem heeds_system {cmd : Command} {r : ToolResult} {done failed : Bytes} :
    Heeds env pipeStatus past (Sys.system cmd >>= fun ret ↦
      if ret = 0 then succeedWith r done else failWith r failed) := by
  rintro ⟨s, hs, hne⟩
  rw [Sys.system, Prog.run_perform_bind] at hs ⊢
  by_cases hret : env past (.system cmd) = 0
  · rw [if_pos hret] at hs
    have hzero : s = env past (.system cmd) := List.mem_singleton.mp hs
    exact absurd (hzero.trans hret) hne
  · rw [if_neg hret]
    exact ⟨_, rfl, rfl⟩

theorem heeds_cronUpdate (params : Bytes) (r : ToolResult) :
    Heeds env pipeStatus past (toolCronUpdateExecute params r) := by
  unfold toolCronUpdateExecute
  dsimp only
  split
  · exact heeds_ret _
  · split
    · exact heeds_system
    · exact heeds_system
    · exact heeds_ret _

theorem heeds_cronRuns (cronRuns : List Bytes) (params : Bytes) (r : ToolResult) :
    Heeds env pipeStatus past (toolCronRunsExecute cronRuns params r) := by
  unfold toolCronRunsExecute
  dsimp only
  by_cases hruns : cronRuns = []
  · rw [if_pos hruns]
    exact heeds_ret _
  · rw [if_neg hruns]
    exact heeds_ret _

end Unheeded

/-! ## What the dispatcher reports -/

/-- The shell, git, cron and schedule tools. -/
def Tool.runsCommand : Tool → Bool
  | .shell | .zsh | .network | .gitClone | .gitPull | .gitCommit | .gitOperations
  | .cronAdd | .cronList | .cronRemove | .cronRun | .cronRuns | .cronUpdate | .schedule => true
  | _ => false

/-- What the implementation behind a name finished with; `none` where it was
not invoked or did not finish. -/
def ownOutcome (libc : Libc) (g : ToolState) (env : Env Call Call.Reply) (name params : Bytes) :
    Option Outcome :=
  match toolNamed name with
  | none => none
  | some tool =>
    match tool.gate g with
    | some _ => none
    | none =>
        ((tool.execute libc g params
          { ToolResult.zero with name := CString.cut maxToolName name }).run env []).2

/-- What the dispatcher says about one run: success is reported exactly when
the implementation set its flag, and a failed command of the tools above is
reported as a failure. -/
structure ReportsTruly (tool : Tool) (own reported : Option Outcome) (statuses : List ℤ) :
    Prop where
  own_flag : (∃ o, reported = some o ∧ o.1 = true ∧ o.2.success = true) ↔
    ∃ o, own = some o ∧ o.2.success = true
  failed_command : tool.runsCommand = true → (∃ s ∈ statuses, s ≠ 0) →
    ∃ o, reported = some o ∧ o.1 = false ∧ o.2.success = false

theorem screenshot_flag {env : Env Call Call.Reply} {pipeStatus : List Call → Command → ℤ}
    (params : Bytes) {r : ToolResult} (hr : r.success = false)
    (h : ∃ s ∈ exitStatuses env pipeStatus [] ((toolScreenshotExecute params r).run env []).1,
      s ≠ 0) :
    ∃ o, ((toolScreenshotExecute params r).run env []).2 = some o ∧ o.2.success = false := by
  obtain ⟨cmd, done, failed, hexecute⟩ : ∃ cmd done failed, toolScreenshotExecute params r =
      Sys.system cmd >>= fun ret ↦
        if ret = 0 then succeedWith r done else .ret (true, r.printError failed) := ⟨_, _, _, rfl⟩
  rw [hexecute] at h ⊢
  obtain ⟨s, hs, hne⟩ := h
  rw [Sys.system, Prog.run_perform_bind] at hs ⊢
  by_cases hret : env [] (.system cmd) = 0
  · rw [if_pos hret] at hs
    have hzero : s = env [] (.system cmd) := List.mem_singleton.mp hs
    exact absurd (hzero.trans hret) hne
  · rw [if_neg hret]
    exact ⟨_, rfl, hr⟩

theorem settled_success_iff {own : Option Outcome} :
    (∃ o, own.map settle = some o ∧ o.1 = true ∧ o.2.success = true) ↔
      ∃ o, own = some o ∧ o.1 = true := by
  cases own with
  | none => simp
  | some o => simp [settle]

theorem ReportsTruly.of_agrees {tool : Tool} {own : Option Outcome} {statuses : List ℤ}
    (hagrees : ∀ o ∈ own, o.Agrees)
    (hfailed : tool.runsCommand = true → (∃ s ∈ statuses, s ≠ 0) →
      ∃ o, own = some o ∧ o.1 = false) :
    ReportsTruly tool own (own.map settle) statuses where
  own_flag := by
    rw [settled_success_iff]
    refine exists_congr fun o ↦ and_congr_right fun ho ↦ ?_
    rw [show o.1 = o.2.success from hagrees o ho]
  failed_command htool hstatus := by
    obtain ⟨o, rfl, hfalse⟩ := hfailed htool hstatus
    exact ⟨settle o, rfl, hfalse, hfalse⟩

theorem reportsTruly_iff_of_drops {tool : Tool} {own : Option Outcome} {statuses : List ℤ}
    (h : Unheeded statuses own) (hscreen : tool.runsCommand = false → (∃ s ∈ statuses, s ≠ 0) →
      ∃ o, own = some o ∧ o.2.success = false) :
    ReportsTruly tool own (own.map settle) statuses ↔ ∀ s ∈ statuses, s = 0 := by
  constructor
  · intro htruly
    by_contra hnonzero
    have hnonzero : ∃ s ∈ statuses, s ≠ 0 := by simpa using hnonzero
    cases htool : tool.runsCommand with
    | true =>
        obtain ⟨o', ho', hfalse, -⟩ := htruly.failed_command htool hnonzero
        obtain ⟨o, rfl, rfl⟩ := Option.map_eq_some_iff.mp ho'
        have htrue : o.1 = true := h.of_nonzero hnonzero o rfl
        exact Bool.false_ne_true (hfalse.symm.trans htrue)
    | false =>
        obtain ⟨o, rfl, hflag⟩ := hscreen htool hnonzero
        have htrue : o.1 = true := h.of_nonzero hnonzero o rfl
        obtain ⟨o', ho', hflag'⟩ := htruly.own_flag.mp (settled_success_iff.mpr ⟨o, rfl, htrue⟩)
        obtain rfl := Option.some.inj ho'
        exact Bool.false_ne_true (hflag.symm.trans hflag')
  · intro hzero
    refine .of_agrees (h.of_zero hzero) fun _ ⟨s, hs, hne⟩ ↦ ?_
    exact absurd (hzero s hs) hne

theorem heeds_of_runsCommand {env : Env Call Call.Reply} {pipeStatus : List Call → Command → ℤ}
    (libc : Libc) (g : ToolState) (params : Bytes) (r : ToolResult) {tool : Tool}
    (hdrops : tool.dropsStatus = false) (hcommand : tool.runsCommand = true) :
    Heeds env pipeStatus [] (tool.execute libc g params r) := by
  cases tool with
  | cronUpdate => exact heeds_cronUpdate params r
  | cronRuns => exact heeds_cronRuns g.cronRuns params r
  | _ =>
      first
      | exact absurd hdrops (by decide)
      | exact absurd hcommand (by decide)

/-- A built-in tool reports its success truly exactly when it is none of those
that return 0 after a failed command, or its commands ended with status 0. -/
theorem tool_success_is_true_iff (libc : Libc) (g : ToolState) (env : Env Call Call.Reply)
    (pipeStatus : List Call → Command → ℤ) (name params : Bytes) (tool : Tool)
    (hname : toolNamed name = some tool) :
    ReportsTruly tool (ownOutcome libc g env name params)
        ((toolsExecute libc g name params).run env []).2
        (exitStatuses env pipeStatus [] ((toolsExecute libc g name params).run env []).1) ↔
      (tool.dropsStatus = true →
        ∀ s ∈ exitStatuses env pipeStatus [] ((toolsExecute libc g name params).run env []).1,
          s = 0) := by
  cases hgate : tool.gate g with
  | some error =>
      have hown : ownOutcome libc g env name params = none := by
        simp only [ownOutcome, hname, hgate]
      simp only [toolsExecute, hname, hgate, hown]
      refine iff_of_true ⟨?_, ?_⟩ fun _ s hs ↦ ?_
      · simp [failWith, Prog.run]
      · rintro - ⟨s, hs, -⟩
        cases hs
      · cases hs
  | none =>
      generalize hr : { ToolResult.zero with name := CString.cut maxToolName name } = r
      have hfresh : r.success = false := by rw [← hr]; rfl
      have hown : ownOutcome libc g env name params =
          ((tool.execute libc g params r).run env []).2 := by
        simp only [ownOutcome, hname, hgate, hr]
      have hexecute : toolsExecute libc g name params =
          tool.execute libc g params r >>= fun outcome ↦ .ret (settle outcome) := by
        simp only [toolsExecute, hname, hgate, hr]
        rfl
      rw [hown, hexecute, Prog.run_bind_ret, Prog.run_bind_ret_calls]
      cases hdrops : tool.dropsStatus with
      | false =>
          refine iff_of_true (.of_agrees ?_ fun hcommand ↦ ?_) fun h ↦ absurd h Bool.false_ne_true
          · intro o ho
            exact (execute_agrees libc g params hfresh hdrops).run env [] ho
          · exact heeds_of_runsCommand libc g params r hdrops hcommand
      | true =>
          rw [reportsTruly_iff_of_drops (execute_drops libc g params hfresh hdrops)]
          · simp
          · intro hcommand hnonzero
            cases tool with
            | screenshot => exact screenshot_flag params hfresh hnonzero
            | _ =>
                first
                | exact absurd hdrops (by decide)
                | exact absurd hcommand (by decide)

def emptyEnv : Env Call Call.Reply := fun _ c ↦ c.emptyReply

theorem tool_success_is_true_iff_shell :
    ReportsTruly .shell
      (ownOutcome noLibc .init emptyEnv (ascii "shell") (ascii "\x7b\"command\":\"true\"\x7d"))
      ((toolsExecute noLibc .init (ascii "shell")
        (ascii "\x7b\"command\":\"true\"\x7d")).run emptyEnv []).2
      (exitStatuses emptyEnv (fun _ _ ↦ 0) [] ((toolsExecute noLibc .init (ascii "shell")
        (ascii "\x7b\"command\":\"true\"\x7d")).run emptyEnv []).1) :=
  (tool_success_is_true_iff noLibc .init emptyEnv (fun _ _ ↦ 0) (ascii "shell")
    (ascii "\x7b\"command\":\"true\"\x7d") .shell (by decide)).mpr (by decide +kernel)

/-- Every command of a shell ends with status 1. -/
def failingShell : Env Call Call.Reply
  | _, .runWithTimeout _ _ _ => (1, [])
  | _, c => c.emptyReply

theorem failed_shell_command_is_success :
    ¬ ∀ (libc : Libc) (g : ToolState) (env : Env Call Call.Reply)
      (pipeStatus : List Call → Command → ℤ) (name params : Bytes) (tool : Tool),
      toolNamed name = some tool →
      ReportsTruly tool (ownOutcome libc g env name params)
        ((toolsExecute libc g name params).run env []).2
        (exitStatuses env pipeStatus [] ((toolsExecute libc g name params).run env []).1) := by
  intro h
  have htruly := h noLibc .init failingShell (fun _ _ ↦ 0) (ascii "shell")
    (ascii "\x7b\"command\":\"false\"\x7d") .shell (by decide)
  have hreported : ((toolsExecute noLibc .init (ascii "shell")
      (ascii "\x7b\"command\":\"false\"\x7d")).run failingShell []).2 =
      some (true, ⟨[], ascii "\n[Exit code: 1]", true, []⟩) := by decide +kernel
  have hown : ownOutcome noLibc .init failingShell (ascii "shell")
      (ascii "\x7b\"command\":\"false\"\x7d") =
      some (true, ⟨[], ascii "\n[Exit code: 1]", false, []⟩) := by decide +kernel
  obtain ⟨o, ho, hflag⟩ := htruly.own_flag.mp ⟨_, hreported, rfl, rfl⟩
  rw [hown] at ho
  obtain rfl := Option.some.inj ho
  cases hflag

end DoctorClaw
