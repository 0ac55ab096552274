import DoctorClaw.JobWorker
import DoctorClaw.Tools.Gate

/-!
# The tool context of concurrent agents

The approval manager, the flag that asks for approval and the workspace that
tools consult are process-wide variables.  `dispatch_job` and `agent_init`
write the workspace, `agent_think_with_tools` writes the approval context
before each batch of tool calls, and `agent_free` resets it.  Several workers
do this at the same time, so a tool can find the context of another agent.

The steps below are those writes and the tool calls between them, for any
number of workers in any order.  Every tool finds the context of its own agent
in a run in which nobody writes the approval context while another worker is
inside a batch, and nobody writes another workspace while another agent lives.
-/

namespace DoctorClaw

open Transition

/-! ## The shared variables -/

/-- The globals of `tools.c`.  A manager is named by the worker in whose frame
it lies. -/
structure ToolGlobals (W : Type*) where
  approvalManager : Option W
  requireApproval : Bool
  workspaceDir : Bytes

def workspaceSize : ℕ := 512

variable {W : Type*}

def ToolGlobals.init : ToolGlobals W := ⟨none, false, []⟩

def toolsSetWorkspace (g : ToolGlobals W) (dir : Bytes) : ToolGlobals W :=
  { g with workspaceDir := CString.cut workspaceSize dir }

def toolsSetApprovalContext (g : ToolGlobals W) (manager : Option W) (require : Bool) :
    ToolGlobals W :=
  { g with approvalManager := manager, requireApproval := require }

structure Agent where
  workspaceDir : Bytes
  requireApproval : Bool
  deriving DecidableEq

def agentOfConfig (config : Config) : Agent where
  workspaceDir := CString.cut workspaceSize config.workspaceDir
  requireApproval := config.requireApproval

/-- What a tool looks at before it acts: the approval gate for a risky tool,
the workspace for a file read. -/
inductive ToolCheck (W : Type*)
  | approval (manager : Option W) (require : Bool) (action : Bytes)
  | workspace (dir : Bytes)
  | unchecked
  deriving DecidableEq

def toolCheck (g : ToolGlobals W) (name : Bytes) : ToolCheck W :=
  match toolNamed name with
  | none => .unchecked
  | some tool =>
    match tool.riskyAction with
    | some action => .approval g.approvalManager g.requireApproval action
    | none => if tool = .fileRead then .workspace g.workspaceDir else .unchecked

def Agent.context (agent : Agent) (w : W) : ToolGlobals W :=
  ⟨some w, agent.requireApproval, agent.workspaceDir⟩

/-! ## Steps of the workers -/

inductive AgentPhase
  | idle
  | dispatched (config : Config)
  | ready (agent : Agent)
  | inBatch (agent : Agent)

def AgentPhase.agent : AgentPhase → Option Agent
  | .ready agent => some agent
  | .inBatch agent => some agent
  | _ => none

structure ToolSys (W : Type*) where
  globals : ToolGlobals W
  phase : W → AgentPhase

def ToolSys.start : ToolSys W := ⟨.init, fun _ ↦ .idle⟩

inductive ToolEvent (W : Type*)
  | dispatch (w : W) (config : Config)
  | dispatchOther (w : W) (config : Config)
  | agentInit (w : W) (config : Config)
  | beginBatch (w : W)
  | tool (w : W) (name : Bytes) (agent : Agent) (check : ToolCheck W)
  | endBatch (w : W)
  | agentFree (w : W)

variable [DecidableEq W]

/-- A job that runs no agent (`dispatchOther`) sets the workspace as well. -/
inductive ToolStep : ToolSys W → ToolEvent W → ToolSys W → Prop
  | dispatch {s : ToolSys W} (w : W) (config : Config) (hidle : s.phase w = .idle) :
      ToolStep s (.dispatch w config)
        ⟨toolsSetWorkspace s.globals config.workspaceDir,
          Function.update s.phase w (.dispatched config)⟩
  | dispatchOther {s : ToolSys W} (w : W) (config : Config) (hidle : s.phase w = .idle) :
      ToolStep s (.dispatchOther w config)
        ⟨toolsSetWorkspace s.globals config.workspaceDir, s.phase⟩
  | agentInit {s : ToolSys W} (w : W) {config : Config} (hphase : s.phase w = .dispatched config) :
      ToolStep s (.agentInit w config)
        ⟨toolsSetWorkspace s.globals config.workspaceDir,
          Function.update s.phase w (.ready (agentOfConfig config))⟩
  | beginBatch {s : ToolSys W} (w : W) {agent : Agent} (hphase : s.phase w = .ready agent) :
      ToolStep s (.beginBatch w)
        ⟨toolsSetApprovalContext s.globals (some w) agent.requireApproval,
          Function.update s.phase w (.inBatch agent)⟩
  | tool {s : ToolSys W} (w : W) (name : Bytes) {agent : Agent}
      (hphase : s.phase w = .inBatch agent) :
      ToolStep s (.tool w name agent (toolCheck s.globals name)) s
  | endBatch {s : ToolSys W} (w : W) {agent : Agent} (hphase : s.phase w = .inBatch agent) :
      ToolStep s (.endBatch w) ⟨s.globals, Function.update s.phase w (.ready agent)⟩
  | agentFree {s : ToolSys W} (w : W) {agent : Agent} (hphase : s.phase w = .ready agent) :
      ToolStep s (.agentFree w)
        ⟨toolsSetApprovalContext s.globals none false, Function.update s.phase w .idle⟩

/-! ## Runs in which nobody interferes -/

/-- The other workers stay out of their batches. -/
def NoOtherBatch (s : ToolSys W) (w : W) : Prop := ∀ w' agent, w' ≠ w → s.phase w' ≠ .inBatch agent

/-- The other agents have the workspace that is about to be written. -/
def NoOtherWorkspace (s : ToolSys W) (w : W) (config : Config) : Prop :=
  ∀ w' agent, w' ≠ w → (s.phase w').agent = some agent →
    agent.workspaceDir = CString.cut workspaceSize config.workspaceDir

def Considerate (s : ToolSys W) : ToolEvent W → Prop
  | .dispatch w config => NoOtherWorkspace s w config
  | .dispatchOther w config => NoOtherWorkspace s w config
  | .agentInit w config => NoOtherWorkspace s w config
  | .beginBatch w => NoOtherBatch s w
  | .agentFree w => NoOtherBatch s w
  | _ => True

def ConsiderateStep (s : ToolSys W) (ev : ToolEvent W) (s' : ToolSys W) : Prop :=
  ToolStep s ev s' ∧ Considerate s ev

/-- The shared variables hold the context of every agent that relies on them. -/
structure Isolated (s : ToolSys W) : Prop where
  workspace : ∀ w agent, (s.phase w).agent = some agent → s.globals.workspaceDir = agent.workspaceDir
  approval : ∀ w agent, s.phase w = .inBatch agent →
    s.globals.approvalManager = some w ∧ s.globals.requireApproval = agent.requireApproval

section Steps

variable {s s' : ToolSys W} {ev : ToolEvent W}

theorem Isolated.setWorkspace (h : Isolated s) {w : W} {config : Config} {phase : AgentPhase}
    (hquiet : NoOtherWorkspace s w config) (hbatch : ∀ agent, phase ≠ .inBatch agent)
    (hown : ∀ agent, phase.agent = some agent → agent = agentOfConfig config) :
    Isolated ⟨toolsSetWorkspace s.globals config.workspaceDir, Function.update s.phase w phase⟩ := by
  constructor
  · intro w' agent hagent
    by_cases hw : w' = w
    · subst hw
      simp only [Function.update_self] at hagent
      rw [hown agent hagent]
      rfl
    · simp only [Function.update_of_ne hw] at hagent
      exact (hquiet w' agent hw hagent).symm
  · intro w' agent hphase
    by_cases hw : w' = w
    · subst hw
      simp only [Function.update_self] at hphase
      exact absurd hphase (hbatch agent)
    · simp only [Function.update_of_ne hw] at hphase
      exact h.approval w' agent hphase

theorem Isolated.setApproval (h : Isolated s) {w : W} {manager : Option W} {require : Bool}
    {phase : AgentPhase} (hquiet : NoOtherBatch s w)
    (hbatch : ∀ agent, phase = .inBatch agent → manager = some w ∧ require = agent.requireApproval)
    (hown : ∀ agent, phase.agent = some agent → (s.phase w).agent = some agent) :
    Isolated ⟨toolsSetApprovalContext s.globals manager require,
      Function.update s.phase w phase⟩ := by
  constructor
  · intro w' agent hagent
    by_cases hw : w' = w
    · subst hw
      simp only [Function.update_self] at hagent
      exact h.workspace w' agent (hown agent hagent)
    · simp only [Function.update_of_ne hw] at hagent
      exact h.workspace w' agent hagent
  · intro w' agent hphase
    by_cases hw : w' = w
    · subst hw
      simp only [Function.update_self] at hphase
      exact hbatch agent hphase
    · simp only [Function.update_of_ne hw] at hphase
      exact absurd hphase (hquiet w' agent hw)

theorem Isolated.step (h : Isolated s) (hstep : ConsiderateStep s ev s') : Isolated s' := by
  obtain ⟨hstep, hquiet⟩ := hstep
  cases hstep with
  | dispatch w config =>
      exact h.setWorkspace hquiet (by rintro agent ⟨⟩) (by rintro agent ⟨⟩)
  | dispatchOther w config hidle =>
      have hother : Isolated ⟨toolsSetWorkspace s.globals config.workspaceDir,
          Function.update s.phase w .idle⟩ :=
        h.setWorkspace hquiet (by rintro agent ⟨⟩) (by rintro agent ⟨⟩)
      rwa [← hidle, Function.update_eq_self] at hother
  | agentInit w hphase =>
      apply h.setWorkspace hquiet
      · rintro agent ⟨⟩
      · rintro agent ⟨⟩
        rfl
  | beginBatch w hphase =>
      apply h.setApproval hquiet
      · rintro agent ⟨⟩
        exact ⟨rfl, rfl⟩
      · rintro agent ⟨⟩
        rw [hphase]
        rfl
  | tool => exact h
  | @endBatch w agent hphase =>
      constructor
      · intro w' agent' hagent
        by_cases hw : w' = w
        · subst hw
          simp only [Function.update_self] at hagent
          exact h.workspace w' agent' (by rw [hphase]; exact hagent)
        · simp only [Function.update_of_ne hw] at hagent
          exact h.workspace w' agent' hagent
      · intro w' agent' hbatch
        by_cases hw : w' = w
        · subst hw
          simp at hbatch
        · simp only [Function.update_of_ne hw] at hbatch
          exact h.approval w' agent' hbatch
  | agentFree w hphase =>
      apply h.setApproval hquiet
      · rintro agent ⟨⟩
      · rintro agent ⟨⟩

end Steps

omit [DecidableEq W] in
theorem toolCheck_congr {g g' : ToolGlobals W} (hmanager : g.approvalManager = g'.approvalManager)
    (hrequire : g.requireApproval = g'.requireApproval) (hdir : g.workspaceDir = g'.workspaceDir)
    (name : Bytes) : toolCheck g name = toolCheck g' name := by
  simp only [toolCheck, hmanager, hrequire, hdir]

/-- In a run of considerate steps every tool is checked against the manager,
the flag and the workspace of the agent it runs for. -/
theorem tools_see_their_own_agent {evs : List (ToolEvent W)} {s : ToolSys W}
    (hrun : Run ConsiderateStep .start evs s) :
    ∀ w name agent check, .tool w name agent check ∈ evs →
      check = toolCheck (agent.context w) name := by
  intro w name agent check hmem
  obtain ⟨pre, post, rfl⟩ := List.append_of_mem hmem
  obtain ⟨t, t', hpre, hlast⟩ := hrun.fired
  have hiso : Isolated t := by
    apply hpre.invariant
    · constructor <;> simp [ToolSys.start, AgentPhase.agent]
    · exact fun _ _ _ h hstep ↦ h.step hstep
  obtain ⟨hstep, -⟩ := hlast
  cases hstep with
  | tool _ _ hphase =>
      obtain ⟨hmanager, hrequire⟩ := hiso.approval w agent hphase
      exact toolCheck_congr hmanager hrequire (hiso.workspace w agent (by rw [hphase]; rfl)) name

def strictConfig : Config := ⟨ascii "/srv/a", true⟩

theorem tools_see_their_own_agent_in_turn :
    ∃ (evs : List (ToolEvent Bool)) (s : ToolSys Bool), Run ConsiderateStep .start evs s ∧
      .tool true (ascii "shell") (agentOfConfig strictConfig)
        (.approval (some true) true (ascii "shell")) ∈ evs ∧
      ToolCheck.approval (some true) true (ascii "shell") =
        toolCheck ((agentOfConfig strictConfig).context true) (ascii "shell") := by
  have hquiet (s : ToolSys Bool) (w : Bool) (h : s.phase (!w) = .idle) (config : Config) :
      NoOtherWorkspace s w config ∧ NoOtherBatch s w := by
    constructor
    · intro w' agent hw hagent
      obtain rfl : w' = !w := by cases w <;> cases w' <;> simp_all
      rw [h] at hagent
      cases hagent
    · intro w' agent hw
      obtain rfl : w' = !w := by cases w <;> cases w' <;> simp_all
      rw [h]
      exact nofun
  have hstart : Run ConsiderateStep (.start : ToolSys Bool) [] .start := .nil
  have hdispatch := hstart.snoc ⟨.dispatch false strictConfig rfl, (hquiet _ _ rfl _).1⟩
  have hinit := hdispatch.snoc ⟨.agentInit false rfl, (hquiet _ _ rfl _).1⟩
  have hfree := hinit.snoc ⟨.agentFree false rfl, (hquiet _ _ rfl strictConfig).2⟩
  have hdispatch' := hfree.snoc ⟨.dispatch true strictConfig rfl, (hquiet _ _ rfl _).1⟩
  have hinit' := hdispatch'.snoc ⟨.agentInit true rfl, (hquiet _ _ rfl _).1⟩
  have hbatch := hinit'.snoc ⟨.beginBatch true rfl, (hquiet _ _ rfl strictConfig).2⟩
  have hrun := hbatch.snoc ⟨.tool true (ascii "shell") rfl, trivial⟩
  refine ⟨_, _, hrun, List.mem_append_right _ (List.mem_singleton_self _), ?_⟩
  exact tools_see_their_own_agent hrun _ _ _ _ (List.mem_append_right _ (List.mem_singleton_self _))

/-- While one worker is inside a batch another one frees its agent, and the
first worker's shell command runs without any approval check. -/
theorem tools_see_another_agent :
    ¬ ∀ (evs : List (ToolEvent Bool)) (s : ToolSys Bool), Run ToolStep .start evs s →
      ∀ w name agent check, .tool w name agent check ∈ evs →
        check = toolCheck (agent.context w) name := by
  intro h
  have hstart : Run ToolStep (.start : ToolSys Bool) [] .start := .nil
  have hinit := (hstart.snoc (.dispatch true strictConfig rfl)).snoc (.agentInit true rfl)
  have hinit' := (hinit.snoc (.dispatch false strictConfig rfl)).snoc (.agentInit false rfl)
  have hbatch := hinit'.snoc (.beginBatch true rfl)
  have hfree := hbatch.snoc (.agentFree false rfl)
  have hrun := hfree.snoc (.tool true (ascii "shell") rfl)
  have hcheck := h _ _ hrun _ _ _ _ (List.mem_append_right _ (List.mem_singleton_self _))
  revert hcheck
  decide

end DoctorClaw
