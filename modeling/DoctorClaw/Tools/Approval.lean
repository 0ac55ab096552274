import DoctorClaw.Tools.Leaks

/-!
# The approval gate

With approval required and a manager that approves nothing, no tool should run
a command built from its parameters or change a file; and no command built
from parameters should reach a shell unchecked, approved or not.

The rule is stated about each call a tool makes and the calls made before it.
The five tools behind the gate keep it, apart from a recursive `rm`.  The
others are not asked: thirteen of them print their parameters into commands,
and three change files themselves.
-/

namespace DoctorClaw

open Interaction Command

variable {changes : Bytes → Bool}

theorem ToolState.locked_eq_false {g : ToolState} {tool : Tool} (hrisky : tool.riskyAction.isSome)
    (hgate : tool.gate g = none) : g.locked = false := by
  obtain ⟨action, haction⟩ := Option.isSome_iff_exists.mp hrisky
  have hne : action ≠ [] := by
    rintro rfl
    cases tool <;> exact absurd haction (by decide)
  by_contra hlocked
  simp only [ToolState.locked, Bool.not_eq_false, Bool.and_eq_true] at hlocked
  obtain ⟨hrequire, hmanager⟩ := hlocked
  cases hmgr : g.approvalManager with
  | none => simp [hmgr] at hmanager
  | some mgr =>
      rw [hmgr, Option.any_some, ApprovalManager.approvesNothing, Bool.and_eq_true] at hmanager
      have hcheck : approvalCheck mgr action = false := by
        rw [approvalCheck, List.isEmpty_iff.mp hmanager.2, CString.strstr, if_neg hne]
        simpa using hmanager.1
      simp [Tool.gate, haction, checkApprovalRisky, hrequire, hmgr, hcheck] at hgate

theorem Tool.follows_execute (libc : Libc) {g : ToolState} {tool : Tool} (hgate : tool.gate g = none)
    (params : Bytes) (r : ToolResult) :
    (tool.execute libc g params r).Follows (GateRule changes g.locked) [] ↔
      tool.leaks changes g.locked params = false := by
  by_cases hquiet : tool.quiet = true
  · have hnot : tool.leaks changes g.locked params = false := by
      cases tool <;> first | rfl | cases hquiet
    exact iff_of_true (follows_of_quiet (quiet_execute libc g params r hquiet)) hnot
  · by_cases hrisky : tool.riskyAction.isSome = true
    · have hopen := ToolState.locked_eq_false hrisky hgate
      cases tool with
      | rm => exact follows_rm hopen
      | shell => exact iff_of_true (follows_runChecked hopen _ _ _ _) rfl
      | zsh => exact iff_of_true (follows_runChecked hopen _ _ _ _) rfl
      | network => exact iff_of_true (follows_runChecked hopen _ _ _ _) rfl
      | fileWrite => exact iff_of_true (follows_fileWrite hopen) rfl
      | _ => cases hrisky
    · cases tool with
      | cp => exact follows_cp
      | screenshot => exact follows_screenshot
      | gitClone => exact follows_gitClone
      | gitPull => exact follows_gitPull
      | gitCommit => exact follows_gitCommit
      | gitOperations => exact follows_gitOperations
      | cronAdd => exact follows_cronAdd
      | cronList => exact follows_cronList
      | cronRemove => exact follows_cronRemove
      | cronRun => exact follows_cronRun
      | cronUpdate => exact follows_cronUpdate
      | schedule => exact follows_schedule
      | browserOpen => exact follows_browserOpen
      | browser => exact follows_browser
      | hardwareBoardInfo => exact follows_hardwareBoardInfo
      | mkdir => exact follows_mkdir
      | mv => exact iff_of_true follows_mv rfl
      | edit => exact follows_edit
      | _ => first | exact absurd rfl hquiet | exact absurd rfl hrisky

/-- When a call of `tools_execute` breaks the rule: it names a tool that the
gate lets through and that then leaks. -/
def ToolState.leaks (changes : Bytes → Bool) (g : ToolState) (name params : Bytes) : Bool :=
  match toolNamed name with
  | some tool => (tool.gate g).isNone && tool.leaks changes g.locked params
  | none => false

theorem follows_toolsExecute (libc : Libc) {g : ToolState}
    (hregistry : ∀ t ∈ g.registry, ∀ params r, Quiet (t.execute params r)) (name params : Bytes) :
    (toolsExecute libc g name params).Follows (GateRule changes g.locked) [] ↔
      g.leaks changes name params = false := by
  simp only [toolsExecute, ToolState.leaks]
  cases toolNamed name with
  | some tool =>
      dsimp only
      cases hgate : tool.gate g with
      | some error => exact iff_of_true trivial rfl
      | none => exact follows_bind_ret.trans (Tool.follows_execute libc hgate _ _)
  | none =>
      dsimp only
      cases hfind : g.registry.find? fun t ↦ t.name = name with
      | none => exact iff_of_true trivial rfl
      | some t =>
          have hquiet := hregistry t (List.mem_of_find?_eq_some hfind)
          exact iff_of_true (follows_bind_ret.mpr (follows_of_quiet (hquiet _ _))) rfl

/-- The rule holds of every call that `tools_execute` makes in any environment
exactly when the named tool does not leak.  Tools added with `tools_register`
are assumed to be quiet. -/
theorem approval_gate_iff (libc : Libc) (changes : Bytes → Bool) (g : ToolState)
    (hregistry : ∀ t ∈ g.registry, ∀ params r, Quiet (t.execute params r)) (name params : Bytes) :
    (∀ (env : Env Call Call.Reply) (past : List Call) (c : Call) (rest : List Call),
      ((toolsExecute libc g name params).run env []).1 = past ++ c :: rest →
        GateRule changes g.locked past c) ↔
      g.leaks changes name params = false := by
  rw [← follows_toolsExecute libc hregistry, follows_iff_run]
  rfl

def lockedState : ToolState where
  approvalManager := some ⟨false, []⟩
  requireApproval := true
  workspaceDir := []
  shellPolicy := none
  cronRuns := []
  registry := []

theorem approval_gate_holds_shell :
    lockedState.locked = true ∧ ∀ (env : Env Call Call.Reply) (past : List Call) (c : Call)
      (rest : List Call), ((toolsExecute noLibc lockedState (ascii "shell") (ascii "ls")).run env
        []).1 = past ++ c :: rest → GateRule (fun _ ↦ true) lockedState.locked past c :=
  ⟨rfl, (approval_gate_iff noLibc (fun _ ↦ true) lockedState
    (fun _ h ↦ absurd h (by simp [lockedState])) (ascii "shell") (ascii "ls")).mpr rfl⟩

/-- `cron_run` runs its command, locked and unchecked. -/
theorem approval_gate_misses_cron_run :
    lockedState.locked = true ∧ ∃ env : Env Call Call.Reply,
      ((toolsExecute noLibc lockedState (ascii "cron_run")
        (ascii "\x7b\"command\":\"ls\"\x7d")).run env []).1 = [.system (arg (ascii "ls"))] ∧
      ¬ GateRule (fun _ ↦ false) lockedState.locked [] (.system (arg (ascii "ls"))) := by
  refine ⟨rfl, fun _ c ↦ c.emptyReply, ?_, fun h ↦ ?_⟩
  · rfl
  · have hparams := h.no_command rfl _ rfl
    cases hparams

end DoctorClaw
