import DoctorClaw.Tools.Execute

/-!
# The rule of the approval gate

The rule is stated about each call a tool makes and the calls made before it:
while everything is locked no command is built from parameters and no file is
changed, and a command built from parameters was checked before.  A tool whose
calls are all quiet keeps it, and a command keeps it unless it leaks.
-/

namespace DoctorClaw

open Interaction Command

/-! ## The rule -/

def Call.shellCommand? : Call → Option Command
  | .system cmd => some cmd
  | .popen cmd => some cmd
  | .runWithTimeout cmd _ _ => some cmd
  | _ => none

/-- Whether a call changes a file.  The empty path names none, and a path that is
renamed to itself stays as it is.  What the programs of a command do is not known
here: `changes` tells it from the text of the command. -/
def Call.changesFile (changes : Bytes → Bool) : Call → Bool
  | .fopenWrite _ _ => true
  | .fwrite _ => true
  | .mkdir path _ => decide (path ≠ [])
  | .rename src dest => decide (src ≠ dest)
  | .unlink _ => true
  | .rmdir _ => true
  | c => c.shellCommand?.any fun cmd ↦ changes cmd.text

def ApprovalManager.approvesNothing (mgr : ApprovalManager) : Bool :=
  !mgr.autoApproveEnabled && mgr.approvedActions.isEmpty

def ToolState.locked (g : ToolState) : Bool :=
  g.requireApproval && g.approvalManager.any ApprovalManager.approvesNothing

/-- What the gate promises about a call made after those of `past`. -/
structure GateRule (changes : Bytes → Bool) (locked : Bool) (past : List Call) (c : Call) :
    Prop where
  no_command : locked = true → ∀ cmd, c.shellCommand? = some cmd → cmd.fromParams = false
  no_change : locked = true → c.changesFile changes = false
  checked : ∀ cmd, c.shellCommand? = some cmd → cmd.fromParams = true →
    .passedDangerCheck cmd.text ∈ past

/-! ## Quiet tools -/

def Call.quiet : Call → Bool
  | .fopenWrite _ _ => false
  | .fwrite _ => false
  | .mkdir _ _ => false
  | .rename _ _ => false
  | .unlink _ => false
  | .rmdir _ => false
  | .system _ => false
  | .popen _ => false
  | .runWithTimeout _ _ _ => false
  | _ => true

abbrev Quiet {α : Type} (p : ToolM α) : Prop :=
  ∀ past, p.Follows (fun _ c ↦ c.quiet = true) past

variable {changes : Bytes → Bool} {locked : Bool} {past : List Call}

/-- A call without a command that changes no file. -/
theorem GateRule.of_unchanged {c : Call} (hshell : c.shellCommand? = none)
    (hfile : c.changesFile changes = false) : GateRule changes locked past c :=
  ⟨fun _ _ hc ↦ by simp [hshell] at hc, fun _ ↦ hfile, fun _ hc ↦ by simp [hshell] at hc⟩

theorem GateRule.of_quiet {c : Call} (h : c.quiet = true) : GateRule changes locked past c :=
  .of_unchanged (by cases c <;> first | rfl | cases h) (by cases c <;> first | rfl | cases h)

theorem follows_of_quiet {α : Type} {p : ToolM α} (hp : Quiet p) :
    p.Follows (GateRule changes locked) past :=
  (hp past).mono fun _ _ ↦ GateRule.of_quiet

theorem quiet_grepFile (isMatch : Bytes → Bool) (path output : Bytes) :
    Quiet (grepFile isMatch path output) := by
  intro past
  refine follows_perform rfl fun reply ↦ ?_
  cases reply <;> trivial

theorem quiet_grepDir (libc : Libc) (isMatch : Bytes → Bool) (targetPath : Bytes)
    (includeStr : Option Bytes) (output : Bytes) (names : List Bytes) :
    Quiet (grepDir libc isMatch targetPath includeStr output names) := by
  induction names generalizing output with
  | nil => exact fun _ ↦ trivial
  | cons name names ih =>
      intro past
      unfold grepDir
      split_ifs
      · trivial
      · exact ih output past
      · refine follows_perform rfl fun st ↦ ?_
        split_ifs
        · exact follows_bind_of (quiet_grepFile _ _ _ _) fun output past ↦ ih output past
        · exact ih output _

theorem quiet_grepTarget (libc : Libc) (isMatch : Bytes → Bool) (targetPath : Bytes)
    (includeStr : Option Bytes) : Quiet (grepTarget libc isMatch targetPath includeStr) := by
  intro past
  refine follows_perform rfl fun st ↦ ?_
  split_ifs
  · exact quiet_grepFile _ _ _ _
  · refine follows_perform rfl fun names ↦ ?_
    cases names with
    | none => trivial
    | some names => exact quiet_grepDir _ _ _ _ _ _ _

theorem quiet_listDir (path : Bytes) (showAll longList : Bool) (output : Bytes)
    (names : List Bytes) : Quiet (listDir path showAll longList output names) := by
  induction names generalizing output with
  | nil => exact fun _ ↦ trivial
  | cons name names ih =>
      intro past
      unfold listDir
      split_ifs
      · trivial
      · exact ih _ _
      · refine follows_perform rfl fun st ↦ ?_
        cases st <;> exact ih _ _
      · exact ih _ _

theorem quiet_httpReport (maxLen : ℤ) (data : Bytes) : Quiet (httpReport maxLen data) := by
  intro past
  refine follows_ite (fun _ ↦ trivial) fun _ ↦ follows_ite (fun _ ↦ ?_) fun _ ↦ trivial
  exact follows_ite (fun _ ↦ trivial) fun _ ↦ trivial

def Tool.quiet : Tool → Bool
  | .fileRead | .glob | .grep | .browse | .stat | .list | .env | .setenv | .fileExists
  | .httpRequest | .webSearch | .imageInfo | .hardwareMemoryRead | .hardwareMemoryMap
  | .memoryStore | .memoryRecall | .memoryForget | .pushover | .delegate | .composio
  | .cronRuns | .proxyConfig | .schema => true
  | _ => false

theorem quiet_execute (libc : Libc) (g : ToolState) (params : Bytes) (r : ToolResult) {tool : Tool}
    (h : tool.quiet = true) : Quiet (tool.execute libc g params r) := by
  intro past
  cases tool with
  | grep =>
      unfold Tool.execute toolGrepExecute
      dsimp only
      split
      · trivial
      · split
        · trivial
        · refine follows_bind_of (quiet_grepTarget _ _ _ _ _) fun output past ↦ ?_
          split_ifs <;> trivial
  | list =>
      unfold Tool.execute toolListExecute
      refine follows_perform rfl fun names ↦ ?_
      cases names with
      | none => exact follows_perform rfl fun _ ↦ trivial
      | some names => exact follows_bind_of (quiet_listDir _ _ _ _ _ _) fun _ _ ↦ trivial
  | _ =>
      first
      | exact absurd h (by decide)
      | simp only [Tool.execute, toolFileReadExecute, toolGlobExecute, toolBrowseExecute,
          toolStatExecute, toolEnvExecute, toolSetenvExecute, toolExistsExecute,
          toolHttpRequestExecute, toolWebSearchExecute, toolImageInfoExecute,
          toolHardwareMemoryReadExecute, toolHardwareMemoryMapExecute, toolMemoryStoreExecute,
          toolMemoryRecallExecute, toolMemoryForgetExecute, toolPushoverExecute,
          toolDelegateExecute, toolComposioExecute, toolCronRunsExecute, toolProxyConfigExecute,
          toolSchemaExecute]
        repeat first
          | with_reducible exact quiet_httpReport _ _ _
          | with_reducible refine follows_ite (fun _ ↦ ?_) fun _ ↦ ?_
          | exact trivial
          | refine follows_perform rfl fun _ ↦ ?_
          | split

/-! ## Commands -/

/-- A command that breaks the rule when nothing was checked before. -/
def Command.leaks (changes : Bytes → Bool) (locked : Bool) (cmd : Command) : Bool :=
  cmd.fromParams || locked && changes cmd.text

theorem gateRule_command {c : Call} {cmd : Command} (hshell : c.shellCommand? = some cmd)
    (hfile : c.changesFile changes = changes cmd.text)
    (hpast : ∀ s, .passedDangerCheck s ∉ past) :
    GateRule changes locked past c ↔ Command.leaks changes locked cmd = false := by
  simp only [Command.leaks, Bool.or_eq_false_iff, Bool.and_eq_false_imp]
  constructor
  · intro h
    refine ⟨?_, fun hlocked ↦ hfile ▸ h.no_change hlocked⟩
    by_contra hparams
    exact hpast _ (h.checked cmd hshell (by simpa using hparams))
  · rintro ⟨hparams, hchanges⟩
    have hsame {cmd' : Command} (h : c.shellCommand? = some cmd') : cmd' = cmd :=
      Option.some.inj (h.symm.trans hshell)
    refine ⟨fun _ cmd' h ↦ hsame h ▸ hparams, fun hlocked ↦ hfile ▸ hchanges hlocked, ?_⟩
    intro cmd' h hparams'
    rw [hsame h, hparams] at hparams'
    cases hparams'

theorem follows_system {α : Type} {cmd : Command} {f : ℤ → ToolM α} (hf : ∀ ret, Quiet (f ret))
    (hpast : ∀ s, .passedDangerCheck s ∉ past) :
    (Sys.system cmd >>= f).Follows (GateRule changes locked) past ↔
      Command.leaks changes locked cmd = false := by
  rw [← gateRule_command (c := .system cmd) rfl rfl hpast]
  exact ⟨fun h ↦ h.1, fun h ↦ follows_perform h fun ret ↦ follows_of_quiet (hf ret)⟩

theorem follows_popen {α : Type} {cmd : Command} {f : Option Bytes → ToolM α}
    (hf : ∀ pipe, Quiet (f pipe)) (hpast : ∀ s, .passedDangerCheck s ∉ past) :
    (Sys.popen cmd >>= f).Follows (GateRule changes locked) past ↔
      Command.leaks changes locked cmd = false := by
  rw [← gateRule_command (c := .popen cmd) rfl rfl hpast]
  exact ⟨fun h ↦ h.1, fun h ↦ follows_perform h fun pipe ↦ follows_of_quiet (hf pipe)⟩

theorem leaks_of_fromParams {cmd : Command} (h : cmd.fromParams = true) :
    Command.leaks changes locked cmd = true := by rw [Command.leaks, h, Bool.true_or]

theorem leaks_cut {size : ℕ} {cmd : Command} {s : Bytes} (pre rest : Command)
    (hcmd : cmd = pre ++ (arg s ++ rest)) (hpre : pre.length + 1 < size) (hs : s ≠ []) :
    Command.leaks changes locked (Command.cut size cmd) = true := by
  obtain ⟨b, s, rfl⟩ := List.exists_cons_of_ne_nil hs
  have hmem : (b, true) ∈ Command.cut size cmd := by
    unfold Command.cut
    rw [hcmd, List.take_append, show size - 1 - pre.length = size - 2 - pre.length + 1 by omega]
    simp [arg]
  exact leaks_of_fromParams (List.any_eq_true.mpr ⟨_, hmem, rfl⟩)

theorem leaks_fixed (fixed : Bytes) :
    Command.leaks changes locked (fixed.map fun c ↦ (c, false)) = (locked && changes fixed) := by
  have hparams : Command.fromParams (fixed.map fun c ↦ (c, false)) = false := by
    simp [Command.fromParams]
  have htext : Command.text (fixed.map fun c ↦ (c, false)) = fixed := by
    simp [Command.text, Function.comp_def]
  rw [Command.leaks, hparams, htext, Bool.false_or]

/-- A command printed from one text leaks with that text, and otherwise as
the fixed command that is left of it. -/
theorem leaks_iff {cmd : Command} {s fixed : Bytes}
    (hnil : s = [] → cmd = fixed.map fun c ↦ (c, false))
    (harg : s ≠ [] → Command.leaks changes locked cmd = true) :
    Command.leaks changes locked cmd = false ↔
      (decide (s ≠ []) || locked && changes fixed) = false := by
  by_cases hs : s = []
  · rw [hnil hs, leaks_fixed, hs]
    simp
  · rw [harg hs]
    simp [hs]

end DoctorClaw
