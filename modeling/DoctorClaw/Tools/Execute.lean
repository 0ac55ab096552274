import DoctorClaw.Tools.Files
import DoctorClaw.Tools.Services

/-!
# The dispatcher

`tools_execute` finds the implementation of a tool by its name, asks for
approval in front of five of them, and takes the return value of the
implementation as the success of the call.
-/

namespace DoctorClaw

open Interaction

structure ToolImpl where
  name : Bytes
  execute : Bytes → ToolResult → ToolM Outcome

/-- The variables of the process that tools read. -/
structure ToolState where
  approvalManager : Option ApprovalManager
  requireApproval : Bool
  workspaceDir : Bytes
  shellPolicy : Option SecurityPolicy
  cronRuns : List Bytes
  registry : List ToolImpl

def ToolState.init : ToolState := ⟨none, false, [], none, [], []⟩

section Execute

variable (libc : Libc) (g : ToolState)

def Tool.execute (params : Bytes) (r : ToolResult) : Tool → ToolM Outcome
  | .shell => toolShellExecute g.shellPolicy params
  | .zsh => toolZshExecute g.shellPolicy params
  | .network => toolNetworkExecute g.shellPolicy params
  | .fileRead => toolFileReadExecute g.workspaceDir params
  | .fileWrite => toolFileWriteExecute params r
  | .glob => toolGlobExecute libc params r
  | .grep => toolGrepExecute libc params r
  | .browse => toolBrowseExecute params r
  | .stat => toolStatExecute params r
  | .list => toolListExecute params r
  | .mkdir => toolMkdirExecute params r
  | .rm => toolRmExecute params r
  | .cp => toolCpExecute params r
  | .mv => toolMvExecute params r
  | .env => toolEnvExecute params r
  | .setenv => toolSetenvExecute params r
  | .fileExists => toolExistsExecute params r
  | .edit => toolEditExecute params r
  | .httpRequest => toolHttpRequestExecute params
  | .webSearch => toolWebSearchExecute params r
  | .screenshot => toolScreenshotExecute params r
  | .imageInfo => toolImageInfoExecute params r
  | .gitClone => toolGitCloneExecute params r
  | .gitPull => toolGitPullExecute params r
  | .gitCommit => toolGitCommitExecute params r
  | .cronAdd => toolCronAddExecute params r
  | .cronList => toolCronListExecute r
  | .cronRemove => toolCronRemoveExecute params r
  | .cronRun => toolCronRunExecute params r
  | .hardwareBoardInfo => toolHardwareBoardInfoExecute r
  | .hardwareMemoryRead => toolHardwareMemoryReadExecute params r
  | .hardwareMemoryMap => toolHardwareMemoryMapExecute r
  | .memoryStore => toolMemoryStoreExecute params r
  | .memoryRecall => toolMemoryRecallExecute params r
  | .memoryForget => toolMemoryForgetExecute params r
  | .schedule => toolScheduleExecute params r
  | .pushover => toolPushoverExecute params r
  | .delegate => toolDelegateExecute params r
  | .composio => toolComposioExecute params r
  | .browserOpen => toolBrowserOpenExecute params r
  | .browser => toolBrowserExecute params r
  | .gitOperations => toolGitOperationsExecute params r
  | .cronRuns => toolCronRunsExecute g.cronRuns params r
  | .cronUpdate => toolCronUpdateExecute params r
  | .proxyConfig => toolProxyConfigExecute params r
  | .schema => toolSchemaExecute params r

def Tool.gate (tool : Tool) : Option Bytes :=
  tool.riskyAction.bind (checkApprovalRisky g.approvalManager g.requireApproval)

def maxToolName : ℕ := 64

/-- `result->success = (... == 0)`, and the return value with it. -/
def settle (outcome : Outcome) : Outcome := (outcome.1, { outcome.2 with success := outcome.1 })

def toolsExecute (name params : Bytes) : ToolM Outcome :=
  let r := { ToolResult.zero with name := CString.cut maxToolName name }
  match toolNamed name with
  | some tool =>
    match tool.gate g with
    | some error => failWith r error
    | none => do
        let outcome ← tool.execute libc g params r
        return settle outcome
  | none =>
    match g.registry.find? fun t ↦ t.name = name with
    | some t => do
        let outcome ← t.execute params r
        return settle outcome
    | none => .ret (false, r)

end Execute

end DoctorClaw
