import DoctorClaw.Lib.Decimal

/-!
# Tool names, parameters and gates

What all tools share: the table of names `tools_execute` compares with, the
parameter scanner, the approval gate and the list of dangerous commands.

`parse_string_param` copies its result into one static buffer that every call
clears first.  A pointer kept from an earlier call therefore reads what the
last call left there, which is `paramBuffer` of the last key.
-/

namespace DoctorClaw

/-! ## Names -/

inductive Tool
  | shell | zsh | network | fileRead | fileWrite | glob | grep | browse | stat | list | mkdir
  | rm | cp | mv | env | setenv | fileExists | edit | httpRequest | webSearch | screenshot
  | imageInfo | gitClone | gitPull | gitCommit | cronAdd | cronList | cronRemove | cronRun
  | hardwareBoardInfo | hardwareMemoryRead | hardwareMemoryMap | memoryStore | memoryRecall
  | memoryForget | schedule | pushover | delegate | composio | browserOpen | browser
  | gitOperations | cronRuns | cronUpdate | proxyConfig | schema
  deriving DecidableEq

/-- The comparisons of `tools_execute`, in their order.  The second `search`
is never reached. -/
def toolNames : List (String × Tool) :=
  [("shell", .shell), ("bash", .shell), ("cmd", .shell), ("zsh", .zsh), ("network", .network),
    ("read", .fileRead), ("file_read", .fileRead), ("write", .fileWrite),
    ("file_write", .fileWrite), ("glob", .glob), ("grep", .grep), ("search", .grep),
    ("browse", .browse), ("web_fetch", .browse), ("curl", .browse), ("stat", .stat),
    ("file_info", .stat), ("list", .list), ("ls", .list), ("mkdir", .mkdir), ("rm", .rm),
    ("delete", .rm), ("cp", .cp), ("copy", .cp), ("mv", .mv), ("move", .mv), ("env", .env),
    ("getenv", .env), ("setenv", .setenv), ("exists", .fileExists), ("file_exists", .fileExists),
    ("edit", .edit), ("patch", .edit), ("http_request", .httpRequest), ("http", .httpRequest),
    ("web_search", .webSearch), ("search", .webSearch), ("web_search_tool", .webSearch),
    ("screenshot", .screenshot), ("screen_capture", .screenshot), ("image_info", .imageInfo),
    ("identify", .imageInfo), ("git_clone", .gitClone), ("clone", .gitClone),
    ("git_pull", .gitPull), ("pull", .gitPull), ("git_commit", .gitCommit),
    ("commit", .gitCommit), ("cron_add", .cronAdd), ("cron_list", .cronList),
    ("cron_remove", .cronRemove), ("cron_delete", .cronRemove), ("cron_run", .cronRun),
    ("hardware_board_info", .hardwareBoardInfo), ("board_info", .hardwareBoardInfo),
    ("hardware_memory_read", .hardwareMemoryRead), ("memory_read", .hardwareMemoryRead),
    ("hardware_memory_map", .hardwareMemoryMap), ("memory_map", .hardwareMemoryMap),
    ("memory_store", .memoryStore), ("store", .memoryStore), ("memory_recall", .memoryRecall),
    ("recall", .memoryRecall), ("memory_forget", .memoryForget), ("forget", .memoryForget),
    ("schedule", .schedule), ("delay", .schedule), ("pushover", .pushover),
    ("notify", .pushover), ("delegate", .delegate), ("forward", .delegate),
    ("composio", .composio), ("browser_open", .browserOpen), ("open_browser", .browserOpen),
    ("browser", .browser), ("web_browser", .browser), ("git_operations", .gitOperations),
    ("git_ops", .gitOperations), ("cron_runs", .cronRuns), ("cron_history", .cronRuns),
    ("cron_update", .cronUpdate), ("proxy_config", .proxyConfig), ("proxy", .proxyConfig),
    ("schema", .schema), ("schema_clean", .schema)]

def toolNamed (name : Bytes) : Option Tool :=
  (toolNames.find? fun e ↦ ascii e.1 = name).map Prod.snd

/-- The action a tool asks approval for, for the tools that ask. -/
def Tool.riskyAction : Tool → Option Bytes
  | .shell => some (ascii "shell")
  | .zsh => some (ascii "zsh")
  | .network => some (ascii "network")
  | .fileWrite => some (ascii "write")
  | .rm => some (ascii "rm")
  | _ => none

/-! ## Approval -/

structure ApprovalManager where
  autoApproveEnabled : Bool
  approvedActions : Bytes

def approvalCheck (mgr : ApprovalManager) (action : Bytes) : Bool :=
  mgr.autoApproveEnabled || (CString.strstr action mgr.approvedActions).isSome

/-- The error text of `check_approval_risky`; `none` lets the tool run. -/
def checkApprovalRisky (manager : Option ApprovalManager) (requireApproval : Bool)
    (action : Bytes) : Option Bytes :=
  match requireApproval, manager with
  | false, _ => none
  | _, none => none
  | true, some mgr =>
      if approvalCheck mgr action then none else some (ascii "Approval required for " ++ action)

/-! ## Parameters -/

def paramValueSize : ℕ := 4096

def isValueEnd (c : UInt8) : Bool := c == 44 || c == 34 || c == 125

def isValueLead (c : UInt8) : Bool := c == 32 || c == 34 || c == 123 || c == 125

/-- Where `parse_string_param` finds a key. -/
def findParam (params key : Bytes) : Option Bytes :=
  match CString.strstr ([34] ++ key ++ [34]) params with
  | some found => some found
  | none => CString.strstr (key ++ [58]) params

def paramValue (rest : Bytes) : Bytes :=
  let value := (rest.dropWhile isValueLead).takeWhile fun c ↦ !isValueEnd c
  (value.take (paramValueSize - 1)).rdropWhile fun c ↦ c == 32 || c == 34

/-- The static buffer after `parse_string_param (params, key)`. -/
def paramBuffer (params key : Bytes) : Bytes :=
  match (findParam params key).bind (CString.strchr 58) with
  | none => []
  | some rest => paramValue rest.tail

/-- `none` is the null pointer, which also stands for an empty value. -/
def parseStringParam (params key : Bytes) : Option Bytes :=
  if paramBuffer params key = [] then none else some (paramBuffer params key)

def parseIntParam (params key : Bytes) (default : ℤ) : ℤ :=
  match parseStringParam params key with
  | none => default
  | some value => Decimal.atoi value

theorem findParam_suffix {params key found : Bytes} (h : findParam params key = some found) :
    found <:+ params := by
  unfold findParam at h
  split at h
  · rename_i hquoted
    obtain rfl := Option.some.inj h
    exact (CString.strstr_eq_some hquoted).2
  · exact (CString.strstr_eq_some h).2

theorem paramValue_isPrefix (rest : Bytes) :
    paramValue rest <+: (rest.dropWhile isValueLead).takeWhile fun c ↦ !isValueEnd c :=
  (List.rdropWhile_prefix _ _).trans (List.take_prefix _ _)

theorem paramValue_infix (rest : Bytes) : paramValue rest <:+: rest :=
  (paramValue_isPrefix rest).isInfix.trans
    ((List.takeWhile_prefix _).isInfix.trans (List.dropWhile_suffix _).isInfix)

/-- A value is read behind a colon. -/
theorem paramBuffer_infix {params key : Bytes} (h : paramBuffer params key ≠ []) :
    ∃ pre post, params = pre ++ 58 :: post ∧ paramBuffer params key <:+: post := by
  unfold paramBuffer at h ⊢
  split at h
  · exact absurd rfl h
  · rename_i rest hrest
    obtain ⟨found, hf, hcolon⟩ := Option.bind_eq_some_iff.mp hrest
    obtain ⟨post, rfl, hsuffix⟩ := CString.strchr_eq_some hcolon
    obtain ⟨pre, hpre⟩ := hsuffix.trans (findParam_suffix hf)
    exact ⟨pre, post, hpre.symm, paramValue_infix post⟩

theorem length_paramBuffer_lt {params : Bytes} (hne : params ≠ []) (key : Bytes) :
    (paramBuffer params key).length < params.length := by
  by_cases h : paramBuffer params key = []
  · rw [h]
    exact List.length_pos_iff.mpr hne
  · obtain ⟨pre, post, hparams, hinfix⟩ := paramBuffer_infix h
    have hlen := hinfix.length_le
    have htotal := congrArg List.length hparams
    rw [List.length_append, List.length_cons] at htotal
    omega

/-! ## Dangerous commands -/

def dangerousPatterns : List Bytes :=
  ["rm -rf /", "rm -rf /*", "mkfs", "dd if=", ":()\x7b:|:&\x7d;:", "fork()", "while(1)",
    "/etc/passwd", "/etc/shadow", "chmod 777 /", "chown -R", "wget.*|", "curl.*|", "nc -e",
    "bash -i", "sh -i", "nohup.*&", "disown"].map ascii

def isDangerousCommand (command : Bytes) : Bool :=
  dangerousPatterns.any fun pattern ↦ (CString.strstr pattern command).isSome

end DoctorClaw
