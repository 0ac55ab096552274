import DoctorClaw.Lib.Strtok
import DoctorClaw.Tools.Calls

/-!
# Tools that run commands

The shell tools check their command before they run it.  All others print
their parameters into a fixed command and hand it to `system` or `popen`.  In
each of them `buffer` is what the static buffer of `parse_string_param` holds
after the last key was parsed, which is what every parameter then reads.
-/

namespace DoctorClaw

open Interaction Command Decimal

def isTrue (p : Option Bytes) : Bool := p = some (ascii "true")

/-! ## The shell tools -/

def shellMaxInput : ℕ := 32768

def shellMaxOutput : ℕ := 1048576

def shellTimeoutSeconds : ℤ := 60

structure SecurityPolicy where
  rules : List (Bytes × Bool)
  defaultAllow : Bool

def securityPolicyCheck (policy : SecurityPolicy) (action target : Bytes) : Bool :=
  let check := CString.cut 512 (action ++ [58] ++ target)
  match policy.rules.find? fun rule ↦ (CString.strstr rule.1 check).isSome with
  | some rule => rule.2
  | none => policy.defaultAllow

/-- `check_shell_policy (command) == 0`, where `none` is a policy that was
never initialised. -/
def checkShellPolicy (policy : Option SecurityPolicy) (command : Bytes) : Bool :=
  match policy with
  | none => true
  | some policy => securityPolicyCheck policy (ascii "shell") command

def shellCommand (params : Bytes) : Bytes :=
  (parseStringParam params (ascii "command")).getD params

def shellTimeout (params : Bytes) : ℤ :=
  let timeout := parseIntParam params (ascii "timeout") shellTimeoutSeconds
  if timeout ≤ 0 ∨ 300 < timeout then shellTimeoutSeconds else timeout

/-- The result made of status and output.  The note about truncated output is
appended to a buffer with less than eleven bytes left. -/
def shellOutcome (status : ℤ) (output : Bytes) : ToolM Outcome :=
  if shellMaxOutput - 10 ≤ output.length then .halt
  else
    let r := { ToolResult.zero.printResult output with success := decide (status = 0) }
    let statusMsg := ascii "\n[Exit code: " ++ printInt status ++ ascii "]"
    if ¬ r.success ∧ status ≠ -1 ∧ r.result.length + statusMsg.length < toolResultSize then
      .ret (true, { r with result := r.result ++ statusMsg })
    else .ret (true, r)

/-- What the three tools do with their command. -/
def runChecked (policy : Option SecurityPolicy) (shell : Option Bytes) (timeout : ℤ)
    (command : Bytes) : ToolM Outcome :=
  if shellMaxInput ≤ command.length then
    failWith .zero (ascii "Command too long (max 32768)")
  else if command = [] then failWith .zero (ascii "No command provided")
  else if isDangerousCommand command then
    failWith .zero (ascii "Command contains dangerous pattern")
  else do
    Sys.passedDangerCheck command
    if checkShellPolicy policy command then do
      let reply ← Sys.runWithTimeout (arg command) timeout shell
      shellOutcome reply.1 reply.2
    else failWith .zero (ascii "Command blocked by security policy")

def toolShellExecute (policy : Option SecurityPolicy) (params : Bytes) : ToolM Outcome :=
  runChecked policy none (shellTimeout params) (shellCommand params)

def toolZshExecute (policy : Option SecurityPolicy) (params : Bytes) : ToolM Outcome :=
  runChecked policy (some (ascii "/bin/zsh")) (shellTimeout params) (shellCommand params)

def toolNetworkExecute (policy : Option SecurityPolicy) (params : Bytes) : ToolM Outcome :=
  runChecked policy none (shellTimeout params) (shellCommand params)

/-! ## Copies and screenshots -/

def toolCpExecute (params : Bytes) (r : ToolResult) : ToolM Outcome :=
  let buffer := paramBuffer params (ascii "recursive")
  match paramPointer params "src" buffer with
  | none => failWith r (ascii "No source provided")
  | some src =>
    match paramPointer params "dest" buffer <|> paramPointer params "destination" buffer with
    | none => failWith r (ascii "No destination provided")
    | some destination => do
      let cmd := if isTrue (paramPointer params "recursive" buffer) then
          lit "cp -R " ++ arg src ++ lit " " ++ arg destination
        else lit "cp " ++ arg src ++ lit " " ++ arg destination
      let code ← Sys.system (Command.cut 4096 cmd)
      if code ≠ 0 then do
        let e ← Sys.strerror
        failWith r (ascii "Failed to copy: " ++ e)
      else succeedWith r (ascii "Copied " ++ src ++ ascii " to " ++ destination)

def toolScreenshotExecute (params : Bytes) (r : ToolResult) : ToolM Outcome := do
  let buffer := paramBuffer params (ascii "delay")
  let outputPath := if hasParam params "output" then arg buffer else lit "screenshot.png"
  let delay := if hasParam params "delay" then arg (printInt (atoi buffer)) else lit "1"
  let ret ← Sys.system (Command.cut 1024
    (lit "sleep " ++ delay ++ lit " && screencapture -x " ++ outputPath))
  if ret = 0 then succeedWith r (ascii "Screenshot saved to " ++ outputPath.text)
  else .ret (true, r.printError (ascii "Failed to capture screenshot"))

/-! ## Git -/

def systemReport (r : ToolResult) (cmd : Command) (failed : ℤ → Bytes) (done : Bytes) :
    ToolM Outcome := do
  let ret ← Sys.system cmd
  if ret = 0 then succeedWith r done
  else .ret (true, { r.printError (failed ret) with success := false })

def toolGitCloneExecute (params : Bytes) (r : ToolResult) : ToolM Outcome :=
  let buffer := paramBuffer params (ascii "directory")
  match paramPointer params "url" buffer with
  | none => failWith r (ascii "No repository URL provided")
  | some url =>
    let cmd := match paramPointer params "directory" buffer with
      | some dir => lit "git clone " ++ arg url ++ lit " " ++ arg dir
      | none => lit "git clone " ++ arg url
    systemReport r (Command.cut 2048 cmd)
      (fun ret ↦ ascii "Git clone failed with code " ++ printInt ret)
      (ascii "Repository cloned successfully")

def toolGitPullExecute (params : Bytes) (r : ToolResult) : ToolM Outcome :=
  let buffer := paramBuffer params (ascii "branch")
  let path := if hasParam params "path" then arg buffer else lit "."
  let cmd := match paramPointer params "branch" buffer with
    | some branch => lit "cd " ++ path ++ lit " && git pull origin " ++ arg branch
    | none => lit "cd " ++ path ++ lit " && git pull"
  systemReport r (Command.cut 2048 cmd)
    (fun ret ↦ ascii "Git pull failed with code " ++ printInt ret) (ascii "Git pull successful")

def toolGitCommitExecute (params : Bytes) (r : ToolResult) : ToolM Outcome :=
  let buffer := paramBuffer params (ascii "add_all")
  let path := if hasParam params "path" then arg buffer else lit "."
  match paramPointer params "message" buffer with
  | none => failWith r (ascii "No commit message provided")
  | some message =>
    let cmd := if isTrue (paramPointer params "add_all" buffer) then
        lit "cd " ++ path ++ lit " && git add -A && git commit -m \"" ++ arg message ++ lit "\""
      else lit "cd " ++ path ++ lit " && git commit -m \"" ++ arg message ++ lit "\""
    systemReport r (Command.cut 4096 cmd)
      (fun ret ↦ ascii "Git commit failed with code " ++ printInt ret) (ascii "Commit successful")

/-- The text a loop of `fgets` collects behind each other until it is longer
than `limit`, in a buffer of `size` bytes. -/
def collectOutput (size limit : ℕ) : ℕ → Bytes → Bytes → Bytes
  | 0, output, _ => output
  | _ + 1, output, [] => output
  | fuel + 1, output, c :: pipe =>
      let line := CString.fgets (size - output.length - 1) (c :: pipe)
      let output := output ++ CString.ofBuffer line.1
      if limit < output.length then output else collectOutput size limit fuel output line.2

def gitOperation (params operation : Bytes) (path : Command) : Command :=
  let fixed (tail : String) : Command := lit "cd " ++ path ++ lit tail
  if operation = ascii "status" then fixed " && git status --short 2>&1"
  else if operation = ascii "branch" then fixed " && git branch -a 2>&1"
  else if operation = ascii "log" then
    let limit := if hasParam params "args" then arg (printInt (atoi operation)) else lit "10"
    lit "cd " ++ path ++ lit " && git log --oneline -n " ++ limit ++ lit " 2>&1"
  else if operation = ascii "diff" then fixed " && git diff 2>&1 | head -200"
  else if operation = ascii "stash" then fixed " && git stash list 2>&1"
  else if operation = ascii "tag" then fixed " && git tag -l 2>&1"
  else if operation = ascii "fetch" then fixed " && git fetch --all 2>&1"
  else if operation = ascii "remote" then fixed " && git remote -v 2>&1"
  else if operation = ascii "reflog" then fixed " && git reflog -n 20 2>&1"
  else if operation = ascii "shortlog" then fixed " && git shortlog -sn 2>&1"
  else lit "cd " ++ path ++ lit " && git " ++ arg operation ++ lit " 2>&1"

def toolGitOperationsExecute (params : Bytes) (r : ToolResult) : ToolM Outcome :=
  let buffer := paramBuffer params (ascii "path")
  match paramPointer params "operation" buffer with
  | none => failWith r (ascii ("Operation required (status, branch, log, diff, stash, tag, " ++
      "fetch, pull)"))
  | some operation => do
    let path := if hasParam params "path" then arg buffer else lit "."
    let pipe ← Sys.popen (Command.cut 4096 (gitOperation params operation path))
    match pipe with
    | none => failWith r (ascii "Failed to execute git operation")
    | some data =>
      let output := collectOutput 8192 7000 data.length [] data
      if output = [] then
        succeedWith r (CString.cut 8192 (ascii "No output from git " ++ operation))
      else succeedWith r output

/-! ## Cron -/

def collectLines (size : ℕ) : Bytes → List Bytes → Bytes
  | output, [] => output
  | output, line :: lines =>
      if output.length < size - 1 then
        let text := CString.ofBuffer line
        if output.length + text.length < size then collectLines size (output ++ text) lines
        else collectLines size output lines
      else output

def toolCronAddExecute (params : Bytes) (r : ToolResult) : ToolM Outcome :=
  let buffer := paramBuffer params (ascii "name")
  match paramPointer params "schedule" buffer, paramPointer params "command" buffer with
  | some schedule, some command =>
    let cronEntry := Command.cut 4096 (match paramPointer params "name" buffer with
      | some jobName => arg schedule ++ lit " " ++ arg command ++ lit " # " ++ arg jobName
      | none => arg schedule ++ lit " " ++ arg command)
    systemReport r
      (Command.cut 8192 (lit "(crontab -l 2>/dev/null; echo \"" ++ cronEntry ++
        lit "\") | crontab -"))
      (fun _ ↦ ascii "Failed to add cron job") (ascii "Cron job added: " ++ cronEntry.text)
  | _, _ => failWith r (ascii "Schedule and command required")

def toolCronListExecute (r : ToolResult) : ToolM Outcome := do
  let pipe ← Sys.popen (lit "crontab -l 2>/dev/null")
  match pipe with
  | none => failWith r (ascii "No crontab or error reading")
  | some data =>
    let buf := collectLines 4096 [] (CString.fgetsLines 256 data.length data)
    if buf = [] then succeedWith r (ascii "No cron jobs") else succeedWith r buf

def toolCronRemoveExecute (params : Bytes) (r : ToolResult) : ToolM Outcome :=
  let buffer := paramBuffer params (ascii "line")
  let finish (success : Bool) : ToolM Outcome :=
    if success then succeedWith r (ascii "Cron jobs removed")
    else .ret (true, { r with success := false })
  match paramPointer params "line" buffer, paramPointer params "name" buffer with
  | some lineNum, _ => do
      let ret ← Sys.system (Command.cut 256
        (lit "crontab -l | sed -e '" ++ arg lineNum ++ lit "d' | crontab -"))
      finish (ret = 0)
  | none, some jobName => do
      let ret ← Sys.system (Command.cut 512
        (lit "crontab -l | grep -v '# " ++ arg jobName ++ lit "$' | crontab -"))
      finish (ret = 0)
  | none, none => do
      let _ ← Sys.system (lit "crontab -r")
      finish true

def toolCronRunExecute (params : Bytes) (r : ToolResult) : ToolM Outcome :=
  match parseStringParam params (ascii "command") with
  | none => failWith r (ascii "No command provided")
  | some command => do
    let ret ← Sys.system (arg command)
    if ret = 0 then .ret (true, { r with success := true })
    else
      let error := ascii "Command failed with code " ++ printInt ret
      .ret (true, { r.printError error with success := false })

def toolCronUpdateExecute (params : Bytes) (r : ToolResult) : ToolM Outcome :=
  let buffer := paramBuffer params (ascii "command")
  let update (jobId : Bytes) (cmd : Command) : ToolM Outcome := do
    let ret ← Sys.system (Command.cut 1024 cmd)
    if ret = 0 then succeedWith r (ascii "Updated cron job: " ++ jobId)
    else failWith r (ascii "Failed to update cron job")
  match paramPointer params "job_id" buffer with
  | none => failWith r (ascii "Job ID required")
  | some jobId =>
    match paramPointer params "schedule" buffer, paramPointer params "command" buffer with
    | some schedule, some command =>
        update jobId (lit "(crontab -l 2>/dev/null | grep -v '^#.*" ++ arg jobId ++
          lit "' | grep -v '^" ++ arg jobId ++ lit " '; echo '" ++ arg schedule ++ lit " " ++
          arg command ++ lit "') | crontab -")
    | some schedule, none =>
        update jobId (lit "crontab -l 2>/dev/null | sed 's/.*" ++ arg jobId ++ lit ".*/" ++
          arg schedule ++ lit " /' | crontab -")
    | none, _ => failWith r (ascii "Schedule or command required")

def toolScheduleExecute (params : Bytes) (r : ToolResult) : ToolM Outcome :=
  let buffer := paramBuffer params (ascii "command")
  match paramPointer params "command" buffer with
  | none => failWith r (ascii "Command required")
  | some command => do
    let delay := match paramPointer params "delay" buffer with
      | some delay => atoi delay
      | none => 0
    let cmd := if 0 < delay then
        Command.cut 4096 (lit "sleep " ++ arg (printInt delay) ++ lit " && " ++ arg command)
      else arg command
    let ret ← Sys.system cmd
    .ret (true, { r with success := decide (ret = 0) })

/-! ## Browsers -/

def toolBrowserOpenExecute (params : Bytes) (r : ToolResult) : ToolM Outcome :=
  let buffer := paramBuffer params (ascii "headless")
  match paramPointer params "url" buffer with
  | none => failWith r (ascii "URL required")
  | some url => do
    let headless := isTrue (paramPointer params "headless" buffer)
    let cmd := if headless then
        lit "open -a 'Google Chrome' --args --headless --disable-gpu '" ++ arg url ++
          lit "' 2>/dev/null || open -a 'Safari' '" ++ arg url ++
          lit "' 2>/dev/null || xdg-open '" ++ arg url ++
          lit "' 2>/dev/null || echo 'No browser found'"
      else lit "open '" ++ arg url ++ lit "' 2>/dev/null || xdg-open '" ++ arg url ++
          lit "' 2>/dev/null || echo 'No browser found'"
    let pipe ← Sys.popen (Command.cut 1024 cmd)
    match pipe with
    | none => failWith r (ascii "Failed to open browser")
    | some _ => succeedWith r (ascii "Opened URL: " ++ url ++ ascii " (headless: " ++
        ascii (if headless then "yes" else "no") ++ ascii ")")

def clickNotice : String :=
  "echo 'Click action requires browser automation. Use browser_open for simple navigation.'"

def fillNotice : String :=
  "echo 'Fill action requires browser automation. Use browser_open for simple navigation.'"

def browserAction (action : Bytes) (url : Bytes) : Command :=
  if action = ascii "navigate" then lit "curl -s -L '" ++ arg url ++ lit "' | head -1000"
  else if action = ascii "screenshot" then
    lit "webkit2png '" ++ arg url ++
      lit ("' -o /tmp/screenshot.png 2>/dev/null && echo 'Screenshot saved' || " ++
        "echo 'Failed'")
  else if action = ascii "click" then lit clickNotice
  else if action = ascii "fill" then lit fillNotice
  else if action = ascii "get_html" then lit "curl -s '" ++ arg url ++ lit "'"
  else if action = ascii "get_text" then
    lit "curl -s '" ++ arg url ++ lit "' | sed 's/<[^>]*>//g' | head -500"
  else lit "curl -s -L '" ++ arg url ++ lit "' | head -1000"

def toolBrowserExecute (params : Bytes) (r : ToolResult) : ToolM Outcome :=
  let buffer := paramBuffer params (ascii "selector")
  match paramPointer params "url" buffer with
  | none => failWith r (ascii "URL required")
  | some url => do
    let action := (paramPointer params "action" buffer).getD (ascii "navigate")
    let pipe ← Sys.popen (Command.cut 2048 (browserAction action url))
    match pipe with
    | none => failWith r (ascii "Failed to execute browser action")
    | some data =>
      let output := collectOutput 4096 3000 data.length [] data
      if output = [] then
        succeedWith r (CString.cut 4096 (ascii "Browser action '" ++ action ++
          ascii "' completed on " ++ url))
      else succeedWith r output

end DoctorClaw
