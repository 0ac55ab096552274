import DoctorClaw.Tools.Commands

/-!
# Tools on the network, the environment and the process

These tools neither run a command nor change a file.
-/

namespace DoctorClaw

open Interaction Command Decimal

/-! ## Addresses -/

def allowedDomains : List Bytes :=
  ["api.openai.com", "api.anthropic.com", "api.openrouter.ai",
    "generativelanguage.googleapis.com", "open.bigmodel.cn", "ollama.ai", "localhost",
    "127.0.0.1", "github.com", "api.github.com"].map ascii

def privateIpPatterns : List Bytes :=
  ["10.", "172.16.", "172.17.", "172.18.", "172.19.", "172.2", "172.30.", "172.31.",
    "192.168.", "127.", "localhost", "0.0.0.0", "::1", "169.254."].map ascii

def isPrivateIp (host : Bytes) : Bool := privateIpPatterns.any fun pattern ↦ pattern <+: host

/-- The host between `://` and the next slash, up to its first colon.  A host
of 256 bytes or more in front of a slash is dropped. -/
def urlHost (url : Bytes) : Option Bytes :=
  (CString.strstr (ascii "://") url).map fun found ↦
    let protocol := found.drop 3
    let host := match CString.strchr 47 protocol with
      | some path =>
          let len := protocol.length - path.length
          if len < 256 then protocol.take len else []
      | none => protocol.take 255
    host.takeWhile (· ≠ 58)

def isDomainAllowed (url : Bytes) : Bool :=
  match urlHost url with
  | none => false
  | some host =>
      !isPrivateIp host && allowedDomains.any fun domain ↦ (CString.strstr domain host).isSome

/-! ## The network -/

def toolBrowseExecute (params : Bytes) (r : ToolResult) : ToolM Outcome :=
  if hasParam params "url" ∨ hasParam params "address" then do
    let url := paramBuffer params (ascii "max_length")
    let maxLen : ℕ := if hasParam params "max_length" then ((atoi url) % 2 ^ 64).toNat else 50000
    let resp ← Sys.httpGet url [ascii "User-Agent: DoctorClaw/0.1.0"]
    if resp.ok then
      let copyLen := min (min resp.data.length maxLen) (toolResultSize - 1)
      succeedWith r (CString.ofBuffer (resp.data.take copyLen))
    else failWith r (ascii "Failed to fetch URL: " ++ url)
  else failWith r (ascii "No URL provided")

@[irreducible] def sizeToInt (size : ℕ) : ℤ := (size : ℤ).bmod (2 ^ 32)

/-- The answer in the result; the note about truncated data is appended
without a look at what is left of the buffer. -/
def httpReport (maxLen : ℤ) (data : Bytes) : ToolM Outcome :=
  let copied (copySize : ℕ) : Bytes :=
    CString.ofBuffer (data.take (min copySize (toolResultSize - 1)))
  if data = [] then succeedWith .zero []
  else if maxLen < sizeToInt data.length then
    let text := copied maxLen.toNat ++ ascii "\n[TRUNCATED]"
    if text.length < toolResultSize then succeedWith .zero text else .halt
  else succeedWith .zero (copied data.length)

def toolHttpRequestExecute (params : Bytes) : ToolM Outcome :=
  let buffer := paramBuffer params (ascii "max_length")
  match paramPointer params "url" buffer with
  | none => failWith .zero (ascii "No URL provided")
  | some url =>
    if isDomainAllowed url then do
      let method := (paramPointer params "method" buffer).getD (ascii "GET")
      let maxLen := if hasParam params "max_length" then atoi buffer else 16384
      let maxLen := if maxLen ≤ 0 ∨ 1048576 < maxLen then 16384 else maxLen
      let headers := if hasParam params "headers" then [ascii "Content-Type: application/json"]
        else []
      if method = ascii "GET" then
        let resp ← Sys.httpGet url headers
        httpReport maxLen resp.data
      else if method = ascii "POST" then
        let resp ← Sys.httpPost url headers ((paramPointer params "body" buffer).getD [])
        httpReport maxLen resp.data
      else httpReport maxLen []
    else failWith .zero (ascii "URL blocked by security policy (SSRF protection)")

def toolWebSearchExecute (params : Bytes) (r : ToolResult) : ToolM Outcome :=
  let buffer := paramBuffer params (ascii "num_results")
  match paramPointer params "query" buffer with
  | none => failWith r (ascii "No query provided")
  | some query => do
    let url := CString.cut 1024 (ascii "https://api.duckduckgo.com/?q=" ++ query ++
      ascii "&format=json&no_html=1&skip_disambig=1")
    let resp ← Sys.httpGet url []
    succeedWith r (CString.ofBuffer (resp.data.take (toolResultSize - 1)))

/-! ## The environment -/

def listEnviron : Bytes → List Bytes → Bytes
  | output, [] => output
  | output, var :: vars =>
      if output.length < 16383 then listEnviron (output ++ var ++ [10]) vars else output

def toolEnvExecute (params : Bytes) (r : ToolResult) : ToolM Outcome :=
  match parseStringParam params (ascii "name") with
  | some name => do
      match ← Sys.getenv name with
      | some value => succeedWith r (name ++ [61] ++ value)
      | none => succeedWith r (ascii "Environment variable not set: " ++ name)
  | none => do
      let vars ← Sys.environ
      succeedWith r (listEnviron [] vars)

def toolSetenvExecute (params : Bytes) (r : ToolResult) : ToolM Outcome :=
  let buffer := paramBuffer params (ascii "value")
  match paramPointer params "name" buffer with
  | none => failWith r (ascii "No name provided")
  | some name => do
    let value := (paramPointer params "value" buffer).getD []
    let done ← Sys.setenv name value
    if done then succeedWith r (ascii "Set " ++ name ++ [61] ++ value)
    else
      let e ← Sys.strerror
      failWith r (ascii "Failed to set environment variable: " ++ e)

def toolProxyConfigExecute (params : Bytes) (r : ToolResult) : ToolM Outcome :=
  let buffer := paramBuffer params (ascii "protocol")
  match paramPointer params "action" buffer with
  | none => failWith r (ascii "Action required (get/set/unset)")
  | some action =>
    if action = ascii "get" then do
      let httpProxy ← Sys.getenv (ascii "HTTP_PROXY")
      let httpsProxy ← Sys.getenv (ascii "HTTPS_PROXY")
      let noProxy ← Sys.getenv (ascii "NO_PROXY")
      succeedWith r (ascii "HTTP_PROXY: " ++ httpProxy.getD (ascii "not set") ++
        ascii "\nHTTPS_PROXY: " ++ httpsProxy.getD (ascii "not set") ++ ascii "\nNO_PROXY: " ++
        noProxy.getD (ascii "not set"))
    else if action = ascii "set" then
      match paramPointer params "host" buffer, paramPointer params "port" buffer with
      | some host, some portStr => do
          let protocol := (paramPointer params "protocol" buffer).getD (ascii "http")
          let proxyUrl := CString.cut 256 (protocol ++ ascii "://" ++ host ++ [58] ++
            printInt (atoi portStr))
          let _ ← Sys.setenv (ascii "HTTP_PROXY") proxyUrl
          let _ ← Sys.setenv (ascii "HTTPS_PROXY") proxyUrl
          let _ ← Sys.setenv (ascii "http_proxy") proxyUrl
          let _ ← Sys.setenv (ascii "https_proxy") proxyUrl
          succeedWith r (ascii "Proxy set to: " ++ proxyUrl)
      | _, _ => failWith r (ascii "Host and port required for set action")
    else if action = ascii "unset" then do
      Sys.unsetenv (ascii "HTTP_PROXY")
      Sys.unsetenv (ascii "HTTPS_PROXY")
      Sys.unsetenv (ascii "http_proxy")
      Sys.unsetenv (ascii "https_proxy")
      succeedWith r (ascii "Proxy variables unset")
    else failWith r (ascii "Unknown action: " ++ action)

/-! ## Tools that only answer -/

/-- What `tool_memory_store_execute` acts on: the namespace, the key and the
content, once key and content are there. -/
def memoryStoreArgs (params : Bytes) : Option (Bytes × Bytes × Bytes) :=
  let buffer := paramBuffer params (ascii "namespace")
  match paramPointer params "key" buffer, paramPointer params "content" buffer with
  | some key, some content =>
      some ((paramPointer params "namespace" buffer).getD (ascii "default"), key, content)
  | _, _ => none

def toolMemoryStoreExecute (params : Bytes) (r : ToolResult) : ToolM Outcome :=
  match memoryStoreArgs params with
  | none => failWith r (ascii "Key and content required")
  | some (space, key, content) =>
      succeedWith r (ascii "Memory stored: [" ++ space ++ ascii "] " ++ key ++ ascii " = " ++
        content)

def memoryRecallArgs (params : Bytes) : Option (Bytes × Bytes) :=
  let buffer := paramBuffer params (ascii "namespace")
  (paramPointer params "query" buffer).map fun query ↦
    ((paramPointer params "namespace" buffer).getD (ascii "default"), query)

def toolMemoryRecallExecute (params : Bytes) (r : ToolResult) : ToolM Outcome :=
  match memoryRecallArgs params with
  | none => failWith r (ascii "Query required")
  | some (space, query) =>
      succeedWith r (ascii "Recalled from [" ++ space ++ ascii "]: " ++ query)

def toolMemoryForgetExecute (params : Bytes) (r : ToolResult) : ToolM Outcome :=
  let buffer := paramBuffer params (ascii "namespace")
  match paramPointer params "key" buffer with
  | none => failWith r (ascii "Key required")
  | some key =>
      let space := (paramPointer params "namespace" buffer).getD (ascii "default")
      succeedWith r (ascii "Forgotten: [" ++ space ++ ascii "] " ++ key)

def toolPushoverExecute (params : Bytes) (r : ToolResult) : ToolM Outcome :=
  let buffer := paramBuffer params (ascii "title")
  match paramPointer params "message" buffer with
  | none => failWith r (ascii "Message required")
  | some message =>
    if hasParam params "user_key" ∧ hasParam params "app_token" then
      let title := (paramPointer params "title" buffer).getD (ascii "DoctorClaw")
      succeedWith r (ascii "Pushover notification: " ++ message ++ ascii " (title: " ++ title ++
        ascii ")")
    else failWith r (ascii "User key and app token required")

def toolDelegateExecute (params : Bytes) (r : ToolResult) : ToolM Outcome :=
  let buffer := paramBuffer params (ascii "task")
  match paramPointer params "task" buffer with
  | none => failWith r (ascii "Task required")
  | some task =>
      let agent := (paramPointer params "agent" buffer).getD (ascii "default")
      succeedWith r (ascii "Delegated to " ++ agent ++ ascii ": " ++ task)

def toolComposioExecute (params : Bytes) (r : ToolResult) : ToolM Outcome :=
  let buffer := paramBuffer params (ascii "params")
  match paramPointer params "action" buffer with
  | none => failWith r (ascii "Action required")
  | some action =>
      let entity := (paramPointer params "entity" buffer).getD (ascii "default")
      let paramsJson := (paramPointer params "params" buffer).getD (ascii "\x7b\x7d")
      succeedWith r (ascii "Composio action: " ++ action ++ ascii " on " ++ entity ++
        ascii " with params: " ++ paramsJson)

def listCronRuns : Bytes → List Bytes → Bytes
  | output, [] => output
  | output, entry :: entries =>
      if output.length < 7992 then listCronRuns (output ++ ascii "- " ++ entry ++ [10]) entries
      else output

def toolCronRunsExecute (cronRuns : List Bytes) (params : Bytes) (r : ToolResult) :
    ToolM Outcome :=
  let limit := parseIntParam params (ascii "limit") 10
  let limit := if limit ≤ 0 ∨ 100 < limit then 10 else limit.toNat
  if cronRuns = [] then succeedWith r (ascii "No cron execution history available")
  else
    let entries := cronRuns.drop (cronRuns.length - limit)
    succeedWith r (CString.cut 8192 (listCronRuns (ascii "Cron execution history:\n") entries))

/-- A missing strategy is compared all the same. -/
def toolSchemaExecute (params : Bytes) (r : ToolResult) : ToolM Outcome :=
  let buffer := paramBuffer params (ascii "strategy")
  match paramPointer params "path" buffer, paramPointer params "strategy" buffer with
  | none, _ => failWith r (ascii "Path required")
  | some _, none => .halt
  | some path, some strategy =>
      if strategy = ascii "remove_empty" then
        succeedWith r (ascii "Schema cleaned (remove_empty): " ++ path ++
          ascii " - removed 0 empty elements")
      else if strategy = ascii "deduplicate" then
        succeedWith r (ascii "Schema cleaned (deduplicate): " ++ path ++
          ascii " - removed 0 duplicates")
      else if strategy = ascii "validate" then
        succeedWith r (ascii "Schema validated: " ++ path ++ ascii " - valid")
      else succeedWith r (ascii "Schema processed (" ++ strategy ++ ascii "): " ++ path)

end DoctorClaw
