import DoctorClaw.Config.Lines
import DoctorClaw.Lib.Decimal
import DoctorClaw.Lib.Strtok

/-!
# The configuration

`config_load` starts from the defaults, reads the file and then lets
environment variables override it.  `config_save` writes the paths, the
provider and the gateway.

The environment and the files are functions of their names.  The type of
doubles is a parameter, together with how they are read and printed.
-/

namespace DoctorClaw

open CString

/-! ## The data -/

/-- `atof` and `%f`. -/
structure DoubleFormat (D : Type) where
  atof : Bytes → D
  printF : D → Bytes
  newline_notMem : ∀ d, (10 : UInt8) ∉ printF d
  length_printF_le : ∀ d, (printF d).length ≤ 320

/-- `config_paths_t`. -/
structure ConfigPaths where
  workspaceDir : Bytes
  configPath : Bytes
  stateDir : Bytes
  dataDir : Bytes
  deriving DecidableEq, Inhabited

/-- `provider_config_t`. -/
structure ProviderConfig (D : Type) where
  provider : Bytes
  model : Bytes
  temperature : D
  maxTokens : UInt64
  apiKey : Bytes
  ollamaHost : Bytes
  llamaModelPath : Bytes
  deriving Inhabited

/-- `memory_config_t`. -/
structure MemoryConfig where
  backend : Bytes
  autoSave : Bool
  storageProvider : Bytes
  chunkSize : UInt64
  snapshotEnabled : Bool
  deriving DecidableEq, Inhabited

/-- `heartbeat_config_t`. -/
structure HeartbeatConfig where
  enabled : Bool
  intervalMinutes : UInt32
  deriving DecidableEq, Inhabited

/-- `observability_config_t`. -/
structure ObservabilityConfig where
  backend : Bytes
  otelEndpoint : Bytes
  otelServiceName : Bytes
  verbose : Bool
  deriving DecidableEq, Inhabited

/-- `autonomy_level_t`. -/
inductive AutonomyLevel
  | full
  | supervised
  | restricted
  | none
  deriving DecidableEq, Inhabited

/-- `autonomy_config_t`. -/
structure AutonomyConfig where
  enabled : Bool
  level : AutonomyLevel
  levelStr : Bytes
  workspaceOnly : Bool
  maxActionsPerHour : UInt32
  maxCostPerDayCents : UInt32
  requireApproval : Bool
  deriving DecidableEq, Inhabited

/-- `gateway_config_t`. -/
structure GatewayConfig where
  port : UInt16
  host : Bytes
  deriving DecidableEq, Inhabited

/-- `secrets_config_t`. -/
structure SecretsConfig where
  encrypt : Bool
  deriving DecidableEq, Inhabited

/-- `agent_config_t`. -/
structure AgentConfig where
  enabled : Bool
  maxHistoryMessages : UInt32
  maxToolIterations : UInt32
  toolDispatcher : Bytes
  compactThreshold : UInt32
  autoSave : Bool
  deriving DecidableEq, Inhabited

/-- `config_t`; a job worker reads two fields of it only. -/
structure FullConfig (D : Type) where
  provider : ProviderConfig D
  memory : MemoryConfig
  heartbeat : HeartbeatConfig
  observability : ObservabilityConfig
  autonomy : AutonomyConfig
  paths : ConfigPaths
  gateway : GatewayConfig
  secrets : SecretsConfig
  agent : AgentConfig
  deriving Inhabited

def maxPathLen : ℕ := 4096

def maxProviderNameLen : ℕ := 64

def maxModelNameLen : ℕ := 128

def maxApiKeyLen : ℕ := 256

/-! ## The environment -/

/-- The value of a variable that is set and not empty. -/
def envValue (env : Bytes → Option Bytes) (name : String) : Option Bytes :=
  (env (ascii name)).filter fun v ↦ decide (v ≠ [])

/-- The directories without a configuration file. -/
def defaultPaths (env : Bytes → Option Bytes) : ConfigPaths :=
  match envValue env "HOME" with
  | some home =>
      { workspaceDir := cut maxPathLen (home ++ ascii "/.doctorclaw")
        configPath := []
        stateDir := cut maxPathLen (home ++ ascii "/.doctorclaw/state")
        dataDir := cut maxPathLen (home ++ ascii "/.doctorclaw/data") }
  | none =>
      { workspaceDir := ascii ".doctorclaw"
        configPath := []
        stateDir := ascii ".doctorclaw/state"
        dataDir := ascii ".doctorclaw/data" }

def configInitDefaults {D : Type} (format : DoubleFormat D) (env : Bytes → Option Bytes) :
    FullConfig D where
  paths := defaultPaths env
  provider :=
    { provider := ascii "openrouter"
      model := []
      temperature := format.atof (ascii "0.7")
      maxTokens := 4096
      apiKey := []
      ollamaHost := []
      llamaModelPath := [] }
  memory :=
    { backend := ascii "sqlite"
      autoSave := true
      storageProvider := ascii "sqlite"
      chunkSize := 0
      snapshotEnabled := false }
  heartbeat := { enabled := false, intervalMinutes := 5 }
  observability :=
    { backend := ascii "log"
      otelEndpoint := []
      otelServiceName := []
      verbose := false }
  autonomy :=
    { enabled := true
      level := .supervised
      levelStr := ascii "supervised"
      workspaceOnly := true
      maxActionsPerHour := 100
      maxCostPerDayCents := 10000
      requireApproval := false }
  gateway := { port := 8080, host := ascii "0.0.0.0" }
  secrets := { encrypt := true }
  agent :=
    { enabled := false
      maxHistoryMessages := 0
      maxToolIterations := 0
      toolDispatcher := []
      compactThreshold := 0
      autoSave := false }

/-! ## The settings of a file -/

def isTrueText (value : Bytes) : Bool := value = ascii "true" ∨ value = ascii "1"

def setPaths (paths : ConfigPaths) (key value : Bytes) : ConfigPaths :=
  if key = ascii "workspace_dir" then { paths with workspaceDir := cut maxPathLen value }
  else if key = ascii "state_dir" then { paths with stateDir := cut maxPathLen value }
  else if key = ascii "data_dir" then { paths with dataDir := cut maxPathLen value }
  else paths

def setProvider {D : Type} (format : DoubleFormat D) (provider : ProviderConfig D)
    (key value : Bytes) : ProviderConfig D :=
  if key = ascii "provider" then { provider with provider := cut maxProviderNameLen value }
  else if key = ascii "model" then { provider with model := cut maxModelNameLen value }
  else if key = ascii "temperature" then { provider with temperature := format.atof value }
  else if key = ascii "max_tokens" then
    { provider with maxTokens := UInt64.ofInt (Decimal.atoi value) }
  else provider

def setGateway (gateway : GatewayConfig) (key value : Bytes) : GatewayConfig :=
  if key = ascii "host" then { gateway with host := cut 256 value }
  else if key = ascii "port" then { gateway with port := UInt16.ofInt (Decimal.atoi value) }
  else gateway

def setMemory (memory : MemoryConfig) (key value : Bytes) : MemoryConfig :=
  if key = ascii "backend" then { memory with backend := cut 32 value }
  else if key = ascii "auto_save" then { memory with autoSave := isTrueText value }
  else if key = ascii "chunk_size" then
    { memory with chunkSize := UInt64.ofInt (Decimal.atoi value) }
  else if key = ascii "snapshot_enabled" then { memory with snapshotEnabled := isTrueText value }
  else memory

def autonomyLevelOf (value : Bytes) : AutonomyLevel :=
  if value = ascii "full" then .full
  else if value = ascii "restricted" then .restricted
  else if value = ascii "none" then .none
  else .supervised

def setAutonomy (autonomy : AutonomyConfig) (key value : Bytes) : AutonomyConfig :=
  if key = ascii "enabled" then { autonomy with enabled := isTrueText value }
  else if key = ascii "level" then
    { autonomy with level := autonomyLevelOf value, levelStr := cut 16 value }
  else if key = ascii "workspace_only" then { autonomy with workspaceOnly := isTrueText value }
  else if key = ascii "max_actions_per_hour" then
    { autonomy with maxActionsPerHour := UInt32.ofInt (Decimal.atoi value) }
  else if key = ascii "max_cost_per_day_cents" then
    { autonomy with maxCostPerDayCents := UInt32.ofInt (Decimal.atoi value) }
  else if key = ascii "require_approval" then { autonomy with requireApproval := isTrueText value }
  else autonomy

def setObservability (observability : ObservabilityConfig) (key value : Bytes) :
    ObservabilityConfig :=
  if key = ascii "backend" then { observability with backend := cut 32 value }
  else if key = ascii "verbose" then { observability with verbose := isTrueText value }
  else if key = ascii "otel_endpoint" then { observability with otelEndpoint := cut 256 value }
  else if key = ascii "otel_service_name" then
    { observability with otelServiceName := cut 128 value }
  else observability

def setAgent (agent : AgentConfig) (key value : Bytes) : AgentConfig :=
  if key = ascii "enabled" then { agent with enabled := isTrueText value }
  else if key = ascii "max_history_messages" then
    { agent with maxHistoryMessages := UInt32.ofInt (Decimal.atoi value) }
  else if key = ascii "max_tool_iterations" then
    { agent with maxToolIterations := UInt32.ofInt (Decimal.atoi value) }
  else if key = ascii "compact_threshold" then
    { agent with compactThreshold := UInt32.ofInt (Decimal.atoi value) }
  else if key = ascii "auto_save" then { agent with autoSave := isTrueText value }
  else if key = ascii "tool_dispatcher" then { agent with toolDispatcher := cut 32 value }
  else agent

/-- The chain of comparisons with the section and the key. -/
def applySetting {D : Type} (format : DoubleFormat D) (cfg : FullConfig D)
    (sectionName key value : Bytes) : FullConfig D :=
  if sectionName = ascii "paths" then { cfg with paths := setPaths cfg.paths key value }
  else if sectionName = ascii "provider" then
    { cfg with provider := setProvider format cfg.provider key value }
  else if sectionName = ascii "gateway" then
    { cfg with gateway := setGateway cfg.gateway key value }
  else if sectionName = ascii "memory" then { cfg with memory := setMemory cfg.memory key value }
  else if sectionName = ascii "autonomy" then
    { cfg with autonomy := setAutonomy cfg.autonomy key value }
  else if sectionName = ascii "observability" then
    { cfg with observability := setObservability cfg.observability key value }
  else if sectionName = ascii "agent" then { cfg with agent := setAgent cfg.agent key value }
  else cfg

def sectionSize : ℕ := 64

def keySize : ℕ := 128

def valueSize : ℕ := 1024

def configLineLength : ℕ := 1024

section Loading

variable {D : Type} (format : DoubleFormat D)

/-- One round of the reading loop; the state is the configuration and the
section. -/
def loadConfigLine (s : FullConfig D × Bytes) (line : Bytes) : FullConfig D × Bytes :=
  let parsed := parseIniLine sectionSize keySize valueSize line s.2
  if parsed.key = [] then (s.1, parsed.sectionName)
  else (applySetting format s.1 parsed.sectionName parsed.key parsed.value, parsed.sectionName)

def configLines (file : Bytes) : List Bytes :=
  (fgetsLines configLineLength file.length file).map ofBuffer

def loadConfigFile (cfg : FullConfig D) (file : Bytes) : FullConfig D :=
  ((configLines file).foldl (loadConfigLine format) (cfg, [])).1

/-- The key of the first provider whose variable is set. -/
def loadApiKey (env : Bytes → Option Bytes) (provider : ProviderConfig D)
    (name provider' : String) : ProviderConfig D :=
  match envValue env name with
  | some v =>
      { provider with
        apiKey := cut maxApiKeyLen v
        provider := if provider.provider = [] then ascii provider' else provider.provider }
  | none => provider

def loadProviderEnv (env : Bytes → Option Bytes) (provider : ProviderConfig D) : ProviderConfig D :=
  let provider := loadApiKey env provider "OPENROUTER_API_KEY" "openrouter"
  let provider :=
    if provider.apiKey = [] then loadApiKey env provider "OPENAI_API_KEY" "openai" else provider
  let provider :=
    if provider.apiKey = [] then loadApiKey env provider "ANTHROPIC_API_KEY" "anthropic"
    else provider
  let provider :=
    if provider.apiKey = [] then loadApiKey env provider "GEMINI_API_KEY" "gemini" else provider
  { provider with
    provider := ((envValue env "DOCTORCLAW_PROVIDER").map (cut maxProviderNameLen)).getD
      provider.provider
    model := ((envValue env "DOCTORCLAW_MODEL").map (cut maxModelNameLen)).getD provider.model
    ollamaHost := ((envValue env "OLLAMA_HOST").map (cut 256)).getD provider.ollamaHost
    llamaModelPath := ((envValue env "DOCTORCLAW_LLAMA_MODEL").map (cut maxPathLen)).getD
      provider.llamaModelPath }

def loadPathsEnv (env : Bytes → Option Bytes) (paths : ConfigPaths) : ConfigPaths :=
  let paths :=
    match envValue env "DOCTORCLAW_WORKSPACE" with
    | some v =>
        { paths with
          workspaceDir := cut maxPathLen v
          stateDir := cut maxPathLen (v ++ ascii "/state")
          dataDir := cut maxPathLen (v ++ ascii "/data") }
    | none => paths
  { paths with
    configPath := ((envValue env "DOCTORCLAW_CONFIG").map (cut maxPathLen)).getD paths.configPath }

def loadGatewayEnv (env : Bytes → Option Bytes) (gateway : GatewayConfig) : GatewayConfig where
  port := ((envValue env "DOCTORCLAW_GATEWAY_PORT").map
    fun v ↦ UInt16.ofInt (Decimal.atoi v)).getD gateway.port
  host := ((envValue env "DOCTORCLAW_GATEWAY_HOST").map (cut 256)).getD gateway.host

def configLoadFromEnv (env : Bytes → Option Bytes) (cfg : FullConfig D) : FullConfig D :=
  { cfg with
    paths := loadPathsEnv env cfg.paths
    provider := loadProviderEnv env cfg.provider
    gateway := loadGatewayEnv env cfg.gateway }

/-- The file that is opened; `none` stands for a null path. -/
def resolvedPath (env : Bytes → Option Bytes) (path : Option Bytes) : Bytes :=
  match path.filter fun p ↦ decide (p ≠ []) with
  | some p => cut maxPathLen p
  | none =>
      match envValue env "DOCTORCLAW_CONFIG" with
      | some v => cut maxPathLen v
      | none =>
          match env (ascii "HOME") with
          | some home => cut maxPathLen (home ++ ascii "/.doctorclaw/config.toml")
          | none => ascii ".doctorclaw/config.toml"

/-- `files` are the files that can be opened for reading. -/
def configLoad (env files : Bytes → Option Bytes) (path : Option Bytes) : FullConfig D :=
  let defaults := configInitDefaults format env
  let cfg := { defaults with
    paths := { defaults.paths with configPath := resolvedPath env path } }
  let cfg :=
    match files (resolvedPath env path) with
    | some file => loadConfigFile format cfg file
    | none => cfg
  configLoadFromEnv env cfg

end Loading

/-! ## Saving -/

section Saving

variable {D : Type} (format : DoubleFormat D)

/-- The lines that are written. -/
def FullConfig.lines (cfg : FullConfig D) : List Bytes :=
  [ascii "# Doctor Claw Configuration", ascii "# Version 0.1.0", [],
    ascii "[paths]", settingText (ascii "workspace_dir") cfg.paths.workspaceDir,
    settingText (ascii "state_dir") cfg.paths.stateDir,
    settingText (ascii "data_dir") cfg.paths.dataDir, [],
    ascii "[provider]", settingText (ascii "provider") cfg.provider.provider,
    settingText (ascii "model") cfg.provider.model,
    settingText (ascii "temperature") (format.printF cfg.provider.temperature), [],
    ascii "[gateway]", settingText (ascii "host") cfg.gateway.host,
    settingText (ascii "port") (Decimal.printNat cfg.gateway.port.toNat), []]

/-- The file that is written. -/
def configSave (cfg : FullConfig D) : Bytes := (cfg.lines format).flatMap fun line ↦ line ++ [10]

end Saving

/-! ## Without overrides -/

/-- The variables that `config_load_from_env` reads. -/
def overridingVariables : List String :=
  ["DOCTORCLAW_WORKSPACE", "DOCTORCLAW_CONFIG", "OPENROUTER_API_KEY", "OPENAI_API_KEY",
    "ANTHROPIC_API_KEY", "GEMINI_API_KEY", "DOCTORCLAW_PROVIDER", "DOCTORCLAW_MODEL",
    "DOCTORCLAW_GATEWAY_PORT", "DOCTORCLAW_GATEWAY_HOST", "OLLAMA_HOST", "DOCTORCLAW_LLAMA_MODEL"]

/-- None of them is set. -/
def NoOverrides (env : Bytes → Option Bytes) : Prop :=
  ∀ name ∈ overridingVariables, envValue env name = none

instance (env : Bytes → Option Bytes) : Decidable (NoOverrides env) :=
  inferInstanceAs (Decidable (∀ name ∈ overridingVariables, envValue env name = none))

section NoOverrides

variable {D : Type} {env : Bytes → Option Bytes}

theorem configLoadFromEnv_eq (h : NoOverrides env) (cfg : FullConfig D) :
    configLoadFromEnv env cfg = cfg := by
  have hvar : ∀ name ∈ overridingVariables, envValue env name = none := h
  simp only [overridingVariables, List.forall_mem_cons] at hvar
  simp [configLoadFromEnv, loadPathsEnv, loadProviderEnv, loadGatewayEnv, loadApiKey, hvar]

end NoOverrides

end DoctorClaw
