import DoctorClaw.Config.RoundTrip
import DoctorClaw.Lib.FileLines
import DoctorClaw.Lib.LastWrite

/-!
# The settings that are not saved

`config_load` reads twenty-nine keys and `config_save` writes eight of them.
The others come back as their defaults, so a file survives being loaded and
saved when it leaves them there.
-/

namespace DoctorClaw

open CString LastWrite

/-! ## Loading as a list of assignments -/

/-- The lines as they are read, each in the section it stands in. -/
def iniLines : Bytes → List Bytes → List IniLine
  | _, [] => []
  | sectionName, line :: lines =>
      let parsed := parseIniLine sectionSize keySize valueSize line sectionName
      parsed :: iniLines parsed.sectionName lines

/-- The assignments of a file in their order. -/
def assignments (file : Bytes) : List IniLine :=
  (iniLines [] (configLines file)).filter fun e ↦ decide (e.key ≠ [])

section Assignments

variable {D : Type} (format : DoubleFormat D)

theorem loadConfigFile_eq (cfg : FullConfig D) (file : Bytes) :
    loadConfigFile format cfg file =
      (assignments file).foldl (fun cfg e ↦ applySetting format cfg e.sectionName e.key e.value)
        cfg := by
  have hrun : ∀ (lines : List Bytes) (s : FullConfig D × Bytes),
      (lines.foldl (loadConfigLine format) s).1 =
        ((iniLines s.2 lines).filter fun e ↦ decide (e.key ≠ [])).foldl
          (fun cfg e ↦ applySetting format cfg e.sectionName e.key e.value) s.1 := by
    intro lines
    induction lines with
    | nil => exact fun _ ↦ rfl
    | cons line lines ih =>
        intro s
        rw [List.foldl_cons, ih, iniLines, loadConfigLine]
        split_ifs with hkey
        · rw [List.filter_cons_of_neg (by simpa using hkey)]
        · rw [List.filter_cons_of_pos (by simpa using hkey), List.foldl_cons]
  exact hrun _ _

end Assignments

/-! ## The settings -/

/-- One key of the file that is read and not written. -/
structure Setting (D : Type) where
  sectionName : Bytes
  key : Bytes
  Value : Type
  get : FullConfig D → Value
  read : Bytes → Value
  default : Value

/-- What an assignment makes of the setting. -/
def Setting.write {D : Type} (s : Setting D) (e : IniLine) : Option s.Value :=
  if e.sectionName = s.sectionName ∧ e.key = s.key then some (s.read e.value) else none

def readU32 (value : Bytes) : UInt32 := UInt32.ofInt (Decimal.atoi value)

def readSize (value : Bytes) : UInt64 := UInt64.ofInt (Decimal.atoi value)

def unsavedProvider (D : Type) : List (Setting D) :=
  [⟨ascii "provider", ascii "max_tokens", UInt64, (·.provider.maxTokens), readSize, 4096⟩]

def unsavedMemory (D : Type) : List (Setting D) :=
  [⟨ascii "memory", ascii "backend", Bytes, (·.memory.backend), cut 32, ascii "sqlite"⟩,
    ⟨ascii "memory", ascii "auto_save", Bool, (·.memory.autoSave), isTrueText, true⟩,
    ⟨ascii "memory", ascii "chunk_size", UInt64, (·.memory.chunkSize), readSize, 0⟩,
    ⟨ascii "memory", ascii "snapshot_enabled", Bool, (·.memory.snapshotEnabled), isTrueText, false⟩]

def unsavedAutonomy (D : Type) : List (Setting D) :=
  [⟨ascii "autonomy", ascii "enabled", Bool, (·.autonomy.enabled), isTrueText, true⟩,
    ⟨ascii "autonomy", ascii "level", AutonomyLevel × Bytes,
      fun cfg ↦ (cfg.autonomy.level, cfg.autonomy.levelStr),
      fun value ↦ (autonomyLevelOf value, cut 16 value), (.supervised, ascii "supervised")⟩,
    ⟨ascii "autonomy", ascii "workspace_only", Bool, (·.autonomy.workspaceOnly), isTrueText, true⟩,
    ⟨ascii "autonomy", ascii "max_actions_per_hour", UInt32, (·.autonomy.maxActionsPerHour),
      readU32, 100⟩,
    ⟨ascii "autonomy", ascii "max_cost_per_day_cents", UInt32, (·.autonomy.maxCostPerDayCents),
      readU32, 10000⟩,
    ⟨ascii "autonomy", ascii "require_approval", Bool,
      (·.autonomy.requireApproval), isTrueText, false⟩]

def unsavedObservability (D : Type) : List (Setting D) :=
  [⟨ascii "observability", ascii "backend", Bytes, (·.observability.backend), cut 32, ascii "log"⟩,
    ⟨ascii "observability", ascii "verbose", Bool, (·.observability.verbose), isTrueText, false⟩,
    ⟨ascii "observability", ascii "otel_endpoint", Bytes, (·.observability.otelEndpoint), cut 256,
      []⟩,
    ⟨ascii "observability", ascii "otel_service_name", Bytes, (·.observability.otelServiceName),
      cut 128, []⟩]

def unsavedAgent (D : Type) : List (Setting D) :=
  [⟨ascii "agent", ascii "enabled", Bool, (·.agent.enabled), isTrueText, false⟩,
    ⟨ascii "agent", ascii "max_history_messages", UInt32, (·.agent.maxHistoryMessages), readU32, 0⟩,
    ⟨ascii "agent", ascii "max_tool_iterations", UInt32, (·.agent.maxToolIterations), readU32, 0⟩,
    ⟨ascii "agent", ascii "compact_threshold", UInt32, (·.agent.compactThreshold), readU32, 0⟩,
    ⟨ascii "agent", ascii "auto_save", Bool, (·.agent.autoSave), isTrueText, false⟩,
    ⟨ascii "agent", ascii "tool_dispatcher", Bytes, (·.agent.toolDispatcher), cut 32, []⟩]

def unsavedSettings (D : Type) : List (Setting D) :=
  unsavedProvider D ++ unsavedMemory D ++ unsavedAutonomy D ++ unsavedObservability D ++
    unsavedAgent D

section Tables

variable {D : Type} (format : DoubleFormat D) {s : Setting D}

theorem get_configInitDefaults (env : Bytes → Option Bytes) (hs : s ∈ unsavedSettings D) :
    s.get (configInitDefaults format env) = s.default := by
  revert s
  simp only [unsavedSettings, unsavedProvider, unsavedMemory, unsavedAutonomy,
    unsavedObservability, unsavedAgent, List.forall_mem_append, List.forall_mem_cons]
  simp [configInitDefaults]

theorem applySetting_memory (cfg : FullConfig D) (sectionName key value : Bytes) :
    (applySetting format cfg sectionName key value).memory =
      if sectionName = ascii "memory" then setMemory cfg.memory key value else cfg.memory := by
  by_cases h : sectionName = ascii "memory"
  · subst h
    rfl
  · simp only [applySetting, if_neg h, apply_ite FullConfig.memory, ite_self]

theorem applySetting_autonomy (cfg : FullConfig D) (sectionName key value : Bytes) :
    (applySetting format cfg sectionName key value).autonomy =
      if sectionName = ascii "autonomy" then setAutonomy cfg.autonomy key value
      else cfg.autonomy := by
  by_cases h : sectionName = ascii "autonomy"
  · subst h
    rfl
  · simp only [applySetting, if_neg h, apply_ite FullConfig.autonomy, ite_self]

theorem applySetting_observability (cfg : FullConfig D) (sectionName key value : Bytes) :
    (applySetting format cfg sectionName key value).observability =
      if sectionName = ascii "observability" then setObservability cfg.observability key value
      else cfg.observability := by
  by_cases h : sectionName = ascii "observability"
  · subst h
    rfl
  · simp only [applySetting, if_neg h, apply_ite FullConfig.observability, ite_self]

theorem applySetting_agent (cfg : FullConfig D) (sectionName key value : Bytes) :
    (applySetting format cfg sectionName key value).agent =
      if sectionName = ascii "agent" then setAgent cfg.agent key value else cfg.agent := by
  by_cases h : sectionName = ascii "agent"
  · subst h
    rfl
  · simp only [applySetting, if_neg h, apply_ite FullConfig.agent, ite_self]

theorem applySetting_provider (cfg : FullConfig D) (sectionName key value : Bytes) :
    (applySetting format cfg sectionName key value).provider =
      if sectionName = ascii "provider" then setProvider format cfg.provider key value
      else cfg.provider := by
  by_cases h : sectionName = ascii "provider"
  · subst h
    rfl
  · simp only [applySetting, if_neg h, apply_ite FullConfig.provider, ite_self]

theorem get_applySetting_provider (hs : s ∈ unsavedProvider D) (cfg : FullConfig D) (e : IniLine) :
    s.get (applySetting format cfg e.sectionName e.key e.value) =
      (s.write e).getD (s.get cfg) := by
  revert s
  simp only [unsavedProvider, List.forall_mem_cons, List.not_mem_nil, IsEmpty.forall_iff,
    implies_true, and_true, Setting.write, applySetting_provider, setProvider, readSize]
  split_ifs <;> simp_all +decide

theorem get_applySetting_memory (hs : s ∈ unsavedMemory D) (cfg : FullConfig D) (e : IniLine) :
    s.get (applySetting format cfg e.sectionName e.key e.value) =
      (s.write e).getD (s.get cfg) := by
  obtain ⟨sectionName, key, value⟩ := e
  revert s
  simp only [unsavedMemory, List.forall_mem_cons, List.not_mem_nil, IsEmpty.forall_iff,
    implies_true, and_true, Setting.write, applySetting_memory]
  by_cases hsec : sectionName = ascii "memory"
  · simp only [hsec, if_true, true_and]
    unfold setMemory
    by_cases h0 : key = ascii "backend"
    · subst h0
      exact ⟨rfl, rfl, rfl, rfl⟩
    by_cases h1 : key = ascii "auto_save"
    · subst h1
      exact ⟨rfl, rfl, rfl, rfl⟩
    by_cases h2 : key = ascii "chunk_size"
    · subst h2
      exact ⟨rfl, rfl, rfl, rfl⟩
    by_cases h3 : key = ascii "snapshot_enabled"
    · subst h3
      exact ⟨rfl, rfl, rfl, rfl⟩
    simp [h0, h1, h2, h3]
  · simp [hsec]

theorem get_applySetting_autonomy (hs : s ∈ unsavedAutonomy D) (cfg : FullConfig D) (e : IniLine) :
    s.get (applySetting format cfg e.sectionName e.key e.value) =
      (s.write e).getD (s.get cfg) := by
  obtain ⟨sectionName, key, value⟩ := e
  revert s
  simp only [unsavedAutonomy, List.forall_mem_cons, List.not_mem_nil, IsEmpty.forall_iff,
    implies_true, and_true, Setting.write, applySetting_autonomy]
  by_cases hsec : sectionName = ascii "autonomy"
  · simp only [hsec, if_true, true_and]
    unfold setAutonomy
    by_cases h0 : key = ascii "enabled"
    · subst h0
      exact ⟨rfl, rfl, rfl, rfl, rfl, rfl⟩
    by_cases h1 : key = ascii "level"
    · subst h1
      exact ⟨rfl, rfl, rfl, rfl, rfl, rfl⟩
    by_cases h2 : key = ascii "workspace_only"
    · subst h2
      exact ⟨rfl, rfl, rfl, rfl, rfl, rfl⟩
    by_cases h3 : key = ascii "max_actions_per_hour"
    · subst h3
      exact ⟨rfl, rfl, rfl, rfl, rfl, rfl⟩
    by_cases h4 : key = ascii "max_cost_per_day_cents"
    · subst h4
      exact ⟨rfl, rfl, rfl, rfl, rfl, rfl⟩
    by_cases h5 : key = ascii "require_approval"
    · subst h5
      exact ⟨rfl, rfl, rfl, rfl, rfl, rfl⟩
    simp [h0, h1, h2, h3, h4, h5]
  · simp [hsec]

theorem get_applySetting_observability (hs : s ∈ unsavedObservability D) (cfg : FullConfig D)
    (e : IniLine) :
    s.get (applySetting format cfg e.sectionName e.key e.value) =
      (s.write e).getD (s.get cfg) := by
  obtain ⟨sectionName, key, value⟩ := e
  revert s
  simp only [unsavedObservability, List.forall_mem_cons, List.not_mem_nil, IsEmpty.forall_iff,
    implies_true, and_true, Setting.write, applySetting_observability]
  by_cases hsec : sectionName = ascii "observability"
  · simp only [hsec, if_true, true_and]
    unfold setObservability
    by_cases h0 : key = ascii "backend"
    · subst h0
      exact ⟨rfl, rfl, rfl, rfl⟩
    by_cases h1 : key = ascii "verbose"
    · subst h1
      exact ⟨rfl, rfl, rfl, rfl⟩
    by_cases h2 : key = ascii "otel_endpoint"
    · subst h2
      exact ⟨rfl, rfl, rfl, rfl⟩
    by_cases h3 : key = ascii "otel_service_name"
    · subst h3
      exact ⟨rfl, rfl, rfl, rfl⟩
    simp [h0, h1, h2, h3]
  · simp [hsec]

theorem get_applySetting_agent (hs : s ∈ unsavedAgent D) (cfg : FullConfig D) (e : IniLine) :
    s.get (applySetting format cfg e.sectionName e.key e.value) =
      (s.write e).getD (s.get cfg) := by
  obtain ⟨sectionName, key, value⟩ := e
  revert s
  simp only [unsavedAgent, List.forall_mem_cons, List.not_mem_nil, IsEmpty.forall_iff,
    implies_true, and_true, Setting.write, applySetting_agent]
  by_cases hsec : sectionName = ascii "agent"
  · simp only [hsec, if_true, true_and]
    unfold setAgent
    by_cases h0 : key = ascii "enabled"
    · subst h0
      exact ⟨rfl, rfl, rfl, rfl, rfl, rfl⟩
    by_cases h1 : key = ascii "max_history_messages"
    · subst h1
      exact ⟨rfl, rfl, rfl, rfl, rfl, rfl⟩
    by_cases h2 : key = ascii "max_tool_iterations"
    · subst h2
      exact ⟨rfl, rfl, rfl, rfl, rfl, rfl⟩
    by_cases h3 : key = ascii "compact_threshold"
    · subst h3
      exact ⟨rfl, rfl, rfl, rfl, rfl, rfl⟩
    by_cases h4 : key = ascii "auto_save"
    · subst h4
      exact ⟨rfl, rfl, rfl, rfl, rfl, rfl⟩
    by_cases h5 : key = ascii "tool_dispatcher"
    · subst h5
      exact ⟨rfl, rfl, rfl, rfl, rfl, rfl⟩
    simp [h0, h1, h2, h3, h4, h5]
  · simp [hsec]

/-- An assignment changes the setting of its section and key. -/
theorem get_applySetting (hs : s ∈ unsavedSettings D) (cfg : FullConfig D) (e : IniLine) :
    s.get (applySetting format cfg e.sectionName e.key e.value) =
      (s.write e).getD (s.get cfg) := by
  simp only [unsavedSettings, List.mem_append] at hs
  rcases hs with (((hs | hs) | hs) | hs) | hs
  · exact get_applySetting_provider format hs cfg e
  · exact get_applySetting_memory format hs cfg e
  · exact get_applySetting_autonomy format hs cfg e
  · exact get_applySetting_observability format hs cfg e
  · exact get_applySetting_agent format hs cfg e

/-- A setting of a loaded file is what its last assignment says. -/
theorem get_loadConfigFile (hs : s ∈ unsavedSettings D) (cfg : FullConfig D) (file : Bytes) :
    s.get (loadConfigFile format cfg file) =
      (lastWrite s.write (assignments file)).getD (s.get cfg) := by
  rw [loadConfigFile_eq]
  exact get_foldl (get_applySetting format hs) _ _

end Tables

/-- The settings that are not written are the same. -/
structure SameSettings {D : Type} (c d : FullConfig D) : Prop where
  memory : c.memory = d.memory
  autonomy : c.autonomy = d.autonomy
  observability : c.observability = d.observability
  agent : c.agent = d.agent
  maxTokens : c.provider.maxTokens = d.provider.maxTokens

theorem sameSettings_iff {D : Type} {c d : FullConfig D}
    (hstorage : c.memory.storageProvider = d.memory.storageProvider) :
    SameSettings c d ↔ ∀ s ∈ unsavedSettings D, s.get c = s.get d := by
  simp only [unsavedSettings, unsavedProvider, unsavedMemory, unsavedAutonomy,
    unsavedObservability, unsavedAgent, List.forall_mem_append, List.forall_mem_cons,
    List.not_mem_nil, IsEmpty.forall_iff, implies_true, and_true, Prod.mk.injEq]
  constructor
  · rintro ⟨hmemory, hautonomy, hobservability, hagent, htokens⟩
    simp [hmemory, hautonomy, hobservability, hagent, htokens]
  · rintro ⟨⟨⟨⟨htokens, hbackend, hsave, hchunk, hsnapshot⟩, henabled, ⟨hlevel, hstr⟩, honly,
      hactions, hcost, happroval⟩, hbackend', hverbose, hendpoint, hservice⟩, henabled', hhistory,
      hiterations, hcompact, hsave', hdispatcher⟩
    refine ⟨?_, ?_, ?_, ?_, htokens⟩
    · cases hc : c.memory
      cases hd : d.memory
      simp_all
    · cases hc : c.autonomy
      cases hd : d.autonomy
      simp_all
    · cases hc : c.observability
      cases hd : d.observability
      simp_all
    · cases hc : c.agent
      cases hd : d.agent
      simp_all

/-! ## Lines that leave the settings alone -/

/-- A section without unsaved settings, up to the token limit. -/
def QuietSection (sectionName : Bytes) : Prop :=
  sectionName ∉ [ascii "memory", ascii "autonomy", ascii "observability", ascii "agent"]

instance : DecidablePred QuietSection := fun _ ↦ inferInstanceAs (Decidable (_ ∉ _))

/-- A line that leaves the quiet sections quiet and is no token limit. -/
def Tame (line : Bytes) : Prop :=
  ∀ sectionName, QuietSection sectionName →
    QuietSection (parseIniLine sectionSize keySize valueSize line sectionName).sectionName ∧
      (parseIniLine sectionSize keySize valueSize line sectionName).key ≠ ascii "max_tokens"

theorem quiet_of_length_lt {sectionName : Bytes} (h : sectionName.length < 5) :
    QuietSection sectionName := by
  have hlen : ∀ name ∈ [ascii "memory", ascii "autonomy", ascii "observability", ascii "agent"],
      5 ≤ name.length := by decide
  intro hmem
  have hge := hlen _ hmem
  omega

theorem tame_of_length_le {line : Bytes} (h : line.length ≤ 3) : Tame line := by
  intro sectionName hquiet
  have hkey : (ascii "max_tokens").length = 10 := by decide
  rcases parseIniLine_cases sectionSize keySize valueSize line sectionName with
    ⟨hnil, hsame | hshort⟩ | ⟨name, text, hsuffix, hparsed⟩
  · rw [hsame, hnil]
    exact ⟨hquiet, by decide⟩
  · rw [hnil]
    exact ⟨quiet_of_length_lt (by omega), by decide⟩
  · rw [hparsed]
    refine ⟨hquiet, fun (heq : trim (cut keySize name) = ascii "max_tokens") ↦ ?_⟩
    have hlen := hsuffix.length_le
    have htrim := (trim_isInfix (cut keySize name)).length_le
    have hcut := (List.take_prefix (keySize - 1) name).length_le
    rw [heq, hkey] at htrim
    rw [List.length_append, List.length_cons] at hlen
    rw [cut] at htrim
    omega

theorem write_eq_none_of_quiet {D : Type} {s : Setting D} (hs : s ∈ unsavedSettings D)
    {e : IniLine} (hquiet : QuietSection e.sectionName) (hkey : e.key ≠ ascii "max_tokens") :
    s.write e = none := by
  have hplace : s.sectionName ∈ [ascii "memory", ascii "autonomy", ascii "observability",
      ascii "agent"] ∨ s.key = ascii "max_tokens" := by
    revert s
    simp +decide [unsavedSettings, unsavedProvider, unsavedMemory, unsavedAutonomy,
      unsavedObservability, unsavedAgent]
  rw [Setting.write, if_neg]
  rintro ⟨hsec, hk⟩
  rcases hplace with hplace | hplace
  · exact hquiet (hsec ▸ hplace)
  · exact hkey (hk.trans hplace)

theorem lastWrite_of_tame {D : Type} {s : Setting D} (hs : s ∈ unsavedSettings D) {file : Bytes}
    (hfile : ∀ line ∈ configLines file, Tame line) :
    lastWrite s.write (assignments file) = none := by
  have hrun : ∀ (lines : List Bytes) (sectionName : Bytes), (∀ line ∈ lines, Tame line) →
      QuietSection sectionName → ∀ e ∈ iniLines sectionName lines, s.write e = none := by
    intro lines
    induction lines with
    | nil => exact fun _ _ _ e he ↦ absurd he List.not_mem_nil
    | cons line lines ih =>
        intro sectionName htame hquiet e he
        obtain ⟨hline, hlines⟩ := List.forall_mem_cons.mp htame
        obtain ⟨hquiet', hkey⟩ := hline sectionName hquiet
        rcases List.mem_cons.mp he with rfl | he
        · exact write_eq_none_of_quiet hs hquiet' hkey
        · exact ih _ hlines hquiet' e he
  have hnone : ∀ e ∈ assignments file, s.write e = none := fun e he ↦
    hrun _ _ hfile (quiet_of_length_lt (by decide)) e (List.mem_of_mem_filter he)
  exact lastWrite_eq_none hnone

/-! ## The written file -/

/-- A value that is read with its key from one line. -/
def Narrow (key value : Bytes) : Prop :=
  OneLine value ∧ key.length + value.length + 1 < configLineLength

instance (key value : Bytes) : Decidable (Narrow key value) :=
  inferInstanceAs (Decidable (_ ∧ _))

theorem Narrow.cut {key value : Bytes} (h : Narrow key value) (size : ℕ) :
    Narrow key (cut size value) := by
  have hpre : CString.cut size value <+: value := List.take_prefix _ _
  have hlen := hpre.length_le
  exact ⟨h.1.of_isInfix hpre.isInfix, by have hnarrow := h.2; omega⟩

theorem narrow_parseIniLine {line sectionName : Bytes} (hone : OneLine line)
    (hlen : line.length < configLineLength)
    (hkey : (parseIniLine sectionSize keySize valueSize line sectionName).key ≠ []) :
    Narrow (parseIniLine sectionSize keySize valueSize line sectionName).key
      (parseIniLine sectionSize keySize valueSize line sectionName).value := by
  rcases parseIniLine_cases sectionSize keySize valueSize line sectionName with
    ⟨hnil, -⟩ | ⟨name, text, hsuffix, hparsed⟩
  · exact absurd hnil hkey
  · rw [hparsed]
    have hvalue := iniValue_isInfix valueSize text
    have htext : text <:+: line := (List.IsSuffix.trans ⟨name ++ [61], by simp⟩ hsuffix).isInfix
    have htrim := (trim_isInfix (CString.cut keySize name)).length_le
    have hcut := (List.take_prefix (keySize - 1) name).length_le
    have hparts := hsuffix.length_le
    have hvlen := hvalue.length_le
    rw [List.length_append, List.length_cons] at hparts
    refine ⟨hone.of_isInfix (hvalue.trans htext), ?_⟩
    rw [CString.cut] at htrim
    dsimp only [CString.cut]
    omega

theorem narrow_of_mem_iniLines {lines : List Bytes}
    (hlines : ∀ line ∈ lines, OneLine line ∧ line.length < configLineLength) {sectionName : Bytes}
    {e : IniLine} (he : e ∈ iniLines sectionName lines) (hkey : e.key ≠ []) :
    Narrow e.key e.value := by
  induction lines generalizing sectionName with
  | nil => exact absurd he List.not_mem_nil
  | cons line lines ih =>
      obtain ⟨⟨hone, hlen⟩, hrest⟩ := List.forall_mem_cons.mp hlines
      rcases List.mem_cons.mp he with rfl | he
      · exact narrow_parseIniLine hone hlen hkey
      · exact ih hrest he

theorem narrow_of_mem_assignments {file : Bytes} {e : IniLine} (he : e ∈ assignments file) :
    Narrow e.key e.value := by
  have hlines : ∀ line ∈ configLines file, OneLine line ∧ line.length < configLineLength := by
    intro line hline
    obtain ⟨raw, hraw, rfl⟩ := List.mem_map.mp hline
    obtain ⟨-, hlen, hone⟩ := mem_fileLines hraw
    have hpre : ofBuffer raw <+: raw := List.takeWhile_prefix _
    refine ⟨hone.of_isInfix hpre.isInfix, hpre.length_le.trans_lt ?_⟩
    rw [configLineLength] at hlen ⊢
    omega
  exact narrow_of_mem_iniLines hlines (List.mem_of_mem_filter he)
    (by simpa using List.of_mem_filter he)

/-- Every text that is written was read from one line. -/
structure FullConfig.IsNarrow {D : Type} (cfg : FullConfig D) : Prop where
  workspaceDir : Narrow (ascii "workspace_dir") cfg.paths.workspaceDir
  stateDir : Narrow (ascii "state_dir") cfg.paths.stateDir
  dataDir : Narrow (ascii "data_dir") cfg.paths.dataDir
  provider : Narrow (ascii "provider") cfg.provider.provider
  model : Narrow (ascii "model") cfg.provider.model
  host : Narrow (ascii "host") cfg.gateway.host

/-- The home directory stays on a line of the file: `state_dir` with 995 bytes and
`/.doctorclaw/state` is the longest that does. -/
def PlainHome (env : Bytes → Option Bytes) : Prop :=
  ∀ home ∈ envValue env "HOME", (10 : UInt8) ∉ home ∧ home.length ≤ 995

instance (env : Bytes → Option Bytes) : Decidable (PlainHome env) :=
  Option.decidableForallMem (envValue env "HOME")

section Narrow

variable {D : Type} (format : DoubleFormat D)

omit format in
theorem isNarrow_setPaths {cfg : FullConfig D} (h : cfg.IsNarrow) {key value : Bytes}
    (hvalue : Narrow key value) :
    FullConfig.IsNarrow { cfg with paths := setPaths cfg.paths key value } := by
  obtain ⟨hwork, hstate, hdata, hprovider, hmodel, hhost⟩ := h
  unfold setPaths
  split_ifs with hk hk hk
  · exact ⟨hk ▸ hvalue.cut _, hstate, hdata, hprovider, hmodel, hhost⟩
  · exact ⟨hwork, hk ▸ hvalue.cut _, hdata, hprovider, hmodel, hhost⟩
  · exact ⟨hwork, hstate, hk ▸ hvalue.cut _, hprovider, hmodel, hhost⟩
  · exact ⟨hwork, hstate, hdata, hprovider, hmodel, hhost⟩

theorem isNarrow_setProvider {cfg : FullConfig D} (h : cfg.IsNarrow) {key value : Bytes}
    (hvalue : Narrow key value) :
    FullConfig.IsNarrow { cfg with provider := setProvider format cfg.provider key value } := by
  obtain ⟨hwork, hstate, hdata, hprovider, hmodel, hhost⟩ := h
  unfold setProvider
  split_ifs with hk hk
  · exact ⟨hwork, hstate, hdata, hk ▸ hvalue.cut _, hmodel, hhost⟩
  · exact ⟨hwork, hstate, hdata, hprovider, hk ▸ hvalue.cut _, hhost⟩
  all_goals exact ⟨hwork, hstate, hdata, hprovider, hmodel, hhost⟩

omit format in
theorem isNarrow_setGateway {cfg : FullConfig D} (h : cfg.IsNarrow) {key value : Bytes}
    (hvalue : Narrow key value) :
    FullConfig.IsNarrow { cfg with gateway := setGateway cfg.gateway key value } := by
  obtain ⟨hwork, hstate, hdata, hprovider, hmodel, hhost⟩ := h
  unfold setGateway
  split_ifs with hk
  · exact ⟨hwork, hstate, hdata, hprovider, hmodel, hk ▸ hvalue.cut _⟩
  all_goals exact ⟨hwork, hstate, hdata, hprovider, hmodel, hhost⟩

theorem isNarrow_applySetting {cfg : FullConfig D} (h : cfg.IsNarrow) {e : IniLine}
    (he : Narrow e.key e.value) :
    (applySetting format cfg e.sectionName e.key e.value).IsNarrow := by
  unfold applySetting
  refine iteInduction (fun _ ↦ isNarrow_setPaths h he) fun _ ↦ ?_
  refine iteInduction (fun _ ↦ isNarrow_setProvider format h he) fun _ ↦ ?_
  refine iteInduction (fun _ ↦ isNarrow_setGateway h he) fun _ ↦ ?_
  obtain ⟨hwork, hstate, hdata, hprovider, hmodel, hhost⟩ := h
  -- the other sections have no text that is written
  refine iteInduction (fun _ ↦ ?_) fun _ ↦ iteInduction (fun _ ↦ ?_) fun _ ↦
    iteInduction (fun _ ↦ ?_) fun _ ↦ iteInduction (fun _ ↦ ?_) fun _ ↦ ?_
  all_goals exact ⟨hwork, hstate, hdata, hprovider, hmodel, hhost⟩

theorem isNarrow_loadConfigFile {cfg : FullConfig D} (h : cfg.IsNarrow) (file : Bytes) :
    (loadConfigFile format cfg file).IsNarrow := by
  rw [loadConfigFile_eq]
  have hall : ∀ e ∈ assignments file, Narrow e.key e.value := fun e he ↦
    narrow_of_mem_assignments he
  generalize assignments file = events at hall
  induction events generalizing cfg with
  | nil => exact h
  | cons e events ih =>
      obtain ⟨he, hevents⟩ := List.forall_mem_cons.mp hall
      exact ih (isNarrow_applySetting format h he) hevents

theorem isNarrow_configInitDefaults {env : Bytes → Option Bytes} (hhome : PlainHome env)
    (configPath : Bytes) :
    FullConfig.IsNarrow { configInitDefaults format env with
      paths := { defaultPaths env with configPath := configPath } } := by
  have hpaths : Narrow (ascii "workspace_dir") (defaultPaths env).workspaceDir ∧
      Narrow (ascii "state_dir") (defaultPaths env).stateDir ∧
      Narrow (ascii "data_dir") (defaultPaths env).dataDir := by
    unfold defaultPaths
    split
    · next home hset =>
        obtain ⟨hnewline, hlen⟩ := hhome home hset
        have hdir : ∀ {key dir : Bytes}, key.length + dir.length ≤ 27 → (10 : UInt8) ∉ dir →
            Narrow key (home ++ dir) := by
          intro key dir hshort hdir
          refine ⟨oneLine_of_notMem ?_, ?_⟩
          · rw [List.mem_append, not_or]
            exact ⟨hnewline, hdir⟩
          · rw [List.length_append, configLineLength]
            omega
        exact ⟨(hdir (by decide) (by decide)).cut _, (hdir (by decide) (by decide)).cut _,
          (hdir (by decide) (by decide)).cut _⟩
    · decide
  have hrest : Narrow (ascii "provider") (ascii "openrouter") ∧ Narrow (ascii "model") [] ∧
      Narrow (ascii "host") (ascii "0.0.0.0") := by decide
  exact ⟨hpaths.1, hpaths.2.1, hpaths.2.2, hrest.1, hrest.2.1, hrest.2.2⟩

end Narrow

section Written

variable {D : Type} {format : DoubleFormat D}

theorem tame_setting {key : Bytes} (hkey : IsIniName key) (hne : key ≠ ascii "max_tokens")
    (rest : Bytes) : Tame (settingText key rest) := by
  intro sectionName hquiet
  rw [parseIniLine_setting hkey.key (by decide)]
  exact ⟨hquiet, hne⟩

theorem tame_header {name : Bytes} (hname : IsIniName name) (hquiet : QuietSection name)
    (rest : Bytes) : Tame (91 :: (name ++ 93 :: rest)) := by
  intro sectionName _
  have hnil : ([] : Bytes) ≠ ascii "max_tokens" := by decide
  rw [parseIniLine_header hname.bracket, cut_of_lt hname.length, trim_eq_self hname.key.trimmed]
  exact ⟨hquiet, hnil⟩

theorem tame_comment (rest : Bytes) : Tame (35 :: rest) := by
  intro sectionName hquiet
  have hnil : ([] : Bytes) ≠ ascii "max_tokens" := by decide
  rw [parseIniLine_comment]
  exact ⟨hquiet, hnil⟩

/-- The beginning of a written line, by which it is recognised. -/
structure IsTameFront (front : Bytes) : Prop where
  newline : (10 : UInt8) ∉ front
  tame : ∀ rest, Tame (ofBuffer (front ++ rest))

theorem tame_of_front {front value line : Bytes} (hfront : IsTameFront front)
    (hvalue : OneLine value) (hshort : front.length < configLineLength)
    (hlen : front.length + value.length ≤ configLineLength + 1)
    (h : line ∈ fileLines configLineLength (front ++ value ++ [10])) : Tame (ofBuffer line) := by
  rcases mem_fileLines_front hfront.newline hvalue hshort (by decide) hlen h with ⟨rest, rfl⟩ | hle
  · exact hfront.tame rest
  · have hpre : ofBuffer line <+: line := List.takeWhile_prefix _
    exact tame_of_length_le (hpre.length_le.trans hle)

theorem isTameFront_setting {key : Bytes} (hkey : IsIniName key) (hnewline : (10 : UInt8) ∉ key)
    (hne : key ≠ ascii "max_tokens") : IsTameFront (key ++ ascii " = ") where
  newline := notMem_assignment hnewline (by decide)
  tame rest := by
    rw [ofBuffer_append (notMem_assignment hkey.nul (by decide))]
    exact tame_setting hkey hne _

theorem isTameFront_header {name : Bytes} (hname : IsIniName name) (hnewline : (10 : UInt8) ∉ name)
    (hquiet : QuietSection name) : IsTameFront (91 :: name ++ [93]) where
  newline := by simp [hnewline]
  tame rest := by
    have hname0 := hname.nul
    have hfront : (0 : UInt8) ∉ 91 :: name ++ [93] := by simp [hname0]
    rw [ofBuffer_append hfront, List.cons_append, List.cons_append, List.append_assoc]
    exact tame_header hname hquiet _

theorem isTameFront_comment : IsTameFront [35] where
  newline := by decide
  tame rest := by
    rw [ofBuffer_append (by decide)]
    exact tame_comment _

theorem tame_of_mem_setting {key value line : Bytes} (hkey : IsIniName key)
    (hnewline : (10 : UInt8) ∉ key) (hne : key ≠ ascii "max_tokens") (hvalue : Narrow key value)
    (h : line ∈ fileLines configLineLength (settingText key value ++ [10])) :
    Tame (ofBuffer line) := by
  have hsep : (ascii " = ").length = 3 := by decide
  have hklen := hkey.key.length
  have hlen := hvalue.2
  rw [configLineLength] at hlen
  refine tame_of_front (isTameFront_setting hkey hnewline hne) hvalue.1 ?_ ?_ h
  · rw [List.length_append, hsep, configLineLength]
    omega
  · rw [List.length_append, hsep, configLineLength]
    omega

theorem narrow_printed {key value : Bytes} (hkey : key.length ≤ 100) (hvalue : (10 : UInt8) ∉ value)
    (hlen : value.length ≤ 900) : Narrow key value :=
  ⟨oneLine_of_notMem hvalue, by rw [configLineLength]; omega⟩

theorem tame_of_mem_blank {line : Bytes} (h : line ∈ fileLines configLineLength ([] ++ [10])) :
    Tame (ofBuffer line) := by
  have hle : (ofBuffer line).length ≤ line.length := (List.takeWhile_prefix _).length_le
  exact tame_of_length_le (hle.trans ((mem_fileLines h).1.length_le.trans (by decide)))

theorem tame_of_mem_comment {text line : Bytes} (htext : (10 : UInt8) ∉ text)
    (hlen : text.length ≤ 100) (h : line ∈ fileLines configLineLength (35 :: text ++ [10])) :
    Tame (ofBuffer line) := by
  refine tame_of_front isTameFront_comment (oneLine_of_notMem htext) (by decide) ?_ h
  rw [configLineLength, List.length_singleton]
  omega

theorem tame_of_mem_header (name : Bytes) {line : Bytes} (hname : IsIniName name)
    (hnewline : (10 : UInt8) ∉ name) (hquiet : QuietSection name)
    (h : line ∈ fileLines configLineLength (91 :: name ++ [93] ++ [10])) :
    Tame (ofBuffer line) := by
  have hlen := hname.length
  rw [sectionSize] at hlen
  have hsize : (91 :: name ++ [93]).length < configLineLength := by
    rw [configLineLength, List.length_append, List.length_cons, List.length_singleton]
    omega
  have h' : line ∈ fileLines configLineLength (91 :: name ++ [93] ++ [] ++ [10]) := by
    rwa [List.append_nil]
  refine tame_of_front (isTameFront_header hname hnewline hquiet) (by decide) hsize ?_ h'
  rw [List.length_nil]
  omega

/-- No line of a written file touches the settings. -/
theorem tame_of_mem_configLines {cfg : FullConfig D} (h : cfg.IsNarrow) {line : Bytes}
    (hline : line ∈ configLines (configSave format cfg)) : Tame line := by
  obtain ⟨raw, hraw, rfl⟩ := List.mem_map.mp hline
  have hlines : raw ∈ fileLines configLineLength (configSave format cfg) := hraw
  rw [configSave, fileLines_flatMap (by decide)] at hlines
  obtain ⟨l, hl, hmem⟩ := List.mem_flatMap.mp hlines
  have hport := isIniValue_printNat cfg.gateway.port.toNat_lt
  revert l
  simp only [FullConfig.lines, List.forall_mem_cons]
  refine ⟨tame_of_mem_comment (by decide) (by decide),
    tame_of_mem_comment (by decide) (by decide), tame_of_mem_blank,
    tame_of_mem_header (ascii "paths") (by decide) (by decide) (by decide), ?_, ?_, ?_,
    tame_of_mem_blank,
    tame_of_mem_header (ascii "provider") (by decide) (by decide) (by decide), ?_, ?_, ?_,
    tame_of_mem_blank,
    tame_of_mem_header (ascii "gateway") (by decide) (by decide) (by decide), ?_, ?_,
    tame_of_mem_blank, fun _ hline ↦ absurd hline List.not_mem_nil⟩
  · exact tame_of_mem_setting (by decide) (by decide) (by decide) h.workspaceDir
  · exact tame_of_mem_setting (by decide) (by decide) (by decide) h.stateDir
  · exact tame_of_mem_setting (by decide) (by decide) (by decide) h.dataDir
  · exact tame_of_mem_setting (by decide) (by decide) (by decide) h.provider
  · exact tame_of_mem_setting (by decide) (by decide) (by decide) h.model
  · exact tame_of_mem_setting (by decide) (by decide) (by decide)
      (narrow_printed (by decide) (format.newline_notMem _)
        ((format.length_printF_le _).trans (by decide)))
  · exact tame_of_mem_setting (by decide) (by decide) (by decide) h.host
  · exact tame_of_mem_setting (by decide) (by decide) (by decide)
      (narrow_printed (by decide) hport.newline hport.length)

end Written

/-! ## Loading, saving and loading again -/

section Reloading

variable {D : Type} {format : DoubleFormat D} {env : Bytes → Option Bytes} {path : Option Bytes}

/-- The configuration that a file gives. -/
def loadedFrom (format : DoubleFormat D) (env : Bytes → Option Bytes) (path : Option Bytes)
    (file : Bytes) : FullConfig D :=
  configLoad format env (fileAt (resolvedPath env path) file) path

theorem loadedFrom_eq (henv : NoOverrides env) (file : Bytes) :
    loadedFrom format env path file =
      loadConfigFile format { configInitDefaults format env with
        paths := { defaultPaths env with configPath := resolvedPath env path } } file := by
  rw [loadedFrom, configLoad, configLoadFromEnv_eq henv, fileAt, if_pos rfl]
  rfl

theorem get_loadedFrom {s : Setting D} (hs : s ∈ unsavedSettings D) (henv : NoOverrides env)
    (file : Bytes) :
    s.get (loadedFrom format env path file) =
      (lastWrite s.write (assignments file)).getD s.default := by
  have hpaths : s.get { configInitDefaults format env with
      paths := { defaultPaths env with configPath := resolvedPath env path } } = s.default := by
    rw [← get_configInitDefaults format env hs]
    revert s
    simp [unsavedSettings, unsavedProvider, unsavedMemory, unsavedAutonomy, unsavedObservability,
      unsavedAgent]
  rw [loadedFrom_eq henv, get_loadConfigFile format hs, hpaths]

theorem storageProvider_loadedFrom (henv : NoOverrides env) (file : Bytes) :
    (loadedFrom format env path file).memory.storageProvider = ascii "sqlite" := by
  have hstep : ∀ (cfg : FullConfig D) (e : IniLine),
      (applySetting format cfg e.sectionName e.key e.value).memory.storageProvider =
        cfg.memory.storageProvider := by
    intro cfg e
    rw [applySetting_memory]
    unfold setMemory
    split_ifs <;> rfl
  have hrun : ∀ (events : List IniLine) (cfg : FullConfig D),
      (events.foldl (fun cfg e ↦ applySetting format cfg e.sectionName e.key e.value)
        cfg).memory.storageProvider = cfg.memory.storageProvider := by
    intro events
    induction events with
    | nil => exact fun _ ↦ rfl
    | cons e events ih => exact fun cfg ↦ (ih _).trans (hstep cfg e)
  rw [loadedFrom_eq henv, loadConfigFile_eq, hrun]
  rfl

/-- What is saved says nothing about the settings that are not written. -/
theorem get_reloaded {s : Setting D} (hs : s ∈ unsavedSettings D) (henv : NoOverrides env)
    (hhome : PlainHome env) (saved : Option Bytes) (file : Bytes) :
    s.get (loadedFrom format env saved (configSave format (loadedFrom format env path file))) =
      s.default := by
  have hnarrow : (loadedFrom format env path file).IsNarrow := by
    rw [loadedFrom_eq henv]
    exact isNarrow_loadConfigFile format (isNarrow_configInitDefaults format hhome _) file
  rw [get_loadedFrom hs henv, lastWrite_of_tame hs fun line ↦ tame_of_mem_configLines hnarrow]
  rfl

/-- The settings survive loading, saving and loading again. -/
def SavesSettings (format : DoubleFormat D) (env : Bytes → Option Bytes)
    (path saved : Option Bytes) (file : Bytes) : Prop :=
  SameSettings
    (loadedFrom format env saved (configSave format (loadedFrom format env path file)))
    (loadedFrom format env path file)

/-- For each setting that is not written, the last assignment of the file, if
there is one, gives the default. -/
def LeavesDefaults (D : Type) (file : Bytes) : Prop :=
  ∀ s ∈ unsavedSettings D, ∀ value ∈ lastWrite s.write (assignments file), value = s.default

theorem savesSettings_iff (henv : NoOverrides env) (hhome : PlainHome env)
    (saved : Option Bytes) (file : Bytes) :
    SavesSettings format env path saved file ↔ LeavesDefaults D file := by
  have hstorage : (loadedFrom format env saved
      (configSave format (loadedFrom format env path file))).memory.storageProvider =
        (loadedFrom format env path file).memory.storageProvider := by
    rw [storageProvider_loadedFrom henv, storageProvider_loadedFrom henv]
  rw [SavesSettings, sameSettings_iff hstorage]
  refine forall₂_congr fun s hs ↦ ?_
  rw [get_reloaded hs henv hhome, get_loadedFrom hs henv]
  cases lastWrite s.write (assignments file) with
  | none => simp
  | some value => simp [eq_comm]

end Reloading

/-- A file that spells out a default is not changed by being saved. -/
theorem savesSettings_supervised :
    SavesSettings sixDecimals homeEnv none none (ascii "[autonomy]\nlevel = supervised\n") := by
  have hread : assignments (ascii "[autonomy]\nlevel = supervised\n") =
      [⟨ascii "autonomy", ascii "level", ascii "supervised"⟩] := by decide
  refine (savesSettings_iff (by decide) (by decide) none _).mpr ?_
  simp +decide [LeavesDefaults, hread, lastWrite, Setting.write, unsavedSettings, unsavedProvider,
    unsavedMemory, unsavedAutonomy, unsavedObservability, unsavedAgent]

def approvalFile : Bytes := ascii "[autonomy]\nrequire_approval = true\n"

def approvalSetting (D : Type) : Setting D :=
  ⟨ascii "autonomy", ascii "require_approval", Bool,
    (·.autonomy.requireApproval), isTrueText, false⟩

/-- The demand for approvals is lost. -/
theorem approval_not_saved : ¬ SavesSettings sixDecimals homeEnv none none approvalFile := by
  intro h
  have hmem : approvalSetting (Fin 10000000) ∈ unsavedSettings (Fin 10000000) := by
    simp [unsavedSettings, unsavedAutonomy, approvalSetting]
  have hget : ∀ cfg, (approvalSetting (Fin 10000000)).get cfg = cfg.autonomy.requireApproval :=
    fun _ ↦ rfl
  have hsame := congrArg AutonomyConfig.requireApproval h.autonomy
  rw [← hget, ← hget, get_reloaded hmem (by decide) (by decide),
    get_loadedFrom hmem (by decide)] at hsame
  have hread : (lastWrite (approvalSetting (Fin 10000000)).write (assignments approvalFile) :
      Option Bool) = some true := by decide
  have hvalue : false = (some true).getD false := hread ▸ hsame
  cases hvalue

end DoctorClaw
