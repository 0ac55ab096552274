import DoctorClaw.Config

/-!
# Saving and loading the configuration

A written file is a list of sections.  Reading a section applies its settings
one after the other, each with the value that was written, as long as the
value is trimmed, is not quoted and stays on its line.
-/

namespace DoctorClaw

open CString

section Lines

variable {D : Type} (format : DoubleFormat D)

/-- A section as it is written. -/
def sectionLines (name : Bytes) (settings : List (Bytes × Bytes)) : List Bytes :=
  (91 :: name ++ [93]) :: (settings.map fun kv ↦ settingText kv.1 kv.2) ++ [[]]

theorem configSave_sections (cfg : FullConfig D) :
    cfg.lines format =
      [ascii "# Doctor Claw Configuration", ascii "# Version 0.1.0", []] ++
        (sectionLines (ascii "paths") [(ascii "workspace_dir", cfg.paths.workspaceDir),
            (ascii "state_dir", cfg.paths.stateDir), (ascii "data_dir", cfg.paths.dataDir)] ++
          sectionLines (ascii "provider") [(ascii "provider", cfg.provider.provider),
            (ascii "model", cfg.provider.model),
            (ascii "temperature", format.printF cfg.provider.temperature)] ++
          sectionLines (ascii "gateway") [(ascii "host", cfg.gateway.host),
            (ascii "port", Decimal.printNat cfg.gateway.port.toNat)]) :=
  rfl

/-- A line as the loop gets it. -/
def readLine (line : Bytes) : Bytes := ofBuffer (line ++ [10])

/-- The value that is read where `value` was written. -/
def readValue (value : Bytes) : Bytes := iniValue valueSize (32 :: readLine value)

theorem readValue_eq {value : Bytes} (h : IsIniValue value) : readValue value = value := by
  have hnul : (0 : UInt8) ∉ value ++ [10] := by
    rw [List.mem_append, not_or]
    exact ⟨h.nul, by decide⟩
  rw [readValue, readLine, ofBuffer_eq_self hnul]
  exact iniValue_written h (by decide)

/-- The key of a written line and the sign behind it. -/
theorem notMem_assignment {key : Bytes} {c : UInt8} (hkey : c ∉ key) (hc : c ∉ ascii " = ") :
    c ∉ key ++ ascii " = " := by
  rw [List.mem_append, not_or]
  exact ⟨hkey, hc⟩

theorem readLine_setting {key : Bytes} (hkey : (0 : UInt8) ∉ key) (value : Bytes) :
    readLine (settingText key value) = settingText key (readLine value) := by
  rw [readLine, settingText, List.append_assoc,
    ofBuffer_append (notMem_assignment hkey (by decide))]
  rfl

/-- A section name or a key as the program writes it. -/
structure IsIniName (name : Bytes) : Prop where
  key : IsIniKey name
  nul : (0 : UInt8) ∉ name
  bracket : (93 : UInt8) ∉ name
  length : name.length < sectionSize

instance : DecidablePred IsIniName := fun name ↦
  decidable_of_iff (IsIniKey name ∧ (0 : UInt8) ∉ name ∧ (93 : UInt8) ∉ name ∧
      name.length < sectionSize)
    ⟨fun h ↦ ⟨h.1, h.2.1, h.2.2.1, h.2.2.2⟩, fun h ↦ ⟨h.key, h.nul, h.bracket, h.length⟩⟩

theorem loadConfigLine_header {name : Bytes} (hname : IsIniName name) (s : FullConfig D × Bytes) :
    loadConfigLine format s (readLine (91 :: name ++ [93])) = (s.1, name) := by
  have hline : readLine (91 :: name ++ [93]) = 91 :: (name ++ 93 :: [10]) := by
    have hnul : (0 : UInt8) ∉ 91 :: name ++ [93] ++ [10] := by
      have hname0 := hname.nul
      simp [hname0]
    rw [readLine, ofBuffer_eq_self hnul]
    simp
  have hparsed : parseIniLine sectionSize keySize valueSize (91 :: (name ++ 93 :: [10])) s.2 =
      ⟨name, [], []⟩ := by
    rw [parseIniLine_header hname.bracket, cut_of_lt hname.length, trim_eq_self hname.key.trimmed]
  rw [loadConfigLine, hline, hparsed]
  exact if_pos rfl

theorem loadConfigLine_blank (s : FullConfig D × Bytes) :
    loadConfigLine format s (readLine []) = s := by
  have hblank : ∀ c ∈ readLine [], isspace c = true := List.forall_mem_singleton.mpr rfl
  rw [loadConfigLine, parseIniLine_blank hblank]
  exact if_pos rfl

theorem loadConfigLine_comment {rest : Bytes} (s : FullConfig D × Bytes) :
    loadConfigLine format s (readLine (35 :: rest)) = s := by
  have hline : readLine (35 :: rest) = 35 :: readLine rest := by
    rw [readLine, ofBuffer, List.cons_append, List.takeWhile_cons_of_pos (by decide)]
    rfl
  rw [loadConfigLine, hline, parseIniLine_comment]
  exact if_pos rfl

theorem loadConfigLine_setting {key : Bytes} (hkey : IsIniName key) (value : Bytes)
    (s : FullConfig D × Bytes) :
    loadConfigLine format s (readLine (settingText key value)) =
      (applySetting format s.1 s.2 key (readValue value), s.2) := by
  rw [loadConfigLine, readLine_setting hkey.nul, parseIniLine_setting hkey.key (by decide)]
  exact if_neg hkey.key.nonempty

/-- A section of the file applies its settings in their order. -/
theorem loadConfig_section {name : Bytes} (hname : IsIniName name)
    {settings : List (Bytes × Bytes)} (hkeys : ∀ kv ∈ settings, IsIniName kv.1)
    (s : FullConfig D × Bytes) :
    ((sectionLines name settings).map readLine).foldl (loadConfigLine format) s =
      (settings.foldl (fun cfg kv ↦ applySetting format cfg name kv.1 (readValue kv.2)) s.1,
        name) := by
  have hrun : ∀ cfg : FullConfig D,
      ((settings.map fun kv ↦ settingText kv.1 kv.2).map readLine).foldl (loadConfigLine format)
          (cfg, name) =
        (settings.foldl (fun cfg kv ↦ applySetting format cfg name kv.1 (readValue kv.2)) cfg,
          name) := by
    induction settings with
    | nil => exact fun _ ↦ rfl
    | cons kv settings ih =>
        intro cfg
        obtain ⟨hkey, hrest⟩ := List.forall_mem_cons.mp hkeys
        rw [List.map_cons, List.map_cons, List.foldl_cons, loadConfigLine_setting format hkey,
          ih hrest]
        rfl
  rw [sectionLines, List.cons_append, List.map_cons, List.foldl_cons,
    loadConfigLine_header format hname,
    List.map_append, List.foldl_append, hrun]
  exact loadConfigLine_blank format _

end Lines

/-! ## The file of a configuration -/

section Files

variable {D : Type} {format : DoubleFormat D}

/-- The texts of the paths, the provider and the gateway can be written as they
are. -/
structure FullConfig.Writable (cfg : FullConfig D) : Prop where
  workspaceDir : IsIniValue cfg.paths.workspaceDir
  stateDir : IsIniValue cfg.paths.stateDir
  dataDir : IsIniValue cfg.paths.dataDir
  provider : IsIniValue cfg.provider.provider ∧ cfg.provider.provider.length < maxProviderNameLen
  model : IsIniValue cfg.provider.model ∧ cfg.provider.model.length < maxModelNameLen
  host : IsIniValue cfg.gateway.host ∧ cfg.gateway.host.length < 256

theorem isIniValue_printNat {n : ℕ} (hn : n < 2 ^ 16) : IsIniValue (Decimal.printNat n) := by
  have hdigit : ∀ {c}, c ∈ Decimal.printNat n → Decimal.isDigit c = true :=
    fun hc ↦ Decimal.isDigit_of_mem_printNat hc
  have hother : ∀ {d : UInt8}, Decimal.isDigit d = false → d ∉ Decimal.printNat n := by
    intro d hd hmem
    rw [hdigit hmem] at hd
    cases hd
  refine ⟨⟨fun c hc ↦ ?_, fun c hc ↦ ?_⟩, fun h ↦ ?_, hother (by decide), hother (by decide), ?_⟩
  · exact (Decimal.not_isspace_of_isDigit (hdigit (List.mem_of_mem_head? hc))).1
  · exact (Decimal.not_isspace_of_isDigit (hdigit (List.mem_of_getLast? hc))).1
  · exact hother (by decide) (List.mem_of_mem_head? h)
  · have hlen := Decimal.length_printNat_le (n := n) (k := 5) (by decide) (by omega)
    omega

theorem ofInt_toNat (port : UInt16) : UInt16.ofInt port.toNat = port := by
  have hlt := port.toNat_lt
  rw [UInt16.ofInt, Int.emod_eq_of_lt (by omega) (by omega), Int.toNat_natCast, UInt16.ofNat_toNat]

/-- Every line of the file is read in one piece. -/
theorem configLines_configSave {cfg : FullConfig D} (h : cfg.Writable) :
    configLines (configSave format cfg) = (cfg.lines format).map readLine := by
  have hport := isIniValue_printNat cfg.gateway.port.toNat_lt
  have hsetting : ∀ {key value : Bytes}, IsIniName key → (10 : UInt8) ∉ key →
      (10 : UInt8) ∉ value → value.length ≤ 900 →
      (10 : UInt8) ∉ settingText key value ∧
        (settingText key value).length + 1 < configLineLength := by
    intro key value hkey hk hv hlen
    have hklen := hkey.key.length
    have hsep : (10 : UInt8) ∉ ascii " = " ∧ (ascii " = ").length = 3 := by decide
    constructor
    · simp [settingText, hk, hv, hsep.1]
    · rw [settingText, List.length_append, List.length_append, hsep.2, configLineLength]
      omega
  have hlines : ∀ line ∈ cfg.lines format,
      (10 : UInt8) ∉ line ∧ line.length + 1 < configLineLength := by
    simp only [FullConfig.lines, List.forall_mem_cons]
    refine ⟨by decide, by decide, by decide, by decide, ?_, ?_, ?_, by decide, by decide, ?_, ?_,
      ?_, by decide, by decide, ?_, ?_, by decide, fun _ hline ↦ absurd hline List.not_mem_nil⟩
    · exact hsetting (by decide) (by decide) h.workspaceDir.newline h.workspaceDir.length
    · exact hsetting (by decide) (by decide) h.stateDir.newline h.stateDir.length
    · exact hsetting (by decide) (by decide) h.dataDir.newline h.dataDir.length
    · exact hsetting (by decide) (by decide) h.provider.1.newline h.provider.1.length
    · exact hsetting (by decide) (by decide) h.model.1.newline h.model.1.length
    · exact hsetting (by decide) (by decide) (format.newline_notMem _)
        ((format.length_printF_le _).trans (by decide))
    · exact hsetting (by decide) (by decide) h.host.1.newline h.host.1.length
    · exact hsetting (by decide) (by decide) hport.newline hport.length
  rw [configLines, configSave, fgetsLines_flatMap hlines, List.map_map]
  rfl

/-- Reading a written file sets what was written and nothing else. -/
theorem loadConfigFile_configSave (start : FullConfig D) {cfg : FullConfig D} (h : cfg.Writable) :
    loadConfigFile format start (configSave format cfg) =
      { start with
        paths :=
          { start.paths with
            workspaceDir := cfg.paths.workspaceDir
            stateDir := cfg.paths.stateDir
            dataDir := cfg.paths.dataDir }
        provider :=
          { start.provider with
            provider := cfg.provider.provider
            model := cfg.provider.model
            temperature := format.atof (readValue (format.printF cfg.provider.temperature)) }
        gateway := cfg.gateway } := by
  have hport := isIniValue_printNat cfg.gateway.port.toNat_lt
  have hatoi : Decimal.atoi (Decimal.printNat cfg.gateway.port.toNat) = cfg.gateway.port.toNat :=
    Decimal.atoi_printNat (cfg.gateway.port.toNat_lt.trans (by decide))
  have hdir : ∀ {dir : Bytes}, IsIniValue dir → cut maxPathLen dir = dir := fun hd ↦
    cut_of_lt (hd.length.trans_lt (by decide))
  have hfront : ([ascii "# Doctor Claw Configuration", ascii "# Version 0.1.0", []].map
      readLine).foldl (loadConfigLine format) (start, []) = (start, []) := by
    have hcomment : ascii "# Doctor Claw Configuration" = 35 :: ascii " Doctor Claw Configuration" ∧
        ascii "# Version 0.1.0" = 35 :: ascii " Version 0.1.0" := by decide
    simp only [hcomment.1, hcomment.2, List.map_cons, List.map_nil, List.foldl_cons, List.foldl_nil,
      loadConfigLine_comment, loadConfigLine_blank]
  rw [loadConfigFile, configLines_configSave h, configSave_sections]
  simp only [List.map_append, List.foldl_append, hfront]
  rw [loadConfig_section format (by decide) (by simp +decide only [List.forall_mem_cons]),
    loadConfig_section format (by decide) (by simp +decide only [List.forall_mem_cons]),
    loadConfig_section format (by decide) (by simp +decide only [List.forall_mem_cons])]
  simp only [List.foldl_cons, List.foldl_nil, readValue_eq h.workspaceDir,
    readValue_eq h.stateDir, readValue_eq h.dataDir, readValue_eq h.provider.1,
    readValue_eq h.model.1, readValue_eq h.host.1, readValue_eq hport]
  simp +decide [applySetting, setPaths, setProvider, setGateway, hdir h.workspaceDir,
    hdir h.stateDir, hdir h.dataDir, cut_of_lt h.provider.2, cut_of_lt h.model.2,
    cut_of_lt h.host.2, hatoi, ofInt_toNat]

/-- The texts and the port come back from the file that was written. -/
theorem configLoad_configSave {env files : Bytes → Option Bytes} {path : Option Bytes}
    {cfg : FullConfig D} (henv : NoOverrides env) (h : cfg.Writable)
    (hfile : files (resolvedPath env path) = some (configSave format cfg)) :
    (configLoad format env files path).paths.workspaceDir = cfg.paths.workspaceDir ∧
      (configLoad format env files path).paths.stateDir = cfg.paths.stateDir ∧
      (configLoad format env files path).paths.dataDir = cfg.paths.dataDir ∧
      (configLoad format env files path).provider.provider = cfg.provider.provider ∧
      (configLoad format env files path).provider.model = cfg.provider.model ∧
      (configLoad format env files path).gateway.host = cfg.gateway.host ∧
      (configLoad format env files path).gateway.port = cfg.gateway.port := by
  rw [configLoad, configLoadFromEnv_eq henv, hfile]
  dsimp only
  rw [loadConfigFile_configSave _ h]
  exact ⟨rfl, rfl, rfl, rfl, rfl, rfl, rfl⟩

end Files

/-! ## A configuration -/

/-- The numbers below ten with six decimals, counted in millionths. -/
def sixDecimals : DoubleFormat (Fin 10000000) where
  atof s :=
    let digits := ((s.dropWhile fun c ↦ decide (c ≠ 46)).drop 1).takeWhile Decimal.isDigit
    let decimals := digits.take 6
    Fin.ofNat _ (Decimal.digitsValue 0 s * 1000000 +
      Decimal.digitsValue 0 (decimals ++ List.replicate (6 - decimals.length) 48))
  printF d :=
    Decimal.printNat (d / 1000000) ++ 46 :: (Decimal.printNat (1000000 + d % 1000000)).drop 1
  newline_notMem d := by
    have hdigits : ∀ n, (10 : UInt8) ∉ Decimal.printNat n := fun n h ↦
      absurd (Decimal.isDigit_of_mem_printNat h) (by decide)
    rw [List.mem_append, List.mem_cons, not_or, not_or]
    exact ⟨hdigits _, by decide, fun h ↦ hdigits _ (List.mem_of_mem_drop h)⟩
  length_printF_le d := by
    have hfront := Decimal.length_printNat_le (show 0 < 1 by decide)
      (show d.val / 1000000 < 10 ^ 1 by omega)
    have hdecimals := Decimal.length_printNat_le (show 0 < 7 by decide)
      (show 1000000 + d.val % 1000000 < 10 ^ 7 by omega)
    rw [List.length_append, List.length_cons, List.length_drop]
    omega

/-- Only the home directory is set. -/
def homeEnv (name : Bytes) : Option Bytes :=
  if name = ascii "HOME" then some (ascii "/home/ada") else none

/-- The defaults with a model whose name looks like a comment, a header and an
assignment. -/
def oddConfig : FullConfig (Fin 10000000) :=
  let defaults := configInitDefaults sixDecimals homeEnv
  { defaults with provider := { defaults.provider with model := ascii "a=b # [c]" } }

/-- The file at one path. -/
def fileAt (path content p : Bytes) : Option Bytes := if p = path then some content else none

theorem configLoad_oddConfig :
    (configLoad sixDecimals homeEnv
        (fileAt (ascii "/home/ada/.doctorclaw/config.toml") (configSave sixDecimals oddConfig))
        none).provider.model = ascii "a=b # [c]" ∧
      sixDecimals.printF oddConfig.provider.temperature = ascii "0.700000" := by
  have hvalue : ∀ value ∈ [oddConfig.paths.workspaceDir, oddConfig.paths.stateDir,
      oddConfig.paths.dataDir, oddConfig.provider.provider, oddConfig.provider.model,
      oddConfig.gateway.host], IsTrimmed value ∧ value.head? ≠ some 34 ∧ (10 : UInt8) ∉ value ∧
      (0 : UInt8) ∉ value ∧ value.length ≤ 63 := by decide
  have hini : ∀ value ∈ [oddConfig.paths.workspaceDir, oddConfig.paths.stateDir,
      oddConfig.paths.dataDir, oddConfig.provider.provider, oddConfig.provider.model,
      oddConfig.gateway.host], IsIniValue value ∧ value.length ≤ 63 := fun value hmem ↦
    have h := hvalue value hmem
    ⟨⟨h.1, h.2.1, h.2.2.1, h.2.2.2.1, h.2.2.2.2.trans (by decide)⟩, h.2.2.2.2⟩
  simp only [List.forall_mem_cons] at hini
  obtain ⟨hwork, hstate, hdata, hprovider, hmodel, hhost, -⟩ := hini
  have hwritable : oddConfig.Writable :=
    ⟨hwork.1, hstate.1, hdata.1, ⟨hprovider.1, hprovider.2.trans_lt (by decide)⟩,
      ⟨hmodel.1, hmodel.2.trans_lt (by decide)⟩, ⟨hhost.1, hhost.2.trans_lt (by decide)⟩⟩
  have henv : NoOverrides homeEnv := by decide
  have hfile : fileAt (ascii "/home/ada/.doctorclaw/config.toml") (configSave sixDecimals oddConfig)
      (resolvedPath homeEnv none) = some (configSave sixDecimals oddConfig) := if_pos (by decide)
  exact ⟨(configLoad_configSave henv hwritable hfile).2.2.2.2.1, by decide⟩

end DoctorClaw
