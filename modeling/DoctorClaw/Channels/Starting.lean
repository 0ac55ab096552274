import DoctorClaw.Channels.Registry

/-!
# Starting the channels

`channel_start_all` makes a handle for every enabled channel with
`channel_init`, which also registers the channel.  The loop runs up to the
number of registered channels, and the copies it registers are enabled too.
-/

namespace DoctorClaw

/-- `channel_config_t`. -/
structure ChannelRecord extends ChannelEntry where
  apiKey : Bytes
  allowedUsers : List Bytes

/-- `channel_instance_t`. -/
structure ChannelInstance where
  config : ChannelRecord
  active : Bool
  lastHealthCheck : ℤ

/-- The registered channels. -/
structure ChannelTable where
  instances : List ChannelInstance
  length_le : instances.length ≤ maxChannels

namespace ChannelTable

def configs (t : ChannelTable) : List ChannelRecord := t.instances.map ChannelInstance.config

theorem length_configs (t : ChannelTable) : t.configs.length = t.instances.length :=
  List.length_map _

/-- What `channel_init` does to the table. -/
def register (t : ChannelTable) (config : ChannelRecord) : ChannelTable :=
  if h : t.instances.length < maxChannels then
    { instances := t.instances ++ [⟨config, false, 0⟩]
      length_le := by
        rw [List.length_append, List.length_singleton]
        exact h }
  else t

/-- The first channel of the type becomes active. -/
def activateFirst (type : ChannelType) (now : ℤ) : List ChannelInstance → List ChannelInstance
  | [] => []
  | c :: cs =>
      if c.config.type = type then { c with active := true, lastHealthCheck := now } :: cs
      else c :: activateFirst type now cs

theorem config_activateFirst (type : ChannelType) (now : ℤ) (cs : List ChannelInstance) :
    (activateFirst type now cs).map ChannelInstance.config = cs.map ChannelInstance.config := by
  induction cs with
  | nil => rfl
  | cons c cs ih =>
      rw [activateFirst]
      split_ifs
      · rfl
      · rw [List.map_cons, List.map_cons, ih]

/-- What `channel_connect` does to the table. -/
def connect (t : ChannelTable) (type : ChannelType) (now : ℤ) : ChannelTable where
  instances := activateFirst type now t.instances
  length_le := by
    have hlen := congrArg List.length (config_activateFirst type now t.instances)
    rw [List.length_map, List.length_map] at hlen
    rw [hlen]
    exact t.length_le

theorem configs_connect (t : ChannelTable) (type : ChannelType) (now : ℤ) :
    (t.connect type now).configs = t.configs :=
  config_activateFirst type now t.instances

/-- One round of the loop. -/
def startAt (t : ChannelTable) (now : ℤ) (i : ℕ) : ChannelTable :=
  match t.configs[i]? with
  | some config => if config.enabled then (t.register config).connect config.type now else t
  | none => t

end ChannelTable

open ChannelTable

/-- The loop from the index `i` on. -/
def channelStartFrom (clock : ℕ → ℤ) (t : ChannelTable) (i : ℕ) : ChannelTable :=
  if i < t.instances.length then channelStartFrom clock (t.startAt (clock i) i) (i + 1) else t
termination_by maxChannels - i
decreasing_by
  have hle := t.length_le
  omega

def channelStartAll (clock : ℕ → ℤ) (t : ChannelTable) : ChannelTable := channelStartFrom clock t 0

/-! ## What one round does -/

namespace ChannelTable

/-- The table registers what the registry of saved fields registers. -/
theorem entries_register (t : ChannelTable) (config : ChannelRecord) :
    (t.register config).configs.map ChannelRecord.toChannelEntry =
      channelInit (t.configs.map ChannelRecord.toChannelEntry) config.toChannelEntry := by
  have hlen : (t.configs.map ChannelRecord.toChannelEntry).length = t.instances.length := by
    rw [List.length_map, t.length_configs]
  unfold register channelInit
  rw [hlen]
  split_ifs with h
  · simp [configs]
  · rfl

theorem configs_register (t : ChannelTable) (config : ChannelRecord) :
    (t.register config).configs =
      t.configs ++ if t.configs.length < maxChannels then [config] else [] := by
  rw [t.length_configs]
  unfold register
  split_ifs with h
  · simp [configs]
  · rw [List.append_nil]

theorem configs_startAt {t : ChannelTable} {i : ℕ} {config : ChannelRecord}
    (h : t.configs[i]? = some config) (now : ℤ) :
    (t.startAt now i).configs =
      t.configs ++ if config.enabled ∧ t.configs.length < maxChannels then [config] else [] := by
  rw [startAt, h]
  dsimp only
  by_cases henabled : config.enabled = true
  · rw [if_pos henabled, configs_connect, configs_register]
    simp only [henabled, true_and]
  · rw [if_neg henabled, if_neg fun h ↦ henabled h.1, List.append_nil]

end ChannelTable

/-! ## What the loop does -/

/-- With nothing to register the configurations stay. -/
theorem configs_channelStartFrom (clock : ℕ → ℤ) (t : ChannelTable) (i : ℕ)
    (h : t.configs.length = maxChannels ∨ ∀ config ∈ t.configs, config.enabled = false) :
    (channelStartFrom clock t i).configs = t.configs := by
  induction t, i using channelStartFrom.induct clock with
  | case1 t i hi ih =>
      have hget := List.getElem?_eq_getElem (t.length_configs.symm ▸ hi)
      have hround : (t.startAt (clock i) i).configs = t.configs := by
        rw [configs_startAt hget, if_neg, List.append_nil]
        rintro ⟨henabled, hroom⟩
        rcases h with hfull | hnone
        · omega
        · rw [hnone _ (List.mem_of_getElem? hget)] at henabled
          exact Bool.noConfusion henabled
      rw [channelStartFrom, if_pos hi, ih (by rwa [hround]), hround]
  | case2 t i hi => rw [channelStartFrom, if_neg hi]

/-- An enabled channel ahead of the loop fills the table. -/
theorem length_channelStartFrom (clock : ℕ → ℤ) (t : ChannelTable) (i j : ℕ)
    {config : ChannelRecord} (hij : i ≤ j) (hj : t.configs[j]? = some config)
    (henabled : config.enabled = true) :
    (channelStartFrom clock t i).configs.length = maxChannels := by
  induction t, i using channelStartFrom.induct clock generalizing j with
  | case1 t i hi ih =>
      have hget := List.getElem?_eq_getElem (t.length_configs.symm ▸ hi)
      have hround := configs_startAt hget (clock i)
      rw [channelStartFrom, if_pos hi]
      by_cases hnext : i + 1 ≤ j
      · refine ih j hnext ?_
        rw [hround, List.getElem?_append_left (List.getElem?_eq_some_iff.mp hj).1, hj]
      · -- the channel is the one of this round, and its copy comes behind all the others
        obtain rfl : i = j := by omega
        rw [hget] at hj
        rw [Option.some.inj hj] at hround
        by_cases hroom : t.configs.length < maxChannels
        · rw [if_pos ⟨henabled, hroom⟩] at hround
          refine ih t.configs.length ?_ ?_
          · rw [t.length_configs]
            exact hi
          · rw [hround, List.getElem?_concat_length]
        · have hfull : t.configs.length = maxChannels := by
            have hle := t.length_le
            rw [← t.length_configs] at hle
            omega
          rw [if_neg fun h ↦ hroom h.2, List.append_nil] at hround
          rw [configs_channelStartFrom clock _ _ (.inl (by rw [hround, hfull])), hround, hfull]
  | case2 t i hi =>
      have hlt := (List.getElem?_eq_some_iff.mp hj).1
      rw [t.length_configs] at hlt
      omega

/-- Starting the channels leaves the configurations as they are exactly when
none is enabled or there is no room for a copy. -/
theorem channelStartAll_keeps_iff (clock : ℕ → ℤ) (t : ChannelTable) :
    (channelStartAll clock t).configs = t.configs ↔
      t.configs.length = maxChannels ∨ ∀ config ∈ t.configs, config.enabled = false := by
  refine ⟨fun h ↦ ?_, configs_channelStartFrom clock t 0⟩
  by_contra hnot
  obtain ⟨hroom, hsome⟩ := not_or.mp hnot
  simp only [not_forall, exists_prop, Bool.not_eq_false] at hsome
  obtain ⟨config, hmem, henabled⟩ := hsome
  obtain ⟨j, hj⟩ := List.mem_iff_getElem?.mp hmem
  have hfull := length_channelStartFrom clock t 0 j (Nat.zero_le j) hj henabled
  rw [← channelStartAll, h] at hfull
  exact hroom hfull

/-- One enabled channel. -/
def oneChannel : ChannelTable := ⟨[⟨⟨discordEntry, [], []⟩, false, 0⟩], by decide⟩

/-- One enabled channel is started thirty-two times. -/
theorem oneChannel_not_kept :
    (channelStartAll (fun _ ↦ 0) oneChannel).configs ≠ oneChannel.configs := by
  intro h
  have hfull := length_channelStartFrom (fun _ ↦ 0) oneChannel 0 0 (Nat.le_refl 0) rfl rfl
  rw [← channelStartAll, h] at hfull
  exact absurd hfull (by decide)

end DoctorClaw
