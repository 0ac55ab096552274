import DoctorClaw.Config
import DoctorClaw.Lib.CharRows
import DoctorClaw.Lib.LastWrite
import DoctorClaw.Lib.SlotArray
import Mathlib.Data.List.Nodup

/-!
# The instance registry

The ids stand in a table of sixteen rows of sixty-four bytes, and the
configurations behind it, the first of them with its provider name in front.
An id is compared with the string that begins in a row.
-/

namespace DoctorClaw

open CString CharRows LastWrite

def instanceIdMax : ℕ := 64

def instanceRegistryMax : ℕ := 16

/-- `g_registry`: the memory of the ids and the configurations in use. -/
structure InstanceRegistry (D : Type) where
  id : Bytes
  config : List (FullConfig D)

section Registry

variable {D : Type}

def instanceInit : InstanceRegistry D :=
  ⟨List.replicate (instanceIdMax * instanceRegistryMax) 0, []⟩

/-- What is read behind the last row. -/
def InstanceRegistry.behind (reg : InstanceRegistry D) : Bytes :=
  ((reg.config.head?.map fun cfg ↦ cfg.provider.provider).getD []) ++ [0]

/-- The string that begins in a row. -/
def InstanceRegistry.rowText (reg : InstanceRegistry D) (i : ℕ) : Bytes :=
  ofBuffer (reg.id.drop (instanceIdMax * i) ++ reg.behind)

def InstanceRegistry.rows (reg : InstanceRegistry D) : SlotArray Bytes :=
  ⟨reg.rowText, reg.config.length⟩

def instanceRegister (reg : InstanceRegistry D) (instanceId : Bytes) (config : FullConfig D) :
    Option (InstanceRegistry D) :=
  match reg.rows.find fun row ↦ decide (row = instanceId) with
  | some i => some { reg with config := reg.config.set i config }
  | none =>
      if instanceRegistryMax ≤ reg.config.length then none
      else
        let len := instanceId.length
        let len := if instanceIdMax ≤ len then instanceIdMax - 1 else len
        let offset := instanceIdMax * reg.config.length
        some
          { id := poke reg.id offset ((instanceId ++ [0]).take (len + 1))
            config := reg.config ++ [config] }

def instanceGetConfig (reg : InstanceRegistry D) (instanceId : Bytes) : Option (FullConfig D) :=
  let lookup := if instanceId = [] then ascii "default" else instanceId
  (reg.rows.find fun row ↦ decide (row = lookup)).bind fun i ↦ reg.config[i]?

/-- The registry after a sequence of registrations. -/
def registerAll (calls : List (Bytes × FullConfig D)) : InstanceRegistry D :=
  calls.foldl (fun reg call ↦ (instanceRegister reg call.1 call.2).getD reg) instanceInit

/-! ## The map -/

/-- The configuration that was registered last. -/
def latest (calls : List (Bytes × FullConfig D)) (instanceId : Bytes) : Option (FullConfig D) :=
  lastWrite (fun call ↦ if call.1 = instanceId then some call.2 else none) calls

/-- A look-up finds what was registered last. -/
def RegistryIsMap (calls : List (Bytes × FullConfig D)) : Prop :=
  ∀ instanceId, instanceId ≠ [] → (0 : UInt8) ∉ instanceId →
    instanceGetConfig (registerAll calls) instanceId = latest calls instanceId

theorem latest_append_singleton (calls : List (Bytes × FullConfig D))
    (call : Bytes × FullConfig D) :
    latest (calls ++ [call]) = Function.update (latest calls) call.1 (some call.2) := by
  funext instanceId
  rw [latest, lastWrite_append_singleton]
  by_cases h : instanceId = call.1
  · subst h
    rw [Function.update_self, if_pos rfl]
    rfl
  · rw [Function.update_of_ne h, if_neg (Ne.symm h)]
    rfl

theorem latest_of_notMem {calls : List (Bytes × FullConfig D)} {instanceId : Bytes}
    (h : instanceId ∉ calls.map Prod.fst) : latest calls instanceId = none :=
  lastWrite_eq_none fun call hcall ↦ if_neg fun heq ↦ h (List.mem_map.mpr ⟨call, hcall, heq⟩)

/-! ## The rows -/

/-- The registry has a row for each name. -/
structure Stores (reg : InstanceRegistry D) (names : List Bytes)
    (calls : List (Bytes × FullConfig D)) : Prop where
  id : reg.id = table instanceIdMax instanceRegistryMax names
  config : reg.config.map some = names.map (latest calls)
  length : names.length ≤ instanceRegistryMax

variable {reg : InstanceRegistry D} {names : List Bytes} {calls : List (Bytes × FullConfig D)}
  {instanceId : Bytes} {i : ℕ}

theorem Stores.length_config (h : Stores reg names calls) : reg.config.length = names.length := by
  simpa using congrArg List.length h.config

theorem Stores.count_rows (h : Stores reg names calls) : reg.rows.count = names.length :=
  h.length_config

theorem Stores.getElem?_config (h : Stores reg names calls) (hi : names[i]? = some instanceId) :
    reg.config[i]? = latest calls instanceId := by
  have hget : (reg.config.map some)[i]? = some (latest calls instanceId) := by
    rw [h.config, List.getElem?_map, hi]
    rfl
  rw [List.getElem?_map] at hget
  cases hcfg : reg.config[i]? with
  | none => simp [hcfg] at hget
  | some cfg => simpa [hcfg] using hget

theorem Stores.rowText_eq (h : Stores reg names calls) (hi : names[i]? = some instanceId) :
    reg.rowText i = ofBuffer (row instanceIdMax instanceId ++
      (reg.id.drop (instanceIdMax * (i + 1)) ++ reg.behind)) := by
  obtain ⟨hlt, hget⟩ := List.getElem?_eq_some_iff.mp hi
  have hlen := h.length
  have hrows : instanceRegistryMax - i = instanceRegistryMax - (i + 1) + 1 := by omega
  rw [InstanceRegistry.rowText, h.id, drop_table hlt.le, drop_table hlt,
    List.drop_eq_getElem_cons hlt, hget, hrows, table_cons, List.append_assoc]

theorem Stores.rowText_of_lt (h : Stores reg names calls) (hi : names[i]? = some instanceId)
    (hnul : (0 : UInt8) ∉ instanceId) (hlt : instanceId.length < instanceIdMax) :
    reg.rowText i = instanceId := by
  rw [h.rowText_eq hi, ofBuffer_row_of_lt hnul hlt]

theorem Stores.rowText_of_le (h : Stores reg names calls) (hi : names[i]? = some instanceId)
    (hnul : (0 : UInt8) ∉ instanceId) (hle : instanceIdMax ≤ instanceId.length) :
    reg.rowText i = instanceId.take instanceIdMax ++ reg.rowText (i + 1) := by
  rw [h.rowText_eq hi, ofBuffer_row_of_le hnul hle]
  rfl

theorem Stores.rowText_length (h : Stores reg names calls) :
    reg.rowText names.length =
      if names.length < instanceRegistryMax then [] else ofBuffer reg.behind := by
  rw [InstanceRegistry.rowText, h.id, drop_table le_rfl, List.drop_length]
  split_ifs with hlt
  · exact ofBuffer_table_nil (by rw [instanceIdMax]; omega) _
  · rw [Nat.sub_eq_zero_of_le (by omega), table]
    rfl

theorem Stores.rowText_ne_nil (h : Stores reg names calls) (hi : names[i]? = some instanceId)
    (hnul : (0 : UInt8) ∉ instanceId) (hne : instanceId ≠ []) : reg.rowText i ≠ [] := by
  rcases Nat.lt_or_ge instanceId.length instanceIdMax with hlt | hle
  · rwa [h.rowText_of_lt hi hnul hlt]
  · rw [h.rowText_of_le hi hnul hle]
    intro hnil
    have hlen := congrArg List.length (List.append_eq_nil_iff.mp hnil).1
    rw [List.length_take_of_le hle] at hlen
    cases hlen

/-! ## Names that fit -/

/-- Every name is shorter than its row; the last one may fill it when there is
another row behind. -/
def FitsRows (names : List Bytes) : Prop :=
  ∀ i instanceId, names[i]? = some instanceId → instanceId.length < instanceIdMax ∨
    (instanceId.length = instanceIdMax ∧ i + 1 = names.length ∧ i + 1 < instanceRegistryMax)

/-- The names of the rows: C strings that are not empty, each one once. -/
structure AreNames (names : List Bytes) : Prop where
  nul : ∀ name ∈ names, (0 : UInt8) ∉ name
  nonempty : ∀ name ∈ names, name ≠ []
  nodup : names.Nodup

theorem fitsRows_of_forall_lt (h : ∀ name ∈ names, name.length < instanceIdMax) : FitsRows names :=
  fun _ _ hi ↦ .inl (h _ (List.mem_of_getElem? hi))

theorem FitsRows.of_append {names names' : List Bytes} (h : FitsRows (names ++ names')) :
    FitsRows names := by
  intro i instanceId hi
  have hlt := (List.getElem?_eq_some_iff.mp hi).1
  rcases h i instanceId (by rwa [List.getElem?_append_left hlt]) with hshort | ⟨hlen, hlast, hmore⟩
  · exact .inl hshort
  · rw [List.length_append] at hlast
    exact .inr ⟨hlen, by omega, hmore⟩

/-- Names that fit are the strings that begin in the rows. -/
theorem Stores.entries_rows (h : Stores reg names calls) (hnames : AreNames names)
    (hfits : FitsRows names) : reg.rows.entries = names := by
  apply List.ext_getElem?
  intro i
  rw [SlotArray.entries, List.getElem?_map]
  rcases Nat.lt_or_ge i names.length with hlt | hge
  · have hi := List.getElem?_eq_getElem hlt
    have hnul := hnames.nul _ (List.getElem_mem hlt)
    have hrange : (List.range reg.rows.count)[i]? = some i :=
      List.getElem?_range (h.count_rows.symm ▸ hlt)
    rw [hrange, hi, Option.map_some]
    congr 1
    rcases hfits i _ hi with hshort | ⟨hlen, hlast, hmore⟩
    · exact h.rowText_of_lt hi hnul hshort
    · have hrow := h.rowText_of_le hi hnul hlen.ge
      rw [hlast, h.rowText_length, if_pos (hlast ▸ hmore), List.append_nil,
        List.take_of_length_le hlen.le] at hrow
      exact hrow
  · have hrange : (List.range reg.rows.count)[i]? = none := by
      rw [List.getElem?_eq_none_iff, List.length_range]
      exact h.count_rows.symm ▸ hge
    rw [hrange, List.getElem?_eq_none hge]
    rfl

theorem Stores.find_eq (h : Stores reg names calls) (hnames : AreNames names)
    (hfits : FitsRows names) (instanceId : Bytes) :
    (reg.rows.find fun row ↦ decide (row = instanceId)) =
      if instanceId ∈ names then some (names.idxOf instanceId) else none := by
  rw [SlotArray.find_eq_findIdx?, h.entries_rows hnames hfits]
  split_ifs with hmem
  · rw [List.findIdx?_eq_some_of_exists ⟨instanceId, hmem, by simp⟩]
    congr 1
    rw [List.idxOf]
    congr 1
    funext name
    exact (beq_eq_decide name instanceId).symm
  · rw [List.findIdx?_eq_none_iff]
    intro name hname
    simpa using fun heq : name = instanceId ↦ hmem (heq ▸ hname)

/-- Registering a name again replaces its configuration. -/
theorem Stores.register_again (h : Stores reg names calls) (hnames : AreNames names)
    (hfits : FitsRows names) (hmem : instanceId ∈ names) (cfg : FullConfig D) :
    ∃ reg', instanceRegister reg instanceId cfg = some reg' ∧
      Stores reg' names (calls ++ [(instanceId, cfg)]) := by
  have hfind := h.find_eq hnames hfits instanceId
  rw [if_pos hmem] at hfind
  refine ⟨{ reg with config := reg.config.set (names.idxOf instanceId) cfg },
    by rw [instanceRegister, hfind], h.id, ?_, h.length⟩
  rw [latest_append_singleton, hnames.nodup.map_update, if_pos hmem, ← h.config, List.map_set]
  congr 2
  exact lawful_beq_subsingleton _ _

/-- A new name takes the next row. -/
theorem Stores.register_new (h : Stores reg names calls) (hnames : AreNames names)
    (hfits : FitsRows names) (hmem : instanceId ∉ names)
    (hroom : names.length < instanceRegistryMax) (cfg : FullConfig D) :
    ∃ reg', instanceRegister reg instanceId cfg = some reg' ∧
      Stores reg' (names ++ [instanceId]) (calls ++ [(instanceId, cfg)]) := by
  have hfind := h.find_eq hnames hfits instanceId
  have hcount := h.length_config
  rw [if_neg hmem] at hfind
  have hcopied : ∀ len, len = (if instanceIdMax ≤ instanceId.length then instanceIdMax - 1
      else instanceId.length) →
      (instanceId ++ [0]).take (len + 1) = (instanceId ++ [0]).take instanceIdMax := by
    rintro _ rfl
    split_ifs with hle
    · rfl
    · rw [List.take_of_length_le (by simp), List.take_of_length_le (by simp; omega)]
  have hregister : instanceRegister reg instanceId cfg =
      some ⟨poke reg.id (instanceIdMax * reg.config.length)
        ((instanceId ++ [0]).take instanceIdMax), reg.config ++ [cfg]⟩ := by
    rw [instanceRegister, hfind]
    dsimp only
    rw [if_neg (by omega), hcopied _ rfl]
  refine ⟨_, hregister, ?_, ?_, ?_⟩
  · dsimp only
    rw [h.id, hcount, poke_table hroom]
  · dsimp only
    rw [latest_append_singleton, List.map_append, List.map_append, hnames.nodup.map_update,
      if_neg hmem, h.config]
    simp
  · rw [List.length_append, List.length_singleton]
    omega

/-! ## Runs -/

theorem eraseDups_append_singleton (ids : List Bytes) (instanceId : Bytes) :
    (ids ++ [instanceId]).eraseDups =
      if instanceId ∈ ids then ids.eraseDups else ids.eraseDups ++ [instanceId] := by
  rw [List.eraseDups_append]
  split_ifs with hmem
  · simp [List.removeAll, hmem]
  · simp [List.removeAll, hmem, List.eraseDups_cons]

theorem nodup_eraseDups (ids : List Bytes) : ids.eraseDups.Nodup := by
  induction ids using List.reverseRecOn with
  | nil => exact List.nodup_nil
  | append_singleton ids instanceId ih =>
      rw [eraseDups_append_singleton]
      split_ifs with hmem
      · exact ih
      · exact ih.append (List.nodup_singleton _) (by simpa using hmem)

/-- The ids of the calls are C strings that are not empty. -/
def AreIds (ids : List Bytes) : Prop := ∀ id ∈ ids, id ≠ [] ∧ (0 : UInt8) ∉ id

theorem AreIds.areNames {ids : List Bytes} (h : AreIds ids) : AreNames ids.eraseDups where
  nul name hname := (h name (List.mem_eraseDups.mp hname)).2
  nonempty name hname := (h name (List.mem_eraseDups.mp hname)).1
  nodup := nodup_eraseDups ids

theorem registerAll_append_singleton (calls : List (Bytes × FullConfig D))
    (call : Bytes × FullConfig D) :
    registerAll (calls ++ [call]) =
      (instanceRegister (registerAll calls) call.1 call.2).getD (registerAll calls) := by
  rw [registerAll, List.foldl_append]
  rfl

theorem stores_instanceInit : Stores (D := D) instanceInit [] [] where
  id := rfl
  config := rfl
  length := by decide

/-- As long as the names fit, every call updates the row of its name. -/
theorem stores_append_singleton {ids : List Bytes} (hids : AreIds ids)
    (h : Stores (registerAll calls) ids.eraseDups calls) (hfits : FitsRows ids.eraseDups)
    (call : Bytes × FullConfig D)
    (hcount : (ids ++ [call.1]).eraseDups.length ≤ instanceRegistryMax) :
    Stores (registerAll (calls ++ [call])) (ids ++ [call.1]).eraseDups (calls ++ [call]) := by
  rw [eraseDups_append_singleton] at hcount ⊢
  rw [registerAll_append_singleton]
  split_ifs at hcount ⊢ with hmem
  · obtain ⟨reg', hreg, hstores⟩ :=
      h.register_again hids.areNames hfits (List.mem_eraseDups.mpr hmem) call.2
    rwa [hreg, Option.getD_some]
  · have hroom : ids.eraseDups.length < instanceRegistryMax := by
      rw [List.length_append, List.length_singleton] at hcount
      omega
    obtain ⟨reg', hreg, hstores⟩ := h.register_new hids.areNames hfits
      (fun hname ↦ hmem (List.mem_eraseDups.mp hname)) hroom call.2
    rwa [hreg, Option.getD_some]

theorem length_eraseDups_le_append (ids ids' : List Bytes) :
    ids.eraseDups.length ≤ (ids ++ ids').eraseDups.length := by
  rw [List.eraseDups_append, List.length_append]
  exact Nat.le_add_right _ _

theorem fitsRows_eraseDups_of_append {ids ids' : List Bytes}
    (h : FitsRows (ids ++ ids').eraseDups) : FitsRows ids.eraseDups := by
  rw [List.eraseDups_append] at h
  exact h.of_append

theorem AreIds.of_append {ids ids' : List Bytes} (h : AreIds (ids ++ ids')) : AreIds ids :=
  fun id hid ↦ h id (List.mem_append_left _ hid)

theorem stores_registerAll (hids : AreIds (calls.map Prod.fst))
    (hcount : (calls.map Prod.fst).eraseDups.length ≤ instanceRegistryMax)
    (hfits : FitsRows (calls.map Prod.fst).eraseDups) :
    Stores (registerAll calls) (calls.map Prod.fst).eraseDups calls := by
  induction calls using List.reverseRecOn with
  | nil => exact stores_instanceInit
  | append_singleton calls call ih =>
      rw [List.map_append, List.map_singleton] at hids hcount hfits ⊢
      have hfits' := fitsRows_eraseDups_of_append hfits
      exact stores_append_singleton hids.of_append
        (ih hids.of_append ((length_eraseDups_le_append _ _).trans hcount) hfits') hfits' call
        hcount

/-- The registry is a map while the names fit. -/
theorem registryIsMap_of_fitsRows (hids : AreIds (calls.map Prod.fst))
    (hcount : (calls.map Prod.fst).eraseDups.length ≤ instanceRegistryMax)
    (hfits : FitsRows (calls.map Prod.fst).eraseDups) : RegistryIsMap calls := by
  have hstores := stores_registerAll hids hcount hfits
  intro instanceId hne _
  rw [instanceGetConfig, if_neg hne, hstores.find_eq hids.areNames hfits]
  split_ifs with hmem
  · exact hstores.getElem?_config (List.getElem?_idxOf hmem)
  · rw [latest_of_notMem fun h ↦ hmem (List.mem_eraseDups.mpr h)]
    rfl

/-! ## Names that do not fit -/

/-- A configuration that names the instance it is for. -/
def labelled (cfg : FullConfig D) (provider instanceId : Bytes) : FullConfig D :=
  { cfg with provider := { cfg.provider with provider := provider, model := instanceId } }

def labelledCalls (cfg : FullConfig D) (provider : Bytes) (ids : List Bytes) :
    List (Bytes × FullConfig D) :=
  ids.map fun id ↦ (id, labelled cfg provider id)

theorem map_fst_labelledCalls (cfg : FullConfig D) (provider : Bytes) (ids : List Bytes) :
    (labelledCalls cfg provider ids).map Prod.fst = ids := by
  rw [labelledCalls, List.map_map]
  exact List.map_id ids

theorem labelledCalls_append_singleton (cfg : FullConfig D) (provider : Bytes) (ids : List Bytes)
    (instanceId : Bytes) :
    labelledCalls cfg provider (ids ++ [instanceId]) =
      labelledCalls cfg provider ids ++ [(instanceId, labelled cfg provider instanceId)] := by
  rw [labelledCalls, List.map_append]
  rfl

theorem latest_labelledCalls (cfg : FullConfig D) (provider : Bytes) {ids : List Bytes}
    (hmem : instanceId ∈ ids) :
    latest (labelledCalls cfg provider ids) instanceId =
      some (labelled cfg provider instanceId) := by
  induction ids using List.reverseRecOn with
  | nil => exact absurd hmem List.not_mem_nil
  | append_singleton ids id ih =>
      rw [labelledCalls_append_singleton, latest_append_singleton]
      by_cases heq : instanceId = id
      · subst heq
        exact Function.update_self _ _ _
      · rw [Function.update_of_ne heq]
        exact ih ((List.mem_append.mp hmem).resolve_right fun h ↦ heq (List.mem_singleton.mp h))

/-- A name that is found is the string that begins in its own row. -/
theorem exists_row {cfg : FullConfig D} {provider : Bytes} {ids : List Bytes} (hids : AreIds ids)
    (h : Stores (registerAll (labelledCalls cfg provider ids)) ids.eraseDups
      (labelledCalls cfg provider ids))
    (hmap : RegistryIsMap (labelledCalls cfg provider ids)) (hmem : instanceId ∈ ids) :
    ∃ j, ids.eraseDups[j]? = some instanceId ∧
      (registerAll (labelledCalls cfg provider ids)).rowText j = instanceId := by
  obtain ⟨hne, hnul⟩ := hids instanceId hmem
  have hget := hmap instanceId hne hnul
  rw [latest_labelledCalls cfg provider hmem, instanceGetConfig, if_neg hne] at hget
  obtain ⟨j, hfind, hcfg⟩ := Option.bind_eq_some_iff.mp hget
  have hrow : (registerAll (labelledCalls cfg provider ids)).rowText j = instanceId := by
    have hslot := List.find?_some hfind
    exact of_decide_eq_true hslot
  have hj : j < ids.eraseDups.length := by
    have hrange := List.mem_range.mp (List.mem_of_find?_eq_some hfind)
    rwa [h.count_rows] at hrange
  obtain ⟨name, hname⟩ : ∃ name, ids.eraseDups[j]? = some name :=
    ⟨_, List.getElem?_eq_getElem hj⟩
  have hmem' : name ∈ ids := List.mem_eraseDups.mp (List.mem_of_getElem? hname)
  rw [h.getElem?_config hname, latest_labelledCalls cfg provider hmem'] at hcfg
  obtain rfl : name = instanceId :=
    congrArg (fun c : FullConfig D ↦ c.provider.model) (Option.some.inj hcfg)
  exact ⟨j, hname, hrow⟩

/-- Behind the last row stands the provider of the first configuration. -/
theorem ofBuffer_behind {cfg : FullConfig D} {provider : Bytes} {ids : List Bytes}
    (h : Stores (registerAll (labelledCalls cfg provider ids)) ids.eraseDups
      (labelledCalls cfg provider ids))
    (hnul : (0 : UInt8) ∉ provider) (hne : ids.eraseDups ≠ []) :
    ofBuffer (registerAll (labelledCalls cfg provider ids)).behind = provider := by
  obtain ⟨name, names, hnames⟩ := List.exists_cons_of_ne_nil hne
  have hname : ids.eraseDups[0]? = some name := by rw [hnames]; rfl
  have hmem : name ∈ ids := List.mem_eraseDups.mp (List.mem_of_getElem? hname)
  have hconfig := h.getElem?_config hname
  rw [latest_labelledCalls cfg provider hmem, ← List.head?_eq_getElem?] at hconfig
  rw [InstanceRegistry.behind, hconfig]
  exact ofBuffer_append_zero hnul []

theorem stores_labelledCalls {ids : List Bytes} (cfg : FullConfig D) (provider : Bytes)
    (hids : AreIds (ids ++ [instanceId])) (hfits : FitsRows ids.eraseDups)
    (hcount : (ids ++ [instanceId]).eraseDups.length ≤ instanceRegistryMax) :
    Stores (registerAll (labelledCalls cfg provider (ids ++ [instanceId])))
      (ids ++ [instanceId]).eraseDups (labelledCalls cfg provider (ids ++ [instanceId])) := by
  have hbefore : Stores (registerAll (labelledCalls cfg provider ids)) ids.eraseDups
      (labelledCalls cfg provider ids) := by
    have hfst := map_fst_labelledCalls cfg provider ids
    have hstores := @stores_registerAll D (labelledCalls cfg provider ids)
    rw [hfst] at hstores
    exact hstores hids.of_append ((length_eraseDups_le_append _ _).trans hcount) hfits
  rw [labelledCalls_append_singleton]
  exact stores_append_singleton hids.of_append hbefore hfits _ hcount

section LongNames

variable {ids : List Bytes} {new name : Bytes} (cfg : FullConfig D)
  (hids : AreIds (ids ++ [new])) (hfits : FitsRows ids.eraseDups)
  (hcount : (ids ++ [new]).eraseDups.length ≤ instanceRegistryMax)
  (hmap : ∀ calls : List (Bytes × FullConfig D), calls.map Prod.fst = ids ++ [new] →
    RegistryIsMap calls)

include cfg hids hfits hcount hmap

/-- The row of a long name holds what stands behind it as well. -/
theorem length_of_long_name (hi : (ids ++ [new]).eraseDups[i]? = some name)
    (hlong : instanceIdMax ≤ name.length) (provider : Bytes) :
    name.length = instanceIdMax +
      ((registerAll (labelledCalls cfg provider (ids ++ [new]))).rowText (i + 1)).length := by
  have hstores := stores_labelledCalls cfg provider hids hfits hcount
  have hname : name ∈ ids ++ [new] := List.mem_eraseDups.mp (List.mem_of_getElem? hi)
  have hlt := (List.getElem?_eq_some_iff.mp hi).1
  obtain ⟨j, hj, htext⟩ := exists_row hids hstores
    (hmap _ (map_fst_labelledCalls cfg provider _)) hname
  obtain rfl : i = j :=
    (List.getElem?_inj hlt (nodup_eraseDups _)).mp (hi.trans hj.symm)
  have hsplit := congrArg List.length (hstores.rowText_of_le hj (hids name hname).2 hlong)
  rwa [htext, List.length_append, List.length_take_of_le hlong] at hsplit

/-- A long name has no name behind it. -/
theorem long_name_is_last (hmem : new ∉ ids) (hi : (ids ++ [new]).eraseDups[i]? = some name)
    (hlong : instanceIdMax ≤ name.length) : i + 1 = (ids ++ [new]).eraseDups.length := by
  have hnames : (ids ++ [new]).eraseDups = ids.eraseDups ++ [new] := by
    rw [eraseDups_append_singleton, if_neg hmem]
  have hlt := (List.getElem?_eq_some_iff.mp hi).1
  by_contra hnot
  have hold : i < ids.eraseDups.length := by
    rw [hnames, List.length_append, List.length_singleton] at hlt hnot
    omega
  have hi' : ids.eraseDups[i]? = some name := by
    rwa [hnames, List.getElem?_append_left hold] at hi
  obtain ⟨hlen, -, -⟩ := (hfits i name hi').resolve_left (Nat.not_lt.mpr hlong)
  obtain ⟨next, hnext⟩ : ∃ next, (ids ++ [new]).eraseDups[i + 1]? = some next :=
    ⟨_, List.getElem?_eq_getElem (by omega)⟩
  obtain ⟨hne, hnul⟩ := hids next (List.mem_eraseDups.mp (List.mem_of_getElem? hnext))
  have hstores := stores_labelledCalls cfg [] hids hfits hcount
  have hpos := List.length_pos_iff.mpr (hstores.rowText_ne_nil hnext hnul hne)
  have hsum := length_of_long_name cfg hids hfits hcount hmap hi hlong []
  omega

/-- A long last name fills its row, and there is another row. -/
theorem long_last_name (hi : (ids ++ [new]).eraseDups[i]? = some name)
    (hlong : instanceIdMax ≤ name.length) (hlast : i + 1 = (ids ++ [new]).eraseDups.length) :
    name.length = instanceIdMax ∧ i + 1 < instanceRegistryMax := by
  have hsum := length_of_long_name cfg hids hfits hcount hmap hi hlong
  have hstores := fun provider ↦ stores_labelledCalls cfg provider hids hfits hcount
  rw [hlast] at hsum ⊢
  rcases Nat.lt_or_ge (ids ++ [new]).eraseDups.length instanceRegistryMax with hroom | hfull
  · have hempty := hsum []
    rw [(hstores []).rowText_length, if_pos hroom, List.length_nil] at hempty
    exact ⟨hempty, hroom⟩
  · -- behind the last row the name would depend on a provider
    have hne : (ids ++ [new]).eraseDups ≠ [] := List.ne_nil_of_length_eq_add_one hlast.symm
    have hbehind : ∀ provider : Bytes, (0 : UInt8) ∉ provider →
        name.length = instanceIdMax + provider.length := by
      intro provider hprovider
      have hlen := hsum provider
      rwa [(hstores provider).rowText_length, if_neg (by omega),
        ofBuffer_behind (hstores provider) hprovider hne] at hlen
    have hempty := hbehind [] List.not_mem_nil
    have hone := hbehind [1] (by decide)
    rw [List.length_nil] at hempty
    rw [List.length_singleton] at hone
    omega

end LongNames

/-- If the registry is a map whatever the configurations are, the names fit. -/
theorem fitsRows_of_registryIsMap (cfg : FullConfig D) {ids : List Bytes} (hids : AreIds ids)
    (hcount : ids.eraseDups.length ≤ instanceRegistryMax)
    (hmap : ∀ calls : List (Bytes × FullConfig D), calls.map Prod.fst = ids →
      ∀ prior, prior <+: calls → RegistryIsMap prior) : FitsRows ids.eraseDups := by
  induction ids using List.reverseRecOn with
  | nil => exact fun i _ hi ↦ absurd hi (by simp)
  | append_singleton ids new ih =>
      have hfits : FitsRows ids.eraseDups := by
        refine ih hids.of_append ((length_eraseDups_le_append _ _).trans hcount) ?_
        intro calls hcalls prior hprior
        exact hmap (calls ++ [(new, cfg)]) (by simp [hcalls]) prior
          (hprior.trans (List.prefix_append _ _))
      have hwhole : ∀ calls : List (Bytes × FullConfig D), calls.map Prod.fst = ids ++ [new] →
          RegistryIsMap calls := fun calls hcalls ↦ hmap calls hcalls calls List.prefix_rfl
      by_cases hmem : new ∈ ids
      · rwa [eraseDups_append_singleton, if_pos hmem]
      intro i name hi
      rcases Nat.lt_or_ge name.length instanceIdMax with hshort | hlong
      · exact .inl hshort
      · have hlast := long_name_is_last cfg hids hfits hcount hwhole hmem hi hlong
        obtain ⟨hlen, hroom⟩ := long_last_name cfg hids hfits hcount hwhole hi hlong hlast
        exact .inr ⟨hlen, hlast, hroom⟩

/-- For the ids of a sequence of calls: the registry is a map after every call,
whatever is registered, exactly when the names fit their rows. -/
theorem registryIsMap_iff [Inhabited (FullConfig D)] {ids : List Bytes} (hids : AreIds ids)
    (hcount : ids.eraseDups.length ≤ instanceRegistryMax) :
    (∀ calls : List (Bytes × FullConfig D), calls.map Prod.fst = ids →
      ∀ prior, prior <+: calls → RegistryIsMap prior) ↔ FitsRows ids.eraseDups := by
  refine ⟨fitsRows_of_registryIsMap default hids hcount, ?_⟩
  rintro hfits calls rfl prior ⟨more, rfl⟩
  rw [List.map_append] at hids hcount hfits
  exact registryIsMap_of_fitsRows hids.of_append
    ((length_eraseDups_le_append _ _).trans hcount) (fitsRows_eraseDups_of_append hfits)

end Registry

/-- Two instances, one of them registered twice. -/
def twoWorkers : List (Bytes × FullConfig ℕ) :=
  [(ascii "default", default), (ascii "worker-7", default),
    (ascii "default", labelled default (ascii "openai") [])]

theorem registryIsMap_twoWorkers : RegistryIsMap twoWorkers := by
  have hids : AreIds (twoWorkers.map Prod.fst) := by
    change ∀ id ∈ [ascii "default", ascii "worker-7", ascii "default"], id ≠ [] ∧ (0 : UInt8) ∉ id
    decide
  have hfits : FitsRows (twoWorkers.map Prod.fst).eraseDups := fitsRows_of_forall_lt (by decide)
  exact (registryIsMap_iff hids (by decide)).mpr hfits twoWorkers rfl twoWorkers List.prefix_rfl

/-- An id of sixty-five bytes is registered and not found. -/
theorem long_id_not_found :
    ¬ RegistryIsMap [(List.replicate 65 97, (default : FullConfig ℕ))] := by
  intro h
  have hfound := h (List.replicate 65 97) (by decide) (by decide)
  have hlatest : (latest [(List.replicate 65 97, (default : FullConfig ℕ))]
      (List.replicate 65 97)).isSome = true := rfl
  have hget : (instanceGetConfig (registerAll [(List.replicate 65 97, (default : FullConfig ℕ))])
      (List.replicate 65 97)).isSome = false := by decide +kernel
  rw [hfound, hlatest] at hget
  cases hget

end DoctorClaw
