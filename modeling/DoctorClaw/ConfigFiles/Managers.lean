import DoctorClaw.ConfigFiles.Reader
import DoctorClaw.Lib.SlotArray
import Mathlib.Data.List.Induction

/-!
# Skills and services

The tables of the skills manager and of the service manager, the operations on
them and their files.
-/

namespace DoctorClaw

open CString

/-! ## Skills -/

/-- `skill_type_t`. -/
inductive SkillType
  | tool
  | action
  | pipeline
  | none
  deriving DecidableEq

def skillTypeName : SkillType → Bytes
  | .tool => ascii "tool"
  | .action => ascii "action"
  | .pipeline => ascii "pipeline"
  | .none => ascii "unknown"

def skillTypeFromName (name : Bytes) : SkillType :=
  ([.tool, .action, .pipeline].find? fun t ↦ skillTypeName t = name).getD .none

/-- `skill_t`. -/
structure Skill where
  name : Bytes
  description : Bytes
  path : Bytes
  type : SkillType
  enabled : Bool
  deriving DecidableEq

def Skill.zero : Skill := ⟨[], [], [], .tool, false⟩

/-- `skills_manager_t`. -/
abbrev SkillsManager := SlotArray Skill

def skillsManagerInit : SkillsManager := ⟨fun _ ↦ Skill.zero, 0⟩

/-- What is returned, and the skills afterwards; without a description the slot
keeps the old one. -/
def skillsAdd (mgr : SkillsManager) (name : Bytes) (description : Option Bytes) (type : SkillType)
    (path : Bytes) : ℤ × SkillsManager :=
  if 64 ≤ mgr.count then (-1, mgr)
  else (0, mgr.extend fun old ↦
    { name := cut 64 name
      description := description.elim old.description (cut 256)
      path := cut 512 path
      type := type
      enabled := true })

def skillsRemove (mgr : SkillsManager) (name : Bytes) : ℤ × SkillsManager :=
  match mgr.find fun s ↦ s.name = name with
  | some i => (0, mgr.removeAt i)
  | none => (-1, mgr)

/-- `skills_enable` and `skills_disable`. -/
def skillsSetEnabled (enabled : Bool) (mgr : SkillsManager) (name : Bytes) : ℤ × SkillsManager :=
  match mgr.find fun s ↦ s.name = name with
  | some i => (0, mgr.modifyAt i fun s ↦ { s with enabled := enabled })
  | none => (-1, mgr)

def skillsEnable : SkillsManager → Bytes → ℤ × SkillsManager := skillsSetEnabled true

def skillsDisable : SkillsManager → Bytes → ℤ × SkillsManager := skillsSetEnabled false

def boolName (b : Bool) : Bytes := if b then ascii "true" else ascii "false"

def Skill.lines (s : Skill) : List Bytes :=
  [ascii "[skill]", assignLine "name" s.name, assignLine "description" s.description,
    assignLine "type" (skillTypeName s.type), assignLine "path" s.path,
    assignLine "enabled" (boolName s.enabled), []]

def skillsLines (mgr : SkillsManager) : List Bytes :=
  [ascii "# DoctorClaw Skills", []] ++ mgr.entries.flatMap Skill.lines

def skillsSave (mgr : SkillsManager) : Bytes := (skillsLines mgr).flatMap fun line ↦ line ++ [10]

/-- One assignment of the file, for the skill that is being read. -/
def skillsAssign (s : Skill) (p : Bytes × Bytes) : Skill :=
  if p.1 = ascii "name" then { s with name := cut 64 p.2 }
  else if p.1 = ascii "description" then { s with description := cut 256 p.2 }
  else if p.1 = ascii "type" then { s with type := skillTypeFromName p.2 }
  else if p.1 = ascii "path" then { s with path := cut 512 p.2 }
  else if p.1 = ascii "enabled" then { s with enabled := p.2 = ascii "true" }
  else s

def skillsLoad (mgr : SkillsManager) (file : Bytes) : SkillsManager :=
  let s := (readAssignments [35, 10, 91] file).foldl skillsAssign ⟨[], [], [], .tool, true⟩
  if s.name ≠ [] ∧ s.path ≠ [] then
    let mgr := (skillsAdd mgr s.name (some s.description) s.type s.path).2
    if s.enabled then mgr else (skillsDisable mgr s.name).2
  else mgr

inductive SkillCall
  | add (name : Bytes) (description : Option Bytes) (type : SkillType) (path : Bytes)
  | remove (name : Bytes)
  | setEnabled (enabled : Bool) (name : Bytes)

def SkillCall.perform (mgr : SkillsManager) : SkillCall → SkillsManager
  | add name description type path => (skillsAdd mgr name description type path).2
  | remove name => (skillsRemove mgr name).2
  | setEnabled enabled name => (skillsSetEnabled enabled mgr name).2

def SkillCall.Fits : SkillCall → Prop
  | add name description _ path =>
      IsFieldText name ∧ (∀ d ∈ description, IsFieldText d) ∧ IsFieldText path
  | remove _ => True
  | setEnabled _ _ => True

instance : DecidablePred SkillCall.Fits := fun call ↦
  match call with
  | .add _ _ _ _ => inferInstanceAs (Decidable (_ ∧ _ ∧ _))
  | .remove _ => inferInstanceAs (Decidable True)
  | .setEnabled _ _ => inferInstanceAs (Decidable True)

def skillsAfter (calls : List SkillCall) : SkillsManager :=
  calls.foldl SkillCall.perform skillsManagerInit

/-- The file brings back every skill. -/
def SkillsRestored (mgr : SkillsManager) : Prop :=
  (skillsLoad skillsManagerInit (skillsSave mgr)).entries = mgr.entries

structure Skill.IsText (s : Skill) : Prop where
  name : IsFieldText s.name
  description : IsFieldText s.description
  path : IsFieldText s.path

theorem skillsAfter_isText {calls : List SkillCall} (hfits : ∀ call ∈ calls, call.Fits) :
    (skillsAfter calls).All Skill.IsText := by
  refine List.foldlRecOn calls SkillCall.perform (motive := SlotArray.All Skill.IsText)
    (fun _ ↦ ⟨.nil, .nil, .nil⟩) fun mgr h call hcall ↦ ?_
  cases call with
  | add name description type path =>
      obtain ⟨hname, hdescription, hpath⟩ := hfits _ hcall
      change (skillsAdd mgr name description type path).2.All _
      unfold skillsAdd
      split_ifs
      · exact h
      · dsimp only
        refine h.extend fun old hold ↦ ⟨hname.cut _, ?_, hpath.cut _⟩
        cases description with
        | none => exact hold.description
        | some d => exact (hdescription d rfl).cut _
  | remove name =>
      change (skillsRemove mgr name).2.All _
      unfold skillsRemove
      split
      · exact h.removeAt _
      · exact h
  | setEnabled enabled name =>
      change (skillsSetEnabled enabled mgr name).2.All _
      unfold skillsSetEnabled
      split
      · dsimp only
        refine h.modifyAt ?_ _
        exact fun s hs ↦ ⟨hs.name, hs.description, hs.path⟩
      · exact h

theorem boolName_isText (b : Bool) : IsFieldText (boolName b) := by
  cases b <;> exact ⟨by decide, by decide, by decide⟩

theorem skillTypeName_isText (t : SkillType) : IsFieldText (skillTypeName t) := by
  cases t <;> exact ⟨by decide, by decide, by decide⟩

theorem skillsLines_foreign {mgr : SkillsManager} (h : mgr.All Skill.IsText) :
    ∀ line ∈ skillsLines mgr, IsForeignLine line := by
  intro line hline
  rcases List.mem_append.mp hline with hline | hline
  · simp only [List.mem_cons, List.not_mem_nil, or_false] at hline
    rcases hline with rfl | rfl <;> exact isForeignLine_of_none (by decide) (by decide) (by decide)
  · obtain ⟨s, hs, hline⟩ := List.mem_flatMap.mp hline
    have htext := h.of_mem hs
    simp only [Skill.lines, List.mem_cons, List.not_mem_nil, or_false] at hline
    rcases hline with rfl | rfl | rfl | rfl | rfl | rfl | rfl
    · exact isForeignLine_of_none (by decide) (by decide) (by decide)
    · exact isForeignLine_assign (by decide) htext.name
    · exact isForeignLine_assign (by decide) htext.description
    · exact isForeignLine_assign (by decide) (skillTypeName_isText _)
    · exact isForeignLine_assign (by decide) htext.path
    · exact isForeignLine_assign (by decide) (boolName_isText _)
    · exact isForeignLine_of_none (by decide) (by decide) (by decide)

theorem skillsAssign_foreign (s : Skill) (p : Bytes × Bytes)
    (hp : (32 : UInt8) ∈ p.1 ∨ (58 : UInt8) ∈ p.1) : skillsAssign s p = s := by
  unfold skillsAssign
  rw [if_neg (ne_of_foreign hp (by decide)), if_neg (ne_of_foreign hp (by decide)),
    if_neg (ne_of_foreign hp (by decide)), if_neg (ne_of_foreign hp (by decide)),
    if_neg (ne_of_foreign hp (by decide))]

theorem skillsRestored_iff {mgr : SkillsManager} (h : mgr.All Skill.IsText) :
    SkillsRestored mgr ↔ mgr.count = 0 := by
  have hload : skillsLoad skillsManagerInit (skillsSave mgr) = skillsManagerInit := by
    rw [skillsLoad, skillsSave, foldl_foreign skillsAssign_foreign (skillsLines_foreign h)]
    rfl
  unfold SkillsRestored
  rw [hload, ← SlotArray.entries_eq_nil_iff]
  exact eq_comm

/-! ## Services -/

/-- `service_t`, without the state of its process. -/
structure Service where
  name : Bytes
  executable : Bytes
  args : Bytes
  enabled : Bool
  deriving DecidableEq

def Service.zero : Service := ⟨[], [], [], false⟩

/-- `service_manager_t`. -/
abbrev ServiceManager := SlotArray Service

def serviceManagerInit : ServiceManager := ⟨fun _ ↦ Service.zero, 0⟩

/-- What is returned, and the services afterwards; without arguments the slot
keeps the old ones. -/
def serviceRegister (mgr : ServiceManager) (name executable : Bytes) (args : Option Bytes) :
    ℤ × ServiceManager :=
  if 32 ≤ mgr.count then (-1, mgr)
  else (0, mgr.extend fun old ↦
    { name := cut 64 name
      executable := cut 512 executable
      args := args.elim old.args (cut 1024)
      enabled := false })

def serviceUnregister (mgr : ServiceManager) (name : Bytes) : ℤ × ServiceManager :=
  match mgr.find fun s ↦ s.name = name with
  | some i => (0, mgr.removeAt i)
  | none => (-1, mgr)

/-- `service_enable` and `service_disable`. -/
def serviceSetEnabled (enabled : Bool) (mgr : ServiceManager) (name : Bytes) : ℤ × ServiceManager :=
  match mgr.find fun s ↦ s.name = name with
  | some i => (0, mgr.modifyAt i fun s ↦ { s with enabled := enabled })
  | none => (-1, mgr)

def serviceEnable : ServiceManager → Bytes → ℤ × ServiceManager := serviceSetEnabled true

def serviceDisable : ServiceManager → Bytes → ℤ × ServiceManager := serviceSetEnabled false

def Service.lines (s : Service) : List Bytes :=
  [ascii "[service]", assignLine "name" s.name, assignLine "executable" s.executable] ++
    (if s.args = [] then [] else [assignLine "args" s.args]) ++
    [assignLine "enabled" (boolName s.enabled), []]

def serviceLines (mgr : ServiceManager) : List Bytes :=
  [ascii "# DoctorClaw Services", []] ++ mgr.entries.flatMap Service.lines

def serviceManagerSave (mgr : ServiceManager) : Bytes :=
  (serviceLines mgr).flatMap fun line ↦ line ++ [10]

/-- One assignment of the file, for the service that is being read. -/
def serviceAssign (s : Service) (p : Bytes × Bytes) : Service :=
  if p.1 = ascii "name" then { s with name := cut 64 p.2 }
  else if p.1 = ascii "executable" then { s with executable := cut 512 p.2 }
  else if p.1 = ascii "args" then { s with args := cut 1024 p.2 }
  else if p.1 = ascii "enabled" then { s with enabled := p.2 = ascii "true" }
  else s

def serviceManagerLoad (mgr : ServiceManager) (file : Bytes) : ServiceManager :=
  let s := (readAssignments [35, 10, 91] file).foldl serviceAssign Service.zero
  if s.name ≠ [] ∧ s.executable ≠ [] then
    let mgr := (serviceRegister mgr s.name s.executable
      (if s.args = [] then none else some s.args)).2
    if s.enabled then (serviceEnable mgr s.name).2 else mgr
  else mgr

inductive ServiceCall
  | register (name executable : Bytes) (args : Option Bytes)
  | unregister (name : Bytes)
  | setEnabled (enabled : Bool) (name : Bytes)

def ServiceCall.perform (mgr : ServiceManager) : ServiceCall → ServiceManager
  | register name executable args => (serviceRegister mgr name executable args).2
  | unregister name => (serviceUnregister mgr name).2
  | setEnabled enabled name => (serviceSetEnabled enabled mgr name).2

def ServiceCall.Fits : ServiceCall → Prop
  | register name executable args =>
      IsFieldText name ∧ IsFieldText executable ∧ ∀ a ∈ args, IsFieldText a
  | unregister _ => True
  | setEnabled _ _ => True

instance : DecidablePred ServiceCall.Fits := fun call ↦
  match call with
  | .register _ _ _ => inferInstanceAs (Decidable (_ ∧ _ ∧ _))
  | .unregister _ => inferInstanceAs (Decidable True)
  | .setEnabled _ _ => inferInstanceAs (Decidable True)

def servicesAfter (calls : List ServiceCall) : ServiceManager :=
  calls.foldl ServiceCall.perform serviceManagerInit

/-- The file brings back every service. -/
def ServicesRestored (mgr : ServiceManager) : Prop :=
  (serviceManagerLoad serviceManagerInit (serviceManagerSave mgr)).entries = mgr.entries

structure Service.IsText (s : Service) : Prop where
  name : IsFieldText s.name
  executable : IsFieldText s.executable
  args : IsFieldText s.args

theorem servicesAfter_isText {calls : List ServiceCall} (hfits : ∀ call ∈ calls, call.Fits) :
    (servicesAfter calls).All Service.IsText := by
  refine List.foldlRecOn calls ServiceCall.perform (motive := SlotArray.All Service.IsText)
    (fun _ ↦ ⟨.nil, .nil, .nil⟩) fun mgr h call hcall ↦ ?_
  cases call with
  | register name executable args =>
      obtain ⟨hname, hexecutable, hargs⟩ := hfits _ hcall
      change (serviceRegister mgr name executable args).2.All _
      unfold serviceRegister
      split_ifs
      · exact h
      · dsimp only
        refine h.extend fun old hold ↦ ⟨hname.cut _, hexecutable.cut _, ?_⟩
        cases args with
        | none => exact hold.args
        | some a => exact (hargs a rfl).cut _
  | unregister name =>
      change (serviceUnregister mgr name).2.All _
      unfold serviceUnregister
      split
      · exact h.removeAt _
      · exact h
  | setEnabled enabled name =>
      change (serviceSetEnabled enabled mgr name).2.All _
      unfold serviceSetEnabled
      split
      · dsimp only
        refine h.modifyAt ?_ _
        exact fun s hs ↦ ⟨hs.name, hs.executable, hs.args⟩
      · exact h

theorem serviceLines_foreign {mgr : ServiceManager} (h : mgr.All Service.IsText) :
    ∀ line ∈ serviceLines mgr, IsForeignLine line := by
  intro line hline
  rcases List.mem_append.mp hline with hline | hline
  · simp only [List.mem_cons, List.not_mem_nil, or_false] at hline
    rcases hline with rfl | rfl <;> exact isForeignLine_of_none (by decide) (by decide) (by decide)
  · obtain ⟨s, hs, hline⟩ := List.mem_flatMap.mp hline
    have htext := h.of_mem hs
    simp only [Service.lines, List.mem_append, List.mem_cons, List.not_mem_nil, or_false] at hline
    rcases hline with ((rfl | rfl | rfl) | hline) | rfl | rfl
    · exact isForeignLine_of_none (by decide) (by decide) (by decide)
    · exact isForeignLine_assign (by decide) htext.name
    · exact isForeignLine_assign (by decide) htext.executable
    · split_ifs at hline
      · cases hline
      · rw [List.mem_singleton.mp hline]
        exact isForeignLine_assign (by decide) htext.args
    · exact isForeignLine_assign (by decide) (boolName_isText _)
    · exact isForeignLine_of_none (by decide) (by decide) (by decide)

theorem serviceAssign_foreign (s : Service) (p : Bytes × Bytes)
    (hp : (32 : UInt8) ∈ p.1 ∨ (58 : UInt8) ∈ p.1) : serviceAssign s p = s := by
  unfold serviceAssign
  rw [if_neg (ne_of_foreign hp (by decide)), if_neg (ne_of_foreign hp (by decide)),
    if_neg (ne_of_foreign hp (by decide)), if_neg (ne_of_foreign hp (by decide))]

theorem servicesRestored_iff {mgr : ServiceManager} (h : mgr.All Service.IsText) :
    ServicesRestored mgr ↔ mgr.count = 0 := by
  have hload : serviceManagerLoad serviceManagerInit (serviceManagerSave mgr) =
      serviceManagerInit := by
    rw [serviceManagerLoad, serviceManagerSave,
      foldl_foreign serviceAssign_foreign (serviceLines_foreign h)]
    rfl
  unfold ServicesRestored
  rw [hload, ← SlotArray.entries_eq_nil_iff]
  exact eq_comm

end DoctorClaw
