import DoctorClaw.ConfigFiles.Reader
import DoctorClaw.Lib.SlotArray
import Mathlib.Data.List.Induction

/-!
# Authentication profiles

The profiles of `auth_t`, the operations on them and their file.
-/

namespace DoctorClaw

open CString

/-- `auth_provider_t`. -/
inductive AuthProvider
  | openai
  | anthropic
  | openrouter
  | gemini
  | glm
  | ollama
  | llamacpp
  | none
  deriving DecidableEq

def authProviderName : AuthProvider → Bytes
  | .openai => ascii "openai"
  | .anthropic => ascii "anthropic"
  | .openrouter => ascii "openrouter"
  | .gemini => ascii "gemini"
  | .glm => ascii "glm"
  | .ollama => ascii "ollama"
  | .llamacpp => ascii "llamacpp"
  | .none => ascii "unknown"

def namedProviders : List AuthProvider :=
  [.openai, .anthropic, .openrouter, .gemini, .glm, .ollama, .llamacpp]

def authProviderFromName (name : Bytes) : AuthProvider :=
  (namedProviders.find? fun p ↦ authProviderName p = name).getD .none

/-- `auth_profile_t`. -/
structure AuthProfile where
  name : Bytes
  provider : AuthProvider
  apiKey : Bytes
  endpoint : Bytes
  active : Bool
  deriving DecidableEq

/-- The zeroed profile. -/
def AuthProfile.zero : AuthProfile := ⟨[], .openai, [], [], false⟩

/-- `auth_t`. -/
structure Auth where
  profiles : SlotArray AuthProfile
  activeProfile : Bytes

def authInit : Auth := ⟨⟨fun _ ↦ AuthProfile.zero, 0⟩, []⟩

def maxAuthProfiles : ℕ := 16

def maxProfileName : ℕ := 64

def maxApiKey : ℕ := 256

/-- What is returned, and the profiles afterwards. -/
def authAddProfile (auth : Auth) (name : Bytes) (provider : AuthProvider) (apiKey : Bytes) :
    ℤ × Auth :=
  if maxAuthProfiles ≤ auth.profiles.count then (-1, auth)
  else (0, { auth with profiles := auth.profiles.extend fun _ ↦
    { name := cut maxProfileName name
      provider := provider
      apiKey := cut maxApiKey apiKey
      endpoint := []
      active := false } })

def authRemoveProfile (auth : Auth) (name : Bytes) : ℤ × Auth :=
  match auth.profiles.find fun p ↦ p.name = name with
  | some i => (0, { auth with profiles := auth.profiles.removeAt i })
  | none => (-1, auth)

def authSetActive (auth : Auth) (name : Bytes) : ℤ × Auth :=
  (0,
    { profiles := auth.profiles.modifyAll fun p ↦ { p with active := p.name = name }
      activeProfile :=
        if auth.profiles.entries.any fun p ↦ p.name = name then cut maxProfileName name
        else auth.activeProfile })

/-- `auth_set_active` with the name of the active profile itself.  At the first
profile of this name `snprintf` prints the name over itself, which C leaves
undefined: here it is empty afterwards, and the later profiles are compared with
the empty name. -/
def authSetOwnActive (auth : Auth) : Auth :=
  let name := auth.activeProfile
  let first := auth.profiles.find fun p ↦ p.name = name
  let compared (j : ℕ) : Bytes := if first.all fun i ↦ j ≤ i then name else []
  { profiles :=
      ⟨fun j ↦
        if j < auth.profiles.count then
          { auth.profiles.slot j with active := (auth.profiles.slot j).name = compared j }
        else auth.profiles.slot j,
        auth.profiles.count⟩
    activeProfile := if first.isSome then [] else name }

/-! ## The file -/

def AuthProfile.lines (p : AuthProfile) : List Bytes :=
  [ascii "[profile]", assignLine "name" p.name, assignLine "provider" (authProviderName p.provider),
    assignLine "api_key" p.apiKey] ++
    (if p.endpoint = [] then [] else [assignLine "endpoint" p.endpoint]) ++ [[]]

/-- The lines that are written. -/
def Auth.lines (auth : Auth) : List Bytes :=
  [ascii "# DoctorClaw Auth Profiles", [], ascii "active_profile: " ++ auth.activeProfile, []] ++
    auth.profiles.entries.flatMap AuthProfile.lines

def authSave (auth : Auth) : Bytes := auth.lines.flatMap fun line ↦ line ++ [10]

/-- The profile that is being read. -/
structure CurrentProfile where
  name : Bytes
  provider : AuthProvider
  key : Bytes
  endpoint : Bytes

/-- One assignment of the file. -/
def authAssign (s : Auth × CurrentProfile) (p : Bytes × Bytes) : Auth × CurrentProfile :=
  if p.1 = ascii "active_profile" then
    ({ s.1 with activeProfile := cut maxProfileName p.2 }, s.2)
  else if p.1 = ascii "name" then (s.1, { s.2 with name := cut maxProfileName p.2 })
  else if p.1 = ascii "provider" then (s.1, { s.2 with provider := authProviderFromName p.2 })
  else if p.1 = ascii "api_key" then (s.1, { s.2 with key := cut maxApiKey p.2 })
  else if p.1 = ascii "endpoint" then (s.1, { s.2 with endpoint := cut 512 p.2 })
  else s

def authLoad (auth : Auth) (file : Bytes) : Auth :=
  let s := (readAssignments [35, 10] file).foldl authAssign (auth, ⟨[], .none, [], []⟩)
  if s.2.name ≠ [] ∧ s.2.key ≠ [] then
    let auth := (authAddProfile s.1 s.2.name s.2.provider s.2.key).2
    let auth :=
      if s.2.endpoint = [] then auth
      else { auth with profiles := auth.profiles.modifyAt (auth.profiles.count - 1) fun p ↦
        { p with endpoint := cut 512 s.2.endpoint } }
    authSetOwnActive auth
  else s.1

/-! ## Sequences of operations -/

inductive AuthCall
  | add (name : Bytes) (provider : AuthProvider) (apiKey : Bytes)
  | remove (name : Bytes)
  | setActive (name : Bytes)

def AuthCall.perform (auth : Auth) : AuthCall → Auth
  | add name provider apiKey => (authAddProfile auth name provider apiKey).2
  | remove name => (authRemoveProfile auth name).2
  | setActive name => (authSetActive auth name).2

def AuthCall.Fits : AuthCall → Prop
  | add name _ apiKey => IsFieldText name ∧ IsFieldText apiKey
  | remove _ => True
  | setActive name => IsFieldText name

instance : DecidablePred AuthCall.Fits := fun call ↦
  match call with
  | .add _ _ _ => inferInstanceAs (Decidable (_ ∧ _))
  | .remove _ => inferInstanceAs (Decidable True)
  | .setActive _ => inferInstanceAs (Decidable (IsFieldText _))

def authAfter (calls : List AuthCall) : Auth := calls.foldl AuthCall.perform authInit

/-- The file brings back every profile and the active one. -/
def AuthRestored (auth : Auth) : Prop :=
  (authLoad authInit (authSave auth)).profiles.entries = auth.profiles.entries ∧
    (authLoad authInit (authSave auth)).activeProfile = auth.activeProfile

/-! ## What the file says -/

/-- All texts can be written into a line. -/
structure AuthProfile.IsText (p : AuthProfile) : Prop where
  name : IsFieldText p.name
  apiKey : IsFieldText p.apiKey
  endpoint : IsFieldText p.endpoint

structure Auth.IsText (auth : Auth) : Prop where
  profiles : auth.profiles.All AuthProfile.IsText
  activeProfile : IsFieldText auth.activeProfile

theorem AuthProfile.isText_zero : AuthProfile.zero.IsText := ⟨.nil, .nil, .nil⟩

theorem Auth.IsText.perform {auth : Auth} (h : auth.IsText) {call : AuthCall} (hcall : call.Fits) :
    (call.perform auth).IsText := by
  cases call with
  | add name provider apiKey =>
      change (authAddProfile auth name provider apiKey).2.IsText
      unfold authAddProfile
      split_ifs
      · exact h
      · constructor
        · dsimp only
          exact h.profiles.extend fun _ _ ↦ ⟨hcall.1.cut _, hcall.2.cut _, .nil⟩
        · exact h.activeProfile
  | remove name =>
      change (authRemoveProfile auth name).2.IsText
      unfold authRemoveProfile
      split
      · exact ⟨h.profiles.removeAt _, h.activeProfile⟩
      · exact h
  | setActive name =>
      constructor
      · dsimp only [AuthCall.perform, authSetActive]
        exact h.profiles.modifyAll fun p hp ↦ ⟨hp.name, hp.apiKey, hp.endpoint⟩
      · change IsFieldText (if _ then _ else _)
        split_ifs
        · exact IsFieldText.cut hcall _
        · exact h.activeProfile

theorem authAfter_isText {calls : List AuthCall} (hfits : ∀ call ∈ calls, call.Fits) :
    (authAfter calls).IsText :=
  List.foldlRecOn calls AuthCall.perform (motive := Auth.IsText)
    ⟨fun _ ↦ AuthProfile.isText_zero, .nil⟩ fun _ h call hcall ↦ h.perform (hfits call hcall)

theorem authProviderName_isText (p : AuthProvider) : IsFieldText (authProviderName p) := by
  cases p <;> exact ⟨by decide, by decide, by decide⟩

theorem AuthProfile.IsText.foreign {p : AuthProfile} (h : p.IsText) :
    ∀ line ∈ p.lines, IsForeignLine line := by
  intro line hline
  simp only [AuthProfile.lines, List.mem_append, List.mem_cons, List.not_mem_nil, or_false] at hline
  rcases hline with ((rfl | rfl | rfl | rfl) | hline) | rfl
  · exact isForeignLine_of_none (by decide) (by decide) (by decide)
  · exact isForeignLine_assign (by decide) h.name
  · exact isForeignLine_assign (by decide) (authProviderName_isText _)
  · exact isForeignLine_assign (by decide) h.apiKey
  · split_ifs at hline
    · cases hline
    · rw [List.mem_singleton.mp hline]
      exact isForeignLine_assign (by decide) h.endpoint
  · exact isForeignLine_of_none (by decide) (by decide) (by decide)

theorem Auth.IsText.foreign {auth : Auth} (h : auth.IsText) :
    ∀ line ∈ auth.lines, IsForeignLine line := by
  intro line hline
  rcases List.mem_append.mp hline with hline | hline
  · simp only [List.mem_cons, List.not_mem_nil, or_false] at hline
    rcases hline with rfl | rfl | rfl | rfl
    · exact isForeignLine_of_none (by decide) (by decide) (by decide)
    · exact isForeignLine_of_none (by decide) (by decide) (by decide)
    · exact isForeignLine_append (by decide) (by decide) h.activeProfile.newline h.activeProfile.nul
        (h.activeProfile.length.trans (by decide))
    · exact isForeignLine_of_none (by decide) (by decide) (by decide)
  · obtain ⟨p, hp, hline⟩ := List.mem_flatMap.mp hline
    exact (h.profiles.of_mem hp).foreign line hline

theorem authAssign_foreign (s : Auth × CurrentProfile) (p : Bytes × Bytes)
    (hp : (32 : UInt8) ∈ p.1 ∨ (58 : UInt8) ∈ p.1) : authAssign s p = s := by
  unfold authAssign
  rw [if_neg (ne_of_foreign hp (by decide)), if_neg (ne_of_foreign hp (by decide)),
    if_neg (ne_of_foreign hp (by decide)), if_neg (ne_of_foreign hp (by decide)),
    if_neg (ne_of_foreign hp (by decide))]

/-- Nothing is read back from a saved file. -/
theorem authLoad_save {auth : Auth} (h : auth.IsText) (auth' : Auth) :
    authLoad auth' (authSave auth) = auth' := by
  rw [authLoad, authSave, foldl_foreign authAssign_foreign h.foreign]
  rfl

theorem authRestored_iff {auth : Auth} (h : auth.IsText) :
    AuthRestored auth ↔ auth.profiles.count = 0 ∧ auth.activeProfile = [] := by
  unfold AuthRestored
  rw [authLoad_save h, ← SlotArray.entries_eq_nil_iff]
  change [] = _ ∧ [] = _ ↔ _
  rw [eq_comm, @eq_comm Bytes]

end DoctorClaw
