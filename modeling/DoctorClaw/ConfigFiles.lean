import DoctorClaw.ConfigFiles.Auth
import DoctorClaw.ConfigFiles.Managers

/-!
# Profile, skill and service files

None of the three readers recognises the keys its writer writes, so a file
brings back nothing.
-/

namespace DoctorClaw

/-- Saving and loading restores the profiles, the skills and the services only
when there are none. -/
theorem configFiles_restored_iff {authCalls : List AuthCall} {skillCalls : List SkillCall}
    {serviceCalls : List ServiceCall} (hauth : ∀ call ∈ authCalls, call.Fits)
    (hskill : ∀ call ∈ skillCalls, call.Fits) (hservice : ∀ call ∈ serviceCalls, call.Fits) :
    (AuthRestored (authAfter authCalls) ↔
        (authAfter authCalls).profiles.count = 0 ∧ (authAfter authCalls).activeProfile = []) ∧
      (SkillsRestored (skillsAfter skillCalls) ↔ (skillsAfter skillCalls).count = 0) ∧
      (ServicesRestored (servicesAfter serviceCalls) ↔ (servicesAfter serviceCalls).count = 0) :=
  ⟨authRestored_iff (authAfter_isText hauth), skillsRestored_iff (skillsAfter_isText hskill),
    servicesRestored_iff (servicesAfter_isText hservice)⟩

/-- One profile that was made active. -/
def savedProfile : List AuthCall :=
  [.add (ascii "saved") .openrouter (ascii "saved-key"), .setActive (ascii "saved")]

def greetSkill : List SkillCall :=
  [.add (ascii "greet") (some (ascii "says hello")) .tool (ascii "/opt/greet")]

def clockService : List ServiceCall := [.register (ascii "clock") (ascii "/bin/date") none]

theorem configFiles_restored_one :
    (AuthRestored (authAfter savedProfile) ↔
        (authAfter savedProfile).profiles.count = 0 ∧
          (authAfter savedProfile).activeProfile = []) ∧
      (SkillsRestored (skillsAfter greetSkill) ↔ (skillsAfter greetSkill).count = 0) ∧
      (ServicesRestored (servicesAfter clockService) ↔ (servicesAfter clockService).count = 0) :=
  configFiles_restored_iff (by decide) (by decide) (by decide)

/-- The saved profile is lost. -/
theorem savedProfile_not_restored :
    (∀ call ∈ savedProfile, call.Fits) ∧ ¬ AuthRestored (authAfter savedProfile) := by
  have hfits : ∀ call ∈ savedProfile, call.Fits := by decide
  refine ⟨hfits, fun h ↦ ?_⟩
  rw [authRestored_iff (authAfter_isText hfits)] at h
  exact absurd h.1 (by decide)

end DoctorClaw
