import DoctorClaw.SecurityMonitor

/-!
# Injection patterns in any letter case

The scan looks for the patterns of its table in the body in lower case.  One
entry of the table has capital letters, so nothing matches it.
-/

namespace DoctorClaw

/-- The body contains the pattern, in whatever case its letters are. -/
def Mentions (pattern body : Bytes) : Prop := ∃ s, s <:+: body ∧ strcasecmp s pattern = true

theorem strcasecmp_iff {s t : Bytes} :
    strcasecmp s t = true ↔ s.map CString.tolower = t.map CString.tolower := by
  rw [strcasecmp, decide_eq_true_iff]

theorem tolower_tolower : ∀ c, CString.tolower (CString.tolower c) = CString.tolower c :=
  CString.forall_byte (by decide +kernel)

theorem tolower_eq_zero_iff : ∀ c, CString.tolower c = 0 ↔ c = 0 :=
  CString.forall_byte (by decide +kernel)

theorem containsInjectionPattern_iff (body : Bytes) :
    containsInjectionPattern body = true ↔ ∃ pattern ∈ injectionPatterns, pattern <:+:
      CString.ofBuffer ((body.take injectionScanLen).map CString.tolower) := by
  simp only [containsInjectionPattern, List.any_eq_true, CString.strstr_isSome_iff]

/-- Only a pattern in lower case is found in a text in lower case. -/
theorem infix_map_tolower_iff {pattern body : Bytes} :
    pattern <:+: body.map CString.tolower ↔
      pattern.map CString.tolower = pattern ∧ Mentions pattern body := by
  rw [List.infix_map_iff]
  constructor
  · rintro ⟨s, hs, rfl⟩
    have hlower : (s.map CString.tolower).map CString.tolower = s.map CString.tolower := by
      rw [List.map_map]
      exact List.map_congr_left fun c _ ↦ tolower_tolower c
    exact ⟨hlower, s, hs, strcasecmp_iff.mpr hlower.symm⟩
  · rintro ⟨hlower, s, hs, hcase⟩
    exact ⟨s, hs, hlower.symm.trans (strcasecmp_iff.mp hcase).symm⟩

theorem zero_notMem_map_tolower {body : Bytes} (h : (0 : UInt8) ∉ body) :
    (0 : UInt8) ∉ body.map CString.tolower := by
  rw [List.mem_map]
  rintro ⟨c, hc, hzero⟩
  exact h ((tolower_eq_zero_iff c).mp hzero ▸ hc)

theorem map_tolower_eq_self_iff :
    ∀ pattern ∈ injectionPatterns,
      pattern.map CString.tolower = pattern ↔ pattern ≠ ascii "DAN mode" := by
  decide

theorem containsInjectionPattern_iff_mentions {body : Bytes} (hzero : (0 : UInt8) ∉ body)
    (hlen : body.length ≤ injectionScanLen) :
    containsInjectionPattern body = true ↔
      ∃ pattern ∈ injectionPatterns, pattern ≠ ascii "DAN mode" ∧ Mentions pattern body := by
  rw [containsInjectionPattern_iff, List.take_of_length_le hlen,
    CString.ofBuffer_eq_self (zero_notMem_map_tolower hzero)]
  simp only [infix_map_tolower_iff]
  constructor
  · rintro ⟨pattern, hmem, hlower, hmentions⟩
    exact ⟨pattern, hmem, (map_tolower_eq_self_iff pattern hmem).mp hlower, hmentions⟩
  · rintro ⟨pattern, hmem, hne, hmentions⟩
    exact ⟨pattern, hmem, (map_tolower_eq_self_iff pattern hmem).mpr hne, hmentions⟩

/-- The table of the scan is read in any letter case, but for one entry. -/
theorem injection_scan_ignores_case_iff (body : Bytes) (hzero : (0 : UInt8) ∉ body)
    (hlen : body.length ≤ 16384) :
    (containsInjectionPattern body = true ↔
        ∃ pattern ∈ injectionPatterns, Mentions pattern body) ↔
      (Mentions (ascii "DAN mode") body →
        ∃ pattern ∈ injectionPatterns, pattern ≠ ascii "DAN mode" ∧ Mentions pattern body) := by
  have hdan : ascii "DAN mode" ∈ injectionPatterns := by decide
  rw [containsInjectionPattern_iff_mentions hzero hlen]
  constructor
  · exact fun hscan hmentions ↦ hscan.mpr ⟨_, hdan, hmentions⟩
  · refine fun hother ↦ ⟨fun ⟨p, hp, _, hmentions⟩ ↦ ⟨p, hp, hmentions⟩, ?_⟩
    rintro ⟨p, hp, hmentions⟩
    by_cases hne : p = ascii "DAN mode"
    · exact hother (hne ▸ hmentions)
    · exact ⟨p, hp, hne, hmentions⟩

theorem injection_scan_ignores_case_iff_jailbreak :
    let body := ascii "Now JailBreak it"
    (0 : UInt8) ∉ body ∧ body.length ≤ 16384 ∧
      ((containsInjectionPattern body = true ↔
          ∃ pattern ∈ injectionPatterns, Mentions pattern body) ↔
        (Mentions (ascii "DAN mode") body →
          ∃ pattern ∈ injectionPatterns, pattern ≠ ascii "DAN mode" ∧ Mentions pattern body)) :=
  ⟨by decide, by decide, injection_scan_ignores_case_iff _ (by decide) (by decide)⟩

/-- The entry with capital letters is missed even as it stands in the table. -/
theorem injection_scan_misses_dan_mode :
    ¬ ∀ body : Bytes, (0 : UInt8) ∉ body → body.length ≤ 16384 →
      (containsInjectionPattern body = true ↔
        ∃ pattern ∈ injectionPatterns, Mentions pattern body) := by
  intro h
  have hfound := (h (ascii "DAN mode") (by decide) (by decide)).mpr
    ⟨ascii "DAN mode", by decide, _, List.infix_rfl, by decide⟩
  revert hfound
  decide

end DoctorClaw
