import DoctorClaw.ConfigFiles.Auth

/-!
# The active profile

Which profile is active is kept twice, as a flag of the profile and as a name.
`auth_remove_profile` leaves the name as it is, and `auth_set_active` clears
the flags when no profile has the name and sets several when several have it.
-/

namespace DoctorClaw

def Auth.activeProfiles (auth : Auth) : List AuthProfile :=
  auth.profiles.entries.filter AuthProfile.active

/-- The flags and the name agree. -/
structure Auth.Consistent (auth : Auth) : Prop where
  atMostOne : auth.activeProfiles.length ≤ 1
  named : ∀ p ∈ auth.activeProfiles, auth.activeProfile = p.name
  unnamed : auth.activeProfiles = [] → auth.activeProfile = []

/-- What a call owes when the profile it names does not exist. -/
def AuthCall.RefusesUnknown (auth : Auth) : AuthCall → Prop
  | setActive name =>
      (∀ p ∈ auth.profiles.entries, p.name ≠ name) → authSetActive auth name = (-1, auth)
  | _ => True

/-- In every state of the sequence the flags and the name agree, and every
activation of an unknown profile is refused. -/
structure ActiveProfileKept (calls : List AuthCall) : Prop where
  consistent : ∀ pre, pre <+: calls → (authAfter pre).Consistent
  refuses : ∀ pre call, pre ++ [call] <+: calls → call.RefusesUnknown (authAfter pre)

/-- A call that goes well in a state: a profile is removed only when it is not
active or has no name, and the name that is activated is that of one profile. -/
def AuthCall.GoesWell (auth : Auth) : AuthCall → Prop
  | add _ _ _ => True
  | remove name =>
      ∀ p, (auth.profiles.entries.find? fun p ↦ p.name = name) = some p → p.active = true → name = []
  | setActive name => (auth.profiles.entries.filter fun p ↦ p.name = name).length = 1

/-! ## The entries after a call -/

section Entries

variable {auth : Auth}

theorem authAfter_append (pre : List AuthCall) (call : AuthCall) :
    authAfter (pre ++ [call]) = call.perform (authAfter pre) := by
  rw [authAfter, List.foldl_append]
  rfl

theorem activeProfiles_add (name : Bytes) (provider : AuthProvider) (apiKey : Bytes) :
    (authAddProfile auth name provider apiKey).2.activeProfiles = auth.activeProfiles := by
  unfold authAddProfile Auth.activeProfiles
  split_ifs
  · rfl
  · rw [SlotArray.entries_extend, List.filter_append, List.filter_cons_of_neg (by simp),
      List.filter_nil, List.append_nil]

theorem activeProfile_add (name : Bytes) (provider : AuthProvider) (apiKey : Bytes) :
    (authAddProfile auth name provider apiKey).2.activeProfile = auth.activeProfile := by
  unfold authAddProfile
  split_ifs <;> rfl

theorem entries_remove (name : Bytes) :
    (authRemoveProfile auth name).2.profiles.entries =
      auth.profiles.entries.eraseP fun p ↦ p.name = name := by
  unfold authRemoveProfile
  cases hfind : auth.profiles.find fun p ↦ p.name = name with
  | none => exact (SlotArray.eraseP_entries_of_find hfind).symm
  | some i => exact SlotArray.entries_removeAt_of_find hfind

theorem activeProfile_remove (name : Bytes) :
    (authRemoveProfile auth name).2.activeProfile = auth.activeProfile := by
  unfold authRemoveProfile
  split <;> rfl

/-- The profiles of the name become the active ones. -/
theorem activeProfiles_setActive (name : Bytes) :
    (authSetActive auth name).2.activeProfiles =
      (auth.profiles.entries.filter fun p ↦ p.name = name).map fun p ↦
        { p with active := true } := by
  unfold authSetActive Auth.activeProfiles
  dsimp only
  rw [SlotArray.entries_modifyAll, List.filter_map]
  refine List.map_congr_left fun p hp ↦ ?_
  have hname : p.name = name := by simpa using (List.mem_filter.mp hp).2
  simp [hname]

end Entries

/-! ## One call -/

section Calls

variable {auth : Auth}

/-- A removal leaves the active profiles, unless the first profile of the name
is one of them. -/
theorem activeProfiles_remove (auth : Auth) (name : Bytes) :
    ((∀ p, (auth.profiles.entries.find? fun p ↦ p.name = name) = some p → p.active = false) ∧
        (authRemoveProfile auth name).2.activeProfiles = auth.activeProfiles) ∨
      ∃ p before behind, (auth.profiles.entries.find? fun p ↦ p.name = name) = some p ∧
        p.active = true ∧ auth.activeProfiles = before ++ p :: behind ∧
        (authRemoveProfile auth name).2.activeProfiles = before ++ behind := by
  unfold Auth.activeProfiles
  rw [entries_remove]
  by_cases hsome : ∃ p ∈ auth.profiles.entries, p.name = name
  · obtain ⟨p, hp, hname⟩ := hsome
    obtain ⟨first, before, behind, hbefore, hfirst, hentries, herased⟩ :=
      List.exists_of_eraseP (p := fun p : AuthProfile ↦ p.name = name) hp (decide_eq_true hname)
    have hfind : (auth.profiles.entries.find? fun p ↦ p.name = name) = some first := by
      rw [hentries]
      refine List.find?_eq_some_iff_append.mpr ⟨hfirst, before, behind, rfl, fun b hb ↦ ?_⟩
      simpa using hbefore b hb
    rw [herased, hfind, hentries]
    by_cases hactive : first.active = true
    · refine .inr ⟨first, before.filter AuthProfile.active, behind.filter AuthProfile.active, rfl,
        hactive, ?_, List.filter_append ..⟩
      rw [List.filter_append, List.filter_cons_of_pos hactive]
    · refine .inl ⟨fun q hq ↦ ?_, ?_⟩
      · rw [← Option.some.inj hq]
        simpa using hactive
      · rw [List.filter_append, List.filter_append, List.filter_cons_of_neg hactive]
  · have hnone : ∀ p ∈ auth.profiles.entries, ¬ decide (p.name = name) = true :=
      fun p hp hname ↦ hsome ⟨p, hp, of_decide_eq_true hname⟩
    refine .inl ⟨fun p hp ↦ absurd (List.find?_some hp) (hnone p (List.mem_of_find?_eq_some hp)), ?_⟩
    rw [List.eraseP_of_forall_not hnone]

/-- Names are stored in buffers of 64 bytes. -/
def Auth.NamesFit (auth : Auth) : Prop :=
  auth.profiles.All fun p ↦ p.name.length < maxProfileName

theorem Auth.NamesFit.perform (h : auth.NamesFit) (call : AuthCall) :
    (call.perform auth).NamesFit := by
  cases call with
  | add name provider apiKey =>
      change (authAddProfile auth name provider apiKey).2.NamesFit
      unfold authAddProfile
      split_ifs
      · exact h
      · unfold Auth.NamesFit at h ⊢
        dsimp only
        exact h.extend fun _ _ ↦ CString.length_cut_lt (by decide) name
  | remove name =>
      change (authRemoveProfile auth name).2.NamesFit
      unfold authRemoveProfile
      split
      · exact SlotArray.All.removeAt h _
      · exact h
  | setActive name =>
      unfold Auth.NamesFit at h ⊢
      dsimp only [AuthCall.perform, authSetActive]
      exact h.modifyAll fun p hp ↦ hp

theorem Auth.Consistent.perform (h : auth.Consistent) (hfit : auth.NamesFit) {call : AuthCall}
    (hcall : call.GoesWell auth) : (call.perform auth).Consistent := by
  cases call with
  | add name provider apiKey =>
      change (authAddProfile auth name provider apiKey).2.Consistent
      constructor
      · rw [activeProfiles_add]
        exact h.atMostOne
      · rw [activeProfiles_add, activeProfile_add]
        exact h.named
      · rw [activeProfiles_add, activeProfile_add]
        exact h.unnamed
  | remove name =>
      change (authRemoveProfile auth name).2.Consistent
      rcases activeProfiles_remove auth name with
        ⟨-, hsame⟩ | ⟨p, before, behind, hfind, hp, hbefore, hafter⟩
      · constructor
        · rw [hsame]
          exact h.atMostOne
        · rw [hsame, activeProfile_remove]
          exact h.named
        · rw [hsame, activeProfile_remove]
          exact h.unnamed
      · -- the active profile is the only one, and it has no name
        have hone := h.atMostOne
        rw [hbefore, List.length_append, List.length_cons] at hone
        have hnil : before ++ behind = [] := List.eq_nil_of_length_eq_zero (by
          rw [List.length_append]
          omega)
        have hname : p.name = name := by simpa using List.find?_some hfind
        have hactive : auth.activeProfile = [] := by
          rw [h.named p (by rw [hbefore]; simp), hname]
          exact hcall p hfind hp
        constructor
        · rw [hafter, hnil]
          exact Nat.zero_le 1
        · rw [hafter, hnil]
          exact fun q hq ↦ absurd hq List.not_mem_nil
        · rw [activeProfile_remove]
          exact fun _ ↦ hactive
  | setActive name =>
      change (authSetActive auth name).2.Consistent
      obtain ⟨p, hp⟩ := List.length_eq_one_iff.mp hcall
      have hmem : p ∈ auth.profiles.entries.filter fun p ↦ p.name = name := by
        rw [hp]
        exact List.mem_singleton_self p
      have hname : p.name = name := by simpa using (List.mem_filter.mp hmem).2
      have hfits : name.length < maxProfileName :=
        hname ▸ hfit.of_mem (List.mem_filter.mp hmem).1
      have hany : (auth.profiles.entries.any fun p ↦ p.name = name) = true :=
        List.any_eq_true.mpr ⟨p, List.mem_filter.mp hmem⟩
      have hactive : (authSetActive auth name).2.activeProfile = name := by
        rw [authSetActive, if_pos hany, CString.cut_of_lt hfits]
      constructor
      · rw [activeProfiles_setActive, hp]
        exact Nat.le_refl 1
      · rw [activeProfiles_setActive, hp, hactive]
        intro q hq
        obtain rfl := List.mem_singleton.mp hq
        exact hname.symm
      · rw [activeProfiles_setActive, hp]
        exact fun hnil ↦ absurd hnil (List.cons_ne_nil _ _)

theorem goesWell_of_consistent (h : auth.Consistent) {call : AuthCall}
    (hafter : (call.perform auth).Consistent) (hrefuses : call.RefusesUnknown auth) :
    call.GoesWell auth := by
  cases call with
  | add name provider apiKey => trivial
  | remove name =>
      intro p hfind hp
      change (authRemoveProfile auth name).2.Consistent at hafter
      rcases activeProfiles_remove auth name with
        ⟨hinactive, -⟩ | ⟨q, before, behind, hfind', -, hbefore, hleft⟩
      · rw [hinactive p hfind] at hp
        exact Bool.noConfusion hp
      · obtain rfl : q = p := Option.some.inj (hfind'.symm.trans hfind)
        have hname : q.name = name := by simpa using List.find?_some hfind
        have hone := h.atMostOne
        rw [hbefore, List.length_append, List.length_cons] at hone
        have hnil : before ++ behind = [] := List.eq_nil_of_length_eq_zero (by
          rw [List.length_append]
          omega)
        have hunnamed := hafter.unnamed (by rw [hleft, hnil])
        rw [activeProfile_remove, h.named q (by rw [hbefore]; simp), hname] at hunnamed
        exact hunnamed
  | setActive name =>
      change (authSetActive auth name).2.Consistent at hafter
      have hone := hafter.atMostOne
      rw [activeProfiles_setActive, List.length_map] at hone
      by_contra hnot
      have hnone : (auth.profiles.entries.filter fun p ↦ p.name = name) = [] :=
        List.eq_nil_of_length_eq_zero (by
          change ¬ _ = 1 at hnot
          omega)
      have hrefused := hrefuses fun p hp hname ↦ by
        simpa using List.filter_eq_nil_iff.mp hnone p hp (by simpa using hname)
      exact absurd (congrArg Prod.fst hrefused) (by simp [authSetActive])

end Calls

/-! ## Sequences of calls -/

theorem authAfter_namesFit (calls : List AuthCall) : (authAfter calls).NamesFit :=
  List.foldlRecOn calls AuthCall.perform (motive := Auth.NamesFit)
    (fun _ ↦ (by decide : 0 < maxProfileName))
    fun _ h call _ ↦ h.perform call

theorem authInit_consistent : authInit.Consistent :=
  ⟨Nat.zero_le 1, fun _ h ↦ absurd h List.not_mem_nil, fun _ ↦ rfl⟩

/-- The flags and the name agree all along a sequence exactly when every call
goes well in the state before it. -/
theorem activeProfileKept_iff (calls : List AuthCall) :
    ActiveProfileKept calls ↔
      ∀ pre call, pre ++ [call] <+: calls → call.GoesWell (authAfter pre) := by
  constructor
  · intro h pre call hpre
    have hbefore := h.consistent pre ((List.prefix_append _ _).trans hpre)
    have hafter := h.consistent _ hpre
    rw [authAfter_append] at hafter
    exact goesWell_of_consistent hbefore hafter (h.refuses pre call hpre)
  · intro h
    refine ⟨fun pre hpre ↦ ?_, fun pre call hpre ↦ ?_⟩
    · induction pre using List.reverseRecOn with
      | nil => exact authInit_consistent
      | append_singleton pre call ih =>
          rw [authAfter_append]
          exact (ih ((List.prefix_append _ _).trans hpre)).perform (authAfter_namesFit pre)
            (h pre call hpre)
    · cases call with
      | add name provider apiKey => trivial
      | remove name => trivial
      | setActive name =>
          intro hunknown
          obtain ⟨p, hp⟩ := List.length_eq_one_iff.mp (h pre _ hpre)
          have hmem : p ∈ (authAfter pre).profiles.entries.filter fun p ↦ p.name = name := by
            rw [hp]
            exact List.mem_singleton_self p
          exact absurd (by simpa using (List.mem_filter.mp hmem).2)
            (hunknown p (List.mem_filter.mp hmem).1)

/-- The active profile is removed, and its name stays the active one. -/
theorem removed_profile_stays_active :
    ¬ ActiveProfileKept [.add (ascii "work") .openai (ascii "key"), .setActive (ascii "work"),
      .remove (ascii "work")] := by
  intro h
  have hunnamed := (h.consistent _ (List.prefix_refl _)).unnamed
  exact absurd (hunnamed (by decide)) (by decide)

end DoctorClaw
