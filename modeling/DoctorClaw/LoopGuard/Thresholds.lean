import DoctorClaw.LoopGuard

/-!
# The documented thresholds

`loop_guard.h` promises a trip at five equal names in a row and at six names
that alternate, and none otherwise.  The scan of `is_pingpong` keeps this
promise only for sequences that are short, that alternate from the start, or
that repeat a name at the fifth, sixth and seventh place and never alternate.
-/

namespace DoctorClaw

/-- Each check answers as the thresholds say. -/
def FollowsThresholds (names : List Bytes) : Prop :=
  ∀ n (hn : n < names.length),
    (loopGuardCheck (LoopGuard.reset.after (names.take n)) (some names[n])).2 = false ↔
      (LoopGuard.reset.after (names.take n)).tripped = true ∨
        (∃ a, List.replicate 5 a <:+ names.take (n + 1)) ∨
          ∃ a b, a ≠ b ∧ [a, b, a, b, a, b] <:+ names.take (n + 1)

/-- The first `n` names end in five equal ones. -/
def RunAt (names : List Bytes) (n : ℕ) : Prop := 5 ≤ n ∧ (names.take n).EndsRepeating 5

/-- The first `n` names end in six that alternate. -/
def PingPongAt (names : List Bytes) (n : ℕ) : Prop := 6 ≤ n ∧ (names.take n).EndsAlternating 6

/-- What the scan of `is_pingpong` takes for a loop after `n` names. -/
def ScanAt (names : List Bytes) (n : ℕ) : Prop :=
  6 ≤ n ∧ (names.take n).EndsAlternating (min n 16 - 5)

instance (names : List Bytes) (n : ℕ) : Decidable (RunAt names n) :=
  inferInstanceAs (Decidable (_ ∧ _))

/-- Up to the `k`-th name nothing has tripped the guard. -/
def Clear (names : List Bytes) (k : ℕ) : Prop := ∀ m ≤ k, ¬ RunAt names m ∧ ¬ ScanAt names m

/-- The scan finds what the thresholds ask for, as long as it is asked. -/
def ScanAgrees (names : List Bytes) : Prop :=
  ∀ k < names.length, Clear names k → ¬ RunAt names (k + 1) →
    (ScanAt names (k + 1) ↔ PingPongAt names (k + 1))

theorem runAt_iff {names : List Bytes} {n : ℕ} (hn : n ≤ names.length) :
    RunAt names n ↔ ∃ a, List.replicate 5 a <:+ names.take n := by
  have hlen : (names.take n).length = n := by simp [hn]
  constructor
  · rintro ⟨hfive, h⟩
    exact (List.endsRepeating_iff (by omega) (by omega)).mp h
  · rintro ⟨a, h⟩
    have hfive := h.length_le
    rw [List.length_replicate, hlen] at hfive
    exact ⟨hfive, (List.endsRepeating_iff (by omega) (by omega)).mpr ⟨a, h⟩⟩

theorem pingPongAt_iff {names : List Bytes} {n : ℕ} (hn : n ≤ names.length) :
    PingPongAt names n ↔ ∃ a b, a ≠ b ∧ [a, b, a, b, a, b] <:+ names.take n := by
  have hlen : (names.take n).length = n := by simp [hn]
  constructor
  · rintro ⟨hsix, h⟩
    exact (List.endsAlternating_six_iff (by omega)).mp h
  · rintro ⟨a, b, hne, h⟩
    have hsix : 6 ≤ (names.take n).length := h.length_le
    exact ⟨by omega, (List.endsAlternating_six_iff hsix).mpr ⟨a, b, hne, h⟩⟩

section Scan

variable {names : List Bytes} (hnames : ∀ name ∈ names, name.length ≤ 63)

include hnames

theorem trips_take_iff {n : ℕ} (hn : n ≤ names.length) :
    Trips ((names.take n).map (CString.cut 64)) ↔ RunAt names n ∨ ScanAt names n := by
  have hcut : (names.take n).map (CString.cut 64) = names.take n := by
    refine (List.map_congr_left fun name hname ↦ CString.cut_of_lt ?_).trans (List.map_id _)
    have hle := hnames name (List.mem_of_mem_take hname)
    omega
  rw [hcut, Trips, List.length_take, Nat.min_eq_left hn]
  rfl

theorem untripped_iff {k : ℕ} (hk : k ≤ names.length) :
    (LoopGuard.reset.after (names.take k)).tripped = false ↔ Clear names k := by
  rw [← Bool.not_eq_true, LoopGuard.tripped_after_iff]
  push Not
  constructor
  · intro h m hm
    have hclear := h m (by rw [List.length_take]; omega)
    rw [List.take_take, Nat.min_eq_left hm, trips_take_iff hnames (by omega), not_or] at hclear
    exact hclear
  · intro h m hm
    rw [List.length_take] at hm
    rw [List.take_take, Nat.min_eq_left (by omega), trips_take_iff hnames (by omega), not_or]
    exact h m (by omega)

theorem check_eq_false_iff {k : ℕ} (hk : k < names.length)
    (hbefore : (LoopGuard.reset.after (names.take k)).tripped = false) :
    (loopGuardCheck (LoopGuard.reset.after (names.take k)) (some names[k])).2 = false ↔
      RunAt names (k + 1) ∨ ScanAt names (k + 1) := by
  rw [(LoopGuard.recorded_after hbefore).check_eq_false_iff hbefore, List.take_append_getElem,
    trips_take_iff hnames (by omega)]

theorem followsThresholds_iff_scan :
    FollowsThresholds names ↔ ScanAgrees names := by
  refine forall₂_congr fun k hk ↦ ?_
  rw [← untripped_iff hnames hk.le, ← runAt_iff hk, ← pingPongAt_iff hk]
  cases hbefore : (LoopGuard.reset.after (names.take k)).tripped with
  | true => simp [loopGuardCheck_of_tripped hbefore]
  | false =>
      rw [check_eq_false_iff hnames hk hbefore]
      tauto

end Scan

/-! ## Where the scan looks -/

section Places

variable {names : List Bytes} {n : ℕ}

theorem getElem?_reverse_take {i : ℕ} (hn : n ≤ names.length) (hi : i < n) :
    (names.take n).reverse[i]? = names[n - 1 - i]? := by
  have hlen : (names.take n).length = n := by simp [hn]
  rw [List.getElem?_reverse (by omega), hlen, List.getElem?_take_of_lt (by omega)]

/-- Names that alternate up to the place `i + 1` differ there. -/
theorem ne_of_endsAlternating {k i : ℕ} (hn : n ≤ names.length)
    (h : (names.take n).EndsAlternating k) (hlow : n < i + k + 1) (hhigh : i + 1 < n) :
    names[i]? ≠ names[i + 1]? := by
  have hne := h.ne_succ (j := n - 2 - i) (by omega)
  rw [getElem?_reverse_take hn (by omega), getElem?_reverse_take hn (by omega)] at hne
  rwa [show n - 1 - (n - 2 - i + 1) = i by omega, show n - 1 - (n - 2 - i) = i + 1 by omega] at hne

theorem scanAt_six_iff (hlen : 6 ≤ names.length) : ScanAt names 6 ↔ names[4]? ≠ names[5]? := by
  rw [ScanAt, and_iff_right le_rfl, List.endsAlternating_iff_of_le_two (by decide),
    getElem?_reverse_take hlen (by decide), getElem?_reverse_take hlen (by decide)]
  exact ne_comm

theorem scanAt_seven_iff (hlen : 7 ≤ names.length) : ScanAt names 7 ↔ names[5]? ≠ names[6]? := by
  rw [ScanAt, and_iff_right (by decide), List.endsAlternating_iff_of_le_two (by decide),
    getElem?_reverse_take hlen (by decide), getElem?_reverse_take hlen (by decide)]
  exact ne_comm

theorem ScanAt.ne_of_le_eleven (h : ScanAt names n) (hn : n ≤ names.length) (hlow : 7 ≤ n)
    (hhigh : n ≤ 11) : names[5]? ≠ names[6]? :=
  ne_of_endsAlternating hn h.2 (by omega) (by omega)

theorem PingPongAt.ne_of_le_ten (h : PingPongAt names n) (hn : n ≤ names.length)
    (hhigh : n ≤ 10) : names[4]? ≠ names[5]? :=
  ne_of_endsAlternating hn h.2 (by omega) (Nat.lt_of_lt_of_le (by decide) h.1)

theorem PingPongAt.ne_of_le_eleven (h : PingPongAt names n) (hn : n ≤ names.length)
    (hlow : 7 ≤ n) (hhigh : n ≤ 11) : names[5]? ≠ names[6]? :=
  ne_of_endsAlternating hn h.2 (by omega) (by omega)

theorem ScanAt.pingPongAt (h : ScanAt names n) (hlow : 11 ≤ n) : PingPongAt names n :=
  ⟨h.1, h.2.mono (by omega)⟩

/-- From the twelfth name on the scan asks for an alternation that was there
one name before. -/
theorem ScanAt.pingPongAt_pred (h : ScanAt names n) (hn : n ≤ names.length) (hlow : 12 ≤ n) :
    PingPongAt names (n - 1) := by
  have hseven : (names.take n).EndsAlternating (6 + 1) := h.2.mono (by omega)
  have hsix := hseven.dropLast (by omega)
  rw [List.dropLast_eq_take, List.take_take, List.length_take, Nat.min_eq_left hn,
    Nat.min_eq_left (by omega)] at hsix
  exact ⟨by omega, hsix⟩

theorem PingPongAt.not_runAt (h : PingPongAt names n) : ¬ RunAt names n :=
  fun hrun ↦ h.2.not_endsRepeating (by omega) hrun.2

theorem RunAt.eq (h : RunAt names n) (hn : n ≤ names.length) {i : ℕ} (hi : n = i + 2) :
    names[i]? = names[i + 1]? := by
  have heq := h.2 1 (by omega)
  have hfive := h.1
  rw [getElem?_reverse_take hn (by omega), getElem?_reverse_take hn (by omega)] at heq
  rwa [show n - 1 - 1 = i by omega, show n - 1 - 0 = i + 1 by omega] at heq

end Places

/-! ## Sequences that are judged right -/

/-- How many names come up to the first five equal ones in a row. -/
def firstRun (names : List Bytes) : ℕ :=
  ((List.range names.length).find? fun n ↦ decide (RunAt names n)).getD names.length

theorem not_runAt_of_lt_firstRun {names : List Bytes} {n : ℕ} (h : n < firstRun names) :
    ¬ RunAt names n := by
  unfold firstRun at h
  cases hfind : (List.range names.length).find? fun n ↦ decide (RunAt names n) with
  | none =>
      rw [hfind, Option.getD_none] at h
      simpa using List.find?_range_eq_none.mp hfind n h
  | some m =>
      rw [hfind, Option.getD_some] at h
      simpa using (List.find?_range_eq_some.mp hfind).2.2 n h

theorem firstRun_le (names : List Bytes) : firstRun names ≤ names.length := by
  unfold firstRun
  cases hfind : (List.range names.length).find? fun n ↦ decide (RunAt names n) with
  | none => exact le_rfl
  | some m => exact (List.mem_range.mp (List.find?_range_eq_some.mp hfind).2.1).le

theorem runAt_firstRun {names : List Bytes} (h : firstRun names < names.length) :
    RunAt names (firstRun names) := by
  unfold firstRun at h ⊢
  cases hfind : (List.range names.length).find? fun n ↦ decide (RunAt names n) with
  | none => simp [hfind] at h
  | some m => exact of_decide_eq_true (List.find?_range_eq_some.mp hfind).1

/-- Up to the first five equal names the sequence is short, or it starts with
an alternation, or it repeats a name at the places where the scan is too
short and never alternates. -/
def JudgedRight (names : List Bytes) : Prop :=
  firstRun names ≤ 5 ∨
    (∃ a b, a ≠ b ∧ [a, b, a, b, a, b] <+: names) ∨
      (names[4]? = names[5]? ∧ (7 ≤ firstRun names → names[5]? = names[6]?) ∧
        ¬ ∃ a b, a ≠ b ∧ [a, b, a, b, a, b] <:+: names.take (firstRun names))

theorem pingPongAt_six_iff {names : List Bytes} (hlen : 6 ≤ names.length) :
    PingPongAt names 6 ↔ ∃ a b, a ≠ b ∧ [a, b, a, b, a, b] <+: names := by
  rw [pingPongAt_iff hlen]
  refine exists₂_congr fun a b ↦ and_congr_right fun _ ↦ ?_
  have hsix : (names.take 6).length = 6 := by simp [hlen]
  rw [List.prefix_iff_eq_take]
  exact ⟨fun h ↦ h.eq_of_length hsix.symm, fun h ↦ h ▸ List.suffix_rfl⟩

theorem exists_pingPongAt_iff {names : List Bytes} {f : ℕ} (hf : f ≤ names.length) :
    (∃ n ≤ f, PingPongAt names n) ↔ ∃ a b, a ≠ b ∧ [a, b, a, b, a, b] <:+: names.take f := by
  constructor
  · rintro ⟨n, hn, h⟩
    obtain ⟨a, b, hne, hsuffix⟩ := (pingPongAt_iff (by omega)).mp h
    exact ⟨a, b, hne, hsuffix.isInfix.trans (List.take_prefix_take_left hn).isInfix⟩
  · rintro ⟨a, b, hne, h⟩
    obtain ⟨t, hsuffix, hpre⟩ := List.infix_iff_suffix_prefix.mp h
    have hle : t.length ≤ f := hpre.length_le.trans (List.length_take_le f names)
    have ht : t = names.take t.length := by
      rw [List.prefix_iff_eq_take.mp (hpre.trans (List.take_prefix f names)), List.length_take]
      congr 1
      omega
    refine ⟨t.length, hle, (pingPongAt_iff (by omega)).mpr ⟨a, b, hne, ?_⟩⟩
    rwa [← ht]

/-- The scan is silent where nothing alternates, once a name is repeated at the
places where it looks at one and at two names. -/
theorem not_scanAt {names : List Bytes} {n : ℕ} (hn : n ≤ names.length)
    (hfifth : names[4]? = names[5]?) (hsixth : 7 ≤ n → names[5]? = names[6]?)
    (hpingpong : ¬ PingPongAt names n) : ¬ ScanAt names n := by
  intro hscan
  have hlow := hscan.1
  by_cases heq : n = 6
  · subst heq
    exact (scanAt_six_iff hn).mp hscan hfifth
  by_cases hhigh : n ≤ 11
  · exact hscan.ne_of_le_eleven hn (by omega) hhigh (hsixth (by omega))
  · exact hpingpong (hscan.pingPongAt (by omega))

theorem lt_firstRun_of_clear {names : List Bytes} {k : ℕ} (hk : k < names.length)
    (h : Clear names k) : k < firstRun names := by
  by_contra hle
  have hlt : firstRun names < names.length := by omega
  exact (h _ (by omega)).1 (runAt_firstRun hlt)

theorem not_pingPongAt_of_agrees {names : List Bytes} (h : ScanAgrees names)
    (hfifth : names[4]? = names[5]?) (hsixth : 7 ≤ firstRun names → names[5]? = names[6]?)
    {n : ℕ} (hn : n ≤ firstRun names) : ¬ PingPongAt names n := by
  have hf := firstRun_le names
  induction n using Nat.strong_induction_on with
  | _ n ih =>
      intro hp
      have hlow := hp.1
      by_cases hten : n ≤ 10
      · exact hp.ne_of_le_ten (by omega) hten hfifth
      by_cases heleven : n ≤ 11
      · exact hp.ne_of_le_eleven (by omega) (by omega) heleven (hsixth (by omega))
      -- The scan would have to fire here, but then it was late by one name.
      have hclear : Clear names (n - 1) := by
        intro m hm
        refine ⟨not_runAt_of_lt_firstRun (by omega), not_scanAt (by omega) hfifth ?_ ?_⟩
        · exact fun _ ↦ hsixth (by omega)
        · exact ih m (by omega) (by omega)
      have hscan := h (n - 1) (by omega) hclear
      rw [Nat.sub_add_cancel (by omega)] at hscan
      have hpred := ((hscan hp.not_runAt).mpr hp).pingPongAt_pred (by omega) (by omega)
      exact ih (n - 1) (by omega) (by omega) hpred

theorem judgedRight_of_agrees {names : List Bytes} (h : ScanAgrees names) : JudgedRight names := by
  have hf := firstRun_le names
  rw [JudgedRight, ← exists_pingPongAt_iff hf]
  by_cases hshort : firstRun names ≤ 5
  · exact .inl hshort
  rw [← pingPongAt_six_iff (by omega), or_iff_right hshort]
  by_cases hstart : PingPongAt names 6
  · exact .inl hstart
  have hclear (m : ℕ) (hm : m ≤ 5) : ¬ RunAt names m ∧ ¬ ScanAt names m :=
    ⟨not_runAt_of_lt_firstRun (by omega), fun hscan ↦ absurd hscan.1 (by omega)⟩
  have hfifth : names[4]? = names[5]? := by
    by_contra hne
    have hscan := (scanAt_six_iff (by omega)).mpr hne
    have hrun : ¬ RunAt names 6 := fun hrun ↦ hne (hrun.eq (by omega) rfl)
    exact hstart ((h 5 (by omega) hclear hrun).mp hscan)
  have hsixth : 7 ≤ firstRun names → names[5]? = names[6]? := by
    intro hseven
    by_contra hne
    have hscan := (scanAt_seven_iff (by omega)).mpr hne
    have hrun : ¬ RunAt names 7 := fun hrun ↦ hne (hrun.eq (by omega) rfl)
    have hclear : Clear names 6 := by
      intro m hm
      refine ⟨not_runAt_of_lt_firstRun (by omega), not_scanAt (by omega) hfifth (by omega) ?_⟩
      intro hp
      exact hp.ne_of_le_ten (by omega) (by omega) hfifth
    have hping := (h 6 (by omega) hclear hrun).mp hscan
    exact hping.ne_of_le_ten (by omega) (by omega) hfifth
  refine .inr ⟨hfifth, hsixth, ?_⟩
  rintro ⟨n, hn, hp⟩
  exact not_pingPongAt_of_agrees h hfifth hsixth hn hp

theorem agrees_of_judgedRight {names : List Bytes} (h : JudgedRight names) : ScanAgrees names := by
  have hf := firstRun_le names
  rw [JudgedRight, ← exists_pingPongAt_iff hf] at h
  intro k hk hclear hrun
  have hlt := lt_firstRun_of_clear hk hclear
  by_cases hlow : k + 1 < 6
  · exact iff_of_false (fun hscan ↦ absurd hscan.1 (by omega)) fun hp ↦ absurd hp.1 (by omega)
  rcases h with hshort | hstart | ⟨hfifth, hsixth, hno⟩
  · omega
  · have hsix := (pingPongAt_six_iff (by omega)).mpr hstart
    have hscan := (scanAt_six_iff (by omega)).mpr (hsix.ne_of_le_ten (by omega) (by omega))
    by_cases heq : k = 5
    · subst heq
      exact iff_of_true hscan hsix
    · exact absurd hscan (hclear 6 (by omega)).2
  · have hnot : ¬ PingPongAt names (k + 1) := fun hp ↦ hno ⟨k + 1, hlt, hp⟩
    exact iff_of_false (not_scanAt hk hfifth (fun hseven ↦ hsixth (by omega)) hnot) hnot

/-- The guard stops a sequence as documented exactly when the short scans at
the sixth and seventh name and the long ones from the twelfth on do not
matter. -/
theorem followsThresholds_iff {names : List Bytes} (hnames : ∀ name ∈ names, name.length ≤ 63) :
    FollowsThresholds names ↔ JudgedRight names := by
  rw [followsThresholds_iff_scan hnames]
  exact ⟨judgedRight_of_agrees, agrees_of_judgedRight⟩

theorem followsThresholds_iff_alternating :
    JudgedRight [[97], [98], [97], [98], [97], [98]] ∧
      FollowsThresholds [[97], [98], [97], [98], [97], [98]] := by
  have h : JudgedRight [[97], [98], [97], [98], [97], [98]] :=
    .inr (.inl ⟨[97], [98], by decide, List.prefix_rfl⟩)
  exact ⟨h, (followsThresholds_iff (by decide)).mpr h⟩

/-- Six different names are stopped at the sixth. -/
theorem not_followsThresholds_different_names :
    ¬ FollowsThresholds [[97], [98], [99], [100], [101], [102]] := by
  intro h
  rcases (h 5 (by decide)).mp (by decide) with htripped | hrun | hping
  · exact absurd htripped (by decide)
  · exact absurd ((runAt_iff (by decide)).mpr hrun) (by decide)
  · exact absurd ((pingPongAt_iff (by decide)).mpr hping).2 (by decide)

end DoctorClaw
