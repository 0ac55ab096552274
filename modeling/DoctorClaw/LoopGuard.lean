import DoctorClaw.Lib.ListEnd
import DoctorClaw.Lib.CString

/-!
# The loop guard

`loop_guard_check` records the tool names of a turn and trips once the last
five are equal or the last six alternate between two names.  The scan for
alternation looks at as many names as the history is longer than five: at the
sixth name it sees one, at the seventh two, and from the twelfth on seven and
more.
-/

namespace DoctorClaw

def loopGuardHistoryLen : ℕ := 16

def loopGuardSameThresh : ℕ := 5

def loopGuardPingpongLen : ℕ := 6

/-- The first `g_count` entries of `g_history`, oldest first, `g_tripped` and
`g_reason`. -/
structure LoopGuard where
  history : List Bytes
  tripped : Bool
  reason : Bytes

def LoopGuard.reset : LoopGuard where
  history := []
  tripped := false
  reason := []

/-- The entry `i` places in front of the last one. -/
def LoopGuard.back (g : LoopGuard) (i : ℕ) : Option Bytes := g.history[g.history.length - 1 - i]?

def isPingpong (g : LoopGuard) : Bool :=
  let count := g.history.length
  if count < loopGuardPingpongLen then false
  else if g.back 0 = g.back 1 then false
  else
    ((List.range count).takeWhile fun i ↦
        decide (i + 2 ≤ count) && decide (loopGuardPingpongLen ≤ count - i)).all fun i ↦
      !((i % 2 == 0 && g.back i != g.back 0) || (i % 2 == 1 && g.back i != g.back 1))

def sameToolRepeated (g : LoopGuard) : Bool :=
  if g.history.length < loopGuardSameThresh then false
  else (List.range loopGuardSameThresh).tail.all fun i ↦ g.back i == g.back 0

def LoopGuard.record (g : LoopGuard) (toolName : Bytes) : LoopGuard where
  history :=
    (if loopGuardHistoryLen ≤ g.history.length then (g.history.take loopGuardHistoryLen).tail
      else g.history) ++ [CString.cut 64 toolName]
  tripped := g.tripped
  reason := g.reason

def LoopGuard.trip (g : LoopGuard) (reason : Bytes) : LoopGuard where
  history := g.history
  tripped := true
  reason := CString.cut 128 reason

def sameToolReason (toolName : Bytes) : Bytes :=
  ascii "same tool '" ++ toolName ++ ascii "' 5 times in a row"

def pingpongReason (g : LoopGuard) : Bytes :=
  ascii "ping-pong loop between '" ++ (g.back 1).getD [] ++ ascii "' and '" ++ (g.back 0).getD [] ++
    ascii "'"

def loopGuardCheck (g : LoopGuard) (toolName : Option Bytes) : LoopGuard × Bool :=
  if g.tripped then (g, false)
  else match toolName with
    | none => (g, true)
    | some toolName =>
        let g := g.record toolName
        if sameToolRepeated g then (g.trip (sameToolReason toolName), false)
        else if isPingpong g then (g.trip (pingpongReason g), false)
        else (g, true)

/-- The guard after the checks of a whole list of names. -/
def LoopGuard.after (g : LoopGuard) (names : List Bytes) : LoopGuard :=
  names.foldl (fun g name ↦ (loopGuardCheck g (some name)).1) g

/-! ## The checks as patterns -/

theorem LoopGuard.back_eq {g : LoopGuard} {i : ℕ} (hi : i < g.history.length) :
    g.back i = g.history.reverse[i]? := (List.getElem?_reverse hi).symm

theorem sameToolRepeated_iff {g : LoopGuard} :
    sameToolRepeated g = true ↔ 5 ≤ g.history.length ∧ g.history.EndsRepeating 5 := by
  unfold sameToolRepeated
  split_ifs with hshort
  · refine iff_of_false not_false fun h ↦ ?_
    exact absurd h.1 (Nat.not_le.mpr hshort)
  · have hlen : 5 ≤ g.history.length := Nat.le_of_not_lt hshort
    rw [List.all_eq_true, and_iff_right hlen]
    constructor
    · intro h i hi
      cases i with
      | zero => rfl
      | succ i =>
          have hequal := h (i + 1) (by simp [loopGuardSameThresh, List.range_eq_range']; omega)
          rw [beq_iff_eq, g.back_eq (by omega), g.back_eq (by omega)] at hequal
          exact hequal
    · intro h i hi
      have hi5 : i < 5 := List.mem_range.mp (List.mem_of_mem_tail hi)
      rw [beq_iff_eq, g.back_eq (by omega), g.back_eq (by omega)]
      exact h i hi5

theorem isPingpong_iff {g : LoopGuard} :
    isPingpong g = true ↔
      6 ≤ g.history.length ∧ g.history.EndsAlternating (g.history.length - 5) := by
  unfold isPingpong loopGuardPingpongLen
  dsimp only
  split_ifs with hshort hsame
  · refine iff_of_false not_false fun h ↦ ?_
    exact absurd h.1 (Nat.not_le.mpr hshort)
  · have hlen : 6 ≤ g.history.length := Nat.le_of_not_lt hshort
    refine iff_of_false not_false fun h ↦ h.2.1 ?_
    rw [← g.back_eq (by omega), ← g.back_eq (by omega), hsame]
  · have hlen : 6 ≤ g.history.length := Nat.le_of_not_lt hshort
    have hturn (i : ℕ) : (!((i % 2 == 0 && g.back i != g.back 0) ||
        (i % 2 == 1 && g.back i != g.back 1))) = true ↔ g.back i = g.back (i % 2) := by
      rcases Nat.mod_two_eq_zero_or_one i with hmod | hmod
      · simp [hmod]
      · simp [hmod]
    rw [g.back_eq (by omega), g.back_eq (by omega)] at hsame
    rw [List.all_eq_true, List.EndsAlternating, and_iff_right hlen, and_iff_right hsame]
    simp only [hturn, List.mem_takeWhile_range, Bool.and_eq_true, decide_eq_true_eq]
    constructor
    · intro h i hi
      rw [← g.back_eq (by omega), ← g.back_eq (by omega)]
      exact h i ⟨by omega, fun j hj ↦ by omega⟩
    · rintro h i ⟨hi, hloop⟩
      have hlast := hloop i le_rfl
      rw [g.back_eq (by omega), g.back_eq (by omega)]
      exact h i (by omega)

/-! ## Checks over a whole sequence -/

/-- What makes a check on the last of `names` fail. -/
def Trips (names : List Bytes) : Prop :=
  (5 ≤ names.length ∧ names.EndsRepeating 5) ∨
    (6 ≤ names.length ∧ names.EndsAlternating (min names.length 16 - 5))

/-- The history is the window of the last names recorded. -/
def LoopGuard.Recorded (g : LoopGuard) (names : List Bytes) : Prop :=
  g.history = (names.map (CString.cut 64)).rtake loopGuardHistoryLen

theorem LoopGuard.Recorded.record {g : LoopGuard} {names : List Bytes} (h : g.Recorded names)
    (name : Bytes) : (g.record name).Recorded (names ++ [name]) := by
  unfold Recorded LoopGuard.record at *
  rw [List.map_append, List.map_singleton, h]
  exact List.rtake_concat_window _ _

theorem LoopGuard.Recorded.trips_iff {g : LoopGuard} {names : List Bytes} (h : g.Recorded names) :
    sameToolRepeated g = true ∨ isPingpong g = true ↔ Trips (names.map (CString.cut 64)) := by
  generalize hcut : names.map (CString.cut 64) = cuts
  have hhistory : g.history = cuts.rtake 16 := hcut ▸ h
  have hlen : g.history.length = min cuts.length 16 := by
    rw [hhistory, List.rtake, List.length_drop]
    omega
  rw [sameToolRepeated_iff, isPingpong_iff, hlen, hhistory, Trips,
    List.endsRepeating_rtake (by omega) (by omega), List.endsAlternating_rtake (by omega) (by omega)]
  have hfive : 5 ≤ min cuts.length 16 ↔ 5 ≤ cuts.length := by omega
  have hsix : 6 ≤ min cuts.length 16 ↔ 6 ≤ cuts.length := by omega
  rw [hfive, hsix]

theorem loopGuardCheck_of_tripped {g : LoopGuard} (h : g.tripped = true) (toolName : Option Bytes) :
    loopGuardCheck g toolName = (g, false) := by
  unfold loopGuardCheck
  rw [if_pos h]

theorem loopGuardCheck_some {g : LoopGuard} (h : g.tripped = false) (name : Bytes) :
    loopGuardCheck g (some name) =
      if sameToolRepeated (g.record name) then
        ((g.record name).trip (sameToolReason name), false)
      else if isPingpong (g.record name) then
        ((g.record name).trip (pingpongReason (g.record name)), false)
      else (g.record name, true) := by
  simp [loopGuardCheck, h]

/-- A check fails exactly when it leaves the guard tripped. -/
theorem tripped_loopGuardCheck (g : LoopGuard) (name : Bytes) :
    (loopGuardCheck g (some name)).1.tripped = !(loopGuardCheck g (some name)).2 := by
  cases h : g.tripped with
  | true => simp [loopGuardCheck_of_tripped h, h]
  | false =>
      rw [loopGuardCheck_some h]
      split_ifs
      · rfl
      · rfl
      · exact h

theorem LoopGuard.Recorded.check_eq_false_iff {g : LoopGuard} {names : List Bytes}
    (h : g.Recorded names) (hg : g.tripped = false) (name : Bytes) :
    (loopGuardCheck g (some name)).2 = false ↔
      Trips ((names ++ [name]).map (CString.cut 64)) := by
  rw [loopGuardCheck_some hg, ← (h.record name).trips_iff]
  split_ifs with hsame hping
  · simp [hsame]
  · simp [hping]
  · simp [hsame, hping]

theorem LoopGuard.Recorded.check {g : LoopGuard} {names : List Bytes} (h : g.Recorded names)
    {name : Bytes} (hok : (loopGuardCheck g (some name)).1.tripped = false) :
    (loopGuardCheck g (some name)).1.Recorded (names ++ [name]) := by
  cases hg : g.tripped with
  | true => simp [loopGuardCheck_of_tripped hg, hg] at hok
  | false =>
      rw [loopGuardCheck_some hg] at hok ⊢
      split_ifs at hok ⊢
      · cases hok
      · cases hok
      · exact h.record name

theorem LoopGuard.after_concat (g : LoopGuard) (names : List Bytes) (name : Bytes) :
    g.after (names ++ [name]) = (loopGuardCheck (g.after names) (some name)).1 := by
  rw [after, List.foldl_append]
  rfl

theorem LoopGuard.recorded_after {names : List Bytes}
    (h : (LoopGuard.reset.after names).tripped = false) :
    (LoopGuard.reset.after names).Recorded names := by
  induction names using List.reverseRecOn with
  | nil => rfl
  | append_singleton names name ih =>
      rw [after_concat] at h ⊢
      cases hbefore : (LoopGuard.reset.after names).tripped with
      | true => simp [loopGuardCheck_of_tripped hbefore, hbefore] at h
      | false => exact (ih hbefore).check h

theorem LoopGuard.tripped_after_iff {names : List Bytes} :
    (LoopGuard.reset.after names).tripped = true ↔
      ∃ n ≤ names.length, Trips ((names.take n).map (CString.cut 64)) := by
  induction names using List.reverseRecOn with
  | nil =>
      refine iff_of_false (by decide) ?_
      rintro ⟨n, -, h⟩
      simp [Trips] at h
  | append_singleton names name ih =>
      have hsplit : (∃ n ≤ (names ++ [name]).length,
          Trips (((names ++ [name]).take n).map (CString.cut 64))) ↔
            (∃ n ≤ names.length, Trips ((names.take n).map (CString.cut 64))) ∨
              Trips ((names ++ [name]).map (CString.cut 64)) := by
        constructor
        · rintro ⟨n, hn, h⟩
          rw [List.length_append, List.length_singleton] at hn
          rcases Nat.lt_or_eq_of_le hn with hlt | rfl
          · rw [List.take_append_of_le_length (by omega)] at h
            exact .inl ⟨n, by omega, h⟩
          · rw [List.take_of_length_le (by simp)] at h
            exact .inr h
        · rintro (⟨n, hn, h⟩ | h)
          · refine ⟨n, by simp; omega, ?_⟩
            rwa [List.take_append_of_le_length hn]
          · exact ⟨_, le_rfl, by rwa [List.take_length]⟩
      rw [after_concat, hsplit, ← ih]
      cases hbefore : (LoopGuard.reset.after names).tripped with
      | true => simp [loopGuardCheck_of_tripped hbefore, hbefore]
      | false =>
          rw [tripped_loopGuardCheck, ← (recorded_after hbefore).check_eq_false_iff hbefore name]
          simp

end DoctorClaw
