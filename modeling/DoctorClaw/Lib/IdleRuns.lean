import Mathlib.Algebra.BigOperators.Group.List.Basic
import Mathlib.Algebra.GroupWithZero.Nat
import Mathlib.Data.List.SplitBy
import Mathlib.Tactic.Common

/-!
# Counters with an idle gap

A counter is reset when the gap since the last hit is too long, and again when
it reaches its threshold, where it raises an alarm.  Its alarms are counted by
the maximal runs of hits without such a gap: a run of `n` hits raises
`n / threshold` of them.
-/

namespace IdleRuns

structure Counter where
  last : ℕ
  count : ℕ
  deriving DecidableEq

variable (gap threshold : ℕ)

/-- The hits counted at time `now`, before the threshold is looked at. -/
def Counter.tally (c : Counter) (now : ℕ) : ℕ := if c.last + gap < now then 1 else c.count + 1

def Counter.alarm (c : Counter) (now : ℕ) : Bool := decide (threshold ≤ c.tally gap now)

def Counter.hit (c : Counter) (now : ℕ) : Counter :=
  ⟨now, if c.alarm gap threshold now then 0 else c.tally gap now⟩

/-- The counter of a key after a hit; the first hit of a key opens it. -/
def hit (c : Option Counter) (now : ℕ) : Counter := c.elim ⟨now, 1⟩ fun c ↦ c.hit gap threshold now

def alarm (c : Option Counter) (now : ℕ) : Bool := c.elim false fun c ↦ c.alarm gap threshold now

def alarms : Option Counter → List ℕ → ℕ
  | _, [] => 0
  | c, now :: rest =>
      (alarm gap threshold c now).toNat + alarms (some (hit gap threshold c now)) rest

def within (a b : ℕ) : Bool := decide (b ≤ a + gap)

/-- The maximal runs of hits of which each is at most `gap` after the one
before it. -/
def runs (times : List ℕ) : List (List ℕ) := times.splitBy (within gap)

def runAlarms (times : List ℕ) : ℕ := ((runs gap times).map fun run ↦ run.length / threshold).sum

variable {gap threshold}

theorem runAlarms_of_chain {run : List ℕ} (hne : run ≠ [])
    (hchain : run.IsChain fun a b ↦ within gap a b) :
    runAlarms gap threshold run = run.length / threshold := by
  rw [runAlarms, runs, List.splitBy_of_isChain hne hchain, List.map_singleton, List.sum_singleton]

theorem runAlarms_append_cons {run : List ℕ} {last now : ℕ} (hlast : run.getLast? = some last)
    (hgap : last + gap < now) (rest : List ℕ) :
    runAlarms gap threshold (run ++ now :: rest) =
      runAlarms gap threshold run + runAlarms gap threshold (now :: rest) := by
  have hcut : ∀ a ∈ run.getLast?, within gap a now = false := by
    intro a ha
    obtain rfl : last = a := by simpa [hlast] using ha
    simpa [within] using hgap
  rw [runAlarms, runs, List.splitBy_append_cons rest hcut, List.map_append, List.sum_append]
  rfl

/-- A counter in the middle of a run: what it has counted is what the last
alarm of the run left over. -/
structure InRun (gap threshold : ℕ) (c : Counter) (run : List ℕ) : Prop where
  last : run.getLast? = some c.last
  count : c.count = run.length % threshold
  chain : run.IsChain fun a b ↦ within gap a b

theorem InRun.ne_nil {c : Counter} {run : List ℕ} (h : InRun gap threshold c run) : run ≠ [] := by
  rintro rfl
  simpa using h.last

theorem InRun.single (hthreshold : 1 < threshold) (now : ℕ) :
    InRun gap threshold ⟨now, 1⟩ [now] where
  last := rfl
  count := (Nat.mod_eq_of_lt hthreshold).symm
  chain := .singleton now

theorem InRun.tally_mod {c : Counter} {run : List ℕ} (h : InRun gap threshold c run)
    (hthreshold : 1 < threshold) :
    (if threshold ≤ c.count + 1 then 0 else c.count + 1) = (run.length + 1) % threshold ∧
      (decide (threshold ≤ c.count + 1)).toNat + run.length / threshold =
        (run.length + 1) / threshold := by
  have hlt := Nat.mod_lt run.length (by omega : 0 < threshold)
  have hmod : (run.length + 1) % threshold = (run.length % threshold + 1) % threshold := by
    rw [Nat.add_mod, Nat.mod_eq_of_lt hthreshold]
  have hdvd : threshold ∣ run.length + 1 ↔ (run.length % threshold + 1) % threshold = 0 := by
    rw [Nat.dvd_iff_mod_eq_zero, hmod]
  rw [h.count, hmod, Nat.succ_div]
  simp only [hdvd]
  by_cases hfull : threshold ≤ run.length % threshold + 1
  · have heq : run.length % threshold + 1 = threshold := by omega
    simp [heq, Nat.add_comm]
  · rw [Nat.mod_eq_of_lt (by omega : run.length % threshold + 1 < threshold)]
    simp [hfull]

theorem InRun.snoc {c : Counter} {run : List ℕ} (h : InRun gap threshold c run)
    (hthreshold : 1 < threshold) {now : ℕ} (hgap : ¬ c.last + gap < now) :
    InRun gap threshold (c.hit gap threshold now) (run ++ [now]) where
  last := by simp [Counter.hit]
  count := by
    simp only [Counter.hit, Counter.alarm, Counter.tally, if_neg hgap, decide_eq_true_eq,
      List.length_append, List.length_singleton]
    exact (h.tally_mod hthreshold).1
  chain := by
    rw [List.isChain_append]
    refine ⟨h.chain, .singleton now, ?_⟩
    intro a ha b hb
    obtain rfl : c.last = a := by simpa [h.last] using ha
    obtain rfl : now = b := by simpa using hb
    simpa [within] using hgap

theorem InRun.alarms_eq {c : Counter} {run : List ℕ} (h : InRun gap threshold c run)
    (hthreshold : 1 < threshold) (rest : List ℕ) :
    run.length / threshold + alarms gap threshold (some c) rest =
      runAlarms gap threshold (run ++ rest) := by
  induction rest generalizing c run with
  | nil => simp [alarms, runAlarms_of_chain h.ne_nil h.chain]
  | cons now rest ih =>
      by_cases hgap : c.last + gap < now
      · have hhit : c.hit gap threshold now = ⟨now, 1⟩ := by
          simp [Counter.hit, Counter.alarm, Counter.tally, hgap, hthreshold]
        have halarm : c.alarm gap threshold now = false := by
          simp [Counter.alarm, Counter.tally, hgap, hthreshold]
        have hrest := ih (InRun.single hthreshold now)
        rw [runAlarms_append_cons h.last hgap, runAlarms_of_chain h.ne_nil h.chain]
        simpa [alarms, alarm, hit, hhit, halarm, Nat.div_eq_of_lt hthreshold] using hrest
      · have hrest := ih (h.snoc hthreshold hgap)
        rw [List.append_assoc, List.singleton_append, List.length_append, List.length_singleton,
          ← (h.tally_mod hthreshold).2] at hrest
        rw [← hrest]
        simp only [alarms, alarm, hit, Option.elim, Counter.alarm, Counter.tally, if_neg hgap]
        omega

/-- A key that was never hit: its alarms are those of its runs. -/
theorem alarms_eq_runAlarms (hthreshold : 1 < threshold) (times : List ℕ) :
    alarms gap threshold none times = runAlarms gap threshold times := by
  cases times with
  | nil => rfl
  | cons now rest =>
      have hopen : InRun gap threshold ⟨now, 1⟩ [now] := InRun.single hthreshold now
      have hrest := hopen.alarms_eq hthreshold rest
      simpa [alarms, alarm, hit, Nat.div_eq_of_lt hthreshold] using hrest

end IdleRuns
