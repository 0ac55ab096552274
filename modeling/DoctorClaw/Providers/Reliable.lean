import DoctorClaw.Lib.Decimal

/-!
# Calls with a fallback

`provider_reliable_call` asks the primary provider and, where that fails, the
fallback as often as it may retry.  An attempt has succeeded when it returned 0
and left a text.  After the last one the code of that attempt is returned,
which may be 0 although no text came.

The outcomes of `provider_chat_completion` are a sequence; the kinds of
providers are a type `P`.
-/

namespace DoctorClaw

/-! ## The loop -/

structure ReliableConfig (P : Type) where
  primary : P
  fallback : P
  maxRetries : ℤ
  retryDelayMs : ℤ
  autoFailoverEnabled : Bool

/-- What a completion returns, and the response it leaves. -/
structure ChatOutcome where
  code : ℤ
  content : Bytes
  done : Bool

inductive ReliableCall (P : Type)
  | chatCompletion (type : P)
  | usleep (microseconds : ℤ)

def chatContentSize : ℕ := 16384

/-- All attempts up to the one with this index have failed. -/
def ChatOutcome.giveUp (attempts : ℕ) (lastError : ℤ) : ChatOutcome where
  code := lastError
  content := CString.cut chatContentSize
    (ascii "Error: All providers failed after " ++ Decimal.printNat (attempts + 1) ++
      ascii " attempts")
  done := true

variable {P : Type}

def ReliableConfig.type (config : ReliableConfig P) (attempts : ℕ) : P :=
  if attempts = 0 then config.primary else config.fallback

/-- The product wraps. -/
def ReliableConfig.pause (config : ReliableConfig P) : List (ReliableCall P) :=
  if 0 < config.retryDelayMs then
    [.usleep (Int.bmod (config.retryDelayMs * 1000) (2 ^ 32))]
  else []

/-- The loop, which may take another `n` rounds. -/
def reliableLoop (config : ReliableConfig P) (outcomes : ℕ → ChatOutcome) :
    ℕ → ℕ → ℤ → List (ReliableCall P) × ChatOutcome
  | 0, attempts, lastError => ([], .giveUp attempts lastError)
  | n + 1, attempts, _ =>
      let call := .chatCompletion (config.type attempts)
      let outcome := outcomes attempts
      if outcome.code = 0 ∧ outcome.content ≠ [] then ([call], outcome)
      else if !config.autoFailoverEnabled ∨ config.maxRetries ≤ attempts then
        ([call], .giveUp attempts outcome.code)
      else
        let rest := reliableLoop config outcomes n (attempts + 1) outcome.code
        (call :: config.pause ++ rest.1, rest.2)

/-- The rounds `attempts < config->max_retries + 1` allows; the sum wraps. -/
def ReliableConfig.rounds (config : ReliableConfig P) : ℕ :=
  (Int.bmod (config.maxRetries + 1) (2 ^ 32)).toNat

/-- The calls made, and the return code with the response. -/
def providerReliableCall (config : ReliableConfig P) (outcomes : ℕ → ChatOutcome) :
    List (ReliableCall P) × ChatOutcome :=
  reliableLoop config outcomes config.rounds 0 (-1)

/-! ## Attempts -/

def ReliableCall.attempt : ReliableCall P → Option P
  | .chatCompletion type => some type
  | .usleep _ => none

/-- The providers asked, in this order. -/
def attemptsOf (calls : List (ReliableCall P)) : List P := calls.filterMap ReliableCall.attempt

def ChatOutcome.Succeeds (outcome : ChatOutcome) : Prop := outcome.code = 0 ∧ outcome.content ≠ []

/-- The attempts the configuration allows. -/
def ReliableConfig.allowed (config : ReliableConfig P) : ℕ :=
  if config.autoFailoverEnabled then config.maxRetries.toNat + 1 else 1

/-- What a reliable call promises. -/
structure CallsReliably (config : ReliableConfig P) (outcomes : ℕ → ChatOutcome)
    (run : List (ReliableCall P) × ChatOutcome) : Prop where
  bounded : (attemptsOf run.1).length ≤ config.allowed
  types : attemptsOf run.1 = (List.range (attemptsOf run.1).length).map fun i ↦
    if i = 0 then config.primary else config.fallback
  stops : ∀ i < (attemptsOf run.1).length, (outcomes i).Succeeds →
    i + 1 = (attemptsOf run.1).length
  code : run.2.code = 0 ↔ ∃ i < (attemptsOf run.1).length, (outcomes i).Succeeds

theorem attemptsOf_cons (config : ReliableConfig P) (a : ℕ) (calls : List (ReliableCall P)) :
    attemptsOf (.chatCompletion (config.type a) :: calls) = config.type a :: attemptsOf calls :=
  rfl

theorem attemptsOf_pause (config : ReliableConfig P) (calls : List (ReliableCall P)) :
    attemptsOf (config.pause ++ calls) = attemptsOf calls := by
  rw [ReliableConfig.pause]
  split_ifs <;> rfl

/-- The run of the loop from the attempt `a` on, with `n` retries left, makes
`k` retries: all attempts but the last one are in vain. -/
structure Retries (config : ReliableConfig P) (outcomes : ℕ → ChatOutcome) (a n k : ℕ)
    (run : List (ReliableCall P) × ChatOutcome) : Prop where
  le : k ≤ n
  calls : attemptsOf run.1 = (List.range' a (k + 1)).map config.type
  failed : ∀ i, a ≤ i → i < a + k → ¬ (outcomes i).Succeeds
  single : config.autoFailoverEnabled = false → k = 0
  result : ((outcomes (a + k)).Succeeds ∧ run.2 = outcomes (a + k)) ∨
    (¬ (outcomes (a + k)).Succeeds ∧ (config.autoFailoverEnabled = true → k = n) ∧
      run.2 = .giveUp (a + k) (outcomes (a + k)).code)

theorem retries_zero {config : ReliableConfig P} {outcomes : ℕ → ChatOutcome} {a n : ℕ}
    {result : ChatOutcome}
    (h : ((outcomes a).Succeeds ∧ result = outcomes a) ∨
      (¬ (outcomes a).Succeeds ∧ (config.autoFailoverEnabled = true → 0 = n) ∧
        result = .giveUp a (outcomes a).code)) :
    Retries config outcomes a n 0 ([.chatCompletion (config.type a)], result) where
  le := Nat.zero_le n
  calls := rfl
  failed i hle hlt := absurd hlt (by omega)
  single _ := rfl
  result := h

/-- One more attempt in front, after which the loop goes on. -/
theorem Retries.cons {config : ReliableConfig P} {outcomes : ℕ → ChatOutcome} {a n k : ℕ}
    {run : List (ReliableCall P) × ChatOutcome} (h : Retries config outcomes (a + 1) n k run)
    (hfailed : ¬ (outcomes a).Succeeds) (hauto : config.autoFailoverEnabled = true) :
    Retries config outcomes a (n + 1) (k + 1)
      (.chatCompletion (config.type a) :: config.pause ++ run.1, run.2) where
  le := Nat.succ_le_succ h.le
  calls := by
    rw [List.cons_append, attemptsOf_cons, attemptsOf_pause, h.calls, List.range'_succ (n := k + 1),
      List.map_cons]
  failed i hle hlt := by
    by_cases hi : i = a
    · exact hi ▸ hfailed
    · exact h.failed i (by omega) (by omega)
  single hoff := absurd (hauto.symm.trans hoff) (by decide)
  result := by
    have hindex : a + (k + 1) = a + 1 + k := by omega
    rw [hindex]
    exact h.result.imp_right fun ⟨hlast, hall, hresult⟩ ↦
      ⟨hlast, fun hauto ↦ congrArg (· + 1) (hall hauto), hresult⟩

theorem reliableLoop_retries (config : ReliableConfig P) (outcomes : ℕ → ChatOutcome) (n a : ℕ)
    (lastError : ℤ) (hmax : config.maxRetries = a + n) :
    ∃ k, Retries config outcomes a n k (reliableLoop config outcomes (n + 1) a lastError) := by
  induction n generalizing a lastError with
  | zero =>
      refine ⟨0, ?_⟩
      rw [reliableLoop]
      dsimp only
      split_ifs with hdone hlast
      · exact retries_zero (.inl ⟨hdone, rfl⟩)
      · exact retries_zero (.inr ⟨hdone, fun _ ↦ rfl, rfl⟩)
      · exact absurd (Or.inr (by omega)) hlast
  | succ n ih =>
      rw [reliableLoop]
      dsimp only
      split_ifs with hdone hlast
      · exact ⟨0, retries_zero (.inl ⟨hdone, rfl⟩)⟩
      · have hoff : config.autoFailoverEnabled = false := by
          rcases hlast with hoff | hmore
          · simpa using hoff
          · omega
        exact ⟨0, retries_zero (.inr ⟨hdone, fun hauto ↦ by simp [hoff] at hauto, rfl⟩)⟩
      · obtain ⟨k, hk⟩ := ih (a + 1) (outcomes a).code (by omega)
        have hauto : config.autoFailoverEnabled = true := by
          by_contra hoff
          exact hlast (.inl (by simpa using hoff))
        exact ⟨k + 1, hk.cons hdone hauto⟩

theorem succeeds_iff_of_retries {config : ReliableConfig P} {outcomes : ℕ → ChatOutcome} {n k : ℕ}
    {run : List (ReliableCall P) × ChatOutcome} (h : Retries config outcomes 0 n k run) :
    (∃ i < k + 1, (outcomes i).Succeeds) ↔ (outcomes k).Succeeds := by
  constructor
  · rintro ⟨i, hi, hsucceeds⟩
    by_cases hk : i = k
    · exact hk ▸ hsucceeds
    · exact absurd hsucceeds (h.failed i (Nat.zero_le i) (by omega))
  · exact fun hsucceeds ↦ ⟨k, Nat.lt_succ_self k, hsucceeds⟩

/-- All but the code of the call is right in any case. -/
theorem callsReliably_iff_code {config : ReliableConfig P} {outcomes : ℕ → ChatOutcome} {n k : ℕ}
    {run : List (ReliableCall P) × ChatOutcome} (hmax : config.maxRetries = n)
    (h : Retries config outcomes 0 n k run) :
    CallsReliably config outcomes run ↔ (run.2.code = 0 ↔ (outcomes k).Succeeds) := by
  have hcalls : attemptsOf run.1 = (List.range (k + 1)).map config.type := by
    rw [h.calls, List.range_eq_range']
  have hlen : (attemptsOf run.1).length = k + 1 := by
    rw [hcalls, List.length_map, List.length_range]
  constructor
  · intro hright
    rw [hright.code, hlen, succeeds_iff_of_retries h]
  · intro hcode
    refine ⟨?_, ?_, ?_, ?_⟩
    · rw [hlen, ReliableConfig.allowed]
      split_ifs with hauto
      · have hle := h.le
        omega
      · have hk := h.single (by simpa using hauto)
        omega
    · rw [hlen, hcalls]
      rfl
    · intro i hi hsucceeds
      rw [hlen] at hi ⊢
      by_contra hmore
      exact h.failed i (Nat.zero_le i) (by omega) hsucceeds
    · rw [hcode, hlen, succeeds_iff_of_retries h]

theorem rounds_eq {config : ReliableConfig P} {n : ℕ} (hmax : config.maxRetries = n)
    (hint : n + 1 < 2 ^ 31) : config.rounds = n + 1 := by
  rw [ReliableConfig.rounds, hmax, Int.bmod_eq_of_le (by omega) (by omega)]
  omega

/-- `INT_MAX + 1` wraps to a limit below zero, and no attempt is made. -/
theorem callsReliably_of_intMax {config : ReliableConfig P} (outcomes : ℕ → ChatOutcome)
    (hmax : config.maxRetries = 2 ^ 31 - 1) :
    CallsReliably config outcomes (providerReliableCall config outcomes) := by
  have hrounds : config.rounds = 0 := by
    rw [ReliableConfig.rounds, hmax]
    decide
  have hrun : providerReliableCall config outcomes = ([], .giveUp 0 (-1)) := by
    rw [providerReliableCall, hrounds, reliableLoop]
  have hcalls : (attemptsOf (providerReliableCall config outcomes).1).length = 0 := by
    rw [hrun]
    rfl
  refine ⟨?_, ?_, ?_, ?_⟩
  · rw [hcalls]
    exact Nat.zero_le _
  · rw [hcalls]
    exact List.eq_nil_of_length_eq_zero hcalls
  · rw [hcalls]
    exact fun i hi ↦ absurd hi (Nat.not_lt_zero i)
  · rw [hcalls, hrun]
    refine iff_of_false (Int.negSucc_ne_zero 0) ?_
    rintro ⟨i, hi, -⟩
    exact Nat.not_lt_zero i hi

theorem Retries.succ_eq_allowed {config : ReliableConfig P} {outcomes : ℕ → ChatOutcome} {n k : ℕ}
    {run : List (ReliableCall P) × ChatOutcome} (h : Retries config outcomes 0 n k run)
    (hmax : config.maxRetries = n) (hall : config.autoFailoverEnabled = true → k = n) :
    config.allowed = k + 1 := by
  rw [ReliableConfig.allowed]
  split_ifs with hauto
  · have hk := hall hauto
    omega
  · rw [h.single (by simpa using hauto)]

/-- A reliable call keeps its promises unless all attempts fail and the last
one returned 0 without a text. -/
theorem callsReliably_iff (config : ReliableConfig P) (outcomes : ℕ → ChatOutcome)
    (hmin : 0 ≤ config.maxRetries) (hint : config.maxRetries < 2 ^ 31) :
    CallsReliably config outcomes (providerReliableCall config outcomes) ↔
      config.maxRetries = 2 ^ 31 - 1 ∨ (∃ i < config.allowed, (outcomes i).Succeeds) ∨
        (outcomes (config.allowed - 1)).code ≠ 0 := by
  by_cases hintMax : config.maxRetries = 2 ^ 31 - 1
  · exact iff_of_true (callsReliably_of_intMax outcomes hintMax) (.inl hintMax)
  · obtain ⟨n, hmax⟩ := Int.eq_ofNat_of_zero_le hmin
    obtain ⟨k, hk⟩ := reliableLoop_retries config outcomes n 0 (-1) (by omega)
    rw [← rounds_eq hmax (by omega)] at hk
    change Retries config outcomes 0 n k (providerReliableCall config outcomes) at hk
    have hresult := hk.result
    rw [callsReliably_iff_code hmax hk, or_iff_right hintMax]
    rw [Nat.zero_add] at hresult
    rcases hresult with ⟨hsucceeds, hrun⟩ | ⟨hfails, hall, hrun⟩
    · have hallowed : k < config.allowed := by
        rw [ReliableConfig.allowed]
        split_ifs with hauto
        · have hle := hk.le
          omega
        · have hsingle := hk.single (by simpa using hauto)
          omega
      rw [hrun]
      exact iff_of_true (iff_of_true hsucceeds.1 hsucceeds) (.inl ⟨k, hallowed, hsucceeds⟩)
    · have hnone : ¬ ∃ i < k + 1, (outcomes i).Succeeds := fun h ↦
        hfails ((succeeds_iff_of_retries hk).mp h)
      rw [hk.succ_eq_allowed hmax hall, or_iff_right hnone, hrun, iff_false_right hfails]
      rfl

theorem callsReliably_iff_fallback :
    let config : ReliableConfig Bool := ⟨true, false, 2, 1000, true⟩
    let outcomes : ℕ → ChatOutcome := fun i ↦
      if i = 0 then ⟨-1, [], true⟩ else ⟨0, ascii "hello", true⟩
    0 ≤ config.maxRetries ∧ config.maxRetries < 2 ^ 31 ∧
      (CallsReliably config outcomes (providerReliableCall config outcomes) ↔
        config.maxRetries = 2 ^ 31 - 1 ∨ (∃ i < config.allowed, (outcomes i).Succeeds) ∨
          (outcomes (config.allowed - 1)).code ≠ 0) :=
  ⟨by decide, by decide, callsReliably_iff _ _ (by decide) (by decide)⟩

/-- A provider that answers without a text once makes the call return 0. -/
theorem not_callsReliably :
    ¬ ∀ (config : ReliableConfig Bool) (outcomes : ℕ → ChatOutcome), 0 ≤ config.maxRetries →
      config.maxRetries < 2 ^ 31 →
      CallsReliably config outcomes (providerReliableCall config outcomes) := by
  intro h
  have hright := h ⟨true, false, 0, 1000, true⟩ (fun _ ↦ ⟨0, [], true⟩) (by decide) (by decide)
  have hcode := hright.code
  obtain ⟨i, -, -, hcontent⟩ := hcode.mp (by decide)
  exact hcontent rfl

end DoctorClaw
