import DoctorClaw.Lib.Run
import Mathlib.Algebra.Group.Action.Defs
import Mathlib.Algebra.GroupWithZero.Nat
import Mathlib.Algebra.Order.BigOperators.Group.Finset
import Mathlib.Data.Fintype.Card

/-!
# The rate limit of completions

`provider_chat_completion` asks `check_rate_limit` before a request and
`update_rate_limit` behind it.  The check waits for one second while sixty
requests are counted, and then lets the request pass.  The count only falls
back to zero once there was no request for more than a minute.

The callers share the table without a lock, and each of them may be anywhere
between its check and its update while the others go on.  The clock, in whole
seconds, does not go back.  The count of requests is not bounded by the width
of an `int`.
-/

namespace DoctorClaw

open Transition

/-! ## The table -/

structure RateLimit where
  lastRequestTime : ℕ
  requestsThisMinute : ℕ
  maxRequestsPerMinute : ℕ

/-- The entries of `g_rate_limits` in use. -/
def providersInit : List RateLimit → List RateLimit
  | [] => [⟨0, 0, 60⟩]
  | l :: rest => { l with maxRequestsPerMinute := 60 } :: rest

def RateLimit.reset (l : RateLimit) : RateLimit := { l with requestsThisMinute := 0 }

/-- The entry that `check_rate_limit` leaves, and the seconds slept over it. -/
def RateLimit.check (now : ℕ) (l : RateLimit) : RateLimit × ℕ :=
  let l := if 0 < l.requestsThisMinute ∧ 60 < now - l.lastRequestTime then l.reset else l
  (l, if l.maxRequestsPerMinute ≤ l.requestsThisMinute then 1 else 0)

def checkRateLimit (now : ℕ) (limits : List RateLimit) : List RateLimit × ℕ :=
  (limits.map fun l ↦ (l.check now).1, (limits.map fun l ↦ (l.check now).2).sum)

def RateLimit.update (now : ℕ) (l : RateLimit) : RateLimit :=
  let l := if 60 < now - l.lastRequestTime then l.reset else l
  { l with requestsThisMinute := l.requestsThisMinute + 1, lastRequestTime := now }

def updateRateLimit (now : ℕ) (limits : List RateLimit) : List RateLimit :=
  limits.map (RateLimit.update now)

/-! ## Callers -/

/-- A caller behind its check. -/
structure PassedCheck where
  checked : ℕ
  slept : ℕ

structure Completions (C : Type*) where
  limits : List RateLimit
  clock : ℕ
  call : C → Option PassedCheck

inductive CompletionEvent (C : Type*)
  | check (caller : C) (now : ℕ)
  | update (caller : C) (now : ℕ)
  | unsupported (caller : C)

variable {C : Type*}

/-- The state behind `providers_init`. -/
def Completions.start (clock : ℕ) : Completions C := ⟨providersInit [], clock, fun _ ↦ none⟩

/-- The steps of `provider_chat_completion` for all callers, as long as no two
calls of `check_rate_limit` and `update_rate_limit` overlap: these read and write
the plain integers of the limits without a lock, and between the read and the
write of one the update of another would be lost.  An unsupported provider returns
in front of the update. -/
inductive CompletionStep [DecidableEq C] :
    Completions C → CompletionEvent C → Completions C → Prop
  | check {s : Completions C} (caller : C) (now : ℕ) (hcall : s.call caller = none)
      (hnow : s.clock ≤ now) :
      CompletionStep s (.check caller now)
        { limits := (checkRateLimit now s.limits).1
          clock := now
          call := Function.update s.call caller
            (some ⟨now, (checkRateLimit now s.limits).2⟩) }
  | update {s : Completions C} {p : PassedCheck} (caller : C) (now : ℕ)
      (hcall : s.call caller = some p) (hnow : s.clock ≤ now) (hslept : p.checked + p.slept ≤ now) :
      CompletionStep s (.update caller now)
        { limits := updateRateLimit now s.limits
          clock := now
          call := Function.update s.call caller none }
  | unsupported {s : Completions C} {p : PassedCheck} (caller : C)
      (hcall : s.call caller = some p) : CompletionStep s (.unsupported caller)
        { s with call := Function.update s.call caller none }

def CompletionEvent.requestIn (a b : ℕ) : CompletionEvent C → Bool
  | .update _ now => decide (a ≤ now ∧ now ≤ b)
  | _ => false

/-- The requests that were counted from the second `a` to the second `b`. -/
def requestsIn (a b : ℕ) (ls : List (CompletionEvent C)) : ℕ :=
  ls.countP (CompletionEvent.requestIn a b)

theorem requestsIn_append (a b : ℕ) (ls : List (CompletionEvent C)) (e : CompletionEvent C) :
    requestsIn a b (ls ++ [e]) = requestsIn a b ls + if e.requestIn a b then 1 else 0 := by
  rw [requestsIn, List.countP_append, List.countP_singleton, requestsIn]

/-! ## Requests in the count -/

section Spent

variable {a n now r base : ℕ} {l l' : RateLimit} {s s' : Completions C}
  {caller : C}

structure CheckedBefore (l : RateLimit) (s : Completions C) : Prop where
  last_le : l.lastRequestTime ≤ s.clock
  checked_le : ∀ c p, s.call c = some p → p.checked ≤ s.clock

/-- The requests that a caller may have made past a full count since the
second `r`: at most one for each second up to its last check. -/
def Completions.allowance (s : Completions C) (r : ℕ) (c : C) : ℕ :=
  match s.call c with
  | none => s.clock + 1 - r
  | some p => if p.slept = 0 then 0 else p.checked + 1 - r

theorem CheckedBefore.allowance_le (h : CheckedBefore l s) (r : ℕ) (c : C) :
    s.allowance r c ≤ s.clock + 1 - r := by
  rw [Completions.allowance]
  split
  · exact le_rfl
  · next p hp =>
      have hchecked := h.checked_le c p hp
      split_ifs <;> omega

theorem allowance_mono (hclock : s.clock ≤ s'.clock) {c : C} (hcall : s'.call c = s.call c) :
    s.allowance r c ≤ s'.allowance r c := by
  unfold Completions.allowance
  rw [hcall]
  split
  · omega
  · exact le_rfl

theorem CheckedBefore.free [DecidableEq C] (h : CheckedBefore l s)
    (hlast : l'.lastRequestTime ≤ now) (hnow : s.clock ≤ now) (caller : C)
    (limits : List RateLimit) :
    CheckedBefore l' (⟨limits, now, Function.update s.call caller none⟩ : Completions C) := by
  refine ⟨hlast, fun c p hp ↦ ?_⟩
  dsimp only at hp
  by_cases hc : c = caller
  · subst hc
    rw [Function.update_self] at hp
    cases hp
  · rw [Function.update_of_ne hc] at hp
    exact (h.checked_le c p hp).trans hnow

variable [Fintype C]

theorem CheckedBefore.sum_allowance_le (h : CheckedBefore l s) (r : ℕ) :
    ∑ c, s.allowance r c ≤ Fintype.card C * (s.clock + 1 - r) := by
  have hle := Finset.sum_le_card_nsmul Finset.univ (s.allowance r) (s.clock + 1 - r)
    fun c _ ↦ h.allowance_le r c
  rwa [smul_eq_mul] at hle

/-- The `n` requests since the second `a` are `base` ones from before the
second `r`, when the count was zero, and those counted since.  Sixty of these
found room in the count, the others slept. -/
structure SpentSince (a n r base : ℕ) (l : RateLimit) (s : Completions C) : Prop where
  from_le : a ≤ r
  le_clock : r ≤ s.clock
  base_le : base ≤ Fintype.card C * (r - a)
  room : l.requestsThisMinute < 60 → n ≤ base + l.requestsThisMinute
  full : 60 ≤ l.requestsThisMinute → n ≤ base + 59 + ∑ c, s.allowance r c

/-- No request was made since the second `a`, or the last one was, and the
requests are within the limit up to it. -/
def Spent (a n : ℕ) (l : RateLimit) (s : Completions C) : Prop :=
  n = 0 ∨ (a ≤ l.lastRequestTime ∧ n ≤ 59 + Fintype.card C * (l.lastRequestTime + 1 - a) ∧
    ∃ r base, SpentSince a n r base l s)

/-- All requests since the second `a`, at any time. -/
theorem SpentSince.le (h : SpentSince a n r base l s) (hs : CheckedBefore l s) (caller : C) :
    n ≤ 59 + Fintype.card C * (s.clock + 1 - a) := by
  have hcard : 1 ≤ Fintype.card C := Fintype.card_pos_iff.mpr ⟨caller⟩
  have hfrom := h.from_le
  have hclock := h.le_clock
  have hbase := h.base_le
  have hsplit : Fintype.card C * (s.clock + 1 - a) =
      Fintype.card C * (r - a) + Fintype.card C * (s.clock + 1 - r) := by
    rw [← Nat.mul_add]
    congr 1
    omega
  by_cases hfull : 60 ≤ l.requestsThisMinute
  · have hn := h.full hfull
    have hsum := hs.sum_allowance_le r
    omega
  · have hn := h.room (by omega)
    omega

/-- A minute without requests makes up for sixty of them. -/
theorem le_of_gap (hfrom : a ≤ l.lastRequestTime)
    (hle : n ≤ 59 + Fintype.card C * (l.lastRequestTime + 1 - a)) (caller : C)
    (hgap : 60 < now - l.lastRequestTime) : n ≤ Fintype.card C * (now - a) := by
  have hcard : 1 ≤ Fintype.card C := Fintype.card_pos_iff.mpr ⟨caller⟩
  calc n ≤ 59 + Fintype.card C * (l.lastRequestTime + 1 - a) := hle
    _ ≤ Fintype.card C * 60 + Fintype.card C * (l.lastRequestTime + 1 - a) := by omega
    _ = Fintype.card C * (60 + (l.lastRequestTime + 1 - a)) := (Nat.mul_add _ _ _).symm
    _ ≤ Fintype.card C * (now - a) := Nat.mul_le_mul_left _ (by omega)

variable [DecidableEq C]

theorem Spent.check (h : Spent a n l s) (hmax : l.maxRequestsPerMinute = 60)
    (hcall : s.call caller = none) (hnow : s.clock ≤ now) (limits : List RateLimit) :
    Spent a n (l.check now).1
      ⟨limits, now, Function.update s.call caller (some ⟨now, (l.check now).2⟩)⟩ := by
  obtain hzero | ⟨hfrom, hle, r, base, hsince⟩ := h
  · exact .inl hzero
  right
  rw [RateLimit.check]
  split_ifs with hgap hfull hfull
  -- the count was full, and falls back to zero all the same
  · exact absurd (hmax ▸ hfull) (Nat.not_le_of_lt (by decide : 0 < 60))
  · have hbase := le_of_gap hfrom hle caller hgap.2
    exact ⟨hfrom, hle, now, n, by omega, le_rfl, hbase, fun _ ↦ Nat.le_add_right _ _,
      fun hfull' ↦ absurd hfull' (Nat.not_le_of_lt (by decide : 0 < 60))⟩
  · refine ⟨hfrom, hle, r, base, hsince.from_le, hsince.le_clock.trans hnow, hsince.base_le,
      hsince.room, fun _ ↦ (hsince.full (hmax ▸ hfull)).trans (Nat.add_le_add_left ?_ _)⟩
    refine Finset.sum_le_sum fun c _ ↦ ?_
    by_cases hc : c = caller
    · subst hc
      rw [Completions.allowance, hcall, Completions.allowance]
      dsimp only
      rw [Function.update_self]
      exact Nat.sub_le_sub_right (Nat.add_le_add_right hnow 1) r
    · exact allowance_mono hnow (Function.update_of_ne hc _ _)
  · exact ⟨hfrom, hle, r, base, hsince.from_le, hsince.le_clock.trans hnow, hsince.base_le,
      hsince.room, fun hfull' ↦ absurd (hmax ▸ hfull') hfull⟩

theorem Spent.unsupported {p : PassedCheck} (h : Spent a n l s) (hs : CheckedBefore l s)
    (hcall : s.call caller = some p) :
    Spent a n l { s with call := Function.update s.call caller none } := by
  obtain hzero | ⟨hfrom, hle, r, base, hsince⟩ := h
  · exact .inl hzero
  refine .inr ⟨hfrom, hle, r, base, hsince.from_le, hsince.le_clock, hsince.base_le, hsince.room,
    fun hfull ↦ (hsince.full hfull).trans (Nat.add_le_add_left ?_ _)⟩
  refine Finset.sum_le_sum fun c _ ↦ ?_
  by_cases hc : c = caller
  · subst hc
    have hle := hs.allowance_le r c
    conv_rhs => rw [Completions.allowance]
    dsimp only
    rwa [Function.update_self]
  · have hsame : Function.update s.call caller none c = s.call c := Function.update_of_ne hc _ _
    unfold Completions.allowance
    dsimp only
    rw [hsame]

/-- A request behind the check uses up what its caller was allowed. -/
theorem sum_allowance_update {p : PassedCheck} (hcall : s.call caller = some p)
    (hnow : s.clock ≤ now) (hslept : p.checked + p.slept ≤ now) (hr : r ≤ now)
    (limits : List RateLimit) :
    ∑ c, s.allowance r c <
      ∑ c, (⟨limits, now, Function.update s.call caller none⟩ : Completions C).allowance r c := by
  have hcaller : s.allowance r caller < now + 1 - r := by
    rw [Completions.allowance, hcall]
    dsimp only
    split_ifs <;> omega
  refine Finset.sum_lt_sum (fun c _ ↦ ?_) ⟨caller, Finset.mem_univ caller, ?_⟩
  · by_cases hc : c = caller
    · subst hc
      conv_rhs => rw [Completions.allowance]
      dsimp only
      rw [Function.update_self]
      exact hcaller.le
    · exact allowance_mono hnow (Function.update_of_ne hc _ _)
  · conv_rhs => rw [Completions.allowance]
    dsimp only
    rwa [Function.update_self]

theorem SpentSince.update {p : PassedCheck} (h : SpentSince a n r base l s)
    (hcall : s.call caller = some p) (hnow : s.clock ≤ now) (hslept : p.checked + p.slept ≤ now)
    (hgap : ¬ 60 < now - l.lastRequestTime) (limits : List RateLimit) :
    SpentSince a (n + 1) r base (l.update now)
      ⟨limits, now, Function.update s.call caller none⟩ := by
  have hr := h.le_clock.trans hnow
  have hlt := sum_allowance_update hcall hnow hslept hr limits
  rw [RateLimit.update, if_neg hgap]
  refine ⟨h.from_le, hr, h.base_le, fun hroom ↦ ?_, fun hfull ↦ ?_⟩
  · have hn := h.room (Nat.lt_of_succ_lt hroom)
    exact Nat.succ_le_succ hn
  · by_cases hwas : 60 ≤ l.requestsThisMinute
    · have hn := h.full hwas
      omega
    -- the sixtieth request of the count
    · have hn := h.room (by omega)
      dsimp only at hfull
      omega

theorem Spent.update {p : PassedCheck} (h : Spent a n l s) (hs : CheckedBefore l s)
    (hcall : s.call caller = some p) (hnow : s.clock ≤ now) (hslept : p.checked + p.slept ≤ now)
    (limits : List RateLimit) :
    Spent a (n + if a ≤ now then 1 else 0) (l.update now)
      ⟨limits, now, Function.update s.call caller none⟩ := by
  have hbefore : CheckedBefore (l.update now)
      ⟨limits, now, Function.update s.call caller none⟩ := hs.free le_rfl hnow caller limits
  have hcount : 1 ≤ (l.update now).requestsThisMinute := Nat.le_add_left 1 _
  by_cases ha : a ≤ now
  · rw [if_pos ha]
    suffices hsince : ∃ r base, SpentSince a (n + 1) r base (l.update now)
        (⟨limits, now, Function.update s.call caller none⟩ : Completions C) by
      obtain ⟨r, base, hsince⟩ := hsince
      exact .inr ⟨ha, hsince.le hbefore caller, r, base, hsince⟩
    obtain rfl | ⟨hfrom, hle, r, base, hsince⟩ := h
    · exact ⟨a, 0, le_rfl, ha, Nat.zero_le _, fun _ ↦ by omega, fun _ ↦ by omega⟩
    · by_cases hgap : 60 < now - l.lastRequestTime
      · refine ⟨now, n, ha, le_rfl, le_of_gap hfrom hle caller hgap, fun _ ↦ by omega,
          fun hfull ↦ ?_⟩
        rw [RateLimit.update, if_pos hgap] at hfull
        exact absurd hfull (Nat.not_le_of_lt (by decide : 1 < 60))
      · exact ⟨r, base, hsince.update hcall hnow hslept hgap limits⟩
  · rw [if_neg ha]
    obtain hzero | ⟨hfrom, -, -⟩ := h
    · exact .inl hzero
    · exact absurd (hfrom.trans (hs.last_le.trans hnow)) ha

end Spent

/-! ## Runs -/

section Runs

variable [Fintype C] {a b n : ℕ} {ls : List (CompletionEvent C)} {s s' : Completions C}
  {l : RateLimit}

theorem Spent.le (h : Spent a n l s) (hs : CheckedBefore l s) (hb : s.clock ≤ b) :
    n ≤ 59 + Fintype.card C * (b + 1 - a) := by
  obtain hzero | ⟨-, hle, -⟩ := h
  · omega
  · have hlast := hs.last_le
    exact hle.trans (Nat.add_le_add_left (Nat.mul_le_mul_left _ (by omega)) _)

/-- The one entry in use, and the requests it counted up to the second `b`. -/
structure Metered (a b : ℕ) (ls : List (CompletionEvent C)) (s : Completions C)
    (l : RateLimit) : Prop where
  limits : s.limits = [l]
  max : l.maxRequestsPerMinute = 60
  before : CheckedBefore l s
  spent : s.clock ≤ b → Spent a (requestsIn a b ls) l s
  le : requestsIn a b ls ≤ 59 + Fintype.card C * (b + 1 - a)

theorem metered_start (a b clock : ℕ) :
    Metered a b [] (Completions.start clock : Completions C) ⟨0, 0, 60⟩ where
  limits := rfl
  max := rfl
  before := ⟨Nat.zero_le _, fun _ _ hp ↦ nomatch hp⟩
  spent _ := .inl rfl
  le := Nat.zero_le _

variable [DecidableEq C]

theorem Metered.check (h : Metered a b ls s l) {caller : C} {now : ℕ}
    (hcall : s.call caller = none) (hnow : s.clock ≤ now) :
    Metered a b (ls ++ [.check caller now])
      { limits := (checkRateLimit now s.limits).1
        clock := now
        call := Function.update s.call caller (some ⟨now, (checkRateLimit now s.limits).2⟩) }
      (l.check now).1 := by
  have hslept : (checkRateLimit now s.limits).2 = (l.check now).2 := by
    rw [h.limits]
    exact Nat.add_zero _
  have hlast : (l.check now).1.lastRequestTime = l.lastRequestTime := by
    rw [RateLimit.check]
    split_ifs <;> rfl
  have hcount : requestsIn a b (ls ++ [.check caller now]) = requestsIn a b ls :=
    requestsIn_append a b ls _
  rw [hslept]
  refine ⟨by rw [h.limits]; rfl, ?_, ⟨?_, fun c p hp ↦ ?_⟩, fun hb ↦ ?_, hcount ▸ h.le⟩
  · rw [RateLimit.check]
    split_ifs <;> exact h.max
  · rw [hlast]
    exact h.before.last_le.trans hnow
  · dsimp only at hp
    by_cases hc : c = caller
    · subst hc
      rw [Function.update_self] at hp
      exact (congrArg PassedCheck.checked (Option.some.inj hp)).ge
    · rw [Function.update_of_ne hc] at hp
      exact (h.before.checked_le c p hp).trans hnow
  · rw [hcount]
    exact (h.spent (hnow.trans hb)).check h.max hcall hnow _

theorem Metered.unsupported (h : Metered a b ls s l) {caller : C} {p : PassedCheck}
    (hcall : s.call caller = some p) :
    Metered a b (ls ++ [.unsupported caller])
      { s with call := Function.update s.call caller none } l := by
  have hcount : requestsIn a b (ls ++ [.unsupported caller]) = requestsIn a b ls :=
    requestsIn_append a b ls _
  refine ⟨h.limits, h.max, h.before.free h.before.last_le le_rfl caller s.limits, fun hb ↦ ?_,
    hcount ▸ h.le⟩
  rw [hcount]
  exact (h.spent hb).unsupported h.before hcall

theorem Metered.update (h : Metered a b ls s l) {caller : C} {p : PassedCheck} {now : ℕ}
    (hcall : s.call caller = some p) (hnow : s.clock ≤ now) (hslept : p.checked + p.slept ≤ now) :
    Metered a b (ls ++ [.update caller now])
      { limits := updateRateLimit now s.limits
        clock := now
        call := Function.update s.call caller none } (l.update now) := by
  have hcount : requestsIn a b (ls ++ [.update caller now]) =
      requestsIn a b ls + if a ≤ now ∧ now ≤ b then 1 else 0 := by
    rw [requestsIn_append, CompletionEvent.requestIn]
    simp only [decide_eq_true_eq]
  have hbefore : CheckedBefore (l.update now)
      ⟨updateRateLimit now s.limits, now, Function.update s.call caller none⟩ :=
    h.before.free le_rfl hnow caller _
  have hspent : now ≤ b → Spent a (requestsIn a b (ls ++ [.update caller now])) (l.update now)
      ⟨updateRateLimit now s.limits, now, Function.update s.call caller none⟩ := by
    intro hb
    simp only [hcount, and_iff_left hb]
    exact (h.spent (hnow.trans hb)).update h.before hcall hnow hslept (updateRateLimit now s.limits)
  refine ⟨by rw [h.limits]; rfl, ?_, hbefore, hspent, ?_⟩
  · rw [RateLimit.update]
    split_ifs <;> exact h.max
  · by_cases hb : now ≤ b
    · exact (hspent hb).le hbefore hb
    · rw [hcount, if_neg fun hin ↦ hb hin.2]
      exact h.le

/-- While the callers come and go, and their checks and updates do not overlap, at
most sixty requests and one more for each caller and second are made from the
second `a` to the second `b`. -/
theorem completions_are_metered (clock a b : ℕ)
    (hrun : Run CompletionStep (Completions.start clock) ls s) :
    requestsIn a b ls ≤ 59 + Fintype.card C * (b + 1 - a) := by
  suffices hmetered : ∃ l, Metered a b ls s l by
    obtain ⟨l, hmetered⟩ := hmetered
    exact hmetered.le
  refine hrun.invariant_trace (I := fun ls s ↦ ∃ l, Metered a b ls s l)
    ⟨_, metered_start a b clock⟩ ?_
  rintro ls s e s' - ⟨l, hmetered⟩ hstep
  cases hstep with
  | check caller now hcall hnow => exact ⟨_, hmetered.check hcall hnow⟩
  | update caller now hcall hnow hslept => exact ⟨_, hmetered.update hcall hnow hslept⟩
  | unsupported caller hcall => exact ⟨_, hmetered.unsupported hcall⟩

end Runs

/-! ## One caller that asks as often as it can -/

/-- A single caller is between two requests. -/
def betweenRequests (now count : ℕ) : Completions Unit := ⟨[⟨now, count, 60⟩], now, fun _ ↦ none⟩

/-- One more request, after a sleep if the count is full. -/
theorem run_request {clock a last now count slept : ℕ} {ls : List (CompletionEvent Unit)}
    {s : Completions Unit} (hrun : Run CompletionStep (Completions.start clock) ls s)
    (hlimits : s.limits = [⟨last, count, 60⟩]) (hcall : s.call () = none) (hnow : s.clock ≤ now)
    (hlast : count = 0 ∨ now = last) (ha : a ≤ now) (hslept : slept = if 60 ≤ count then 1 else 0) :
    ∃ ls', Run CompletionStep (Completions.start clock) ls'
        (betweenRequests (now + slept) (count + 1)) ∧
      ∀ b, now + slept ≤ b → requestsIn a b ls' = requestsIn a b ls + 1 := by
  have hgap : ¬ (0 < count ∧ 60 < now - last) := by omega
  have hcheck : checkRateLimit now s.limits = ([⟨last, count, 60⟩], slept) := by
    simp [checkRateLimit, RateLimit.check, hlimits, if_neg hgap, hslept]
  have hcount : updateRateLimit (now + slept) [⟨last, count, 60⟩] =
      [⟨now + slept, count + 1, 60⟩] := by
    have hlate : ¬ (60 < now + slept - last) ∨ count = 0 := by
      split_ifs at hslept <;> omega
    simp only [updateRateLimit, List.map_cons, List.map_nil, RateLimit.update, RateLimit.reset]
    split_ifs with hover
    · rw [hlate.resolve_left (not_not_intro hover)]
    · rfl
  have hpassed : Function.update s.call () (some ⟨now, slept⟩) () = some ⟨now, slept⟩ :=
    Function.update_self _ _ _
  have hidle : Function.update (Function.update s.call () (some ⟨now, slept⟩)) () none =
      fun _ ↦ none := funext fun _ ↦ Function.update_self _ _ _
  have hchecked := hrun.snoc (.check () now hcall hnow)
  rw [hcheck] at hchecked
  have hupdated := hchecked.snoc
    (.update () (now + slept) hpassed (Nat.le_add_right _ _) (Nat.le_refl _))
  rw [hidle, hcount] at hupdated
  refine ⟨_, hupdated, fun b hb ↦ ?_⟩
  have hin : (CompletionEvent.update () (now + slept)).requestIn a b = true :=
    decide_eq_true ⟨ha.trans (Nat.le_add_right _ _), hb⟩
  rw [requestsIn_append, requestsIn_append, if_pos hin]
  rfl

theorem exists_run_full (a : ℕ) {count : ℕ} (hcount : count ≤ 60) :
    ∃ ls s, Run CompletionStep (Completions.start a : Completions Unit) ls s ∧
      (∃ last, s.limits = [⟨last, count, 60⟩] ∧ (count = 0 ∨ a = last)) ∧ s.call () = none ∧
      s.clock = a ∧ ∀ b, a ≤ b → requestsIn a b ls = count := by
  induction count with
  | zero => exact ⟨[], _, .nil, ⟨0, rfl, .inl rfl⟩, rfl, rfl, fun b _ ↦ rfl⟩
  | succ count ih =>
      obtain ⟨ls, s, hrun, ⟨last, hlimits, hlast⟩, hcall, hclock, hin⟩ := ih (by omega)
      have hslept : 0 = if 60 ≤ count then 1 else 0 := (if_neg (by omega)).symm
      obtain ⟨ls', hrun', hin'⟩ := run_request hrun hlimits hcall hclock.le hlast (le_refl a) hslept
      exact ⟨ls', _, hrun', ⟨a, rfl, .inr rfl⟩, rfl, rfl, fun b hb ↦ by rw [hin' b hb, hin b hb]⟩

/-- Sixty requests at once, and one more every second. -/
theorem exists_busy_run (a seconds : ℕ) :
    ∃ ls, Run CompletionStep (Completions.start a) ls
        (betweenRequests (a + seconds) (60 + seconds)) ∧
      ∀ b, a + seconds ≤ b → requestsIn a b ls = 60 + seconds := by
  induction seconds with
  | zero =>
      obtain ⟨ls, s, hrun, ⟨last, hlimits, hlast⟩, hcall, hclock, hin⟩ :=
        exists_run_full a (le_refl 60)
      obtain rfl : a = last := hlast.resolve_left (by decide)
      obtain ⟨limits, clock, call⟩ := s
      obtain rfl : call = fun _ ↦ none := funext fun _ ↦ hcall
      dsimp only at hlimits hclock
      subst hlimits hclock
      exact ⟨ls, hrun, hin⟩
  | succ seconds ih =>
      obtain ⟨ls, hrun, hin⟩ := ih
      have hslept : 1 = if 60 ≤ 60 + seconds then 1 else 0 :=
        (if_pos (Nat.le_add_right 60 seconds)).symm
      obtain ⟨ls', hrun', hin'⟩ :=
        run_request hrun rfl rfl le_rfl (.inr rfl) (Nat.le_add_right a _) hslept
      exact ⟨ls', hrun', fun b hb ↦ by rw [hin' b hb, hin b (by omega)]; rfl⟩

/-- One caller makes 120 requests within a minute. -/
theorem completions_are_metered_busy :
    ∃ (ls : List (CompletionEvent Unit)) (s : Completions Unit),
      Run CompletionStep (Completions.start 100) ls s ∧ requestsIn 100 160 ls = 120 ∧
        requestsIn 100 160 ls ≤ 59 + Fintype.card Unit * (160 + 1 - 100) := by
  obtain ⟨ls, hrun, hin⟩ := exists_busy_run 100 60
  exact ⟨ls, _, hrun, hin 160 le_rfl, completions_are_metered 100 100 160 hrun⟩

end DoctorClaw
