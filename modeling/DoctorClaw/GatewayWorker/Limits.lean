import DoctorClaw.GatewayWorker.Accounts

/-!
# How much a client gets

The gateway gives every client a window of its own, and a client that waits for
the end of a window can use two of them in a row.  More than that it does not
get, from whatever moment on one counts and whatever the other clients do, as
long as no bucket is taken from an address whose window is open.
-/

namespace DoctorClaw

open Transition FixedWindow

/-! ## Requests that are refused for their form -/

theorem securityMonitorCheckRequest_screened {m : SecurityMonitor} {now : ℕ} {req : Request}
    {rejection : SecmonResult × Bytes} (h : req.screened m.config = some rejection) :
    securityMonitorCheckRequest m now req = (rejection, m) := by
  rw [securityMonitorCheckRequest, h]

theorem securityMonitorCheckRequest_config (m : SecurityMonitor) (now : ℕ) (req : Request) :
    (securityMonitorCheckRequest m now req).2.config = m.config :=
  (securityMonitorCheckRequest_counters m.config m.buckets m.rateLimitHits m.injectionRejects
    m.rateLimitHits m.injectionRejects now req).2.2

/-- A check that got as far as the rate table. -/
def Counted (config : SecurityMonitorConfig) (c : (ℕ × Request) × SecmonResult) : Prop :=
  c.1.2.screened config = none

instance (config : SecurityMonitorConfig) : DecidablePred (Counted config) := fun c ↦
  inferInstanceAs (Decidable (c.1.2.screened config = none))

/-- The other checks leave the monitor as it was, and can be left out. -/
theorem counted_run {m : SecurityMonitor} {checks : List ((ℕ × Request) × SecmonResult)}
    (hrun : (checks.map fun c ↦ (c.1.2.clientIp, c.2)) =
      securityMonitorRun m (checks.map Prod.fst))
    (hundisturbed : UndisturbedRun m (checks.map Prod.fst)) :
    ((checks.filter fun c ↦ Counted m.config c).map fun c ↦ (c.1.2.clientIp, c.2)) =
        securityMonitorRun m ((checks.filter fun c ↦ Counted m.config c).map Prod.fst) ∧
      UndisturbedRun m ((checks.filter fun c ↦ Counted m.config c).map Prod.fst) := by
  induction checks generalizing m with
  | nil => exact ⟨rfl, trivial⟩
  | cons c checks ih =>
      obtain ⟨⟨now, req⟩, verdict⟩ := c
      rw [List.map_cons, List.map_cons, securityMonitorRun, List.cons.injEq] at hrun
      obtain ⟨hhead, hrest⟩ := hrun
      obtain ⟨hown, hundisturbed⟩ := hundisturbed
      have hconfig := securityMonitorCheckRequest_config m now req
      obtain ⟨heq, hfree⟩ := ih hrest hundisturbed
      rw [hconfig] at heq hfree
      by_cases hcounted : Counted m.config ((now, req), verdict)
      · rw [List.filter_cons_of_pos (by simpa using hcounted), List.map_cons, List.map_cons,
          securityMonitorRun, heq]
        exact ⟨congrArg (· :: _) hhead, hown, hfree⟩
      · obtain ⟨rejection, hrejection⟩ := Option.ne_none_iff_exists'.mp hcounted
        rw [securityMonitorCheckRequest_screened hrejection] at heq hfree
        rw [List.filter_cons_of_neg (by simpa using hcounted)]
        exact ⟨heq, hfree⟩

/-! ## Every run -/

/-- The requests of an address that get past the rate limit from `a` on, for
the length of a window. -/
def admittedChecks (config : SecurityMonitorConfig) (ip : Bytes) (a : ℕ)
    (checks : List ((ℕ × Request) × SecmonResult)) : ℕ :=
  checks.countP fun c ↦ Counted config c ∧ c.1.2.clientIp = ip ∧ c.2 ≠ .rateLimited ∧
    a ≤ c.1.1 ∧ c.1.1 < a + config.rateWindowSec.toNat

theorem admittedChecks_le {config : SecurityMonitorConfig}
    (henabled : config.rateLimitEnabled = true) {checks : List ((ℕ × Request) × SecmonResult)}
    (hrun : (checks.map fun c ↦ (c.1.2.clientIp, c.2)) =
      securityMonitorRun (securityMonitorInit config) (checks.map Prod.fst))
    (htimes : (checks.map fun c ↦ c.1.1).Pairwise (· ≤ ·))
    (hip : ∀ c ∈ checks, c.1.2.clientIp.length < secmonIpMax)
    (hundisturbed : UndisturbedRun (securityMonitorInit config) (checks.map Prod.fst))
    (ip : Bytes) (a : ℕ) :
    admittedChecks config ip a checks ≤ 2 * config.rateLimitPerWindow.toNat := by
  obtain ⟨counted, hcounted⟩ : ∃ counted, checks.filter (fun c ↦ Counted config c) = counted :=
    ⟨_, rfl⟩
  have hsub : counted.Sublist checks := hcounted ▸ List.filter_sublist
  obtain ⟨hverdicts, hfree⟩ := counted_run hrun hundisturbed
  rw [show (securityMonitorInit config).config = config from rfl, hcounted] at hverdicts hfree
  have hcountedTimes : (counted.map fun c ↦ c.1.1).Pairwise (· ≤ ·) :=
    htimes.sublist (hsub.map _)
  have hkeyed := @securityMonitorRun_eq_keyedVerdicts _ (counted.map Prod.fst) _ _
    (agrees_init config 0) henabled
    (List.pairwise_cons.mpr ⟨fun _ _ ↦ Nat.zero_le _, by simpa [Function.comp_def] using hcountedTimes⟩)
    (fun p hp ↦ by
      obtain ⟨c, hc, rfl⟩ := List.mem_map.mp hp
      rw [← hcounted] at hc
      exact of_decide_eq_true (List.mem_filter.mp hc).2)
    (fun p hp ↦ by
      obtain ⟨c, hc, rfl⟩ := List.mem_map.mp hp
      exact hip c (hsub.subset hc)) hfree
  rw [← hverdicts, List.map_map, List.map_map] at hkeyed
  have hle : keyedAdmittedFrom config.rateLimitPerWindow.toNat config.rateWindowSec.toNat a
      (fun _ ↦ Counter.closed) ip
      (counted.map ((fun a : ℕ × Request ↦ (a.2.clientIp, a.1)) ∘ Prod.fst)) ≤
      2 * config.rateLimitPerWindow.toNat :=
    keyedAdmittedFrom_le _ _ (by simpa [Function.comp_def] using hcountedTimes)
  have hsame : keyedAdmittedFrom config.rateLimitPerWindow.toNat config.rateWindowSec.toNat a
      (fun _ ↦ Counter.closed) ip
      (counted.map ((fun a : ℕ × Request ↦ (a.2.clientIp, a.1)) ∘ Prod.fst)) =
      admittedChecks config ip a checks := by
    rw [keyedAdmittedFrom, show keyedVerdicts config.rateLimitPerWindow.toNat
      config.rateWindowSec.toNat _ _ = _ from hkeyed.symm, List.zip_map', List.countP_map,
      ← hcounted, List.countP_filter, admittedChecks]
    apply List.countP_congr
    intro c _
    simp only [Function.comp_apply, Bool.and_eq_true, decide_eq_true_eq, decide_eq_false_iff_not,
      ne_eq]
    tauto
  rw [← hsame]
  exact hle

section Runs

variable {V : Type} {ops : DoubleOps V} {config : SecurityMonitorConfig} {obs : Observability V}
  {g : Gateway V} {ls : List GatewayEvent}

/-- The threads keep the address in a buffer. -/
structure Gateway.ShortAddresses (g : Gateway V) (ls : List GatewayEvent) : Prop where
  workers : ∀ id w, g.workers id = some w → w.clientIp.length < secmonIpMax
  checks : ∀ c ∈ checksOf ls, c.1.2.clientIp.length < secmonIpMax

theorem shortAddresses_of_run (hrun : Run (GatewayStep ops) (Gateway.start config obs) ls g) :
    g.ShortAddresses ls := by
  refine hrun.invariant_trace (I := fun ls g ↦ g.ShortAddresses ls)
    ⟨fun _ _ h ↦ absurd h nofun, fun _ h ↦ absurd h List.not_mem_nil⟩ ?_
  intro ls g e g' _ ⟨hworkers, hchecks⟩ hstep
  have hmoved : ∀ {id : ℕ} {w : Worker} (phase : Phase), g.workers id = some w →
      ∀ id' w', g.moved id w phase id' = some w' → w'.clientIp.length < secmonIpMax := by
    intro id w phase hw id' w' hw'
    by_cases hid : id' = id
    · subst hid
      rw [Gateway.moved, Function.update_self] at hw'
      rw [← Option.some.inj hw']
      exact hworkers id' w hw
    · rw [Gateway.moved, Function.update_of_ne hid] at hw'
      exact hworkers _ _ hw'
  have hquiet : e.checked = none → ∀ c ∈ checksOf (ls ++ [e]), c.1.2.clientIp.length < secmonIpMax := by
    intro hnone
    rwa [checksOf, filterMap_append_one, hnone, Option.toList_none, List.append_nil]
  cases hstep with
  | accept id ip raw inOrder =>
      refine ⟨fun id' w' hw' ↦ ?_, hquiet rfl⟩
      by_cases hid : id' = id
      · subst hid
        dsimp only at hw'
        rw [Function.update_self] at hw'
        rw [← Option.some.inj hw']
        exact CString.length_cut_lt (by decide) _
      · exact hworkers _ _ ((Function.update_of_ne hid _ _).symm.trans hw')
  | check id now hits rejects hw hphase hcheck =>
      refine ⟨hmoved _ hw, ?_⟩
      rw [checksOf, filterMap_append_one]
      intro c hc
      rcases List.mem_append.mp hc with hc | hc
      · exact hchecks c hc
      · obtain rfl : c = _ := by simpa [GatewayEvent.checked] using hc
        exact hworkers _ _ hw
  | connection id now hw | probe id now hw | clear id hw | metric id hw | ids id hw | audit id hw
  | notify id now hw | count id hw | handle id env hw | session id stack decoded received hw
  | respond id hw => exact ⟨hmoved _ hw, hquiet rfl⟩

/-- In every run of all threads together, at most twice the limit of the
requests of an address gets past the rate limit during the length of a window,
wherever it begins. -/
theorem gateway_admits_at_most_twice (henabled : config.rateLimitEnabled = true)
    (hrun : Run (GatewayStep ops) (Gateway.start config obs) ls g)
    (htimes : ((checksOf ls).map fun c ↦ c.1.1).Pairwise (· ≤ ·))
    (hundisturbed : UndisturbedRun (securityMonitorInit config) ((checksOf ls).map Prod.fst))
    (ip : Bytes) (a : ℕ) :
    admittedChecks config ip a (checksOf ls) ≤ 2 * config.rateLimitPerWindow.toNat :=
  admittedChecks_le henabled (accountsFor_of_run hrun).verdicts htimes
    (shortAddresses_of_run hrun).checks hundisturbed ip a

end Runs

def oneEach : SecurityMonitorConfig := { securityMonitorConfigDefaults with rateLimitPerWindow := 1 }

/-- Two requests of one client under a limit of one. -/
theorem gateway_admits_at_most_twice_of_two :
    ∃ (ls : List GatewayEvent) (g : Gateway ℚ),
      Run (GatewayStep (rationalOps printWhole)) (Gateway.start oneEach ⟨[], true⟩) ls g ∧
        (checksOf ls).map Prod.snd = [.ok, .rateLimited] ∧
        admittedChecks oneEach (ascii "10.0.0.1") 100 (checksOf ls) ≤ 2 := by
  have hstep : GatewayStep (rationalOps printWhole) (Gateway.start oneEach ⟨[], true⟩)
      (.accept 1 (ascii "10.0.0.1") (ascii "GET / HTTP/1.1\r\n\r\n")) _ :=
    .accept 1 _ _ false rfl (by decide) (by decide)
  have haccept := Run.nil.snoc hstep
  have hother := haccept.snoc (.accept 2 (ascii "10.0.0.1") (ascii "GET / HTTP/1.1\r\n\r\n") false
    rfl (by decide) (by decide))
  have hfirst := hother.snoc (.connection 1 100 rfl rfl rfl)
  have hsecond := hfirst.snoc (.connection 2 100 rfl rfl rfl)
  have hcheck := hsecond.snoc (.check 1 100 0 0 rfl rfl rfl)
  have hlimited := hcheck.snoc (.check 2 101 0 0 rfl rfl rfl)
  refine ⟨_, _, hlimited, ?_, ?_⟩
  · decide +kernel
  · refine gateway_admits_at_most_twice rfl hlimited ?_ ?_ _ _
    · decide
    · refine ⟨fun h ↦ absurd h (by decide), fun _ ↦ ?_, trivial⟩
      decide +kernel

end DoctorClaw
