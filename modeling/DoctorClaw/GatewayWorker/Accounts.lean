import DoctorClaw.GatewayWorker
import DoctorClaw.Observability

/-!
# What the threads of the gateway share

Every lock of the gateway covers one small section, and a thread enters several
of them for one request.  For all that, the shared state after any run is the
one that the calls leave when they are made one after the other, in the order
of their sections: the ring holds the newest events, every request has the
verdict of a security monitor that sees all requests in this order, and the
metrics are the samples in this order.
-/

namespace DoctorClaw

open Transition

/-! ## What a run has recorded -/

def GatewayEvent.reported : GatewayEvent → Option RuntimeMonitorEvent
  | .probe _ event | .notify _ event => some event
  | _ => none

def GatewayEvent.checked : GatewayEvent → Option ((ℕ × Request) × SecmonResult)
  | .check _ now req verdict => some ((now, req), verdict)
  | _ => none

def GatewayEvent.sampled : GatewayEvent → Option Bytes
  | .metric _ name => some name
  | .count _ => some requestsTotal
  | _ => none

section Monitors

/-- The monitor after a sequence of requests. -/
def securityMonitorAfter (m : SecurityMonitor) (arrivals : List (ℕ × Request)) : SecurityMonitor :=
  arrivals.foldl (fun m a ↦ (securityMonitorCheckRequest m a.1 a.2).2) m

theorem securityMonitorRun_append (m : SecurityMonitor) (arrivals : List (ℕ × Request)) (now : ℕ)
    (req : Request) :
    securityMonitorRun m (arrivals ++ [(now, req)]) =
      securityMonitorRun m arrivals ++
        [(req.clientIp, (securityMonitorCheckRequest (securityMonitorAfter m arrivals) now req).1.1)] := by
  induction arrivals generalizing m with
  | nil => rfl
  | cons a arrivals ih =>
      obtain ⟨now', req'⟩ := a
      rw [List.cons_append, securityMonitorRun, ih, securityMonitorRun, List.cons_append]
      rfl

theorem securityMonitorAfter_append (m : SecurityMonitor) (arrivals : List (ℕ × Request)) (now : ℕ)
    (req : Request) :
    securityMonitorAfter m (arrivals ++ [(now, req)]) =
      (securityMonitorCheckRequest (securityMonitorAfter m arrivals) now req).2 := by
  rw [securityMonitorAfter, List.foldl_append]
  rfl

/-- Only an event moves the ring. -/
theorem HoldsNewest.congr {m m' : RuntimeMonitor} {history : List RuntimeMonitorEvent}
    (h : HoldsNewest m history) (hring : m'.ring = m.ring) (hevents : m'.events = m.events) :
    HoldsNewest m' history := by
  refine ⟨hring ▸ h.wf, ?_⟩
  rw [hring, hevents]
  exact h.view_eq

theorem countConnection_ring (m : RuntimeMonitor) (now : UInt64) (ip : Bytes) :
    (m.countConnection now ip).1.ring = m.ring ∧ (m.countConnection now ip).1.events = m.events ∧
      (m.countConnection now ip).1.initialized = m.initialized := by
  unfold RuntimeMonitor.countConnection
  split_ifs
  · exact ⟨rfl, rfl, rfl⟩
  · split <;> exact ⟨rfl, rfl, rfl⟩

end Monitors

/-! ## One section after the other -/

section Sections

variable {V : Type} (ops : DoubleOps V) (config : SecurityMonitorConfig) (obs : Observability V)

def recordAll (obs : Observability V) (names : List Bytes) : Observability V :=
  names.foldl (fun obs name ↦ observabilityRecordGlobal obs name ops.one) obs

/-- The monitor that has seen the requests of all checks. -/
def monitorAfter (checks : List ((ℕ × Request) × SecmonResult)) : SecurityMonitor :=
  securityMonitorAfter (securityMonitorInit config) (checks.map Prod.fst)

/-- The shared state is what the calls leave in their order. -/
structure Gateway.Accounts (g : Gateway V) (events : List RuntimeMonitorEvent)
    (checks : List ((ℕ × Request) × SecmonResult)) (samples : List Bytes) : Prop where
  initialized : g.monitor.initialized = true
  events : HoldsNewest g.monitor events
  config_eq : g.config = config
  config_after : (monitorAfter config checks).config = config
  rates : g.rates = (monitorAfter config checks).buckets
  verdicts : (checks.map fun c ↦ (c.1.2.clientIp, c.2)) =
    securityMonitorRun (securityMonitorInit config) (checks.map Prod.fst)
  obs_eq : g.obs = recordAll ops obs samples

variable {ops config obs} {g g' : Gateway V} {events : List RuntimeMonitorEvent}
  {checks : List ((ℕ × Request) × SecmonResult)} {samples : List Bytes}

theorem accounts_start : (Gateway.start config obs).Accounts ops config obs [] [] [] where
  initialized := rfl
  events := holdsNewest_init (m := runtimeMonitorStatics) rfl
  config_eq := rfl
  config_after := rfl
  rates := rfl
  verdicts := rfl
  obs_eq := rfl

theorem Gateway.Accounts.congr (h : g.Accounts ops config obs events checks samples)
    (hring : g'.monitor.ring = g.monitor.ring ∧ g'.monitor.events = g.monitor.events ∧
      g'.monitor.initialized = g.monitor.initialized)
    (hrest : g'.config = g.config ∧ g'.rates = g.rates ∧ g'.obs = g.obs) :
    g'.Accounts ops config obs events checks samples := by
  obtain ⟨hring, hevents, hinit⟩ := hring
  obtain ⟨hconfig, hrates, hobs⟩ := hrest
  exact ⟨hinit.trans h.initialized, h.events.congr hring hevents, hconfig.trans h.config_eq,
    h.config_after, hrates.trans h.rates, h.verdicts, hobs.trans h.obs_eq⟩

theorem Gateway.Accounts.report (h : g.Accounts ops config obs events checks samples)
    (now : UInt64) (call : EventCall) (workers : ℕ → Option Worker) :
    Gateway.Accounts ops config obs
      { g with monitor := (runtimeMonitorEvent g.monitor now call).1, workers := workers }
      (events ++ [call.record now]) checks samples := by
  obtain ⟨hinit, hevents⟩ := h.events.event h.initialized now call
  exact ⟨hinit, hevents, h.config_eq, h.config_after, h.rates, h.verdicts, h.obs_eq⟩

theorem Gateway.Accounts.sample (h : g.Accounts ops config obs events checks samples)
    (name : Bytes) (workers : ℕ → Option Worker) :
    Gateway.Accounts ops config obs { g with obs := g.recorded ops name, workers := workers }
      events checks (samples ++ [name]) := by
  refine ⟨h.initialized, h.events, h.config_eq, h.config_after, h.rates, h.verdicts, ?_⟩
  rw [recordAll, List.foldl_append]
  change observabilityRecordGlobal g.obs name ops.one = _
  rw [h.obs_eq]
  rfl

/-- The verdict of a section is that of the whole monitor. -/
theorem Gateway.Accounts.check (h : g.Accounts ops config obs events checks samples) {now : ℕ}
    {hits rejects : UInt64} {req : Request} {verdict : SecmonResult} {reason : Bytes}
    {secmon : SecurityMonitor}
    (hcheck : securityMonitorCheckRequest (g.secmon hits rejects) now req = ((verdict, reason), secmon))
    (workers : ℕ → Option Worker) :
    Gateway.Accounts ops config obs { g with rates := secmon.buckets, workers := workers }
      events (checks ++ [((now, req), verdict)]) samples := by
  obtain ⟨m, hm⟩ : ∃ m, monitorAfter config checks = m := ⟨_, rfl⟩
  have hrates := h.rates
  have hconfig := h.config_after
  rw [hm] at hrates hconfig
  have hafter : monitorAfter config (checks ++ [((now, req), verdict)]) =
      (securityMonitorCheckRequest m now req).2 := by
    rw [monitorAfter, List.map_append, List.map_singleton, securityMonitorAfter_append, ← hm]
    rfl
  have hstate : (⟨g.config, g.rates, m.rateLimitHits, m.injectionRejects⟩ : SecurityMonitor) = m := by
    rw [h.config_eq, hrates, ← hconfig]
  obtain ⟨hverdict, hbuckets, hkept⟩ := securityMonitorCheckRequest_counters g.config g.rates
    m.rateLimitHits m.injectionRejects hits rejects now req
  rw [hstate] at hverdict hbuckets hkept
  change securityMonitorCheckRequest ⟨g.config, g.rates, hits, rejects⟩ now req = _ at hcheck
  rw [hcheck] at hverdict hbuckets
  refine ⟨h.initialized, h.events, h.config_eq, ?_, ?_, ?_, h.obs_eq⟩
  · rw [hafter, hkept, h.config_eq]
  · rw [hafter]
    exact hbuckets.symm
  · have hsame : (securityMonitorCheckRequest m now req).1.1 = verdict := by rw [hverdict]
    rw [List.map_append, List.map_append, List.map_singleton, List.map_singleton,
      securityMonitorRun_append, h.verdicts]
    change _ = _ ++ [(req.clientIp, (securityMonitorCheckRequest (monitorAfter config checks) now
      req).1.1)]
    rw [hm, hsame]

end Sections

/-! ## Every run -/

section Runs

variable {V : Type} (ops : DoubleOps V) (config : SecurityMonitorConfig) (obs : Observability V)

def reportsOf (ls : List GatewayEvent) : List RuntimeMonitorEvent :=
  ls.filterMap GatewayEvent.reported

def checksOf (ls : List GatewayEvent) : List ((ℕ × Request) × SecmonResult) :=
  ls.filterMap GatewayEvent.checked

def samplesOf (ls : List GatewayEvent) : List Bytes := ls.filterMap GatewayEvent.sampled

def Gateway.AccountsFor (g : Gateway V) (ls : List GatewayEvent) : Prop :=
  g.Accounts ops config obs (reportsOf ls) (checksOf ls) (samplesOf ls)

variable {ops config obs} {g g' : Gateway V} {e : GatewayEvent} {ls : List GatewayEvent}

theorem filterMap_append_one {α : Type} (f : GatewayEvent → Option α) (ls : List GatewayEvent)
    (e : GatewayEvent) : (ls ++ [e]).filterMap f = ls.filterMap f ++ (f e).toList := by
  rw [List.filterMap_append]
  cases h : f e <;> simp [h]

/-- What a step adds is what its event says. -/
theorem accountsFor_append (ls : List GatewayEvent) (e : GatewayEvent) (g : Gateway V) :
    g.AccountsFor ops config obs (ls ++ [e]) ↔
      g.Accounts ops config obs (reportsOf ls ++ e.reported.toList)
        (checksOf ls ++ e.checked.toList) (samplesOf ls ++ e.sampled.toList) := by
  rw [Gateway.AccountsFor, reportsOf, checksOf, samplesOf, filterMap_append_one,
    filterMap_append_one, filterMap_append_one]
  rfl

theorem Gateway.AccountsFor.skip (h : g.AccountsFor ops config obs ls)
    (hquiet : e.reported = none ∧ e.checked = none ∧ e.sampled = none)
    (hring : g'.monitor.ring = g.monitor.ring ∧ g'.monitor.events = g.monitor.events ∧
      g'.monitor.initialized = g.monitor.initialized)
    (hrest : g'.config = g.config ∧ g'.rates = g.rates ∧ g'.obs = g.obs) :
    g'.AccountsFor ops config obs (ls ++ [e]) := by
  obtain ⟨hreported, hchecked, hsampled⟩ := hquiet
  rw [accountsFor_append, hreported, hchecked, hsampled, Option.toList_none, Option.toList_none,
    Option.toList_none, List.append_nil, List.append_nil, List.append_nil]
  exact Gateway.Accounts.congr h hring hrest

theorem Gateway.AccountsFor.step (h : g.AccountsFor ops config obs ls)
    (hstep : GatewayStep ops g e g') : g'.AccountsFor ops config obs (ls ++ [e]) := by
  cases hstep with
  | accept | clear | ids | audit | handle | session | respond =>
      exact h.skip ⟨rfl, rfl, rfl⟩ ⟨rfl, rfl, rfl⟩ ⟨rfl, rfl, rfl⟩
  | @connection id now w monitor full hw hphase hcount =>
      have hring := countConnection_ring g.monitor now w.clientIp
      rw [hcount] at hring
      exact h.skip ⟨rfl, rfl, rfl⟩ hring ⟨rfl, rfl, rfl⟩
  | probe id now =>
      rw [accountsFor_append]
      simpa [GatewayEvent.reported, GatewayEvent.checked, GatewayEvent.sampled] using
        Gateway.Accounts.report h now (probeCall _) _
  | notify id now =>
      rw [accountsFor_append]
      simpa [GatewayEvent.reported, GatewayEvent.checked, GatewayEvent.sampled] using
        Gateway.Accounts.report h now _ _
  | check id now hits rejects hw hphase hcheck =>
      rw [accountsFor_append]
      simpa [GatewayEvent.reported, GatewayEvent.checked, GatewayEvent.sampled] using
        Gateway.Accounts.check h hcheck _
  | metric id =>
      rw [accountsFor_append]
      simpa [GatewayEvent.reported, GatewayEvent.checked, GatewayEvent.sampled] using
        Gateway.Accounts.sample h _ _
  | count id =>
      rw [accountsFor_append]
      simpa [GatewayEvent.reported, GatewayEvent.checked, GatewayEvent.sampled] using
        Gateway.Accounts.sample h requestsTotal _

theorem accountsFor_of_run (hrun : Run (GatewayStep ops) (Gateway.start config obs) ls g) :
    g.AccountsFor ops config obs ls :=
  hrun.invariant_trace (I := fun ls g ↦ g.AccountsFor ops config obs ls) accounts_start
    fun _ _ _ _ _ hinv hstep ↦ hinv.step hstep

/-- In every run of all threads together, the events that can be read are the
newest ones reported, every verdict is that of one monitor that sees all
requests in the order of their checks, and the metrics are the samples in the
order of the run. -/
theorem gateway_state_is_sequential
    (hrun : Run (GatewayStep ops) (Gateway.start config obs) ls g) (maxCount : ℕ) :
    runtimeMonitorGetRecentEvents g.monitor maxCount =
        (reportsOf ls).reverse.take
          (min (reportsOf ls).length (min runtimeMonitorEventMax maxCount)) ∧
      ((checksOf ls).map fun c ↦ (c.1.2.clientIp, c.2)) =
        securityMonitorRun (securityMonitorInit config) ((checksOf ls).map Prod.fst) ∧
      g.obs = recordAll ops obs (samplesOf ls) := by
  have h := accountsFor_of_run hrun
  exact ⟨h.events.getRecentEvents maxCount, h.verdicts, h.obs_eq⟩

end Runs

/-- One refused request: an event, a verdict and no sample. -/
theorem gateway_state_is_sequential_of_refusal :
    ∃ (ls : List GatewayEvent) (g : Gateway ℚ),
      Run (GatewayStep (rationalOps printWhole))
          (Gateway.start securityMonitorConfigDefaults ⟨[], true⟩) ls g ∧
        (runtimeMonitorGetRecentEvents g.monitor 4).map RuntimeMonitorEvent.ip =
          [ascii "10.0.0.1"] ∧
        ((checksOf ls).map fun c ↦ (c.1.2.clientIp, c.2)) =
          [(ascii "10.0.0.1", .methodInvalid)] ∧
        g.obs.metrics.length = 0 := by
  have hstep : GatewayStep (rationalOps printWhole)
      (Gateway.start securityMonitorConfigDefaults ⟨[], true⟩)
      (.accept 1 (ascii "10.0.0.1") (ascii "hello")) _ :=
    .accept 1 _ _ false rfl (by decide) (by decide)
  have haccept := Run.nil.snoc hstep
  have hconnection := haccept.snoc (.connection 1 100 rfl rfl rfl)
  have hcheck := hconnection.snoc (.check 1 100 0 0 rfl rfl rfl)
  have haudit := hcheck.snoc (.audit 1 rfl rfl rfl)
  have hnotify := haudit.snoc (.notify 1 100 rfl rfl)
  obtain ⟨hevents, hverdicts, hobs⟩ := gateway_state_is_sequential hnotify 4
  refine ⟨_, _, hnotify, ?_, hverdicts.trans ?_, ?_⟩
  · rw [hevents]
    decide
  · decide
  · rw [hobs]
    rfl

end DoctorClaw
