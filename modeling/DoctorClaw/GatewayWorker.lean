import DoctorClaw.HandleRequest
import DoctorClaw.Lib.Run
import DoctorClaw.RuntimeMonitor.Sections
import DoctorClaw.Screening
import DoctorClaw.WebSocket.Handshake
import DoctorClaw.WebSocket.Session

/-!
# The workers of the gateway

Every connection has a thread of its own.  It shows the request to the runtime
monitor, to the security monitor and to the intrusion detection; a request
that one of the last two refuses is audited, reported and answered at once, any
other one is handled.

The threads share the runtime monitor, the rate table and the global metrics,
each behind a lock.  A step is one critical section of one thread together
with what the thread does by itself before the next one, so that the sections
of different threads may come in any order.  The audit log and the two
counters of the security monitor have no lock and are no part of this state:
a check may find anything in the counters, and of an audit the call is what is
seen.

A connection that closes before it sends anything does not show up here.
-/

namespace DoctorClaw

/-! ## Refusals -/

def SecmonResult.code : SecmonResult → ℕ
  | .ok => 0
  | .rateLimited => 1
  | .injectionSuspected => 2
  | .pathTraversal => 3
  | .bodyTooLarge => 4
  | .methodInvalid => 5

def SecmonResult.eventType : SecmonResult → RuntimeEventType
  | .rateLimited => .rateLimit
  | .injectionSuspected => .injection
  | .pathTraversal => .pathTraversal
  | _ => .securityReject

/-- The metric that `security_monitor_check_request` records. -/
def SecmonResult.metric : SecmonResult → Option Bytes
  | .rateLimited => some (ascii "security_monitor_rate_limited_total")
  | .injectionSuspected => some (ascii "security_monitor_injection_rejected_total")
  | _ => none

/-- What the thread still has to say about a request that was refused. -/
structure Refusal where
  code : SecmonResult
  event : RuntimeEventType
  detail : Bytes
  reason : Bytes
  resp : HttpResponse

def rejectDetail (pre : Bytes) (req : HttpRequest) (reason fallback : Bytes) : Bytes :=
  CString.cut 256 (pre ++ req.method ++ [32] ++ req.path ++ ascii " → " ++
    if reason ≠ [] then reason else fallback)

def GatewayResponse.filled (r : GatewayResponse) (code : ℕ) (status : String) : HttpResponse :=
  (HttpResponse.zero.withHead code status "application/json").answer r.body

def secmonRefusal (req : HttpRequest) (verdict : SecmonResult) (reason : Bytes) : Refusal where
  code := verdict
  event := verdict.eventType
  detail := rejectDetail [] req reason (ascii "rejected")
  reason := reason
  resp :=
    if verdict = .rateLimited then rateLimitResponse.filled 429 "Too Many Requests"
    else (rejection reason (ascii "security")).filled 400 "Bad Request"

def idsRefusal (req : HttpRequest) (reason : Bytes) : Refusal where
  code := .injectionSuspected
  event := .other
  detail := rejectDetail (ascii "IDS ") req reason (ascii "alert")
  reason := reason
  resp := (rejection reason (ascii "ids")).filled 400 "Bad Request"

/-- The action and the target that `security_monitor_audit_reject` logs. -/
def auditReject (code : SecmonResult) (clientIp : Bytes) (req : HttpRequest) (reason : Bytes) :
    Bytes × Bytes :=
  (CString.cut 128 (ascii "security_monitor_reject:" ++ Decimal.printNat code.code),
    CString.cut 256 (ascii "ip=" ++ clientIp ++ ascii " method=" ++ req.method ++
      ascii " path=" ++ req.path ++ ascii " reason=" ++ reason))

/-- The body of `handle_request` behind the sample that it records first. -/
def handleCounted {V : Type} (ops : DoubleOps V) (env : GatewayEnv V) (req : HttpRequest) :
    HttpResponse :=
  if req.path = ascii "/metrics" then handleMetrics ops env.obs
  else (handleRequest ops env req).resp

def requestsTotal : Bytes := ascii "http_requests_total"

/-! ## Threads -/

/-- What a thread does next. -/
inductive Phase
  | connection
  | probe (i : ℕ)
  | clear (i : ℕ)
  | check
  | metric (name : Bytes) (r : Refusal)
  | ids
  | audit (r : Refusal)
  | notify (r : Refusal)
  | count
  | handle
  | respond (resp : HttpResponse)
  | closed

structure Worker where
  clientIp : Bytes
  req : HttpRequest
  phase : Phase

def Worker.request (w : Worker) : Request := ⟨w.clientIp, w.req.method, w.req.path, w.req.body⟩

def HttpRequest.upgrades (req : HttpRequest) : Prop :=
  getHeader req (ascii "Upgrade") = some (ascii "websocket")

/-- Where the check leads. -/
def secmonPhase (req : HttpRequest) (verdict : SecmonResult) (reason : Bytes) : Phase :=
  if verdict = .ok then .ids
  else
    match verdict.metric with
    | some name => .metric name (secmonRefusal req verdict reason)
    | none => .audit (secmonRefusal req verdict reason)

def idsPhase (req : HttpRequest) (verdict : IdsResult) (reason : Bytes) : Phase :=
  if verdict = .ok then .count else .audit (idsRefusal req reason)

/-- The event that is reported for a refused request. -/
def Refusal.call (r : Refusal) (clientIp : Bytes) : EventCall :=
  ⟨r.event, some (ascii "gateway"), some clientIp, some r.detail⟩

structure Gateway (V : Type) where
  monitor : RuntimeMonitor
  config : SecurityMonitorConfig
  rates : Fin 256 → RateBucket
  ids : Ids
  obs : Observability V
  workers : ℕ → Option Worker

/-- What an observer of all threads would log. -/
inductive GatewayEvent
  | accept (id : ℕ) (ip raw : Bytes)
  | connection (id : ℕ)
  | probe (id : ℕ) (event : RuntimeMonitorEvent)
  | clear (id : ℕ)
  | check (id : ℕ) (now : ℕ) (req : Request) (verdict : SecmonResult)
  | metric (id : ℕ) (name : Bytes)
  | ids (id : ℕ) (verdict : IdsResult)
  | audit (id : ℕ) (action target : Bytes)
  | notify (id : ℕ) (event : RuntimeMonitorEvent)
  | count (id : ℕ)
  | handle (id : ℕ)
  | session (id : ℕ) (frames : List Bytes)
  | respond (id : ℕ) (sent : Bytes)

def GatewayEvent.worker : GatewayEvent → ℕ
  | accept id _ _ | connection id | probe id _ | clear id | check id _ _ _ | metric id _
  | ids id _ | audit id _ _ | notify id _ | count id | handle id | session id _
  | respond id _ => id

/-- Everything sent over an upgraded connection. -/
def sessionFrames (stack : ℕ → UInt8) (decoded : ℕ → Bytes) (req : HttpRequest)
    (received : List Bytes) : List Bytes :=
  (handleWsKey req).toList.map (wsHandshake stack) ++ wsSession decoded received

section Steps

variable {V : Type} (ops : DoubleOps V)

/-- The monitor as a check finds it. -/
def Gateway.secmon (g : Gateway V) (hits rejects : UInt64) : SecurityMonitor :=
  ⟨g.config, g.rates, hits, rejects⟩

def Gateway.moved (g : Gateway V) (id : ℕ) (w : Worker) (phase : Phase) : ℕ → Option Worker :=
  Function.update g.workers id (some { w with phase := phase })

def Gateway.recorded (g : Gateway V) (name : Bytes) : Observability V :=
  observabilityRecordGlobal g.obs name ops.one

inductive GatewayStep : Gateway V → GatewayEvent → Gateway V → Prop
  | accept {g : Gateway V} (id : ℕ) (ip raw : Bytes) (inOrder : Bool)
      (hfree : g.workers id = none) (hip : ip ≠ []) (hraw : raw ≠ [] ∧ raw.length < 131072) :
      GatewayStep g (.accept id ip raw)
        { g with
          workers := Function.update g.workers id
            (some ⟨CString.cut 64 ip, parseHttpRequest inOrder raw, .connection⟩) }
  | connection {g : Gateway V} (id : ℕ) (now : UInt64) {w : Worker} {monitor : RuntimeMonitor}
      {full : Option ℕ} (hw : g.workers id = some w) (hphase : w.phase = .connection)
      (hcount : g.monitor.countConnection now w.clientIp = (monitor, full)) :
      GatewayStep g (.connection id)
        { g with
          monitor := monitor
          workers := g.moved id w (full.elim .check .probe) }
  | probe {g : Gateway V} (id : ℕ) (now : UInt64) {w : Worker} {i : ℕ}
      (hw : g.workers id = some w) (hphase : w.phase = .probe i) :
      GatewayStep g (.probe id ((probeCall w.clientIp).record now))
        { g with
          monitor := (runtimeMonitorEvent g.monitor now (probeCall w.clientIp)).1
          workers := g.moved id w (.clear i) }
  | clear {g : Gateway V} (id : ℕ) {w : Worker} {i : ℕ} (hw : g.workers id = some w)
      (hphase : w.phase = .clear i) :
      GatewayStep g (.clear id)
        { g with monitor := g.monitor.clearBucket i, workers := g.moved id w .check }
  | check {g : Gateway V} (id : ℕ) (now : ℕ) (hits rejects : UInt64) {w : Worker}
      {verdict : SecmonResult} {reason : Bytes} {secmon : SecurityMonitor}
      (hw : g.workers id = some w) (hphase : w.phase = .check)
      (hcheck : securityMonitorCheckRequest (g.secmon hits rejects) now w.request =
        ((verdict, reason), secmon)) :
      GatewayStep g (.check id now w.request verdict)
        { g with
          rates := secmon.buckets
          workers := g.moved id w (secmonPhase w.req verdict reason) }
  | metric {g : Gateway V} (id : ℕ) {w : Worker} {name : Bytes} {r : Refusal}
      (hw : g.workers id = some w) (hphase : w.phase = .metric name r) :
      GatewayStep g (.metric id name)
        { g with obs := g.recorded ops name, workers := g.moved id w (.audit r) }
  | ids {g : Gateway V} (id : ℕ) {w : Worker} {verdict : IdsResult} {reason : Bytes}
      (hw : g.workers id = some w) (hphase : w.phase = .ids)
      (hids : idsCheck g.ids w.req.path w.req.body = (verdict, reason)) :
      GatewayStep g (.ids id verdict)
        { g with workers := g.moved id w (idsPhase w.req verdict reason) }
  | audit {g : Gateway V} (id : ℕ) {w : Worker} {r : Refusal} {action target : Bytes}
      (hw : g.workers id = some w) (hphase : w.phase = .audit r)
      (haudit : auditReject r.code w.clientIp w.req r.reason = (action, target)) :
      GatewayStep g (.audit id action target)
        { g with workers := g.moved id w (.notify r) }
  | notify {g : Gateway V} (id : ℕ) (now : UInt64) {w : Worker} {r : Refusal}
      (hw : g.workers id = some w) (hphase : w.phase = .notify r) :
      GatewayStep g (.notify id ((r.call w.clientIp).record now))
        { g with
          monitor := (runtimeMonitorEvent g.monitor now (r.call w.clientIp)).1
          workers := g.moved id w (.respond r.resp) }
  | count {g : Gateway V} (id : ℕ) {w : Worker} (hw : g.workers id = some w)
      (hphase : w.phase = .count) (hplain : ¬ w.req.upgrades) :
      GatewayStep g (.count id)
        { g with obs := g.recorded ops requestsTotal, workers := g.moved id w .handle }
  | handle {g : Gateway V} (id : ℕ) (env : GatewayEnv V) {w : Worker}
      (hw : g.workers id = some w) (hphase : w.phase = .handle) (henv : env.obs = g.obs) :
      GatewayStep g (.handle id)
        { g with workers := g.moved id w (.respond (handleCounted ops env w.req)) }
  | session {g : Gateway V} (id : ℕ) (stack : ℕ → UInt8) (decoded : ℕ → Bytes)
      (received : List Bytes) {w : Worker} (hw : g.workers id = some w)
      (hphase : w.phase = .count) (hupgrade : w.req.upgrades) :
      GatewayStep g (.session id (sessionFrames stack decoded w.req received))
        { g with workers := g.moved id w .closed }
  | respond {g : Gateway V} (id : ℕ) {w : Worker} {resp : HttpResponse}
      (hw : g.workers id = some w) (hphase : w.phase = .respond resp) :
      GatewayStep g (.respond id (buildHttpResponse resp 131072))
        { g with workers := g.moved id w .closed }

end Steps

/-- What `gateway_run` sets up before it listens. -/
def Gateway.start {V : Type} (config : SecurityMonitorConfig) (obs : Observability V) :
    Gateway V where
  monitor := runtimeMonitorInit runtimeMonitorStatics
  config := config
  rates := (securityMonitorInit config).buckets
  ids := idsInitDefaults
  obs := obs
  workers := fun _ ↦ none

/-! ## Sections and calls -/

section HandleRequest

variable {V : Type} (ops : DoubleOps V) (env : GatewayEnv V) (req : HttpRequest)

theorem handleRequest_obs :
    (handleRequest ops env req).obs = observabilityRecordGlobal env.obs requestsTotal ops.one := by
  unfold handleRequest
  dsimp only
  split_ifs <;> rfl

/-- Only the metrics are read after they were recorded. -/
theorem handleRequest_resp_of_ne (hpath : req.path ≠ ascii "/metrics") (obs : Observability V) :
    (handleRequest ops { env with obs := obs } req).resp = (handleRequest ops env req).resp := by
  unfold handleRequest
  dsimp only
  rw [if_neg hpath, if_neg hpath]
  split_ifs <;> rfl

/-- Without other threads in between, the sample and the rest are the call. -/
theorem handleRequest_resp :
    (handleRequest ops env req).resp =
      handleCounted ops { env with obs := (handleRequest ops env req).obs } req := by
  rw [handleRequest_obs, handleCounted]
  split_ifs with hpath
  · rw [handleRequest]
    dsimp only
    rw [if_pos hpath]
    rfl
  · exact (handleRequest_resp_of_ne ops env req hpath _).symm

end HandleRequest

/-- The counters do not take part in a check. -/
theorem securityMonitorCheckRequest_counters (config : SecurityMonitorConfig)
    (buckets : Fin 256 → RateBucket) (hits rejects hits' rejects' : UInt64) (now : ℕ)
    (req : Request) :
    let out := securityMonitorCheckRequest ⟨config, buckets, hits, rejects⟩ now req
    let out' := securityMonitorCheckRequest ⟨config, buckets, hits', rejects'⟩ now req
    out.1 = out'.1 ∧ out.2.buckets = out'.2.buckets ∧ out.2.config = config := by
  unfold securityMonitorCheckRequest SecurityMonitor.scanBody
  cases req.screened config with
  | some rejection => exact ⟨rfl, rfl, rfl⟩
  | none =>
      dsimp only
      split_ifs <;> exact ⟨rfl, rfl, rfl⟩

end DoctorClaw
