import DoctorClaw.GatewayChat
import DoctorClaw.HttpRequest

/-!
# Answers of the gateway

`handle_request` fills a response that was zeroed first, and
`build_http_response` prints a head for it and copies as many bytes of the
body buffer behind the head as `body_size` says.  The size is a field of its
own: every branch of the handler has to set it to the length of what it has
printed.
-/

namespace DoctorClaw

/-! ## Metrics -/

/-- What the export does with a `double`: it adds two of them and prints one
with `%f`. -/
structure DoubleOps (V : Type) where
  one : V
  add : V → V → V
  printf : V → Bytes

structure Metric (V : Type) where
  metricName : Bytes
  value : V

/-- The global metrics, which record nothing until they are initialised. -/
structure Observability (V : Type) where
  metrics : List (Metric V)
  inited : Bool

def maxMetrics : ℕ := 128

section Metrics

variable {V : Type} (ops : DoubleOps V)

def observabilityRecordGlobal (obs : Observability V) (name : Bytes) (value : V) :
    Observability V :=
  if obs.inited ∧ obs.metrics.length < maxMetrics then
    { obs with metrics := obs.metrics ++ [⟨CString.cut 128 name, value⟩] }
  else obs

/-- The names met so far, each with the sum of its values. -/
def addToSums (sums : List (Bytes × V)) (m : Metric V) : List (Bytes × V) :=
  if sums.any fun s ↦ s.1 = m.metricName then
    sums.map fun s ↦ if s.1 = m.metricName then (s.1, ops.add s.2 m.value) else s
  else if sums.length < maxMetrics then sums ++ [(CString.cut 128 m.metricName, m.value)]
  else sums

/-- The last loop of the export: `out` are the bytes in the buffer, and
`offset` also counts those that were cut. -/
def exportSums (outputSize : ℕ) : ℕ → Bytes → List (Bytes × V) → Bytes
  | _, out, [] => out
  | offset, out, (name, sum) :: sums =>
      if offset < outputSize - 100 then
        let line := ascii "doctorclaw_" ++ name ++ [32] ++ ops.printf sum ++ [10]
        exportSums outputSize (offset + line.length)
          (out ++ CString.cut (outputSize - offset) line) sums
      else out

def metricsHelp : Bytes := ascii "# HELP doctorclaw_http_requests_total Total HTTP requests\n"

def metricsType : Bytes := ascii "# TYPE doctorclaw_http_requests_total counter\n"

/-- The text in the buffer; `none` stands for the return value -1. -/
def observabilityPrometheusExport (obs : Option (Observability V)) (outputSize : ℕ) :
    Option Bytes :=
  obs.map fun obs ↦
    let out := CString.cut outputSize metricsHelp
    let out := out ++ CString.cut (outputSize - metricsHelp.length) metricsType
    let offset := metricsHelp.length + metricsType.length
    let sums := if offset < outputSize - 100 then obs.metrics.foldl (addToSums ops) [] else []
    CString.ofBuffer (exportSums ops outputSize offset out sums)

end Metrics

/-! ## The response -/

def maxResponseSize : ℕ := 65536

/-- `gateway_response_t`, with all bytes of its body buffer. -/
structure HttpResponse where
  statusCode : ℕ
  statusText : Bytes
  body : Vector UInt8 maxResponseSize
  bodySize : ℕ
  contentType : Bytes

/-- The response after `memset`. -/
def HttpResponse.zero : HttpResponse where
  statusCode := 0
  statusText := []
  body := Vector.replicate maxResponseSize 0
  bodySize := 0
  contentType := []

def HttpResponse.strlen (resp : HttpResponse) : ℕ := (CString.ofBuffer resp.body.toList).length

def HttpResponse.withHead (resp : HttpResponse) (statusCode : ℕ)
    (statusText contentType : String) : HttpResponse :=
  { resp with
    statusCode := statusCode
    statusText := CString.cut 32 (ascii statusText)
    contentType := CString.cut 64 (ascii contentType) }

/-- `snprintf` into the body, and `body_size` set to the length of the body. -/
def HttpResponse.answer (resp : HttpResponse) (text : Bytes) : HttpResponse :=
  let resp := { resp with body := CString.store resp.body text }
  { resp with bodySize := resp.strlen }

def responseHead (resp : HttpResponse) : Bytes :=
  ascii "HTTP/1.1 " ++ Decimal.printNat resp.statusCode ++ [32] ++ resp.statusText ++
    ascii "\r\nContent-Type: " ++ resp.contentType ++
    ascii "\r\nContent-Length: " ++ Decimal.printNat resp.bodySize ++
    ascii "\r\nConnection: close\r\nAccess-Control-Allow-Origin: *\r\n" ++
    ascii "X-Content-Type-Options: nosniff\r\nX-Frame-Options: DENY\r\n\r\n"

/-- The bytes that are sent. -/
def buildHttpResponse (resp : HttpResponse) (outSize : ℕ) : Bytes :=
  let out := CString.ofBuffer (CString.cut outSize (responseHead resp))
  if out.length + resp.bodySize < outSize then out ++ resp.body.toList.take resp.bodySize
  else out

/-! ## The handler -/

/-- What the handler finds around it.  `work` is the outcome of pushing a job:
the return value of `jobcache_push`, and the arguments with which a worker
calls `agent_response_cb` when it is 0. -/
structure GatewayEnv (V : Type) where
  agent : AgentEnv
  call : ℕ
  config : Option Config
  jobcache : Bool
  work : Job → ℤ × Bytes × ℕ × Int32
  ctx : ℕ
  healthSecret : Option Bytes
  obs : Observability V

/-- `reply` is the text given to `channels_reply_to_webhook`. -/
structure Handled (V : Type) where
  resp : HttpResponse
  reply : Option Bytes
  obs : Observability V

def GatewayEnv.queueReply {V : Type} (env : GatewayEnv V) (job : Job) : Bytes × Option Bytes :=
  let (pushed, result, len, error) := env.work job
  let buffer := (agentResponseCb result len error).buffer
  (DoctorClaw.queueReply pushed buffer, if pushed = 0 ∧ buffer ≠ [] then some buffer else none)

/-- The body when a webhook calls the agent itself. -/
def GatewayEnv.webhookReply {V : Type} (env : GatewayEnv V) (message : Bytes) :
    Bytes × Option Bytes :=
  match env.config with
  | none => (quoted "error" (ascii "Agent init failed"), none)
  | some config =>
      if env.agent.agentInit env.call config ≠ 0 then
        (quoted "error" (ascii "Agent init failed"), none)
      else
        let (chatRet, reply) := env.agent.agentChat env.call config message
        let response := resultText reply
        if chatRet = 0 ∧ response ≠ [] then
          (quoted "response" (jsonEscape response 32768), some response)
        else (quoted "error" (if response = [] then ascii "Agent failed" else response), none)

def parseSlackChallenge (body : Bytes) (outSize : ℕ) : Option Bytes :=
  if (CString.strstr (ascii "\"type\":\"url_verification\"") body).isNone ∧
      (CString.strstr (ascii "\"type\": \"url_verification\"") body).isNone then none
  else (CString.strstr (ascii "\"challenge\":\"") body).map fun p ↦
    ((p.drop 13).takeWhile fun c ↦ c ≠ 34).take (outSize - 1)

def webhookKeys : List Bytes :=
  [ascii "\"text\":\"", ascii "\"content\":\"", ascii "\"message\":\"",
    ascii "\"message\":\x7b\"text\":\""]

def parseJsonWebhookMessage (body : Bytes) (messageSize : ℕ) : Option Bytes :=
  webhookKeys.findSome? fun key ↦ (CString.strstr key body).bind fun p ↦
    let message := copyPrompt (messageSize - 1) (p.drop key.length)
    if message = [] then none else some message

/-- The body of the answer to a webhook that carries a message. -/
def GatewayEnv.messageReply {V : Type} (env : GatewayEnv V) (body : Bytes) : Bytes × Option Bytes :=
  match parseJsonWebhookMessage body 4096 with
  | none => (ascii "\x7b\"error\":\"No message in body\"\x7d", none)
  | some message =>
      if env.jobcache then env.queueReply (gatewayJob message env.ctx)
      else env.webhookReply message

def htmlPage (version : Bytes) : Bytes :=
  ascii "<!DOCTYPE html>\n<html><head><title>Doctor Claw</title></head>\n" ++
    ascii "<body><h1>Doctor Claw Gateway</h1>\n<p>Version: " ++ version ++
    ascii "</p>\n<p>Status: Running</p>\n" ++
    ascii "<p><a href=\"/webhooks\">Webhooks</a> | <a href=\"/health\">Health</a></p>\n" ++
    ascii "</body></html>\n"

/-- Whether a health check may see more than the bare status. -/
def fullHealth (secret : Option Bytes) (req : HttpRequest) : Bool :=
  match secret with
  | none => false
  | some secret =>
      if secret = [] then false
      else if (getHeader req (ascii "Authorization")).any fun auth ↦
          (ascii "Bearer ").isPrefixOf auth && auth.drop 7 = secret then true
      else match CString.strstr (ascii "full=") req.path with
        | none => false
        | some q => ((q.drop 5).takeWhile fun c ↦ c ≠ 38).take 127 = secret

section Handler

variable {V : Type} (ops : DoubleOps V)

def handleMetrics (obs : Observability V) : HttpResponse :=
  match observabilityPrometheusExport ops (some obs) 8192 with
  | some buf =>
      let n := if maxResponseSize ≤ buf.length then maxResponseSize - 1 else buf.length
      let resp := HttpResponse.zero.withHead 200 "OK" "text/plain; version=0.0.4"
      { resp with body := CString.store resp.body (buf.take n), bodySize := n }
  | none => { HttpResponse.zero with statusCode := 500 }.answer (ascii "metrics error")

def HttpResponse.answerChallenge (resp : HttpResponse) (req : HttpRequest) : HttpResponse :=
  if (ascii "/slack").isPrefixOf req.path then
    match parseSlackChallenge (CString.ofBuffer req.body) 512 with
    | some challenge =>
        resp.answer (ascii "\x7b\"challenge\":\"" ++ challenge ++ ascii "\"\x7d")
    | none => resp
  else resp

def handleWebhook (env : GatewayEnv V) (req : HttpRequest) : HttpResponse × Option Bytes :=
  let resp := (HttpResponse.zero.withHead 200 "OK" "application/json").answerChallenge req
  if resp.bodySize = 0 then
    let (text, reply) := env.messageReply (CString.ofBuffer req.body)
    (resp.answer text, reply)
  else (resp, none)

def handleChat (env : GatewayEnv V) (req : HttpRequest) : HttpResponse :=
  let resp := HttpResponse.zero.withHead 200 "OK" "application/json"
  match handleAgentChat (CString.ofBuffer req.body) env.jobcache env.ctx with
  | .refused text => resp.answer text
  | .queued job => resp.answer (env.queueReply job).1
  | .direct entry => resp.answer (directReply env.agent env.call env.config entry)

def handleRequest (env : GatewayEnv V) (req : HttpRequest) : Handled V :=
  let obs := observabilityRecordGlobal env.obs (ascii "http_requests_total") ops.one
  let handled (resp : HttpResponse) : Handled V := ⟨resp, none, obs⟩
  let json := HttpResponse.zero.withHead 200 "OK" "application/json"
  let path := req.path
  if path = ascii "/metrics" then handled (handleMetrics ops obs)
  else if path = ascii "/" ∨ path = ascii "/index.html" then
    handled ((HttpResponse.zero.withHead 200 "OK" "text/html").answer (htmlPage (ascii "0.1.0")))
  else if path = ascii "/health" ∨ (ascii "/health?").take 7 = path.take 7 then
    handled (json.answer (if fullHealth env.healthSecret req then
        ascii "\x7b\"status\":\"healthy\",\"version\":\"0.1.0\"\x7d"
      else ascii "\x7b\"status\":\"ok\"\x7d"))
  else if path = ascii "/webhook" ∨ path = ascii "/webhooks" then
    handled (json.answer (ascii "\x7b\"message\":\"Webhook endpoint ready\",\"paths\":" ++
      ascii "[\"/telegram\",\"/discord\",\"/slack\"]\x7d"))
  else if (ascii "/telegram").isPrefixOf path ∨ (ascii "/discord").isPrefixOf path ∨
      (ascii "/slack").isPrefixOf path then
    let (resp, reply) := handleWebhook env req
    ⟨resp, reply, obs⟩
  else if path = ascii "/agent/chat" ∧ (req.method.head? = some 80 ∨ req.method.head? = some 112) then
    handled (handleChat env req)
  else handled ((HttpResponse.zero.withHead 404 "Not Found" "application/json").answer
    (ascii "\x7b\"error\":\"Not found\"\x7d"))

end Handler

end DoctorClaw
