import DoctorClaw.Lib.Decimal
import DoctorClaw.Lib.FixedWindow

/-!
# The security monitor

`security_monitor_check_request` looks at the method, the path, the size of
the body, the rate of the client and the text of the body, in this order, and
the first check that fails decides.  The gateway passes arrays, so no argument
is null; a body is the buffer with its length and may hold NUL bytes.

Times are seconds since the epoch.  The rate table has one bucket for each of
256 hash values.  A bucket is taken over by whoever hashes to it, and the
verdicts are those of a counter kept for each address alone exactly as long as
no bucket is taken from an address whose window is still open.
-/

namespace DoctorClaw

/-! ## Configuration and state -/

inductive SecmonResult
  | ok
  | rateLimited
  | injectionSuspected
  | pathTraversal
  | bodyTooLarge
  | methodInvalid
  deriving DecidableEq

structure SecurityMonitorConfig where
  rateLimitEnabled : Bool
  rateLimitPerWindow : UInt32
  rateWindowSec : UInt32
  injectionScanEnabled : Bool
  pathTraversalCheck : Bool
  maxBodySize : ℕ

def securityMonitorConfigDefaults : SecurityMonitorConfig where
  rateLimitEnabled := true
  rateLimitPerWindow := 120
  rateWindowSec := 60
  injectionScanEnabled := true
  pathTraversalCheck := true
  maxBodySize := 0

structure RateBucket where
  ip : Bytes
  count : UInt32
  windowEnd : ℕ
  deriving DecidableEq

def secmonIpMax : ℕ := 64

def secmonReasonMax : ℕ := 128

structure SecurityMonitor where
  config : SecurityMonitorConfig
  buckets : Fin 256 → RateBucket
  rateLimitHits : UInt64
  injectionRejects : UInt64

def securityMonitorInit (config : SecurityMonitorConfig) : SecurityMonitor where
  config := config
  buckets := fun _ ↦ ⟨[], 0, 0⟩
  rateLimitHits := 0
  injectionRejects := 0

structure Request where
  clientIp : Bytes
  method : Bytes
  path : Bytes
  body : Bytes

/-! ## The checks -/

def SecmonResult.because (result : SecmonResult) (reason : Bytes) : SecmonResult × Bytes :=
  (result, CString.cut secmonReasonMax reason)

def strcasecmp (s t : Bytes) : Bool := s.map CString.tolower = t.map CString.tolower

def isMethod (method upper lower : Bytes) : Bool := method = upper || strcasecmp method lower

def methodAllowed (method : Bytes) : Bool :=
  match method with
  | [] => false
  | c :: _ =>
      if c = 71 ∨ c = 103 then isMethod method (ascii "GET") (ascii "get")
      else if c = 80 ∨ c = 112 then
        isMethod method (ascii "POST") (ascii "post") ||
          isMethod method (ascii "PUT") (ascii "put") ||
          isMethod method (ascii "PATCH") (ascii "patch")
      else if c = 72 ∨ c = 104 then isMethod method (ascii "HEAD") (ascii "head")
      else if c = 79 ∨ c = 111 then isMethod method (ascii "OPTIONS") (ascii "options")
      else if c = 68 ∨ c = 100 then isMethod method (ascii "DELETE") (ascii "delete")
      else false

def traversalPatterns : List Bytes :=
  [ascii "..", ascii "%2e%2e", ascii "%252e%252e", ascii "..%2f", ascii "%2f.."]

def pathHasTraversal (path : Bytes) : Bool :=
  traversalPatterns.any fun pattern ↦ (CString.strstr pattern path).isSome

def injectionPatterns : List Bytes :=
  ["ignore previous", "ignore all previous", "disregard previous", "forget everything",
    "you are now", "new instructions", "system:", "system prompt", "override instructions",
    "ignore above", "disregard above", "new identity", "pretend you are", "act as if",
    "from now on you", "your new role", "jailbreak", "developer mode", "DAN mode",
    "do anything now", "bypass", "ignore safety", "reveal your prompt", "repeat the above",
    "output your instructions", "what is your system prompt", "show your prompt"].map ascii

def injectionScanLen : ℕ := 16384

def containsInjectionPattern (body : Bytes) : Bool :=
  let lower := CString.ofBuffer ((body.take injectionScanLen).map CString.tolower)
  injectionPatterns.any fun pattern ↦ (CString.strstr pattern lower).isSome

def hashIp (ip : Bytes) : Fin 256 :=
  Fin.ofNat 256 (ip.foldl (fun h c ↦ 31 * h + c.toUInt32) (0 : UInt32)).toNat

def strncmpEq (s t : Bytes) (n : ℕ) : Bool := s.take n = t.take n

/-- The bucket after one request of `ip`. -/
def RateBucket.hit (b : RateBucket) (config : SecurityMonitorConfig) (ip : Bytes) (now : ℕ) :
    RateBucket :=
  let b := if b.windowEnd ≤ now || !strncmpEq b.ip ip (secmonIpMax - 1) then
      { ip := CString.cut secmonIpMax ip, count := 0,
        windowEnd := now + config.rateWindowSec.toNat }
    else b
  { b with count := b.count + 1 }

def Request.screened (req : Request) (config : SecurityMonitorConfig) :
    Option (SecmonResult × Bytes) :=
  if !methodAllowed req.method then
    some (SecmonResult.methodInvalid.because (ascii "method not allowed: " ++ req.method))
  else if config.pathTraversalCheck && pathHasTraversal req.path then
    some (SecmonResult.pathTraversal.because (ascii "path traversal detected"))
  else if 0 < config.maxBodySize ∧ config.maxBodySize < req.body.length then
    some (SecmonResult.bodyTooLarge.because
      (ascii "body too large: " ++ Decimal.printNat req.body.length))
  else none

def SecurityMonitor.scanBody (m : SecurityMonitor) (req : Request) :
    (SecmonResult × Bytes) × SecurityMonitor :=
  if m.config.injectionScanEnabled ∧ 0 < req.body.length ∧ containsInjectionPattern req.body then
    (SecmonResult.injectionSuspected.because (ascii "injection pattern detected in body"),
      { m with injectionRejects := m.injectionRejects + 1 })
  else ((.ok, []), m)

def securityMonitorCheckRequest (m : SecurityMonitor) (now : ℕ) (req : Request) :
    (SecmonResult × Bytes) × SecurityMonitor :=
  match req.screened m.config with
  | some rejection => (rejection, m)
  | none =>
      if m.config.rateLimitEnabled then
        let idx := hashIp req.clientIp
        let bucket := (m.buckets idx).hit m.config req.clientIp now
        let m := { m with buckets := Function.update m.buckets idx bucket }
        if m.config.rateLimitPerWindow < bucket.count then
          (SecmonResult.rateLimited.because (ascii "rate limit exceeded for " ++ req.clientIp),
            { m with rateLimitHits := m.rateLimitHits + 1 })
        else m.scanBody req
      else m.scanBody req

/-! ## Every sequence of requests -/

/-- The verdicts on a sequence of requests, each with the address it came from. -/
def securityMonitorRun : SecurityMonitor → List (ℕ × Request) → List (Bytes × SecmonResult)
  | _, [] => []
  | m, (now, req) :: rest =>
      (req.clientIp, (securityMonitorCheckRequest m now req).1.1) ::
        securityMonitorRun (securityMonitorCheckRequest m now req).2 rest

/-- A window that is open in the bucket of the request is the client's own,
and its 32-bit counter has room. -/
def Undisturbed (m : SecurityMonitor) (now : ℕ) (req : Request) : Prop :=
  now < (m.buckets (hashIp req.clientIp)).windowEnd →
    (m.buckets (hashIp req.clientIp)).ip = req.clientIp ∧
      (m.buckets (hashIp req.clientIp)).count.toNat + 1 < 2 ^ 32

def UndisturbedRun : SecurityMonitor → List (ℕ × Request) → Prop
  | _, [] => True
  | m, (now, req) :: rest =>
      Undisturbed m now req ∧ UndisturbedRun (securityMonitorCheckRequest m now req).2 rest

def RateBucket.slot (b : RateBucket) : FixedWindow.Slot Bytes := ⟨b.ip, ⟨b.count.toNat, b.windowEnd⟩⟩

def SecurityMonitor.table (m : SecurityMonitor) (i : Fin 256) : FixedWindow.Slot Bytes :=
  (m.buckets i).slot

theorem RateBucket.slot_hit {b : RateBucket} {config : SecurityMonitorConfig} {ip : Bytes} {now : ℕ}
    (hip : ip.length < secmonIpMax)
    (hown : now < b.windowEnd → b.ip = ip ∧ b.count.toNat + 1 < 2 ^ 32) :
    (b.hit config ip now).slot = b.slot.hit config.rateWindowSec.toNat ip now := by
  by_cases hopen : b.windowEnd ≤ now
  · simp [RateBucket.hit, RateBucket.slot, FixedWindow.Slot.hit, hopen, CString.cut_of_lt hip]
  · obtain ⟨rfl, hroom⟩ := hown (by omega)
    have hcount : (b.count + 1).toNat = b.count.toNat + 1 := by
      rw [UInt32.toNat_add, UInt32.toNat_one, Nat.mod_eq_of_lt hroom]
    simp [RateBucket.hit, RateBucket.slot, FixedWindow.Slot.hit, hopen, strncmpEq, hcount]

theorem securityMonitorCheckRequest_bucket {m : SecurityMonitor} {req : Request} (now : ℕ)
    (henabled : m.config.rateLimitEnabled = true) (hform : req.screened m.config = none) :
    let out := securityMonitorCheckRequest m now req
    let bucket := (m.buckets (hashIp req.clientIp)).hit m.config req.clientIp now
    out.2.config = m.config ∧
      out.2.buckets = Function.update m.buckets (hashIp req.clientIp) bucket ∧
      (out.1.1 = .rateLimited ↔ m.config.rateLimitPerWindow < bucket.count) := by
  simp only [securityMonitorCheckRequest, hform, henabled, if_true, SecurityMonitor.scanBody,
    SecmonResult.because]
  split_ifs with hlimit hscan <;> simp [hlimit]

theorem Undisturbed.check {m : SecurityMonitor} {now : ℕ} {req : Request}
    {spec : Bytes → FixedWindow.Counter} (hown : Undisturbed m now req)
    (hagree : FixedWindow.Agrees hashIp now m.table spec)
    (henabled : m.config.rateLimitEnabled = true) (hform : req.screened m.config = none)
    (hip : req.clientIp.length < secmonIpMax) :
    let out := securityMonitorCheckRequest m now req
    let width := m.config.rateWindowSec.toNat
    out.2.config = m.config ∧
      FixedWindow.Agrees hashIp now out.2.table
        (FixedWindow.hitKey width spec req.clientIp now) ∧
      (out.1.1 = .rateLimited ↔
        m.config.rateLimitPerWindow.toNat < ((spec req.clientIp).hit width now).count) := by
  intro out width
  obtain ⟨hconfig, hbuckets, hverdict⟩ := securityMonitorCheckRequest_bucket now henabled hform
  have hkey : now < (m.table (hashIp req.clientIp)).counter.windowEnd →
      (m.table (hashIp req.clientIp)).key = req.clientIp := fun h ↦ (hown h).1
  have hslot : ((m.buckets (hashIp req.clientIp)).hit m.config req.clientIp now).slot =
      (m.table (hashIp req.clientIp)).hit width req.clientIp now := RateBucket.slot_hit hip hown
  have hhit : (m.table (hashIp req.clientIp)).hit width req.clientIp now =
      ⟨req.clientIp, (spec req.clientIp).hit width now⟩ := hagree.hit_eq hkey
  refine ⟨hconfig, ?_, ?_⟩
  · have htable : out.2.table = Function.update m.table (hashIp req.clientIp)
        ((m.table (hashIp req.clientIp)).hit width req.clientIp now) := by
      funext i
      rw [SecurityMonitor.table, hbuckets, ← hslot]
      by_cases hi : i = hashIp req.clientIp
      · subst hi
        rw [Function.update_self, Function.update_self]
      · rw [Function.update_of_ne hi, Function.update_of_ne hi]
        rfl
    rw [htable]
    exact hagree.hit hkey
  · have hcount : ((m.buckets (hashIp req.clientIp)).hit m.config req.clientIp now).count.toNat =
        ((spec req.clientIp).hit width now).count :=
      congrArg (fun slot ↦ slot.counter.count) (hslot.trans hhit)
    rw [hverdict, UInt32.lt_iff_toNat_lt, hcount]

/-- Request by request the table answers as one counter for each address
would. -/
theorem securityMonitorRun_eq_keyedVerdicts {m : SecurityMonitor} {arrivals : List (ℕ × Request)}
    {spec : Bytes → FixedWindow.Counter} {start : ℕ}
    (hagree : FixedWindow.Agrees hashIp start m.table spec)
    (henabled : m.config.rateLimitEnabled = true)
    (htimes : (start :: arrivals.map Prod.fst).Pairwise (· ≤ ·))
    (hform : ∀ a ∈ arrivals, a.2.screened m.config = none)
    (hip : ∀ a ∈ arrivals, a.2.clientIp.length < secmonIpMax)
    (hrun : UndisturbedRun m arrivals) :
    (securityMonitorRun m arrivals).map (fun v ↦ (v.1, decide (v.2 = .rateLimited))) =
      FixedWindow.keyedVerdicts m.config.rateLimitPerWindow.toNat m.config.rateWindowSec.toNat spec
        (arrivals.map fun a ↦ (a.2.clientIp, a.1)) := by
  induction arrivals generalizing m spec start with
  | nil => rfl
  | cons a rest ih =>
      obtain ⟨now, req⟩ := a
      obtain ⟨hown, hrest⟩ := hrun
      obtain ⟨hstart, htimes⟩ := List.pairwise_cons.mp htimes
      have hnow : start ≤ now := hstart now (by simp)
      obtain ⟨hconfig, hagree', hverdict⟩ := hown.check (hagree.later hnow) henabled
        (hform _ List.mem_cons_self) (hip _ List.mem_cons_self)
      have hrec := ih hagree' (hconfig ▸ henabled) htimes
        (fun a ha ↦ hconfig ▸ hform a (List.mem_cons_of_mem _ ha))
        (fun a ha ↦ hip a (List.mem_cons_of_mem _ ha)) hrest
      rw [hconfig] at hrec
      simp only [securityMonitorRun, List.map_cons, FixedWindow.keyedVerdicts, hrec, hverdict]

theorem agrees_init (config : SecurityMonitorConfig) (now : ℕ) :
    FixedWindow.Agrees hashIp now (securityMonitorInit config).table
      fun _ ↦ FixedWindow.Counter.closed where
  of_spec k hk := absurd hk (by simp [FixedWindow.Counter.closed])
  of_table i hi := absurd hi (by
    simp [SecurityMonitor.table, securityMonitorInit, RateBucket.slot])

/-- As long as no bucket is taken from an address whose window is open, and no
32-bit counter is full, every address gets the verdicts of a fixed-window
counter of its own requests, whatever the others send in between. -/
theorem rate_limit_is_per_client (config : SecurityMonitorConfig)
    (henabled : config.rateLimitEnabled = true) (arrivals : List (ℕ × Request))
    (htimes : (arrivals.map Prod.fst).Pairwise (· ≤ ·))
    (hform : ∀ a ∈ arrivals, a.2.screened config = none)
    (hip : ∀ a ∈ arrivals, a.2.clientIp.length < 63)
    (hrun : UndisturbedRun (securityMonitorInit config) arrivals) (ip : Bytes) :
    ((securityMonitorRun (securityMonitorInit config) arrivals).filter fun v ↦ v.1 = ip).map
        (fun v ↦ decide (v.2 = .rateLimited)) =
      FixedWindow.verdicts config.rateLimitPerWindow.toNat config.rateWindowSec.toNat .closed
        ((arrivals.filter fun a ↦ a.2.clientIp = ip).map Prod.fst) := by
  have hkeyed := securityMonitorRun_eq_keyedVerdicts (agrees_init config 0) henabled
    (List.pairwise_cons.mpr ⟨fun _ _ ↦ Nat.zero_le _, htimes⟩) hform
    (fun a ha ↦ (hip a ha).trans (by decide)) hrun
  have hown := FixedWindow.verdicts_of_key config.rateLimitPerWindow.toNat
    config.rateWindowSec.toNat ip (fun _ ↦ FixedWindow.Counter.closed)
    (arrivals.map fun a ↦ (a.2.clientIp, a.1))
  rw [show FixedWindow.keyedVerdicts config.rateLimitPerWindow.toNat config.rateWindowSec.toNat _ _
    = _ from hkeyed.symm, List.filter_map, List.filter_map, List.map_map, List.map_map] at hown
  exact hown

def getRequest (ip : Bytes) : Request := ⟨ip, ascii "GET", ascii "/", []⟩

theorem rate_limit_is_per_client_two_buckets :
    let config := { securityMonitorConfigDefaults with rateLimitPerWindow := 1 }
    let arrivals := [(5, getRequest (ascii "10.0.0.1")), (6, getRequest (ascii "10.0.0.2")),
      (7, getRequest (ascii "10.0.0.1"))]
    UndisturbedRun (securityMonitorInit config) arrivals ∧
      ((securityMonitorRun (securityMonitorInit config) arrivals).filter fun v ↦
        v.1 = ascii "10.0.0.1").map (fun v ↦ decide (v.2 = .rateLimited)) = [false, true] := by
  intro config arrivals
  have hrun : UndisturbedRun (securityMonitorInit config) arrivals := by
    refine ⟨?_, ?_, ?_, trivial⟩
    · exact fun h ↦ absurd h (by decide)
    · exact fun h ↦ absurd h (by decide)
    · exact fun _ ↦ by decide
  refine ⟨hrun, ?_⟩
  rw [rate_limit_is_per_client config rfl arrivals (by decide) (by decide) (by decide) hrun]
  decide

/-- Two addresses that share a bucket: the second request of the first one is
let through although its window is open and its limit is one. -/
theorem rate_limit_is_not_per_client :
    ¬ ∀ (config : SecurityMonitorConfig) (arrivals : List (ℕ × Request)) (ip : Bytes),
      config.rateLimitEnabled = true → 1 ≤ config.rateLimitPerWindow.toNat →
      1 ≤ config.rateWindowSec.toNat → (arrivals.map Prod.fst).Pairwise (· ≤ ·) →
      (∀ a ∈ arrivals, a.2.screened config = none) →
      (∀ a ∈ arrivals, a.2.clientIp.length < 63) →
      ((securityMonitorRun (securityMonitorInit config) arrivals).filter fun v ↦ v.1 = ip).map
          (fun v ↦ decide (v.2 = .rateLimited)) =
        FixedWindow.verdicts config.rateLimitPerWindow.toNat config.rateWindowSec.toNat .closed
          ((arrivals.filter fun a ↦ a.2.clientIp = ip).map Prod.fst) := by
  intro h
  have hcollide := h { securityMonitorConfigDefaults with rateLimitPerWindow := 1 }
    [(5, getRequest (ascii "10.0.0.1")), (5, getRequest (ascii "10.0.0.144")),
      (5, getRequest (ascii "10.0.0.1"))] (ascii "10.0.0.1") rfl (by decide) (by decide)
    (by decide) (by decide) (by decide)
  revert hcollide
  decide +kernel

end DoctorClaw
